import TaggedJson.Emit.Writer
import TaggedJson.Proofs.Printed
/-! Calls of a writer in any order, some of which may fail. One that fails changes nothing. What has
been written after any number of calls is the beginning of a document, and the open scopes tell how
far it goes; merging decides which calls write something, and never what may come next. -/
namespace TaggedJson.Json

theorem spelling_append {left right : List Lexeme} {chars more : List Char}
    (first : Spelling left chars) (second : Spelling right more) :
    Spelling (left ++ right) (chars ++ more) := by
  induction first with
  | nil blank => exact spelling_after_blank blank second
  | cons blank spelled _ ih =>
    rw [List.append_assoc, List.append_assoc]
    exact .cons blank spelled ih

theorem spelling_single {lexeme : Lexeme} {chars : List Char} (spelled : lexeme.Spelled chars) :
    Spelling [lexeme] chars := by
  have blank : Blank [] := nofun
  rw [← List.append_nil chars]
  exact spelling_exact spelled (.nil blank)

/-! Containers that have not ended. -/

/-- Parts with a comma before each but the first. -/
def joined : Bool → List (List Lexeme) → List Lexeme
  | _, [] => []
  | first, part :: rest => separator first ++ (part ++ joined false rest)

def memberPart (member : String × Document) : List Lexeme :=
  .string member.1 :: .colon :: member.2.lexemes

theorem joined_concat (first : Bool) (parts : List (List Lexeme)) (part : List Lexeme) :
    joined first (parts ++ [part]) =
      joined first parts ++ (separator (first && parts.isEmpty) ++ part) := by
  induction parts generalizing first with
  | nil => simp [joined]
  | cons other rest ih =>
    rw [List.cons_append, joined, ih, joined]
    simp

theorem itemLexemes_joined (first : Bool) (items : List Document) :
    Document.itemLexemes first items =
      joined first (items.map Document.lexemes) ++ [.closeArray] := by
  induction items generalizing first with
  | nil => rfl
  | cons item rest ih =>
    rw [Document.itemLexemes, ih, List.map_cons, joined]
    simp

theorem memberLexemes_joined (first : Bool) (members : List (String × Document)) :
    Document.memberLexemes first members =
      joined first (members.map memberPart) ++ [.closeObject] := by
  induction members generalizing first with
  | nil => rfl
  | cons member rest ih =>
    rw [Document.memberLexemes, ih, List.map_cons, joined]
    simp [memberPart]

end TaggedJson.Json

namespace TaggedJson.Emit
open Json (Document Lexeme Scope Spells Spelling joined joined_concat memberPart separator)

/-- The beginning of a container with these parts, where there is a place for a value. -/
def Opened (place : List Lexeme → Prop) (opening : Lexeme) (parts : List (List Lexeme))
    (lexemes : List Lexeme) : Prop :=
  ∃ before, (∀ value : Document, place (before ++ value.lexemes)) ∧
    lexemes = before ++ opening :: joined true parts

/-- The beginning of a document, up to where the open scopes are. The scope around a container is
already that after a value. -/
def Drafted : List Scope → List Lexeme → Prop
  | [], _ => False
  | .documentStart :: outer, lexemes => outer = [] ∧ lexemes = []
  | .documentEnd :: outer, lexemes => outer = [] ∧ ∃ document : Document, lexemes = document.lexemes
  | .arrayStart :: outer, lexemes => Opened (Drafted outer) .openArray [] lexemes
  | .arrayNext :: outer, lexemes => ∃ items : List Document, items ≠ [] ∧
      Opened (Drafted outer) .openArray (items.map Document.lexemes) lexemes
  | .objectStart :: outer, lexemes => Opened (Drafted outer) .openObject [] lexemes
  | .objectNext :: outer, lexemes => ∃ members : List (String × Document), members ≠ [] ∧
      Opened (Drafted outer) .openObject (members.map memberPart) lexemes
  | .objectValue :: outer, lexemes => ∃ (members : List (String × Document)) (name : String)
      (first : List Lexeme), Opened (Drafted outer) .openObject (members.map memberPart) first ∧
        lexemes = first ++ (separator members.isEmpty ++ [.string name, .colon])

theorem Opened.add {place : List Lexeme → Prop} {opening : Lexeme} {parts : List (List Lexeme)}
    {lexemes : List Lexeme} (opened : Opened place opening parts lexemes) (part : List Lexeme) :
    Opened place opening (parts ++ [part]) (lexemes ++ (separator parts.isEmpty ++ part)) := by
  obtain ⟨before, open_, rfl⟩ := opened
  refine ⟨before, open_, ?_⟩
  rw [joined_concat, Bool.true_and, List.append_assoc, List.cons_append]

section Places
variable {outer : List Scope} {lexemes : List Lexeme}

theorem Opened.closeArray {items : List Document}
    (opened : Opened (Drafted outer) .openArray (items.map Document.lexemes) lexemes) :
    Drafted outer (lexemes ++ [.closeArray]) := by
  obtain ⟨before, place, rfl⟩ := opened
  have whole := place (.array items)
  rw [Document.lexemes, Json.itemLexemes_joined] at whole
  rwa [List.append_assoc, List.cons_append]

theorem Opened.closeObject {members : List (String × Document)}
    (opened : Opened (Drafted outer) .openObject (members.map memberPart) lexemes) :
    Drafted outer (lexemes ++ [.closeObject]) := by
  obtain ⟨before, place, rfl⟩ := opened
  have whole := place (.object members)
  rw [Document.lexemes, Json.memberLexemes_joined] at whole
  rwa [List.append_assoc, List.cons_append]

/-- An array may end before an item. -/
theorem drafted_closeArray {scope : Scope} (inside : scope = .arrayStart ∨ scope = .arrayNext)
    (drafted : Drafted (scope :: outer) lexemes) : Drafted outer (lexemes ++ [.closeArray]) := by
  rcases inside with rfl | rfl
  · have opened : Opened (Drafted outer) .openArray (([] : List Document).map Document.lexemes)
        lexemes := drafted
    exact opened.closeArray
  · obtain ⟨items, -, opened⟩ := drafted
    exact opened.closeArray

/-- In an object, before a name or the end. -/
theorem drafted_members {scope : Scope} (inside : scope = .objectStart ∨ scope = .objectNext)
    (drafted : Drafted (scope :: outer) lexemes) : ∃ members : List (String × Document),
      Opened (Drafted outer) .openObject (members.map memberPart) lexemes ∧
        members.isEmpty = decide (scope = .objectStart) := by
  rcases inside with rfl | rfl
  · exact ⟨[], drafted, rfl⟩
  · obtain ⟨members, some, opened⟩ := drafted
    exact ⟨members, opened, by simpa using some⟩

theorem drafted_closeObject {scope : Scope} (inside : scope = .objectStart ∨ scope = .objectNext)
    (drafted : Drafted (scope :: outer) lexemes) : Drafted outer (lexemes ++ [.closeObject]) := by
  obtain ⟨members, opened, -⟩ := drafted_members inside drafted
  exact opened.closeObject

theorem drafted_name {scope : Scope} (inside : scope = .objectStart ∨ scope = .objectNext)
    (drafted : Drafted (scope :: outer) lexemes) (text : String) :
    Drafted (.objectValue :: outer)
      (lexemes ++ (separator (decide (scope = .objectStart)) ++ [.string text, .colon])) := by
  obtain ⟨members, opened, first⟩ := drafted_members inside drafted
  rw [← first]
  exact ⟨members, text, lexemes, opened, rfl⟩

end Places

/-! The text written so far. -/

namespace Writer

/-- The text spells the beginning of a document that the scopes tell. -/
def Sound (w : Writer) : Prop := ∃ lexemes, Drafted w.scopes lexemes ∧ Spelling lexemes w.out.toList

/-- The text goes up to a place for a value, and any value may come. -/
def Awaits (w : Writer) : Prop := ∃ lexemes,
  (∀ value : Document, Drafted w.scopes (lexemes ++ value.lexemes)) ∧ Spelling lexemes w.out.toList

theorem spelling_write {w : Writer} {before more : List Lexeme} {chars : List Char}
    (first : Spelling before w.out.toList) (second : Spelling more chars) :
    Spelling (before ++ more) (w.write chars).out.toList := by
  rw [write, String.toList_append, String.toList_ofList]
  exact Json.spelling_append first second

theorem empty_sound : empty.Sound := ⟨[], ⟨rfl, rfl⟩, .nil nofun⟩

/-- A value without parts. -/
theorem Awaits.scalar {w : Writer} (awaits : w.Awaits) (value : Document) {lexeme : Lexeme}
    {chars : List Char} (single : value.lexemes = [lexeme]) (spelled : lexeme.Spelled chars) :
    (w.write chars).Sound := by
  obtain ⟨lexemes, place, spelling⟩ := awaits
  refine ⟨lexemes ++ value.lexemes, place value, spelling_write spelling ?_⟩
  rw [single]
  exact Json.spelling_single spelled

/-- A container without parts yet. -/
theorem Awaits.opening {w : Writer} (awaits : w.Awaits) {scope : Scope} {bracket : Lexeme}
    {char : Char} (spelled : bracket.Spelled [char])
    (opens : ∀ lexemes, Opened (Drafted w.scopes) bracket [] lexemes →
      Drafted (scope :: w.scopes) lexemes) : ((w.push scope).write [char]).Sound := by
  obtain ⟨lexemes, place, spelling⟩ := awaits
  refine ⟨lexemes ++ [bracket], opens _ ⟨lexemes, place, rfl⟩, ?_⟩
  exact spelling_write (w := w.push scope) spelling (Json.spelling_single spelled)

end Writer

/-! What each call leaves. -/

theorem placeValue_awaits {w placed : Writer} (sound : w.Sound)
    (ran : placeValue w = .ok () placed) : placed.Awaits := by
  obtain ⟨out, scopes, merge⟩ := w
  obtain ⟨lexemes, drafted, spelling⟩ := sound
  cases scopes with
  | nil => exact drafted.elim
  | cons scope outer =>
    cases scope with
    | documentEnd | objectStart | objectNext => cases ran
    | documentStart =>
      cases ran
      obtain ⟨rfl, rfl⟩ := drafted
      exact ⟨[], fun value => ⟨rfl, value, rfl⟩, spelling⟩
    | arrayStart =>
      cases ran
      refine ⟨lexemes, fun value => ⟨[value], List.cons_ne_nil _ _, ?_⟩, spelling⟩
      exact Opened.add drafted value.lexemes
    | arrayNext =>
      cases ran
      obtain ⟨items, some, opened⟩ := drafted
      refine ⟨lexemes ++ [.comma], fun value => ⟨items ++ [value], by simp, ?_⟩,
        Writer.spelling_write spelling (Json.spelling_single .comma)⟩
      have added := opened.add value.lexemes
      rw [List.isEmpty_map, List.isEmpty_eq_false_iff.mpr some] at added
      rwa [List.map_append, List.append_assoc]
    | objectValue =>
      cases ran
      obtain ⟨members, name, first, opened, rfl⟩ := drafted
      refine ⟨_, fun value => ⟨members ++ [(name, value)], by simp, ?_⟩, spelling⟩
      have added := opened.add (memberPart (name, value))
      rw [List.isEmpty_map] at added
      simpa [memberPart] using added

theorem scalar_sound {w after : Writer} (sound : w.Sound) (value : Document) {lexeme : Lexeme}
    {chars : List Char} (single : value.lexemes = [lexeme]) (spelled : lexeme.Spelled chars)
    (ran : scalar chars w = .ok () after) : after.Sound := by
  rw [scalar] at ran
  split at ran <;> cases ran
  rename_i placed
  exact (placeValue_awaits sound placed).scalar value single spelled

theorem beginObject_sound {w after : Writer} (sound : w.Sound)
    (ran : beginObject w = .ok () after) : after.Sound := by
  rw [beginObject] at ran
  split at ran
  · cases ran
    exact sound
  · split at ran <;> cases ran
    rename_i placed
    exact (placeValue_awaits sound placed).opening .openObject fun _ => id

theorem beginArray_sound {w after : Writer} (sound : w.Sound)
    (ran : beginArray w = .ok () after) : after.Sound := by
  rw [beginArray] at ran
  split at ran <;> cases ran
  rename_i placed
  exact (placeValue_awaits sound placed).opening .openArray fun _ => id

theorem scopes_of_top {w : Writer} {scope : Scope} (top : w.top = scope)
    (inside : scope ≠ .documentStart) : w.scopes = scope :: w.scopes.tail := by
  obtain ⟨out, scopes, merge⟩ := w
  cases scopes with
  | nil => exact (inside top.symm).elim
  | cons first outer => exact congrArg (· :: outer) top

/-- What comes next where the innermost scope is. -/
theorem Writer.Sound.onward {w : Writer} {scope : Scope} (sound : w.Sound) (after : Writer)
    (top : w.top = scope) (inside : scope ≠ .documentStart) (same : after.out = w.out)
    {more : List Lexeme} {chars : List Char} (goes : ∀ lexemes,
      Drafted (scope :: w.scopes.tail) lexemes → Drafted after.scopes (lexemes ++ more))
    (spelled : Spelling more chars) : (after.write chars).Sound := by
  obtain ⟨lexemes, drafted, spelling⟩ := sound
  rw [scopes_of_top top inside] at drafted
  rw [← same] at spelling
  exact ⟨_, goes lexemes drafted, Writer.spelling_write spelling spelled⟩

theorem endObject_sound {w after : Writer} (sound : w.Sound)
    (ran : endObject w = .ok () after) : after.Sound := by
  rw [endObject] at ran
  split at ran
  · cases ran
    exact sound
  · split at ran <;> cases ran <;> rename_i top
    · exact sound.onward w.pop top nofun rfl (fun _ => drafted_closeObject (.inl rfl))
        (Json.spelling_single .closeObject)
    · exact sound.onward w.pop top nofun rfl (fun _ => drafted_closeObject (.inr rfl))
        (Json.spelling_single .closeObject)

theorem endArray_sound {w after : Writer} (sound : w.Sound)
    (ran : endArray w = .ok () after) : after.Sound := by
  rw [endArray] at ran
  split at ran <;> cases ran <;> rename_i top
  · exact sound.onward w.pop top nofun rfl (fun _ => drafted_closeArray (.inl rfl))
      (Json.spelling_single .closeArray)
  · exact sound.onward w.pop top nofun rfl (fun _ => drafted_closeArray (.inr rfl))
      (Json.spelling_single .closeArray)

theorem name_sound {w after : Writer} (sound : w.Sound) {text : String}
    (ran : name text w = .ok () after) : after.Sound := by
  have label : Spelling [.string text, .colon] (Text.quoteChars text.toList ++ [':']) :=
    Json.spelling_exact (Json.quoteChars_spelled text) (Json.spelling_single .colon)
  unfold name at ran
  dsimp only at ran
  split at ran
  · rename_i top
    obtain ⟨-, rfl⟩ := EStateM.Result.ok.inj ran
    exact sound.onward (w.withScope .objectValue) top nofun rfl
      (fun _ drafted => drafted_name (.inl rfl) drafted text) label
  · rename_i top
    obtain ⟨-, rfl⟩ := EStateM.Result.ok.inj ran
    exact sound.onward (w.withScope .objectValue) top nofun rfl
      (fun _ drafted => drafted_name (.inr rfl) drafted text) (Json.spelling_exact .comma label)
  · cases ran
  · cases ran

/-! Calls. -/

/-- A call on a writer. Going back to a state of merging, a client may use any that it was given at
any time, and more than once; here it may be any state at all. -/
inductive Call where
  | beginObject
  | endObject
  | beginArray
  | endArray
  | name (text : String)
  | string (text : String)
  | bool (value : Bool)
  | null
  | integer (value : Int)
  | double (value : Binary64)
  | beginMerge
  | endMerge (before : Option Merge)

def Call.run : Call → Emit Unit
  | .beginObject => Emit.beginObject
  | .endObject => Emit.endObject
  | .beginArray => Emit.beginArray
  | .endArray => Emit.endArray
  | .name text => Emit.name text
  | .string text => Emit.string text
  | .bool value => Emit.bool value
  | .null => Emit.null
  | .integer value => Emit.integer value
  | .double value => Emit.double value
  | .beginMerge => do let _ ← Emit.beginMerge
  | .endMerge before => Emit.endMerge before

/-- Calls one after the other. After one that fails the next begins where that one got to. -/
def runCalls : List Call → Writer → Writer
  | [], w => w
  | call :: rest, w =>
    match call.run w with
    | .ok _ after | .error _ after => runCalls rest after

/-- Those of the calls that do not fail. -/
def succeeding : List Call → Writer → List Call
  | [], _ => []
  | call :: rest, w =>
    match call.run w with
    | .ok _ after => call :: succeeding rest after
    | .error _ after => succeeding rest after

theorem Call.run_sound {call : Call} {w after : Writer} (sound : w.Sound)
    (ran : call.run w = .ok () after) : after.Sound := by
  cases call with
  | beginObject => exact beginObject_sound sound ran
  | endObject => exact endObject_sound sound ran
  | beginArray => exact beginArray_sound sound ran
  | endArray => exact endArray_sound sound ran
  | name text => exact name_sound sound ran
  | string text => exact scalar_sound sound (.string text) rfl (Json.quoteChars_spelled text) ran
  | bool value => cases value <;> exact scalar_sound sound (.bool _) rfl (by constructor) ran
  | null => exact scalar_sound sound .null rfl .null ran
  | integer value =>
    have spelled := Lexeme.Spelled.number (Json.integerLiteral_grammatical value)
    rw [Json.integerLiteral_chars] at spelled
    exact scalar_sound sound (.number _) rfl spelled ran
  | double value =>
    cases value with
    | finite value =>
      have spelled := Lexeme.Spelled.number (Json.Number.double value).literal_grammatical
      rw [Json.Number.literal_chars] at spelled
      exact scalar_sound sound (.number _) rfl spelled ran
    | infinite negative => cases ran
    | nan => cases ran
  | beginMerge =>
    cases ran
    exact sound
  | endMerge before =>
    cases ran
    exact sound

theorem placeValue_error {w after : Writer} {e : EncodeError}
    (failed : placeValue w = .error e after) : after = w := by
  unfold placeValue at failed
  split at failed <;> cases failed <;> rfl

theorem scalar_error {w after : Writer} {e : EncodeError} {chars : List Char}
    (failed : scalar chars w = .error e after) : after = w := by
  rw [scalar] at failed
  split at failed <;> cases failed
  rename_i stuck
  exact placeValue_error stuck

theorem name_error {w after : Writer} {e : EncodeError} {text : String}
    (failed : name text w = .error e after) : after = w := by
  unfold name at failed
  dsimp only at failed
  split at failed <;> cases failed <;> rfl

/-- A call that fails leaves the writer as it was. -/
theorem Call.run_error {call : Call} {w after : Writer} {e : EncodeError}
    (failed : call.run w = .error e after) : after = w := by
  cases call with
  | beginObject =>
    rw [Call.run, Emit.beginObject] at failed
    split at failed
    · cases failed
    · split at failed <;> cases failed
      rename_i stuck
      exact placeValue_error stuck
  | endObject =>
    rw [Call.run, Emit.endObject] at failed
    split at failed
    · cases failed
    · split at failed <;> cases failed <;> rfl
  | beginArray =>
    rw [Call.run, Emit.beginArray] at failed
    split at failed <;> cases failed
    rename_i stuck
    exact placeValue_error stuck
  | endArray =>
    rw [Call.run, Emit.endArray] at failed
    split at failed <;> cases failed
    rfl
  | name text => exact name_error failed
  | string text => exact scalar_error failed
  | bool value => exact scalar_error failed
  | null => exact scalar_error failed
  | integer value => exact scalar_error failed
  | double value =>
    cases value with
    | finite value => exact scalar_error failed
    | infinite negative | nan =>
      cases failed
      rfl
  | beginMerge => cases failed
  | endMerge before => cases failed

theorem runCalls_sound (calls : List Call) {w : Writer} (sound : w.Sound) :
    (runCalls calls w).Sound := by
  induction calls generalizing w with
  | nil => exact sound
  | cons call rest ih =>
    rw [runCalls]
    cases ran : call.run w with
    | ok u after => exact ih (Call.run_sound sound ran)
    | error e after =>
      obtain rfl := Call.run_error ran
      exact ih sound

/-- Calls that fail may be left out. -/
theorem runCalls_succeeding (calls : List Call) (w : Writer) :
    runCalls (succeeding calls w) w = runCalls calls w := by
  induction calls generalizing w with
  | nil => rfl
  | cons call rest ih =>
    rw [succeeding, runCalls]
    cases ran : call.run w with
    | ok u after =>
      show runCalls (call :: succeeding rest after) w = runCalls rest after
      rw [runCalls, ran]
      exact ih after
    | error e after =>
      obtain rfl := Call.run_error ran
      exact ih after

theorem finish_ok {w : Writer} {text : String} :
    w.finish = .ok text ↔ w.scopes = [.documentEnd] ∧ text = w.out := by
  unfold Writer.finish
  by_cases ended : w.scopes = [.documentEnd]
  · simp [ended, eq_comm]
  · by_cases started : w.scopes = [.documentStart] <;> simp [ended, started]

/-- Whichever calls are made, each that fails leaves the writer as it was, so leaving them all out
comes to the same. If the writer can finish then its text spells a document. -/
theorem runCalls_finish (calls : List Call) :
    (∀ (call : Call) (w after : Writer) (e : EncodeError),
      call.run w = .error e after → after = w) ∧
    (∀ w, runCalls (succeeding calls w) w = runCalls calls w) ∧
    ∀ text, (runCalls calls Writer.empty).finish = .ok text →
      ∃ document, Spells text document := by
  refine ⟨fun call w after e => Call.run_error, runCalls_succeeding calls, fun text finished => ?_⟩
  obtain ⟨ended, rfl⟩ := finish_ok.mp finished
  obtain ⟨lexemes, drafted, spelling⟩ := runCalls_sound calls Writer.empty_sound
  rw [ended] at drafted
  obtain ⟨-, document, rfl⟩ := drafted
  exact ⟨document, spelling⟩

/-- The object inside is merged, and the calls that close what is not open are passed over. -/
example : (runCalls [.beginObject, .beginMerge, .beginObject, .endArray, .endObject, .endMerge none,
    .endObject, .endObject] Writer.empty).finish = .ok "{}" := by rfl

end TaggedJson.Emit
