import TaggedJson.Proofs.Builds
import TaggedJson.Proofs.Carried
import TaggedJson.Proofs.Delegates
import TaggedJson.Proofs.Fields
import TaggedJson.Proofs.Integrity
import TaggedJson.Proofs.Restoration
import TaggedJson.Proofs.Transport
/-! Where the newlines in errors come from. A name or a label that was read has a newline in it only
if the document spells one as an escape; bare ones are refused. So the errors of a document without
such an escape are on one line each, unless it is the table that has keys or labels with
newlines. -/
namespace TaggedJson
open Json Pull

/-! Newlines in what is read. -/

/-- An escape in the text stands for a newline. -/
def SpellsBreak (chars : List Char) : Prop :=
  ∃ spelled, CharSpelled '\n' spelled ∧ spelled <:+: chars

theorem SpellsBreak.within {inner outer : List Char} (breaks : SpellsBreak inner)
    (inside : inner <:+: outer) : SpellsBreak outer := by
  obtain ⟨spelled, escape, held⟩ := breaks
  exact ⟨spelled, escape, held.trans inside⟩

theorem spelled_of_mem {c : Char} {decoded chars : List Char}
    (spelled : CharsSpelled decoded chars) (member : c ∈ decoded) :
    ∃ one, CharSpelled c one ∧ one <:+: chars := by
  induction spelled with
  | nil => cases member
  | @cons first decoded one more own others ih =>
    rcases List.mem_cons.mp member with rfl | later
    · exact ⟨one, own, (List.prefix_append one more).isInfix⟩
    · obtain ⟨found, escape, held⟩ := ih later
      exact ⟨found, escape, held.trans (List.suffix_append one more).isInfix⟩

theorem literal_unbroken {literal : NumberLiteral} (grammatical : literal.Grammatical) :
    Unbroken literal.text := by
  rw [Unbroken, NumberLiteral.text, String.toList_ofList]
  intro newline
  exact absurd (literal_printable grammatical _ newline) (by decide)

namespace Pull

/-- Nothing that was read or can still be read has a newline in it. -/
structure Smooth (c : Cursor) : Prop where
  rest : ¬SpellsBreak c.place.rest
  path : ∀ name, Step.field (some name) ∈ c.path → Unbroken name

section Smooth
variable {c d : Cursor}

theorem smooth_ofText {text : String} (plain : ¬SpellsBreak text.toList) :
    Smooth (Cursor.ofText text) := ⟨plain, nofun⟩

theorem Smooth.onward (smooth : Smooth c) (rest : d.place.rest <:+ c.place.rest)
    (path : d.path = c.path) : Smooth d where
  rest breaks := smooth.rest (breaks.within rest.isInfix)
  path := path ▸ smooth.path

theorem step_unbroken {step : Step} (names : ∀ name, step = .field (some name) → Unbroken name) :
    Unbroken step.text := by
  cases step with
  | index position =>
    rw [Step.text, unbroken_append, unbroken_append]
    exact ⟨⟨by decide, unbroken_number position⟩, by decide⟩
  | field name =>
    cases name with
    | none => decide
    | some name =>
      rw [Step.text, unbroken_append]
      exact ⟨by decide, names name rfl⟩

theorem Smooth.pathText (smooth : Smooth c) : Unbroken c.pathText := by
  have names := smooth.path
  unfold Cursor.pathText
  generalize c.path = path at names
  induction path with
  | nil => decide
  | cons step outer ih =>
    rw [List.foldr_cons, unbroken_append]
    constructor
    · exact ih fun name member => names name (List.mem_cons_of_mem _ member)
    · exact step_unbroken fun name same => names name (same ▸ List.mem_cons_self)

theorem Smooth.setName (smooth : Smooth c) {name : String} (single : Unbroken name) :
    Smooth (c.setName name) := by
  unfold Cursor.setName
  split
  · rename_i outer path
    refine ⟨smooth.rest, fun other member => ?_⟩
    rcases List.mem_cons.mp member with same | later
    · cases same
      exact single
    · exact smooth.path other (path ▸ List.mem_cons_of_mem _ later)
  · exact smooth

theorem Smooth.valueTaken (smooth : Smooth c) : Smooth c.valueTaken := by
  unfold Cursor.valueTaken
  split
  · rename_i position outer path
    refine ⟨smooth.rest, fun other member => ?_⟩
    rcases List.mem_cons.mp member with same | later
    · cases same
    · exact smooth.path other (path ▸ List.mem_cons_of_mem _ later)
  · exact smooth

theorem Smooth.push (smooth : Smooth c) (scope : Scope) {step : Step}
    (fresh : ∀ name, step ≠ .field (some name)) : Smooth (c.push scope step) where
  rest := smooth.rest
  path name member := by
    rcases List.mem_cons.mp member with same | outer
    · exact (fresh name same.symm).elim
    · exact smooth.path name outer

theorem Smooth.pop (smooth : Smooth c) : Smooth c.pop :=
  Smooth.valueTaken ⟨smooth.rest, fun name member => smooth.path name (List.mem_of_mem_tail member)⟩

end Smooth

/-! Looks. -/

theorem look_carried {c d : Cursor} {e : DecodeError} (failed : look c = .error e d) :
    e.carried = [d.pathText] := by
  have value {c d : Cursor} {e : DecodeError} (failed : lookValue c = .error e d) :
      e.carried = [d.pathText] := by
    simp only [lookValue, lookLiteral] at failed
    repeat' split at failed
    all_goals cases failed
    all_goals rfl
  have name {first : Bool} {c d : Cursor} {e : DecodeError}
      (failed : lookName first c = .error e d) : e.carried = [d.pathText] := by
    simp only [lookName] at failed
    repeat' split at failed
    all_goals cases failed
    all_goals rfl
  simp only [look, lookAfterName, lookAfterMember, lookFirstItem, lookAfterItem, lookEnd] at failed
  repeat' split at failed
  all_goals first
    | exact value failed
    | exact name failed
    | (cases failed
       try rfl)

/-! Operations. -/

/-- The error carries no newline, or the state has none and the result is as it should be. -/
def Clean (Q : α → Prop) : Outcome α → Prop
  | .ok a c => Smooth c ∧ Q a
  | .error e _ => ∀ text ∈ e.carried, Unbroken text

def Ensures (Q : α → Prop) (x : Pull α) : Prop := ∀ c, Smooth c → Clean Q (x c)

namespace Ensures
variable {Q : α → Prop} {R : β → Prop}

theorem pure {a : α} (holds : Q a) : Ensures Q (pure a : Pull α) := fun _ smooth => ⟨smooth, holds⟩

theorem bind {x : Pull α} {f : α → Pull β} (first : Ensures Q x)
    (next : ∀ a, Q a → Ensures R (f a)) : Ensures R (x >>= f) := by
  intro c smooth
  have begun := first c smooth
  show Clean R (EStateM.bind x f c)
  unfold EStateM.bind
  cases ran : x c with
  | error e d =>
    rw [ran] at begun
    exact begun
  | ok a d =>
    rw [ran] at begun
    exact next a begun.2 d begun.1

theorem weaken {P : α → Prop} {x : Pull α} (holds : Ensures P x) (less : ∀ a, P a → Q a) :
    Ensures Q x := by
  intro c smooth
  have ended := holds c smooth
  cases ran : x c with
  | error e d =>
    rw [ran] at ended
    exact ended
  | ok a d =>
    rw [ran] at ended
    exact ⟨ended.1, less a ended.2⟩

theorem map {x : Pull α} (f : α → β) (first : Ensures (fun a => R (f a)) x) :
    Ensures R (f <$> x) := by
  intro c smooth
  have ended := first c smooth
  show Clean R (EStateM.map f x c)
  unfold EStateM.map
  cases ran : x c <;> rw [ran] at ended <;> exact ended

theorem fail {error : Cursor → DecodeError}
    (harmless : ∀ c, Smooth c → ∀ text ∈ (error c).carried, Unbroken text) :
    Ensures Q (fail error : Pull α) := fun c smooth => harmless c smooth

theorem get : Ensures Smooth (get : Pull Cursor) := fun _ smooth => ⟨smooth, smooth⟩

theorem modify {f : Cursor → Cursor} (keeps : ∀ c, Smooth c → Smooth (f c)) :
    Ensures (fun _ => True) (modify f : Pull Unit) := fun c smooth => ⟨keeps c smooth, trivial⟩

theorem iterate {step : α → Pull (α ⊕ β)} (advances : Advances step)
    (steps : ∀ s, Q s → Ensures (Sum.elim Q R) (step s)) {s : α} (begins : Q s) :
    Ensures R (iterate step advances s) := by
  intro c smooth
  fun_induction Pull.iterate step advances s c with
  | case1 s c e d failed =>
    have ended := steps s begins c smooth
    rw [failed] at ended
    exact ended
  | case2 s c result d done =>
    have ended := steps s begins c smooth
    rw [done] at ended
    exact ended
  | case3 s c next d stepped ih =>
    have begun := steps s begins c smooth
    rw [stepped] at begun
    exact ih begun.2 begun.1

/-! Looking ahead. -/

theorem ahead : Ensures (fun _ => True) ahead := by
  intro c smooth
  unfold Pull.ahead
  split
  · exact ⟨smooth, trivial⟩
  · have moves := Moves.look c
    split <;> rename_i looked <;> rw [looked] at moves
    · obtain ⟨passed, rest, -⟩ := moves.place
      exact ⟨smooth.onward ⟨passed, rest.symm⟩ moves.path, trivial⟩
    · rename_i e d
      have stands : Smooth d := by
        obtain ⟨passed, rest, -⟩ := moves.place
        exact smooth.onward ⟨passed, rest.symm⟩ moves.path
      show ∀ text ∈ e.carried, Unbroken text
      rw [look_carried looked, List.forall_mem_singleton]
      exact stands.pathText

/-- What looks at the token ahead and goes on from there. -/
theorem looks {x : Pull α} (stops : ∀ c e d, Pull.ahead c = .error e d → ∃ d', x c = .error e d')
    (stands : ∀ c seen d, Pull.ahead c = .ok seen d → Smooth d → Clean Q (x c)) : Ensures Q x := by
  intro c smooth
  have begun := ahead c smooth
  cases looked : Pull.ahead c with
  | error e d =>
    obtain ⟨d', stopped⟩ := stops c e d looked
    rw [looked] at begun
    rw [stopped]
    exact begun
  | ok seen d =>
    rw [looked] at begun
    exact stands c seen d looked begun.1

theorem peek : Ensures (fun _ => True) peek := by
  refine .looks (fun c e d failed => ⟨d, ?_⟩) fun c seen d looked smooth => ?_
  · rw [Pull.peek, failed]
  · rw [Pull.peek, looked]
    exact ⟨smooth, trivial⟩

theorem hasNext : Ensures (fun _ => True) hasNext := by
  refine .looks (fun c e d failed => ⟨d, ?_⟩) fun c seen d looked smooth => ?_
  · rw [Pull.hasNext, failed]
  · rw [Pull.hasNext, looked]
    exact ⟨smooth, trivial⟩

theorem expectEnd : Ensures (fun _ => True) expectEnd := by
  refine .looks (fun c e d failed => ⟨d, ?_⟩) fun c seen d looked smooth => ?_
  · rw [Pull.expectEnd, failed]
  · simp only [Pull.expectEnd, looked]
    split
    · exact ⟨smooth, trivial⟩
    · exact List.forall_mem_singleton.mpr smooth.pathText

theorem takeToken (wanted : Ahead) (expected : Expected) :
    Ensures (fun _ => True) (takeToken wanted expected) := by
  refine .looks (fun c e d failed => ⟨d, ?_⟩) fun c seen d looked smooth => ?_
  · rw [Pull.takeToken, failed]
  · simp only [Pull.takeToken, looked]
    split
    · exact ⟨⟨smooth.rest, smooth.path⟩, trivial⟩
    · exact List.forall_mem_singleton.mpr smooth.pathText

theorem aheadAs (expected : Expected) (select : Ahead → Option α) :
    Ensures (fun _ => True) (aheadAs expected select) := by
  refine .looks (fun c e d failed => ⟨d, ?_⟩) fun c seen d looked smooth => ?_
  · rw [Pull.aheadAs, failed]
  · simp only [Pull.aheadAs, looked]
    split
    · exact ⟨smooth, trivial⟩
    · exact List.forall_mem_singleton.mpr smooth.pathText

/-! Lexemes. -/

/-- What a scan lexes is on one line, if nothing in the text spells a newline. -/
def Lexes (Q : α → Prop) (scan : Place → Except Fault (α × Place)) : Prop :=
  ∀ place a after, ¬SpellsBreak place.rest → scan place = .ok (a, after) →
    Q a ∧ after.rest <:+ place.rest

theorem scanString_lexes : Lexes Unbroken scanString := by
  intro place text after plain found
  unfold scanString at found
  split at found
  · cases found
  · rename_i decoded place' scanned
    cases found
    obtain ⟨spelled, chars, shape⟩ := scanQuoted_ok scanned
    have inside : place.rest.drop 1 <:+ place.rest := List.drop_suffix 1 _
    constructor
    · intro newline
      rw [String.toList_ofList] at newline
      obtain ⟨one, escape, held⟩ := spelled_of_mem chars newline
      have front : spelled <:+: place.rest.drop 1 :=
        ⟨[], _, by rw [List.nil_append]; exact shape.symm⟩
      exact plain ⟨one, escape, (held.trans front).trans inside.isInfix⟩
    · refine .trans ⟨spelled ++ ['"'], ?_⟩ inside
      rw [shape, List.append_assoc]
      rfl

theorem scanNumber_lexes : Lexes (fun literal => Unbroken literal.text) scanNumber := by
  intro place literal after _ found
  obtain ⟨spelled, shape⟩ := scanNumber_ok found
  cases spelled with
  | number grammatical => exact ⟨literal_unbroken grammatical, ⟨_, shape.symm⟩⟩

theorem textKind_lexes (kind : TextKind) : Lexes Unbroken kind.scan := by
  cases kind with
  | quoted => exact scanString_lexes
  | numeric =>
    intro place text after plain found
    simp only [TextKind.scan] at found
    split at found <;> cases found
    exact scanNumber_lexes _ _ _ plain ‹_›

theorem fault_unbroken (fault : Fault) {c : Cursor} (smooth : Smooth c) :
    ∀ text ∈ (fault.atPath c.pathText).carried, Unbroken text := by
  cases fault <;> exact List.forall_mem_singleton.mpr smooth.pathText

theorem takeLexeme {scan : Place → Except Fault (α × Place)} (lexes : Lexes Q scan) :
    Ensures Q (takeLexeme scan) := by
  intro c smooth
  unfold Pull.takeLexeme
  split
  · exact fault_unbroken _ smooth
  · rename_i found
    obtain ⟨holds, rest⟩ := lexes _ _ _ smooth.rest found
    exact ⟨smooth.onward rest rfl, holds⟩

theorem openScope (scope : Scope) {step : Step} (fresh : ∀ name, step ≠ .field (some name)) :
    Ensures (fun _ => True) (openScope scope step) := by
  intro c smooth
  unfold Pull.openScope
  split
  · exact List.forall_mem_singleton.mpr smooth.pathText
  · exact ⟨smooth.push scope fresh, trivial⟩

theorem beginObject : Ensures (fun _ => True) beginObject :=
  (takeToken _ _).bind fun _ _ => openScope _ nofun

theorem beginArray : Ensures (fun _ => True) beginArray :=
  (takeToken _ _).bind fun _ _ => openScope _ nofun

theorem endObject : Ensures (fun _ => True) endObject :=
  (takeToken _ _).bind fun _ _ => modify fun _ smooth => smooth.pop

theorem endArray : Ensures (fun _ => True) endArray :=
  (takeToken _ _).bind fun _ _ => modify fun _ smooth => smooth.pop

theorem dropAhead : Ensures (fun _ => True) dropAhead :=
  modify fun _ smooth => ⟨smooth.rest, smooth.path⟩

theorem endScalar : Ensures (fun _ => True) endScalar :=
  modify fun _ smooth => Smooth.valueTaken ⟨smooth.rest, smooth.path⟩

theorem nextName : Ensures Unbroken nextName :=
  (takeToken _ _).bind fun _ _ => (takeLexeme scanString_lexes).bind fun _ single =>
    (modify fun _ smooth => smooth.setName single).bind fun _ _ => .pure single

theorem skipName : Ensures (fun _ => True) skipName :=
  nextName.bind fun name single => get.bind fun _ _ => by
    split
    · refine .fail fun c smooth => List.forall_mem_cons.mpr ⟨single, ?_⟩
      exact List.forall_mem_singleton.mpr smooth.pathText
    · exact .pure trivial

theorem selectName (names : List String) : Ensures (fun _ => True) (selectName names) := by
  refine .looks (fun c e d failed => ⟨d, ?_⟩) fun c seen d looked smooth => ?_
  · rw [Pull.selectName, failed]
  · simp only [Pull.selectName, looked]
    split
    · split
      · exact fault_unbroken _ smooth
      · rename_i scanned
        obtain ⟨single, rest⟩ := scanString_lexes _ _ _ smooth.rest scanned
        have onward : Smooth { d with place := _, ahead := none } := smooth.onward rest rfl
        split
        · exact ⟨onward.setName single, trivial⟩
        · exact ⟨smooth, trivial⟩
    · exact List.forall_mem_singleton.mpr smooth.pathText

theorem nextString : Ensures Unbroken nextString :=
  (aheadAs _ _).bind fun kind _ => dropAhead.bind fun _ _ =>
    (takeLexeme (textKind_lexes kind)).bind fun _ single => endScalar.bind fun _ _ => .pure single

theorem nextBool : Ensures (fun _ => True) nextBool :=
  (aheadAs _ _).bind fun _ _ => endScalar.bind fun _ _ => .pure trivial

theorem nextNull : Ensures (fun _ => True) nextNull :=
  (aheadAs _ _).bind fun _ _ => endScalar

theorem nextLiteral (expected : Expected) :
    Ensures (fun literal => Unbroken literal.text) (nextLiteral expected) :=
  (aheadAs _ _).bind fun _ _ => dropAhead.bind fun _ _ => takeLexeme scanNumber_lexes

theorem nextNumber : Ensures (fun _ => True) nextNumber :=
  (nextLiteral _).bind fun literal _ => by
    cases literal.number? with
    | none => exact .fail fun _ smooth => List.forall_mem_singleton.mpr smooth.pathText
    | some number => exact endScalar.bind fun _ _ => .pure trivial

/-! Whole values. -/

theorem refuse (expected : Expected) (seen : Ahead) : Ensures Q (refuse expected seen : Pull α) :=
  fail fun _ smooth => List.forall_mem_singleton.mpr smooth.pathText

theorem whileOpen (depth : Nat) : Ensures (Sum.elim (fun _ => True) fun _ => True)
    (return whileOpen depth : Pull (Nat ⊕ Unit)) := by
  refine .pure ?_
  unfold Pull.whileOpen
  split <;> trivial

theorem skipToken (depth : Nat) :
    Ensures (Sum.elim (fun _ => True) fun _ => True) (skipToken depth) :=
  ahead.bind fun seen _ => by
    cases seen with
    | beginObject => exact beginObject.bind fun _ _ => whileOpen _
    | beginArray => exact beginArray.bind fun _ _ => whileOpen _
    | endObject =>
      by_cases outermost : depth = 0
      · simpa only [outermost, if_true] using refuse _ _
      · simpa only [outermost, if_false] using endObject.bind fun _ _ => whileOpen _
    | endArray =>
      by_cases outermost : depth = 0
      · simpa only [outermost, if_true] using refuse _ _
      · simpa only [outermost, if_false] using endArray.bind fun _ _ => whileOpen _
    | name =>
      by_cases outermost : depth = 0
      · simpa only [outermost, if_true] using refuse _ _
      · simpa only [outermost, if_false] using nextName.bind fun _ _ => whileOpen _
    | string => exact nextString.bind fun _ _ => whileOpen _
    | number => exact (nextLiteral _).bind fun _ _ => endScalar.bind fun _ _ => whileOpen _
    | bool => exact nextBool.bind fun _ _ => whileOpen _
    | null => exact nextNull.bind fun _ _ => whileOpen _
    | endDocument => exact refuse _ _

theorem skipValue : Ensures (fun _ => True) skipValue :=
  iterate (Q := fun _ => True) _ (fun depth _ => skipToken depth) trivial

/-- The names of members whose values are still open were read. -/
def FramesUnbroken (frames : List Frame) : Prop :=
  ∀ done name, .member done name ∈ frames → Unbroken name

theorem frames_cons {frame : Frame} {outer : List Frame} (unbroken : FramesUnbroken outer)
    (own : ∀ done name, frame = .member done name → Unbroken name) :
    FramesUnbroken (frame :: outer) := by
  intro done name member
  rcases List.mem_cons.mp member with same | later
  · exact own done name same.symm
  · exact unbroken done name later

theorem frames_tail {frame : Frame} {outer : List Frame}
    (unbroken : FramesUnbroken (frame :: outer)) : FramesUnbroken outer :=
  fun done name member => unbroken done name (List.mem_cons_of_mem _ member)

theorem deliver (value : Json.Value) {frames : List Frame} (unbroken : FramesUnbroken frames) :
    Ensures (Sum.elim FramesUnbroken fun _ => True) (deliver value frames) := by
  unfold Pull.deliver
  split
  · exact .pure trivial
  · exact .pure (frames_cons (frames_tail unbroken) nofun)
  · split
    · refine .fail fun c smooth => List.forall_mem_cons.mpr ⟨?_, ?_⟩
      · exact unbroken _ _ List.mem_cons_self
      · exact List.forall_mem_singleton.mpr smooth.pathText
    · exact .pure (frames_cons (frames_tail unbroken) nofun)
  · exact .pure (frames_cons (frames_tail unbroken) nofun)

theorem readToken {frames : List Frame} (unbroken : FramesUnbroken frames) :
    Ensures (Sum.elim FramesUnbroken fun _ => True) (readToken frames) :=
  ahead.bind fun seen _ => by
    split
    · exact beginObject.bind fun _ _ => .pure (frames_cons unbroken nofun)
    · exact beginArray.bind fun _ _ => .pure (frames_cons unbroken nofun)
    · exact endObject.bind fun _ _ => deliver _ (frames_tail unbroken)
    · exact endArray.bind fun _ _ => deliver _ (frames_tail unbroken)
    · refine nextName.bind fun name single => .pure (frames_cons (frames_tail unbroken) ?_)
      rintro _ _ ⟨⟩
      exact single
    · exact nextString.bind fun _ _ => deliver _ unbroken
    · exact nextNumber.bind fun _ _ => deliver _ unbroken
    · exact nextBool.bind fun _ _ => deliver _ unbroken
    · exact nextNull.bind fun _ _ => deliver _ unbroken
    · exact refuse _ _

theorem readValue : Ensures (fun _ => True) readValue :=
  iterate _ (fun _ unbroken => readToken unbroken) (s := []) nofun

/-! Objects member by member. -/

def FieldsUnbroken (fields : Fields) : Prop :=
  ∀ name ∈ fields.values.map Prod.fst, Unbroken name

theorem fieldStep {fields : Fields} (unbroken : FieldsUnbroken fields) :
    Ensures (Sum.elim FieldsUnbroken FieldsUnbroken) (fieldStep fields) :=
  hasNext.bind fun next _ => by
    cases next with
    | false => exact .pure unbroken
    | true =>
      refine nextName.bind fun name single => get.bind fun c _ => ?_
      split
      · exact skipValue.bind fun _ _ => .pure unbroken
      · refine readValue.bind fun value _ => .pure fun other member => ?_
        rcases Members.mem_put_names.mp member with rfl | before
        · exact single
        · exact unbroken other before

theorem takeFields : Ensures FieldsUnbroken takeFields :=
  have none : FieldsUnbroken ⟨[], []⟩ := fun _ member => by cases member
  beginObject.bind fun _ _ => (iterate _ (fun _ unbroken => fieldStep unbroken) none).bind
    fun _ unbroken => endObject.bind fun _ _ => .pure unbroken

theorem skipStep : Ensures (Sum.elim (fun _ => True) fun _ => True) (skipStep ()) :=
  hasNext.bind fun next _ => by
    cases next with
    | false => exact .pure trivial
    | true => exact skipName.bind fun _ _ => skipValue.bind fun _ _ => .pure trivial

theorem skipMembers : Ensures (fun _ => True) skipMembers :=
  beginObject.bind fun _ _ =>
    (iterate (Q := fun _ => True) _ (fun _ _ => skipStep) trivial).bind fun _ _ => endObject

/-- A label that was found is on one line. -/
def LabelUnbroken (label : Option String) : Prop := ∀ text, label = some text → Unbroken text

theorem labelStep (key : String) :
    Ensures (Sum.elim (fun _ => True) LabelUnbroken) (labelStep key ()) :=
  hasNext.bind fun next _ => by
    cases next with
    | false => exact .pure nofun
    | true =>
      refine (selectName [key]).bind fun selected _ => ?_
      cases selected with
      | none => exact skipName.bind fun _ _ => skipValue.bind fun _ _ => .pure trivial
      | some position =>
        refine nextString.bind fun label single => .pure ?_
        rintro _ ⟨⟩
        exact single

theorem findLabel (key : String) : Ensures LabelUnbroken (findLabel key) :=
  beginObject.bind fun _ _ =>
    iterate (Q := fun _ => True) _ (fun _ _ => labelStep key) trivial

theorem lookForLabel (key : String) : Ensures LabelUnbroken (lookForLabel key) := by
  intro c smooth
  have found := findLabel key { c with failOnUnknown := false } ⟨smooth.rest, smooth.path⟩
  unfold Pull.lookForLabel
  split <;> rename_i ran <;> rw [ran] at found
  · exact ⟨smooth, found.2⟩
  · exact found

end Ensures

end Pull

namespace Hierarchy
variable {α : Type}

/-! Adapters and tables. -/

/-- A table whose keys and labels are on one line, those of all tables in it included. -/
inductive Plain : Table α → Prop
  | table {table : Table α} (key : Unbroken table.key)
    (labels : ∀ label ∈ table.labels, Unbroken label)
    (inner : ∀ entry ∈ table.members, ∀ within ∈ entry.body.adapterOf.tables, Plain within)
    (fallback : ∀ name adapter, table.policy = .fallback name adapter →
      ∀ within ∈ adapter.tables, Plain within) : Plain table

theorem withStrict_ensures {Q : β → Prop} {body : Pull β} (ensures : Ensures Q body)
    (strict : Bool) : Ensures Q (withStrict strict body) := by
  intro c smooth
  have ended := ensures { c with failOnUnknown := c.failOnUnknown || strict }
    ⟨smooth.rest, smooth.path⟩
  have raised : (do
      modify fun c => { c with failOnUnknown := c.failOnUnknown || strict }
      body : Pull β) c = body { c with failOnUnknown := c.failOnUnknown || strict } := rfl
  rw [withStrict, keepingFlag, raised]
  split <;> rename_i ran <;> rw [ran] at ended
  · exact ⟨⟨ended.1.rest, ended.1.path⟩, ended.2⟩
  · exact ended

theorem withKey_ensures {Q : β → Prop} {body : Pull β} (ensures : Ensures Q body) (key : String)
    (stripped : Bool) : Ensures Q (withKey key stripped body) := by
  intro c smooth
  have ended := ensures
    { c with allowances := ⟨key, c.scopes.length + 1, stripped⟩ :: c.allowances }
    ⟨smooth.rest, smooth.path⟩
  simp only [withKey]
  split <;> rename_i ran <;> rw [ran] at ended
  · exact ⟨⟨ended.1.rest, ended.1.path⟩, ended.2⟩
  · exact ended

/-- Strict reading objects to names that were read. -/
theorem objection_unbroken {form : PayloadForm α} {fields : Fields} {objection : Objection}
    (unbroken : Ensures.FieldsUnbroken fields) (raised : form.objection? fields = some objection)
    {path : String} (single : Unbroken path) :
    ∀ text ∈ (objection.error path).carried, Unbroken text := by
  cases objection with
  | unwritten => exact List.forall_mem_singleton.mpr single
  | unknown name =>
    have checked : name ∈ checkedNames fields := by
      unfold PayloadForm.objection? at raised
      split at raised
      · cases raised
      · split at raised
        · cases raised
        · obtain ⟨found, looked, same⟩ := Option.map_eq_some_iff.mp raised
          cases same
          exact List.mem_of_find?_eq_some looked
        · cases raised
    have own : Unbroken name := by
      obtain ⟨field, kept, rfl⟩ := List.mem_map.mp checked
      exact unbroken _ (List.mem_map_of_mem (List.mem_of_mem_filter kept))
    have located : Unbroken (path ++ "." ++ name) := by
      rw [unbroken_append, unbroken_append]
      exact ⟨⟨single, by decide⟩, own⟩
    exact List.forall_mem_cons.mpr ⟨own, List.forall_mem_singleton.mpr located⟩

theorem PayloadForm.read_ensures (form : PayloadForm α) : Ensures (fun _ => True) form.read :=
  Ensures.get.bind fun start begun => Ensures.takeFields.bind fun fields unbroken => by
    cases form.ofFields? fields.values with
    | none => exact .fail fun _ _ => List.forall_mem_singleton.mpr begun.pathText
    | some value =>
      simp only
      cases raised : if start.failOnUnknown = true then form.objection? fields else none with
      | none => exact .pure trivial
      | some objection =>
        split at raised
        · exact .fail fun _ _ => objection_unbroken unbroken raised begun.pathText
        · cases raised

theorem Target.read_ensures {target : Target α}
    (handed : ∀ adapter stripped, target.delegate? = some (adapter, stripped) →
      Ensures (fun _ => True) adapter.read) (key : String) (strict : Bool) :
    Ensures (fun _ => True) (target.read key strict) := by
  cases target with
  | null | object => exact Ensures.skipValue.bind fun _ _ => .pure trivial
  | fallback adapter =>
    exact .map _ (withStrict_ensures (withKey_ensures (handed adapter false rfl) key false) strict)
  | subtype entry =>
    have own : Ensures (fun _ => True) entry.body.read := by
      rw [read_adapterOf]
      exact handed _ true rfl
    exact .map _ (withStrict_ensures (withKey_ensures own key true) strict)

/-- A table fails over a label with texts of its own and the label that was read. -/
theorem Table.read_ensures {table : Table α} (plain : Plain table)
    (handed : ∀ label target adapter stripped, table.resolve label = .ok target →
      target.delegate? = some (adapter, stripped) → Ensures (fun _ => True) adapter.read)
    (strict : Bool) : Ensures (fun _ => True) (table.read strict) := by
  obtain ⟨key, labels, -, -⟩ := plain
  rw [Table.read_eq]
  refine Ensures.peek.bind fun token _ => ?_
  by_cases null : token = .null
  · rw [if_pos null]
    exact Ensures.nextNull.bind fun _ _ => .pure trivial
  · rw [if_neg null]
    refine (Ensures.lookForLabel table.key).bind fun label single => ?_
    cases resolved : table.resolve label with
    | ok target =>
      have own : ∀ adapter stripped, target.delegate? = some (adapter, stripped) →
          Ensures (fun _ => True) adapter.read := fun adapter stripped =>
        handed label target adapter stripped resolved
      exact Target.read_ensures own table.key strict
    | error e =>
      intro c smooth
      obtain ⟨-, ⟨rfl, rfl⟩ | ⟨text, rfl, -, rfl⟩⟩ := resolve_error.mp resolved
      · exact List.forall_mem_cons.mpr ⟨key, labels⟩
      · exact List.forall_mem_cons.mpr ⟨key, List.forall_mem_cons.mpr ⟨single text rfl, labels⟩⟩

/-- What an adapter is handed by a plain table reads with plain tables as well. -/
theorem Plain.handed {table : Table α} (plain : Plain table) {label : Option String}
    {target : Target α} {adapter : Adapter α} {stripped : Bool}
    (resolved : table.resolve label = .ok target)
    (delegate : target.delegate? = some (adapter, stripped)) :
    ∀ within ∈ adapter.tables, Plain within := by
  obtain ⟨-, -, inner, fallback⟩ := plain
  rcases delegate_cases resolved delegate with ⟨entry, member, rfl, -⟩ | ⟨name, policy, -⟩
  · exact inner entry member
  · exact fallback name adapter policy

theorem adapter_ensures (adapter : Adapter α) (plain : ∀ within ∈ adapter.tables, Plain within) :
    Ensures (fun _ => True) adapter.read := by
  induction adapter using Adapter.handed_induction with
  | record form =>
    simp only [Adapter.read]
    exact Ensures.takeFields.bind fun _ _ => .pure trivial
  | payload form =>
    simp only [Adapter.read]
    exact form.read_ensures
  | singleton value =>
    simp only [Adapter.read]
    exact Ensures.skipMembers.bind fun _ _ => .pure trivial
  | failOnUnknown inner ih =>
    simp only [Adapter.read]
    exact withStrict_ensures (ih plain) true
  | tagged table strict ih =>
    have own : Plain table := plain table (List.mem_singleton.mpr rfl)
    have reads : Ensures (fun _ => True) (table.read strict) :=
      Table.read_ensures own (fun label target adapter stripped resolved delegate =>
        ih label target adapter stripped resolved delegate (own.handed resolved delegate)) strict
    simp only [Adapter.read]
    refine reads.bind fun found _ => ?_
    cases found with
    | none => exact .fail fun _ smooth => List.forall_mem_singleton.mpr smooth.pathText
    | some value => exact .pure trivial

theorem table_ensures {table : Table α} (plain : Plain table) (strict : Bool) :
    Ensures (fun _ => True) (table.read strict) :=
  Table.read_ensures plain (fun _ _ adapter _ resolved delegate =>
    adapter_ensures adapter (plain.handed resolved delegate)) strict

/-- The errors of a document that spells no newline are on one line, if the table is. -/
theorem fromJson_unbroken {table : Table α} (plain : Plain table) {strict : Bool} {text : String}
    {e : DecodeError} (failed : table.fromJson strict text = .error e)
    (single : ¬SpellsBreak text.toList) : ∀ carried ∈ e.carried, Unbroken carried := by
  have whole : Ensures (fun _ => True) (do
      let value ← table.read strict
      expectEnd
      return value : Pull (Option α)) :=
    (table_ensures plain strict).bind fun _ _ => Ensures.expectEnd.bind fun _ _ => .pure trivial
  have ended := whole _ (smooth_ofText single)
  unfold Table.fromJson decodeDocument at failed
  split at failed <;> rename_i ran <;> cases failed
  rw [ran] at ended
  exact ended

end Hierarchy

end TaggedJson
