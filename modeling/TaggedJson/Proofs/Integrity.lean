import TaggedJson.Proofs.Aftermath
import TaggedJson.Proofs.Calls
import TaggedJson.Proofs.Passed
import TaggedJson.Proofs.Paths
import TaggedJson.Proofs.Rejections
/-! What every state of a reader has in common, whichever operations have led to it and however they
ended. Operations that fail leave states half changed, but none out of which the next could reach
beyond the text, into a character, or below the scope of the document. -/
namespace TaggedJson

/-- What a scope is a position in. -/
inductive Json.Enclosure where
  | document
  | object
  | array
deriving DecidableEq

def Json.Scope.enclosure : Json.Scope → Json.Enclosure
  | .documentStart | .documentEnd => .document
  | .objectStart | .objectValue | .objectNext => .object
  | .arrayStart | .arrayNext => .array

namespace Pull
open Json (Enclosure Scope)

def Step.enclosure : Step → Enclosure
  | .field _ => .object
  | .index _ => .array

/-- What the reader is in, innermost first. -/
def Cursor.enclosures (c : Cursor) : List Enclosure := c.scopes.map Scope.enclosure

/-- What a token that has been seen but not taken tells of the cursor: a bracket that closes, or a
name, that it is in a container of that kind, and what is quoted, that the quote comes next. -/
structure Ahead.Stands (seen : Ahead) (c : Cursor) : Prop where
  object : seen = .endObject ∨ seen = .name → c.enclosures.head? = some .object
  array : seen = .endArray → c.enclosures.head? = some .array
  quoted : Quoted seen c.place.rest

/-- A state in which a reader of the text can be. -/
structure Sound (text : String) (c : Cursor) : Prop where
  place : (Cursor.ofText text).place.Reaches c.place
  enclosures : c.enclosures = c.path.map Step.enclosure ++ [.document]
  shallow : c.scopes.length ≤ depthLimit + 1
  ahead : ∀ seen, c.ahead = some seen → seen.Stands c

theorem sound_ofText (text : String) : Sound text (Cursor.ofText text) where
  place := .refl _
  enclosures := rfl
  shallow := Nat.le_add_left 1 depthLimit
  ahead := nofun

/-! Looking. -/

/-- What a look may do, found or not: it passes characters, and moves on within what it is in. -/
structure Moves (c : Cursor) (o : Ending) : Prop where
  place : c.place.Reaches o.cursor.place
  enclosures : o.cursor.enclosures = c.enclosures
  path : o.cursor.path = c.path
  ahead : o.cursor.ahead = c.ahead
  fault : ∀ e offset, o.error = some e → e.offset? = some offset → offset = o.cursor.place.offset

namespace Moves

theorem stays (c : Cursor) : Moves c ⟨none, c⟩ := ⟨.refl _, rfl, rfl, rfl, nofun⟩

/-- A look that fails reports the fault where it stands. -/
theorem fails {c : Cursor} {e : DecodeError}
    (here : ∀ offset, e.offset? = some offset → offset = c.place.offset) : Moves c ⟨some e, c⟩ :=
  ⟨.refl _, rfl, rfl, rfl, by rintro _ offset ⟨⟩; exact here offset⟩

theorem malformed (c : Cursor) (cause : Malformed) : Moves c ⟨some (c.malformed cause), c⟩ :=
  fails fun _ same => (Option.some.inj same).symm

theorem endOfInput (c : Cursor) : Moves c ⟨some c.endOfInput, c⟩ := fails nofun

theorem trans {c d : Cursor} {o : Ending} (first : Moves c ⟨none, d⟩) (next : Moves d o) :
    Moves c o where
  place := first.place.trans next.place
  enclosures := next.enclosures.trans first.enclosures
  path := next.path.trans first.path
  ahead := next.ahead.trans first.ahead
  fault := next.fault

theorem skipSpace (c : Cursor) : Moves c ⟨none, c.skipSpace⟩ := by
  refine ⟨⟨c.place.rest.takeWhile Json.isSpace, ?_, ?_⟩, rfl, rfl, rfl, nofun⟩
  · exact List.takeWhile_append_dropWhile.symm
  · have narrow : Narrow (c.place.rest.takeWhile Json.isSpace) := by
      intro d member
      have space : Json.isSpace d = true :=
        List.all_eq_true.mp (List.all_takeWhile (l := c.place.rest)) d member
      simp only [Json.isSpace, Bool.or_eq_true, beq_iff_eq] at space
      rcases space with ((rfl | rfl) | rfl) | rfl <;> rfl
    rw [narrow.byteLength]
    rfl

theorem advance {c : Cursor} {front rest : List Char} (shape : c.place.rest = front ++ rest)
    (narrow : Narrow front) : Moves c ⟨none, c.advance front.length⟩ := by
  refine ⟨⟨front, ?_, ?_⟩, rfl, rfl, rfl, nofun⟩
  · simp [Cursor.advance, shape]
  · rw [narrow.byteLength]
    rfl

theorem advanceOne {c : Cursor} {next : Char} {rest : List Char}
    (shape : c.place.rest = next :: rest) (narrow : next.utf8Size = 1) :
    Moves c ⟨none, c.advance 1⟩ := by
  have front : c.place.rest = [next] ++ rest := shape
  exact advance front (.cons narrow narrow_nil)

theorem withScope {c : Cursor} {before : Scope} {outer : List Scope}
    (shape : c.scopes = before :: outer) (after : Scope)
    (same : after.enclosure = before.enclosure) : Moves c ⟨none, c.withScope after⟩ :=
  ⟨.refl _, by simp [Cursor.enclosures, Cursor.withScope, shape, same], rfl, rfl, nofun⟩

theorem lookLiteral {word : List Char} (narrow : Narrow word) (seen : Ahead) (c : Cursor) :
    Moves c (ending (lookLiteral word seen c)) := by
  unfold Pull.lookLiteral
  split
  · rename_i fits
    obtain ⟨rest, shape⟩ := List.isPrefixOf_iff_prefix.mp (Bool.and_eq_true_iff.mp fits).1
    exact advance shape.symm narrow
  · exact malformed c _

theorem lookValue (c : Cursor) : Moves c (ending (lookValue c)) := by
  refine (skipSpace c).trans ?_
  unfold Pull.lookValue
  generalize c.skipSpace = d
  simp only
  split
  · exact endOfInput d
  · rename_i next rest shape
    repeat' split
    · rename_i bracket
      exact advanceOne shape (by rw [bracket]; rfl)
    · rename_i bracket
      exact advanceOne shape (by rw [bracket]; rfl)
    · exact stays d
    · exact lookLiteral (by decide) _ d
    · exact lookLiteral (by decide) _ d
    · exact lookLiteral (by decide) _ d
    · exact stays d
    · exact malformed d _

theorem lookName (first : Bool) {c : Cursor} {scope : Scope} {outer : List Scope}
    (shape : c.scopes = scope :: outer) (member : AtMember scope) :
    Moves c (ending (lookName first c)) := by
  refine (skipSpace c).trans ?_
  have shape : c.skipSpace.scopes = scope :: outer := shape
  unfold Pull.lookName
  generalize c.skipSpace = d at shape ⊢
  simp only
  split
  · exact endOfInput d
  · rename_i next rest stands
    repeat' split
    · exact withScope shape .objectValue (by rcases member with rfl | rfl <;> rfl)
    · rename_i bracket
      exact advanceOne stands (by rw [bracket.2]; rfl)
    · exact malformed d _

theorem lookAfterMember {c : Cursor} {outer : List Scope}
    (shape : c.scopes = .objectNext :: outer) : Moves c (ending (lookAfterMember c)) := by
  refine (skipSpace c).trans ?_
  have shape : c.skipSpace.scopes = .objectNext :: outer := shape
  unfold Pull.lookAfterMember
  generalize c.skipSpace = d at shape ⊢
  simp only
  split
  · exact endOfInput d
  · rename_i next rest stands
    repeat' split
    · rename_i bracket
      exact advanceOne stands (by rw [bracket]; rfl)
    · rename_i comma
      exact (advanceOne stands (by rw [comma]; rfl)).trans (lookName false shape (.inr rfl))
    · exact malformed d _

theorem lookAfterName {c : Cursor} {outer : List Scope} (shape : c.scopes = .objectValue :: outer) :
    Moves c (ending (lookAfterName c)) := by
  refine ((withScope shape .objectNext rfl).trans (skipSpace _)).trans ?_
  unfold Pull.lookAfterName
  generalize (c.withScope .objectNext).skipSpace = d
  simp only
  split
  · exact endOfInput d
  · rename_i next rest stands
    split
    · rename_i colon
      exact (advanceOne stands (by rw [colon]; rfl)).trans (lookValue _)
    · exact malformed d _

theorem lookFirstItem {c : Cursor} {outer : List Scope} (shape : c.scopes = .arrayStart :: outer) :
    Moves c (ending (lookFirstItem c)) := by
  refine ((withScope shape .arrayNext rfl).trans (skipSpace _)).trans ?_
  unfold Pull.lookFirstItem
  generalize (c.withScope .arrayNext).skipSpace = d
  simp only
  split
  · rename_i closes
    obtain ⟨rest, stands⟩ := List.head?_eq_some_iff.mp closes
    exact advanceOne stands rfl
  · exact lookValue d

theorem lookAfterItem (c : Cursor) : Moves c (ending (lookAfterItem c)) := by
  refine (skipSpace c).trans ?_
  unfold Pull.lookAfterItem
  generalize c.skipSpace = d
  simp only
  split
  · exact endOfInput d
  · rename_i next rest stands
    repeat' split
    · rename_i bracket
      exact advanceOne stands (by rw [bracket]; rfl)
    · rename_i comma
      exact (advanceOne stands (by rw [comma]; rfl)).trans (lookValue _)
    · exact malformed d _

theorem lookEnd (c : Cursor) : Moves c (ending (lookEnd c)) := by
  refine (skipSpace c).trans ?_
  unfold Pull.lookEnd
  generalize c.skipSpace = d
  simp only
  split
  · exact stays d
  · exact fails nofun

theorem look (c : Cursor) : Moves c (ending (look c)) := by
  unfold Pull.look
  cases shape : c.scopes with
  | nil => exact lookEnd c
  | cons scope outer =>
    cases scope with
    | documentStart => exact (withScope shape .documentEnd rfl).trans (lookValue _)
    | documentEnd => exact lookEnd c
    | objectStart => exact lookName true shape (.inl rfl)
    | objectValue => exact lookAfterName shape
    | objectNext => exact lookAfterMember shape
    | arrayStart => exact lookFirstItem shape
    | arrayNext => exact lookAfterItem c

end Moves

/-! What a look leaves. -/

/-- The state is sound, and if the operation has failed over the text, the offset in its error is
within the text and at the start of a character, or at the end. -/
structure Ending.Good (text : String) (o : Ending) : Prop where
  sound : Sound text o.cursor
  offset : ∀ e offset, o.error = some e → e.offset? = some offset →
    (String.Pos.Raw.mk offset).IsValid text

/-- What begins soundly ends so. -/
def Sounds (text : String) (c : Cursor) (o : Ending) : Prop := Sound text c → o.Good text

theorem reaches_isValid {text : String} {q : Place}
    (reached : (Cursor.ofText text).place.Reaches q) :
    (String.Pos.Raw.mk q.offset).IsValid text := by
  obtain ⟨passed, shape, offset⟩ := reached
  have shape : text.toList = passed ++ q.rest := shape
  have offset : q.offset = byteLength passed := offset.trans (Nat.zero_add _)
  rw [String.Pos.Raw.isValid_iff_exists_take_toList]
  refine ⟨passed.length, ?_⟩
  rw [shape, List.take_left, byteLength_ofList]
  exact offset

section Sound
variable {text : String} {c d : Cursor} {seen : Ahead}

theorem Sound.dropAhead (sound : Sound text c) : Sound text { c with ahead := none } :=
  ⟨sound.place, sound.enclosures, sound.shallow, nofun⟩

theorem Sound.good (sound : Sound text c) : Ending.Good text ⟨none, c⟩ := ⟨sound, nofun⟩

theorem Sound.fails (sound : Sound text c) {e : DecodeError} (elsewhere : e.offset? = none) :
    Ending.Good text ⟨some e, c⟩ := by
  refine ⟨sound, ?_⟩
  rintro _ offset ⟨⟩ located
  rw [elsewhere] at located
  cases located

/-- A look that ends anywhere has not changed what is open, so a state it leaves is sound. -/
theorem Moves.good {o : Ending} (moves : Moves c o) (sound : Sound text c)
    (fresh : c.ahead = none) : o.Good text := by
  have place := sound.place.trans moves.place
  have length : o.cursor.scopes.length = c.scopes.length := by
    have same := congrArg List.length moves.enclosures
    rwa [Cursor.enclosures, Cursor.enclosures, List.length_map, List.length_map] at same
  refine ⟨⟨place, ?_, ?_, ?_⟩, fun e offset failed located => ?_⟩
  · rw [moves.enclosures, moves.path, sound.enclosures]
  · rw [length]
    exact sound.shallow
  · intro seen kept
    rw [moves.ahead, fresh] at kept
    cases kept
  · rw [moves.fault e offset failed located]
    exact reaches_isValid place

theorem enclosures_cons {scope : Scope} {outer : List Scope} (shape : c.scopes = scope :: outer) :
    c.enclosures.head? = some scope.enclosure := by
  rw [Cursor.enclosures, shape]
  rfl

theorem look_stands (looked : look c = .ok seen d) : seen.Stands d := by
  have sees := look_sees looked
  refine ⟨?_, ?_, ?_⟩
  · intro member
    generalize before : c.scopes = scopes, after : d.scopes = left at sees
    cases sees with
    | value place starts => rcases member with rfl | rfl <;> cases starts
    | name => exact enclosures_cons after
    | endObject inside =>
      rw [enclosures_cons after]
      rcases inside with rfl | rfl <;> rfl
    | endArray => rcases member with h | h <;> cases h
    | endDocument => rcases member with h | h <;> cases h
  · rintro rfl
    generalize before : c.scopes = scopes, after : d.scopes = left at sees
    cases sees with
    | value place starts => cases starts
    | endArray => exact enclosures_cons after
  · intro quoted
    cases shape : c.scopes with
    | nil =>
      rw [shape] at sees
      generalize d.scopes = left at sees
      cases sees
      rcases quoted with h | h <;> cases h
    | cons scope outer =>
      rcases quoted with rfl | rfl
      · exact (@look_found (.name "") c d [] _ _ shape looked).1 (.inl rfl)
      · exact (@look_found (.string "") c d [] _ _ shape looked).1 (.inr rfl)

theorem ahead_sounds (text : String) : Always (Sounds text) ahead := by
  intro c sound
  unfold ahead
  cases kept : c.ahead with
  | some seen => exact sound.good
  | none =>
    have moves := Moves.look c
    cases looked : look c with
    | error e d =>
      rw [looked] at moves
      exact moves.good sound kept
    | ok seen d =>
      rw [looked] at moves
      have left := (moves.good sound kept).sound
      refine ⟨⟨left.place, left.enclosures, left.shallow, ?_⟩, nofun⟩
      rintro _ ⟨⟩
      obtain ⟨object, array, quoted⟩ := look_stands looked
      exact ⟨object, array, quoted⟩

theorem ahead_stands (sound : Sound text c) (looked : ahead c = .ok seen d) :
    Sound text d ∧ seen.Stands d := by
  have good := ahead_sounds text c sound
  rw [looked] at good
  exact ⟨good.sound, good.sound.ahead seen (ahead_ok looked).2⟩

/-! Changes of a sound state. -/

theorem setName_enclosures (c : Cursor) (name : String) :
    (c.setName name).path.map Step.enclosure = c.path.map Step.enclosure := by
  unfold Cursor.setName
  split
  · rename_i path
    simp [path, Step.enclosure]
  · rfl

theorem valueTaken_enclosures (c : Cursor) :
    c.valueTaken.path.map Step.enclosure = c.path.map Step.enclosure := by
  unfold Cursor.valueTaken
  split
  · rename_i path
    simp [path, Step.enclosure]
  · rfl

/-- Only the last step of the path has changed, and not its kind. -/
theorem Sound.setName (sound : Sound text c) (fresh : c.ahead = none) (name : String) :
    Sound text (c.setName name) := by
  refine ⟨?_, ?_, ?_, ?_⟩
  · rw [setName_place]
    exact sound.place
  · rw [Cursor.enclosures, setName_scopes, setName_enclosures]
    exact sound.enclosures
  · rw [setName_scopes]
    exact sound.shallow
  · intro seen kept
    rw [setName_ahead, fresh] at kept
    cases kept

theorem Sound.valueTaken (sound : Sound text c) (fresh : c.ahead = none) :
    Sound text c.valueTaken := by
  refine ⟨?_, ?_, ?_, ?_⟩
  · rw [valueTaken_place]
    exact sound.place
  · rw [Cursor.enclosures, valueTaken_scopes, valueTaken_enclosures]
    exact sound.enclosures
  · rw [valueTaken_scopes]
    exact sound.shallow
  · intro seen kept
    rw [valueTaken_ahead, fresh] at kept
    cases kept

theorem Sound.onward (sound : Sound text c) {q : Place} (reached : c.place.Reaches q) :
    Sound text { c with place := q, ahead := none } :=
  ⟨sound.place.trans reached, sound.enclosures, sound.shallow, nofun⟩

theorem Sound.push (sound : Sound text c) (room : c.scopes.length ≤ depthLimit) {scope : Scope}
    {step : Step} (same : scope.enclosure = step.enclosure) : Sound text (c.push scope step) := by
  refine ⟨sound.place, ?_, Nat.succ_le_succ room, nofun⟩
  have inside := sound.enclosures
  rw [Cursor.enclosures] at inside ⊢
  rw [Cursor.push, List.map_cons, List.map_cons, same, inside, List.cons_append]

/-- In a container there is a step to take back, and the scope under its own is not missing. -/
theorem Sound.pop (sound : Sound text c) {enclosure : Enclosure}
    (inside : c.enclosures.head? = some enclosure) (container : enclosure ≠ .document) :
    Sound text c.pop := by
  have enclosures := sound.enclosures
  have shallow := sound.shallow
  cases path : c.path with
  | nil =>
    rw [enclosures, path] at inside
    cases inside
    exact absurd rfl container
  | cons step outer =>
    rw [path, List.map_cons, List.cons_append] at enclosures
    refine Sound.valueTaken ⟨sound.place, ?_, ?_, nofun⟩ rfl
    · have tail := congrArg List.tail enclosures
      rw [Cursor.enclosures, ← List.map_tail, List.tail_cons] at tail
      simpa [Cursor.enclosures, path] using tail
    · rw [List.length_tail]
      omega

/-! Operations that take a token. -/

/-- An operation that takes a token and then goes on. -/
theorem takeToken_sounds {wanted : Ahead} {expected : Expected} {f : Unit → Pull α}
    (next : ∀ d, Sound text d → wanted.Stands d →
      (ending (f () { d with ahead := none })).Good text) :
    Always (Sounds text) (takeToken wanted expected >>= f) := by
  intro c sound
  have good := ahead_sounds text c sound
  cases looked : ahead c with
  | error e d =>
    have stopped : takeToken wanted expected c = .error e d := by rw [takeToken, looked]
    rw [bind_of_error stopped]
    rw [looked] at good
    exact good
  | ok seen d =>
    obtain ⟨left, stands⟩ := ahead_stands sound looked
    by_cases same : seen = wanted
    · have taken : takeToken wanted expected c = .ok () { d with ahead := none } := by
        simp only [takeToken, looked, if_pos same]
      rw [bind_of_ok taken]
      exact next d left (same ▸ stands)
    · have refused : takeToken wanted expected c =
          .error (.unexpectedToken expected seen.token d.pathText) d := by
        simp only [takeToken, looked, if_neg same]
      rw [bind_of_error refused]
      exact left.fails rfl

/-- An operation that asks for a kind of token and then goes on. -/
theorem aheadAs_sounds {expected : Expected} {select : Ahead → Option β} {f : β → Pull α}
    (next : ∀ d seen kind, Sound text d → seen.Stands d → select seen = some kind →
      (ending (f kind d)).Good text) :
    Always (Sounds text) (aheadAs expected select >>= f) := by
  intro c sound
  have good := ahead_sounds text c sound
  cases looked : ahead c with
  | error e d =>
    have stopped : aheadAs expected select c = .error e d := by rw [aheadAs, looked]
    rw [bind_of_error stopped]
    rw [looked] at good
    exact good
  | ok seen d =>
    obtain ⟨left, stands⟩ := ahead_stands sound looked
    cases chosen : select seen with
    | some kind =>
      have found : aheadAs expected select c = .ok kind d := by
        simp only [aheadAs, looked, chosen]
      rw [bind_of_ok found]
      exact next d seen kind left stands chosen
    | none =>
      have refused : aheadAs expected select c =
          .error (.unexpectedToken expected seen.token d.pathText) d := by
        simp only [aheadAs, looked, chosen]
      rw [bind_of_error refused]
      exact left.fails rfl

/-- Whole characters lead through the lexeme at a place, or to the fault in it. -/
structure Scans (scan : Place → Except Fault (α × Place)) (p : Place) : Prop where
  reaches : ∀ a q, scan p = .ok (a, q) → p.Reaches q
  located : ∀ fault, scan p = .error fault → p.Locates fault

theorem scanString_scans {p : Place} (quote : p.rest.head? = some '"') : Scans scanString p :=
  ⟨fun _ _ => scanString_reaches quote, fun _ => scanString_located quote⟩

theorem scanNumber_scans (p : Place) : Scans scanNumber p :=
  ⟨fun _ _ found => (scanNumber_reaches found).1, fun _ => scanNumber_located⟩

theorem Sound.fault (sound : Sound text c) {fault : Fault} (located : c.place.Locates fault) :
    Ending.Good text ⟨some (fault.atPath c.pathText), c⟩ := by
  refine ⟨sound, ?_⟩
  rintro _ offset ⟨⟩ there
  cases fault with
  | endOfInput => cases there
  | malformed cause start =>
    cases there
    obtain ⟨q, reached, rfl⟩ := located cause _ rfl
    exact reaches_isValid (sound.place.trans reached)

theorem takeLexeme_good {scan : Place → Except Fault (β × Place)} {f : β → Pull α}
    (sound : Sound text d) (scans : Scans scan d.place)
    (next : ∀ a q, scan d.place = .ok (a, q) → Sound text { d with place := q, ahead := none } →
      (ending (f a { d with place := q, ahead := none })).Good text) :
    (ending ((takeLexeme scan >>= f) { d with ahead := none })).Good text := by
  cases scanned : scan d.place with
  | error fault =>
    have stopped : takeLexeme scan { d with ahead := none } =
        .error (fault.atPath d.pathText) { d with ahead := none } := by
      simp only [takeLexeme, scanned, Cursor.pathText]
    rw [bind_of_error stopped]
    exact sound.dropAhead.fault (scans.located fault scanned)
  | ok read =>
    obtain ⟨a, q⟩ := read
    have passed : takeLexeme scan { d with ahead := none } =
        .ok a { d with place := q, ahead := none } := by
      simp only [takeLexeme, scanned]
    rw [bind_of_ok passed]
    exact next a q scanned (sound.onward (scans.reaches a q scanned))

end Sound

/-! Every operation. -/

section Operations
variable (text : String)

theorem begins_sounds {scope : Scope} {step : Step} (same : scope.enclosure = step.enclosure)
    (wanted : Ahead) (expected : Expected) :
    Always (Sounds text) (takeToken wanted expected >>= fun _ => openScope scope step) := by
  refine takeToken_sounds fun d sound _ => ?_
  unfold openScope
  split
  · exact sound.dropAhead.fails rfl
  · rename_i room
    exact (sound.dropAhead.push (Nat.le_of_not_lt room) same).good

theorem ends_sounds {wanted : Ahead} {enclosure : Enclosure} (expected : Expected)
    (inside : ∀ d, wanted.Stands d → d.enclosures.head? = some enclosure)
    (container : enclosure ≠ .document) :
    Always (Sounds text) (takeToken wanted expected >>= fun _ => modify Cursor.pop) :=
  takeToken_sounds fun d sound stands =>
    (sound.dropAhead.pop (inside d stands) container).good

theorem endScalar_sounds : Always (Sounds text) endScalar :=
  fun _ sound => (sound.dropAhead.valueTaken rfl).good

theorem nextName_sounds : Always (Sounds text) nextName := by
  refine takeToken_sounds fun d sound stands => ?_
  refine takeLexeme_good sound (scanString_scans (stands.quoted (.inl rfl))) fun name q _ left => ?_
  exact (left.setName rfl name).good

theorem selectName_sounds (names : List String) : Always (Sounds text) (selectName names) := by
  intro c sound
  have good := ahead_sounds text c sound
  unfold selectName
  cases looked : ahead c with
  | error e d =>
    rw [looked] at good
    exact good
  | ok seen d =>
    obtain ⟨left, stands⟩ := ahead_stands sound looked
    simp only
    split
    · rename_i named
      have scans := scanString_scans (stands.quoted (.inl named))
      split
      · rename_i fault scanned
        exact left.fault (scans.located fault scanned)
      · rename_i name place scanned
        split
        · exact ((left.onward (scans.reaches name place scanned)).setName rfl name).good
        · exact left.good
    · exact left.fails rfl

theorem textKind_scans {seen : Ahead} {kind : TextKind} {d : Cursor}
    (chosen : seen.textKind? = some kind) (stands : seen.Stands d) : Scans kind.scan d.place := by
  cases seen <;> cases chosen
  case string => exact scanString_scans (stands.quoted (.inr rfl))
  case number =>
    have scans := scanNumber_scans d.place
    refine ⟨fun literal q found => ?_, fun fault failed => ?_⟩
    · simp only [TextKind.scan] at found
      split at found <;> cases found
      exact scans.reaches _ _ ‹_›
    · simp only [TextKind.scan] at failed
      split at failed <;> cases failed
      exact scans.located _ ‹_›

theorem nextString_sounds : Always (Sounds text) nextString := by
  refine aheadAs_sounds fun d seen kind sound stands chosen => ?_
  exact takeLexeme_good sound (textKind_scans chosen stands) fun _ _ _ left =>
    (left.valueTaken rfl).good

/-- What begins with the literal of a number, which is within the text. -/
theorem literal_sounds {expected : Expected} {f : Json.NumberLiteral → Pull α}
    (next : ∀ d literal q, Sound text d → scanNumber d.place = .ok (literal, q) →
      Sound text { d with place := q, ahead := none } →
      (ending (f literal { d with place := q, ahead := none })).Good text) :
    Always (Sounds text) (nextLiteral expected >>= f) := by
  rw [nextLiteral, bind_assoc]
  refine aheadAs_sounds fun d seen kind sound _ _ => ?_
  exact takeLexeme_good sound (scanNumber_scans d.place) fun literal q scanned left =>
    next d literal q sound scanned left

theorem nextLiteral_sounds (expected : Expected) : Always (Sounds text) (nextLiteral expected) := by
  rw [← bind_pure (nextLiteral expected)]
  exact literal_sounds text fun _ _ _ _ _ left => left.good

/-- A number that overflows is reported where its literal begins. -/
theorem nextNumber_sounds : Always (Sounds text) nextNumber := by
  refine literal_sounds text fun d literal q sound scanned left => ?_
  cases literal.number? with
  | some number => exact (left.valueTaken rfl).good
  | none =>
    refine ⟨left, ?_⟩
    rintro _ offset ⟨⟩ there
    cases there
    rw [(scanNumber_reaches scanned).2, Nat.add_sub_cancel]
    exact reaches_isValid sound.place

theorem sounds_steady : Steady (Sounds text) where
  stays _ sound := sound.good
  onward first next sound := next (first sound).sound
  fails elsewhere sound := sound.fails elsewhere
  ahead := ahead_sounds text
  beginObject := begins_sounds text rfl _ _
  endObject := ends_sounds text _ (fun _ stands => stands.object (.inl rfl)) nofun
  beginArray := begins_sounds text rfl _ _
  endArray := ends_sounds text _ (fun _ stands => stands.array rfl) nofun
  nextName := nextName_sounds text
  selectName := selectName_sounds text
  nextString := nextString_sounds text
  nextLiteral := nextLiteral_sounds text
  nextNumber := nextNumber_sounds text
  endScalar := endScalar_sounds text

end Operations

theorem Steady.call {R : Cursor → Ending → Prop} (steady : Steady R) (call : Call) :
    Always R call.run := by
  have done (x : Pull Unit) (ends : Always R x) : Always R (x >>= fun _ => Pure.pure Answer.done) :=
    steady.bind ends fun _ => steady.pure _
  have answers {β : Type} (answer : β → Answer) (x : Pull β) (ends : Always R x) :
      Always R (x >>= fun b => Pure.pure (answer b)) := steady.bind ends fun _ => steady.pure _
  cases call with
  | peek => exact answers _ _ steady.peek
  | hasNext => exact answers _ _ steady.hasNext
  | beginObject => exact done _ steady.beginObject
  | endObject => exact done _ steady.endObject
  | beginArray => exact done _ steady.beginArray
  | endArray => exact done _ steady.endArray
  | nextName => exact answers _ _ steady.nextName
  | selectName names => exact answers _ _ (steady.selectName names)
  | skipName => exact done _ steady.skipName
  | skipValue => exact done _ steady.skipValue
  | readValue => exact answers _ _ steady.readValue
  | nextString => exact answers _ _ steady.nextString
  | nextBool => exact answers _ _ steady.nextBool
  | nextNull => exact done _ steady.nextNull
  | nextDouble => exact answers _ _ steady.nextDouble
  | nextInt64 => exact answers _ _ steady.nextInt64
  | expectEnd => exact done _ steady.expectEnd

/-- What can be done with a reader: calls, and changes of what it lets through. -/
inductive Operation where
  | call (request : Call)
  | failOnUnknown (fails : Bool)
  | allow (name : String) (stripped : Bool)
  | disallow

/-- How an operation ends. The changes always succeed. -/
def Operation.run (c : Cursor) : Operation → Ending
  | .call request => ending (request.run c)
  | .failOnUnknown fails => ⟨none, c.under fails c.allowances⟩
  | .allow name stripped =>
    ⟨none, c.under c.failOnUnknown (⟨name, c.scopes.length + 1, stripped⟩ :: c.allowances)⟩
  | .disallow => ⟨none, c.under c.failOnUnknown c.allowances.tail⟩

/-- The state after one operation upon another, each from where the last has left the reader, also
where it has failed. -/
def runOperations (operations : List Operation) (c : Cursor) : Cursor :=
  operations.foldl (fun c operation => (operation.run c).cursor) c

section Reached
variable {text : String} {c : Cursor}

theorem Sound.under (sound : Sound text c) (flag : Bool) (allowances : List Allowance) :
    Sound text (c.under flag allowances) := by
  refine ⟨sound.place, sound.enclosures, sound.shallow, fun seen kept => ?_⟩
  obtain ⟨object, array, quoted⟩ := sound.ahead seen kept
  exact ⟨object, array, quoted⟩

theorem operation_good (sound : Sound text c) (operation : Operation) :
    (operation.run c).Good text := by
  cases operation with
  | call request => exact (sounds_steady text).call request c sound
  | failOnUnknown fails => exact (sound.under _ _).good
  | allow name stripped => exact (sound.under _ _).good
  | disallow => exact (sound.under _ _).good

theorem operations_sound (sound : Sound text c) (operations : List Operation) :
    Sound text (runOperations operations c) := by
  induction operations generalizing c with
  | nil => exact sound
  | cons operation rest ih => exact ih (operation_good sound operation).sound

/-! What the next operation can rely on. -/

/-- The scope on top can be looked at and closed, and the text cut where the cursor stands. -/
structure Safe (text : String) (c : Cursor) : Prop where
  height : c.scopes.length = c.path.length + 1
  bottom : ∃ inner, ∃ scope, c.scopes = inner ++ [scope] ∧ scope.enclosure = .document ∧
    ∀ other ∈ inner, other.enclosure ≠ .document
  closing : c.ahead = some .endObject ∨ c.ahead = some .endArray → 2 ≤ c.scopes.length
  rest : ∃ passed : String, text = passed ++ String.ofList c.place.rest ∧
    passed.utf8ByteSize = c.place.offset
  cut : (String.Pos.Raw.mk c.place.offset).IsValid text
  quote : c.ahead = some .name ∨ c.ahead = some .string →
    (String.Pos.Raw.mk (c.place.offset + 1)).IsValid text

theorem Sound.bottom (sound : Sound text c) : ∃ inner, ∃ scope, c.scopes = inner ++ [scope] ∧
    scope.enclosure = .document ∧ ∀ other ∈ inner, other.enclosure ≠ .document := by
  obtain ⟨inner, last, shape, inside, bottom⟩ := List.map_eq_append_iff.mp sound.enclosures
  obtain ⟨scope, rfl, document⟩ := List.map_eq_singleton_iff.mp bottom
  refine ⟨inner, scope, shape, document, fun other member => ?_⟩
  have container : other.enclosure ∈ c.path.map Step.enclosure :=
    inside ▸ List.mem_map_of_mem member
  obtain ⟨step, -, same⟩ := List.mem_map.mp container
  rw [← same]
  cases step <;> nofun

theorem Sound.height (sound : Sound text c) : c.scopes.length = c.path.length + 1 := by
  have same := congrArg List.length sound.enclosures
  simpa [Cursor.enclosures] using same

/-- A bracket that closes is not the scope of the document's to close. -/
theorem Sound.closing (sound : Sound text c)
    (closes : c.ahead = some .endObject ∨ c.ahead = some .endArray) : 2 ≤ c.scopes.length := by
  have inside : ∃ enclosure, c.enclosures.head? = some enclosure ∧ enclosure ≠ .document := by
    rcases closes with kept | kept
    · exact ⟨_, (sound.ahead _ kept).object (.inl rfl), nofun⟩
    · exact ⟨_, (sound.ahead _ kept).array rfl, nofun⟩
  obtain ⟨enclosure, first, container⟩ := inside
  rw [sound.height]
  cases path : c.path with
  | nil =>
    rw [sound.enclosures, path] at first
    cases first
    exact absurd rfl container
  | cons step outer =>
    rw [List.length_cons]
    omega

theorem Sound.safe (sound : Sound text c) : Safe text c where
  height := sound.height
  bottom := sound.bottom
  closing := sound.closing
  rest := by
    obtain ⟨passed, shape, offset⟩ := sound.place
    refine ⟨String.ofList passed, ?_, ?_⟩
    · rw [← String.ofList_append]
      exact String.ofList_toList.symm.trans (congrArg String.ofList shape)
    · rw [byteLength_ofList, offset]
      exact (Nat.zero_add _).symm
  cut := reaches_isValid sound.place
  quote kept := by
    have quoted : c.place.rest.head? = some '"' := by
      rcases kept with kept | kept
      · exact (sound.ahead _ kept).quoted (.inl rfl)
      · exact (sound.ahead _ kept).quoted (.inr rfl)
    obtain ⟨rest, shape⟩ := List.head?_eq_some_iff.mp quoted
    have opened : c.place.Reaches ⟨rest, c.place.offset + 1⟩ := ⟨['"'], shape, rfl⟩
    exact reaches_isValid (sound.place.trans opened)

end Reached

/-- Whatever is done with a reader of a text, in whatever order and with whatever success, its stack
of scopes stays in step with its path, the cursor stays at a character of the text or at its end,
and so does every offset that an error reports. -/
theorem reader_integrity (text : String) (operations : List Operation) :
    Sound text (runOperations operations (Cursor.ofText text)) ∧
      Safe text (runOperations operations (Cursor.ofText text)) ∧
      ∀ operation : Operation,
        (operation.run (runOperations operations (Cursor.ofText text))).Good text := by
  have sound := operations_sound (sound_ofText text) operations
  exact ⟨sound, sound.safe, operation_good sound⟩

end Pull
end TaggedJson
