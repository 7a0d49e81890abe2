import TaggedJson.Proofs.Lexemes
import TaggedJson.Proofs.Subtrees
/-! Reading and spelling agree. An event is taken where the text spells its lexeme after what the
scope puts in front of it; from that, by induction over the document, a document is read to the end
exactly when the text spells it and it is not too deep. -/
namespace TaggedJson.Pull
open Json

def Event.lexeme : Event → Lexeme
  | .beginObject => .openObject
  | .endObject => .closeObject
  | .beginArray => .openArray
  | .endArray => .closeArray
  | .name text | .string text => .string text
  | .number literal => .number literal
  | .bool value => .bool value
  | .null => .null

/-- What stands in front of a name or a value in a scope. -/
def leadIn : Scope → List Lexeme
  | .objectValue => [.colon]
  | .objectNext | .arrayNext => [.comma]
  | _ => []

def Event.closes : Event → Bool
  | .endObject | .endArray => true
  | _ => false

def Event.opens : Event → Bool
  | .beginObject | .beginArray => true
  | _ => false

/-- The lexemes that an event takes in a scope. -/
def Event.lexemes (event : Event) (scope : Scope) : List Lexeme :=
  (if event.closes then [] else leadIn scope) ++ [event.lexeme]

/-- Names, strings and numbers are still before the cursor once they are ahead, everything else is
behind it. -/
def Pending (event : Event) (more : List Lexeme) (rest : List Char) : Prop :=
  if event.seen.weight = 0 then
    ∃ chars after, rest = chars ++ after ∧ event.lexeme.Spelled chars ∧ Spelling more after
  else Spelling more rest

/-- A look that finds strings and names stops at a quote. -/
def Quoted (seen : Ahead) (rest : List Char) : Prop :=
  seen = .name ∨ seen = .string → rest.head? = some '"'

/-! What a look that succeeds has passed. -/

theorem lookLiteral_found {word : List Char} {seen found : Ahead} {c e : Cursor}
    (looked : lookLiteral word seen c = .ok found e) :
    found = seen ∧ c.place.rest = word ++ e.place.rest := by
  unfold lookLiteral at looked
  split at looked
  · rename_i fits
    simp only [Bool.and_eq_true, List.isPrefixOf_iff_prefix] at fits
    obtain ⟨tail, split⟩ := fits.1
    cases looked
    refine ⟨rfl, ?_⟩
    simp only [Cursor.advance, ← split, List.drop_left]
  · cases looked

/-- What a look has passed is spelled by what it passed. -/
theorem passed_found (event : Event) {chars text rest : List Char} (more : List Lexeme)
    (passed : event.seen.weight ≠ 0) (spelled : event.lexeme.Spelled chars)
    (split : skipSpace text = chars ++ rest) : Quoted event.seen rest ∧
      (Pending event more rest → Spelling (event.lexeme :: more) text) := by
  constructor
  · rintro (name | string)
    · rw [name] at passed
      exact (passed rfl).elim
    · rw [string] at passed
      exact (passed rfl).elim
  · intro pending
    rw [Pending, if_neg passed] at pending
    exact spelling_cons_iff.mpr ⟨chars, rest, split, spelled, pending⟩

/-- What a look has only found is spelled where it stands. -/
theorem waiting_found {event : Event} {text : List Char} {more : List Lexeme}
    (waits : event.seen.weight = 0) (pending : Pending event more (skipSpace text)) :
    Spelling (event.lexeme :: more) text := by
  rw [Pending, if_pos waits] at pending
  obtain ⟨chars, after, split, spelled, spelling⟩ := pending
  exact spelling_cons_iff.mpr ⟨chars, after, split, spelled, spelling⟩

theorem lookValue_found {event : Event} {c e : Cursor} (more : List Lexeme)
    (looked : lookValue c = .ok event.seen e) : Quoted event.seen e.place.rest ∧
      (Pending event more e.place.rest → Spelling (event.lexeme :: more) c.place.rest) := by
  unfold lookValue at looked
  simp only at looked
  split at looked
  · cases looked
  rename_i next rest split
  have stands : skipSpace c.place.rest = next :: rest := split
  have left : (c.skipSpace.advance 1).place.rest = rest := by rw [Cursor.advance, split]; rfl
  repeat' split at looked
  · rename_i bracket
    subst bracket
    cases event <;> cases looked
    rw [left]
    exact passed_found .beginObject more Nat.one_ne_zero .openObject stands
  · rename_i _ bracket
    subst bracket
    cases event <;> cases looked
    rw [left]
    exact passed_found .beginArray more Nat.one_ne_zero .openArray stands
  · rename_i _ _ quote
    subst quote
    cases event <;> cases looked
    exact ⟨by simp [Quoted, split], waiting_found rfl⟩
  · obtain ⟨same, divided⟩ := lookLiteral_found looked
    cases event <;> cases same
    exact passed_found (.bool true) more Nat.one_ne_zero .true divided
  · obtain ⟨same, divided⟩ := lookLiteral_found looked
    cases event <;> cases same
    exact passed_found (.bool false) more Nat.one_ne_zero .false divided
  · obtain ⟨same, divided⟩ := lookLiteral_found looked
    cases event <;> cases same
    exact passed_found .null more Nat.one_ne_zero .null divided
  · cases event <;> cases looked
    exact ⟨by simp [Quoted, Event.seen], waiting_found rfl⟩
  · cases looked

theorem lookName_found {event : Event} {first : Bool} {c e : Cursor} (more : List Lexeme)
    (looked : lookName first c = .ok event.seen e) : Quoted event.seen e.place.rest ∧
      (Pending event more e.place.rest → Spelling (event.lexeme :: more) c.place.rest) := by
  unfold lookName at looked
  simp only at looked
  split at looked
  · cases looked
  rename_i next rest split
  repeat' split at looked
  · rename_i quote
    subst quote
    cases event <;> cases looked
    exact ⟨by simp [Quoted, Cursor.withScope, split], waiting_found rfl⟩
  · rename_i _ bracket
    obtain ⟨_, rfl⟩ := bracket
    cases event <;> cases looked
    rw [Cursor.advance, split]
    exact passed_found .endObject more Nat.one_ne_zero .closeObject split
  · cases looked

/-- Only the first member may be replaced by the end of the object. -/
theorem lookName_later {seen : Ahead} {c e : Cursor} (looked : lookName false c = .ok seen e) :
    seen = .name := by
  unfold lookName at looked
  simp only at looked
  repeat' split at looked
  · cases looked
  · cases looked
    rfl
  · rename_i _ bracket
    cases bracket.1
  · cases looked

/-- A separator that has been passed stands before what comes after it. -/
theorem spelling_separated {separator : Lexeme} {next : Char} {lexemes : List Lexeme}
    {text rest : List Char} (spelled : separator.Spelled [next])
    (stands : skipSpace text = next :: rest) (more : Spelling lexemes rest) :
    Spelling (separator :: lexemes) text :=
  spelling_cons_iff.mpr ⟨[next], rest, stands, spelled, more⟩

section Places
variable {event : Event} {c e : Cursor} {more : List Lexeme}

/-- What is found behind a separator has the separator in front of it. -/
theorem found_separated {separator : Lexeme} {next : Char} {rest : List Char}
    (spelled : separator.Spelled [next]) (split : c.skipSpace.place.rest = next :: rest)
    (found : Quoted event.seen e.place.rest ∧ (Pending event more e.place.rest →
      Spelling (event.lexeme :: more) (c.skipSpace.advance 1).place.rest)) :
    Quoted event.seen e.place.rest ∧ (Pending event more e.place.rest →
      Spelling (separator :: event.lexeme :: more) c.place.rest) := by
  obtain ⟨quoted, spelling⟩ := found
  refine ⟨quoted, fun pending => ?_⟩
  have after := spelling pending
  rw [Cursor.advance, split] at after
  exact spelling_separated spelled split after

theorem lookAfterName_found (looked : lookAfterName c = .ok event.seen e) :
    Quoted event.seen e.place.rest ∧ (Pending event more e.place.rest →
      Spelling (event.lexemes .objectValue ++ more) c.place.rest) := by
  simp only [lookAfterName] at looked
  split at looked
  · cases looked
  rename_i next rest split
  split at looked
  · rename_i colon
    subst colon
    obtain ⟨starts, -⟩ := lookValue_scopes looked
    have found := found_separated .colon split (lookValue_found more looked)
    cases event <;> first | exact found | cases starts
  · cases looked

theorem lookAfterMember_found (looked : lookAfterMember c = .ok event.seen e) :
    Quoted event.seen e.place.rest ∧ (Pending event more e.place.rest →
      Spelling (event.lexemes .objectNext ++ more) c.place.rest) := by
  simp only [lookAfterMember] at looked
  split at looked
  · cases looked
  rename_i next rest split
  repeat' split at looked
  · rename_i bracket
    subst bracket
    cases event <;> cases looked
    rw [Cursor.advance, split]
    exact passed_found .endObject more Nat.one_ne_zero .closeObject split
  · rename_i comma
    subst comma
    have named := lookName_later looked
    have found := found_separated .comma split (lookName_found more looked)
    cases event <;> first | exact found | cases named
  · cases looked

theorem lookFirstItem_found (looked : lookFirstItem c = .ok event.seen e) :
    Quoted event.seen e.place.rest ∧ (Pending event more e.place.rest →
      Spelling (event.lexemes .arrayStart ++ more) c.place.rest) := by
  simp only [lookFirstItem] at looked
  split at looked
  · rename_i bracket
    obtain ⟨rest, stands⟩ := List.head?_eq_some_iff.mp bracket
    cases event <;> cases looked
    rw [Cursor.advance, stands]
    exact passed_found .endArray more Nat.one_ne_zero .closeArray stands
  · obtain ⟨quoted, spelling⟩ := lookValue_found more looked
    refine ⟨quoted, fun pending => ?_⟩
    have after := spelling_skipSpace (spelling pending)
    cases event <;> exact after

theorem lookAfterItem_found (looked : lookAfterItem c = .ok event.seen e) :
    Quoted event.seen e.place.rest ∧ (Pending event more e.place.rest →
      Spelling (event.lexemes .arrayNext ++ more) c.place.rest) := by
  simp only [lookAfterItem] at looked
  split at looked
  · cases looked
  rename_i next rest split
  repeat' split at looked
  · rename_i bracket
    subst bracket
    cases event <;> cases looked
    rw [Cursor.advance, split]
    exact passed_found .endArray more Nat.one_ne_zero .closeArray split
  · rename_i comma
    subst comma
    obtain ⟨starts, -⟩ := lookValue_scopes looked
    have found := found_separated .comma split (lookValue_found more looked)
    cases event <;> first | exact found | cases starts
  · cases looked

theorem look_found {scope : Scope} {outer : List Scope} (shape : c.scopes = scope :: outer)
    (looked : look c = .ok event.seen e) :
    Quoted event.seen e.place.rest ∧ (Pending event more e.place.rest →
      Spelling (event.lexemes scope ++ more) c.place.rest) := by
  unfold look at looked
  rw [shape] at looked
  cases scope <;> simp only [List.head?_cons] at looked
  case documentStart =>
    obtain ⟨quoted, spelling⟩ := lookValue_found more looked
    refine ⟨quoted, fun pending => ?_⟩
    cases event <;> exact spelling pending
  case documentEnd =>
    -- After the document there is only its end, which is no event.
    simp only [lookEnd] at looked
    split at looked <;> cases event <;> cases looked
  case objectStart =>
    obtain ⟨quoted, spelling⟩ := lookName_found more looked
    refine ⟨quoted, fun pending => ?_⟩
    cases event <;> exact spelling pending
  case objectValue => exact lookAfterName_found looked
  case objectNext => exact lookAfterMember_found looked
  case arrayStart => exact lookFirstItem_found looked
  case arrayNext => exact lookAfterItem_found looked

end Places

/-! What is still before the cursor is spelled where it is taken. -/

theorem valueTaken_place (c : Cursor) : c.valueTaken.place = c.place := by
  unfold Cursor.valueTaken
  split <;> rfl

theorem setName_place (c : Cursor) (name : String) : (c.setName name).place = c.place := by
  unfold Cursor.setName
  split <;> rfl

theorem takeLexeme_iff {scan : Place → Except Fault (α × Place)} {c e : Cursor} {a : α} :
    takeLexeme scan c = .ok a e ↔ ∃ place, scan c.place = .ok (a, place) ∧
      e = { c with place := place } := by
  unfold takeLexeme
  cases scanned : scan c.place with
  | error => simp
  | ok found =>
    simp only [EStateM.Result.ok.injEq, Except.ok.injEq]
    constructor
    · rintro ⟨rfl, rfl⟩
      exact ⟨found.2, rfl, rfl⟩
    · rintro ⟨_, rfl, rfl⟩
      exact ⟨rfl, rfl⟩

theorem openScope_iff {scope : Scope} {step : Step} {c c' : Cursor} {u : Unit} :
    openScope scope step c = .ok u c' ↔ c.scopes.length ≤ depthLimit ∧ c' = c.push scope step := by
  unfold openScope
  by_cases deep : depthLimit < c.scopes.length
  · simp [deep, Nat.not_le.mpr deep]
  · simp [deep, Nat.not_lt.mp deep, eq_comm (a := c')]

theorem leaves_found {event : Event} {more : List Lexeme} {d c' : Cursor}
    (leaves : event.Leaves d c') (quoted : Quoted event.seen d.place.rest)
    (spelling : Spelling more c'.place.rest) : Pending event more d.place.rest := by
  cases event with
  | beginObject | beginArray =>
    obtain ⟨-, rfl⟩ := openScope_iff.mp leaves
    exact spelling
  | endObject | endArray =>
    cases leaves
    rw [Cursor.pop, valueTaken_place] at spelling
    exact spelling
  | bool value | null =>
    cases leaves
    rw [valueTaken_place] at spelling
    exact spelling
  | name text =>
    obtain ⟨e, taken, rfl⟩ := leaves
    obtain ⟨place, scanned, rfl⟩ := takeLexeme_iff.mp taken
    rw [setName_place] at spelling
    obtain ⟨chars, spelled, split⟩ := scanString_ok (quoted (.inl rfl)) scanned
    exact ⟨chars, place.rest, split, spelled, spelling⟩
  | string text =>
    obtain ⟨e, taken, rfl⟩ := leaves
    obtain ⟨place, scanned, rfl⟩ := takeLexeme_iff.mp taken
    rw [valueTaken_place] at spelling
    obtain ⟨chars, spelled, split⟩ := scanString_ok (quoted (.inr rfl)) scanned
    exact ⟨chars, place.rest, split, spelled, spelling⟩
  | number literal =>
    obtain ⟨e, taken, rfl⟩ := leaves
    obtain ⟨place, scanned, rfl⟩ := takeLexeme_iff.mp taken
    rw [valueTaken_place] at spelling
    obtain ⟨spelled, split⟩ := scanNumber_ok scanned
    exact ⟨_, place.rest, split, spelled, spelling⟩

theorem taken_spelled {event : Event} {scope : Scope} {outer : List Scope} {more : List Lexeme}
    {c c' : Cursor} (fresh : c.ahead = none) (shape : c.scopes = scope :: outer)
    (taken : event.Taken c c') (spelling : Spelling more c'.place.rest) :
    Spelling (event.lexemes scope ++ more) c.place.rest := by
  obtain ⟨d, seen, leaves⟩ := taken
  obtain ⟨e, looked, rfl⟩ := (ahead_fresh fresh).mp seen
  obtain ⟨quoted, passed⟩ := look_found shape looked
  have pending := leaves_found leaves quoted spelling
  exact passed pending

/-! What is spelled is found. -/

/-- A bracket that a look passes leaves what is spelled after it. -/
theorem bracket_spelled (event : Event) {next : Char} {rest : List Char} {more : List Lexeme}
    {c : Cursor} {outcome : Outcome Ahead} (found : outcome = .ok event.seen (c.advance 1))
    (passed : event.seen.weight ≠ 0) (stands : c.place.rest = next :: rest)
    (after : Spelling more rest) :
    ∃ e, outcome = .ok event.seen e ∧ Pending event more e.place.rest := by
  refine ⟨_, found, ?_⟩
  rwa [Pending, if_neg passed, Cursor.advance, stands]

theorem lookLiteral_spelled (event : Event) {word rest : List Char} {more : List Lexeme}
    {c : Cursor} (passed : event.seen.weight ≠ 0) (stands : c.place.rest = word ++ rest)
    (apart : rest.head?.any Char.isAlphanum = false) (after : Spelling more rest) :
    ∃ e, lookLiteral word event.seen c = .ok event.seen e ∧ Pending event more e.place.rest := by
  have found : lookLiteral word event.seen c = .ok event.seen (c.advance word.length) := by
    unfold lookLiteral
    rw [stands, List.drop_left]
    simp [List.isPrefixOf_iff_prefix, apart]
  refine ⟨_, found, ?_⟩
  rwa [Pending, if_neg passed, Cursor.advance, stands, List.drop_left]

/-- No other value begins as a number does. -/
theorem lookValue_number {first : Char} {rest : List Char} {c : Cursor}
    (stands : c.skipSpace.place.rest = first :: rest)
    (start : first = '-' ∨ first.isDigit = true) : lookValue c = .ok .number c.skipSpace := by
  have other (next : Char) (quiet : ¬(next = '-' ∨ next.isDigit = true)) : first ≠ next :=
    fun same => quiet (same ▸ start)
  unfold lookValue
  simp only [stands, other '{' (by decide), other '[' (by decide), other '"' (by decide),
    other 't' (by decide), other 'f' (by decide), other 'n' (by decide), if_false, if_pos start]

theorem lookValue_spelled {event : Event} {more : List Lexeme} {c : Cursor}
    (starts : event.seen.starts = true) (ends : event.isScalar = true → Ends more)
    (spelling : Spelling (event.lexeme :: more) c.place.rest) :
    ∃ e, lookValue c = .ok event.seen e ∧ Pending event more e.place.rest := by
  obtain ⟨chars, rest, split, spelled, after⟩ := spelling_cons_iff.mp spelling
  have stands : c.skipSpace.place.rest = chars ++ rest := split
  cases event <;> simp only [Event.lexeme] at spelled
  case number literal =>
    have whole := spelled
    cases spelled with
    | number grammatical =>
      obtain ⟨first, others, shape, start⟩ := number_head grammatical
      have first : c.skipSpace.place.rest = first :: (others ++ rest) := by
        rw [stands, shape, List.cons_append]
      exact ⟨_, lookValue_number first start, _, rest, stands, whole, after⟩
  all_goals unfold lookValue
  case beginObject =>
    cases spelled
    simp only [stands, List.cons_append, List.nil_append]
    exact bracket_spelled .beginObject rfl Nat.one_ne_zero stands after
  case beginArray =>
    cases spelled
    simp only [stands, List.cons_append, List.nil_append]
    exact bracket_spelled .beginArray rfl Nat.one_ne_zero stands after
  case string text =>
    have whole := spelled
    cases spelled
    simp only [stands, List.cons_append]
    exact ⟨_, rfl, _, rest, stands, whole, after⟩
  case bool value =>
    -- A literal must not run on, and what comes after a value does not go on with a letter.
    have apart := ends_literal (ends rfl) after
    cases spelled <;> simp only [stands, List.cons_append]
    · exact lookLiteral_spelled (.bool true) Nat.one_ne_zero stands apart after
    · exact lookLiteral_spelled (.bool false) Nat.one_ne_zero stands apart after
  case null =>
    have apart := ends_literal (ends rfl) after
    cases spelled
    simp only [stands, List.cons_append]
    exact lookLiteral_spelled .null Nat.one_ne_zero stands apart after
  all_goals cases starts

theorem lookName_spelled {event : Event} {first : Bool} {more : List Lexeme} {c : Cursor}
    (here : event.seen = .name ∨ event.seen = .endObject ∧ first = true)
    (spelling : Spelling (event.lexeme :: more) c.place.rest) :
    ∃ e, lookName first c = .ok event.seen e ∧ Pending event more e.place.rest := by
  obtain ⟨chars, rest, split, spelled, after⟩ := spelling_cons_iff.mp spelling
  have stands : c.skipSpace.place.rest = chars ++ rest := split
  unfold lookName
  rcases here with name | ⟨bracket, rfl⟩
  · cases event <;> cases name
    have whole := spelled
    cases spelled
    simp only [stands, List.cons_append]
    exact ⟨_, rfl, _, rest, stands, whole, after⟩
  · cases event <;> cases bracket
    cases spelled
    simp only [stands, List.cons_append, List.nil_append]
    exact bracket_spelled .endObject rfl Nat.one_ne_zero stands after

theorem spelling_separator {separator : Lexeme} {next : Char} {lexemes : List Lexeme}
    {text : List Char} (only : ∀ chars, separator.Spelled chars → chars = [next])
    (spelling : Spelling (separator :: lexemes) text) :
    ∃ rest, skipSpace text = next :: rest ∧ Spelling lexemes rest := by
  obtain ⟨chars, rest, split, spelled, more⟩ := spelling_cons_iff.mp spelling
  rw [only chars spelled] at split
  exact ⟨rest, split, more⟩

theorem comma_spelled (chars : List Char) (spelled : Lexeme.comma.Spelled chars) :
    chars = [','] := by
  cases spelled
  rfl

theorem colon_spelled (chars : List Char) (spelled : Lexeme.colon.Spelled chars) :
    chars = [':'] := by
  cases spelled
  rfl

theorem start_kind {event : Event} (starts : event.seen.starts = true) :
    event.lexeme.kind ≠ ']' := by
  cases event with
  | bool value => cases value <;> decide
  | endObject | endArray | name => cases starts
  | _ => simp [Event.lexeme, Lexeme.kind]

section Spelled
variable {event : Event} {more : List Lexeme} {c : Cursor}

theorem lookAfterName_spelled (starts : event.seen.starts = true)
    (ends : event.isScalar = true → Ends more)
    (spelling : Spelling (.colon :: event.lexeme :: more) c.place.rest) :
    ∃ e, lookAfterName c = .ok event.seen e ∧ Pending event more e.place.rest := by
  obtain ⟨rest, split, value⟩ := spelling_separator colon_spelled spelling
  have stands : (c.withScope .objectNext).skipSpace.place.rest = ':' :: rest := split
  simp only [lookAfterName, stands, if_true]
  apply lookValue_spelled starts ends
  simpa [Cursor.advance, stands] using value

theorem lookAfterMember_spelled (name : event.seen = .name)
    (spelling : Spelling (.comma :: event.lexeme :: more) c.place.rest) :
    ∃ e, lookAfterMember c = .ok event.seen e ∧ Pending event more e.place.rest := by
  obtain ⟨rest, split, named⟩ := spelling_separator comma_spelled spelling
  have stands : c.skipSpace.place.rest = ',' :: rest := split
  simp only [lookAfterMember, stands]
  apply lookName_spelled (.inl name)
  simpa [Cursor.advance, stands] using named

/-- The first item is no bracket, so the array is not taken for an empty one. -/
theorem lookFirstItem_spelled (starts : event.seen.starts = true)
    (ends : event.isScalar = true → Ends more)
    (spelling : Spelling (event.lexeme :: more) c.place.rest) :
    ∃ e, lookFirstItem c = .ok event.seen e ∧ Pending event more e.place.rest := by
  obtain ⟨chars, rest, split, spelled, after⟩ := spelling_cons_iff.mp spelling
  have stands : (c.withScope .arrayNext).skipSpace.place.rest = chars ++ rest := split
  have unclosed : (c.withScope .arrayNext).skipSpace.place.rest.head? ≠ some ']' := by
    obtain ⟨first, _, rfl, -, kind⟩ := spelled_head spelled
    rw [stands, List.cons_append, List.head?_cons, Ne, Option.some.injEq]
    rintro rfl
    exact start_kind starts kind.symm
  simp only [lookFirstItem, if_neg unclosed]
  apply lookValue_spelled starts ends
  rw [stands]
  exact spelling_exact spelled after

theorem lookAfterItem_spelled (starts : event.seen.starts = true)
    (ends : event.isScalar = true → Ends more)
    (spelling : Spelling (.comma :: event.lexeme :: more) c.place.rest) :
    ∃ e, lookAfterItem c = .ok event.seen e ∧ Pending event more e.place.rest := by
  obtain ⟨rest, split, value⟩ := spelling_separator comma_spelled spelling
  have stands : c.skipSpace.place.rest = ',' :: rest := split
  simp only [lookAfterItem, stands]
  apply lookValue_spelled starts ends
  simpa [Cursor.advance, stands] using value

theorem look_endObject {scope : Scope} {outer : List Scope} (shape : c.scopes = scope :: outer)
    (member : AtMember scope) (spelling : Spelling (.closeObject :: more) c.place.rest) :
    ∃ e, look c = .ok Event.endObject.seen e ∧ Pending .endObject more e.place.rest := by
  unfold look
  rw [shape]
  rcases member with rfl | rfl <;> simp only [List.head?_cons]
  · exact lookName_spelled (.inr ⟨rfl, rfl⟩) spelling
  · obtain ⟨chars, rest, split, spelled, after⟩ := spelling_cons_iff.mp spelling
    cases spelled
    have stands : c.skipSpace.place.rest = '}' :: rest := split
    simp only [lookAfterMember, stands, if_true]
    exact bracket_spelled .endObject rfl Nat.one_ne_zero stands after

theorem look_endArray {scope : Scope} {outer : List Scope} (shape : c.scopes = scope :: outer)
    (item : AtItem scope) (spelling : Spelling (.closeArray :: more) c.place.rest) :
    ∃ e, look c = .ok Event.endArray.seen e ∧ Pending .endArray more e.place.rest := by
  obtain ⟨chars, rest, split, spelled, after⟩ := spelling_cons_iff.mp spelling
  cases spelled
  unfold look
  rw [shape]
  rcases item with rfl | rfl <;> simp only [List.head?_cons]
  · have stands : (c.withScope .arrayNext).skipSpace.place.rest = ']' :: rest := split
    simp only [lookFirstItem, stands, List.head?_cons, if_true]
    exact bracket_spelled .endArray rfl Nat.one_ne_zero stands after
  · have stands : c.skipSpace.place.rest = ']' :: rest := split
    simp only [lookAfterItem, stands, if_true]
    exact bracket_spelled .endArray rfl Nat.one_ne_zero stands after

theorem look_value_spelled {scope after : Scope} {outer : List Scope}
    (shape : c.scopes = scope :: outer) (place : afterValue scope = some after)
    (starts : event.seen.starts = true) (ends : event.isScalar = true → Ends more)
    (spelling : Spelling (leadIn scope ++ event.lexeme :: more) c.place.rest) :
    ∃ e, look c = .ok event.seen e ∧ Pending event more e.place.rest := by
  unfold look
  rw [shape]
  cases scope <;> simp only [List.head?_cons]
  case documentStart => exact lookValue_spelled starts ends spelling
  case objectValue => exact lookAfterName_spelled starts ends spelling
  case arrayStart => exact lookFirstItem_spelled starts ends spelling
  case arrayNext => exact lookAfterItem_spelled starts ends spelling
  all_goals cases place

theorem look_spelled {scope : Scope} {outer after : List Scope} (shape : c.scopes = scope :: outer)
    (moves : event.Moves (scope :: outer) after) (ends : event.isScalar = true → Ends more)
    (spelling : Spelling (event.lexemes scope ++ more) c.place.rest) :
    ∃ e, look c = .ok event.seen e ∧ Pending event more e.place.rest := by
  rw [Event.lexemes, List.append_assoc] at spelling
  cases moves with
  | beginObject place | beginArray place => exact look_value_spelled shape place rfl ends spelling
  | scalar place single =>
    cases event <;>
      first | cases single; done | exact look_value_spelled shape place rfl ends spelling
  | name member =>
    unfold look
    rw [shape]
    rcases member with rfl | rfl <;> simp only [List.head?_cons]
    · exact lookName_spelled (.inl rfl) spelling
    · exact lookAfterMember_spelled rfl spelling
  | endObject member => exact look_endObject shape member spelling
  | endArray item => exact look_endArray shape item spelling

end Spelled

theorem leaves_spelled {event : Event} {more : List Lexeme} {d : Cursor}
    (room : event.opens = true → d.scopes.length ≤ depthLimit)
    (stops : ∀ literal, event = .number literal → Ends more)
    (pending : Pending event more d.place.rest) :
    ∃ c', event.Leaves d c' ∧ Spelling more c'.place.rest := by
  cases event with
  | beginObject => exact ⟨_, openScope_iff.mpr ⟨room rfl, rfl⟩, pending⟩
  | beginArray => exact ⟨_, openScope_iff.mpr ⟨room rfl, rfl⟩, pending⟩
  | endObject | endArray =>
    refine ⟨_, rfl, ?_⟩
    rw [Cursor.pop, valueTaken_place]
    exact pending
  | bool value | null =>
    refine ⟨_, rfl, ?_⟩
    rw [valueTaken_place]
    exact pending
  | name text =>
    obtain ⟨chars, after, split, spelled, spelling⟩ := pending
    obtain ⟨further, scanned⟩ := scanString_spelled spelled split
    refine ⟨_, ⟨_, takeLexeme_iff.mpr ⟨_, scanned, rfl⟩, rfl⟩, ?_⟩
    rw [setName_place]
    exact spelling
  | string text =>
    obtain ⟨chars, after, split, spelled, spelling⟩ := pending
    obtain ⟨further, scanned⟩ := scanString_spelled spelled split
    refine ⟨_, ⟨_, takeLexeme_iff.mpr ⟨_, scanned, rfl⟩, rfl⟩, ?_⟩
    rw [valueTaken_place]
    exact spelling
  | number literal =>
    obtain ⟨chars, after, split, spelled, spelling⟩ := pending
    have apart := ends_stops (stops _ rfl) spelling
    obtain ⟨further, scanned⟩ := scanNumber_spelled spelled split apart
    refine ⟨_, ⟨_, takeLexeme_iff.mpr ⟨_, scanned, rfl⟩, rfl⟩, ?_⟩
    rw [valueTaken_place]
    exact spelling

theorem spelled_taken {event : Event} {scope : Scope} {outer after : List Scope}
    {more : List Lexeme} {c : Cursor} (fresh : c.ahead = none) (shape : c.scopes = scope :: outer)
    (moves : event.Moves (scope :: outer) after) (ends : event.isScalar = true → Ends more)
    (room : event.opens = true → c.scopes.length ≤ depthLimit)
    (spelling : Spelling (event.lexemes scope ++ more) c.place.rest) :
    ∃ c', event.Taken c c' ∧ Spelling more c'.place.rest := by
  obtain ⟨e, looked, pending⟩ := look_spelled shape moves ends spelling
  have same : e.scopes.length = c.scopes.length := (look_sees looked).length
  have room : event.opens = true → e.scopes.length ≤ depthLimit := fun opens => same ▸ room opens
  have stops (literal : NumberLiteral) (number : event = .number literal) : Ends more :=
    ends (number ▸ rfl)
  obtain ⟨c', leaves, left⟩ := leaves_spelled (d := { e with ahead := some event.seen })
    room stops pending
  exact ⟨c', ⟨_, (ahead_fresh fresh).mpr ⟨e, looked, rfl⟩, leaves⟩, left⟩

/-! Whole documents. -/

/-- The scope in front of an item. -/
def itemScope (first : Bool) : Scope := if first then .arrayStart else .arrayNext

/-- The scope in front of a member. -/
def memberScope (first : Bool) : Scope := if first then .objectStart else .objectNext

theorem leadIn_itemScope (first : Bool) : leadIn (itemScope first) = separator first := by
  cases first <;> rfl

theorem leadIn_memberScope (first : Bool) : leadIn (memberScope first) = separator first := by
  cases first <;> rfl

theorem atItem_itemScope (first : Bool) : AtItem (itemScope first) := by
  cases first
  · exact .inr rfl
  · exact .inl rfl

theorem atMember_memberScope (first : Bool) : AtMember (memberScope first) := by
  cases first
  · exact .inr rfl
  · exact .inl rfl

theorem itemScope_after {first : Bool} {after : Scope}
    (place : afterValue (itemScope first) = some after) : after = itemScope false := by
  cases first <;> cases place <;> rfl

/-- A container that has been opened is not too deep. -/
theorem opened_room {event : Event} {c d : Cursor} (taken : event.Taken c d)
    (opens : event.opens = true) : d.scopes.length ≤ depthLimit + 1 := by
  obtain ⟨m, -, leaves⟩ := taken
  cases event <;> cases opens
  all_goals
    obtain ⟨room, rfl⟩ := openScope_iff.mp leaves
    exact Nat.succ_le_succ room

mutual
theorem reads_spelled : ∀ (document : Document) {c c' : Cursor} {scope : Scope}
    {outer : List Scope} {more : List Lexeme}, c.ahead = none → c.scopes = scope :: outer →
    Reads document c c' → Spelling more c'.place.rest →
    Spelling (leadIn scope ++ (document.lexemes ++ more)) c.place.rest ∧
      document.depth ≤ depthLimit + 1 - c.scopes.length
  | .null, _, _, _, _, _, fresh, shape, reads, after
  | .bool _, _, _, _, _, _, fresh, shape, reads, after
  | .number _, _, _, _, _, _, fresh, shape, reads, after
  | .string _, _, _, _, _, _, fresh, shape, reads, after => by
    have := taken_spelled fresh shape (runs_singleton.mp reads) after
    rw [Event.lexemes, List.append_assoc] at this
    exact ⟨this, Nat.zero_le _⟩
  | .array items, c, c', scope, outer, more, fresh, shape, reads, after => by
    obtain ⟨d, taken, rest⟩ := reads
    have room := opened_room taken rfl
    obtain ⟨moves, clear⟩ := moves_of_taken fresh shape taken
    obtain ⟨_, -, opened⟩ := moves_beginArray moves
    obtain ⟨inside, shallow⟩ := items_spelled true items clear opened rest after
    have := taken_spelled fresh shape taken inside
    rw [Event.lexemes, List.append_assoc] at this
    refine ⟨this, ?_⟩
    -- The items have one scope more around them, and the bracket was let through only if that fits.
    simp only [opened, shape, List.length_cons, Document.depth] at room shallow ⊢
    omega
  | .object members, c, c', scope, outer, more, fresh, shape, reads, after => by
    obtain ⟨d, taken, rest⟩ := reads
    have room := opened_room taken rfl
    obtain ⟨moves, clear⟩ := moves_of_taken fresh shape taken
    obtain ⟨_, -, opened⟩ := moves_beginObject moves
    obtain ⟨inside, shallow⟩ := members_spelled true members clear opened rest after
    have := taken_spelled fresh shape taken inside
    rw [Event.lexemes, List.append_assoc] at this
    refine ⟨this, ?_⟩
    simp only [opened, shape, List.length_cons, Document.depth] at room shallow ⊢
    omega

theorem items_spelled : ∀ (first : Bool) (items : List Document) {c c' : Cursor}
    {outer : List Scope} {more : List Lexeme}, c.ahead = none →
    c.scopes = itemScope first :: outer → Runs (itemEvents items) c c' →
    Spelling more c'.place.rest →
    Spelling (Document.itemLexemes first items ++ more) c.place.rest ∧
      Document.depthItems items ≤ depthLimit + 1 - c.scopes.length
  | first, [], _, _, _, _, fresh, shape, runs, after =>
    ⟨taken_spelled fresh shape (runs_singleton.mp runs) after, Nat.zero_le _⟩
  | first, item :: rest, c, c', outer, more, fresh, shape, runs, after => by
    obtain ⟨d, one, others⟩ := runs_append.mp runs
    obtain ⟨next, place, left, clear⟩ := reads_scopes item fresh shape one
    rw [itemScope_after place] at left
    -- From the end: what the other items spell is what comes after this one.
    obtain ⟨tail, shallow⟩ := items_spelled false rest clear left others after
    obtain ⟨spelling, depth⟩ := reads_spelled item fresh shape one tail
    rw [leadIn_itemScope] at spelling
    simp only [Document.itemLexemes, List.append_assoc]
    refine ⟨spelling, ?_⟩
    simp only [left, shape, List.length_cons, Document.depthItems] at depth shallow ⊢
    omega

theorem members_spelled : ∀ (first : Bool) (members : List (String × Document)) {c c' : Cursor}
    {outer : List Scope} {more : List Lexeme}, c.ahead = none →
    c.scopes = memberScope first :: outer → Runs (memberEvents members) c c' →
    Spelling more c'.place.rest →
    Spelling (Document.memberLexemes first members ++ more) c.place.rest ∧
      Document.depthMembers members ≤ depthLimit + 1 - c.scopes.length
  | first, [], _, _, _, _, fresh, shape, runs, after =>
    ⟨taken_spelled fresh shape (runs_singleton.mp runs) after, Nat.zero_le _⟩
  | first, (name, document) :: rest, c, c', outer, more, fresh, shape, runs, after => by
    obtain ⟨d, named, others⟩ := runs
    obtain ⟨e, one, others⟩ := runs_append.mp others
    obtain ⟨moves, clear⟩ := moves_of_taken fresh shape named
    have opened := moves_name moves
    obtain ⟨next, place, left, done⟩ := reads_scopes document clear opened one
    cases place
    obtain ⟨tail, shallow⟩ := members_spelled false rest done left others after
    obtain ⟨value, depth⟩ := reads_spelled document clear opened one tail
    have spelling := taken_spelled fresh shape named value
    rw [Event.lexemes, List.append_assoc] at spelling
    simp only [Document.memberLexemes, List.append_assoc, List.cons_append, ← leadIn_memberScope]
    refine ⟨spelling, ?_⟩
    simp only [left, opened, shape, List.length_cons, Document.depthMembers] at depth shallow ⊢
    omega
end

theorem lexemes_append {event : Event} (led : event.closes = false) (scope : Scope)
    (more : List Lexeme) : event.lexemes scope ++ more = leadIn scope ++ event.lexeme :: more := by
  simp [Event.lexemes, led]

theorem spelled_scalar (event : Event) {c : Cursor} {scope after : Scope} {outer : List Scope}
    {more : List Lexeme} (single : event.isScalar = true) (fresh : c.ahead = none)
    (shape : c.scopes = scope :: outer) (place : afterValue scope = some after) (ends : Ends more)
    (spelling : Spelling (leadIn scope ++ event.lexeme :: more) c.place.rest) :
    ∃ c', Runs [event] c c' ∧ Spelling more c'.place.rest := by
  have led : event.closes = false := by cases event <;> first | rfl | cases single
  rw [← lexemes_append led] at spelling
  have room : event.opens = true → c.scopes.length ≤ depthLimit := by
    intro opens
    cases event <;> first | cases opens; done | cases single
  obtain ⟨c', taken, left⟩ :=
    spelled_taken fresh shape (.scalar place single) (fun _ => ends) room spelling
  exact ⟨c', runs_singleton.mpr taken, left⟩

mutual
theorem spelled_reads : ∀ (document : Document) {c : Cursor} {scope after : Scope}
    {outer : List Scope} {more : List Lexeme}, c.ahead = none → c.scopes = scope :: outer →
    afterValue scope = some after → document.depth ≤ depthLimit + 1 - c.scopes.length → Ends more →
    Spelling (leadIn scope ++ (document.lexemes ++ more)) c.place.rest →
    ∃ c', Reads document c c' ∧ Spelling more c'.place.rest
  | .null, _, _, _, _, _, fresh, shape, place, _, ends, spelling =>
    spelled_scalar .null rfl fresh shape place ends spelling
  | .bool value, _, _, _, _, _, fresh, shape, place, _, ends, spelling =>
    spelled_scalar (.bool value) rfl fresh shape place ends spelling
  | .number literal, _, _, _, _, _, fresh, shape, place, _, ends, spelling =>
    spelled_scalar (.number literal) rfl fresh shape place ends spelling
  | .string text, _, _, _, _, _, fresh, shape, place, _, ends, spelling =>
    spelled_scalar (.string text) rfl fresh shape place ends spelling
  | .array items, c, scope, after, outer, more, fresh, shape, place, shallow, _, spelling => by
    -- A bracket needs nothing in particular after it, so what the array ends with is no matter.
    have led : Event.beginArray.closes = false := rfl
    have spelling : Spelling (Event.beginArray.lexemes scope ++
        (Document.itemLexemes true items ++ more)) c.place.rest :=
      lexemes_append led scope _ ▸ spelling
    simp only [Document.depth] at shallow
    obtain ⟨d, taken, left⟩ := spelled_taken fresh shape (.beginArray place) nofun
      (fun _ => by omega) spelling
    obtain ⟨moves, clear⟩ := moves_of_taken fresh shape taken
    obtain ⟨_, -, opened⟩ := moves_beginArray moves
    have shallow : Document.depthItems items ≤ depthLimit + 1 - d.scopes.length := by
      simp only [opened, shape, List.length_cons] at shallow ⊢
      omega
    obtain ⟨c', runs, rest⟩ := spelled_items true items clear opened shallow left
    exact ⟨c', ⟨d, taken, runs⟩, rest⟩
  | .object members, c, scope, after, outer, more, fresh, shape, place, shallow, _, spelling => by
    have led : Event.beginObject.closes = false := rfl
    have spelling : Spelling (Event.beginObject.lexemes scope ++
        (Document.memberLexemes true members ++ more)) c.place.rest :=
      lexemes_append led scope _ ▸ spelling
    simp only [Document.depth] at shallow
    obtain ⟨d, taken, left⟩ := spelled_taken fresh shape (.beginObject place) nofun
      (fun _ => by omega) spelling
    obtain ⟨moves, clear⟩ := moves_of_taken fresh shape taken
    obtain ⟨_, -, opened⟩ := moves_beginObject moves
    have shallow : Document.depthMembers members ≤ depthLimit + 1 - d.scopes.length := by
      simp only [opened, shape, List.length_cons] at shallow ⊢
      omega
    obtain ⟨c', runs, rest⟩ := spelled_members true members clear opened shallow left
    exact ⟨c', ⟨d, taken, runs⟩, rest⟩

theorem spelled_items : ∀ (first : Bool) (items : List Document) {c : Cursor}
    {outer : List Scope} {more : List Lexeme}, c.ahead = none →
    c.scopes = itemScope first :: outer →
    Document.depthItems items ≤ depthLimit + 1 - c.scopes.length →
    Spelling (Document.itemLexemes first items ++ more) c.place.rest →
    ∃ c', Runs (itemEvents items) c c' ∧ Spelling more c'.place.rest
  | first, [], _, _, _, fresh, shape, _, spelling => by
    obtain ⟨c', taken, left⟩ :=
      spelled_taken fresh shape (.endArray (atItem_itemScope first)) nofun nofun spelling
    exact ⟨c', runs_singleton.mpr taken, left⟩
  | first, item :: rest, c, outer, more, fresh, shape, shallow, spelling => by
    have place : afterValue (itemScope first) = some (itemScope false) := by cases first <;> rfl
    simp only [Document.itemLexemes, List.append_assoc, ← leadIn_itemScope] at spelling
    simp only [Document.depthItems] at shallow
    -- An item is followed by a comma or the bracket, and either ends a number or a literal.
    obtain ⟨d, one, others⟩ :=
      spelled_reads item fresh shape place (by omega) (ends_itemLexemes rest more) spelling
    obtain ⟨next, nextPlace, left, clear⟩ := reads_scopes item fresh shape one
    rw [itemScope_after nextPlace] at left
    have shallow : Document.depthItems rest ≤ depthLimit + 1 - d.scopes.length := by
      simp only [left, shape, List.length_cons] at shallow ⊢
      omega
    obtain ⟨c', runs, last⟩ := spelled_items false rest clear left shallow others
    exact ⟨c', runs_append.mpr ⟨d, one, runs⟩, last⟩

theorem spelled_members : ∀ (first : Bool) (members : List (String × Document)) {c : Cursor}
    {outer : List Scope} {more : List Lexeme}, c.ahead = none →
    c.scopes = memberScope first :: outer →
    Document.depthMembers members ≤ depthLimit + 1 - c.scopes.length →
    Spelling (Document.memberLexemes first members ++ more) c.place.rest →
    ∃ c', Runs (memberEvents members) c c' ∧ Spelling more c'.place.rest
  | first, [], _, _, _, fresh, shape, _, spelling => by
    obtain ⟨c', taken, left⟩ :=
      spelled_taken fresh shape (.endObject (atMember_memberScope first)) nofun nofun spelling
    exact ⟨c', runs_singleton.mpr taken, left⟩
  | first, (name, document) :: rest, c, outer, more, fresh, shape, shallow, spelling => by
    simp only [Document.memberLexemes, List.append_assoc, List.cons_append,
      ← leadIn_memberScope] at spelling
    simp only [Document.depthMembers] at shallow
    have led : (Event.name name).closes = false := rfl
    have spelling := lexemes_append led (memberScope first) _ ▸ spelling
    obtain ⟨d, named, value⟩ := spelled_taken fresh shape (.name (atMember_memberScope first)) nofun
      nofun spelling
    obtain ⟨moves, clear⟩ := moves_of_taken fresh shape named
    have opened := moves_name moves
    have room : document.depth ≤ depthLimit + 1 - d.scopes.length := by
      simp only [opened, shape, List.length_cons] at shallow ⊢
      omega
    obtain ⟨e, one, others⟩ :=
      spelled_reads document clear opened rfl room (ends_memberLexemes rest more) value
    obtain ⟨next, place, left, done⟩ := reads_scopes document clear opened one
    cases place
    have shallow : Document.depthMembers rest ≤ depthLimit + 1 - e.scopes.length := by
      simp only [left, shape, List.length_cons] at shallow ⊢
      omega
    obtain ⟨c', runs, last⟩ := spelled_members false rest done left shallow others
    exact ⟨c', ⟨d, named, runs_append.mpr ⟨e, one, runs⟩⟩, last⟩
end

theorem expectEnd_iff {c : Cursor} (fresh : c.ahead = none) (shape : c.scopes = [.documentEnd]) :
    (∃ c', expectEnd c = .ok () c') ↔ Spelling [] c.place.rest := by
  have looked : look c = lookEnd c := by
    unfold look
    rw [shape]
    rfl
  rw [spelling_nil_iff]
  unfold expectEnd ahead
  rw [fresh, looked]
  unfold lookEnd
  by_cases empty : c.skipSpace.place.rest = []
  · simp [empty, show skipSpace c.place.rest = [] from empty]
  · simp [empty, show skipSpace c.place.rest ≠ [] from empty]

/-- A text is read to its end as a document exactly when it spells the document and the document is
not too deep. -/
theorem reads_text {text : String} {document : Document} :
    (∃ c, Reads document (Cursor.ofText text) c ∧ ∃ c', expectEnd c = .ok () c') ↔
      Spells text document ∧ document.depth ≤ depthLimit := by
  constructor
  · rintro ⟨c, reads, last⟩
    obtain ⟨after, place, shape, fresh⟩ := reads_scopes document rfl rfl reads
    cases place
    have left := (expectEnd_iff fresh shape).mp last
    obtain ⟨spelling, shallow⟩ := reads_spelled document rfl rfl reads left
    rw [List.append_nil] at spelling
    exact ⟨spelling, shallow⟩
  · rintro ⟨spelling, shallow⟩
    rw [Spells, ← List.append_nil document.lexemes] at spelling
    have ends : Ends [] := fun _ none => nomatch none
    obtain ⟨c, reads, left⟩ :=
      spelled_reads document (c := Cursor.ofText text) rfl rfl rfl shallow ends spelling
    obtain ⟨after, place, shape, fresh⟩ := reads_scopes document rfl rfl reads
    cases place
    exact ⟨c, reads, (expectEnd_iff fresh shape).mpr left⟩

end TaggedJson.Pull
