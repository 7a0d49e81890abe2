import Mathlib.Data.List.DropRight
import TaggedJson.Proofs.Descent
import TaggedJson.Proofs.Integrity
/-! Looking again where a look has failed. By then the look has moved on in its scope and passed the
separators before the fault, and the next one starts from there. Some faults it finds again. Others
are behind it, and it may find a token where there was none. -/
namespace TaggedJson.Pull
open Json (Scope)

/-! How a look fails. -/

/-- The scope a look leaves when it finds no token. -/
def missed : Option Scope → Option Scope
  | some .documentStart => some .documentEnd
  | some .objectValue => some .objectNext
  | some .arrayStart => some .arrayNext
  | scope => scope

/-- What a look that began in the scope fails with, and where it leaves the cursor. -/
inductive Misses : Option Scope → DecodeError → Cursor → Prop
  | endOfInput {scope : Scope} {d : Cursor} (inside : scope ≠ .documentEnd)
    (none : d.place.rest = []) : Misses (some scope) d.endOfInput d
  | value {scope after : Scope} {d : Cursor} {cause : Malformed}
    (place : afterValue scope = some after)
    (stray : cause = .strayCharacter ∨ cause = .strayLiteral) :
    Misses (some scope) (d.malformed cause) d
  | missingColon {d : Cursor} : Misses (some .objectValue) (d.malformed .missingColon) d
  | missingName {scope : Scope} {d : Cursor} {next : Char} {rest : List Char}
    (member : AtMember scope) (shape : d.place.rest = next :: rest) (unquoted : next ≠ '"')
    (unclosed : scope = .objectStart → next ≠ '}') :
    Misses (some scope) (d.malformed .missingName) d
  | unterminatedObject {d : Cursor} {next : Char} {rest : List Char}
    (shape : d.place.rest = next :: rest) (unclosed : next ≠ '}') (last : next ≠ ',') :
    Misses (some .objectNext) (d.malformed .unterminatedObject) d
  | unterminatedArray {d : Cursor} {next : Char} {rest : List Char}
    (shape : d.place.rest = next :: rest) (unclosed : next ≠ ']') (last : next ≠ ',') :
    Misses (some .arrayNext) (d.malformed .unterminatedArray) d
  | notFullyConsumed {scope : Option Scope} {d : Cursor}
    (done : scope = some .documentEnd ∨ scope = none) (some : d.place.rest ≠ []) :
    Misses scope (.notFullyConsumed d.pathText) d

theorem skipSpace_twice (c : Cursor) : c.skipSpace.skipSpace = c.skipSpace := by
  have same : Json.skipSpace (Json.skipSpace c.place.rest) = Json.skipSpace c.place.rest :=
    List.dropWhile_idempotent _ _
  have none : (Json.skipSpace c.place.rest).takeWhile Json.isSpace = [] := by
    have split := List.takeWhile_append_dropWhile
      (p := Json.isSpace) (l := Json.skipSpace c.place.rest)
    rw [← Json.skipSpace, same] at split
    exact List.append_left_eq_self.mp split
  simp only [Cursor.skipSpace, same, none, List.length_nil, Nat.add_zero]

section Misses
variable {c d : Cursor} {e : DecodeError}

theorem lookLiteral_misses {word : List Char} {seen : Ahead}
    (failed : lookLiteral word seen c = .error e d) : d = c ∧ e = c.malformed .strayLiteral := by
  unfold lookLiteral at failed
  split at failed <;> cases failed
  exact ⟨rfl, rfl⟩

/-- Before a value nothing but space is passed. -/
theorem lookValue_misses (failed : lookValue c = .error e d) : d = c.skipSpace ∧
    (d.place.rest = [] ∧ e = d.endOfInput ∨
      ∃ cause, (cause = .strayCharacter ∨ cause = .strayLiteral) ∧ e = d.malformed cause) := by
  unfold lookValue at failed
  simp only at failed
  repeat' split at failed
  all_goals first
    | cases failed; done
    | (obtain ⟨rfl, rfl⟩ := lookLiteral_misses failed; exact ⟨rfl, .inr ⟨_, .inr rfl, rfl⟩⟩)
    | skip
  · rename_i none
    cases failed
    exact ⟨rfl, .inl ⟨none, rfl⟩⟩
  · cases failed
    exact ⟨rfl, .inr ⟨_, .inl rfl, rfl⟩⟩

theorem lookName_misses {first : Bool} (failed : lookName first c = .error e d) :
    d = c.skipSpace ∧ (d.place.rest = [] ∧ e = d.endOfInput ∨
      ∃ next rest, d.place.rest = next :: rest ∧ next ≠ '"' ∧ (first = true → next ≠ '}') ∧
        e = d.malformed .missingName) := by
  unfold lookName at failed
  simp only at failed
  split at failed
  · rename_i none
    cases failed
    exact ⟨rfl, .inl ⟨none, rfl⟩⟩
  · rename_i next rest shape
    split at failed
    · cases failed
    · rename_i unquoted
      split at failed
      · cases failed
      · rename_i unclosed
        cases failed
        exact ⟨rfl, .inr ⟨next, rest, shape, unquoted, fun one close => unclosed ⟨one, close⟩, rfl⟩⟩

theorem Misses.ofValue {scope after : Scope} (place : afterValue scope = some after)
    (found : d.place.rest = [] ∧ e = d.endOfInput ∨
      ∃ cause, (cause = .strayCharacter ∨ cause = .strayLiteral) ∧ e = d.malformed cause) :
    Misses (some scope) e d := by
  rcases found with ⟨none, rfl⟩ | ⟨cause, stray, rfl⟩
  · -- No value has a place behind the document.
    refine .endOfInput ?_ none
    rintro rfl
    cases place
  · exact .value place stray

theorem lookAfterName_misses (failed : lookAfterName c = .error e d) :
    Misses (some .objectValue) e d ∧ d.skipSpace = d ∧
      d.scopes = .objectNext :: c.scopes.tail := by
  simp only [lookAfterName] at failed
  split at failed
  · rename_i none
    cases failed
    exact ⟨.endOfInput (by decide) none, skipSpace_twice _, rfl⟩
  · split at failed
    · obtain ⟨rfl, found⟩ := lookValue_misses failed
      exact ⟨.ofValue rfl found, skipSpace_twice _, rfl⟩
    · cases failed
      exact ⟨.missingColon, skipSpace_twice _, rfl⟩

theorem lookAfterMember_misses (failed : lookAfterMember c = .error e d) :
    Misses (some .objectNext) e d ∧ d.skipSpace = d ∧ d.scopes = c.scopes := by
  simp only [lookAfterMember] at failed
  split at failed
  · rename_i none
    cases failed
    exact ⟨.endOfInput (by decide) none, skipSpace_twice _, rfl⟩
  · rename_i next rest shape
    split at failed
    · cases failed
    · rename_i unclosed
      split at failed
      · obtain ⟨rfl, found⟩ := lookName_misses failed
        refine ⟨?_, skipSpace_twice _, rfl⟩
        rcases found with ⟨none, rfl⟩ | ⟨next, rest, shape, unquoted, -, rfl⟩
        · exact .endOfInput (by decide) none
        · exact .missingName (.inr rfl) shape unquoted fun same => absurd same (by decide)
      · rename_i last
        cases failed
        exact ⟨.unterminatedObject shape unclosed last, skipSpace_twice _, rfl⟩

theorem lookFirstItem_misses (failed : lookFirstItem c = .error e d) :
    Misses (some .arrayStart) e d ∧ d.skipSpace = d ∧
      d.scopes = .arrayNext :: c.scopes.tail := by
  simp only [lookFirstItem] at failed
  split at failed
  · cases failed
  · obtain ⟨rfl, found⟩ := lookValue_misses failed
    exact ⟨.ofValue rfl found, skipSpace_twice _, rfl⟩

theorem lookAfterItem_misses (failed : lookAfterItem c = .error e d) :
    Misses (some .arrayNext) e d ∧ d.skipSpace = d ∧ d.scopes = c.scopes := by
  simp only [lookAfterItem] at failed
  split at failed
  · rename_i none
    cases failed
    exact ⟨.endOfInput (by decide) none, skipSpace_twice _, rfl⟩
  · rename_i next rest shape
    split at failed
    · cases failed
    · rename_i unclosed
      split at failed
      · obtain ⟨rfl, found⟩ := lookValue_misses failed
        exact ⟨.ofValue rfl found, skipSpace_twice _, rfl⟩
      · rename_i last
        cases failed
        exact ⟨.unterminatedArray shape unclosed last, skipSpace_twice _, rfl⟩

theorem lookEnd_misses {scope : Option Scope} (done : scope = some .documentEnd ∨ scope = none)
    (failed : lookEnd c = .error e d) :
    Misses scope e d ∧ d.skipSpace = d ∧ d.scopes = c.scopes := by
  unfold lookEnd at failed
  simp only at failed
  split at failed <;> cases failed
  rename_i more
  exact ⟨.notFullyConsumed done fun none => more (by rw [none]; rfl), skipSpace_twice _, rfl⟩

/-- A look that fails has passed the space before its fault and made its move in the scope. -/
theorem look_misses (failed : look c = .error e d) : Misses c.scopes.head? e d ∧
    d.skipSpace = d ∧ d.scopes.head? = missed c.scopes.head? := by
  unfold look at failed
  cases shape : c.scopes with
  | nil =>
    rw [shape] at failed
    obtain ⟨misses, spaced, same⟩ := lookEnd_misses (.inr rfl) failed
    exact ⟨misses, spaced, by rw [same, shape]; rfl⟩
  | cons scope outer =>
    rw [List.head?_cons]
    cases scope <;> simp only [shape, List.head?_cons] at failed
    case documentStart =>
      obtain ⟨rfl, found⟩ := lookValue_misses failed
      exact ⟨.ofValue rfl found, skipSpace_twice _, rfl⟩
    case documentEnd =>
      obtain ⟨misses, spaced, same⟩ := lookEnd_misses (.inl rfl) failed
      exact ⟨misses, spaced, by rw [same, shape]; rfl⟩
    case objectStart =>
      obtain ⟨rfl, found⟩ := lookName_misses failed
      refine ⟨?_, skipSpace_twice _, congrArg List.head? shape⟩
      rcases found with ⟨none, rfl⟩ | ⟨next, rest, shape, unquoted, unclosed, rfl⟩
      · exact .endOfInput nofun none
      · exact .missingName (.inl rfl) shape unquoted fun _ => unclosed rfl
    case objectValue =>
      obtain ⟨misses, spaced, moved⟩ := lookAfterName_misses failed
      exact ⟨misses, spaced, by rw [moved]; rfl⟩
    case objectNext =>
      obtain ⟨misses, spaced, same⟩ := lookAfterMember_misses failed
      exact ⟨misses, spaced, by rw [same, shape]; rfl⟩
    case arrayStart =>
      obtain ⟨misses, spaced, moved⟩ := lookFirstItem_misses failed
      exact ⟨misses, spaced, by rw [moved]; rfl⟩
    case arrayNext =>
      obtain ⟨misses, spaced, same⟩ := lookAfterItem_misses failed
      exact ⟨misses, spaced, by rw [same, shape]; rfl⟩

/-- Looking fails only where no token has been seen yet, and then none is. -/
theorem ahead_failed : ahead c = .error e d ↔ c.ahead = none ∧ look c = .error e d := by
  unfold ahead
  cases kept : c.ahead with
  | some seen => simp
  | none => cases looked : look c <;> simp

theorem look_fresh (failed : look c = .error e d) : d.ahead = c.ahead := by
  have moves := Moves.look c
  rw [failed] at moves
  exact moves.ahead

end Misses

/-! What the next look finds. -/

/-- The errors of a look in the scope that the next look finds again. -/
inductive DecodeError.Lasts : Option Scope → DecodeError → Prop
  | endOfInput {scope : Option Scope} {path : String} (begun : scope ≠ some .documentStart) :
    Lasts scope (.endOfInput path)
  | missingName {offset : Nat} {path : String} :
    Lasts (some .objectStart) (.malformed .missingName offset path)
  | unterminatedObject {scope : Option Scope} {offset : Nat} {path : String} :
    Lasts scope (.malformed .unterminatedObject offset path)
  | unterminatedArray {scope : Option Scope} {offset : Nat} {path : String} :
    Lasts scope (.malformed .unterminatedArray offset path)
  | notFullyConsumed {scope : Option Scope} {path : String} : Lasts scope (.notFullyConsumed path)

/-- What comes next where a look has failed, as if nothing had been wrong in front of it: the end of
an empty text, or what may follow the value or member that there was none of. -/
inductive Overlooks (d : Cursor) : Ahead → Prop
  | endDocument (done : d.scopes.head? = some .documentEnd) (none : d.place.rest = []) :
    Overlooks d .endDocument
  | endObject {rest : List Char} (member : d.scopes.head? = some .objectNext)
    (close : d.place.rest = '}' :: rest) : Overlooks d .endObject
  | name {rest : List Char} (member : d.scopes.head? = some .objectNext)
    (comma : d.place.rest = ',' :: rest) (quote : (Json.skipSpace rest).head? = some '"') :
    Overlooks d .name
  | endArray {rest : List Char} (item : d.scopes.head? = some .arrayNext)
    (close : d.place.rest = ']' :: rest) : Overlooks d .endArray
  | item {rest : List Char} {seen : Ahead} {d' : Cursor} (item : d.scopes.head? = some .arrayNext)
    (comma : d.place.rest = ',' :: rest) (value : lookValue (d.advance 1) = .ok seen d') :
    Overlooks d seen

section Retries
variable {scope : Option Scope} {c d d' : Cursor} {e : DecodeError} {seen : Ahead}

theorem misses_again (misses : Misses scope e d) (spaced : d.skipSpace = d)
    (moved : d.scopes.head? = missed scope) (lasts : e.Lasts scope) : look d = .error e d := by
  cases misses with
  | @endOfInput scope _ inside none =>
    cases lasts with
    | endOfInput begun =>
      cases scope
      case documentStart => exact (begun rfl).elim
      case documentEnd => exact (inside rfl).elim
      all_goals
        simp only [look, moved, missed, lookName, lookAfterMember, lookAfterItem, spaced, none]
  | value place stray =>
    rcases stray with rfl | rfl <;> cases lasts
  | missingColon => cases lasts
  | missingName member shape unquoted unclosed =>
    cases lasts with
    | missingName =>
      simp only [look, moved, missed, lookName, spaced, shape, unquoted, unclosed rfl, if_false,
        and_false]
  | unterminatedObject shape unclosed last =>
    simp only [look, moved, missed, lookAfterMember, spaced, shape, unclosed, last, if_false]
  | unterminatedArray shape unclosed last =>
    simp only [look, moved, missed, lookAfterItem, spaced, shape, unclosed, last, if_false]
  | notFullyConsumed done some =>
    have some : d.place.rest.isEmpty = false := List.isEmpty_eq_false_iff.mpr some
    rcases done with rfl | rfl <;>
      simp only [look, moved, missed, lookEnd, spaced, some, Bool.false_eq_true, if_false]

theorem next_end (done : d.scopes.head? = some .documentEnd) (failed : look d = .error e d') :
    e = .notFullyConsumed d'.pathText := by
  simp only [look, done, lookEnd] at failed
  split at failed <;> cases failed
  rfl

/-- Behind a comma, a name is missed further on. -/
theorem next_member (member : d.scopes.head? = some .objectNext) (failed : look d = .error e d') :
    e = d'.endOfInput ∨ e = d'.malformed .unterminatedObject ∨
      e = d'.malformed .missingName ∧ d.place.offset < d'.place.offset := by
  simp only [look, member, lookAfterMember] at failed
  repeat' split at failed
  · cases failed
    exact .inl rfl
  · cases failed
  · obtain ⟨rfl, ⟨-, ended⟩ | ⟨_, _, -, -, -, missing⟩⟩ := lookName_misses failed
    · exact .inl ended
    · refine .inr (.inr ⟨missing, ?_⟩)
      simp only [Cursor.skipSpace, Cursor.advance]
      omega
  · cases failed
    exact .inr (.inl rfl)

/-- Behind a comma, a value is missed further on. -/
theorem next_item (item : d.scopes.head? = some .arrayNext) (failed : look d = .error e d') :
    e = d'.endOfInput ∨ e = d'.malformed .unterminatedArray ∨
      (∃ cause, e = d'.malformed cause) ∧ d.place.offset < d'.place.offset := by
  simp only [look, item, lookAfterItem] at failed
  repeat' split at failed
  · cases failed
    exact .inl rfl
  · cases failed
  · obtain ⟨rfl, ⟨-, ended⟩ | ⟨cause, -, missing⟩⟩ := lookValue_misses failed
    · exact .inl ended
    · refine .inr (.inr ⟨⟨cause, missing⟩, ?_⟩)
      simp only [Cursor.skipSpace, Cursor.advance]
      omega
  · cases failed
    exact .inr (.inl rfl)

/-- A fault that does not last is not reported twice. -/
theorem misses_once {cause : Malformed} (again : look d = .error (d.malformed cause) d')
    (next : d.scopes.head? = some .documentEnd ∨ d.scopes.head? = some .objectNext ∨
      d.scopes.head? = some .arrayNext)
    (ended : cause ≠ .unterminatedObject ∧ cause ≠ .unterminatedArray) : False := by
  have there {cause' : Malformed} (same : d.malformed cause = d'.malformed cause') :
      cause = cause' ∧ d.place.offset = d'.place.offset := by
    injection same with same offset
    exact ⟨same, offset⟩
  rcases next with done | member | item
  · cases next_end done again
  · rcases next_member member again with same | same | ⟨same, beyond⟩
    · cases same
    · exact ended.1 (there same).1
    · exact Nat.ne_of_lt beyond (there same).2
  · rcases next_item item again with same | same | ⟨⟨cause', same⟩, beyond⟩
    · cases same
    · exact ended.2 (there same).1
    · exact Nat.ne_of_lt beyond (there same).2

/-- Where an error does not last, something may come next. -/
theorem misses_next (misses : Misses scope e d) (passing : ¬e.Lasts scope) :
    missed scope = some .documentEnd ∨ missed scope = some .objectNext ∨
      missed scope = some .arrayNext := by
  cases misses with
  | @endOfInput scope =>
    cases scope
    case documentStart => exact .inl rfl
    all_goals exact (passing (.endOfInput nofun)).elim
  | @value scope _ _ _ place => cases scope <;> first | cases place; done | decide
  | missingColon => exact .inr (.inl rfl)
  | missingName member =>
    rcases member with rfl | rfl
    · exact (passing .missingName).elim
    · exact .inr (.inl rfl)
  | unterminatedObject => exact (passing .unterminatedObject).elim
  | unterminatedArray => exact (passing .unterminatedArray).elim
  | notFullyConsumed => exact (passing .notFullyConsumed).elim

theorem misses_lasts (misses : Misses scope e d) (moved : d.scopes.head? = missed scope)
    (again : look d = .error e d') : e.Lasts scope := by
  by_contra passing
  have next := moved ▸ misses_next misses passing
  cases misses with
  | endOfInput =>
    refine passing (.endOfInput ?_)
    rintro ⟨⟩
    cases next_end moved again
  | value _ stray =>
    refine misses_once again next ?_
    rcases stray with rfl | rfl <;> exact ⟨nofun, nofun⟩
  | missingColon | missingName => exact misses_once again next ⟨nofun, nofun⟩
  | unterminatedObject => exact passing .unterminatedObject
  | unterminatedArray => exact passing .unterminatedArray
  | notFullyConsumed => exact passing .notFullyConsumed

theorem lookName_false_iff : (∃ d', lookName false d = .ok seen d') ↔
    seen = .name ∧ (Json.skipSpace d.place.rest).head? = some '"' := by
  have passed : d.skipSpace.place.rest = Json.skipSpace d.place.rest := rfl
  unfold lookName
  cases shape : Json.skipSpace d.place.rest with
  | nil => simp [passed, shape]
  | cons next rest =>
    by_cases quote : next = '"' <;> simp [passed, shape, quote, eq_comm]

theorem overlooks_end (spaced : d.skipSpace = d) (done : d.scopes.head? = some .documentEnd) :
    (∃ d', look d = .ok seen d') ↔ Overlooks d seen := by
  simp only [look, done, lookEnd, spaced]
  constructor
  · rintro ⟨d', looked⟩
    split at looked <;> cases looked
    rename_i none
    exact .endDocument done (List.isEmpty_iff.mp none)
  · intro overlooks
    cases overlooks with
    | endDocument _ none => exact ⟨d, by rw [none]; rfl⟩
    | endObject other | name other | endArray other | item other =>
      rw [done] at other
      cases other

theorem overlooks_member (spaced : d.skipSpace = d) (member : d.scopes.head? = some .objectNext) :
    (∃ d', look d = .ok seen d') ↔ Overlooks d seen := by
  simp only [look, member, lookAfterMember, spaced]
  constructor
  · rintro ⟨d', looked⟩
    split at looked
    · cases looked
    · rename_i next rest shape
      split at looked
      · rename_i close
        cases looked
        exact .endObject member (close ▸ shape)
      · split at looked
        · rename_i comma
          obtain ⟨rfl, quote⟩ := lookName_false_iff.mp ⟨d', looked⟩
          refine .name member (comma ▸ shape) ?_
          rwa [Cursor.advance, shape] at quote
        · cases looked
  · intro overlooks
    cases overlooks with
    | endObject _ close => exact ⟨_, by simp only [close, if_true]; rfl⟩
    | name _ comma quote =>
      simp only [comma]
      refine lookName_false_iff.mpr ⟨rfl, ?_⟩
      rwa [Cursor.advance, comma]
    | endDocument other | endArray other | item other =>
      rw [member] at other
      cases other

theorem overlooks_item (spaced : d.skipSpace = d) (item : d.scopes.head? = some .arrayNext) :
    (∃ d', look d = .ok seen d') ↔ Overlooks d seen := by
  simp only [look, item, lookAfterItem, spaced]
  constructor
  · rintro ⟨d', looked⟩
    split at looked
    · cases looked
    · rename_i next rest shape
      split at looked
      · rename_i close
        cases looked
        exact .endArray item (close ▸ shape)
      · split at looked
        · rename_i comma
          exact .item item (comma ▸ shape) looked
        · cases looked
  · intro overlooks
    cases overlooks with
    | endArray _ close => exact ⟨_, by simp only [close, if_true]; rfl⟩
    | @item _ _ d' _ comma value =>
      refine ⟨d', ?_⟩
      simp only [comma]
      exact value
    | endDocument other | endObject other | name other =>
      rw [item] at other
      cases other

theorem overlooks_iff (spaced : d.skipSpace = d) (next : d.scopes.head? = some .documentEnd ∨
      d.scopes.head? = some .objectNext ∨ d.scopes.head? = some .arrayNext) :
    (∃ d', look d = .ok seen d') ↔ Overlooks d seen := by
  rcases next with done | member | item
  · exact overlooks_end spaced done
  · exact overlooks_member spaced member
  · exact overlooks_item spaced item

end Retries

/-! Retrying. -/

theorem peek_failed_iff {c d : Cursor} {e : DecodeError} :
    peek c = .error e d ↔ ahead c = .error e d := by
  unfold peek
  cases ahead c <;> simp

/-- An operation that begins by looking ahead: to have looked before makes no difference. -/
def Peeks (x : Pull α) : Prop := (ahead >>= fun _ => x) = x

theorem Peeks.fails {x : Pull α} (peeks : Peeks x) {c d : Cursor} {e : DecodeError}
    (failed : ahead c = .error e d) : x c = .error e d := by
  rw [← peeks]
  exact bind_of_error failed

theorem Peeks.looks {x : Pull α} (peeks : Peeks x) : Looks x := by
  intro c seen d looked
  rw [← bind_of_ok (f := fun _ => x) looked]
  exact (congrFun peeks c).symm

theorem Peeks.bind {x : Pull α} (peeks : Peeks x) (f : α → Pull β) : Peeks (x >>= f) := by
  rw [Peeks, ← bind_assoc, peeks]

theorem peeks_of {x : Pull α} (looks : Looks x)
    (fails : ∀ c e d, ahead c = .error e d → x c = .error e d) : Peeks x := by
  funext c
  cases looked : ahead c with
  | error e d => rw [bind_of_error looked, fails c e d looked]
  | ok seen d => rw [bind_of_ok looked, looks c seen d looked]

theorem peeks_ahead : Peeks ahead :=
  peeks_of looks_ahead fun _ _ _ failed => failed

theorem peeks_takeToken (wanted : Ahead) (expected : Expected) :
    Peeks (takeToken wanted expected) :=
  peeks_of (looks_takeToken wanted expected) fun _ _ _ failed => by rw [takeToken, failed]

theorem peeks_aheadAs (expected : Expected) (select : Ahead → Option α) :
    Peeks (aheadAs expected select) :=
  peeks_of (fun _ _ _ looked => by simp only [aheadAs, looked, ahead_twice looked])
    fun _ _ _ failed => by rw [aheadAs, failed]

theorem peeks_iterate {step : σ → Pull (σ ⊕ β)} (advances : Advances step)
    (peeks : ∀ s, Peeks (step s)) (s : σ) : Peeks (iterate step advances s) := by
  refine peeks_of (fun c seen d looked => ?_) fun c e d failed =>
    iterate_error ((peeks s).fails failed)
  have same := (peeks s).looks c seen d looked
  rw [iterate, iterate, same]

theorem peeks_run (call : Call) : Peeks call.run := by
  cases call with
  | peek =>
    refine .bind (peeks_of (fun _ _ _ looked => ?_) fun _ _ _ failed => ?_) _
    · simp only [Pull.peek, looked, ahead_twice looked]
    · rw [Pull.peek, failed]
  | hasNext =>
    refine .bind (peeks_of (fun _ _ _ looked => ?_) fun _ _ _ failed => ?_) _
    · simp only [Pull.hasNext, looked, ahead_twice looked]
    · rw [Pull.hasNext, failed]
  | selectName =>
    refine .bind (peeks_of (fun _ _ _ looked => ?_) fun _ _ _ failed => ?_) _
    · simp only [Pull.selectName, looked, ahead_twice looked]
    · rw [Pull.selectName, failed]
  | expectEnd => exact .bind (peeks_of looks_expectEnd fun _ _ _ failed => by
      rw [Pull.expectEnd, failed]) _
  | beginObject | endObject | beginArray | endArray | nextName =>
    exact ((peeks_takeToken _ _).bind _).bind _
  | skipName => exact (((peeks_takeToken _ _).bind _).bind _).bind _
  | skipValue => exact (peeks_iterate _ (fun _ => peeks_ahead.bind _) _).bind _
  | readValue => exact (peeks_iterate _ (fun _ => peeks_ahead.bind _) _).bind _
  | nextString | nextBool | nextNull => exact ((peeks_aheadAs _ _).bind _).bind _
  | nextDouble | nextInt64 => exact (((peeks_aheadAs _ _).bind _).bind _).bind _

/-- What can be done where a look has failed and its fault is behind. -/
structure Continues (d : Cursor) : Prop where
  peek (token : Token) : (∃ d', peek d = .ok token d') ↔ ∃ seen, Overlooks d seen ∧
    token = seen.token
  hasNext (more : Bool) : (∃ d', hasNext d = .ok more d') ↔ ∃ seen, Overlooks d seen ∧
    more = (seen != .endObject && seen != .endArray && seen != .endDocument)
  endObject : (∃ d', endObject d = .ok () d') ↔ Overlooks d .endObject
  endArray : (∃ d', endArray d = .ok () d') ↔ Overlooks d .endArray
  expectEnd : (∃ d', expectEnd d = .ok () d') ↔ Overlooks d .endDocument

theorem continues_of_looks {d : Cursor}
    (looks : ∀ seen, (∃ d', ahead d = .ok seen d') ↔ Overlooks d seen) : Continues d where
  peek token := by
    simp only [Hierarchy.peek_iff, ← looks]
    exact ⟨fun ⟨d', seen, looked, same⟩ => ⟨seen, ⟨d', looked⟩, same⟩,
      fun ⟨seen, ⟨d', looked⟩, same⟩ => ⟨d', seen, looked, same⟩⟩
  hasNext more := by
    simp only [hasNext_iff, ← looks]
    exact ⟨fun ⟨d', seen, looked, same⟩ => ⟨seen, ⟨d', looked⟩, same⟩,
      fun ⟨seen, ⟨d', looked⟩, same⟩ => ⟨d', seen, looked, same⟩⟩
  endObject := by
    simp only [endObject_iff, ← looks]
    exact ⟨fun ⟨_, d', looked, _⟩ => ⟨d', looked⟩, fun ⟨d', looked⟩ => ⟨_, d', looked, rfl⟩⟩
  endArray := by
    simp only [endArray_iff, ← looks]
    exact ⟨fun ⟨_, d', looked, _⟩ => ⟨d', looked⟩, fun ⟨d', looked⟩ => ⟨_, d', looked, rfl⟩⟩
  expectEnd := by simp only [expectEnd_ahead, ← looks]

/-- Looking again finds the same fault if and only if it lasts in the scope of the first look. Then
every call finds it, and finds it forever; else the reader goes on with what it overlooks. -/
theorem peek_fails_again {c d : Cursor} {e : DecodeError} (failed : peek c = .error e d) :
    ((∃ d', peek d = .error e d') ↔ e.Lasts c.scopes.head?) ∧
    (e.Lasts c.scopes.head? → ∀ call : Call, call.run d = .error e d) ∧
    (¬e.Lasts c.scopes.head? → Continues d) := by
  obtain ⟨fresh, looked⟩ := ahead_failed.mp (peek_failed_iff.mp failed)
  obtain ⟨misses, spaced, moved⟩ := look_misses looked
  have clear : d.ahead = none := (look_fresh looked).trans fresh
  have again (lasts : e.Lasts c.scopes.head?) : ahead d = .error e d :=
    ahead_failed.mpr ⟨clear, misses_again misses spaced moved lasts⟩
  refine ⟨⟨?_, fun lasts => ⟨d, peek_failed (again lasts)⟩⟩,
    fun lasts call => (peeks_run call).fails (again lasts), fun passing => ?_⟩
  · rintro ⟨d', next⟩
    exact misses_lasts misses moved (ahead_failed.mp (peek_failed_iff.mp next)).2
  · refine continues_of_looks fun seen => ?_
    rw [← overlooks_iff spaced (moved ▸ misses_next misses passing)]
    constructor
    · rintro ⟨_, found⟩
      obtain ⟨d', found, -⟩ := (ahead_fresh clear).mp found
      exact ⟨d', found⟩
    · rintro ⟨d', found⟩
      exact ⟨_, (ahead_fresh clear).mpr ⟨d', found, rfl⟩⟩

/-- Before the comma of the text, and behind it. -/
def beforeComma : Cursor :=
  ⟨⟨[',', ']'], 2⟩, none, [.arrayNext, .documentEnd], [.index 1], false, []⟩

def behindComma : Cursor :=
  ⟨⟨[']'], 3⟩, none, [.arrayNext, .documentEnd], [.index 1], false, []⟩

theorem comma_overlooked :
    (∃ answers, runCalls [.beginArray, .nextInt64] (Cursor.ofText "[1,]") =
      .ok answers beforeComma) ∧
    peek beforeComma = .error (.malformed .strayCharacter 3 "$[1]") behindComma ∧
    (¬∃ d, peek behindComma = .error (.malformed .strayCharacter 3 "$[1]") d) ∧
    ∃ d d', endArray behindComma = .ok () d ∧ expectEnd d = .ok () d' := by
  have failed : peek beforeComma = .error (.malformed .strayCharacter 3 "$[1]") behindComma := by
    rfl
  obtain ⟨same, -, goes⟩ := peek_fails_again failed
  have passing :
      ¬DecodeError.Lasts beforeComma.scopes.head? (.malformed .strayCharacter 3 "$[1]") := nofun
  obtain ⟨d, ended⟩ := (goes passing).endArray.mpr (.endArray rfl rfl)
  have closed : ∃ d', expectEnd d = .ok () d' := by
    cases ended
    exact ⟨_, rfl⟩
  obtain ⟨d', closed⟩ := closed
  exact ⟨⟨_, rfl⟩, failed, fun again => passing (same.mp again), d, d', ended, closed⟩

end TaggedJson.Pull
