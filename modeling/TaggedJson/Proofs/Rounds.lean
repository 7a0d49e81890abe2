import TaggedJson.Proofs.Descent
import TaggedJson.Proofs.Probes
/-! How long reading goes on and how deep it goes. A round of a loop that does not end it has taken
tokens, and all but one of these the text has bytes for. A value is taken by as many activations,
one inside the other, as scopes can be open. -/
namespace TaggedJson.Pull
open Json (Document Members Value)

/-! Tokens and bytes. -/

/-- A call that takes the event. -/
def Event.call : Event → Call
  | .beginObject => .beginObject
  | .endObject => .endObject
  | .beginArray => .beginArray
  | .endArray => .endArray
  | .name _ => .nextName
  | .string _ | .number _ => .nextString
  | .bool _ => .nextBool
  | .null => .nextNull

theorem taken_call {event : Event} {c d : Cursor} (taken : event.Taken c d) :
    ∃ answer, event.call.run c = .ok answer d := by
  cases event with
  | beginObject => exact ⟨_, returns_iff.mpr ⟨(), beginObject_iff.mpr taken, rfl⟩⟩
  | endObject => exact ⟨_, returns_iff.mpr ⟨(), endObject_iff.mpr taken, rfl⟩⟩
  | beginArray => exact ⟨_, returns_iff.mpr ⟨(), beginArray_iff.mpr taken, rfl⟩⟩
  | endArray => exact ⟨_, returns_iff.mpr ⟨(), endArray_iff.mpr taken, rfl⟩⟩
  | name text => exact ⟨_, returns_iff.mpr ⟨text, nextName_iff.mpr taken, rfl⟩⟩
  | string text => exact ⟨_, returns_iff.mpr ⟨text, nextString_iff.mpr (.inl taken), rfl⟩⟩
  | number literal =>
    exact ⟨_, returns_iff.mpr ⟨_, nextString_iff.mpr (.inr ⟨literal, rfl, taken⟩), rfl⟩⟩
  | bool value => exact ⟨_, returns_iff.mpr ⟨value, nextBool_iff.mpr taken, rfl⟩⟩
  | null => exact ⟨_, returns_iff.mpr ⟨(), nextNull_iff.mpr taken, rfl⟩⟩

theorem call_takes (event : Event) : Takes event.call.run := by
  cases event with
  | beginObject => exact beginObject_takes.bind fun _ => keeps_pure _
  | endObject => exact endObject_takes.bind fun _ => keeps_pure _
  | beginArray => exact beginArray_takes.bind fun _ => keeps_pure _
  | endArray => exact endArray_takes.bind fun _ => keeps_pure _
  | name text => exact nextName_takes.bind fun _ => keeps_pure _
  | string text | number literal => exact nextString_takes.bind fun _ => keeps_pure _
  | bool value => exact nextBool_takes.bind fun _ => keeps_pure _
  | null => exact nextNull_takes.bind fun _ => keeps_pure _

theorem runs_remaining {events : List Event} {c d : Cursor} (runs : Runs events c d) :
    d.remaining + events.length ≤ c.remaining := by
  induction events generalizing c with
  | nil =>
    cases runs
    exact Nat.le_refl _
  | cons event rest ih =>
    obtain ⟨e, taken, more⟩ := runs
    obtain ⟨answer, ran⟩ := taken_call taken
    have first := call_takes event _ _ _ ran
    have others := ih more
    rw [List.length_cons]
    omega

theorem runs_clear {event : Event} {rest : List Event} {c d : Cursor}
    (runs : Runs (event :: rest) c d) : d.ahead = none := by
  induction rest generalizing event c with
  | nil =>
    obtain ⟨_, -, leaves⟩ := runs_singleton.mp runs
    exact (leaves_scopes leaves).1
  | cons next rest ih =>
    obtain ⟨e, -, more⟩ := runs
    exact ih more

theorem runs_sound {text : String} {events : List Event} {c d : Cursor} (sound : Sound text c)
    (runs : Runs events c d) : Sound text d := by
  induction events generalizing c with
  | nil =>
    cases runs
    exact sound
  | cons event rest ih =>
    obtain ⟨e, taken, more⟩ := runs
    obtain ⟨answer, ran⟩ := taken_call taken
    have good := operation_good sound (.call event.call)
    rw [Operation.run, ran] at good
    exact ih good.sound more

namespace Place

/-- Of two places in a text, the one with less of it left is behind the other. -/
theorem Reaches.behind {p q r : Place} (first : p.Reaches q) (second : p.Reaches r)
    (shorter : r.rest.length ≤ q.rest.length) : q.Reaches r := by
  obtain ⟨front, shape, offset⟩ := first
  obtain ⟨whole, shape', offset'⟩ := second
  rcases List.append_eq_append_iff.mp (shape.symm.trans shape') with
    ⟨between, rfl, rest⟩ | ⟨between, rfl, rest⟩
  · exact ⟨between, rest, by rw [offset', offset, byteLength_append, Nat.add_assoc]⟩
  · -- Then nothing is between them.
    have none : between = [] := by
      rw [rest, List.length_append] at shorter
      exact List.length_eq_zero_iff.mp (by omega)
    subst none
    exact ⟨[], rest.symm, by rw [offset', offset, List.append_nil]; rfl⟩

theorem length_le_byteLength (chars : List Char) : chars.length ≤ byteLength chars := by
  induction chars with
  | nil => exact Nat.le_refl _
  | cons c rest ih =>
    rw [List.length_cons, byteLength_cons]
    have one := c.utf8Size_pos
    omega

theorem Reaches.bytes {p q : Place} (reached : p.Reaches q) :
    p.offset + p.rest.length ≤ q.offset + q.rest.length := by
  obtain ⟨passed, shape, offset⟩ := reached
  have some := length_le_byteLength passed
  rw [offset, shape, List.length_append]
  omega

end Place

/-- What is kept ahead weighs no more than one token. -/
theorem slot_weight (slot : Option Ahead) :
    (slot.map Ahead.weight).getD 0 ≤ if slot.isSome then 1 else 0 := by
  cases slot with
  | none => exact Nat.le_refl _
  | some seen => cases seen <;> simp [Ahead.weight]

/-- Each token takes a byte of the text at least, but the first may have been passed before. -/
theorem tokens_take_bytes {text : String} {events : List Event} {c d : Cursor}
    (sound : Sound text c) (runs : Runs events c d) :
    c.place.offset + events.length ≤ d.place.offset + if c.ahead.isSome then 1 else 0 := by
  cases events with
  | nil =>
    cases runs
    exact Nat.le_add_right ..
  | cons event rest =>
    have fresh : d.ahead = none := runs_clear runs
    have fewer := runs_remaining runs
    have weight := slot_weight c.ahead
    simp only [Cursor.remaining, fresh, Option.map_none, Option.getD_none, List.length_cons]
      at fewer ⊢
    have shorter : d.place.rest.length ≤ c.place.rest.length := by
      split at weight <;> omega
    have passed := (sound.place.behind (runs_sound sound runs).place shorter).bytes
    omega

/-! Rounds of loops. -/

/-- Tokens have been taken between the two. -/
def Onward (c d : Cursor) : Prop := ∃ event rest, Runs (event :: rest) c d

section Onward
variable {c d e : Cursor}

theorem Onward.of_taken {event : Event} (taken : event.Taken c d) : Onward c d :=
  ⟨event, [], runs_singleton.mpr taken⟩

theorem Onward.of_reads {document : Document} (reads : Reads document c d) : Onward c d := by
  obtain ⟨event, rest, shape⟩ := List.exists_cons_of_ne_nil (documentEvents_ne_nil document)
  exact ⟨event, rest, shape ▸ reads⟩

theorem Onward.trans (first : Onward c d) (second : Onward d e) : Onward c e := by
  obtain ⟨event, rest, runs⟩ := first
  obtain ⟨next, more, further⟩ := second
  exact ⟨event, rest ++ next :: more, runs_append.mpr ⟨d, runs, further⟩⟩

theorem Onward.looked (onward : Onward d e) {seen : Ahead} (look : ahead c = .ok seen d) :
    Onward c e := by
  obtain ⟨event, rest, runs⟩ := onward
  exact ⟨event, rest, (runs_looked (List.cons_ne_nil event rest) look).mp runs⟩

theorem Onward.remaining (onward : Onward c d) : d.remaining < c.remaining := by
  obtain ⟨event, rest, runs⟩ := onward
  exact Nat.lt_of_lt_of_le (Nat.lt_add_of_pos_right (Nat.succ_pos _)) (runs_remaining runs)

end Onward

section Loops
variable {σ β : Type}

/-- The loop ends so, after so many rounds. -/
inductive Loops (step : σ → Pull (σ ⊕ β)) : Nat → σ → Cursor → Outcome β → Prop
  | failed {s : σ} {c d : Cursor} {e : DecodeError} (stopped : step s c = .error e d) :
    Loops step 1 s c (.error e d)
  | ended {s : σ} {c d : Cursor} {result : β} (last : step s c = .ok (.inr result) d) :
    Loops step 1 s c (.ok result d)
  | further {rounds : Nat} {s s' : σ} {c d : Cursor} {outcome : Outcome β}
    (stepped : step s c = .ok (.inl s') d) (rest : Loops step rounds s' d outcome) :
    Loops step (rounds + 1) s c outcome

/-- A round that neither fails nor ends the loop has taken tokens. -/
def Consumes (step : σ → Pull (σ ⊕ β)) : Prop :=
  ∀ s c s' d, step s c = .ok (.inl s') d → Onward c d

variable {step : σ → Pull (σ ⊕ β)}

theorem Consumes.advances (consumes : Consumes step) : Advances step :=
  fun s c s' d stepped => (consumes s c s' d stepped).remaining

/-- So there are no more of them than tokens can be taken, and one that is the last. -/
theorem Consumes.loops (consumes : Consumes step) (s : σ) (c : Cursor) :
    ∃ rounds, Loops step rounds s c (iterate step consumes.advances s c) ∧
      rounds ≤ c.remaining + 1 := by
  fun_induction iterate step consumes.advances s c with
  | case1 s c e d stopped => exact ⟨1, .failed stopped, Nat.le_add_left ..⟩
  | case2 s c result d last => exact ⟨1, .ended last, Nat.le_add_left ..⟩
  | case3 s c s' d stepped ih =>
    obtain ⟨rounds, rest, few⟩ := ih
    have fewer := consumes.advances _ _ _ _ stepped
    exact ⟨rounds + 1, .further stepped rest, by omega⟩

end Loops

theorem skipToken_consumes : Consumes skipToken := by
  intro depth c next d stepped
  obtain ⟨event, taken, -⟩ := skipNext_of_skipToken stepped
  exact .of_taken taken

theorem skipValue_onward {c d : Cursor} (ran : skipValue c = .ok () d) : Onward c d := by
  obtain ⟨document, reads⟩ := skipValue_iff.mp ran
  exact .of_reads reads

theorem readValue_onward {c d : Cursor} {value : Value} (ran : readValue c = .ok value d) :
    Onward c d := by
  obtain ⟨document, reads, -⟩ := readValue_iff.mp ran
  exact .of_reads reads

theorem skipName_onward {c d : Cursor} (ran : skipName c = .ok () d) : Onward c d := by
  obtain ⟨text, taken, -⟩ := skipName_iff.mp ran
  exact .of_taken taken

/-- A loop over the parts of a container consumes if going on with another part does. -/
theorem consumes_parts {σ β : Type} {more : σ → Pull (σ ⊕ β)} {last : σ → β}
    (consumes : Consumes more) : Consumes fun s =>
      hasNext >>= fun next => if next = true then more s else pure (.inr (last s)) := by
  intro s c s' d stepped
  obtain ⟨next, m, asked, rest⟩ := bind_ok.mp stepped
  obtain ⟨seen, looked, -⟩ := hasNext_iff.mp asked
  cases next with
  | true => exact (consumes _ _ _ _ rest).looked looked
  | false => cases (pure_ok.mp rest).1

theorem skipStep_consumes : Consumes skipStep := by
  unfold skipStep
  refine consumes_parts fun _ c _ d stepped => ?_
  obtain ⟨_, m, named, rest⟩ := bind_ok.mp stepped
  obtain ⟨_, skipped, -⟩ := returns_iff.mp rest
  exact (skipName_onward named).trans (skipValue_onward skipped)

theorem labelStep_consumes (key : String) : Consumes (labelStep key) := by
  unfold labelStep
  refine consumes_parts fun _ c _ d stepped => ?_
  obtain ⟨chosen, m, selected, rest⟩ := bind_ok.mp stepped
  cases chosen with
  | some position =>
    obtain ⟨label, _, same⟩ := returns_iff.mp rest
    cases same
  | none =>
    obtain ⟨_, n, named, rest⟩ := bind_ok.mp rest
    obtain ⟨_, skipped, -⟩ := returns_iff.mp rest
    exact ((skipName_onward named).trans (skipValue_onward skipped)).looked
      (selectName_unselected selected)

theorem fieldStep_consumes : Consumes fieldStep := by
  unfold fieldStep
  refine consumes_parts fun fields c _ d stepped => ?_
  obtain ⟨name, m, named, rest⟩ := bind_ok.mp stepped
  have first : Onward c m := .of_taken (nextName_iff.mp named)
  obtain ⟨_, n, got, rest⟩ := bind_ok.mp rest
  obtain ⟨rfl, rfl⟩ := get_ok.mp got
  refine first.trans ?_
  split at rest
  · obtain ⟨_, skipped, -⟩ := returns_iff.mp rest
    exact skipValue_onward skipped
  · obtain ⟨_, read, -⟩ := returns_iff.mp rest
    exact readValue_onward read

/-! Activations. -/

/-- Takes a value, or something else, of which it takes a part. -/
abbrev Taking := { x : Pull Value // Takes x }

/-- One more member of the object whose members so far are given newest first. -/
def memberRound (inner : Pull Value) (done : Members) : Pull (Members ⊕ Members) := do
  if ← hasNext then
    let name ← nextName
    let value ← inner
    if done.has name then fail fun c => .repeatedName name c.pathText
    else return .inl ((name, value) :: done)
  else return .inr done

def itemRound (inner : Pull Value) (done : List Value) : Pull (List Value ⊕ List Value) := do
  if ← hasNext then
    let value ← inner
    return .inl (value :: done)
  else return .inr done

section Rounds
variable {inner : Pull Value} (takes : Takes inner)
include takes

theorem member_takes (done : Members) : Takes (do
    let name ← nextName
    let value ← inner
    if done.has name then fail fun c => .repeatedName name c.pathText
    else return .inl ((name, value) :: done) : Pull (Members ⊕ Members)) :=
  nextName_takes.bind fun name => takes.keeps.bind fun value => by
    split
    · exact (takes_fail _).keeps
    · exact keeps_pure _

theorem memberRound_advances : Advances (memberRound inner) := by
  unfold memberRound
  exact advances_members (Takes.advances (member_takes takes))

theorem itemRound_advances : Advances (itemRound inner) := by
  unfold itemRound
  exact advances_members <| Takes.advances fun done => takes.bind fun value => keeps_pure _

theorem memberRound_keeps (done : Members) : Keeps (memberRound inner done) :=
  keeps_hasNext.bind fun next => by
    split
    · exact (member_takes takes done).keeps
    · exact keeps_pure _

theorem itemRound_keeps (done : List Value) : Keeps (itemRound inner done) :=
  keeps_hasNext.bind fun next => by
    split
    · exact takes.keeps.bind fun value => keeps_pure _
    · exact keeps_pure _

end Rounds

def closeObject (done : Members) : Pull Value := do
  endObject
  return .object done.reverse

def closeArray (done : List Value) : Pull Value := do
  endArray
  return .array done.reverse

/-- What one activation does about the value ahead. The values in it are taken by another. -/
def activation (inner : Taking) : Pull Value := do
  match ← peek with
  | .beginObject => do
    beginObject
    iterate (memberRound inner.1) (memberRound_advances inner.2) [] >>= closeObject
  | .beginArray => do
    beginArray
    iterate (itemRound inner.1) (itemRound_advances inner.2) [] >>= closeArray
  | .string => do let text ← nextString; return .string text
  | .number => do let number ← nextNumber; return .number number
  | .boolean => do let value ← nextBool; return .bool value
  | .null => do nextNull; return .null
  | other => fail fun c => .unexpectedToken .value other c.pathText

theorem keeps_peek : Keeps peek := fun _ _ _ ran =>
  let ⟨_, looked, _⟩ := Hierarchy.peek_iff.mp ran
  keeps_ahead _ _ _ looked

theorem activation_takes (inner : Taking) : Takes (activation inner) := by
  refine keeps_peek.then_takes fun token => ?_
  cases token with
  | beginObject =>
    exact beginObject_takes.bind fun _ => Keeps.bind
      (iterate_keeps _ (memberRound_keeps inner.2) _) fun _ => endObject_takes.keeps.bind fun _ =>
        keeps_pure _
  | beginArray =>
    exact beginArray_takes.bind fun _ => Keeps.bind
      (iterate_keeps _ (itemRound_keeps inner.2) _) fun _ => endArray_takes.keeps.bind fun _ =>
        keeps_pure _
  | string => exact nextString_takes.bind fun _ => keeps_pure _
  | number => exact nextNumber_takes.bind fun _ => keeps_pure _
  | boolean => exact nextBool_takes.bind fun _ => keeps_pure _
  | null => exact nextNull_takes.bind fun _ => keeps_pure _
  | endObject | endArray | name | endDocument => exact takes_fail _

/-- So many activations one inside the other. What would be inside the last is left to `beyond`. -/
def activations (beyond : Taking) : Nat → Taking
  | 0 => beyond
  | count + 1 => ⟨activation (activations beyond count), activation_takes _⟩

/-! Taking a value as the recursion does. -/

/-- The recursion itself, for the values inside. -/
def whole : Taking := ⟨readValue, readValue_takes⟩

theorem membersWithin_eq {bound : Nat} {done : Members} {c : Cursor}
    (enough : 2 * c.remaining + 1 < bound) : membersWithin bound done c =
      (iterate (memberRound readValue) (memberRound_advances readValue_takes) done >>=
        closeObject) c := by
  induction bound generalizing done c with
  | zero => cases enough
  | succ bound ih =>
    rw [membersWithin, iterate_eq, memberRound, bind_assoc, bind_assoc]
    refine bind_of_onward fun next d asked => ?_
    have less : d.remaining ≤ c.remaining := keeps_hasNext _ _ _ asked
    cases next with
    | false => rfl
    | true =>
      simp only [if_true, bind_assoc]
      refine bind_of_onward fun name e named => ?_
      have fewer := nextName_takes _ _ _ named
      have same : readValue e = valueWithin bound e := (descends bound).value (by omega)
      refine (bind_of_same _ same.symm).trans (bind_of_onward fun value f read => ?_)
      have fewer := readValue_takes _ _ _ read
      split
      · rfl
      · exact ih (by omega)

theorem itemsWithin_eq {bound : Nat} {done : List Value} {c : Cursor}
    (enough : 2 * c.remaining + 1 < bound) : itemsWithin bound done c =
      (iterate (itemRound readValue) (itemRound_advances readValue_takes) done >>=
        closeArray) c := by
  induction bound generalizing done c with
  | zero => cases enough
  | succ bound ih =>
    rw [itemsWithin, iterate_eq, itemRound, bind_assoc, bind_assoc]
    refine bind_of_onward fun next d asked => ?_
    have less : d.remaining ≤ c.remaining := keeps_hasNext _ _ _ asked
    cases next with
    | false => rfl
    | true =>
      simp only [if_true, bind_assoc]
      have same : readValue d = valueWithin bound d := (descends bound).value (by omega)
      refine (bind_of_same _ same.symm).trans (bind_of_onward fun value e read => ?_)
      have fewer := readValue_takes _ _ _ read
      exact ih (by omega)

theorem readValue_eq (c : Cursor) : readValue c = activation whole c := by
  have same : readValue c = valueWithin (2 * c.remaining + 2) c :=
    (descends _).value (by omega)
  rw [same, valueWithin, activation]
  refine bind_of_onward fun token d peeked => ?_
  have less : d.remaining ≤ c.remaining := keeps_peek _ _ _ peeked
  cases token with
  | beginObject =>
    refine bind_of_onward fun _ e opened => ?_
    have fewer := beginObject_takes _ _ _ opened
    exact membersWithin_eq (by omega)
  | beginArray =>
    refine bind_of_onward fun _ e opened => ?_
    have fewer := beginArray_takes _ _ _ opened
    exact itemsWithin_eq (by omega)
  | string | number | boolean | null | endObject | endArray | name | endDocument => rfl

theorem memberRound_consumes : Consumes (memberRound readValue) := by
  unfold memberRound
  refine consumes_parts fun done c _ d stepped => ?_
  obtain ⟨name, m, named, rest⟩ := bind_ok.mp stepped
  obtain ⟨value, n, read, rest⟩ := bind_ok.mp rest
  have first : Onward c m := .of_taken (nextName_iff.mp named)
  split at rest
  · cases rest
  · obtain ⟨-, rfl⟩ := pure_ok.mp rest
    exact first.trans (readValue_onward read)

theorem itemRound_consumes : Consumes (itemRound readValue) := by
  unfold itemRound
  refine consumes_parts fun done c _ d stepped => ?_
  obtain ⟨value, read, -⟩ := returns_iff.mp stepped
  exact readValue_onward read

/-! Open scopes and open activations. -/

/-- As many scopes are open after it as before. -/
def Level (x : Pull α) : Prop := ∀ c a d, x c = .ok a d → d.scopes.length = c.scopes.length

theorem Level.bind {x : Pull α} {f : α → Pull β} (first : Level x) (next : ∀ a, Level (f a)) :
    Level (x >>= f) := by
  intro c b d ran
  obtain ⟨a, m, left, right⟩ := bind_ok.mp ran
  exact (next a m b d right).trans (first c a m left)

theorem level_pure (a : α) : Level (pure a : Pull α) := by
  intro c b d ran
  obtain ⟨-, rfl⟩ := pure_ok.mp ran
  rfl

theorem level_fail (error : Cursor → DecodeError) : Level (fail error : Pull α) :=
  fun _ _ _ ran => (fail_ok.mp ran).elim

theorem level_hasNext : Level hasNext := by
  intro c next d ran
  obtain ⟨seen, looked, -⟩ := hasNext_iff.mp ran
  exact (looked_frame looked).1

theorem level_nextName : Level nextName := by
  intro c name d ran
  obtain ⟨scopes, length, left⟩ := taken_leaves (nextName_iff.mp ran)
  rw [left]
  exact length

theorem level_readValue : Level readValue := by
  intro c value d ran
  obtain ⟨document, reads, -⟩ := readValue_iff.mp ran
  exact reads_length document reads

theorem level_memberRound (done : Members) : Level (memberRound readValue done) :=
  level_hasNext.bind fun next => by
    split
    · refine level_nextName.bind fun name => level_readValue.bind fun value => ?_
      split
      · exact level_fail _
      · exact level_pure _
    · exact level_pure _

theorem level_itemRound (done : List Value) : Level (itemRound readValue done) :=
  level_hasNext.bind fun next => by
    split
    · exact level_readValue.bind fun value => level_pure _
    · exact level_pure _

/-- The operation that opens a container needs room for its scope. -/
theorem opens_level {event : Event} (opens : event.opens = true) {c d : Cursor}
    (taken : event.Taken c d) :
    c.scopes.length ≤ depthLimit ∧ d.scopes.length = c.scopes.length + 1 := by
  obtain ⟨m, looked, leaves⟩ := taken
  have same := (looked_frame looked).1
  cases event <;> cases opens <;>
  · obtain ⟨room, rfl⟩ := openScope_iff.mp leaves
    exact ⟨same ▸ room, congrArg (· + 1) same⟩

/-- Loops whose rounds agree where so many scopes are open agree there. -/
theorem iterate_congr {σ β : Type} {step other : σ → Pull (σ ⊕ β)} {advances : Advances step}
    {advancesToo : Advances other} {levels : Nat} (level : ∀ s, Level (step s))
    (agree : ∀ s c, c.scopes.length = levels → other s c = step s c) {s : σ} {c : Cursor}
    (stands : c.scopes.length = levels) :
    iterate other advancesToo s c = iterate step advances s c := by
  fun_induction iterate step advances s c with
  | case1 s c e d stopped => exact iterate_error ((agree s c stands).trans stopped)
  | case2 s c result d last => exact iterate_ok.mpr (.inl ((agree s c stands).trans last))
  | case3 s c s' d stepped ih =>
    rw [iterate_step ((agree s c stands).trans stepped)]
    exact ih ((level _ _ _ _ stepped).trans stands)

section Congr
variable {inner : Pull Value} {levels : Nat}
  (agree : ∀ c, c.scopes.length = levels → inner c = readValue c)
include agree

theorem memberRound_congr (done : Members) (c : Cursor) (stands : c.scopes.length = levels) :
    memberRound inner done c = memberRound readValue done c := by
  refine bind_of_onward fun next d asked => ?_
  have stands := (level_hasNext _ _ _ asked).trans stands
  cases next with
  | false => rfl
  | true =>
    refine bind_of_onward fun name e named => ?_
    exact bind_of_same _ (agree e ((level_nextName _ _ _ named).trans stands))

theorem itemRound_congr (done : List Value) (c : Cursor) (stands : c.scopes.length = levels) :
    itemRound inner done c = itemRound readValue done c := by
  refine bind_of_onward fun next d asked => ?_
  have stands := (level_hasNext _ _ _ asked).trans stands
  cases next with
  | false => rfl
  | true => exact bind_of_same _ (agree d stands)

end Congr

/-- An activation needs the others only with one scope more open. -/
theorem activation_congr {inner : Taking} {c : Cursor}
    (agree : c.scopes.length ≤ depthLimit → ∀ d, d.scopes.length = c.scopes.length + 1 →
      inner.1 d = readValue d) : activation inner c = readValue c := by
  rw [readValue_eq]
  refine bind_of_onward fun token d peeked => ?_
  obtain ⟨seen, looked, -⟩ := Hierarchy.peek_iff.mp peeked
  have same := (looked_frame looked).1
  rw [← same] at agree
  cases token with
  | beginObject =>
    refine bind_of_onward fun _ e opened => bind_of_same _ ?_
    obtain ⟨room, deeper⟩ := opens_level rfl (beginObject_iff.mp opened)
    exact iterate_congr level_memberRound (memberRound_congr (agree room)) deeper
  | beginArray =>
    refine bind_of_onward fun _ e opened => bind_of_same _ ?_
    obtain ⟨room, deeper⟩ := opens_level rfl (beginArray_iff.mp opened)
    exact iterate_congr level_itemRound (itemRound_congr (agree room)) deeper
  | string | number | boolean | null | endObject | endArray | name | endDocument => rfl

/-- With so many activations there is none inside the last, whatever it would be. -/
theorem activations_eq (beyond : Taking) {count : Nat} {c : Cursor}
    (shallow : c.scopes.length ≤ depthLimit + 1)
    (enough : depthLimit + 2 ≤ c.scopes.length + count) :
    (activations beyond count).1 c = readValue c := by
  induction count generalizing c with
  | zero => omega
  | succ count ih => exact activation_congr fun room d deeper => ih (by omega) (by omega)

/-! The whole. -/

theorem Sound.remaining {text : String} {c : Cursor} (sound : Sound text c) :
    c.place.offset + c.remaining ≤ text.utf8ByteSize + 1 := by
  obtain ⟨passed, shape, offset⟩ := sound.place
  have size : text.utf8ByteSize = byteLength passed + byteLength c.place.rest := by
    rw [← byteLength_append, ← byteLength_ofList]
    exact congrArg String.utf8ByteSize
      (String.ofList_toList.symm.trans (congrArg String.ofList shape))
  have left := Place.length_le_byteLength c.place.rest
  have weight := slot_weight c.ahead
  have begins : (Cursor.ofText text).place.offset = 0 := rfl
  rw [Cursor.remaining]
  split at weight <;> omega

/-- From there the loop ends, whatever its state: a round that does not end it takes tokens, and
there are at most two rounds more than bytes of the text left. -/
structure Ends {σ β : Type} (text : String) (step : σ → Pull (σ ⊕ β)) (c : Cursor) : Prop where
  consumes : Consumes step
  rounds : ∀ s, ∃ rounds, Loops step rounds s c (iterate step consumes.advances s c) ∧
    c.place.offset + rounds ≤ text.utf8ByteSize + 2

theorem Consumes.ends {σ β : Type} {text : String} {step : σ → Pull (σ ⊕ β)} {c : Cursor}
    (consumes : Consumes step) (sound : Sound text c) : Ends text step c := by
  refine ⟨consumes, fun s => ?_⟩
  obtain ⟨rounds, loops, few⟩ := consumes.loops s c
  have left := sound.remaining
  exact ⟨rounds, loops, by omega⟩

/-- What bounds reading from a state. -/
structure Bounded (text : String) (c : Cursor) : Prop where
  /-- The loop that passes a value, whatever the count of containers. -/
  value : Ends text skipToken c
  label : ∀ key, Ends text (labelStep key) c
  fields : Ends text fieldStep c
  members : Ends text skipStep c
  /-- The loops of an activation. -/
  object : Ends text (memberRound readValue) c
  array : Ends text (itemRound readValue) c
  /-- Only a token that has been looked at before may be taken without a byte. -/
  bytes : ∀ events d, Runs events c d →
    c.place.offset + events.length ≤ d.place.offset + if c.ahead.isSome then 1 else 0
  recursion : readValue c = activation whole c
  /-- Whatever would be done inside the 129th activation is never done. -/
  activations : ∀ beyond : Taking, (activations beyond 129).1 c = readValue c

/-- Whatever has been done with a reader of a text, and with whatever success, all loops from there
end, with every round paid for by tokens and all tokens by bytes of the text, and a value nests at
most 129 activations, however deep the text does. -/
theorem reading_bounded (text : String) (operations : List Operation) :
    Bounded text (runOperations operations (Cursor.ofText text)) := by
  have sound := operations_sound (sound_ofText text) operations
  generalize runOperations operations (Cursor.ofText text) = c at sound ⊢
  have shallow : c.scopes.length ≤ depthLimit + 1 := sound.shallow
  have opened : 1 ≤ c.scopes.length := sound.height ▸ Nat.le_add_left ..
  exact {
    value := skipToken_consumes.ends sound
    label := fun key => (labelStep_consumes key).ends sound
    fields := fieldStep_consumes.ends sound
    members := skipStep_consumes.ends sound
    object := memberRound_consumes.ends sound
    array := itemRound_consumes.ends sound
    bytes := fun events d runs => tokens_take_bytes sound runs
    recursion := readValue_eq c
    activations := fun beyond => activations_eq beyond shallow (by simp only [depthLimit]; omega) }

end TaggedJson.Pull
