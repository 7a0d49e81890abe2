import TaggedJson.Proofs.Comparison
/-! Taking a value by recursive descent: the parts of a container are taken one by one, as long as
there is a next one, each by the same function. The loop over the containers that are open comes to
the same value, the same failure and the same cursor, so no depth is treated in another way. -/
namespace TaggedJson.Pull
open Json (Members Value)

mutual
/-- The value ahead. The bound is there for the recursion, and twice the text left is enough. -/
def valueWithin : Nat → Pull Value
  -- Only a bound that is too small comes to this.
  | 0 => fail Cursor.endOfInput
  | bound + 1 => do
    match ← peek with
    | .beginObject => do beginObject; membersWithin bound []
    | .beginArray => do beginArray; itemsWithin bound []
    | .string => do let text ← nextString; return .string text
    | .number => do let number ← nextNumber; return .number number
    | .boolean => do let value ← nextBool; return .bool value
    | .null => do nextNull; return .null
    | other => fail fun c => .unexpectedToken .value other c.pathText

/-- The object whose members have been taken so far, newest first, with those still to come. -/
def membersWithin : Nat → Members → Pull Value
  | 0, _ => fail Cursor.endOfInput
  | bound + 1, done => do
    if ← hasNext then
      let name ← nextName
      let value ← valueWithin bound
      if done.has name then fail fun c => .repeatedName name c.pathText
      else membersWithin bound ((name, value) :: done)
    else
      endObject
      return .object done.reverse

/-- The array whose items have been taken so far, newest first, with those still to come. -/
def itemsWithin : Nat → List Value → Pull Value
  | 0, _ => fail Cursor.endOfInput
  | bound + 1, done => do
    if ← hasNext then
      let value ← valueWithin bound
      itemsWithin bound (value :: done)
    else
      endArray
      return .array done.reverse
end

/-! What is left to do around a value. -/

theorem readToken_advances : Advances readToken := Takes.advances readToken_takes

/-- The loop over containers that are open. -/
def readInto (frames : List Frame) : Pull Value := iterate readToken readToken_advances frames

/-- A loop is its first round and what that goes on to. -/
theorem iterate_eq {σ β : Type} {step : σ → Pull (σ ⊕ β)} (advances : Advances step) (s : σ) :
    (iterate step advances s : Pull β) =
      step s >>= fun chosen => chosen.elim (iterate step advances) pure := by
  funext c
  cases stepped : step s c with
  | error e d => rw [iterate_error stepped, bind_of_error stepped]
  | ok chosen d =>
    rw [bind_of_ok stepped]
    cases chosen with
    | inl next => exact iterate_step stepped
    | inr result => exact iterate_ok.mpr (.inl stepped)

def goOn : List Frame ⊕ Value → Pull Value
  | .inl frames => readInto frames
  | .inr value => pure value

theorem readInto_eq (frames : List Frame) : readInto frames = readToken frames >>= goOn := by
  rw [readInto, iterate_eq]
  congr 1
  funext chosen
  cases chosen <;> rfl

theorem looks_ahead : Looks ahead := fun _ _ _ looked => looked.trans (ahead_twice looked).symm

theorem looks_readInto (frames : List Frame) : Looks (readInto frames) := by
  rw [readInto_eq, readToken]
  exact (looks_ahead.bind _).bind _

/-- What a step comes to when there are more containers around those it knows of. -/
def around (outer : List Frame) : List Frame ⊕ Value → Pull (List Frame ⊕ Value)
  | .inl frames => pure (.inl (frames ++ outer))
  | .inr value => deliver value outer

theorem deliver_around (value : Value) (frames outer : List Frame) :
    deliver value (frames ++ outer) = deliver value frames >>= around outer := by
  cases frames with
  | nil => rfl
  | cons frame inner =>
    cases frame with
    | items => rfl
    | members => rfl
    | member done name =>
      rw [List.cons_append, deliver, deliver]
      split <;> rfl

/-- With no container of its own, a step has to find the start of a value. -/
def Begins (frames : List Frame) (c : Cursor) : Prop :=
  frames = [] → ∀ seen d, ahead c = .ok seen d → seen.starts = true

theorem readToken_around {frames outer : List Frame} {c : Cursor} (begins : Begins frames c) :
    readToken (frames ++ outer) c = (readToken frames >>= around outer) c := by
  rw [readToken, readToken, bind_assoc]
  cases looked : ahead c with
  | error e d => rw [bind_of_error looked, bind_of_error looked]
  | ok seen d =>
    rw [bind_of_ok looked, bind_of_ok looked]
    have starts : frames = [] → seen.starts = true := fun none => begins none seen d looked
    clear begins looked
    cases seen with
    | beginObject => simp only [bind_assoc, pure_bind, around, List.cons_append]
    | beginArray => simp only [bind_assoc, pure_bind, around, List.cons_append]
    | string => simp only [bind_assoc, deliver_around]
    | number => simp only [bind_assoc, deliver_around]
    | bool value => simp only [bind_assoc, deliver_around]
    | null => simp only [bind_assoc, deliver_around]
    | endDocument => rfl
    | endObject =>
      cases frames with
      | nil => cases starts rfl
      | cons frame inner =>
        cases frame with
        | members done => simp only [List.cons_append, bind_assoc, deliver_around]
        | items done => rfl
        | member done name => rfl
    | endArray =>
      cases frames with
      | nil => cases starts rfl
      | cons frame inner =>
        cases frame with
        | items done => simp only [List.cons_append, bind_assoc, deliver_around]
        | members done => rfl
        | member done name => rfl
    | name =>
      cases frames with
      | nil => cases starts rfl
      | cons frame inner =>
        cases frame with
        | members done => simp only [List.cons_append, bind_assoc, pure_bind, around]
        | items done => rfl
        | member done name => rfl

/-- A step that goes on leaves a container open. -/
theorem readToken_open {frames next : List Frame} {c d : Cursor}
    (stepped : readToken frames c = .ok (.inl next) d) : next ≠ [] := by
  obtain ⟨event, -, read⟩ := readNext_of_readToken stepped
  exact fun none => skipNext_inl (readNext_openCount read) (congrArg List.length none)

theorem bind_of_same {x y : Pull α} (f : α → Pull β) {c d : Cursor} (same : x c = y d) :
    (x >>= f) c = (y >>= f) d := by
  show EStateM.bind x f c = EStateM.bind y f d
  rw [EStateM.bind, EStateM.bind, same]

theorem bind_of_onward {x : Pull α} {f g : α → Pull β} {c : Cursor}
    (onward : ∀ a d, x c = .ok a d → f a d = g a d) : (x >>= f) c = (x >>= g) c := by
  cases ran : x c with
  | error e d => rw [bind_of_error ran, bind_of_error ran]
  | ok a d => rw [bind_of_ok ran, bind_of_ok ran, onward a d ran]

theorem step_around {frames outer : List Frame} {c : Cursor} (begins : Begins frames c) :
    readInto (frames ++ outer) c =
      (readToken frames >>= fun chosen => around outer chosen >>= goOn) c := by
  rw [readInto_eq, ← bind_assoc]
  exact bind_of_same goOn (readToken_around begins)

/-- With more containers around, the loop does what it does without, and hands on the value. -/
theorem readInto_around {frames outer : List Frame} {c : Cursor} (begins : Begins frames c) :
    readInto (frames ++ outer) c =
      (readInto frames >>= fun value => deliver value outer >>= goOn) c := by
  fun_induction iterate readToken readToken_advances frames c with
  | case1 frames c e d failed =>
    have ended : readInto frames c = .error e d := iterate_error failed
    rw [step_around begins, bind_of_error failed, bind_of_error ended]
  | case2 frames c value d stepped =>
    have ended : readInto frames c = .ok value d := iterate_ok.mpr (.inl stepped)
    rw [step_around begins, bind_of_ok stepped, bind_of_ok ended]
    rfl
  | case3 frames c next d stepped ih =>
    have further : readInto frames c = readInto next d := iterate_step stepped
    have inner : Begins next d := fun none => (readToken_open stepped none).elim
    rw [step_around begins, bind_of_ok stepped, bind_of_same _ further, ← ih inner]
    rfl

/-! Between the parts of a container. -/

/-- A value leaves the container behind it. -/
theorem Frame.GoesOn.past {frame : Frame} {c d : Cursor} {value : Value} (goes : frame.GoesOn c)
    (read : readValue c = .ok value d) :
    d.ahead = none ∧ ∃ scope outer, d.scopes = scope :: outer ∧ frame.Past scope := by
  obtain ⟨fresh, scope, outer, shape, stands⟩ := goes
  obtain ⟨document, reads, -⟩ := readValue_iff.mp read
  obtain ⟨after, place, scopes, clear⟩ := reads_scopes document fresh shape reads
  exact ⟨clear, after, outer, scopes, stands.past place⟩

/-- The recursion and the loop agree as long as the bound exceeds twice the text that is left. A
look for the next item takes nothing yet, so the array has to come before its item in the count. -/
structure Descends (bound : Nat) : Prop where
  value : ∀ {c}, 2 * c.remaining < bound → readValue c = valueWithin bound c
  members : ∀ {done c}, (Frame.members done).GoesOn c → 2 * c.remaining + 1 < bound →
    readInto [.members done] c = membersWithin bound done c
  items : ∀ {done c}, (Frame.items done).GoesOn c → 2 * c.remaining + 1 < bound →
    readInto [.items done] c = itemsWithin bound done c

theorem hasNext_failed {c d : Cursor} {e : DecodeError} (failed : ahead c = .error e d) :
    hasNext c = .error e d := by
  rw [hasNext, failed]

variable {bound : Nat} {c : Cursor}

theorem Descends.value_further (descends : Descends bound) (enough : 2 * c.remaining < bound + 1) :
    readValue c = valueWithin (bound + 1) c := by
  rw [valueWithin, show readValue = readInto [] from rfl, readInto_eq, readToken, bind_assoc]
  cases looked : ahead c with
  | error e d => rw [bind_of_error looked, bind_of_error (peek_failed looked)]
  | ok seen d =>
    have less : d.remaining ≤ c.remaining := keeps_ahead _ _ _ looked
    rw [bind_of_ok looked, bind_of_ok (peek_ahead looked)]
    cases seen with
    | beginObject =>
      rw [bind_assoc]
      refine bind_of_onward fun _ e opened => ?_
      have fewer := beginObject_takes _ _ _ opened
      exact descends.members (inside_opened (beginObject_iff.mp opened)).1 (by omega)
    | beginArray =>
      rw [bind_assoc]
      refine bind_of_onward fun _ e opened => ?_
      have fewer := beginArray_takes _ _ _ opened
      obtain ⟨m, -, leaves⟩ := beginArray_iff.mp opened
      obtain ⟨fresh, scopes⟩ := leaves_scopes leaves
      exact descends.items ⟨fresh, _, _, scopes, .inl rfl⟩ (by omega)
    | string => rw [bind_assoc]; rfl
    | number => rw [bind_assoc]; rfl
    | bool value => rw [bind_assoc]; rfl
    | null => rw [bind_assoc]; rfl
    | endObject => rfl
    | endArray => rfl
    | name => rfl
    | endDocument => rfl

theorem Descends.members_further (descends : Descends bound) {done : Members}
    (goes : (Frame.members done).GoesOn c) (enough : 2 * c.remaining + 1 < bound + 1) :
    readInto [.members done] c = membersWithin (bound + 1) done c := by
  rw [membersWithin, readInto_eq, readToken, bind_assoc]
  cases looked : ahead c with
  | error e d => rw [bind_of_error looked, bind_of_error (hasNext_failed looked)]
  | ok seen d =>
    have less : d.remaining ≤ c.remaining := keeps_ahead _ _ _ looked
    rw [bind_of_ok looked, bind_of_ok (hasNext_iff.mpr ⟨seen, looked, rfl⟩)]
    rcases goes.sees looked with rfl | rfl
    · rw [bind_assoc]
      refine bind_of_onward fun name e named => ?_
      have fewer := nextName_takes _ _ _ named
      have taken := (taken_looked looked).mp (nextName_iff.mp named)
      obtain ⟨fresh, ⟨outer, shape⟩, -⟩ := inside_named goes taken
      have goes : (Frame.member done name).GoesOn e := ⟨fresh, _, outer, shape, rfl⟩
      have begins : Begins [] e := fun _ seen d looked => goes.sees looked
      have same : readValue e = valueWithin bound e := descends.value (by omega)
      refine ((readInto_around begins).trans (bind_of_same _ same)).trans ?_
      refine bind_of_onward fun value f read => ?_
      have read := same.trans read
      rw [deliver]
      split
      · rfl
      · have fewer : f.remaining < e.remaining := readValue_takes _ _ _ read
        obtain ⟨fresh, scope, outer, shape, past⟩ := goes.past read
        exact descends.members ⟨fresh, scope, outer, shape, .inr past⟩ (by omega)
    · rw [bind_assoc]
      rfl

theorem Descends.items_further (descends : Descends bound) {done : List Value}
    (goes : (Frame.items done).GoesOn c) (enough : 2 * c.remaining + 1 < bound + 1) :
    readInto [.items done] c = itemsWithin (bound + 1) done c := by
  rw [itemsWithin]
  cases looked : ahead c with
  | error e d =>
    rw [readInto_eq, readToken, bind_assoc, bind_of_error looked,
      bind_of_error (hasNext_failed looked)]
  | ok seen d =>
    have less : d.remaining ≤ c.remaining := keeps_ahead _ _ _ looked
    rw [bind_of_ok (hasNext_iff.mpr ⟨seen, looked, rfl⟩)]
    rcases goes.sees looked with starts | rfl
    · have begins : Begins [] c := by
        rintro - other m found
        rw [looked] at found
        cases found
        exact starts
      have more : (seen != .endObject && seen != .endArray && seen != .endDocument) = true := by
        cases seen <;> first | rfl | cases starts
      -- The recursion goes on from the token that was looked at, the loop looks at it again.
      have same : readValue d = valueWithin bound d := descends.value (by omega)
      have here : readValue c = readValue d := looks_readInto [] c seen d looked
      rw [if_pos more]
      refine ((readInto_around begins).trans (bind_of_same _ (here.trans same))).trans ?_
      refine bind_of_onward fun value f read => ?_
      have read := (here.trans same).trans read
      have fewer : f.remaining < c.remaining := readValue_takes _ _ _ read
      obtain ⟨fresh, scope, outer, shape, past⟩ := goes.past read
      exact descends.items ⟨fresh, scope, outer, shape, .inr past⟩ (by omega)
    · rw [readInto_eq, readToken, bind_assoc, bind_of_ok looked, bind_assoc]
      rfl

theorem descends (bound : Nat) : Descends bound := by
  induction bound with
  | zero => exact ⟨nofun, fun _ => nofun, fun _ => nofun⟩
  | succ bound ih => exact ⟨ih.value_further, ih.members_further, ih.items_further⟩

/-- The loop over open containers takes the value that the recursion does, or fails as it does. -/
theorem readValue_descends (c : Cursor) :
    readValue c = valueWithin (2 * c.remaining + 1) c := (descends _).value (Nat.lt_succ_self _)

/-- So the recursion, too, ends like passing the value, unless no value can hold what it has met. -/
theorem descent_compared (c : Cursor) :
    Compared c (skipValue c) (valueWithin (2 * c.remaining + 1) c) :=
  readValue_descends c ▸ values_compared c

end TaggedJson.Pull
