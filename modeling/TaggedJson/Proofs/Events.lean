import TaggedJson.Pull.Members
/-! A reader as a machine that takes one event after the other. Every operation that succeeds has
taken a run of events, and looking at the next token first changes nothing. -/
namespace TaggedJson.Pull
open Json (NumberLiteral Scope)

/-- What a token tells once it is taken. -/
inductive Event where
  | beginObject
  | endObject
  | beginArray
  | endArray
  | name (text : String)
  | string (text : String)
  | number (literal : NumberLiteral)
  | bool (value : Bool)
  | null

/-- The token that is ahead before the event. -/
def Event.seen : Event → Ahead
  | .beginObject => .beginObject
  | .endObject => .endObject
  | .beginArray => .beginArray
  | .endArray => .endArray
  | .name _ => .name
  | .string _ => .string
  | .number _ => .number
  | .bool value => .bool value
  | .null => .null

/-- What taking the token ahead does to the cursor. -/
def Event.Leaves : Event → Cursor → Cursor → Prop
  | .beginObject, d, c' => openScope .objectStart (.field none) { d with ahead := none } = .ok () c'
  | .beginArray, d, c' => openScope .arrayStart (.index 0) { d with ahead := none } = .ok () c'
  | .endObject, d, c' | .endArray, d, c' => c' = d.pop
  | .name text, d, c' => ∃ e, takeLexeme scanString { d with ahead := none } = .ok text e ∧
      c' = e.setName text
  | .string text, d, c' => ∃ e, takeLexeme scanString { d with ahead := none } = .ok text e ∧
      c' = { e with ahead := none }.valueTaken
  | .number literal, d, c' => ∃ e, takeLexeme scanNumber { d with ahead := none } = .ok literal e ∧
      c' = { e with ahead := none }.valueTaken
  | .bool _, d, c' | .null, d, c' => c' = { d with ahead := none }.valueTaken

def Event.Taken (event : Event) (c c' : Cursor) : Prop :=
  ∃ d, ahead c = .ok event.seen d ∧ event.Leaves d c'

def Runs : List Event → Cursor → Cursor → Prop
  | [], c, c' => c = c'
  | event :: rest, c, c' => ∃ d, event.Taken c d ∧ Runs rest d c'

theorem runs_append {left right : List Event} {c c' : Cursor} :
    Runs (left ++ right) c c' ↔ ∃ d, Runs left c d ∧ Runs right d c' := by
  induction left generalizing c with
  | nil => simp [Runs]
  | cons event rest ih =>
    simp only [List.cons_append, Runs, ih]
    constructor
    · rintro ⟨d, taken, e, first, second⟩
      exact ⟨e, ⟨d, taken, first⟩, second⟩
    · rintro ⟨e, ⟨d, taken, first⟩, second⟩
      exact ⟨d, taken, e, first, second⟩

theorem runs_singleton {event : Event} {c c' : Cursor} : Runs [event] c c' ↔ event.Taken c c' := by
  simp [Runs]

/-! One place has one next event. -/

theorem seen_injective {left right : Event} {d c' c'' : Cursor} (same : left.seen = right.seen)
    (first : left.Leaves d c') (second : right.Leaves d c'') : left = right ∧ c' = c'' := by
  -- Only the text of a name, a string or a number is not yet settled by what has been seen.
  cases left <;> cases right <;> simp only [Event.seen, reduceCtorEq, Ahead.bool.injEq] at same <;>
    simp only [Event.Leaves] at first second
  case name.name | string.string | number.number =>
    obtain ⟨e, taken, rfl⟩ := first
    obtain ⟨f, takenToo, rfl⟩ := second
    rw [taken] at takenToo
    cases takenToo
    exact ⟨rfl, rfl⟩
  all_goals simp_all

theorem taken_unique {left right : Event} {c d e : Cursor} (first : left.Taken c d)
    (second : right.Taken c e) : left = right ∧ d = e := by
  obtain ⟨m, look, leaves⟩ := first
  obtain ⟨n, lookToo, leavesToo⟩ := second
  rw [look] at lookToo
  injection lookToo with same place
  subst place
  exact seen_injective same leaves leavesToo

/-- Of two runs from one place, one goes on where the other stops. -/
theorem runs_comparable {left right : List Event} {c d e : Cursor} (first : Runs left c d)
    (second : Runs right c e) : ∃ more, left ++ more = right ∨ right ++ more = left := by
  induction left generalizing right c with
  | nil => exact ⟨right, .inl rfl⟩
  | cons event rest ih =>
    cases right with
    | nil => exact ⟨event :: rest, .inr rfl⟩
    | cons other others =>
      obtain ⟨m, taken, first⟩ := first
      obtain ⟨n, takenToo, second⟩ := second
      obtain ⟨rfl, rfl⟩ := taken_unique taken takenToo
      obtain ⟨more, split⟩ := ih first second
      exact ⟨more, by simpa using split⟩

theorem runs_deterministic {events : List Event} {c d e : Cursor} (first : Runs events c d)
    (second : Runs events c e) : d = e := by
  induction events generalizing c with
  | nil => exact first.symm.trans second
  | cons event rest ih =>
    obtain ⟨m, taken, first⟩ := first
    obtain ⟨n, takenToo, second⟩ := second
    obtain ⟨-, rfl⟩ := taken_unique taken takenToo
    exact ih first second

/-! Looking ahead. -/

theorem ahead_twice {c d : Cursor} {seen : Ahead} (look : ahead c = .ok seen d) :
    ahead d = .ok seen d := by
  unfold ahead
  rw [(ahead_ok look).2]

theorem ahead_fresh {c d : Cursor} {seen : Ahead} (fresh : c.ahead = none) :
    ahead c = .ok seen d ↔ ∃ e, look c = .ok seen e ∧ d = { e with ahead := some seen } := by
  unfold ahead
  rw [fresh]
  cases looked : look c with
  | error => simp
  | ok found e =>
    simp only [EStateM.Result.ok.injEq]
    constructor
    · rintro ⟨rfl, rfl⟩
      exact ⟨e, ⟨rfl, rfl⟩, rfl⟩
    · rintro ⟨_, ⟨rfl, rfl⟩, rfl⟩
      exact ⟨rfl, rfl⟩

/-- Operations that begin by looking ahead cannot tell whether that has been done before. -/
def Looks (x : Pull α) : Prop := ∀ c seen d, ahead c = .ok seen d → x c = x d

theorem looks_takeToken (wanted : Ahead) (expected : Expected) :
    Looks (takeToken wanted expected) := fun _ _ _ look => by
  simp only [takeToken, look, ahead_twice look]

theorem Looks.bind {x : Pull α} (looks : Looks x) (f : α → Pull β) : Looks (x >>= f) := by
  intro c seen d look
  show EStateM.bind x f c = EStateM.bind x f d
  rw [EStateM.bind, EStateM.bind, looks c seen d look]

theorem taken_looked {event : Event} {c c' d : Cursor} {seen : Ahead}
    (look : ahead c = .ok seen d) : event.Taken d c' ↔ event.Taken c c' := by
  simp only [Event.Taken, look, ahead_twice look]

theorem runs_looked {c c' d : Cursor} {seen : Ahead} {events : List Event} (some : events ≠ [])
    (look : ahead c = .ok seen d) : Runs events d c' ↔ Runs events c c' := by
  obtain ⟨event, rest, rfl⟩ := List.exists_cons_of_ne_nil some
  simp only [Runs, taken_looked look]

/-! Operations that take one event. -/

theorem takeToken_iff {wanted : Ahead} {expected : Expected} {c c' : Cursor} {u : Unit} :
    takeToken wanted expected c = .ok u c' ↔
      ∃ d, ahead c = .ok wanted d ∧ c' = { d with ahead := none } := by
  unfold takeToken
  cases look : ahead c with
  | error => simp
  | ok seen d =>
    simp only [EStateM.Result.ok.injEq]
    by_cases same : seen = wanted
    · rw [if_pos same]
      constructor
      · rintro ⟨⟩
        exact ⟨d, ⟨same, rfl⟩, rfl⟩
      · rintro ⟨_, ⟨_, rfl⟩, rfl⟩
        rfl
    · simp [same]

theorem aheadAs_iff {expected : Expected} {select : Ahead → Option α} {c c' : Cursor} {kind : α} :
    aheadAs expected select c = .ok kind c' ↔
      ∃ seen, ahead c = .ok seen c' ∧ select seen = some kind := by
  unfold aheadAs
  cases look : ahead c with
  | error => simp
  | ok seen d =>
    simp only [EStateM.Result.ok.injEq]
    constructor
    · intro ran
      split at ran
      · rename_i chosen
        cases ran
        exact ⟨seen, ⟨rfl, rfl⟩, chosen⟩
      · cases ran
    · rintro ⟨_, ⟨rfl, rfl⟩, chosen⟩
      rw [chosen]

theorem only_iff {wanted seen : Ahead} {u : Unit} :
    Ahead.only? wanted seen = some u ↔ seen = wanted := by
  simp [Ahead.only?]

theorem takeToken_bind {wanted : Ahead} {expected : Expected} {body : Unit → Pull α} {c c' : Cursor}
    {a : α} : (takeToken wanted expected >>= body) c = .ok a c' ↔
      ∃ d, ahead c = .ok wanted d ∧ body () { d with ahead := none } = .ok a c' := by
  simp only [bind_ok, takeToken_iff]
  constructor
  · rintro ⟨_, _, ⟨d, look, rfl⟩, ran⟩
    exact ⟨d, look, ran⟩
  · rintro ⟨d, look, ran⟩
    exact ⟨(), _, ⟨d, look, rfl⟩, ran⟩

theorem beginObject_iff {c c' : Cursor} {u : Unit} :
    beginObject c = .ok u c' ↔ Event.beginObject.Taken c c' := takeToken_bind

theorem beginArray_iff {c c' : Cursor} {u : Unit} :
    beginArray c = .ok u c' ↔ Event.beginArray.Taken c c' := takeToken_bind

theorem endObject_iff {c c' : Cursor} {u : Unit} :
    endObject c = .ok u c' ↔ Event.endObject.Taken c c' := by
  simp only [endObject, takeToken_bind, modify_ok, eq_comm (a := Cursor.pop _)]
  rfl

theorem endArray_iff {c c' : Cursor} {u : Unit} :
    endArray c = .ok u c' ↔ Event.endArray.Taken c c' := by
  simp only [endArray, takeToken_bind, modify_ok, eq_comm (a := Cursor.pop _)]
  rfl

theorem nextName_iff {c c' : Cursor} {text : String} :
    nextName c = .ok text c' ↔ (Event.name text).Taken c c' := by
  rw [nextName, takeToken_bind]
  simp only [bind_ok, modify_ok, pure_ok, Event.Taken, Event.seen, Event.Leaves]
  constructor
  · rintro ⟨d, look, _, e, scanned, _, _, rfl, rfl, rfl⟩
    exact ⟨d, look, e, scanned, rfl⟩
  · rintro ⟨d, look, e, scanned, rfl⟩
    exact ⟨d, look, text, e, scanned, (), _, rfl, rfl, rfl⟩

theorem nextNull_iff {c c' : Cursor} {u : Unit} :
    nextNull c = .ok u c' ↔ Event.null.Taken c c' := by
  simp only [nextNull, endScalar, bind_ok, aheadAs_iff, only_iff, modify_ok, Event.Taken,
    Event.seen, Event.Leaves]
  constructor
  · rintro ⟨_, d, ⟨_, look, rfl⟩, rfl⟩
    exact ⟨d, look, rfl⟩
  · rintro ⟨d, look, rfl⟩
    exact ⟨(), d, ⟨_, look, rfl⟩, rfl⟩

theorem nextBool_iff {c c' : Cursor} {value : Bool} :
    nextBool c = .ok value c' ↔ (Event.bool value).Taken c c' := by
  simp only [nextBool, endScalar, bind_ok, aheadAs_iff, modify_ok, pure_ok, Event.Taken, Event.seen,
    Event.Leaves]
  constructor
  · rintro ⟨_, d, ⟨seen, look, kind⟩, _, _, rfl, rfl, rfl⟩
    cases seen <;> cases kind
    exact ⟨d, look, rfl⟩
  · rintro ⟨d, look, rfl⟩
    exact ⟨value, d, ⟨_, look, rfl⟩, (), _, rfl, rfl, rfl⟩

/-- The literal of a number is the same whatever the operation makes of it. -/
theorem nextLiteral_iff {expected : Expected} {c c' : Cursor} {literal : NumberLiteral} :
    nextLiteral expected c = .ok literal c' ↔ ∃ d, ahead c = .ok .number d ∧
      takeLexeme scanNumber { d with ahead := none } = .ok literal c' := by
  simp only [nextLiteral, dropAhead, bind_ok, aheadAs_iff, only_iff, modify_ok]
  constructor
  · rintro ⟨_, d, ⟨_, look, rfl⟩, _, _, rfl, scanned⟩
    exact ⟨d, look, scanned⟩
  · rintro ⟨d, look, scanned⟩
    exact ⟨(), d, ⟨_, look, rfl⟩, (), _, rfl, scanned⟩

theorem number_taken_iff (expected : Expected) {c c' : Cursor} {literal : NumberLiteral} :
    (Event.number literal).Taken c c' ↔
      ∃ d, nextLiteral expected c = .ok literal d ∧ endScalar d = .ok () c' := by
  simp only [nextLiteral_iff, endScalar, modify_ok, Event.Taken, Event.seen, Event.Leaves]
  constructor
  · rintro ⟨d, look, e, scanned, rfl⟩
    exact ⟨e, ⟨d, look, scanned⟩, rfl⟩
  · rintro ⟨e, ⟨d, look, scanned⟩, rfl⟩
    exact ⟨d, look, e, scanned, rfl⟩

/-- A number overflows or counts as taken. -/
theorem nextNumber_iff {c c' : Cursor} {number : Json.Number} :
    nextNumber c = .ok number c' ↔
      ∃ literal, (Event.number literal).Taken c c' ∧ literal.number? = some number := by
  simp only [nextNumber, bind_ok, number_taken_iff .number]
  constructor
  · rintro ⟨literal, d, scanned, rest⟩
    cases denoted : literal.number? with
    | none =>
      rw [denoted] at rest
      exact (fail_ok.mp rest).elim
    | some found =>
      rw [denoted] at rest
      obtain ⟨_, _, ended, done⟩ := bind_ok.mp rest
      obtain ⟨rfl, rfl⟩ := pure_ok.mp done
      exact ⟨literal, ⟨d, scanned, ended⟩, denoted⟩
  · rintro ⟨literal, ⟨d, scanned, ended⟩, denoted⟩
    refine ⟨literal, d, scanned, ?_⟩
    rw [denoted]
    exact bind_ok.mpr ⟨(), c', ended, rfl⟩

theorem takeLexeme_numeric {c c' : Cursor} {text : String} :
    takeLexeme TextKind.numeric.scan c = .ok text c' ↔
      ∃ literal : NumberLiteral,
        literal.text = text ∧ takeLexeme scanNumber c = .ok literal c' := by
  cases scanned : scanNumber c.place with
  | error => simp [takeLexeme, TextKind.scan, scanned]
  | ok found =>
    simp only [takeLexeme, TextKind.scan, scanned, EStateM.Result.ok.injEq]
    constructor
    · rintro ⟨same, place⟩
      exact ⟨found.1, same, rfl, place⟩
    · rintro ⟨_, same, rfl, place⟩
      exact ⟨same, place⟩

/-- The literal of a number stands for a string where one is asked for. -/
theorem nextString_iff {c c' : Cursor} {text : String} :
    nextString c = .ok text c' ↔ (Event.string text).Taken c c' ∨
      ∃ literal : NumberLiteral, literal.text = text ∧ (Event.number literal).Taken c c' := by
  simp only [nextString, dropAhead, endScalar, bind_ok, aheadAs_iff, modify_ok, pure_ok,
    Event.Taken, Event.seen, Event.Leaves]
  constructor
  · rintro ⟨_, d, ⟨seen, look, kind⟩, _, _, rfl, _, e, scanned, _, _, rfl, rfl, rfl⟩
    cases seen <;> cases kind
    · exact .inl ⟨d, look, e, scanned, rfl⟩
    · obtain ⟨literal, same, number⟩ := takeLexeme_numeric.mp scanned
      exact .inr ⟨literal, same, d, look, e, number, rfl⟩
  · rintro (⟨d, look, e, scanned, rfl⟩ | ⟨literal, same, d, look, e, scanned, rfl⟩)
    · exact ⟨.quoted, d, ⟨_, look, rfl⟩, (), _, rfl, text, e, scanned, (), _, rfl, rfl, rfl⟩
    · exact ⟨.numeric, d, ⟨_, look, rfl⟩, (), _, rfl, text, e,
        takeLexeme_numeric.mpr ⟨literal, same, scanned⟩, (), _, rfl, rfl, rfl⟩

end TaggedJson.Pull
