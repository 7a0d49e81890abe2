import TaggedJson.Proofs.Scopes
/-! Passing and taking whole values. Both loops are folds over the events they take, a value is
passed exactly when the events are those of a document, and it is taken exactly when the document
has a value. -/
namespace TaggedJson.Pull
open Json (Document Value Members Scope)

/-! A loop whose steps take one event each is a fold over the events it takes. -/

section Loops
variable {σ β : Type}

/-- What a loop makes of events, if it ends with the last of them. -/
def consume (next : σ → Event → Option (σ ⊕ β)) : σ → List Event → Option β
  | _, [] => none
  | s, event :: rest => (next s event).bind fun
    | .inl s' => consume next s' rest
    | .inr result => if rest.isEmpty then some result else none

/-- What is left to do after a step. -/
def resume (next : σ → Event → Option (σ ⊕ β)) (more : List Event) : σ ⊕ β → Option β
  | .inl s => consume next s more
  | .inr result => if more.isEmpty then some result else none

theorem consume_cons (next : σ → Event → Option (σ ⊕ β)) (s : σ) (event : Event)
    (rest : List Event) :
    consume next s (event :: rest) = (next s event).bind (resume next rest) := by
  rw [consume]
  congr 1

/-- Each step takes the event it goes on from. -/
def TakesEvents (step : σ → Pull (σ ⊕ β)) (next : σ → Event → Option (σ ⊕ β)) : Prop :=
  ∀ s c chosen c', step s c = .ok chosen c' ↔
    ∃ event : Event, event.Taken c c' ∧ next s event = some chosen

variable {step : σ → Pull (σ ⊕ β)} {advances : Advances step}
  {next : σ → Event → Option (σ ⊕ β)}

/-- A loop ends with a step or goes on after it. -/
theorem iterate_ok {s : σ} {c c' : Cursor} {result : β} :
    iterate step advances s c = .ok result c' ↔ step s c = .ok (.inr result) c' ∨
      ∃ s' d, step s c = .ok (.inl s') d ∧ iterate step advances s' d = .ok result c' := by
  rw [iterate]
  constructor
  · intro ran
    split at ran
    · cases ran
    · rename_i stepped
      cases ran
      exact .inl stepped
    · rename_i stepped
      exact .inr ⟨_, _, stepped, ran⟩
  · rintro (stepped | ⟨s', d, stepped, ran⟩)
    · split <;> rename_i found <;> rw [found] at stepped <;> cases stepped
      rfl
    · split <;> rename_i found <;> rw [found] at stepped <;> cases stepped
      exact ran

/-- A step that goes on leaves the result to the rest of the loop. -/
theorem iterate_on {s s' : σ} {c d c' : Cursor} {result : β}
    (stepped : step s c = .ok (.inl s') d) :
    iterate step advances s c = .ok result c' ↔ iterate step advances s' d = .ok result c' := by
  rw [iterate_ok, stepped]
  simp [and_assoc]

theorem iterate_last {s : σ} {c c' : Cursor} {result : β}
    (last : ∀ s' d, step s c ≠ .ok (.inl s') d) :
    iterate step advances s c = .ok result c' ↔ step s c = .ok (.inr result) c' := by
  rw [iterate_ok]
  apply or_iff_left
  rintro ⟨s', d, stepped, -⟩
  exact last s' d stepped

theorem consume_of_iterate (steps : TakesEvents step next) {s : σ} {c c' : Cursor} {result : β}
    (ran : iterate step advances s c = .ok result c') :
    ∃ events, Runs events c c' ∧ consume next s events = some result := by
  fun_induction iterate step advances s c with
  | case1 => cases ran
  | case2 s c last d stepped =>
    cases ran
    obtain ⟨event, taken, chosen⟩ := (steps ..).mp stepped
    exact ⟨[event], runs_singleton.mpr taken, by simp [consume, chosen]⟩
  | case3 s c s' d stepped ih =>
    obtain ⟨event, taken, chosen⟩ := (steps ..).mp stepped
    obtain ⟨events, runs, consumed⟩ := ih ran
    exact ⟨event :: events, ⟨d, taken, runs⟩, by simpa [consume, chosen] using consumed⟩

theorem iterate_of_consume (steps : TakesEvents step next) {s : σ} {events : List Event}
    {c c' : Cursor} {result : β} (runs : Runs events c c')
    (consumed : consume next s events = some result) :
    iterate step advances s c = .ok result c' := by
  induction events generalizing s c with
  | nil => cases consumed
  | cons event rest ih =>
    obtain ⟨d, taken, more⟩ := runs
    rw [consume_cons] at consumed
    obtain ⟨chosen, found, resumed⟩ := Option.bind_eq_some_iff.mp consumed
    have stepped := (steps ..).mpr ⟨event, taken, found⟩
    cases chosen with
    | inl s' => exact iterate_ok.mpr (.inr ⟨s', d, stepped, ih more resumed⟩)
    | inr last =>
      simp only [resume, List.isEmpty_iff, Option.ite_none_right_eq_some, Option.some.injEq]
        at resumed
      obtain ⟨rfl, rfl⟩ := resumed
      rw [← show d = c' from more]
      exact iterate_ok.mpr (.inl stepped)

theorem iterate_iff (steps : TakesEvents step next) {s : σ} {c c' : Cursor} {result : β} :
    iterate step advances s c = .ok result c' ↔
      ∃ events, Runs events c c' ∧ consume next s events = some result :=
  ⟨consume_of_iterate steps, fun ⟨_, runs, consumed⟩ => iterate_of_consume steps runs consumed⟩

end Loops

theorem returns_iff {x : Pull α} {f : α → β} {c c' : Cursor} {b : β} :
    (x >>= fun a => (pure (f a) : Pull β)) c = .ok b c' ↔ ∃ a, x c = .ok a c' ∧ f a = b := by
  simp only [bind_ok, pure_ok]
  constructor
  · rintro ⟨a, _, ran, same, rfl⟩
    exact ⟨a, ran, same⟩
  · rintro ⟨a, ran, same⟩
    exact ⟨a, c', ran, same, rfl⟩

theorem refuse_iff {expected : Expected} {seen : Ahead} {c c' : Cursor} {a : α} :
    (refuse expected seen : Pull α) c = .ok a c' ↔ False := fail_ok

theorem taken_seen {event : Event} {seen : Ahead} {c d c' : Cursor} (look : ahead c = .ok seen d)
    (taken : event.Taken c c') : event.seen = seen := by
  obtain ⟨_, lookToo, _⟩ := taken
  rw [look] at lookToo
  cases lookToo
  rfl

/-! The step that passes a token. -/

def skipNext (depth : Nat) : Event → Option (Nat ⊕ Unit)
  | .beginObject | .beginArray => some (whileOpen (depth + 1))
  | .endObject | .endArray => if depth = 0 then none else some (whileOpen (depth - 1))
  | .name _ => if depth = 0 then none else some (whileOpen depth)
  | .string _ | .number _ | .bool _ | .null => some (whileOpen depth)

theorem whileOpen_inl {depth left : Nat} (further : whileOpen depth = .inl left) :
    depth = left ∧ left ≠ 0 := by
  unfold whileOpen at further
  split at further <;> cases further
  exact ⟨rfl, ‹_›⟩

/-- A loop that goes on has a container open. -/
theorem skipNext_inl {event : Event} {depth left : Nat}
    (further : skipNext depth event = some (.inl left)) : left ≠ 0 := by
  cases event <;> simp only [skipNext, Option.ite_none_left_eq_some, Option.some.injEq] at further
  case name | endObject | endArray => exact (whileOpen_inl further.2).2
  all_goals exact (whileOpen_inl further).2

/-- What is refused outside of all containers and done in them. -/
theorem inContainer_iff {depth : Nat} {seen : Ahead} {x : Pull α} {c c' : Cursor} {a : α} :
    (if depth = 0 then refuse .value seen else x) c = .ok a c' ↔ depth ≠ 0 ∧ x c = .ok a c' := by
  by_cases outermost : depth = 0
  · simp [outermost, refuse_iff]
  · simp [outermost]

theorem skipNext_of_skipToken {depth : Nat} {c c' : Cursor} {next : Nat ⊕ Unit}
    (ran : skipToken depth c = .ok next c') :
    ∃ event : Event, event.Taken c c' ∧ skipNext depth event = some next := by
  obtain ⟨seen, d, look, rest⟩ := bind_ok.mp ran
  simp only [← taken_looked look]
  cases seen with
  | beginObject =>
    obtain ⟨_, taken, rfl⟩ := returns_iff.mp rest
    exact ⟨_, beginObject_iff.mp taken, rfl⟩
  | beginArray =>
    obtain ⟨_, taken, rfl⟩ := returns_iff.mp rest
    exact ⟨_, beginArray_iff.mp taken, rfl⟩
  | endObject =>
    obtain ⟨inside, rest⟩ := inContainer_iff.mp rest
    obtain ⟨_, taken, rfl⟩ := returns_iff.mp rest
    exact ⟨_, endObject_iff.mp taken, if_neg inside⟩
  | endArray =>
    obtain ⟨inside, rest⟩ := inContainer_iff.mp rest
    obtain ⟨_, taken, rfl⟩ := returns_iff.mp rest
    exact ⟨_, endArray_iff.mp taken, if_neg inside⟩
  | name =>
    obtain ⟨inside, rest⟩ := inContainer_iff.mp rest
    obtain ⟨text, taken, rfl⟩ := returns_iff.mp rest
    exact ⟨_, nextName_iff.mp taken, if_neg inside⟩
  | string =>
    obtain ⟨text, taken, rfl⟩ := returns_iff.mp rest
    rcases nextString_iff.mp taken with taken | ⟨literal, -, taken⟩
    · exact ⟨_, taken, rfl⟩
    · exact ⟨_, taken, rfl⟩
  | number =>
    -- The number is passed as it is spelled, whether it has a value or not.
    obtain ⟨literal, e, scanned, ended⟩ := bind_ok.mp rest
    obtain ⟨_, taken, rfl⟩ := returns_iff.mp ended
    exact ⟨_, (number_taken_iff _).mpr ⟨e, scanned, taken⟩, rfl⟩
  | bool value =>
    obtain ⟨value, taken, rfl⟩ := returns_iff.mp rest
    exact ⟨_, nextBool_iff.mp taken, rfl⟩
  | null =>
    obtain ⟨_, taken, rfl⟩ := returns_iff.mp rest
    exact ⟨_, nextNull_iff.mp taken, rfl⟩
  | endDocument => exact (refuse_iff.mp rest).elim

theorem skipToken_of_skipNext {depth : Nat} {c c' : Cursor} {next : Nat ⊕ Unit} {event : Event}
    (taken : event.Taken c c') (chosen : skipNext depth event = some next) :
    skipToken depth c = .ok next c' := by
  obtain ⟨d, look, -⟩ := id taken
  rw [← taken_looked look] at taken
  refine bind_ok.mpr ⟨event.seen, d, look, ?_⟩
  cases event with
  | beginObject =>
    exact returns_iff.mpr ⟨(), beginObject_iff.mpr taken, Option.some.inj chosen⟩
  | beginArray => exact returns_iff.mpr ⟨(), beginArray_iff.mpr taken, Option.some.inj chosen⟩
  | endObject =>
    obtain ⟨inside, chosen⟩ := Option.ite_none_left_eq_some.mp chosen
    exact inContainer_iff.mpr
      ⟨inside, returns_iff.mpr ⟨(), endObject_iff.mpr taken, Option.some.inj chosen⟩⟩
  | endArray =>
    obtain ⟨inside, chosen⟩ := Option.ite_none_left_eq_some.mp chosen
    exact inContainer_iff.mpr
      ⟨inside, returns_iff.mpr ⟨(), endArray_iff.mpr taken, Option.some.inj chosen⟩⟩
  | name text =>
    obtain ⟨inside, chosen⟩ := Option.ite_none_left_eq_some.mp chosen
    exact inContainer_iff.mpr
      ⟨inside, returns_iff.mpr ⟨text, nextName_iff.mpr taken, Option.some.inj chosen⟩⟩
  | string text =>
    exact returns_iff.mpr ⟨text, nextString_iff.mpr (.inl taken), Option.some.inj chosen⟩
  | number literal =>
    obtain ⟨e, scanned, ended⟩ := (number_taken_iff _).mp taken
    exact bind_ok.mpr ⟨literal, e, scanned, returns_iff.mpr ⟨(), ended, Option.some.inj chosen⟩⟩
  | bool value =>
    exact returns_iff.mpr ⟨value, nextBool_iff.mpr taken, Option.some.inj chosen⟩
  | null => exact returns_iff.mpr ⟨(), nextNull_iff.mpr taken, Option.some.inj chosen⟩

theorem skipToken_takesEvents : TakesEvents skipToken skipNext := by
  intro depth c next c'
  constructor
  · exact skipNext_of_skipToken
  · rintro ⟨event, taken, chosen⟩
    exact skipToken_of_skipNext taken chosen

/-! The step that takes a token. -/

def deliver? (value : Value) : List Frame → Option (List Frame ⊕ Value)
  | [] => some (.inr value)
  | .items done :: outer => some (.inl (.items (value :: done) :: outer))
  | .member done name :: outer =>
    if done.has name then none else some (.inl (.members ((name, value) :: done) :: outer))
  | .members done :: outer => some (.inl (.members done :: outer))

theorem deliver_items (value : Value) (done : List Value) (outer : List Frame) :
    deliver? value (.items done :: outer) = some (.inl (.items (value :: done) :: outer)) := rfl

/-- A name that is there already is refused once its value has ended. -/
theorem deliver_member (value : Value) (done : Members) (name : String) (outer : List Frame) :
    deliver? value (.member done name :: outer) =
      if done.has name then none else some (.inl (.members ((name, value) :: done) :: outer)) := rfl

theorem deliver_iff {value : Value} {frames : List Frame} {c c' : Cursor}
    {next : List Frame ⊕ Value} :
    deliver value frames c = .ok next c' ↔ deliver? value frames = some next ∧ c = c' := by
  unfold deliver deliver?
  split
  · simp [pure_ok]
  · simp [pure_ok]
  · rename_i done name outer
    by_cases repeated : done.has name = true
    · simp [repeated, fail_ok]
    · simp [repeated, pure_ok]
  · simp [pure_ok]

def readNext (frames : List Frame) (event : Event) : Option (List Frame ⊕ Value) :=
  match event, frames with
  | .beginObject, frames => some (.inl (.members [] :: frames))
  | .beginArray, frames => some (.inl (.items [] :: frames))
  | .endObject, .members done :: outer => deliver? (.object done.reverse) outer
  | .endArray, .items done :: outer => deliver? (.array done.reverse) outer
  | .name text, .members done :: outer => some (.inl (.member done text :: outer))
  | .string text, frames => deliver? (.string text) frames
  | .number literal, frames => literal.number?.bind fun number => deliver? (.number number) frames
  | .bool value, frames => deliver? (.bool value) frames
  | .null, frames => deliver? .null frames
  | _, _ => none

/-- A step that takes one event and hands on what it made of it. -/
theorem delivers_iff {x : Pull α} {made : α → Value} {frames : List Frame} {c c' : Cursor}
    {next : List Frame ⊕ Value} :
    (x >>= fun a => deliver (made a) frames) c = .ok next c' ↔
      ∃ a, x c = .ok a c' ∧ deliver? (made a) frames = some next := by
  simp only [bind_ok, deliver_iff]
  constructor
  · rintro ⟨a, _, ran, delivered, rfl⟩
    exact ⟨a, ran, delivered⟩
  · rintro ⟨a, ran, delivered⟩
    exact ⟨a, c', ran, delivered, rfl⟩

theorem readNext_of_readToken {frames : List Frame} {c c' : Cursor} {next : List Frame ⊕ Value}
    (ran : readToken frames c = .ok next c') :
    ∃ event : Event, event.Taken c c' ∧ readNext frames event = some next := by
  obtain ⟨seen, d, look, rest⟩ := bind_ok.mp ran
  simp only [← taken_looked look]
  split at rest
  · obtain ⟨_, taken, rfl⟩ := returns_iff.mp rest
    exact ⟨_, beginObject_iff.mp taken, rfl⟩
  · obtain ⟨_, taken, rfl⟩ := returns_iff.mp rest
    exact ⟨_, beginArray_iff.mp taken, rfl⟩
  · obtain ⟨_, taken, delivered⟩ := delivers_iff.mp rest
    exact ⟨_, endObject_iff.mp taken, delivered⟩
  · obtain ⟨_, taken, delivered⟩ := delivers_iff.mp rest
    exact ⟨_, endArray_iff.mp taken, delivered⟩
  · obtain ⟨text, taken, rfl⟩ := returns_iff.mp rest
    exact ⟨_, nextName_iff.mp taken, rfl⟩
  · obtain ⟨text, taken, delivered⟩ := delivers_iff.mp rest
    rcases nextString_iff.mp taken with taken | ⟨literal, -, taken⟩
    · exact ⟨_, taken, delivered⟩
    · -- A number may stand for a string, but a string is what has been seen.
      cases taken_seen (ahead_twice look) taken
  · obtain ⟨number, taken, delivered⟩ := delivers_iff.mp rest
    obtain ⟨literal, taken, denoted⟩ := nextNumber_iff.mp taken
    exact ⟨_, taken, by simp only [readNext, denoted, Option.bind_some, delivered]⟩
  · obtain ⟨value, taken, delivered⟩ := delivers_iff.mp rest
    exact ⟨_, nextBool_iff.mp taken, delivered⟩
  · obtain ⟨_, taken, delivered⟩ := delivers_iff.mp rest
    exact ⟨_, nextNull_iff.mp taken, delivered⟩
  · exact (refuse_iff.mp rest).elim

theorem readToken_of_readNext {frames : List Frame} {c c' : Cursor} {next : List Frame ⊕ Value}
    {event : Event} (taken : event.Taken c c') (chosen : readNext frames event = some next) :
    readToken frames c = .ok next c' := by
  obtain ⟨d, look, -⟩ := id taken
  rw [← taken_looked look] at taken
  refine bind_ok.mpr ⟨event.seen, d, look, ?_⟩
  unfold readNext at chosen
  split at chosen <;> simp only [Event.seen]
  · exact returns_iff.mpr ⟨(), beginObject_iff.mpr taken, Option.some.inj chosen⟩
  · exact returns_iff.mpr ⟨(), beginArray_iff.mpr taken, Option.some.inj chosen⟩
  · exact delivers_iff.mpr ⟨(), endObject_iff.mpr taken, chosen⟩
  · exact delivers_iff.mpr ⟨(), endArray_iff.mpr taken, chosen⟩
  · exact returns_iff.mpr ⟨_, nextName_iff.mpr taken, Option.some.inj chosen⟩
  · exact delivers_iff.mpr ⟨_, nextString_iff.mpr (.inl taken), chosen⟩
  · obtain ⟨number, denoted, delivered⟩ := Option.bind_eq_some_iff.mp chosen
    exact delivers_iff.mpr ⟨number, nextNumber_iff.mpr ⟨_, taken, denoted⟩, delivered⟩
  · exact delivers_iff.mpr ⟨_, nextBool_iff.mpr taken, chosen⟩
  · exact delivers_iff.mpr ⟨(), nextNull_iff.mpr taken, chosen⟩
  · cases chosen

theorem readToken_takesEvents : TakesEvents readToken readNext := by
  intro frames c next c'
  constructor
  · exact readNext_of_readToken
  · rintro ⟨event, taken, chosen⟩
    exact readToken_of_readNext taken chosen

/-! What is passed is a document. The loop knows only how many containers are open, so which end
belongs to which container comes from the scopes the reader has been through. -/

/-- Events passed inside an object end the object first. -/
def EndsObject (events : List Event) : Prop :=
  ∀ (depth : Nat) (c c' : Cursor) (scope : Scope) (outer : List Scope), c.ahead = none →
    c.scopes = scope :: outer → AtMember scope → Runs events c c' →
    consume skipNext (depth + 1) events = some () →
    ∃ members more, events = memberEvents members ++ more ∧
      resume skipNext more (whileOpen depth) = some ()

/-- Events passed inside an array end the array first. -/
def EndsArray (events : List Event) : Prop :=
  ∀ (depth : Nat) (c c' : Cursor) (scope : Scope) (outer : List Scope), c.ahead = none →
    c.scopes = scope :: outer → AtItem scope → Runs events c c' →
    consume skipNext (depth + 1) events = some () →
    ∃ items more, events = itemEvents items ++ more ∧
      resume skipNext more (whileOpen depth) = some ()

theorem value_first {event : Event} {rest : List Event} (members : EndsObject rest)
    (items : EndsArray rest) {depth : Nat} {c c' : Cursor} (starts : event.seen.starts = true)
    (runs : Runs (event :: rest) c c')
    (consumed : consume skipNext depth (event :: rest) = some ()) :
    ∃ document more, event :: rest = documentEvents document ++ more ∧
      resume skipNext more (whileOpen depth) = some () := by
  obtain ⟨d, taken, runs⟩ := runs
  rw [consume_cons] at consumed
  obtain ⟨m, -, leaves⟩ := taken
  obtain ⟨fresh, scopes⟩ := leaves_scopes leaves
  cases event with
  | beginObject =>
    obtain ⟨inside, more, rfl, resumed⟩ := members _ _ _ _ _ fresh scopes (.inl rfl) runs consumed
    exact ⟨.object inside, more, rfl, resumed⟩
  | beginArray =>
    obtain ⟨inside, more, rfl, resumed⟩ := items _ _ _ _ _ fresh scopes (.inl rfl) runs consumed
    exact ⟨.array inside, more, rfl, resumed⟩
  | string text => exact ⟨.string text, rest, rfl, consumed⟩
  | number literal => exact ⟨.number literal, rest, rfl, consumed⟩
  | bool value => exact ⟨.bool value, rest, rfl, consumed⟩
  | null => exact ⟨.null, rest, rfl, consumed⟩
  | endObject | endArray | name => cases starts

section Ends
variable {events : List Event}

/-- A member and its value are passed, and the rest of the members is shorter. -/
theorem ends_object
    (ih : ∀ shorter : List Event, shorter.length < events.length →
      EndsObject shorter ∧ EndsArray shorter) : EndsObject events := by
  intro depth c c' scope outer fresh shape member runs consumed
  obtain _ | ⟨event, rest⟩ := events
  · cases consumed
  obtain ⟨d, taken, runs⟩ := runs
  obtain ⟨moves, clear⟩ := moves_of_taken fresh shape taken
  rw [consume_cons] at consumed
  rcases moves_member moves member with ⟨rfl, -⟩ | ⟨text, rfl, left⟩
  · exact ⟨[], rest, rfl, consumed⟩
  obtain _ | ⟨second, rest⟩ := rest
  · cases consumed
  obtain ⟨e, valueTaken, -⟩ := id runs
  have starts : second.seen.starts = true :=
    value_after_name (moves_of_taken clear left valueTaken).1
  obtain ⟨inObject, inArray⟩ := ih rest (by simp only [List.length_cons]; omega)
  obtain ⟨document, more, split, resumed⟩ := value_first inObject inArray starts runs consumed
  rw [split] at runs
  obtain ⟨f, reads, runs⟩ := runs_append.mp runs
  obtain ⟨after, place, scopes, done⟩ := reads_scopes document clear left reads
  cases place
  -- The value takes an event at least, so the members left are fewer events.
  have shorter : more.length < (Event.name text :: second :: rest).length := by
    rw [split]
    simp only [List.length_cons, List.length_append]
    omega
  obtain ⟨members, last, rfl, finished⟩ :=
    (ih more shorter).1 depth f c' _ _ done scopes (.inr rfl) runs resumed
  refine ⟨(text, document) :: members, last, ?_, finished⟩
  rw [split, memberEvents]
  simp

theorem ends_array
    (ih : ∀ shorter : List Event, shorter.length < events.length →
      EndsObject shorter ∧ EndsArray shorter) : EndsArray events := by
  intro depth c c' scope outer fresh shape item runs consumed
  obtain _ | ⟨event, rest⟩ := events
  · cases consumed
  obtain ⟨d, taken, -⟩ := id runs
  rcases moves_item (moves_of_taken fresh shape taken).1 item with rfl | starts
  · rw [consume_cons] at consumed
    exact ⟨[], rest, rfl, consumed⟩
  obtain ⟨inObject, inArray⟩ := ih rest (by simp)
  obtain ⟨document, more, split, resumed⟩ := value_first inObject inArray starts runs consumed
  rw [split] at runs
  obtain ⟨f, reads, runs⟩ := runs_append.mp runs
  obtain ⟨after, place, scopes, done⟩ := reads_scopes document fresh shape reads
  have stays : AtItem after := by
    rcases item with rfl | rfl <;> cases place <;> exact .inr rfl
  have shorter : more.length < (event :: rest).length := by
    have some := List.length_pos_iff.mpr (documentEvents_ne_nil document)
    rw [split, List.length_append]
    omega
  obtain ⟨items, last, rfl, finished⟩ :=
    (ih more shorter).2 depth f c' _ _ done scopes stays runs resumed
  refine ⟨document :: items, last, ?_, finished⟩
  rw [split, itemEvents]
  simp

end Ends

/-- A value in a container may hold containers of the other kind, so both are ended together. -/
theorem runs_ends (events : List Event) : EndsObject events ∧ EndsArray events := by
  induction length : events.length using Nat.strongRecOn generalizing events with
  | ind n ih =>
    subst length
    have inner (shorter : List Event) (less : shorter.length < events.length) :
        EndsObject shorter ∧ EndsArray shorter := ih _ less shorter rfl
    exact ⟨ends_object inner, ends_array inner⟩

mutual
theorem consume_skip_document : ∀ (document : Document) (depth : Nat) (more : List Event),
    consume skipNext depth (documentEvents document ++ more) =
      resume skipNext more (whileOpen depth)
  | .null, _, _ | .bool _, _, _ | .number _, _, _ | .string _, _, _ => by
    rw [documentEvents, List.singleton_append, consume_cons]
    rfl
  | .array items, depth, more => by
    rw [documentEvents, List.cons_append, consume_cons]
    exact consume_skip_items items depth more
  | .object members, depth, more => by
    rw [documentEvents, List.cons_append, consume_cons]
    exact consume_skip_members members depth more

theorem consume_skip_items : ∀ (items : List Document) (depth : Nat) (more : List Event),
    consume skipNext (depth + 1) (itemEvents items ++ more) = resume skipNext more (whileOpen depth)
  | [], depth, more => by
    rw [itemEvents, List.singleton_append, consume_cons]
    rfl
  | item :: rest, depth, more => by
    rw [itemEvents, List.append_assoc, consume_skip_document item]
    exact consume_skip_items rest depth more

theorem consume_skip_members : ∀ (members : List (String × Document)) (depth : Nat)
    (more : List Event), consume skipNext (depth + 1) (memberEvents members ++ more) =
      resume skipNext more (whileOpen depth)
  | [], depth, more => by
    rw [memberEvents, List.singleton_append, consume_cons]
    rfl
  | (name, document) :: rest, depth, more => by
    rw [memberEvents, List.cons_append, consume_cons, List.append_assoc]
    show consume skipNext (depth + 1) _ = _
    rw [consume_skip_document document]
    exact consume_skip_members rest depth more
end

/-- A run that is passed as one value holds the events of one document. -/
theorem document_of_skipped {events : List Event} {c c' : Cursor} (runs : Runs events c c')
    (skipped : consume skipNext 0 events = some ()) :
    ∃ document, events = documentEvents document := by
  obtain _ | ⟨event, rest⟩ := events
  · cases skipped
  obtain ⟨inObject, inArray⟩ := runs_ends rest
  have starts : event.seen.starts = true := by cases event <;> first | rfl | cases skipped
  obtain ⟨document, more, split, resumed⟩ := value_first inObject inArray starts runs skipped
  simp only [whileOpen, if_true, resume, List.isEmpty_iff, Option.ite_none_right_eq_some] at resumed
  exact ⟨document, by rw [split, resumed.1, List.append_nil]⟩

theorem skipValue_iff {c c' : Cursor} {u : Unit} :
    skipValue c = .ok u c' ↔ ∃ document, Reads document c c' := by
  rw [skipValue, iterate_iff skipToken_takesEvents]
  constructor
  · rintro ⟨events, runs, skipped⟩
    obtain ⟨document, rfl⟩ := document_of_skipped runs skipped
    exact ⟨document, runs⟩
  · rintro ⟨document, reads⟩
    refine ⟨_, reads, ?_⟩
    have := consume_skip_document document 0 []
    rwa [List.append_nil] at this

/-- No document is the beginning of another. -/
theorem documentEvents_begin {left right : Document} {more : List Event}
    (split : documentEvents left ++ more = documentEvents right) : more = [] := by
  have first := consume_skip_document left 0 more
  have second := consume_skip_document right 0 []
  rw [split, ← List.append_nil (documentEvents right), second] at first
  cases more with
  | nil => rfl
  | cons => cases first

/-- From one place one document is read. -/
theorem reads_end {left right : Document} {c d e : Cursor} (first : Reads left c d)
    (second : Reads right c e) : d = e := by
  have same : documentEvents left = documentEvents right := by
    obtain ⟨more, split | split⟩ := runs_comparable first second
    · rw [documentEvents_begin split, List.append_nil] at split
      exact split
    · rw [documentEvents_begin split, List.append_nil] at split
      exact split.symm
  rw [Reads, same] at first
  exact runs_deterministic first second

/-! What is taken is the value of a document. -/

/-- How many containers are open after a step. -/
def openCount : List Frame ⊕ Value → Nat ⊕ Unit
  | .inl frames => .inl frames.length
  | .inr _ => .inr ()

theorem deliver_openCount {value : Value} {frames : List Frame} {chosen : List Frame ⊕ Value}
    (delivered : deliver? value frames = some chosen) :
    openCount chosen = whileOpen frames.length := by
  unfold deliver? at delivered
  split at delivered
  · cases delivered
    rfl
  · cases delivered
    rfl
  · split at delivered <;> cases delivered
    rfl
  · cases delivered
    rfl

theorem readNext_openCount {frames : List Frame} {event : Event} {chosen : List Frame ⊕ Value}
    (read : readNext frames event = some chosen) :
    skipNext frames.length event = some (openCount chosen) := by
  unfold readNext at read
  split at read
  case h_1 | h_2 | h_5 =>
    cases read
    rfl
  case h_3 | h_4 => exact congrArg some (deliver_openCount read).symm
  case h_6 | h_8 | h_9 => exact congrArg some (deliver_openCount read).symm
  case h_7 =>
    obtain ⟨number, -, delivered⟩ := Option.bind_eq_some_iff.mp read
    exact congrArg some (deliver_openCount delivered).symm
  case h_10 => cases read

/-- Whatever is taken could have been passed. -/
theorem consume_skip_of_read {events : List Event} {frames : List Frame} {value : Value}
    (read : consume readNext frames events = some value) :
    consume skipNext frames.length events = some () := by
  induction events generalizing frames with
  | nil => cases read
  | cons event rest ih =>
    rw [consume_cons] at read ⊢
    obtain ⟨chosen, found, resumed⟩ := Option.bind_eq_some_iff.mp read
    rw [readNext_openCount found, Option.bind_some]
    cases chosen with
    | inl inner => exact ih resumed
    | inr last =>
      simp only [resume, Option.ite_none_right_eq_some] at resumed
      simp [openCount, resume, resumed.1]

theorem has_iff {members : Members} {name : String} :
    members.has name = true ↔ name ∈ members.map Prod.fst := by
  simp [Members.has]

/-- Once a name is repeated, no rest of the object makes the names distinct. -/
theorem never_distinct {done : Members} {name : String} (repeated : name ∈ done.map Prod.fst)
    (value : Value) (values : Members) :
    ¬((done.reverse ++ (name, value) :: values).map Prod.fst).Nodup := by
  intro apart
  rw [List.map_append, List.nodup_append] at apart
  exact apart.2.2 name (by simpa using repeated) name (by simp) rfl

mutual
theorem consume_read_document : ∀ (document : Document) (frames : List Frame) (more : List Event),
    consume readNext frames (documentEvents document ++ more) =
      document.value?.bind fun value => (deliver? value frames).bind (resume readNext more)
  | .null, _, _ | .bool _, _, _ | .string _, _, _ => by
    rw [documentEvents, List.singleton_append, consume_cons]
    rfl
  | .number literal, frames, more => by
    rw [documentEvents, List.singleton_append, consume_cons, Document.value?, readNext]
    cases literal.number? <;> rfl
  | .array items, frames, more => by
    rw [documentEvents, List.cons_append, consume_cons]
    show consume readNext (.items [] :: frames) _ = _
    rw [consume_read_items items, Document.value?]
    cases Document.itemValues? items <;> rfl
  | .object members, frames, more => by
    rw [documentEvents, List.cons_append, consume_cons]
    show consume readNext (.members [] :: frames) _ = _
    rw [consume_read_members members [] frames more List.nodup_nil, Document.value?]
    cases Document.memberValues? members with
    | none => rfl
    | some values =>
      by_cases distinct : (values.map Prod.fst).Nodup
      · simp [distinct]
      · simp [distinct]

theorem consume_read_items : ∀ (items : List Document) (done : List Value) (frames : List Frame)
    (more : List Event), consume readNext (.items done :: frames) (itemEvents items ++ more) =
      (Document.itemValues? items).bind fun values =>
        (deliver? (.array (done.reverse ++ values)) frames).bind (resume readNext more)
  | [], done, frames, more => by
    rw [itemEvents, List.singleton_append, consume_cons, Document.itemValues?]
    simp [readNext]
  | item :: rest, done, frames, more => by
    rw [itemEvents, List.append_assoc, consume_read_document item, Document.itemValues?]
    cases item.value? with
    | none => rfl
    | some value =>
      simp only [deliver_items, Option.bind_some, resume]
      rw [consume_read_items rest]
      cases Document.itemValues? rest <;> simp

theorem consume_read_members : ∀ (members : List (String × Document)) (done : Members)
    (frames : List Frame) (more : List Event), (done.map Prod.fst).Nodup →
    consume readNext (.members done :: frames) (memberEvents members ++ more) =
      (Document.memberValues? members).bind fun values =>
        if ((done.reverse ++ values).map Prod.fst).Nodup then
          (deliver? (.object (done.reverse ++ values)) frames).bind (resume readNext more)
        else none
  | [], done, frames, more, distinct => by
    rw [memberEvents, List.singleton_append, consume_cons, Document.memberValues?]
    have apart : ((done.reverse ++ []).map Prod.fst).Nodup := by
      rw [List.append_nil, List.map_reverse]
      exact (List.reverse_perm _).nodup_iff.mpr distinct
    rw [Option.bind_some, if_pos apart, List.append_nil]
    rfl
  | (name, document) :: rest, done, frames, more, distinct => by
    rw [memberEvents, List.cons_append, consume_cons, List.append_assoc, Document.memberValues?]
    show consume readNext (.member done name :: frames) _ = _
    rw [consume_read_document document]
    cases document.value? with
    | none => rfl
    | some value =>
      simp only [deliver_member, Option.bind_some]
      by_cases repeated : name ∈ done.map Prod.fst
      · -- Taking stops at the repeated name, and with it in place the object has no value.
        rw [if_pos (has_iff.mpr repeated)]
        cases Document.memberValues? rest with
        | none => rfl
        | some values =>
          simp only [Option.bind_some, Option.map_some, Option.bind_none,
            if_neg (never_distinct repeated value values)]
      · rw [if_neg (mt has_iff.mp repeated)]
        simp only [Option.bind_some, resume]
        have apart : (((name, value) :: done).map Prod.fst).Nodup :=
          List.nodup_cons.mpr ⟨repeated, distinct⟩
        rw [consume_read_members rest _ _ _ apart]
        cases Document.memberValues? rest <;> simp
end

theorem readValue_iff {c c' : Cursor} {value : Value} :
    readValue c = .ok value c' ↔
      ∃ document, Reads document c c' ∧ document.value? = some value := by
  have taken (document : Document) :
      consume readNext [] (documentEvents document) = document.value? := by
    have := consume_read_document document [] []
    rw [List.append_nil] at this
    rw [this]
    cases document.value? <;> rfl
  rw [readValue, iterate_iff readToken_takesEvents]
  constructor
  · rintro ⟨events, runs, read⟩
    -- What the events are is known from passing them, and what they come to from taking them.
    obtain ⟨document, rfl⟩ := document_of_skipped runs (consume_skip_of_read read)
    exact ⟨document, runs, (taken document).symm.trans read⟩
  · rintro ⟨document, reads, denoted⟩
    exact ⟨_, reads, (taken document).trans denoted⟩

end TaggedJson.Pull
