import TaggedJson.Proofs.Reference
/-! Any calls of a reader that succeed and end with the end of the text have been about a document
that the text spells. What they answered and what they passed are its events, each once and in
order. -/
namespace TaggedJson.Pull
open Json (Document Scope Spells Value)

/-! What can be read to the end is one document. -/

/-- So many containers are open, on top of scopes as they may be below. -/
def OpenOn (below : List Scope → Prop) : Nat → List Scope → Prop
  | 0, scopes => below scopes
  | depth + 1, scopes => ∃ scope outer, scopes = scope :: outer ∧
      scope ≠ .documentStart ∧ scope ≠ .documentEnd ∧ OpenOn below depth outer

/-- The document has begun and so many containers are open in it. -/
def Open : Nat → List Scope → Prop := OpenOn (· = [.documentEnd])

theorem scalar_passed {event : Event} (single : event.isScalar = true) (depth : Nat) :
    skipNext depth event = some (whileOpen depth) := by
  cases event <;> first | rfl | cases single

section OpenOn
variable {below : List Scope → Prop} {depth : Nat}

/-- A container in which a value has been passed is still open. -/
theorem OpenOn.past {scope after : Scope} {outer : List Scope}
    (opened : OpenOn below (depth + 1) (scope :: outer)) (place : afterValue scope = some after) :
    OpenOn below (depth + 1) (after :: outer) := by
  obtain ⟨_, _, ⟨⟩, start, -, inside⟩ := opened
  refine ⟨_, _, rfl, ?_, ?_, inside⟩ <;> cases scope <;> cases place <;> simp at start ⊢

/-- An event is passed where a container is open, and it may open one more or close it. -/
theorem OpenOn.moves {event : Event} {before after : List Scope}
    (opened : OpenOn below (depth + 1) before) (moves : event.Moves before after) :
    ∃ next, skipNext (depth + 1) event = some (whileOpen next) ∧ OpenOn below next after := by
  cases moves with
  | beginObject place | beginArray place =>
    exact ⟨_, rfl, _, _, rfl, nofun, nofun, opened.past place⟩
  | scalar place single => exact ⟨_, scalar_passed single _, opened.past place⟩
  | name =>
    obtain ⟨_, _, ⟨⟩, -, -, inside⟩ := opened
    exact ⟨_, rfl, _, _, rfl, nofun, nofun, inside⟩
  | endObject | endArray =>
    obtain ⟨_, _, ⟨⟩, -, -, inside⟩ := opened
    exact ⟨_, rfl, inside⟩

end OpenOn

theorem moves_open {event : Event} {before after : List Scope} {depth : Nat}
    (moves : event.Moves before after) (opened : Open depth before) :
    depth ≠ 0 ∧ ∃ next, skipNext depth event = some (whileOpen next) ∧ Open next after := by
  cases depth with
  | succ depth => exact ⟨nofun, OpenOn.moves opened moves⟩
  | zero =>
    -- Nothing follows the document.
    cases opened
    cases moves with
    | beginObject place | beginArray place | scalar place => cases place
    | name member | endObject member | endArray member => rcases member with h | h <;> cases h

theorem expectEnd_ahead {c c' : Cursor} {u : Unit} :
    expectEnd c = .ok u c' ↔ ahead c = .ok .endDocument c' := by
  unfold expectEnd
  cases looked : ahead c with
  | error => simp
  | ok seen d =>
    simp only [EStateM.Result.ok.injEq]
    by_cases done : seen = .endDocument
    · rw [if_pos done]
      simp [done]
    · simp [done]

theorem ended_scopes {c c' : Cursor} (fresh : c.ahead = none) (ended : expectEnd c = .ok () c') :
    c.scopes.head? = some .documentEnd ∨ c.scopes = [] := by
  obtain ⟨e, looked, -⟩ := (ahead_fresh fresh).mp (expectEnd_ahead.mp ended)
  have sees := look_sees looked
  generalize c.scopes = before, e.scopes = after at sees ⊢
  cases sees with
  | value _ starts => cases starts
  | endDocument done => exact done

/-- Where the text may end, the events have closed what was open. -/
theorem resume_open {events : List Event} {depth : Nat} {c c' last : Cursor}
    (fresh : c.ahead = none) (opened : Open depth c.scopes) (runs : Runs events c c')
    (ended : expectEnd c' = .ok () last) :
    resume skipNext events (whileOpen depth) = some () := by
  induction events generalizing depth c with
  | nil =>
    cases runs
    cases depth with
    | zero => rfl
    | succ depth =>
      -- A container that is still open is not the end.
      obtain ⟨scope, outer, shape, -, inside, -⟩ := opened
      rcases ended_scopes fresh ended with head | none
      · rw [shape] at head
        cases head
        exact (inside rfl).elim
      · rw [shape] at none
        cases none
  | cons event rest ih =>
    obtain ⟨d, taken, more⟩ := runs
    obtain ⟨moves, clear⟩ := taken_moves fresh taken
    obtain ⟨inside, next, passed, opened⟩ := moves_open moves opened
    rw [whileOpen, if_neg inside, resume, consume_cons, passed, Option.bind_some]
    exact ih clear opened more

/-- The first event begins the value of the document. -/
theorem moves_start {event : Event} {after : List Scope}
    (moves : event.Moves [.documentStart] after) :
    ∃ next, skipNext 0 event = some (whileOpen next) ∧ Open next after := by
  cases moves with
  | beginObject place | beginArray place =>
    cases place
    exact ⟨1, rfl, _, _, rfl, nofun, nofun, rfl⟩
  | scalar place single =>
    cases place
    exact ⟨0, scalar_passed single 0, rfl⟩
  | name member | endObject member | endArray member => rcases member with h | h <;> cases h

theorem document_of_ended {text : String} {events : List Event} {c last : Cursor}
    (runs : Runs events (Cursor.ofText text) c) (ended : expectEnd c = .ok () last) :
    ∃ document, events = documentEvents document := by
  cases events with
  | nil =>
    cases runs
    rcases ended_scopes rfl ended with none | none <;> cases none
  | cons event rest =>
    obtain ⟨d, taken, more⟩ := id runs
    obtain ⟨moves, clear⟩ := taken_moves rfl taken
    obtain ⟨next, passed, opened⟩ := moves_start moves
    apply document_of_skipped runs
    rw [consume_cons, passed, Option.bind_some]
    exact resume_open clear opened more ended

/-! What is left of a text. -/

/-- The events still to come before the end of the text. -/
def Remains (events : List Event) (c : Cursor) : Prop :=
  ∃ d, Runs events c d ∧ ∃ last, expectEnd d = .ok () last

theorem remains_text {text : String} {events : List Event} :
    Remains events (Cursor.ofText text) ↔ ∃ document, Spells text document ∧
      document.depth ≤ depthLimit ∧ events = documentEvents document := by
  constructor
  · rintro ⟨c, runs, last, ended⟩
    obtain ⟨document, rfl⟩ := document_of_ended runs ended
    obtain ⟨spells, shallow⟩ := reads_text.mp ⟨c, runs, last, ended⟩
    exact ⟨document, spells, shallow, rfl⟩
  · rintro ⟨document, spells, shallow, rfl⟩
    exact reads_text.mpr ⟨spells, shallow⟩

theorem remains_append {taken rest : List Event} {c : Cursor} :
    Remains (taken ++ rest) c ↔ ∃ d, Runs taken c d ∧ Remains rest d := by
  simp only [Remains, runs_append]
  constructor
  · rintro ⟨e, ⟨d, first, second⟩, ended⟩
    exact ⟨d, first, e, second, ended⟩
  · rintro ⟨d, first, e, second, ended⟩
    exact ⟨e, ⟨d, first, second⟩, ended⟩

theorem remains_nil {c : Cursor} : Remains [] c ↔ ∃ last, expectEnd c = .ok () last := by
  simp [Remains, Runs]

theorem looks_expectEnd : Looks expectEnd := fun _ _ _ look => by
  simp only [expectEnd, look, ahead_twice look]

/-- Looking ahead takes nothing. -/
theorem remains_looked {events : List Event} {c d : Cursor} {seen : Ahead}
    (look : ahead c = .ok seen d) : Remains events d ↔ Remains events c := by
  cases events with
  | nil => rw [remains_nil, remains_nil, looks_expectEnd c seen d look]
  | cons event rest => simp only [Remains, runs_looked (List.cons_ne_nil event rest) look]

/-- The token ahead of the events to come. -/
def nextAhead : List Event → Ahead
  | [] => .endDocument
  | event :: _ => event.seen

theorem remains_ahead {events : List Event} {c : Cursor} (remains : Remains events c) :
    ∃ d, ahead c = .ok (nextAhead events) d := by
  cases events with
  | nil =>
    obtain ⟨last, ended⟩ := remains_nil.mp remains
    exact ⟨last, expectEnd_ahead.mp ended⟩
  | cons event rest =>
    obtain ⟨_, ⟨_, ⟨d, look, -⟩, -⟩, -⟩ := remains
    exact ⟨d, look⟩

/-- What can be taken next is the first of the events to come. -/
theorem remains_first {event : Event} {rest : List Event} {c d : Cursor} (taken : event.Taken c d)
    (remains : Remains rest c) : ∃ more, rest = event :: more := by
  cases rest with
  | nil =>
    obtain ⟨m, look, -⟩ := taken
    obtain ⟨_, next⟩ := remains_ahead remains
    rw [look] at next
    cases event <;> cases next
  | cons other more =>
    obtain ⟨_, ⟨_, first, -⟩, -⟩ := remains
    obtain ⟨rfl, -⟩ := taken_unique taken first
    exact ⟨more, rfl⟩

/-! What is to come, whether or not all of it can be taken. -/

/-- Whatever is read from here on begins the events, and a look finds the next of them. -/
def Foretells (events : List Event) (c : Cursor) : Prop :=
  ∀ taken d, Runs taken c d →
    ∃ rest, events = taken ++ rest ∧ ∃ e, ahead d = .ok (nextAhead rest) e

theorem Remains.foretells {events : List Event} {c : Cursor} (remains : Remains events c) :
    Foretells events c := by
  intro taken
  induction taken generalizing events c with
  | nil =>
    rintro d ⟨⟩
    exact ⟨events, rfl, remains_ahead remains⟩
  | cons event later ih =>
    rintro d ⟨m, first, runs⟩
    obtain ⟨more, rfl⟩ := remains_first first remains
    obtain ⟨_, ⟨n, same, others⟩, ended⟩ := remains
    obtain ⟨-, rfl⟩ := taken_unique same first
    obtain ⟨rest, rfl, next⟩ := ih ⟨_, others, ended⟩ d runs
    exact ⟨rest, rfl, next⟩

section Foretells
variable {events : List Event} {c d : Cursor}

/-- What has been taken is behind, and what follows it is to come. -/
theorem Foretells.after (foretells : Foretells events c) {taken : List Event}
    (runs : Runs taken c d) : ∃ rest, events = taken ++ rest ∧ Foretells rest d := by
  obtain ⟨rest, rfl, -⟩ := foretells taken d runs
  refine ⟨rest, rfl, fun more e further => ?_⟩
  obtain ⟨last, split, next⟩ := foretells (taken ++ more) e (runs_append.mpr ⟨d, runs, further⟩)
  rw [List.append_assoc] at split
  exact ⟨last, List.append_cancel_left split, next⟩

theorem Foretells.ahead (foretells : Foretells events c) :
    ∃ d, ahead c = .ok (nextAhead events) d := by
  obtain ⟨_, rfl, next⟩ := foretells [] c rfl
  exact next

theorem Foretells.seen (foretells : Foretells events c) {seen : Ahead}
    (look : Pull.ahead c = .ok seen d) : seen = nextAhead events := by
  obtain ⟨_, next⟩ := foretells.ahead
  rw [look] at next
  cases next
  rfl

theorem Foretells.first (foretells : Foretells events c) {event : Event}
    (taken : event.Taken c d) : ∃ more, events = event :: more := by
  obtain ⟨more, split, -⟩ := foretells [event] d (runs_singleton.mpr taken)
  exact ⟨more, split⟩

theorem Foretells.done (foretells : Foretells events c)
    (look : Pull.ahead c = .ok .endDocument d) : events = [] := by
  have seen := foretells.seen look
  cases events with
  | nil => rfl
  | cons event more => cases event <;> cases seen

end Foretells

/-! Calls and their answers. -/

/-- An operation of the reader. -/
inductive Call where
  | peek
  | hasNext
  | beginObject
  | endObject
  | beginArray
  | endArray
  | nextName
  | selectName (names : List String)
  | skipName
  | skipValue
  | readValue
  | nextString
  | nextBool
  | nextNull
  | nextDouble
  | nextInt64
  | expectEnd

inductive Answer where
  | done
  | token (token : Token)
  | truth (value : Bool)
  | text (text : String)
  | choice (position : Option Nat)
  | double (value : Binary64)
  | integer (value : Int)
  | value (value : Value)

def Call.run : Call → Pull Answer
  | .peek => do return .token (← Pull.peek)
  | .hasNext => do return .truth (← Pull.hasNext)
  | .beginObject => do Pull.beginObject; return .done
  | .endObject => do Pull.endObject; return .done
  | .beginArray => do Pull.beginArray; return .done
  | .endArray => do Pull.endArray; return .done
  | .nextName => do return .text (← Pull.nextName)
  | .selectName names => do return .choice (← Pull.selectName names)
  | .skipName => do Pull.skipName; return .done
  | .skipValue => do Pull.skipValue; return .done
  | .readValue => do return .value (← Pull.readValue)
  | .nextString => do return .text (← Pull.nextString)
  | .nextBool => do return .truth (← Pull.nextBool)
  | .nextNull => do Pull.nextNull; return .done
  | .nextDouble => do return .double (← Pull.nextDouble)
  | .nextInt64 => do return .integer (← Pull.nextInt64)
  | .expectEnd => do Pull.expectEnd; return .done

/-- Calls one after the other, up to the first that fails. -/
def runCalls : List Call → Pull (List Answer)
  | [] => return []
  | call :: rest => do
    let answer ← call.run
    let answers ← runCalls rest
    return answer :: answers

/-- What a call hands over or passes when it gives the answer. -/
inductive Call.Takes : Call → Answer → List Event → Prop
  | beginObject : Takes .beginObject .done [.beginObject]
  | endObject : Takes .endObject .done [.endObject]
  | beginArray : Takes .beginArray .done [.beginArray]
  | endArray : Takes .endArray .done [.endArray]
  | nextName {text : String} : Takes .nextName (.text text) [.name text]
  | selectName {names : List String} {text : String} {position : Nat}
    (found : names.findIdx? (· == text) = some position) :
    Takes (.selectName names) (.choice (some position)) [.name text]
  | skipName {text : String} : Takes .skipName .done [.name text]
  | skipValue {document : Document} : Takes .skipValue .done (documentEvents document)
  | readValue {document : Document} {value : Value} (denoted : document.value? = some value) :
    Takes .readValue (.value value) (documentEvents document)
  | nextString {text : String} : Takes .nextString (.text text) [.string text]
  | numeric {literal : Json.NumberLiteral} :
    Takes .nextString (.text literal.text) [.number literal]
  | nextBool {value : Bool} : Takes .nextBool (.truth value) [.bool value]
  | nextNull : Takes .nextNull .done [.null]
  | nextDouble {literal : Json.NumberLiteral} :
    Takes .nextDouble (.double literal.toBinary64) [.number literal]
  | nextInt64 {literal : Json.NumberLiteral} {value : Int}
    (denoted : int64Of? literal = some value) : Takes .nextInt64 (.integer value) [.number literal]

/-- Whether there is another member or item before the end of what is being read. -/
def goesOn : List Event → Bool
  | [] | .endObject :: _ | .endArray :: _ => false
  | _ => true

/-- What a call that takes nothing tells of the events to come. -/
inductive Call.Sees : Call → Answer → List Event → Prop
  | peek {rest : List Event} : Sees .peek (.token (nextAhead rest).token) rest
  | hasNext {rest : List Event} : Sees .hasNext (.truth (goesOn rest)) rest
  | selectName {names : List String} {text : String} {rest : List Event} (other : text ∉ names) :
    Sees (.selectName names) (.choice none) (.name text :: rest)
  | expectEnd : Sees .expectEnd .done []

/-- The answers of calls that take the events one after the other until none is left. -/
inductive Answered : List Call → List Answer → List Event → Prop
  | nil : Answered [] [] []
  | takes {call : Call} {answer : Answer} {calls : List Call} {answers : List Answer}
    {taken rest : List Event} (one : call.Takes answer taken)
    (more : Answered calls answers rest) :
    Answered (call :: calls) (answer :: answers) (taken ++ rest)
  | sees {call : Call} {answer : Answer} {calls : List Call} {answers : List Answer}
    {rest : List Event} (one : call.Sees answer rest) (more : Answered calls answers rest) :
    Answered (call :: calls) (answer :: answers) rest

/-! What one call does. -/

theorem goesOn_eq (events : List Event) : goesOn events =
    (nextAhead events != .endObject && nextAhead events != .endArray &&
      nextAhead events != .endDocument) := by
  cases events with
  | nil => rfl
  | cons event rest => cases event <;> rfl

theorem selectName_named {names : List String} {c d : Cursor} {found : Option Nat}
    (ran : selectName names c = .ok found d) : ∃ text c', (Event.name text).Taken c c' := by
  unfold selectName at ran
  cases look : ahead c with
  | error e m =>
    rw [look] at ran
    cases ran
  | ok seen m =>
    simp only [look] at ran
    by_cases named : seen = .name
    · subst named
      cases scanned : scanString m.place with
      | error fault =>
        simp only [scanned] at ran
        cases ran
      | ok read =>
        refine ⟨read.1, _, m, look, { m with ahead := none, place := read.2 }, ?_, rfl⟩
        simp only [takeLexeme, scanned]
    · rw [if_neg named] at ran
      cases ran

theorem nextDouble_iff {c c' : Cursor} {value : Binary64} :
    nextDouble c = .ok value c' ↔ ∃ literal : Json.NumberLiteral,
      (Event.number literal).Taken c c' ∧ literal.toBinary64 = value := by
  simp only [number_taken_iff .double]
  constructor
  · intro ran
    obtain ⟨literal, d, scanned, rest⟩ := bind_ok.mp ran
    obtain ⟨_, ended, rfl⟩ := returns_iff.mp rest
    exact ⟨literal, ⟨d, scanned, ended⟩, rfl⟩
  · rintro ⟨literal, ⟨d, scanned, ended⟩, rfl⟩
    exact bind_ok.mpr ⟨literal, d, scanned, returns_iff.mpr ⟨(), ended, rfl⟩⟩

theorem nextInt64_iff {c c' : Cursor} {value : Int} :
    nextInt64 c = .ok value c' ↔ ∃ literal : Json.NumberLiteral,
      (Event.number literal).Taken c c' ∧ int64Of? literal = some value := by
  simp only [number_taken_iff .int]
  constructor
  · intro ran
    obtain ⟨literal, d, scanned, rest⟩ := bind_ok.mp ran
    cases denoted : int64Of? literal with
    | none =>
      rw [denoted] at rest
      exact (fail_ok.mp rest).elim
    | some found =>
      rw [denoted] at rest
      obtain ⟨_, ended, rfl⟩ := returns_iff.mp rest
      exact ⟨literal, ⟨d, scanned, ended⟩, denoted⟩
  · rintro ⟨literal, ⟨d, scanned, ended⟩, denoted⟩
    apply bind_ok.mpr
    refine ⟨literal, d, scanned, ?_⟩
    rw [denoted]
    exact returns_iff.mpr ⟨(), ended, rfl⟩

/-- A call that succeeds has taken what its answer is about, or it has only looked ahead. -/
theorem run_cases {call : Call} {answer : Answer} {c c' : Cursor}
    (ran : call.run c = .ok answer c') :
    (∃ taken, Runs taken c c' ∧ call.Takes answer taken) ∨
      (∃ seen, ahead c = .ok seen c') ∧ ∀ rest, Foretells rest c → call.Sees answer rest := by
  have one {event : Event} (taken : event.Taken c c') (takes : call.Takes answer [event]) :
      ∃ taken, Runs taken c c' ∧ call.Takes answer taken :=
    ⟨[event], runs_singleton.mpr taken, takes⟩
  cases call with
  | peek =>
    obtain ⟨token, went, rfl⟩ := returns_iff.mp ran
    obtain ⟨seen, look, rfl⟩ := Hierarchy.peek_iff.mp went
    refine .inr ⟨⟨seen, look⟩, fun rest foretells => ?_⟩
    rw [foretells.seen look]
    exact .peek
  | hasNext =>
    obtain ⟨next, went, rfl⟩ := returns_iff.mp ran
    obtain ⟨seen, look, rfl⟩ := hasNext_iff.mp went
    refine .inr ⟨⟨seen, look⟩, fun rest foretells => ?_⟩
    rw [foretells.seen look, ← goesOn_eq]
    exact .hasNext
  | selectName names =>
    obtain ⟨found, went, rfl⟩ := returns_iff.mp ran
    obtain ⟨text, d, taken⟩ := selectName_named went
    obtain ⟨same, left⟩ := (selectName_iff taken).mp went
    cases found with
    | some position =>
      cases left
      exact .inl (one taken (.selectName same.symm))
    | none =>
      refine .inr ⟨⟨.name, left⟩, fun rest foretells => ?_⟩
      have other : text ∉ names := by simpa using List.findIdx?_eq_none_iff.mp same.symm text
      obtain ⟨more, rfl⟩ := foretells.first taken
      exact .selectName other
  | expectEnd =>
    obtain ⟨_, went, rfl⟩ := returns_iff.mp ran
    have look := expectEnd_ahead.mp went
    refine .inr ⟨⟨.endDocument, look⟩, fun rest foretells => ?_⟩
    rw [foretells.done look]
    exact .expectEnd
  | beginObject =>
    obtain ⟨_, went, rfl⟩ := returns_iff.mp ran
    exact .inl (one (beginObject_iff.mp went) .beginObject)
  | endObject =>
    obtain ⟨_, went, rfl⟩ := returns_iff.mp ran
    exact .inl (one (endObject_iff.mp went) .endObject)
  | beginArray =>
    obtain ⟨_, went, rfl⟩ := returns_iff.mp ran
    exact .inl (one (beginArray_iff.mp went) .beginArray)
  | endArray =>
    obtain ⟨_, went, rfl⟩ := returns_iff.mp ran
    exact .inl (one (endArray_iff.mp went) .endArray)
  | nextName =>
    obtain ⟨text, went, rfl⟩ := returns_iff.mp ran
    exact .inl (one (nextName_iff.mp went) .nextName)
  | skipName =>
    obtain ⟨_, went, rfl⟩ := returns_iff.mp ran
    obtain ⟨text, taken, -⟩ := skipName_iff.mp went
    exact .inl (one taken .skipName)
  | skipValue =>
    obtain ⟨_, went, rfl⟩ := returns_iff.mp ran
    obtain ⟨document, reads⟩ := skipValue_iff.mp went
    exact .inl ⟨_, reads, .skipValue⟩
  | readValue =>
    obtain ⟨value, went, rfl⟩ := returns_iff.mp ran
    obtain ⟨document, reads, denoted⟩ := readValue_iff.mp went
    exact .inl ⟨_, reads, .readValue denoted⟩
  | nextString =>
    obtain ⟨text, went, rfl⟩ := returns_iff.mp ran
    rcases nextString_iff.mp went with taken | ⟨literal, rfl, taken⟩
    · exact .inl (one taken .nextString)
    · exact .inl (one taken .numeric)
  | nextBool =>
    obtain ⟨value, went, rfl⟩ := returns_iff.mp ran
    exact .inl (one (nextBool_iff.mp went) .nextBool)
  | nextNull =>
    obtain ⟨_, went, rfl⟩ := returns_iff.mp ran
    exact .inl (one (nextNull_iff.mp went) .nextNull)
  | nextDouble =>
    obtain ⟨value, went, rfl⟩ := returns_iff.mp ran
    obtain ⟨literal, taken, rfl⟩ := nextDouble_iff.mp went
    exact .inl (one taken .nextDouble)
  | nextInt64 =>
    obtain ⟨value, went, rfl⟩ := returns_iff.mp ran
    obtain ⟨literal, taken, denoted⟩ := nextInt64_iff.mp went
    exact .inl (one taken (.nextInt64 denoted))

/-- Where no name fails, a call takes whatever it can take. -/
theorem run_of_takes {call : Call} {answer : Answer} {taken : List Event} {c c' : Cursor}
    (lenient : c.failOnUnknown = false) (runs : Runs taken c c') (takes : call.Takes answer taken) :
    call.run c = .ok answer c' := by
  have one {event : Event} (single : taken = [event]) : event.Taken c c' :=
    runs_singleton.mp (single ▸ runs)
  cases takes with
  | beginObject => exact returns_iff.mpr ⟨(), beginObject_iff.mpr (one rfl), rfl⟩
  | endObject => exact returns_iff.mpr ⟨(), endObject_iff.mpr (one rfl), rfl⟩
  | beginArray => exact returns_iff.mpr ⟨(), beginArray_iff.mpr (one rfl), rfl⟩
  | endArray => exact returns_iff.mpr ⟨(), endArray_iff.mpr (one rfl), rfl⟩
  | nextName => exact returns_iff.mpr ⟨_, nextName_iff.mpr (one rfl), rfl⟩
  | selectName found =>
    exact returns_iff.mpr ⟨_, (selectName_iff (one rfl)).mpr ⟨found.symm, rfl⟩, rfl⟩
  | @skipName text =>
    have lenient : c'.failOnUnknown = false := (runs_frame runs).1.trans lenient
    exact returns_iff.mpr ⟨(), skipName_iff.mpr ⟨text, one rfl, by rw [lenient]; rfl⟩, rfl⟩
  | skipValue => exact returns_iff.mpr ⟨(), skipValue_iff.mpr ⟨_, runs⟩, rfl⟩
  | readValue denoted => exact returns_iff.mpr ⟨_, readValue_iff.mpr ⟨_, runs, denoted⟩, rfl⟩
  | nextString => exact returns_iff.mpr ⟨_, nextString_iff.mpr (.inl (one rfl)), rfl⟩
  | numeric => exact returns_iff.mpr ⟨_, nextString_iff.mpr (.inr ⟨_, rfl, one rfl⟩), rfl⟩
  | nextBool => exact returns_iff.mpr ⟨_, nextBool_iff.mpr (one rfl), rfl⟩
  | nextNull => exact returns_iff.mpr ⟨(), nextNull_iff.mpr (one rfl), rfl⟩
  | nextDouble => exact returns_iff.mpr ⟨_, nextDouble_iff.mpr ⟨_, one rfl, rfl⟩, rfl⟩
  | nextInt64 denoted => exact returns_iff.mpr ⟨_, nextInt64_iff.mpr ⟨_, one rfl, denoted⟩, rfl⟩

/-- A call that takes nothing succeeds on what it says of the events to come. -/
theorem run_of_sees {call : Call} {answer : Answer} {rest : List Event} {c : Cursor}
    (remains : Remains rest c) (sees : call.Sees answer rest) :
    ∃ c' seen, ahead c = .ok seen c' ∧ call.run c = .ok answer c' := by
  obtain ⟨d, look⟩ := remains_ahead remains
  refine ⟨d, _, look, ?_⟩
  cases sees with
  | peek => exact returns_iff.mpr ⟨_, Hierarchy.peek_iff.mpr ⟨_, look, rfl⟩, rfl⟩
  | hasNext => exact returns_iff.mpr ⟨_, hasNext_iff.mpr ⟨_, look, goesOn_eq rest⟩, rfl⟩
  | @selectName names text rest other =>
    obtain ⟨_, ⟨_, taken, -⟩, -⟩ := remains
    have missing : names.findIdx? (· == text) = none := by
      rw [List.findIdx?_eq_none_iff]
      intro name member
      by_cases same : name = text
      · exact (other (same ▸ member)).elim
      · simpa using same
    exact returns_iff.mpr ⟨none, (selectName_iff taken).mpr ⟨missing.symm, look⟩, rfl⟩
  | expectEnd => exact returns_iff.mpr ⟨(), expectEnd_ahead.mpr look, rfl⟩

theorem run_frame {call : Call} {answer : Answer} {c c' : Cursor}
    (ran : call.run c = .ok answer c') : c'.failOnUnknown = c.failOnUnknown := by
  rcases run_cases ran with ⟨taken, runs, -⟩ | ⟨⟨seen, look⟩, -⟩
  · exact (runs_frame runs).1
  · exact (looked_frame look).2.1

/-! Many calls. -/

/-- Calls that leave nothing have been answered from the events there were. -/
theorem runCalls_iff {calls : List Call} {answers : List Answer} {c : Cursor}
    (lenient : c.failOnUnknown = false) :
    (∃ c', runCalls calls c = .ok answers c' ∧ Remains [] c') ↔
      ∃ events, Remains events c ∧ Answered calls answers events := by
  induction calls generalizing answers c with
  | nil =>
    constructor
    · rintro ⟨c', ran, ended⟩
      obtain ⟨rfl, rfl⟩ := pure_ok.mp ran
      exact ⟨[], ended, .nil⟩
    · rintro ⟨events, remains, answered⟩
      cases answered
      exact ⟨c, rfl, remains⟩
  | cons call rest ih =>
    constructor
    · rintro ⟨c', ran, ended⟩
      obtain ⟨answer, d, first, more⟩ := bind_ok.mp ran
      obtain ⟨others, later, rfl⟩ := returns_iff.mp more
      obtain ⟨events, remains, answered⟩ :=
        (ih ((run_frame first).trans lenient)).mp ⟨c', later, ended⟩
      rcases run_cases first with ⟨taken, runs, takes⟩ | ⟨⟨seen, look⟩, sees⟩
      · exact ⟨taken ++ events, remains_append.mpr ⟨d, runs, remains⟩, .takes takes answered⟩
      · have before := (remains_looked look).mp remains
        exact ⟨events, before, .sees (sees events before.foretells) answered⟩
    · rintro ⟨events, remains, answered⟩
      -- Taken or not, the call succeeds and leaves what the others are answered from.
      obtain ⟨answer, others, rest', d, rfl, first, left, more⟩ : ∃ answer others rest' d,
          answers = answer :: others ∧ call.run c = .ok answer d ∧ Remains rest' d ∧
            Answered rest others rest' := by
        cases answered with
        | takes one more =>
          obtain ⟨d, runs, left⟩ := remains_append.mp remains
          exact ⟨_, _, _, d, rfl, run_of_takes lenient runs one, left, more⟩
        | sees one more =>
          obtain ⟨d, seen, look, ran⟩ := run_of_sees remains one
          exact ⟨_, _, _, d, rfl, ran, (remains_looked look).mpr remains, more⟩
      obtain ⟨c', later, ended⟩ :=
        (ih ((run_frame first).trans lenient)).mpr ⟨rest', left, more⟩
      exact ⟨c', bind_ok.mpr ⟨answer, d, first, returns_iff.mpr ⟨others, later, rfl⟩⟩, ended⟩

/-- After the end there is the end. -/
theorem runCalls_ended {calls : List Call} {answers : List Answer} {c c' : Cursor}
    (ran : runCalls (calls ++ [.expectEnd]) c = .ok answers c') : Remains [] c' := by
  induction calls generalizing answers c with
  | nil =>
    obtain ⟨answer, d, first, more⟩ := bind_ok.mp ran
    obtain ⟨_, rfl⟩ := pure_ok.mp more
    obtain ⟨_, ended, -⟩ := returns_iff.mp first
    apply remains_nil.mpr
    exact ⟨d, expectEnd_ahead.mpr (ahead_twice (expectEnd_ahead.mp ended))⟩
  | cons call rest ih =>
    obtain ⟨answer, d, first, more⟩ := bind_ok.mp ran
    obtain ⟨others, later, -⟩ := returns_iff.mp more
    exact ih later

/-- Whichever calls are made, if they all succeed and the last is for the end, then the text spells
a document with at most 128 levels of arrays and objects, and its events have been handed over or
passed one after the other. Calls for which that is so succeed. -/
theorem runCalls_document (text : String) (calls : List Call) (answers : List Answer) :
    (∃ c, runCalls (calls ++ [.expectEnd]) (Cursor.ofText text) = .ok answers c) ↔
      ∃ document, Spells text document ∧ document.depth ≤ 128 ∧
        Answered (calls ++ [.expectEnd]) answers (documentEvents document) := by
  have ended : (∃ c, runCalls (calls ++ [.expectEnd]) (Cursor.ofText text) = .ok answers c) ↔
      ∃ c, runCalls (calls ++ [.expectEnd]) (Cursor.ofText text) = .ok answers c ∧ Remains [] c :=
    ⟨fun ⟨c, ran⟩ => ⟨c, ran, runCalls_ended ran⟩, fun ⟨c, ran, _⟩ => ⟨c, ran⟩⟩
  rw [ended, runCalls_iff rfl]
  constructor
  · rintro ⟨events, remains, answered⟩
    obtain ⟨document, spells, shallow, rfl⟩ := remains_text.mp remains
    exact ⟨document, spells, shallow, answered⟩
  · rintro ⟨document, spells, shallow, answered⟩
    exact ⟨_, remains_text.mpr ⟨document, spells, shallow, rfl⟩, answered⟩

end TaggedJson.Pull
