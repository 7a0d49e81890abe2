import TaggedJson.Proofs.Comparison
import TaggedJson.Proofs.Retries
/-! Asking for one kind of token and reading it as another. What refuses a token has only looked at
it, however much it would have gone on to read, so it leaves no trace in what comes later. -/
namespace TaggedJson.Pull
open Json (Scope)

/-! Where operations refuse a token. -/

/-- All that the operation refuses is the first token, when that is not a wanted one, and it leaves
the cursor where looking at the token does. -/
def Asks (wanted : Ahead → Prop) (x : Pull α) : Prop :=
  ∀ c expected found path d, x c = .error (.unexpectedToken expected found path) d →
    ∃ seen, ahead c = .ok seen d ∧ seen.token = found ∧ ¬wanted seen

/-- The operation refuses no token. -/
def Matches (x : Pull α) : Prop :=
  ∀ c expected found path d, x c ≠ .error (.unexpectedToken expected found path) d

variable {α β : Type} {wanted : Ahead → Prop}

theorem Matches.asks {x : Pull α} (fits : Matches x) : Asks wanted x :=
  fun c expected found path d failed => (fits c expected found path d failed).elim

theorem Asks.weaken {x : Pull α} {other : Ahead → Prop} (asks : Asks wanted x)
    (fewer : ∀ seen, other seen → wanted seen) : Asks other x := by
  intro c expected found path d failed
  obtain ⟨seen, looked, same, unwanted⟩ := asks c expected found path d failed
  exact ⟨seen, looked, same, fun fits => unwanted (fewer seen fits)⟩

theorem Asks.bind {x : Pull α} {f : α → Pull β} (first : Asks wanted x)
    (next : ∀ a, Matches (f a)) : Asks wanted (x >>= f) := by
  intro c expected found path d failed
  rcases bind_error.mp failed with stopped | ⟨a, m, -, stopped⟩
  · exact first c expected found path d stopped
  · exact (next a m expected found path d stopped).elim

/-- To refuse no token is to want every one. -/
theorem matches_iff {x : Pull α} : Matches x ↔ Asks (fun _ => True) x := by
  refine ⟨Matches.asks, fun asks c expected found path d failed => ?_⟩
  obtain ⟨seen, -, -, unwanted⟩ := asks c expected found path d failed
  exact unwanted trivial

theorem Matches.bind {x : Pull α} {f : α → Pull β} (first : Matches x)
    (next : ∀ a, Matches (f a)) : Matches (x >>= f) :=
  matches_iff.mpr (first.asks.bind next)

theorem matches_pure (a : α) : Matches (pure a : Pull α) := fun _ _ _ _ _ => nofun

theorem matches_modify (f : Cursor → Cursor) : Matches (modify f : Pull Unit) :=
  fun _ _ _ _ _ => nofun

theorem matches_ahead : Matches ahead := by
  intro c expected found path d failed
  obtain ⟨misses, -, -⟩ := look_misses (ahead_failed.mp failed).2
  generalize c.scopes.head? = scope, same : DecodeError.unexpectedToken expected found path = e
    at misses
  cases misses <;> cases same

theorem matches_openScope (scope : Scope) (step : Step) : Matches (openScope scope step) := by
  intro c expected found path d failed
  unfold openScope at failed
  split at failed <;> cases failed

theorem fault_matches (fault : Fault) (place : String) (expected : Expected) (found : Token)
    (path : String) : fault.atPath place ≠ .unexpectedToken expected found path := by
  cases fault <;> nofun

theorem matches_takeLexeme (scan : Place → Except Fault (α × Place)) :
    Matches (takeLexeme scan) := by
  intro c expected found path d failed
  unfold takeLexeme at failed
  split at failed
  · injection failed with same
    exact fault_matches _ _ _ _ _ same
  · cases failed

theorem asks_takeToken (wanted : Ahead) (expected : Expected) :
    Asks (· = wanted) (takeToken wanted expected) := by
  intro c expected' found path d failed
  unfold takeToken at failed
  split at failed
  · rename_i stopped
    cases failed
    exact (matches_ahead _ _ _ _ _ stopped).elim
  · rename_i seen m looked
    split at failed <;> cases failed
    rename_i other
    exact ⟨seen, looked, rfl, other⟩

theorem asks_aheadAs (expected : Expected) (select : Ahead → Option α) :
    Asks (fun seen => (select seen).isSome) (aheadAs expected select) := by
  intro c expected' found path d failed
  unfold aheadAs at failed
  split at failed
  · rename_i stopped
    cases failed
    exact (matches_ahead _ _ _ _ _ stopped).elim
  · rename_i seen m looked
    split at failed <;> cases failed
    rename_i other
    exact ⟨seen, looked, rfl, by simp [other]⟩

theorem asks_selectName (names : List String) : Asks (· = .name) (selectName names) := by
  intro c expected found path d failed
  unfold selectName at failed
  split at failed
  · rename_i stopped
    cases failed
    exact (matches_ahead _ _ _ _ _ stopped).elim
  · rename_i seen m looked
    split at failed
    · split at failed
      · injection failed with same
        exact (fault_matches _ _ _ _ _ same).elim
      · split at failed <;> cases failed
    · rename_i other
      cases failed
      exact ⟨seen, looked, rfl, other⟩

theorem matches_peek : Matches peek := by
  intro c expected found path d failed
  exact matches_ahead _ _ _ _ _ (peek_failed_iff.mp failed)

theorem matches_hasNext : Matches hasNext := by
  intro c expected found path d failed
  unfold hasNext at failed
  split at failed
  · cases failed
  · rename_i stopped
    cases failed
    exact matches_ahead _ _ _ _ _ stopped

theorem matches_expectEnd : Matches expectEnd := by
  intro c expected found path d failed
  unfold expectEnd at failed
  split at failed
  · rename_i stopped
    cases failed
    exact matches_ahead _ _ _ _ _ stopped
  · split at failed <;> cases failed

theorem asks_beginObject : Asks (· = .beginObject) beginObject :=
  (asks_takeToken _ _).bind fun _ => matches_openScope _ _

theorem asks_endObject : Asks (· = .endObject) endObject :=
  (asks_takeToken _ _).bind fun _ => matches_modify _

theorem asks_beginArray : Asks (· = .beginArray) beginArray :=
  (asks_takeToken _ _).bind fun _ => matches_openScope _ _

theorem asks_endArray : Asks (· = .endArray) endArray :=
  (asks_takeToken _ _).bind fun _ => matches_modify _

theorem asks_nextName : Asks (· = .name) nextName :=
  (asks_takeToken _ _).bind fun _ => (matches_takeLexeme _).bind fun _ =>
    (matches_modify _).bind fun _ => matches_pure _

theorem asks_nextString : Asks (fun seen => seen.textKind?.isSome) nextString :=
  (asks_aheadAs _ _).bind fun _ => (matches_modify _).bind fun _ =>
    (matches_takeLexeme _).bind fun _ => (matches_modify _).bind fun _ => matches_pure _

theorem asks_nextBool : Asks (fun seen => seen.bool?.isSome) nextBool :=
  (asks_aheadAs _ _).bind fun _ => (matches_modify _).bind fun _ => matches_pure _

theorem asks_only (expected : Expected) (seen : Ahead) :
    Asks (· = seen) (aheadAs expected (Ahead.only? seen)) :=
  (asks_aheadAs _ _).weaken fun other same => by simp [Ahead.only?, same]

theorem asks_nextNull : Asks (· = .null) nextNull :=
  (asks_only _ _).bind fun _ => matches_modify _

theorem asks_nextLiteral (expected : Expected) : Asks (· = .number) (nextLiteral expected) :=
  (asks_only _ _).bind fun _ => (matches_modify _).bind fun _ => matches_takeLexeme _

/-! Passing a value, which only its first token can be wrong for. -/

/-- What follows a look at the same token does not refuse it. -/
theorem Asks.kept {x : Pull α} {c d : Cursor} {seen : Ahead} (asks : Asks wanted x)
    (looked : ahead c = .ok seen d) (fits : wanted seen) (expected : Expected) (found : Token)
    (path : String) (e : Cursor) : x d ≠ .error (.unexpectedToken expected found path) e := by
  intro failed
  obtain ⟨_, again, -, unwanted⟩ := asks d expected found path e failed
  rw [ahead_twice looked] at again
  cases again
  exact unwanted fits

/-- In a container only the end of the document is wrong, and there is none. -/
theorem asks_skipToken (depth : Nat) :
    Asks (fun seen => seen.starts = true ∨ depth ≠ 0 ∧ seen ≠ .endDocument) (skipToken depth) := by
  intro c expected found path e failed
  rcases bind_error.mp failed with stopped | ⟨seen, d, looked, rest⟩
  · exact (matches_ahead _ _ _ _ _ stopped).elim
  have refused {x : Pull (Nat ⊕ Unit)} (asks : Asks (· = seen) x)
      (ran : (if depth = 0 then refuse .value seen else x) d =
        .error (.unexpectedToken expected found path) e) :
      depth = 0 ∧ d = e ∧ seen.token = found := by
    by_cases outermost : depth = 0
    · rw [if_pos outermost] at ran
      cases ran
      exact ⟨outermost, rfl, rfl⟩
    · rw [if_neg outermost] at ran
      exact (asks.kept looked rfl _ _ _ _ ran).elim
  cases seen with
  | beginObject =>
    exact ((asks_beginObject.bind fun _ => matches_pure _).kept looked rfl _ _ _ _ rest).elim
  | beginArray =>
    exact ((asks_beginArray.bind fun _ => matches_pure _).kept looked rfl _ _ _ _ rest).elim
  | endObject =>
    obtain ⟨outermost, rfl, same⟩ := refused (asks_endObject.bind fun _ => matches_pure _) rest
    exact ⟨_, looked, same, by simp [outermost, Ahead.starts]⟩
  | endArray =>
    obtain ⟨outermost, rfl, same⟩ := refused (asks_endArray.bind fun _ => matches_pure _) rest
    exact ⟨_, looked, same, by simp [outermost, Ahead.starts]⟩
  | name =>
    obtain ⟨outermost, rfl, same⟩ := refused (asks_nextName.bind fun _ => matches_pure _) rest
    exact ⟨_, looked, same, by simp [outermost, Ahead.starts]⟩
  | string =>
    exact ((asks_nextString.bind fun _ => matches_pure _).kept looked rfl _ _ _ _ rest).elim
  | number =>
    exact (((asks_nextLiteral _).bind fun _ => (matches_modify _).bind fun _ =>
      matches_pure _).kept looked rfl _ _ _ _ rest).elim
  | bool value =>
    exact ((asks_nextBool.bind fun _ => matches_pure _).kept looked rfl _ _ _ _ rest).elim
  | null =>
    exact ((asks_nextNull.bind fun _ => matches_pure _).kept looked rfl _ _ _ _ rest).elim
  | endDocument =>
    cases rest
    exact ⟨_, looked, rfl, by simp [Ahead.starts]⟩

/-- Inside the containers that have been opened since, no token is ahead and theirs are on top. -/
def Deep (depth : Nat) (c : Cursor) : Prop :=
  depth ≠ 0 → c.ahead = none ∧ OpenOn (fun _ => True) depth c.scopes

section Deep
variable {depth next : Nat} {c d : Cursor}

theorem Deep.step {event : Event} (deep : Deep depth c) (taken : event.Taken c d)
    (passed : skipNext depth event = some (.inl next)) : Deep next d := by
  cases depth with
  | succ depth =>
    obtain ⟨fresh, opened⟩ := deep nofun
    obtain ⟨moves, clear⟩ := taken_moves fresh taken
    obtain ⟨left, further, inside⟩ := opened.moves moves
    rw [passed] at further
    obtain ⟨rfl, -⟩ := whileOpen_inl (Option.some.inj further).symm
    exact fun _ => ⟨clear, inside⟩
  | zero =>
    -- Only a container is gone into, whatever was ahead of it.
    obtain ⟨m, -, leaves⟩ := taken
    obtain ⟨clear, scopes⟩ := leaves_scopes leaves
    cases event with
    | beginObject | beginArray =>
      obtain ⟨rfl, -⟩ := whileOpen_inl (Option.some.inj passed)
      exact fun _ => ⟨clear, _, _, scopes, nofun, nofun, trivial⟩
    | _ => cases passed

/-- The text does not end in a container. -/
theorem Deep.goes_on {seen : Ahead} (deep : Deep depth c) (looked : ahead c = .ok seen d)
    (inside : depth ≠ 0) : seen ≠ .endDocument := by
  rintro rfl
  obtain ⟨fresh, within⟩ := deep inside
  obtain ⟨e, found, -⟩ := (ahead_fresh fresh).mp looked
  have sees := look_sees found
  obtain ⟨outer, rfl⟩ := Nat.exists_eq_succ_of_ne_zero inside
  obtain ⟨scope, around, shape, -, done, -⟩ := within
  rw [shape] at sees
  generalize e.scopes = after at sees
  cases sees with
  | value place starts => cases starts
  | endDocument last =>
    rcases last with head | none
    · cases head
      exact done rfl
    · cases none

/-- Only the first token of a value is ever refused. -/
theorem Deep.refused {expected : Expected} {found : Token} {path : String} (deep : Deep depth c)
    (failed : iterate skipToken (Takes.advances skipToken_takes) depth c =
      .error (.unexpectedToken expected found path) d) :
    depth = 0 ∧ ∃ seen, ahead c = .ok seen d ∧ seen.token = found ∧ seen.starts = false := by
  fun_induction iterate skipToken (Takes.advances skipToken_takes) depth c with
  | case1 depth c e m stopped =>
    cases failed
    obtain ⟨seen, looked, same, unwanted⟩ := asks_skipToken depth c expected found path d stopped
    obtain ⟨other, outside⟩ := not_or.mp unwanted
    have outermost : depth = 0 := by
      by_contra inside
      exact outside ⟨inside, deep.goes_on looked inside⟩
    exact ⟨outermost, seen, looked, same, Bool.eq_false_iff.mpr other⟩
  | case2 => cases failed
  | case3 depth c next m stepped ih =>
    obtain ⟨event, taken, passed⟩ := skipNext_of_skipToken stepped
    obtain ⟨none, -⟩ := ih (deep.step taken passed) failed
    exact (skipNext_inl passed none).elim

end Deep

theorem asks_skipValue : Asks (·.starts = true) skipValue := by
  intro c expected found path d failed
  have outermost : Deep 0 c := fun inside => (inside rfl).elim
  obtain ⟨-, seen, looked, same, other⟩ := outermost.refused failed
  exact ⟨seen, looked, same, Bool.eq_false_iff.mp other⟩

/-- What no value holds is not refused as a token of the wrong kind. -/
theorem unvalued_matches {c : Cursor} {expected : Expected} {found : Token} {path : String} :
    ¬Unvalued c (.unexpectedToken expected found path) := nofun

/-- Taking a value refuses what passing it refuses. -/
theorem asks_readValue : Asks (·.starts = true) readValue := by
  intro c expected found path d failed
  have compared := values_compared c
  rw [failed] at compared
  rcases compared with stopped | unvalued
  · exact asks_skipValue c expected found path d stopped
  · exact (unvalued_matches unvalued).elim

/-! Calls. -/

/-- What a call wants the next token to be. -/
def Call.Wants : Call → Ahead → Prop
  | .peek, _ | .hasNext, _ | .expectEnd, _ => True
  | .beginObject, seen => seen = .beginObject
  | .endObject, seen => seen = .endObject
  | .beginArray, seen => seen = .beginArray
  | .endArray, seen => seen = .endArray
  | .nextName, seen | .selectName _, seen | .skipName, seen => seen = .name
  | .skipValue, seen | .readValue, seen => seen.starts = true
  | .nextString, seen => seen.textKind?.isSome
  | .nextBool, seen => seen.bool?.isSome
  | .nextNull, seen => seen = .null
  | .nextDouble, seen | .nextInt64, seen => seen = .number

theorem asks_skipName : Asks (· = .name) skipName := by
  refine asks_nextName.bind fun name c expected found path d failed => ?_
  rcases bind_error.mp failed with stopped | ⟨_, m, -, stopped⟩
  · cases stopped
  · split at stopped <;> cases stopped

theorem asks_nextDouble : Asks (· = .number) nextDouble :=
  (asks_nextLiteral _).bind fun _ => (matches_modify _).bind fun _ => matches_pure _

theorem asks_nextInt64 : Asks (· = .number) nextInt64 := by
  refine (asks_nextLiteral _).bind fun literal => ?_
  cases int64Of? literal with
  | none => exact fun _ _ _ _ _ => nofun
  | some value => exact (matches_modify _).bind fun _ => matches_pure _

theorem asks_run (call : Call) : Asks call.Wants call.run := by
  have answers {β : Type} {wanted : Ahead → Prop} (answer : β → Answer) {x : Pull β}
      (asks : Asks wanted x) : Asks wanted (x >>= fun b => pure (answer b)) :=
    asks.bind fun _ => matches_pure _
  cases call with
  | peek => exact answers _ matches_peek.asks
  | hasNext => exact answers _ matches_hasNext.asks
  | beginObject => exact answers _ asks_beginObject
  | endObject => exact answers _ asks_endObject
  | beginArray => exact answers _ asks_beginArray
  | endArray => exact answers _ asks_endArray
  | nextName => exact answers _ asks_nextName
  | selectName names => exact answers _ (asks_selectName names)
  | skipName => exact answers _ asks_skipName
  | skipValue => exact answers _ asks_skipValue
  | readValue => exact answers _ asks_readValue
  | nextString => exact answers _ asks_nextString
  | nextBool => exact answers _ asks_nextBool
  | nextNull => exact answers _ asks_nextNull
  | nextDouble => exact answers _ asks_nextDouble
  | nextInt64 => exact answers _ asks_nextInt64
  | expectEnd => exact answers _ matches_expectEnd.asks

/-- How a call ends that has only looked: it refuses the token, finds another name than those it
selects, or did not ask for more. -/
inductive Probed : Call → Outcome Answer → Prop
  | refused {call : Call} {expected : Expected} {found : Token} {path : String} {d : Cursor} :
    Probed call (.error (.unexpectedToken expected found path) d)
  | unselected {names : List String} {d : Cursor} :
    Probed (.selectName names) (.ok (.choice none) d)
  | peek {token : Token} {d : Cursor} : Probed .peek (.ok (.token token) d)
  | hasNext {more : Bool} {d : Cursor} : Probed .hasNext (.ok (.truth more) d)

theorem selectName_unselected {names : List String} {c d : Cursor}
    (ran : selectName names c = .ok none d) : ahead c = .ok .name d := by
  unfold selectName at ran
  split at ran
  · cases ran
  · rename_i seen m looked
    split at ran
    · rename_i named
      rw [named] at looked
      split at ran
      · cases ran
      · split at ran <;> cases ran
        exact looked
    · cases ran

theorem probed_looked {call : Call} {c : Cursor} (probed : Probed call (call.run c)) :
    ∃ seen, ahead c = .ok seen (ending (call.run c)).cursor := by
  generalize ran : call.run c = outcome at probed
  cases probed with
  | refused =>
    obtain ⟨seen, looked, -⟩ := asks_run call c _ _ _ _ ran
    exact ⟨seen, looked⟩
  | unselected =>
    obtain ⟨position, selected, same⟩ := returns_iff.mp ran
    cases same
    exact ⟨.name, selectName_unselected selected⟩
  | peek =>
    obtain ⟨token, peeked, -⟩ := returns_iff.mp ran
    obtain ⟨seen, looked, -⟩ := Hierarchy.peek_iff.mp peeked
    exact ⟨seen, looked⟩
  | hasNext =>
    obtain ⟨more, asked, -⟩ := returns_iff.mp ran
    obtain ⟨seen, looked, -⟩ := hasNext_iff.mp asked
    exact ⟨seen, looked⟩

/-! What a run tells. -/

/-- What an operation answers, or why it fails. -/
def Operation.reply (c : Cursor) : Operation → Except DecodeError Answer
  | .call request =>
    match request.run c with
    | .ok answer _ => .ok answer
    | .error e _ => .error e
  | _ => .ok .done

/-- What operations reply one after the other, each from where the last has left the reader, also
where it has failed, and the path of the reader after each. -/
def transcript : List Operation → Cursor → List (Except DecodeError Answer × String)
  | [], _ => []
  | operation :: rest, c =>
    (operation.reply c, (operation.run c).cursor.pathText) ::
      transcript rest (operation.run c).cursor

theorem transcript_append (before after : List Operation) (c : Cursor) :
    transcript (before ++ after) c =
      transcript before c ++ transcript after (runOperations before c) := by
  induction before generalizing c with
  | nil => rfl
  | cons operation rest ih =>
    rw [List.cons_append, transcript, ih, transcript, List.cons_append]
    rfl

theorem transcript_length (operations : List Operation) (c : Cursor) :
    (transcript operations c).length = operations.length := by
  induction operations generalizing c with
  | nil => rfl
  | cons operation rest ih => rw [transcript, List.length_cons, List.length_cons, ih]

/-- The one cursor is the other, or where looking ahead leads from there. -/
def Looked (c d : Cursor) : Prop := c = d ∨ ∃ seen, ahead c = .ok seen d

theorem Looked.path {c d : Cursor} (looked : Looked c d) : d.pathText = c.pathText := by
  rcases looked with rfl | ⟨seen, looked⟩
  · rfl
  · rw [Cursor.pathText, Cursor.pathText, looked_path looked]

/-- No operation can tell whether its token has been looked at before. -/
theorem Looked.operation {c d : Cursor} (looked : Looked c d) (operation : Operation) :
    operation.reply c = operation.reply d ∧
      Looked (operation.run c).cursor (operation.run d).cursor := by
  rcases looked with rfl | ⟨seen, looked⟩
  · exact ⟨rfl, .inl rfl⟩
  obtain ⟨length, flag, allowances⟩ := looked_frame looked
  cases operation with
  | call request =>
    have same := (peeks_run request).looks c seen d looked
    exact ⟨by rw [Operation.reply, Operation.reply, same],
      .inl (by rw [Operation.run, Operation.run, same])⟩
  | failOnUnknown fails =>
    refine ⟨rfl, .inr ⟨seen, ?_⟩⟩
    rw [Operation.run, Operation.run, allowances]
    exact ahead_under looked
  | allow name stripped =>
    refine ⟨rfl, .inr ⟨seen, ?_⟩⟩
    rw [Operation.run, Operation.run, length, flag, allowances]
    exact ahead_under looked
  | disallow =>
    refine ⟨rfl, .inr ⟨seen, ?_⟩⟩
    rw [Operation.run, Operation.run, flag, allowances]
    exact ahead_under looked

theorem Looked.transcript {c d : Cursor} (looked : Looked c d) (operations : List Operation) :
    transcript operations c = transcript operations d := by
  induction operations generalizing c d with
  | nil => rfl
  | cons operation rest ih =>
    obtain ⟨reply, onward⟩ := looked.operation operation
    rw [Pull.transcript, Pull.transcript, reply, onward.path, ih onward]

/-- A call that has only looked leaves the reader where a peek would, and a run in which it is made
somewhere tells what it tells without it, before and behind. -/
theorem probes_leave_no_trace (c : Cursor) (before after : List Operation) (probe : Call)
    (probed : Probed probe (probe.run (runOperations before c))) :
    (∃ token, peek (runOperations before c) =
      .ok token (ending (probe.run (runOperations before c))).cursor) ∧
    (transcript (before ++ .call probe :: after) c).eraseIdx before.length =
      transcript (before ++ after) c := by
  obtain ⟨seen, looked⟩ := probed_looked probed
  refine ⟨⟨seen.token, peek_ahead looked⟩, ?_⟩
  have onward : Looked (runOperations before c) (Operation.run (runOperations before c)
      (.call probe)).cursor := .inr ⟨seen, looked⟩
  rw [transcript_append, transcript_append, transcript, ← onward.transcript after,
    ← transcript_length before c, List.eraseIdx_append_of_length_le (Nat.le_refl _),
    Nat.sub_self, List.eraseIdx_cons_zero]

/-- Asked for an object, the reader of a text that is a string still has the string. -/
theorem probes_leave_no_trace_string :
    Probed .beginObject (Call.run .beginObject (Cursor.ofText "\"a\"")) ∧
    (transcript [.call .beginObject, .call .nextString] (Cursor.ofText "\"a\"")).eraseIdx 0 =
      transcript [.call .nextString] (Cursor.ofText "\"a\"") := by
  have refused : Probed .beginObject (Call.run .beginObject (Cursor.ofText "\"a\"")) := .refused
  exact ⟨refused, (probes_leave_no_trace (Cursor.ofText "\"a\"") [] [.call .nextString]
    .beginObject refused).2⟩

end TaggedJson.Pull
