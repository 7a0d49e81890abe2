import TaggedJson.Proofs.Output
import TaggedJson.Proofs.Values
/-! How deep a document may nest. Reading goes on up to the first bracket beyond the limit, wherever
that stands, and fails there and for no other reason. So a value that is written is read as it was
exactly when it keeps within the limit. -/
namespace TaggedJson.Pull
open Json (Document Lexeme Scope Spells Spelling separator)

/-- The events run up to a bracket for which no container more may be open. -/
def Blocked (events : List Event) (c : Cursor) : Prop :=
  ∃ before bracket after d e, events = before ++ bracket :: after ∧ Runs before c d ∧
    bracket.opens = true ∧ ahead d = .ok bracket.seen e ∧ depthLimit < e.scopes.length

theorem Blocked.after {before events : List Event} {c d : Cursor} (runs : Runs before c d)
    (blocked : Blocked events d) : Blocked (before ++ events) c := by
  obtain ⟨between, bracket, after, e, f, rfl, passed, rest⟩ := blocked
  refine ⟨before ++ between, bracket, after, e, f, ?_, runs_append.mpr ⟨d, runs, passed⟩, rest⟩
  rw [List.append_assoc]

theorem Blocked.append {events : List Event} {c : Cursor} (blocked : Blocked events c)
    (more : List Event) : Blocked (events ++ more) c := by
  obtain ⟨before, bracket, after, d, e, rfl, rest⟩ := blocked
  refine ⟨before, bracket, after ++ more, d, e, ?_, rest⟩
  rw [List.append_assoc, List.cons_append]

theorem bracket_blocked {bracket : Event} {scope : Scope} {outer after : List Scope}
    {more : List Lexeme} {c : Cursor} (opens : bracket.opens = true) (fresh : c.ahead = none)
    (shape : c.scopes = scope :: outer) (moves : bracket.Moves (scope :: outer) after)
    (full : depthLimit < c.scopes.length)
    (spelling : Spelling (bracket.lexemes scope ++ more) c.place.rest) (rest : List Event) :
    Blocked (bracket :: rest) c := by
  have apart (single : bracket.isScalar = true) : Json.Ends more := by
    cases bracket <;> cases opens <;> cases single
  obtain ⟨e, looked, -⟩ := look_spelled shape moves apart spelling
  refine ⟨[], bracket, rest, c, _, rfl, rfl, opens, (ahead_fresh fresh).mpr ⟨e, looked, rfl⟩, ?_⟩
  rw [← (look_sees looked).length] at full
  exact full

/-! Where the first bracket beyond the limit stands in a document. Whatever comes before it is
shallow, and read. -/

mutual
theorem blocked_document : ∀ (document : Document) {c : Cursor} {scope after : Scope}
    {outer : List Scope} {more : List Lexeme}, c.ahead = none → c.scopes = scope :: outer →
    afterValue scope = some after → depthLimit + 1 - c.scopes.length < document.depth →
    Spelling (leadIn scope ++ (document.lexemes ++ more)) c.place.rest →
    Blocked (documentEvents document) c
  | .null, _, _, _, _, _, _, _, _, deep, _ | .bool _, _, _, _, _, _, _, _, _, deep, _
  | .number _, _, _, _, _, _, _, _, _, deep, _ | .string _, _, _, _, _, _, _, _, _, deep, _ =>
    absurd deep (Nat.not_lt_zero _)
  | .array items, c, scope, after, outer, more, fresh, shape, place, deep, spelling => by
    have led : Event.beginArray.closes = false := rfl
    have spelling : Spelling (Event.beginArray.lexemes scope ++
        (Document.itemLexemes true items ++ more)) c.place.rest :=
      lexemes_append led scope _ ▸ spelling
    rw [documentEvents]
    by_cases room : c.scopes.length ≤ depthLimit
    · obtain ⟨d, taken, left⟩ := spelled_taken fresh shape (.beginArray place) nofun
        (fun _ => room) spelling
      obtain ⟨moves, clear⟩ := moves_of_taken fresh shape taken
      obtain ⟨_, -, opened⟩ := moves_beginArray moves
      have deeper : depthLimit + 1 - d.scopes.length < Document.depthItems items := by
        simp only [Document.depth, opened, shape, List.length_cons] at deep room ⊢
        omega
      exact .after (runs_singleton.mpr taken) (blocked_items true items clear opened deeper left)
    · exact bracket_blocked rfl fresh shape (.beginArray place) (by omega) spelling _
  | .object members, c, scope, after, outer, more, fresh, shape, place, deep, spelling => by
    have led : Event.beginObject.closes = false := rfl
    have spelling : Spelling (Event.beginObject.lexemes scope ++
        (Document.memberLexemes true members ++ more)) c.place.rest :=
      lexemes_append led scope _ ▸ spelling
    rw [documentEvents]
    by_cases room : c.scopes.length ≤ depthLimit
    · obtain ⟨d, taken, left⟩ := spelled_taken fresh shape (.beginObject place) nofun
        (fun _ => room) spelling
      obtain ⟨moves, clear⟩ := moves_of_taken fresh shape taken
      obtain ⟨_, -, opened⟩ := moves_beginObject moves
      have deeper : depthLimit + 1 - d.scopes.length < Document.depthMembers members := by
        simp only [Document.depth, opened, shape, List.length_cons] at deep room ⊢
        omega
      exact .after (runs_singleton.mpr taken)
        (blocked_members true members clear opened deeper left)
    · exact bracket_blocked rfl fresh shape (.beginObject place) (by omega) spelling _

theorem blocked_items : ∀ (first : Bool) (items : List Document) {c : Cursor}
    {outer : List Scope} {more : List Lexeme}, c.ahead = none →
    c.scopes = itemScope first :: outer →
    depthLimit + 1 - c.scopes.length < Document.depthItems items →
    Spelling (Document.itemLexemes first items ++ more) c.place.rest →
    Blocked (itemEvents items) c
  | _, [], _, _, _, _, _, deep, _ => absurd deep (Nat.not_lt_zero _)
  | first, item :: rest, c, outer, more, fresh, shape, deep, spelling => by
    have place : afterValue (itemScope first) = some (itemScope false) := by cases first <;> rfl
    simp only [Document.itemLexemes, List.append_assoc, ← leadIn_itemScope] at spelling
    rw [itemEvents]
    by_cases shallow : item.depth ≤ depthLimit + 1 - c.scopes.length
    · obtain ⟨d, one, others⟩ :=
        spelled_reads item fresh shape place shallow (Json.ends_itemLexemes rest more) spelling
      obtain ⟨next, nextPlace, left, clear⟩ := reads_scopes item fresh shape one
      rw [itemScope_after nextPlace] at left
      have later : depthLimit + 1 - d.scopes.length < Document.depthItems rest := by
        simp only [Document.depthItems, left, shape, List.length_cons] at deep shallow ⊢
        omega
      exact .after one (blocked_items false rest clear left later others)
    · exact (blocked_document item fresh shape place (by omega) spelling).append _

theorem blocked_members : ∀ (first : Bool) (members : List (String × Document)) {c : Cursor}
    {outer : List Scope} {more : List Lexeme}, c.ahead = none →
    c.scopes = memberScope first :: outer →
    depthLimit + 1 - c.scopes.length < Document.depthMembers members →
    Spelling (Document.memberLexemes first members ++ more) c.place.rest →
    Blocked (memberEvents members) c
  | _, [], _, _, _, _, _, deep, _ => absurd deep (Nat.not_lt_zero _)
  | first, (name, document) :: rest, c, outer, more, fresh, shape, deep, spelling => by
    simp only [Document.memberLexemes, List.append_assoc, List.cons_append,
      ← leadIn_memberScope] at spelling
    have led : (Event.name name).closes = false := rfl
    have spelling := lexemes_append led (memberScope first) _ ▸ spelling
    obtain ⟨d, named, value⟩ := spelled_taken fresh shape (.name (atMember_memberScope first)) nofun
      nofun spelling
    obtain ⟨moves, clear⟩ := moves_of_taken fresh shape named
    have opened := moves_name moves
    have same : d.scopes.length = c.scopes.length := by rw [opened, shape]; rfl
    show Blocked ([.name name] ++ (documentEvents document ++ memberEvents rest)) c
    refine .after (runs_singleton.mpr named) ?_
    by_cases shallow : document.depth ≤ depthLimit + 1 - d.scopes.length
    · obtain ⟨e, one, others⟩ :=
        spelled_reads document clear opened rfl shallow (Json.ends_memberLexemes rest more) value
      obtain ⟨next, place, left, done⟩ := reads_scopes document clear opened one
      cases place
      have later : depthLimit + 1 - e.scopes.length < Document.depthMembers rest := by
        simp only [Document.depthMembers, left, opened, shape, List.length_cons] at deep shallow ⊢
        omega
      exact .after one (blocked_members false rest done left later others)
    · exact (blocked_document document clear opened rfl (by omega) value).append _
end

theorem blocked_text {text : String} {document : Document} (spells : Spells text document)
    (deep : depthLimit < document.depth) :
    Blocked (documentEvents document) (Cursor.ofText text) := by
  rw [Spells, ← List.append_nil document.lexemes] at spells
  exact blocked_document document (c := Cursor.ofText text) rfl rfl rfl deep spells

/-! A loop that is blocked. -/

section Loops
variable {σ β : Type} {step : σ → Pull (σ ⊕ β)} {advances : Advances step}
  {next : σ → Event → Option (σ ⊕ β)}

theorem iterate_step {s s' : σ} {c d : Cursor} (stepped : step s c = .ok (.inl s') d) :
    iterate step advances s c = iterate step advances s' d := by
  rw [iterate]
  split <;> rename_i found <;> rw [stepped] at found <;> cases found
  rfl

theorem iterate_error {s : σ} {c d : Cursor} {e : DecodeError} (failed : step s c = .error e d) :
    iterate step advances s c = .error e d := by
  rw [iterate]
  split <;> rename_i found <;> rw [failed] at found <;> cases found
  rfl

/-- A loop that would end with later events is still going on after the first ones. -/
theorem iterate_runs (advances : Advances step) (steps : TakesEvents step next)
    {events more : List Event} {s : σ} {c d : Cursor} {result : β} (runs : Runs events c d)
    (left : more ≠ []) (consumed : consume next s (events ++ more) = some result) :
    ∃ s', iterate step advances s c = iterate step advances s' d := by
  induction events generalizing s c with
  | nil => exact ⟨s, by rw [show c = d from runs]⟩
  | cons event rest ih =>
    obtain ⟨e, taken, runs⟩ := runs
    rw [List.cons_append, consume_cons] at consumed
    obtain ⟨chosen, found, resumed⟩ := Option.bind_eq_some_iff.mp consumed
    have stepped := (steps ..).mpr ⟨event, taken, found⟩
    cases chosen with
    | inl s₁ =>
      obtain ⟨s', same⟩ := ih runs resumed
      exact ⟨s', (iterate_step stepped).trans same⟩
    | inr last => simp [resume, left] at resumed

end Loops

theorem bracket_tooDeep {bracket : Event} {d e : Cursor} (opens : bracket.opens = true)
    (looked : ahead d = .ok bracket.seen e) (full : depthLimit < e.scopes.length)
    (frames : List Frame) : ∃ f, readToken frames d = .error (.tooDeep e.pathText) f := by
  have again := ahead_twice looked
  have refused {scope : Scope} {step : Step} : openScope scope step { e with ahead := none } =
      .error (.tooDeep e.pathText) { e with ahead := none } := if_pos full
  cases bracket <;> cases opens <;>
  · refine ⟨{ e with ahead := none }, ?_⟩
    show EStateM.bind ahead _ d = _
    rw [EStateM.bind, looked]
    show EStateM.bind (EStateM.bind (takeToken _ _) _) _ e = _
    simp only [EStateM.bind, takeToken, again, Event.seen, if_true, refused]

/-- A document that has a value and is too deep cannot be read for its depth alone. -/
theorem readValue_tooDeep {text : String} {document : Document} (spells : Spells text document)
    (deep : depthLimit < document.depth) {value : Json.Value}
    (denoted : document.value? = some value) :
    ∃ path c, readValue (Cursor.ofText text) = .error (.tooDeep path) c := by
  obtain ⟨before, bracket, after, d, e, split, runs, opens, looked, full⟩ :=
    blocked_text spells deep
  have consumed : consume readNext [] (documentEvents document) = some value := by
    have := consume_read_document document [] []
    rw [List.append_nil, denoted] at this
    exact this
  rw [split] at consumed
  obtain ⟨frames, same⟩ := iterate_runs (Takes.advances readToken_takes)
    readToken_takesEvents runs (List.cons_ne_nil _ _) consumed
  obtain ⟨f, refused⟩ := bracket_tooDeep opens looked full frames
  exact ⟨_, f, same.trans (iterate_error refused)⟩

end TaggedJson.Pull

namespace TaggedJson.Hierarchy
open Json Pull

theorem decodeDocument_error {β : Type} {body : Pull β} {text : String} {e : DecodeError}
    {c : Cursor} (failed : body (Cursor.ofText text) = .error e c) :
    decodeDocument body text = .error e := by
  have whole : (do let value ← body; expectEnd; return value : Pull β) (Cursor.ofText text) =
      .error e c := by
    show EStateM.bind body _ _ = _
    rw [EStateM.bind, failed]
  rw [decodeDocument, whole]

/-- What a written value is read as. -/
theorem decode_text_iff {value : Value} (distinct : value.Distinct) :
    decodeDocument readValue value.text = .ok value ↔ value.depth ≤ depthLimit := by
  rw [decode_value_ok]
  constructor
  · rintro ⟨document, spells, shallow, -⟩
    rwa [spells_unique spells value.text_spells, value.document_depth] at shallow
  · intro shallow
    refine ⟨value.document, value.text_spells, ?_, value.document_value distinct⟩
    rwa [value.document_depth]

/-- A value is written as one document. It is read from that as it was, the members in their order
and each number of the kind and the value it had, if it nests at most 128 levels deep, and one that
nests deeper is refused as too deep. -/
theorem value_roundtrip (value : Value) (distinct : value.Distinct) :
    ∃ text, Emit.document (Emit.json value) = .ok text ∧
      (decodeDocument readValue text = .ok value ↔ value.depth ≤ 128) ∧
      (128 < value.depth → ∃ path, decodeDocument readValue text = .error (.tooDeep path)) := by
  refine ⟨value.text, Emit.document_puts (Emit.puts_json value), decode_text_iff distinct, ?_⟩
  intro deep
  rw [← value.document_depth] at deep
  obtain ⟨path, c, failed⟩ :=
    readValue_tooDeep value.text_spells deep (value.document_value distinct)
  exact ⟨path, decodeDocument_error failed⟩

/-- A value in so many arrays, one around the other. -/
def boxed (inner : Value) : Nat → Value
  | 0 => inner
  | levels + 1 => .array [boxed inner levels]

theorem boxed_depth (inner : Value) (levels : Nat) :
    (boxed inner levels).depth = inner.depth + levels := by
  induction levels with
  | zero => rfl
  | succ levels ih =>
    rw [boxed, Value.depth, Value.depthItems, Value.depthItems, ih, Nat.max_zero]
    rfl

theorem boxed_distinct {inner : Value} (distinct : inner.Distinct) (levels : Nat) :
    (boxed inner levels).Distinct := by
  induction levels with
  | zero => exact distinct
  | succ levels ih => exact ⟨ih, trivial⟩

/-- The widest integer, the negative zero, and characters that are escaped. -/
def extremes : Value := .object [("top", .number (.integer 18446744073709551615 (by decide))),
  ("zero", .number (.double ⟨true, 0, by decide⟩)), ("\"\n", .string "\\\u0001é")]

theorem value_roundtrip_boxed :
    (∃ text, Emit.document (Emit.json (boxed extremes 127)) = .ok text ∧
      decodeDocument readValue text = .ok (boxed extremes 127)) ∧
    ∃ text path, Emit.document (Emit.json (boxed extremes 128)) = .ok text ∧
      decodeDocument readValue text = .error (.tooDeep path) := by
  have distinct : extremes.Distinct := ⟨by decide, trivial, trivial, trivial, trivial⟩
  have depth (levels : Nat) : (boxed extremes levels).depth = 1 + levels := boxed_depth ..
  constructor
  · obtain ⟨text, written, read, -⟩ := value_roundtrip _ (boxed_distinct distinct 127)
    exact ⟨text, written, read.mpr (Nat.le_of_eq (depth 127))⟩
  · obtain ⟨text, written, -, refused⟩ := value_roundtrip _ (boxed_distinct distinct 128)
    obtain ⟨path, failed⟩ := refused (Nat.lt_of_lt_of_eq (by decide) (depth 128).symm)
    exact ⟨text, path, written, failed⟩

end TaggedJson.Hierarchy
