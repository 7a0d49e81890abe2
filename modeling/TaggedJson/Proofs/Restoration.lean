import TaggedJson.Proofs.Aftermath
import TaggedJson.Proofs.Rejections
/-! What reading puts back. The flag for unknown names and the allowances after any call are those
from before it, and a table that finds no reading for an object has done no more than look at it. -/
namespace TaggedJson.Pull

/-- The flag for unknown names and the allowances are those from before. -/
def Restores (c : Cursor) (o : Ending) : Prop :=
  o.cursor.failOnUnknown = c.failOnUnknown ∧ o.cursor.allowances = c.allowances

namespace Restores

theorem refl (c : Cursor) (error : Option DecodeError) : Restores c ⟨error, c⟩ := ⟨rfl, rfl⟩

theorem trans {c d : Cursor} {o : Ending} (first : Restores c ⟨none, d⟩) (next : Restores d o) :
    Restores c o :=
  ⟨next.1.trans first.1, next.2.trans first.2⟩

/-! Single operations. -/

/-- A look under any frame is the same look, so it cannot have changed the one it was under. -/
theorem look (c : Cursor) : Restores c (ending (look c)) := by
  have same : Pull.look c = onward c.failOnUnknown c.allowances (Pull.look c) :=
    @look_under c.failOnUnknown c.allowances c
  rw [same]
  cases Pull.look c <;> exact ⟨rfl, rfl⟩

theorem ahead : Always Restores ahead := by
  intro c
  have looked := look c
  unfold Pull.ahead
  split
  · exact refl c none
  · split <;> rename_i found <;> rw [found] at looked <;> exact looked

theorem modified {f : Cursor → Cursor} (kept : ∀ c, Restores c ⟨none, f c⟩) :
    Always Restores (modify f) := kept

theorem setName (c : Cursor) (name : String) : Restores c ⟨none, c.setName name⟩ := by
  unfold Cursor.setName
  split <;> exact ⟨rfl, rfl⟩

theorem valueTaken (c : Cursor) : Restores c ⟨none, c.valueTaken⟩ := by
  unfold Cursor.valueTaken
  split <;> exact ⟨rfl, rfl⟩

theorem takeToken (wanted : Ahead) (expected : Expected) :
    Always Restores (takeToken wanted expected) := by
  refine .looks trans ahead (fun c e d stopped => ?_) fun c seen d found => ?_
  · rw [Pull.takeToken, stopped]
    rfl
  · simp only [Pull.takeToken, found]
    split <;> exact ⟨rfl, rfl⟩

theorem openScope (scope : Json.Scope) (step : Step) : Always Restores (openScope scope step) := by
  intro c
  unfold Pull.openScope
  split <;> exact ⟨rfl, rfl⟩

theorem takeLexeme (scan : Place → Except Fault (α × Place)) :
    Always Restores (takeLexeme scan) := by
  intro c
  unfold Pull.takeLexeme
  split <;> exact ⟨rfl, rfl⟩

theorem endContainer (wanted : Ahead) (expected : Expected) :
    Always Restores (Pull.takeToken wanted expected >>= fun _ => modify Cursor.pop) :=
  .bind trans (takeToken wanted expected) fun _ => modified fun _ => valueTaken _

theorem endScalar : Always Restores endScalar := modified fun _ => valueTaken _

theorem nextName : Always Restores nextName :=
  .bind trans (takeToken _ _) fun _ => .bind trans (takeLexeme _) fun name =>
    .bind trans (modified fun c => setName c name) fun _ => fun c => refl c none

theorem selectName (names : List String) : Always Restores (selectName names) := by
  refine .looks trans ahead (fun c e d stopped => ?_) fun c seen d found => ?_
  · rw [Pull.selectName, stopped]
    rfl
  · simp only [Pull.selectName, found]
    split
    · split
      · exact refl d _
      · split
        · exact setName _ _
        · exact refl d none
    · exact refl d _

theorem aheadAs (expected : Expected) (select : Ahead → Option α) :
    Always Restores (aheadAs expected select) := by
  refine .looks trans ahead (fun c e d stopped => ?_) fun c seen d found => ?_
  · rw [Pull.aheadAs, stopped]
    rfl
  · simp only [Pull.aheadAs, found]
    split <;> exact ⟨rfl, rfl⟩

theorem dropAhead : Always Restores dropAhead := fun _ => ⟨rfl, rfl⟩

theorem nextString : Always Restores nextString :=
  .bind trans (aheadAs _ _) fun _ => .bind trans dropAhead fun _ =>
    .bind trans (takeLexeme _) fun _ => .bind trans endScalar fun _ => fun c => refl c none

theorem nextLiteral (expected : Expected) : Always Restores (nextLiteral expected) :=
  .bind trans (aheadAs _ _) fun _ => .bind trans dropAhead fun _ => takeLexeme _

theorem nextNumber : Always Restores nextNumber :=
  .bind trans (nextLiteral _) fun literal => by
    cases literal.number? with
    | none => exact fun c => refl c _
    | some number => exact .bind trans endScalar fun _ => fun c => refl c none

theorem steady : Steady Restores where
  stays c := refl c none
  onward := trans
  fails _ := ⟨rfl, rfl⟩
  ahead := ahead
  beginObject := .bind trans (takeToken _ _) fun _ => openScope _ _
  endObject := endContainer _ _
  beginArray := .bind trans (takeToken _ _) fun _ => openScope _ _
  endArray := endContainer _ _
  nextName := nextName
  selectName := selectName
  nextString := nextString
  nextLiteral := nextLiteral
  nextNumber := nextNumber
  endScalar := endScalar

end Restores

end TaggedJson.Pull

namespace TaggedJson.Hierarchy
open Pull Json
variable {α : Type}

/-! Adapters and tables. -/

theorem lookForLabel_restores (key : String) : Always Restores (lookForLabel key) := by
  intro c
  unfold lookForLabel
  split <;> exact ⟨rfl, rfl⟩

/-- Whatever flag the body leaves is replaced by the one from before. -/
theorem withStrict_restores {body : Pull β} (restores : Always Restores body) (strict : Bool) :
    Always Restores (withStrict strict body) := by
  intro c
  have ended := restores (c.under (c.failOnUnknown || strict) c.allowances)
  have raised : (do
      modify fun c => { c with failOnUnknown := c.failOnUnknown || strict }
      body : Pull β) c = body (c.under (c.failOnUnknown || strict) c.allowances) := rfl
  rw [withStrict, keepingFlag, raised]
  cases ran : body (c.under (c.failOnUnknown || strict) c.allowances) <;> rw [ran] at ended <;>
    exact ⟨rfl, ended.2⟩

/-- The body leaves the allowance of the key on top, so taking the top off leaves the others. -/
theorem withKey_restores {body : Pull β} (restores : Always Restores body) (key : String)
    (stripped : Bool) : Always Restores (withKey key stripped body) := by
  intro c
  have ended := restores (c.under c.failOnUnknown
    (⟨key, c.scopes.length + 1, stripped⟩ :: c.allowances))
  simp only [withKey]
  simp only [Cursor.under] at ended
  cases ran : body { c with allowances := ⟨key, c.scopes.length + 1, stripped⟩ :: c.allowances } <;>
    rw [ran] at ended <;> exact ⟨ended.1, congrArg List.tail ended.2⟩

theorem PayloadForm.read_restores (form : PayloadForm α) : Always Restores form.read :=
  .bind .trans Restores.steady.get fun start => .bind .trans Restores.steady.takeFields
    fun fields => by
      cases form.ofFields? fields.values with
      | none => exact fun c => .refl c _
      | some value =>
        simp only
        cases if start.failOnUnknown = true then form.objection? fields else none with
        | none => exact fun c => .refl c none
        | some objection => exact fun c => .refl c _

/-- What the target hands an object on to restores the frame. -/
def Target.Restored : Target α → Prop
  | .subtype entry => Always Restores entry.body.read
  | .fallback adapter => Always Restores adapter.read
  | .null | .object _ => True

theorem Target.read_restores {target : Target α} (restored : target.Restored) (key : String)
    (strict : Bool) : Always Restores (target.read key strict) := by
  cases target with
  | null => exact .bind .trans Restores.steady.skipValue fun _ => Restores.steady.pure _
  | object value => exact .bind .trans Restores.steady.skipValue fun _ => Restores.steady.pure _
  | fallback adapter =>
    exact .map _ (withStrict_restores (withKey_restores restored key false) strict)
  | subtype entry => exact .map _ (withStrict_restores (withKey_restores restored key true) strict)

theorem Table.read_restores {table : Table α}
    (restored : ∀ label target, table.resolve label = .ok target → target.Restored)
    (strict : Bool) : Always Restores (table.read strict) := by
  rw [Table.read_eq]
  refine .bind .trans Restores.steady.peek fun token => ?_
  by_cases null : token = .null
  · rw [if_pos null]
    exact .bind .trans Restores.steady.nextNull fun _ => Restores.steady.pure _
  · rw [if_neg null]
    refine .bind .trans (lookForLabel_restores table.key) fun label => ?_
    cases resolved : table.resolve label with
    | error e => exact fun c => .refl c _
    | ok target => exact Target.read_restores (restored label target resolved) table.key strict

mutual
theorem adapter_restores : ∀ adapter : Adapter α, Always Restores adapter.read
  | .record form => by
    simp only [Adapter.read]
    exact .bind .trans Restores.steady.takeFields fun _ => Restores.steady.pure _
  | .payload form => by
    simp only [Adapter.read]
    exact form.read_restores
  | .singleton value => by
    simp only [Adapter.read]
    exact .bind .trans Restores.steady.skipMembers fun _ => Restores.steady.pure _
  | .failOnUnknown inner => by
    simp only [Adapter.read]
    exact withStrict_restores (adapter_restores inner) true
  | .tagged table strict => by
    simp only [Adapter.read]
    refine .bind .trans (table_restores table strict) fun found => ?_
    cases found with
    | none => exact fun c => .refl c _
    | some value => exact fun c => .refl c none
termination_by adapter => sizeOf adapter

theorem table_restores (table : Table α) (strict : Bool) : Always Restores (table.read strict) :=
  Table.read_restores (fun label target resolved => match target with
    | .subtype entry => body_restores entry.body
    | .fallback adapter => adapter_restores adapter
    | .null | .object _ => trivial) strict
termination_by sizeOf table
decreasing_by
  · exact Nat.lt_trans (body_size entry) (resolve_subtype_size ‹_›)
  · exact resolve_fallback_size ‹_›

theorem body_restores : ∀ body : Body α, Always Restores body.read
  | .adapter adapter => by
    simp only [Body.read]
    exact adapter_restores adapter
  | .singleton value => by
    simp only [Body.read]
    exact .bind .trans Restores.steady.skipMembers fun _ => Restores.steady.pure _
termination_by body => sizeOf body
end

/-! Tables that find no reading for an object. -/

/-- What keeps a table from choosing what reads the value at the cursor: its object cannot be
searched for the label, or the label is one the table neither knows nor has a default for. -/
inductive Table.Unresolved (table : Table α) (c : Cursor) : DecodeError → Prop
  | unsearched {seen : Ahead} {d m : Cursor} {e : DecodeError} (looked : ahead c = .ok seen d)
    (value : seen ≠ .null)
    (failed : findLabel table.key { d with failOnUnknown := false } = .error e m) :
    Unresolved table c e
  | missing {seen : Ahead} {d m : Cursor} (looked : ahead c = .ok seen d) (value : seen ≠ .null)
    (searched : findLabel table.key { d with failOnUnknown := false } = .ok none m)
    (policy : table.policy = .none) :
    Unresolved table c (.missingLabel table.key table.labels)
  | unknown {seen : Ahead} {d m : Cursor} {label : String} (looked : ahead c = .ok seen d)
    (value : seen ≠ .null)
    (searched : findLabel table.key { d with failOnUnknown := false } = .ok (some label) m)
    (foreign : table.lookup label = none) (policy : table.policy = .none) :
    Unresolved table c (.unknownLabel table.key label table.labels)

theorem lookForLabel_failed {key : String} {e : DecodeError} {d d' : Cursor} :
    lookForLabel key d = .error e d' ↔
      d' = d ∧ ∃ m, findLabel key { d with failOnUnknown := false } = .error e m := by
  unfold lookForLabel
  split <;> rename_i ran <;> simp [ran, and_comm, eq_comm]

theorem resolve_error {table : Table α} {label : Option String} {e : DecodeError} :
    table.resolve label = .error e ↔ table.policy = .none ∧
      (label = none ∧ e = .missingLabel table.key table.labels ∨
        ∃ text, label = some text ∧ table.lookup text = none ∧
          e = .unknownLabel table.key text table.labels) := by
  unfold Table.resolve
  cases label with
  | none => cases table.policy <;> simp [eq_comm]
  | some text =>
    cases found : table.lookup text <;> cases table.policy <;> simp [found, eq_comm]

theorem Table.unresolved_iff {table : Table α} {c : Cursor} {e : DecodeError} :
    table.Unresolved c e ↔ ∃ seen d, ahead c = .ok seen d ∧ seen ≠ .null ∧
      (lookForLabel table.key d = .error e d ∨
        ∃ label, lookForLabel table.key d = .ok label d ∧ table.resolve label = .error e) := by
  constructor
  · intro unresolved
    cases unresolved with
    | unsearched looked value failed =>
      exact ⟨_, _, looked, value, .inl (lookForLabel_failed.mpr ⟨rfl, _, failed⟩)⟩
    | missing looked value searched policy =>
      exact ⟨_, _, looked, value, .inr ⟨none, lookForLabel_ok.mpr ⟨rfl, _, searched⟩,
        resolve_error.mpr ⟨policy, .inl ⟨rfl, rfl⟩⟩⟩⟩
    | unknown looked value searched foreign policy =>
      exact ⟨_, _, looked, value, .inr ⟨_, lookForLabel_ok.mpr ⟨rfl, _, searched⟩,
        resolve_error.mpr ⟨policy, .inr ⟨_, rfl, foreign, rfl⟩⟩⟩⟩
  · rintro ⟨seen, d, looked, value, failed | ⟨label, searched, unresolved⟩⟩
    · obtain ⟨-, m, failed⟩ := lookForLabel_failed.mp failed
      exact .unsearched looked value failed
    · obtain ⟨-, m, searched⟩ := lookForLabel_ok.mp searched
      obtain ⟨policy, ⟨rfl, rfl⟩ | ⟨text, rfl, foreign, rfl⟩⟩ := resolve_error.mp unresolved
      · exact .missing looked value searched policy
      · exact .unknown looked value searched foreign policy

theorem nextNull_ahead {c d : Cursor} (looked : ahead c = .ok .null d) :
    nextNull d = .ok () ({ d with ahead := none }.valueTaken) :=
  nextNull_iff.mpr ⟨d, ahead_twice looked, rfl⟩

section Table
variable {table : Table α} {strict : Bool} {c c' d : Cursor} {seen : Ahead} {e : DecodeError}

theorem Table.read_null (looked : ahead c = .ok .null d) :
    table.read strict c = .ok none ({ d with ahead := none }.valueTaken) := by
  rw [Table.read_eq, bind_of_ok (peek_ahead looked), token_null.mpr rfl, if_pos rfl,
    bind_of_ok (nextNull_ahead looked)]
  rfl

theorem Table.read_value (looked : ahead c = .ok seen d) (value : seen ≠ .null) :
    table.read strict c = (lookForLabel table.key >>= fun label =>
      match table.resolve label with
      | .error e => throw e
      | .ok target => target.read table.key strict) d := by
  rw [Table.read_eq, bind_of_ok (peek_ahead looked)]
  exact congrFun (if_neg (mt token_null.mp value)) d

/-- A read that fails does so before the value, over its label, or inside of it. -/
theorem Table.read_error : table.read strict c = .error e c' ↔ ahead c = .error e c' ∨
    (table.Unresolved c e ∧ c' = (ending (peek c)).cursor) ∨
    ∃ seen d label target, ahead c = .ok seen d ∧ seen ≠ .null ∧
      lookForLabel table.key d = .ok label d ∧ table.resolve label = .ok target ∧
      target.read table.key strict d = .error e c' := by
  constructor
  · intro failed
    cases looked : ahead c with
    | error e' d =>
      rw [Table.read_eq, bind_of_error (peek_failed looked)] at failed
      cases failed
      exact .inl rfl
    | ok seen d =>
      by_cases null : seen = .null
      · subst null
        rw [Table.read_null looked] at failed
        cases failed
      · rw [Table.read_value looked null] at failed
        have peeked : (ending (peek c)).cursor = d := by rw [peek_ahead looked]; rfl
        rcases bind_error.mp failed with stopped | ⟨label, d', searched, rest⟩
        · obtain ⟨rfl, -⟩ := lookForLabel_failed.mp stopped
          exact .inr (.inl ⟨Table.unresolved_iff.mpr ⟨seen, _, looked, null, .inl stopped⟩,
            peeked.symm⟩)
        · obtain ⟨rfl, -⟩ := lookForLabel_ok.mp searched
          cases resolved : table.resolve label with
          | error e' =>
            rw [resolved] at rest
            cases rest
            exact .inr (.inl ⟨Table.unresolved_iff.mpr
              ⟨seen, _, looked, null, .inr ⟨label, searched, resolved⟩⟩, peeked.symm⟩)
          | ok target =>
            rw [resolved] at rest
            exact .inr (.inr ⟨seen, d', label, target, rfl, null, searched, resolved, rest⟩)
  · rintro (stopped | ⟨unresolved, rfl⟩ | ⟨seen, d, label, target, looked, null, searched,
      resolved, failed⟩)
    · rw [Table.read_eq, bind_of_error (peek_failed stopped)]
    · obtain ⟨seen, d, looked, null, stopped | ⟨label, searched, resolved⟩⟩ :=
        Table.unresolved_iff.mp unresolved
      all_goals rw [Table.read_value looked null, peek_ahead looked, ending]
      · exact bind_of_error stopped
      · rw [bind_of_ok searched, resolved]
        rfl
    · rw [Table.read_value looked null, bind_of_ok searched, resolved]
      exact failed

/-- What is left of an object without a reading is what a look leaves, in front of the object. -/
theorem Table.Unresolved.read (unresolved : table.Unresolved c e) :
    table.read strict c = .error e (ending (peek c)).cursor ∧
      ∀ document c', Reads document (ending (peek c)).cursor c' ↔ Reads document c c' := by
  refine ⟨Table.read_error.mpr (.inr (.inl ⟨unresolved, rfl⟩)), fun document c' => ?_⟩
  obtain ⟨seen, d, looked, -, -⟩ := Table.unresolved_iff.mp unresolved
  rw [peek_ahead looked]
  exact reads_looked looked

end Table

/-- However reading ends, the flag and the allowances are those from before. Over an object that it
cannot search or whose label it cannot resolve, a table fails where a look at it leaves the cursor,
which is still in front of the object. -/
theorem reading_restores (α : Type) :
    (∀ (adapter : Adapter α) (c : Cursor), Restores c (ending (adapter.read c))) ∧
      ∀ (table : Table α) (strict : Bool) (c : Cursor), Restores c (ending (table.read strict c)) ∧
        ∀ e, table.Unresolved c e → table.read strict c = .error e (ending (peek c)).cursor ∧
          ∀ document c', Reads document (ending (peek c)).cursor c' ↔ Reads document c c' := by
  refine ⟨adapter_restores, fun table strict c => ⟨table_restores table strict c, ?_⟩⟩
  intro e unresolved
  exact unresolved.read

/-- An object with a label, for a table without entries. -/
def strayLabel : Value := .object [("type", .string "circle")]

theorem stray_label_stays : ∃ d, (⟨"type", [], [], .none⟩ : Table Unit).read true
      (Cursor.ofText strayLabel.text) = .error (.unknownLabel "type" "circle" []) d ∧
    Restores (Cursor.ofText strayLabel.text) ⟨some (.unknownLabel "type" "circle" []), d⟩ ∧
    ∃ c, Reads strayLabel.document d c := by
  obtain ⟨c, reads, -⟩ := reads_text.mpr ⟨strayLabel.text_spells, by decide⟩
  obtain ⟨_, ⟨d, looked, -⟩, -⟩ := id reads
  have here : Reads strayLabel.document d c := (reads_looked looked).mpr reads
  have searched : lookForLabel "type" d = .ok (some "circle") d :=
    (lookForLabel_iff here).mpr ⟨rfl, _, rfl, rfl⟩
  obtain ⟨-, m, found⟩ := lookForLabel_ok.mp searched
  have unresolved : (⟨"type", [], [], .none⟩ : Table Unit).Unresolved
      (Cursor.ofText strayLabel.text) (.unknownLabel "type" "circle" []) :=
    .unknown looked nofun found rfl rfl
  obtain ⟨restored, stays⟩ :=
    (reading_restores Unit).2 ⟨"type", [], [], .none⟩ true (Cursor.ofText strayLabel.text)
  obtain ⟨failed, front⟩ := stays _ unresolved
  rw [failed] at restored
  exact ⟨_, failed, restored, c, (front _ _).mpr reads⟩

end TaggedJson.Hierarchy
