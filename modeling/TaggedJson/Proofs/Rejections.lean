import TaggedJson.Proofs.Delegates
import TaggedJson.Proofs.Nesting
import TaggedJson.Proofs.Paths
/-! Where strict reading stops. The members up to the first unknown name are passed, the failure is
reported under that name, and whatever the object is read through hands the failure on as it is. -/
namespace TaggedJson.Pull
open Json (Document)

theorem bind_of_ok {x : Pull α} {f : α → Pull β} {c d : Cursor} {a : α} (ran : x c = .ok a d) :
    (x >>= f) c = f a d := by
  show EStateM.bind x f c = _
  rw [EStateM.bind, ran]

theorem bind_of_error {x : Pull α} {f : α → Pull β} {c d : Cursor} {e : DecodeError}
    (failed : x c = .error e d) : (x >>= f) c = .error e d := by
  show EStateM.bind x f c = _
  rw [EStateM.bind, failed]

theorem map_of_error {f : α → β} {x : Pull α} {c d : Cursor} {e : DecodeError}
    (failed : x c = .error e d) : (f <$> x) c = .error e d := by
  show EStateM.map f x c = _
  rw [EStateM.map, failed]

theorem peek_ahead {c d : Cursor} {seen : Ahead} (looked : ahead c = .ok seen d) :
    peek c = .ok seen.token d := by
  rw [peek, looked]

theorem peek_failed {c d : Cursor} {e : DecodeError} (stopped : ahead c = .error e d) :
    peek c = .error e d := by
  rw [peek, stopped]

/-- The path of a member goes on from that of its object. -/
theorem pathText_field {c e : Cursor} {name : String}
    (within : e.path = .field (some name) :: c.path) :
    e.pathText = c.pathText ++ "." ++ name := by
  rw [Cursor.pathText, within, List.foldr_cons, ← Cursor.pathText, Step.text, String.append_assoc]

/-! Members that are passed. -/

theorem skipName_refused {c d : Cursor} {name : String} (taken : (Event.name name).Taken c d)
    (strict : d.failOnUnknown = true) (unknown : d.allows name = false) :
    skipName c = .error (.unexpectedName name d.pathText) d := by
  have refused : (d.failOnUnknown && !d.allows name) = true := by rw [strict, unknown]; rfl
  rw [skipName, bind_of_ok (nextName_iff.mpr taken)]
  show (get >>= fun c => if c.failOnUnknown && !c.allows name then
    fail fun c => .unexpectedName name c.pathText else pure ()) d = _
  rw [bind_of_ok (get_ok.mpr ⟨rfl, rfl⟩), if_pos refused]
  rfl

section Members
variable {name : String} {document : Document} {c d e : Cursor}

theorem skipStep_refused (inside : c.Inside) (taken : (Event.name name).Taken c d)
    (strict : c.inner.strict = true) (unknown : c.inner.allows name = false) :
    skipStep () c = .error (.unexpectedName name d.pathText) d := by
  obtain ⟨-, -, same⟩ := inside_named inside taken
  obtain ⟨m, looked, -⟩ := id taken
  have next : hasNext c = .ok true m := hasNext_iff.mpr ⟨_, looked, rfl⟩
  have strict : d.failOnUnknown = true := by
    rw [← same] at strict
    exact strict
  have unknown : d.allows name = false := by rw [allows_inner, same, unknown]
  rw [skipStep, bind_of_ok next, if_pos rfl]
  exact bind_of_error (skipName_refused ((taken_looked looked).mpr taken) strict unknown)

theorem skipStep_passed (inside : c.Inside)
    (runs : Runs (.name name :: documentEvents document) c e)
    (known : c.inner.allows name = true) : skipStep () c = .ok (.inl ()) e := by
  have passed : c.inner.pass () (name, document) = some () := by
    rw [Setting.pass, known, Bool.or_true, if_pos rfl]
  have took := (skipMore_takes () c (.inl ()) e inside).mpr ⟨(), name, document, rfl, runs, passed⟩
  obtain ⟨d, ⟨m, looked, -⟩, -⟩ := runs
  have next : hasNext c = .ok true m := hasNext_iff.mpr ⟨_, looked, rfl⟩
  rw [looks_skipMore () c _ m looked] at took
  rw [skipStep, bind_of_ok next, if_pos rfl]
  exact took

end Members

/-- The loop passes members up to the first unknown name, and fails there. -/
theorem skipLoop_refused {members : List (String × Document)} {c c' : Cursor}
    {before : Option String} {outer : List Step} (inside : c.Inside)
    (within : c.path = .field before :: outer) (runs : Runs (memberEvents members) c c')
    (strict : c.inner.strict = true)
    (refused : ∃ member ∈ members, c.inner.allows member.1 = false) :
    ∃ name d, name ∈ members.map Prod.fst ∧ c.inner.allows name = false ∧
      d.path = .field (some name) :: outer ∧
      iterate skipStep skipStep_advances () c = .error (.unexpectedName name d.pathText) d := by
  induction members generalizing c before with
  | nil =>
    obtain ⟨_, none, -⟩ := refused
    cases none
  | cons member rest ih =>
    obtain ⟨name, document⟩ := member
    obtain ⟨e, first, others⟩ := runs_append.mp (show Runs
      ((.name name :: documentEvents document) ++ memberEvents rest) c c' from runs)
    by_cases known : c.inner.allows name = true
    · obtain ⟨insideToo, same⟩ := inside_member inside first
      have later : ∃ member ∈ rest, c.inner.allows member.1 = false := by
        obtain ⟨member, here, unknown⟩ := refused
        rcases List.mem_cons.mp here with rfl | later
        · rw [known] at unknown
          cases unknown
        · exact ⟨member, later, unknown⟩
      rw [← same] at strict later
      obtain ⟨other, d, named, unknown, path, failed⟩ :=
        ih insideToo (member_path within first) others strict later
      rw [same] at unknown
      refine ⟨other, d, List.mem_cons_of_mem _ named, unknown, path, ?_⟩
      rw [iterate_step (skipStep_passed inside first known)]
      exact failed
    · obtain ⟨d, taken, -⟩ := first
      have unknown := Bool.eq_false_iff.mpr known
      refine ⟨name, d, List.mem_cons_self, unknown, ?_, ?_⟩
      · rw [taken_path taken, within]
        rfl
      · exact iterate_error (skipStep_refused inside taken strict unknown)

/-- An object that could be read is passed up to its first unknown name. -/
theorem skipMembers_refused {members : List (String × Document)} {c c' : Cursor}
    (reads : Reads (.object members) c c') (strict : c.setting.strict = true)
    (refused : ∃ member ∈ members, c.setting.allows member.1 = false) :
    ∃ name d, name ∈ members.map Prod.fst ∧ c.setting.allows name = false ∧
      skipMembers c = .error (.unexpectedName name (c.pathText ++ "." ++ name)) d := by
  obtain ⟨d, opened, runs⟩ := reads
  obtain ⟨inside, same⟩ := inside_opened opened
  rw [← same] at strict refused ⊢
  obtain ⟨name, e, named, unknown, path, failed⟩ :=
    skipLoop_refused inside (taken_path opened) runs strict refused
  refine ⟨name, e, named, unknown, ?_⟩
  have begun : beginObject c = .ok () d := beginObject_iff.mpr opened
  rw [← pathText_field path, skipMembers, bind_of_ok begun]
  exact bind_of_error failed

end TaggedJson.Pull

namespace TaggedJson.Hierarchy
open Json Pull
variable {α : Type}

/-- A payload that strict reading objects to. -/
theorem PayloadForm.read_refused {form : PayloadForm α} {c c' : Cursor} {fields : Fields}
    {value : α} {objection : Objection} (took : takeFields c = .ok fields c')
    (made : form.ofFields? fields.values = some value) (strict : c.failOnUnknown = true)
    (objects : form.objection? fields = some objection) :
    form.read c = .error (objection.error c.pathText) c' := by
  rw [PayloadForm.read, bind_of_ok (get_ok.mpr ⟨rfl, rfl⟩), bind_of_ok took, made]
  simp only [strict, if_true, objects]
  rfl

/-! What an object is handed on through. -/

theorem withStrict_refused {β : Type} {body : Pull β} {strict : Bool} {c d : Cursor}
    {e : DecodeError}
    (failed : body (c.under (c.failOnUnknown || strict) c.allowances) = .error e d) :
    withStrict strict body c = .error e { d with failOnUnknown := c.failOnUnknown } := by
  have raised : (do
      modify fun c => { c with failOnUnknown := c.failOnUnknown || strict }
      body : Pull β) c = body (c.under (c.failOnUnknown || strict) c.allowances) := rfl
  rw [withStrict, keepingFlag, raised, failed]

theorem withKey_refused {β : Type} {body : Pull β} {key : String} {stripped : Bool} {c d : Cursor}
    {e : DecodeError} (failed : body (c.under c.failOnUnknown
      (⟨key, c.scopes.length + 1, stripped⟩ :: c.allowances)) = .error e d) :
    withKey key stripped body c = .error e { d with allowances := d.allowances.tail } := by
  rw [Cursor.under] at failed
  simp only [withKey, failed]

theorem read_adapterOf (body : Body α) : body.read = body.adapterOf.read := by
  cases body with
  | adapter adapter => rw [Body.read, Body.adapterOf]
  | singleton value => rw [Body.read, Body.adapterOf, Adapter.read]

section Handed
variable {target : Target α} {adapter : Adapter α} {stripped : Bool}

theorem Target.read_handed (handed : target.delegate? = some (adapter, stripped)) (key : String)
    (strict : Bool) : target.read key strict =
      some <$> withStrict strict (withKey key stripped adapter.read) := by
  cases target with
  | subtype entry =>
    cases handed
    rw [Target.read, read_adapterOf]
  | fallback inner =>
    cases handed
    rfl
  | null => cases handed
  | object value => cases handed

/-- The cursor that the adapter behind a table reads from. -/
def inward (key : String) (stripped strict : Bool) (c : Cursor) : Cursor :=
  c.under (c.failOnUnknown || strict) (⟨key, c.scopes.length + 1, stripped⟩ :: c.allowances)

theorem inward_setting (key : String) (stripped strict : Bool) (c : Cursor) :
    (inward key stripped strict c).setting =
      (c.setting.strictly strict).withKey key stripped := by
  simp [inward, Cursor.setting, Cursor.under, keysAt, Setting.withKey, Setting.strictly]

theorem Target.read_refused (handed : target.delegate? = some (adapter, stripped)) {key : String}
    {strict : Bool} {c d : Cursor} {e : DecodeError}
    (failed : adapter.read (inward key stripped strict c) = .error e d) :
    ∃ d', target.read key strict c = .error e d' := by
  have keyed : withKey key stripped adapter.read
      (c.under (c.failOnUnknown || strict) c.allowances) = .error e _ := withKey_refused failed
  rw [Target.read_handed handed]
  exact ⟨_, map_of_error (withStrict_refused keyed)⟩

/-- A table fails as the adapter does that it hands the object on to. -/
theorem Table.read_refused {table : Table α} {strict : Bool} {label : Option String}
    {members : List (String × Document)} (labeled : labelOf? table.key members = some label)
    (resolved : table.resolve label = .ok target)
    (handed : target.delegate? = some (adapter, stripped)) {c c' : Cursor}
    (reads : Reads (.object members) c c') {reason : DecodeError → Prop}
    (failed : ∀ i i', Reads (.object members) i i' →
      i.setting = (c.setting.strictly strict).withKey table.key stripped →
      i.pathText = c.pathText → ∃ e d, reason e ∧ adapter.read i = .error e d) :
    ∃ e d, reason e ∧ table.read strict c = .error e d := by
  obtain ⟨_, ⟨m, looked, _⟩, _⟩ := id reads
  have here := (reads_looked looked).mpr reads
  have searched := (lookForLabel_iff here).mpr ⟨rfl, members, rfl, labeled⟩
  have peeked : peek c = .ok .beginObject m := peek_iff.mpr ⟨_, looked, rfl⟩
  have setting : (inward table.key stripped strict m).setting =
      (c.setting.strictly strict).withKey table.key stripped := by
    rw [inward_setting, setting_looked looked]
  have path : (inward table.key stripped strict m).pathText = c.pathText := by
    show m.pathText = c.pathText
    rw [Cursor.pathText, Cursor.pathText, looked_path looked]
  obtain ⟨e, d, because, refused⟩ := failed _ _ (runs_under _ _ here) setting path
  obtain ⟨d', targeted⟩ := Target.read_refused handed refused
  refine ⟨e, d', because, ?_⟩
  rw [Table.read_eq, bind_of_ok peeked, if_neg (by decide), bind_of_ok searched, resolved]
  exact targeted

end Handed

end TaggedJson.Hierarchy
