import TaggedJson.Hierarchy.Decode
import TaggedJson.Proofs.Objects
import TaggedJson.Proofs.Reading
/-! What a table reads, as a function of the whole document. The label is that of the first member
with the table's key, the entry it selects reads the members again, and what is passed or stripped
on the way is a matter of names alone. Reading from a text gives the same verdict. -/
namespace TaggedJson.Pull.Setting

/-- No names are let through at the start of a text, and unknown ones are passed. -/
def outermost : Setting := ⟨false, []⟩

/-- The setting once more names may fail. -/
def strictly (setting : Setting) (strict : Bool) : Setting :=
  { setting with strict := setting.strict || strict }

def withKey (setting : Setting) (key : String) (stripped : Bool) : Setting :=
  { setting with keys := (key, stripped) :: setting.keys }

@[simp] theorem strictly_false (setting : Setting) : setting.strictly false = setting := by
  rw [strictly, Bool.or_false]

theorem withKey_lookup (setting : Setting) (key : String) (stripped : Bool) (name : String) :
    (setting.withKey key stripped).keys.lookup name =
      if name = key then some stripped else setting.keys.lookup name := by
  rw [withKey]
  by_cases here : name = key
  · simp [here]
  · have apart : (name == key) = false := by simpa using here
    simp [List.lookup_cons, here, apart]

end TaggedJson.Pull.Setting

namespace TaggedJson.Hierarchy
open Json Pull
variable {α : Type}

def PayloadForm.ofMembers? (form : PayloadForm α) (setting : Setting)
    (members : List (String × Document)) : Option α :=
  (setting.fields? members).bind fun fields => (form.ofFields? fields.values).bind fun value =>
    if setting.strict && (form.objection? fields).isSome then none else some value

mutual
/-- The value of an object with the given members. -/
def Adapter.ofMembers? (adapter : Adapter α) (setting : Setting)
    (members : List (String × Document)) : Option α :=
  match adapter with
  | .record form => (setting.fields? members).map fun fields => form.ofFields fields.values
  | .payload form => form.ofMembers? setting members
  | .singleton value => if setting.skips members then some value else none
  | .failOnUnknown inner => inner.ofMembers? (setting.strictly true) members
  | .tagged table strict => (table.ofMembers? strict setting members).join
termination_by sizeOf adapter

def Table.ofMembers? (table : Table α) (strict : Bool) (setting : Setting)
    (members : List (String × Document)) : Option (Option α) :=
  (labelOf? table.key members).bind fun label =>
    match _ : table.resolve label with
    | .error _ => none
    | .ok .null => some none
    | .ok (.object value) => some (some value)
    | .ok (.fallback adapter) =>
      (adapter.ofMembers? ((setting.strictly strict).withKey table.key false) members).map some
    | .ok (.subtype entry) =>
      (entry.body.ofMembers? ((setting.strictly strict).withKey table.key true) members).map some
termination_by sizeOf table
decreasing_by
  · exact resolve_fallback_size ‹_›
  · exact Nat.lt_trans (body_size entry) (resolve_subtype_size ‹_›)

def Body.ofMembers? (body : Body α) (setting : Setting) (members : List (String × Document)) :
    Option α :=
  match body with
  | .adapter adapter => adapter.ofMembers? setting members
  | .singleton value => if setting.skips members then some value else none
termination_by sizeOf body
end

/-- The value of an object whose label resolves to the target. -/
def Target.ofMembers? (target : Target α) (key : String) (strict : Bool) (setting : Setting)
    (members : List (String × Document)) : Option (Option α) :=
  match target with
  | .null => some none
  | .object value => some (some value)
  | .fallback adapter =>
    (adapter.ofMembers? ((setting.strictly strict).withKey key false) members).map some
  | .subtype entry =>
    (entry.body.ofMembers? ((setting.strictly strict).withKey key true) members).map some

theorem Table.ofMembers?_eq (table : Table α) (strict : Bool) (setting : Setting)
    (members : List (String × Document)) : table.ofMembers? strict setting members =
      (labelOf? table.key members).bind fun label =>
        (table.resolve label).toOption.bind fun target =>
          target.ofMembers? table.key strict setting members := by
  rw [Table.ofMembers?]
  congr 1
  funext label
  split <;> rename_i resolved <;> rw [resolved] <;> rfl

theorem Table.ofMembers?_resolved {table : Table α} {members : List (String × Document)}
    {label : Option String} {target : Target α} (labeled : labelOf? table.key members = some label)
    (resolved : table.resolve label = .ok target) (strict : Bool) (setting : Setting) :
    table.ofMembers? strict setting members =
      target.ofMembers? table.key strict setting members := by
  rw [Table.ofMembers?_eq, labeled, Option.bind_some, resolved]
  rfl

theorem toOption_some {ε : Type} {made : Except ε β} {value : β} :
    made.toOption = some value ↔ made = .ok value := by
  cases made <;> simp [Except.toOption]

/-- A result comes from a target that the label of the members resolves to. -/
theorem Table.ofMembers?_some {table : Table α} {strict : Bool} {setting : Setting}
    {members : List (String × Document)} {result : Option α} :
    table.ofMembers? strict setting members = some result ↔ ∃ label target,
      labelOf? table.key members = some label ∧ table.resolve label = .ok target ∧
        target.ofMembers? table.key strict setting members = some result := by
  rw [Table.ofMembers?_eq, Option.bind_eq_some_iff]
  simp only [Option.bind_eq_some_iff, toOption_some, exists_and_left]

/-- The value of a document; null is no value. -/
def Table.ofDocument? (table : Table α) (strict : Bool) (setting : Setting) :
    Document → Option (Option α)
  | .null => some none
  | .object members => table.ofMembers? strict setting members
  | _ => none

/-! Reading an object agrees with what its members say. -/

/-- A body takes objects, and what it makes of one depends on the setting and the members. -/
def Decodes (body : Pull β) (made : Setting → List (String × Document) → Option β) : Prop :=
  ∀ c c' value, body c = .ok value c' ↔
    ∃ members, Reads (.object members) c c' ∧ made c.setting members = some value

theorem map_ok {f : β → γ} {body : Pull β} {c c' : Cursor} {b : γ} :
    (f <$> body) c = .ok b c' ↔ ∃ a, body c = .ok a c' ∧ f a = b := by
  show EStateM.map f body c = _ ↔ _
  unfold EStateM.map
  cases body c with
  | error => simp
  | ok a d =>
    constructor
    · rintro ⟨⟩
      exact ⟨a, rfl, rfl⟩
    · rintro ⟨_, ⟨⟩, rfl⟩
      rfl

section Decodes
variable {β γ : Type} {body : Pull β} {made : Setting → List (String × Document) → Option β}

theorem Decodes.map (decodes : Decodes body made) (f : β → γ) :
    Decodes (f <$> body) fun setting members => (made setting members).map f := by
  intro c c' value
  rw [map_ok]
  constructor
  · rintro ⟨a, ran, rfl⟩
    obtain ⟨members, reads, found⟩ := (decodes ..).mp ran
    exact ⟨members, reads, congrArg (Option.map f) found⟩
  · rintro ⟨members, reads, found⟩
    obtain ⟨a, made, rfl⟩ := Option.map_eq_some_iff.mp found
    exact ⟨a, (decodes ..).mpr ⟨members, reads, made⟩, rfl⟩

theorem Decodes.frame (decodes : Decodes body made) {c c' : Cursor} {value : β}
    (ran : body c = .ok value c') :
    c'.failOnUnknown = c.failOnUnknown ∧ c'.allowances = c.allowances := by
  obtain ⟨members, reads, -⟩ := (decodes ..).mp ran
  exact runs_frame reads

/-- A body that runs under another frame and then goes back to the one before. -/
theorem Decodes.under (decodes : Decodes body made) {flag : Bool} {allowances : List Allowance}
    {c c' : Cursor} {value : β} :
    (∃ e, body (c.under flag allowances) = .ok value e ∧
      c' = e.under c.failOnUnknown c.allowances) ↔
      ∃ members, Reads (.object members) c c' ∧
        made (c.under flag allowances).setting members = some value := by
  constructor
  · rintro ⟨e, ran, rfl⟩
    obtain ⟨members, reads, found⟩ := (decodes ..).mp ran
    obtain ⟨d, runs, rfl⟩ := runs_under_iff.mp reads
    have back : (d.under flag allowances).under c.failOnUnknown c.allowances = d := by
      rw [← (runs_frame runs).1, ← (runs_frame runs).2]
      rfl
    exact ⟨members, by rwa [back], found⟩
  · rintro ⟨members, reads, found⟩
    have frame := runs_frame reads
    refine ⟨_, (decodes ..).mpr ⟨members, runs_under flag allowances reads, found⟩, ?_⟩
    rw [← frame.1, ← frame.2]
    rfl

theorem withStrict_ok {strict : Bool} {value : β} {c c' : Cursor} :
    Hierarchy.withStrict strict body c = .ok value c' ↔
      ∃ after, body (c.under (c.failOnUnknown || strict) c.allowances) = .ok value after ∧
        c' = { after with failOnUnknown := c.failOnUnknown } := by
  have raised : (do
      modify fun c => { c with failOnUnknown := c.failOnUnknown || strict }
      body : Pull β) c = body (c.under (c.failOnUnknown || strict) c.allowances) := rfl
  rw [Hierarchy.withStrict, keepingFlag, raised]
  cases body (c.under (c.failOnUnknown || strict) c.allowances) <;> simp [eq_comm, and_assoc]

theorem withKey_ok {key : String} {stripped : Bool} {value : β} {c c' : Cursor} :
    Hierarchy.withKey key stripped body c = .ok value c' ↔
      ∃ after, body (c.under c.failOnUnknown
          (⟨key, c.scopes.length + 1, stripped⟩ :: c.allowances)) = .ok value after ∧
        c' = { after with allowances := after.allowances.tail } := by
  simp only [Hierarchy.withKey, Cursor.under]
  cases body { c with allowances := ⟨key, c.scopes.length + 1, stripped⟩ :: c.allowances } <;>
    simp [eq_comm, and_assoc]

theorem Decodes.withStrict (decodes : Decodes body made) (strict : Bool) :
    Decodes (Hierarchy.withStrict strict body) fun setting => made (setting.strictly strict) := by
  intro c c' value
  have strictly : (c.under (c.failOnUnknown || strict) c.allowances).setting =
      c.setting.strictly strict := rfl
  simp only [← strictly, ← decodes.under]
  rw [withStrict_ok]
  -- Both sides run the body from one cursor, and the body keeps the allowances.
  refine exists_congr fun after => and_congr_right fun ran => ?_
  have frame : after.allowances = c.allowances := (decodes.frame ran).2
  rw [Cursor.under, ← frame]

theorem Decodes.withKey (decodes : Decodes body made) (key : String) (stripped : Bool) :
    Decodes (Hierarchy.withKey key stripped body)
      fun setting => made (setting.withKey key stripped) := by
  intro c c' value
  have keyed : (c.under c.failOnUnknown (⟨key, c.scopes.length + 1, stripped⟩ ::
      c.allowances)).setting = c.setting.withKey key stripped := by
    simp [Cursor.setting, Cursor.under, keysAt, Setting.withKey]
  simp only [← keyed, ← decodes.under]
  rw [withKey_ok]
  -- The body keeps the allowance on top, so taking the top off leaves those from before.
  refine exists_congr fun after => and_congr_right fun ran => ?_
  obtain ⟨flag, allowances⟩ := decodes.frame ran
  have flag : after.failOnUnknown = c.failOnUnknown := flag
  rw [Cursor.under, ← flag, allowances]
  rfl

/-- What an object is handed on to reads it with one key more let through. -/
theorem Decodes.tagged (decodes : Decodes body made) (key : String) (strict stripped : Bool) :
    Decodes (some <$> Hierarchy.withStrict strict (Hierarchy.withKey key stripped body))
      fun setting members =>
        (made ((setting.strictly strict).withKey key stripped) members).map some :=
  ((decodes.withKey key stripped).withStrict strict).map some

end Decodes

theorem record_decodes (form : RecordForm α) :
    Decodes (takeFields >>= fun fields => pure (form.ofFields fields.values))
      fun setting members => (setting.fields? members).map fun fields =>
        form.ofFields fields.values := by
  intro c c' value
  rw [returns_iff]
  simp only [takeFields_iff]
  constructor
  · rintro ⟨fields, ⟨members, reads, found⟩, rfl⟩
    exact ⟨members, reads, by rw [found]; rfl⟩
  · rintro ⟨members, reads, found⟩
    obtain ⟨fields, taken, rfl⟩ := Option.map_eq_some_iff.mp found
    exact ⟨fields, ⟨members, reads, taken⟩, rfl⟩

theorem PayloadForm.read_ok {form : PayloadForm α} {c c' : Cursor} {value : α} :
    form.read c = .ok value c' ↔ ∃ fields, takeFields c = .ok fields c' ∧
      ((form.ofFields? fields.values).bind fun made =>
        if c.failOnUnknown && (form.objection? fields).isSome then none else some made) =
          some value := by
  simp only [PayloadForm.read, bind_ok, get_ok, and_assoc, exists_and_left, exists_eq_left']
  refine exists_congr fun fields => ?_
  cases form.ofFields? fields.values with
  | none => simp [fail_ok]
  | some made =>
    cases c.failOnUnknown <;> cases form.objection? fields <;> simp [pure_ok, fail_ok]

theorem payload_decodes (form : PayloadForm α) : Decodes form.read form.ofMembers? := by
  intro c c' value
  rw [PayloadForm.read_ok]
  constructor
  · rintro ⟨fields, took, made⟩
    obtain ⟨members, reads, found⟩ := takeFields_iff.mp took
    exact ⟨members, reads, Option.bind_eq_some_iff.mpr ⟨fields, found, made⟩⟩
  · rintro ⟨members, reads, found⟩
    obtain ⟨fields, taken, made⟩ := Option.bind_eq_some_iff.mp found
    exact ⟨fields, takeFields_iff.mpr ⟨members, reads, taken⟩, made⟩

theorem singleton_decodes (value : α) : Decodes (skipMembers >>= fun _ => pure value)
    fun setting members => if setting.skips members then some value else none := by
  intro c c' made
  rw [returns_iff]
  simp only [skipMembers_iff, Option.ite_none_right_eq_some, Option.some.injEq]
  constructor
  · rintro ⟨_, ⟨members, reads, passed⟩, same⟩
    exact ⟨members, reads, passed, same⟩
  · rintro ⟨members, reads, passed, same⟩
    exact ⟨(), ⟨members, reads, passed⟩, same⟩

/-! Tables. -/

theorem peek_iff {c d : Cursor} {token : Token} :
    peek c = .ok token d ↔ ∃ seen, ahead c = .ok seen d ∧ token = seen.token := by
  unfold peek
  cases looked : ahead c with
  | error => simp
  | ok seen e =>
    constructor
    · rintro ⟨⟩
      exact ⟨seen, rfl, rfl⟩
    · rintro ⟨_, ⟨⟩, rfl⟩
      rfl

theorem token_null {seen : Ahead} : seen.token = .null ↔ seen = .null := by
  cases seen <;> simp [Ahead.token]

theorem reads_looked {document : Document} {c c' d : Cursor} {seen : Ahead}
    (looked : ahead c = .ok seen d) : Reads document d c' ↔ Reads document c c' :=
  runs_looked (documentEvents_ne_nil document) looked

/-- What a label resolves to reads the document from its start. -/
def Target.read (target : Target α) (key : String) (strict : Bool) : Pull (Option α) :=
  match target with
  | .null => skipValue >>= fun _ => pure none
  | .object value => skipValue >>= fun _ => pure (some value)
  | .fallback adapter => some <$> withStrict strict (withKey key false adapter.read)
  | .subtype entry => some <$> withStrict strict (withKey key true entry.body.read)

theorem Table.read_eq (table : Table α) (strict : Bool) : table.read strict =
    (peek >>= fun token =>
      if token = .null then nextNull >>= fun _ => pure none
      else lookForLabel table.key >>= fun label =>
        match table.resolve label with
        | .error e => throw e
        | .ok target => target.read table.key strict) := by
  rw [Table.read]
  congr 1
  funext token
  congr 1
  congr 1
  funext label
  split <;> rename_i resolved <;> rw [resolved] <;> rfl

theorem Table.read_ok {table : Table α} {strict : Bool} {c c' : Cursor} {result : Option α} :
    table.read strict c = .ok result c' ↔
      (∃ d, ahead c = .ok .null d ∧ Event.null.Taken d c' ∧ result = none) ∨
      ∃ seen d label target, ahead c = .ok seen d ∧ seen ≠ .null ∧
        lookForLabel table.key d = .ok label d ∧ table.resolve label = .ok target ∧
        target.read table.key strict d = .ok result c' := by
  rw [Table.read_eq]
  constructor
  · intro ran
    obtain ⟨token, d, peeked, rest⟩ := bind_ok.mp ran
    obtain ⟨seen, looked, rfl⟩ := peek_iff.mp peeked
    by_cases null : seen = .null
    · rw [if_pos (token_null.mpr null)] at rest
      obtain ⟨_, taken, rfl⟩ := returns_iff.mp rest
      exact .inl ⟨d, null ▸ looked, nextNull_iff.mp taken, rfl⟩
    · rw [if_neg (mt token_null.mp null)] at rest
      obtain ⟨label, e, searched, chosen⟩ := bind_ok.mp rest
      obtain ⟨rfl, -⟩ := lookForLabel_ok.mp searched
      cases resolved : table.resolve label with
      | error =>
        rw [resolved] at chosen
        cases chosen
      | ok target =>
        rw [resolved] at chosen
        exact .inr ⟨seen, e, label, target, looked, null, searched, resolved, chosen⟩
  · rintro (⟨d, looked, taken, rfl⟩ |
      ⟨seen, d, label, target, looked, null, searched, resolved, ran⟩)
    · refine bind_ok.mpr ⟨.null, d, peek_iff.mpr ⟨_, looked, rfl⟩, ?_⟩
      rw [if_pos rfl]
      exact returns_iff.mpr ⟨(), nextNull_iff.mpr taken, rfl⟩
    · refine bind_ok.mpr ⟨seen.token, d, peek_iff.mpr ⟨_, looked, rfl⟩, ?_⟩
      rw [if_neg (mt token_null.mp null)]
      refine bind_ok.mpr ⟨label, d, searched, ?_⟩
      rw [resolved]
      exact ran

theorem skipped_iff {result : β} {c c' : Cursor} {value : β} :
    (skipValue >>= fun _ => (pure value : Pull β)) c = .ok result c' ↔
      ∃ document, Reads document c c' ∧ value = result := by
  rw [returns_iff]
  simp only [skipValue_iff]
  constructor
  · rintro ⟨_, ⟨document, reads⟩, same⟩
    exact ⟨document, reads, same⟩
  · rintro ⟨document, reads, same⟩
    exact ⟨(), ⟨document, reads⟩, same⟩

/-- What the target hands the members on to reads objects. -/
def Target.Decoded : Target α → Prop
  | .subtype entry => Decodes entry.body.read entry.body.ofMembers?
  | .fallback adapter => Decodes adapter.read adapter.ofMembers?
  | .null | .object _ => True

theorem Target.reads {target : Target α} (decoded : target.Decoded) {key : String} {strict : Bool}
    {c c' : Cursor} {result : Option α} (ran : target.read key strict c = .ok result c') :
    ∃ document, Reads document c c' ∧ ∀ members, document = .object members →
      target.ofMembers? key strict c.setting members = some result := by
  cases target with
  | null =>
    obtain ⟨document, reads, rfl⟩ := skipped_iff.mp ran
    exact ⟨document, reads, fun _ _ => rfl⟩
  | object value =>
    obtain ⟨document, reads, rfl⟩ := skipped_iff.mp ran
    exact ⟨document, reads, fun _ _ => rfl⟩
  | fallback adapter =>
    obtain ⟨members, reads, made⟩ := (Decodes.tagged decoded key strict false ..).mp ran
    refine ⟨_, reads, ?_⟩
    rintro _ ⟨⟩
    exact made
  | subtype entry =>
    obtain ⟨members, reads, made⟩ := (Decodes.tagged decoded key strict true ..).mp ran
    refine ⟨_, reads, ?_⟩
    rintro _ ⟨⟩
    exact made

theorem Target.read_of_members {target : Target α} (decoded : target.Decoded) {key : String}
    {strict : Bool} {c c' : Cursor} {result : Option α} {members : List (String × Document)}
    (reads : Reads (.object members) c c')
    (made : target.ofMembers? key strict c.setting members = some result) :
    target.read key strict c = .ok result c' := by
  cases target with
  | null =>
    cases made
    exact skipped_iff.mpr ⟨_, reads, rfl⟩
  | object value =>
    cases made
    exact skipped_iff.mpr ⟨_, reads, rfl⟩
  | fallback adapter =>
    exact (Decodes.tagged decoded key strict false ..).mpr ⟨members, reads, made⟩
  | subtype entry =>
    exact (Decodes.tagged decoded key strict true ..).mpr ⟨members, reads, made⟩

theorem table_reads {table : Table α}
    (decoded : ∀ label target, table.resolve label = .ok target → target.Decoded) {strict : Bool}
    {c c' : Cursor} {result : Option α} : table.read strict c = .ok result c' ↔
      ∃ document, Reads document c c' ∧
        table.ofDocument? strict c.setting document = some result := by
  rw [Table.read_ok]
  constructor
  · rintro (⟨d, looked, taken, rfl⟩ |
      ⟨seen, d, label, target, looked, null, searched, resolved, ran⟩)
    · exact ⟨.null, runs_singleton.mpr ((taken_looked looked).mp taken), rfl⟩
    · -- The search alone does not tell that there is a whole object, so the target is read first.
      obtain ⟨document, reads, made⟩ := Target.reads (decoded label target resolved) ran
      obtain ⟨-, members, rfl, labeled⟩ := (lookForLabel_iff reads).mp searched
      refine ⟨.object members, (reads_looked looked).mp reads, ?_⟩
      rw [setting_looked looked] at made
      rw [Table.ofDocument?, Table.ofMembers?_eq, labeled, Option.bind_some, resolved]
      exact made members rfl
  · rintro ⟨document, reads, made⟩
    cases document with
    | null =>
      cases made
      have taken := runs_singleton.mp reads
      obtain ⟨d, looked, -⟩ := id taken
      exact .inl ⟨d, looked, (taken_looked looked).mpr taken, rfl⟩
    | object members =>
      obtain ⟨_, ⟨d, looked, _⟩, _⟩ := id reads
      rw [Table.ofDocument?, Table.ofMembers?_eq] at made
      obtain ⟨label, labeled, chosen⟩ := Option.bind_eq_some_iff.mp made
      obtain ⟨target, found, produced⟩ := Option.bind_eq_some_iff.mp chosen
      have resolved := toOption_some.mp found
      rw [← setting_looked looked] at produced
      have here := (reads_looked looked).mpr reads
      exact .inr ⟨_, d, label, target, looked, nofun,
        (lookForLabel_iff here).mpr ⟨rfl, members, rfl, labeled⟩, resolved,
        Target.read_of_members (decoded label target resolved) here produced⟩
    | _ => cases made

mutual
theorem adapter_decodes : ∀ adapter : Adapter α, Decodes adapter.read adapter.ofMembers?
  | .record form => by
    intro c c' value
    simp only [Adapter.read, Adapter.ofMembers?]
    exact record_decodes form c c' value
  | .payload form => by
    intro c c' value
    simp only [Adapter.read, Adapter.ofMembers?]
    exact payload_decodes form c c' value
  | .singleton value => by
    intro c c' made
    simp only [Adapter.read, Adapter.ofMembers?]
    exact singleton_decodes value c c' made
  | .failOnUnknown inner => by
    intro c c' value
    simp only [Adapter.read, Adapter.ofMembers?]
    exact (adapter_decodes inner).withStrict true c c' value
  | .tagged table strict => by
    intro c c' value
    simp only [Adapter.read, Adapter.ofMembers?]
    constructor
    · intro ran
      obtain ⟨found, d, read, rest⟩ := bind_ok.mp ran
      obtain ⟨document, reads, made⟩ := (table_read_iff table).mp read
      cases found with
      | none =>
        -- A hierarchy inside another has no value for what means null to it.
        exact (fail_ok.mp rest).elim
      | some v =>
        obtain ⟨rfl, rfl⟩ := pure_ok.mp rest
        cases document <;> first | exact ⟨_, reads, congrArg Option.join made⟩ | cases made
    · rintro ⟨members, reads, made⟩
      have made := Option.join_eq_some_iff.mp made
      exact bind_ok.mpr ⟨some value, c', (table_read_iff table).mpr ⟨_, reads, made⟩, rfl⟩
termination_by adapter => sizeOf adapter

theorem table_read_iff (table : Table α) {strict : Bool} {c c' : Cursor} {result : Option α} :
    table.read strict c = .ok result c' ↔
      ∃ document, Reads document c c' ∧ table.ofDocument? strict c.setting document = some result :=
  table_reads fun label target resolved => match target with
    | .subtype entry => body_decodes entry.body
    | .fallback adapter => adapter_decodes adapter
    | .null | .object _ => trivial
termination_by sizeOf table
decreasing_by
  · exact Nat.lt_trans (body_size entry) (resolve_subtype_size ‹_›)
  · exact resolve_fallback_size ‹_›

theorem body_decodes : ∀ body : Body α, Decodes body.read body.ofMembers?
  | .adapter adapter => by
    intro c c' value
    simp only [Body.read, Body.ofMembers?]
    exact adapter_decodes adapter c c' value
  | .singleton value => by
    intro c c' made
    simp only [Body.read, Body.ofMembers?]
    exact singleton_decodes value c c' made
termination_by body => sizeOf body
end

/-! Whole texts. -/

theorem decodeDocument_ok {body : Pull β} {text : String} {result : β} :
    decodeDocument body text = .ok result ↔
      ∃ c, body (Cursor.ofText text) = .ok result c ∧ ∃ c', expectEnd c = .ok () c' := by
  unfold decodeDocument
  have whole (c' : Cursor) : (do let value ← body; expectEnd; return value : Pull β)
      (Cursor.ofText text) = .ok result c' ↔
      ∃ c, body (Cursor.ofText text) = .ok result c ∧ expectEnd c = .ok () c' := by
    constructor
    · intro ran
      obtain ⟨value, c, made, rest⟩ := bind_ok.mp ran
      obtain ⟨_, ended, rfl⟩ := returns_iff.mp rest
      exact ⟨c, made, ended⟩
    · rintro ⟨c, made, ended⟩
      exact bind_ok.mpr ⟨result, c, made, returns_iff.mpr ⟨(), ended, rfl⟩⟩
  constructor
  · intro decoded
    split at decoded
    · rename_i value c' ran
      cases decoded
      obtain ⟨c, made, ended⟩ := (whole c').mp ran
      exact ⟨c, made, c', ended⟩
    · cases decoded
  · rintro ⟨c, made, c', ended⟩
    rw [(whole c').mpr ⟨c, made, ended⟩]

theorem Adapter.fromJson_ok {adapter : Adapter α} {text : String} {value : α} :
    adapter.fromJson text = .ok value ↔ ∃ members, Spells text (.object members) ∧
      (Document.object members).depth ≤ depthLimit ∧
        adapter.ofMembers? Setting.outermost members = some value := by
  rw [Adapter.fromJson, decodeDocument_ok]
  constructor
  · rintro ⟨c, ran, ended⟩
    obtain ⟨members, reads, made⟩ := (adapter_decodes adapter ..).mp ran
    obtain ⟨spells, shallow⟩ := reads_text.mp ⟨c, reads, ended⟩
    exact ⟨members, spells, shallow, made⟩
  · rintro ⟨members, spells, shallow, made⟩
    obtain ⟨c, reads, ended⟩ := reads_text.mpr ⟨spells, shallow⟩
    exact ⟨c, (adapter_decodes adapter ..).mpr ⟨members, reads, made⟩, ended⟩

theorem Table.fromJson_ok {table : Table α} {strict : Bool} {text : String} {result : Option α} :
    table.fromJson strict text = .ok result ↔ ∃ document, Spells text document ∧
      document.depth ≤ depthLimit ∧
        table.ofDocument? strict Setting.outermost document = some result := by
  rw [Table.fromJson, decodeDocument_ok]
  constructor
  · rintro ⟨c, ran, ended⟩
    obtain ⟨document, reads, made⟩ := (table_read_iff table).mp ran
    obtain ⟨spells, shallow⟩ := reads_text.mp ⟨c, reads, ended⟩
    exact ⟨document, spells, shallow, made⟩
  · rintro ⟨document, spells, shallow, made⟩
    obtain ⟨c, reads, ended⟩ := reads_text.mpr ⟨spells, shallow⟩
    exact ⟨c, (table_read_iff table).mpr ⟨document, reads, made⟩, ended⟩

end TaggedJson.Hierarchy
