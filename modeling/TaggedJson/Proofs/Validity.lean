import Mathlib.Data.List.Nodup
import TaggedJson.Hierarchy.Build
/-! Which declarations make a table. A table is built in order and fails at the first thing that is
wrong with a declaration or between it and an earlier one, and yet what it accepts can be said of
the declarations as a whole: each fits by itself, at most one is a default, and no label and no name
is taken twice. -/
namespace TaggedJson.Hierarchy
variable {α : Type}

/-! What a declaration adds to a table. -/

namespace Declaration

def body? (declaration : Declaration α) : Option (Body α) :=
  match declaration.kind with
  | .adapter adapter | .fallback adapter => some (.adapter adapter)
  | .singleton value | .defaultObject value => some (.singleton value)
  | .nested _ | .nullDefault => none

/-- Only a labeled member is an entry. -/
def entry? (declaration : Declaration α) : Option (Entry α) :=
  declaration.body?.bind fun body => declaration.label.map fun label =>
    ⟨declaration.name, label, declaration.alternates, body⟩

def group? (declaration : Declaration α) : Option (String × Table α) :=
  match declaration.kind with
  | .nested table => some (declaration.name, table)
  | _ => none

def policy? (declaration : Declaration α) : Option (Policy α) :=
  match declaration.kind with
  | .nullDefault => some .null
  | .defaultObject value => some (.object declaration.name value)
  | .fallback adapter => some (.fallback declaration.name adapter)
  | _ => none

/-- A member that has a label takes its labels, and a group those of its table. -/
def takenLabels (declaration : Declaration α) : List String :=
  declaration.entry?.toList.flatMap Entry.labels ++ declaration.group?.toList.flatMap (·.2.labels)

/-- The names of the values that a member with a label writes, or a member of the group. -/
def takenNames (declaration : Declaration α) : List String :=
  declaration.entry?.toList.flatMap Entry.names ++
    declaration.group?.toList.flatMap (·.2.subtypeNames)

def owned (declaration : Declaration α) : List (String × String) :=
  (declaration.entry?.toList.flatMap fun entry =>
      entry.labels.map fun label => (label, entry.subtype)) ++
    declaration.group?.toList.flatMap (·.2.ownedLabels)

def isDefault (declaration : Declaration α) : Bool := declaration.marker ≠ .none

/-- What has to hold of a declaration whatever else is declared. -/
def Fits (key : String) (declaration : Declaration α) : Prop :=
  match declaration.kind with
  | .nested table =>
    declaration.label = none ∧ declaration.alternates = [] ∧ table.key = key
  | .nullDefault => declaration.label = none ∧ declaration.alternates = []
  | .adapter _ | .singleton _ | .defaultObject _ | .fallback _ =>
    declaration.label = none → declaration.isDefault = true ∧ declaration.alternates = []

theorem isDefault_eq (declaration : Declaration α) :
    declaration.isDefault = declaration.policy?.isSome := by
  obtain ⟨name, label, alternates, kind⟩ := declaration
  cases kind <;> rfl

theorem set_of_policy {declaration : Declaration α} {policy : Policy α}
    (made : declaration.policy? = some policy) : policy ≠ .none := by
  obtain ⟨name, label, alternates, kind⟩ := declaration
  cases kind <;> cases made <;> nofun

end Declaration

structure Valid (key : String) (declarations : List (Declaration α)) : Prop where
  fits : ∀ declaration ∈ declarations, declaration.Fits key
  defaults : declarations.countP Declaration.isDefault ≤ 1
  labels : (declarations.flatMap Declaration.takenLabels).Nodup
  names : (declarations.flatMap Declaration.takenNames).Nodup

instance (key : String) : ∀ declaration : Declaration α, Decidable (declaration.Fits key)
  | ⟨_, label, alternates, .nested table⟩ =>
    inferInstanceAs (Decidable (label = none ∧ alternates = [] ∧ table.key = key))
  | ⟨_, label, alternates, .nullDefault⟩ =>
    inferInstanceAs (Decidable (label = none ∧ alternates = []))
  | ⟨_, label, alternates, .adapter _⟩ | ⟨_, label, alternates, .singleton _⟩ =>
    inferInstanceAs (Decidable (label = none → false = true ∧ alternates = []))
  | ⟨_, label, alternates, .defaultObject _⟩ | ⟨_, label, alternates, .fallback _⟩ =>
    inferInstanceAs (Decidable (label = none → true = true ∧ alternates = []))

instance (key : String) (declarations : List (Declaration α)) :
    Decidable (Valid key declarations) :=
  decidable_of_iff ((∀ declaration ∈ declarations, declaration.Fits key) ∧
      declarations.countP Declaration.isDefault ≤ 1 ∧
      (declarations.flatMap Declaration.takenLabels).Nodup ∧
      (declarations.flatMap Declaration.takenNames).Nodup)
    ⟨fun ⟨fits, defaults, labels, names⟩ => ⟨fits, defaults, labels, names⟩,
      fun ⟨fits, defaults, labels, names⟩ => ⟨fits, defaults, labels, names⟩⟩

/-- Nothing of this depends on the order. -/
theorem valid_of_perm {key : String} {declarations others : List (Declaration α)}
    (same : declarations.Perm others) (valid : Valid key declarations) : Valid key others where
  fits declaration declared := valid.fits declaration (same.mem_iff.mpr declared)
  defaults := same.countP_eq _ ▸ valid.defaults
  labels := (same.flatMap_right _).nodup_iff.mp valid.labels
  names := (same.flatMap_right _).nodup_iff.mp valid.names

/-! Claims of names and labels. -/

theorem takeNames_iff {names more after : List String} (apart : names.Nodup) :
    takeNames names more = .ok after ↔ (names ++ more).Nodup ∧ after = names ++ more := by
  induction more generalizing names with
  | nil => simp [takeNames, apart, eq_comm]
  | cons name rest ih =>
    by_cases claimed : name ∈ names
    · have twice : ¬(names ++ name :: rest).Nodup := fun distinct =>
        (List.nodup_append.mp distinct).2.2 name claimed name List.mem_cons_self rfl
      simp [takeNames, claimed, twice]
    · have fresh : (names ++ [name]).Nodup := List.concat_eq_append ▸ apart.concat claimed
      rw [takeNames, if_neg claimed, ih fresh, ← List.append_cons]

theorem lookup_none_iff {owners : List (String × String)} {label : String} :
    owners.lookup label = none ↔ label ∉ owners.map Prod.fst := by
  rw [List.lookup_eq_none_iff, List.mem_map]
  constructor
  · rintro free ⟨owner, member, rfl⟩
    simpa using free owner member
  · intro free owner member
    by_cases same : owner.1 = label
    · exact (free ⟨owner, member, same⟩).elim
    · simpa using fun eq => same eq.symm

theorem takeLabels_iff {owners more after : List (String × String)}
    (apart : (owners.map Prod.fst).Nodup) :
    takeLabels owners more = .ok after ↔
      ((owners ++ more).map Prod.fst).Nodup ∧ after = owners ++ more := by
  induction more generalizing owners with
  | nil => simp [takeLabels, apart, eq_comm]
  | cons owned rest ih =>
    obtain ⟨label, subtype⟩ := owned
    cases looked : owners.lookup label with
    | some owner =>
      have claimed : label ∈ owners.map Prod.fst := by
        by_contra free
        rw [lookup_none_iff.mpr free] at looked
        cases looked
      have twice : ¬((owners ++ (label, subtype) :: rest).map Prod.fst).Nodup := by
        rw [List.map_append, List.nodup_append]
        exact fun distinct => distinct.2.2 label claimed label List.mem_cons_self rfl
      simp only [takeLabels, looked, twice, reduceCtorEq, false_and]
    | none =>
      have fresh : ((owners ++ [(label, subtype)]).map Prod.fst).Nodup := by
        rw [List.map_append, List.map_singleton, ← List.concat_eq_append]
        exact apart.concat (lookup_none_iff.mp looked)
      have next : takeLabels owners ((label, subtype) :: rest) =
          takeLabels (owners ++ [(label, subtype)]) rest := by rw [takeLabels, looked]
      rw [next, ih fresh, ← List.append_cons]

theorem entry_labels (entry : Entry α) :
    (entry.labels.map fun label => (label, entry.subtype)).map Prod.fst = entry.labels := by
  rw [List.map_map]
  exact List.map_id _

theorem ownedLabels_labels (table : Table α) : table.ownedLabels.map Prod.fst = table.labels := by
  rw [Table.ownedLabels, Table.labels, List.map_flatMap]
  simp only [entry_labels]

theorem owned_labels (declaration : Declaration α) :
    declaration.owned.map Prod.fst = declaration.takenLabels := by
  rw [Declaration.owned, Declaration.takenLabels, List.map_append, List.map_flatMap,
    List.map_flatMap]
  simp only [entry_labels, ownedLabels_labels]

/-! Drafts. -/

namespace Draft

theorem except_bind_ok {ε : Type} {x : Except ε β} {f : β → Except ε γ} {c : γ} :
    (x >>= f) = .ok c ↔ ∃ b, x = .ok b ∧ f b = .ok c := by
  cases x <;> simp [bind, Except.bind]

def labels (draft : Draft α) : List String := draft.owners.map Prod.fst

/-- How many defaults can still be declared. -/
def room (draft : Draft α) : Nat :=
  match draft.policy with
  | .none => 1
  | _ => 0

/-- What a draft accepts; without members yet it accepts what is valid. -/
structure Admits (key : String) (draft : Draft α) (declarations : List (Declaration α)) : Prop where
  fits : ∀ declaration ∈ declarations, declaration.Fits key
  defaults : declarations.countP Declaration.isDefault ≤ draft.room
  labels : (draft.labels ++ declarations.flatMap Declaration.takenLabels).Nodup
  names : (draft.names ++ declarations.flatMap Declaration.takenNames).Nodup

/-- The draft with the entry or the group of a declaration. -/
def joined (draft : Draft α) (declaration : Declaration α) : Draft α :=
  { draft with
    entries := draft.entries ++ declaration.entry?.toList
    nested := draft.nested ++ declaration.group?.toList
    owners := draft.owners ++ declaration.owned
    names := draft.names ++ declaration.takenNames }

def after (draft : Draft α) (declaration : Declaration α) : Draft α :=
  { draft.joined declaration with policy := declaration.policy?.getD draft.policy }

structure Apart (draft : Draft α) : Prop where
  labels : draft.labels.Nodup
  names : draft.names.Nodup

theorem Apart.setting {draft : Draft α} (apart : draft.Apart) (policy : Policy α) :
    ({ draft with policy := policy } : Draft α).Apart :=
  ⟨apart.labels, apart.names⟩

theorem addEntry_iff {draft next : Draft α} {entry : Entry α} (apart : draft.Apart) :
    draft.addEntry entry = .ok next ↔
      (draft.labels ++ entry.labels).Nodup ∧ (draft.names ++ entry.names).Nodup ∧
      next = { draft with
        entries := draft.entries ++ [entry]
        owners := draft.owners ++ entry.labels.map fun label => (label, entry.subtype)
        names := draft.names ++ entry.names } := by
  simp only [addEntry, except_bind_ok, takeNames_iff apart.names, takeLabels_iff apart.labels,
    List.map_append, entry_labels, labels]
  constructor
  · rintro ⟨_, ⟨names, rfl⟩, _, ⟨labels, rfl⟩, made⟩
    cases made
    exact ⟨labels, names, rfl⟩
  · rintro ⟨labels, names, rfl⟩
    exact ⟨_, ⟨names, rfl⟩, _, ⟨labels, rfl⟩, rfl⟩

theorem addNested_iff {draft next : Draft α} {name : String} {table : Table α}
    (apart : draft.Apart) :
    draft.addNested name table = .ok next ↔
      (draft.labels ++ table.labels).Nodup ∧ (draft.names ++ table.subtypeNames).Nodup ∧
      next = { draft with
        nested := draft.nested ++ [(name, table)]
        owners := draft.owners ++ table.ownedLabels
        names := draft.names ++ table.subtypeNames } := by
  simp only [addNested, except_bind_ok, takeNames_iff apart.names, takeLabels_iff apart.labels,
    List.map_append, ownedLabels_labels, labels]
  constructor
  · rintro ⟨_, ⟨labels, rfl⟩, _, ⟨names, rfl⟩, made⟩
    cases made
    exact ⟨labels, names, rfl⟩
  · rintro ⟨labels, names, rfl⟩
    exact ⟨_, ⟨labels, rfl⟩, _, ⟨names, rfl⟩, rfl⟩

theorem setPolicy_iff {draft next : Draft α} {name : String} {policy : Policy α} :
    draft.setPolicy name policy = .ok next ↔
      draft.policy = .none ∧ next = { draft with policy := policy } := by
  constructor
  · intro ran
    unfold setPolicy at ran
    split at ran <;> cases ran
    exact ⟨‹_›, rfl⟩
  · rintro ⟨none, rfl⟩
    rw [setPolicy, none]

/-- A member with a label takes labels and names; one without any is no member. -/
theorem addLabeled_iff {draft next : Draft α} {declaration : Declaration α} {body : Body α}
    {isDefault : Bool} (apart : draft.Apart) (has : declaration.body? = some body)
    (single : declaration.group? = none) :
    draft.addLabeled declaration body isDefault = .ok next ↔
      (declaration.label = none → isDefault = true ∧ declaration.alternates = []) ∧
      (draft.labels ++ declaration.takenLabels).Nodup ∧
      (draft.names ++ declaration.takenNames).Nodup ∧ next = draft.joined declaration := by
  unfold addLabeled joined Declaration.takenLabels Declaration.takenNames Declaration.owned
    Declaration.entry?
  rw [has, single]
  cases declaration.label with
  | some label => simp [addEntry_iff apart]
  | none =>
    have labels := apart.labels
    have names := apart.names
    cases isDefault <;> cases declaration.alternates <;> simp [labels, names]
    exact eq_comm

theorem declare_nested {key : String} {draft next : Draft α} {name : String}
    {label : Option String} {alternates : List String} {table : Table α} :
    draft.declare key ⟨name, label, alternates, .nested table⟩ = .ok next ↔
      (label = none ∧ alternates = [] ∧ table.key = key) ∧
      draft.addNested name table = .ok next := by
  unfold declare
  cases label <;> cases alternates <;> by_cases keyed : table.key = key <;> simp [keyed]

theorem declare_null {key : String} {draft next : Draft α} {name : String}
    {label : Option String} {alternates : List String} :
    draft.declare key ⟨name, label, alternates, .nullDefault⟩ = .ok next ↔
      (label = none ∧ alternates = []) ∧ draft.setPolicy name .null = .ok next := by
  unfold declare
  cases label <;> cases alternates <;> simp

theorem after_nested (draft : Draft α) (name : String) (label : Option String)
    (alternates : List String) (table : Table α) :
    draft.after ⟨name, label, alternates, .nested table⟩ =
      { draft with
        nested := draft.nested ++ [(name, table)]
        owners := draft.owners ++ table.ownedLabels
        names := draft.names ++ table.subtypeNames } := by
  simp [after, joined, Declaration.entry?, Declaration.body?, Declaration.group?,
    Declaration.policy?, Declaration.owned, Declaration.takenNames]

theorem after_null (draft : Draft α) (name : String) (label : Option String)
    (alternates : List String) :
    draft.after ⟨name, label, alternates, .nullDefault⟩ = { draft with policy := .null } := by
  simp [after, joined, Declaration.entry?, Declaration.body?, Declaration.group?,
    Declaration.policy?, Declaration.owned, Declaration.takenNames]

theorem room_pos {draft : Draft α} : 0 < draft.room ↔ draft.policy = .none := by
  unfold room
  cases draft.policy <;> simp

theorem admits_one {key : String} {draft : Draft α} {declaration : Declaration α} :
    draft.Admits key [declaration] ↔ declaration.Fits key ∧
      (declaration.isDefault = true → draft.policy = .none) ∧
      (draft.labels ++ declaration.takenLabels).Nodup ∧
      (draft.names ++ declaration.takenNames).Nodup := by
  have counted : [declaration].countP Declaration.isDefault ≤ draft.room ↔
      (declaration.isDefault = true → draft.policy = .none) := by
    rw [List.countP_singleton, ← room_pos]
    by_cases default : declaration.isDefault = true
    · simp only [default, if_true, forall_const]
      exact Nat.succ_le_iff
    · simp [default]
  constructor
  · rintro ⟨fits, defaults, labels, names⟩
    rw [List.flatMap_singleton] at labels names
    exact ⟨fits _ List.mem_cons_self, counted.mp defaults, labels, names⟩
  · rintro ⟨fits, defaults, labels, names⟩
    rw [← List.flatMap_singleton Declaration.takenLabels] at labels
    rw [← List.flatMap_singleton Declaration.takenNames] at names
    exact ⟨by simpa using fits, counted.mpr defaults, labels, names⟩

theorem declare_iff {key : String} {draft next : Draft α} {declaration : Declaration α}
    (apart : draft.Apart) :
    draft.declare key declaration = .ok next ↔
      draft.Admits key [declaration] ∧ next = draft.after declaration := by
  rw [admits_one]
  obtain ⟨name, label, alternates, kind⟩ := declaration
  cases kind with
  | adapter adapter | singleton value =>
    rw [declare, addLabeled_iff apart rfl rfl]
    constructor
    · rintro ⟨fits, labels, names, rfl⟩
      exact ⟨⟨fits, fun default => (Bool.false_ne_true default).elim, labels, names⟩, rfl⟩
    · rintro ⟨⟨fits, -, labels, names⟩, rfl⟩
      exact ⟨fits, labels, names, rfl⟩
  | nested table =>
    have labels : Declaration.takenLabels ⟨name, label, alternates, .nested table⟩ =
        table.labels := by
      simp [Declaration.takenLabels, Declaration.entry?, Declaration.body?, Declaration.group?]
    have names : Declaration.takenNames ⟨name, label, alternates, .nested table⟩ =
        table.subtypeNames := by
      simp [Declaration.takenNames, Declaration.entry?, Declaration.body?, Declaration.group?]
    rw [declare_nested, addNested_iff apart, after_nested, labels, names]
    constructor
    · rintro ⟨fits, distinct, fresh, rfl⟩
      exact ⟨⟨fits, fun default => (Bool.false_ne_true default).elim, distinct, fresh⟩, rfl⟩
    · rintro ⟨⟨fits, -, distinct, fresh⟩, rfl⟩
      exact ⟨fits, distinct, fresh, rfl⟩
  | nullDefault =>
    rw [declare_null, setPolicy_iff, after_null]
    constructor
    · rintro ⟨fits, free, rfl⟩
      exact ⟨⟨fits, fun _ => free, (List.append_nil _).symm ▸ apart.labels,
        (List.append_nil _).symm ▸ apart.names⟩, rfl⟩
    · rintro ⟨⟨fits, free, -, -⟩, rfl⟩
      exact ⟨fits, free rfl, rfl⟩
  | defaultObject value | fallback adapter =>
    rw [declare, except_bind_ok]
    simp only [setPolicy_iff]
    constructor
    · rintro ⟨_, ⟨free, rfl⟩, ran⟩
      obtain ⟨fits, labels, names, rfl⟩ := (addLabeled_iff (apart.setting _) rfl rfl).mp ran
      exact ⟨⟨fits, fun _ => free, labels, names⟩, rfl⟩
    · rintro ⟨⟨fits, free, labels, names⟩, rfl⟩
      exact ⟨_, ⟨free rfl, rfl⟩,
        (addLabeled_iff (apart.setting _) rfl rfl).mpr ⟨fits, labels, names, rfl⟩⟩

theorem after_labels (draft : Draft α) (declaration : Declaration α) :
    (draft.after declaration).labels = draft.labels ++ declaration.takenLabels := by
  rw [← owned_labels]
  exact List.map_append

/-- A default takes the room there is for one. -/
theorem after_room {draft : Draft α} {declaration : Declaration α}
    (free : declaration.isDefault = true → draft.policy = .none) :
    [declaration].countP Declaration.isDefault + (draft.after declaration).room = draft.room := by
  obtain ⟨name, label, alternates, kind⟩ := declaration
  cases kind with
  | adapter adapter | singleton value | nested table => exact Nat.zero_add _
  | nullDefault | defaultObject value | fallback adapter =>
    rw [room, room, free rfl]
    rfl

theorem after_apart {key : String} {draft : Draft α} {declaration : Declaration α}
    (admits : draft.Admits key [declaration]) : (draft.after declaration).Apart := by
  obtain ⟨-, -, labels, names⟩ := admits_one.mp admits
  exact ⟨after_labels draft declaration ▸ labels, names⟩

theorem admits_cons {key : String} {draft : Draft α} {declaration : Declaration α}
    {rest : List (Declaration α)} :
    draft.Admits key (declaration :: rest) ↔
      draft.Admits key [declaration] ∧ (draft.after declaration).Admits key rest := by
  have counted : (declaration :: rest).countP Declaration.isDefault =
      [declaration].countP Declaration.isDefault + rest.countP Declaration.isDefault := by
    rw [List.countP_cons, List.countP_singleton, Nat.add_comm]
  constructor
  · rintro ⟨fits, defaults, labels, names⟩
    rw [List.flatMap_cons, ← List.append_assoc] at labels names
    have first : draft.Admits key [declaration] := admits_one.mpr
      ⟨fits _ List.mem_cons_self, fun default => ?_, labels.of_append_left, names.of_append_left⟩
    · have room := after_room (admits_one.mp first).2.1
      refine ⟨first, fun other later => fits other (List.mem_cons_of_mem _ later), by omega, ?_,
        names⟩
      rwa [after_labels]
    · rw [← room_pos]
      have : [declaration].countP Declaration.isDefault = 1 := by simp [default]
      omega
  · rintro ⟨first, ⟨fits, defaults, labels, names⟩⟩
    have room := after_room (admits_one.mp first).2.1
    rw [after_labels, List.append_assoc, ← List.flatMap_cons] at labels
    refine ⟨?_, by omega, labels, ?_⟩
    · intro other declared
      rcases List.mem_cons.mp declared with rfl | later
      · exact first.fits _ List.mem_cons_self
      · exact fits other later
    · rwa [after, joined, List.append_assoc, ← List.flatMap_cons] at names

theorem declareAll_iff {key : String} {draft next : Draft α} {declarations : List (Declaration α)}
    (apart : draft.Apart) :
    draft.declareAll key declarations = .ok next ↔
      draft.Admits key declarations ∧ next = declarations.foldl after draft := by
  induction declarations generalizing draft with
  | nil =>
    have nothing : draft.Admits key [] := ⟨nofun, Nat.zero_le _,
      (List.append_nil _).symm ▸ apart.labels, (List.append_nil _).symm ▸ apart.names⟩
    simp [declareAll, nothing, eq_comm]
  | cons declaration rest ih =>
    rw [admits_cons]
    constructor
    · intro ran
      obtain ⟨middle, declared, others⟩ := except_bind_ok.mp ran
      obtain ⟨first, rfl⟩ := (declare_iff apart).mp declared
      obtain ⟨later, rfl⟩ := (ih (after_apart first)).mp others
      exact ⟨⟨first, later⟩, rfl⟩
    · rintro ⟨⟨first, later⟩, rfl⟩
      exact except_bind_ok.mpr
        ⟨_, (declare_iff apart).mpr ⟨first, rfl⟩, (ih (after_apart first)).mpr ⟨later, rfl⟩⟩

/-- Where each declaration adds what it has, a run of them adds what they have in order. -/
theorem foldl_adds {β : Type} (part : Draft α → List β) (added : Declaration α → Option β)
    (adds : ∀ draft declaration,
      part (draft.after declaration) = part draft ++ (added declaration).toList)
    (draft : Draft α) (declarations : List (Declaration α)) :
    part (declarations.foldl after draft) = part draft ++ declarations.filterMap added := by
  induction declarations generalizing draft with
  | nil => exact (List.append_nil _).symm
  | cons declaration rest ih =>
    rw [List.foldl_cons, ih, adds, List.filterMap_cons]
    cases added declaration <;> simp

theorem foldl_entries (draft : Draft α) (declarations : List (Declaration α)) :
    (declarations.foldl after draft).entries =
      draft.entries ++ declarations.filterMap Declaration.entry? :=
  foldl_adds Draft.entries Declaration.entry? (fun _ _ => rfl) draft declarations

theorem foldl_nested (draft : Draft α) (declarations : List (Declaration α)) :
    (declarations.foldl after draft).nested =
      draft.nested ++ declarations.filterMap Declaration.group? :=
  foldl_adds Draft.nested Declaration.group? (fun _ _ => rfl) draft declarations

/-- Once the policy is set, nothing that sets one is declared. -/
theorem policies_nil {key : String} {draft : Draft α} {declarations : List (Declaration α)}
    (admits : draft.Admits key declarations) (set : draft.policy ≠ .none) :
    declarations.filterMap Declaration.policy? = [] := by
  have full : draft.room = 0 := Nat.eq_zero_of_not_pos fun room => set (room_pos.mp room)
  have quiet := List.countP_eq_zero.mp (Nat.le_zero.mp (full ▸ admits.defaults))
  apply List.filterMap_eq_nil_iff.mpr
  intro declaration declared
  simpa [Declaration.isDefault_eq] using quiet declaration declared

theorem foldl_policy {key : String} {draft : Draft α} {declarations : List (Declaration α)}
    (admits : draft.Admits key declarations) :
    (declarations.foldl after draft).policy =
      (declarations.filterMap Declaration.policy?).head?.getD draft.policy := by
  induction declarations generalizing draft with
  | nil => rfl
  | cons declaration rest ih =>
    obtain ⟨-, later⟩ := admits_cons.mp admits
    rw [List.foldl_cons, ih later, List.filterMap_cons]
    cases made : declaration.policy? with
    | none => rw [after, made, Option.getD_none]
    | some policy =>
      have policies : (draft.after declaration).policy = policy := by
        rw [after, made, Option.getD_some]
      have others := policies_nil later (policies ▸ Declaration.set_of_policy made)
      rw [others, policies]
      rfl

theorem empty_apart : (Draft.empty : Draft α).Apart := ⟨List.nodup_nil, List.nodup_nil⟩

theorem empty_admits {key : String} {declarations : List (Declaration α)} :
    Draft.empty.Admits key declarations ↔ Valid key declarations :=
  ⟨fun ⟨fits, defaults, labels, names⟩ => ⟨fits, defaults, labels, names⟩,
    fun ⟨fits, defaults, labels, names⟩ => ⟨fits, defaults, labels, names⟩⟩

end Draft

/-! Tables. -/

/-- A table that is built has what was declared, in order. -/
theorem build_iff {key : String} {declarations : List (Declaration α)} {table : Table α} :
    Table.build key declarations = .ok table ↔ Valid key declarations ∧
      table = ⟨key, declarations.filterMap Declaration.entry?,
        declarations.filterMap Declaration.group?,
        (declarations.filterMap Declaration.policy?).head?.getD .none⟩ := by
  rw [← Draft.empty_admits]
  constructor
  · intro built
    obtain ⟨draft, declared, made⟩ := Draft.except_bind_ok.mp built
    obtain ⟨admits, rfl⟩ := (Draft.declareAll_iff Draft.empty_apart).mp declared
    cases made
    rw [Draft.foldl_entries, Draft.foldl_nested, Draft.foldl_policy admits]
    exact ⟨admits, rfl⟩
  · rintro ⟨admits, rfl⟩
    apply Draft.except_bind_ok.mpr
    refine ⟨_, (Draft.declareAll_iff Draft.empty_apart).mpr ⟨admits, rfl⟩, ?_⟩
    rw [Draft.foldl_entries, Draft.foldl_nested, Draft.foldl_policy admits]
    rfl

theorem build_isOk_iff {key : String} {declarations : List (Declaration α)} :
    (∃ table, Table.build key declarations = .ok table) ↔ Valid key declarations := by
  simp [build_iff]

/-- What is valid is what can be built, and declarations that can be built in one order can be built
in every other. -/
theorem build_accepts_iff (key : String) (declarations : List (Declaration α)) :
    ((∃ table, Table.build key declarations = .ok table) ↔ Valid key declarations) ∧
    ∀ others, declarations.Perm others →
      ((∃ table, Table.build key declarations = .ok table) ↔
        ∃ table, Table.build key others = .ok table) := by
  refine ⟨build_isOk_iff, fun others same => ?_⟩
  rw [build_isOk_iff, build_isOk_iff]
  exact ⟨valid_of_perm same, valid_of_perm same.symm⟩

/-- A group, a member and a default, and the same with the default first. -/
theorem build_accepts_default_first :
    let solid : Table Nat := ⟨"kind", [⟨"Cube", "cube", ["box"], .singleton 3⟩], [], .none⟩
    let declared : List (Declaration Nat) :=
      [.nested "Solid" solid, .singleton "Plane" "plane" 2, .defaultObject "Point" 0]
    let reordered : List (Declaration Nat) :=
      [.defaultObject "Point" 0, .nested "Solid" solid, .singleton "Plane" "plane" 2]
    declared.Perm reordered ∧ Valid "kind" declared ∧
      ∃ table, Table.build "kind" reordered = .ok table := by
  intro solid declared reordered
  have same : declared.Perm reordered := .trans (.cons _ (.swap ..)) (.swap ..)
  obtain ⟨valid, orders⟩ := build_accepts_iff "kind" declared
  exact ⟨same, valid.mp ⟨_, rfl⟩, (orders reordered same).mp ⟨_, rfl⟩⟩

/-- The group has the alternate label already. -/
example : ¬ Valid "kind"
    [.nested "Solid" ⟨"kind", [⟨"Cube", "cube", ["box"], .singleton 3⟩], [], .none⟩,
      (Declaration.singleton "Plane" "plane" 2).withAlternates ["box"]] := by decide

end TaggedJson.Hierarchy
