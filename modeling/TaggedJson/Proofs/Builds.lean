import Mathlib.Data.List.Perm.Basic
import TaggedJson.Proofs.Validity
/-! What a list of declarations builds: the entries, groups and the default are read off the
declarations in order, and no label and no name of a value that can be written has two owners. -/
namespace TaggedJson.Hierarchy
variable {α : Type}

/-! Names and labels of the members. -/

theorem entryNames_eq (entries : List (Entry α)) :
    entryNames entries = entries.flatMap Entry.names := by
  induction entries with
  | nil => rfl
  | cons entry rest ih => rw [entryNames, ih, List.flatMap_cons]

theorem nestedMembers_eq (nested : List (String × Table α)) :
    nestedMembers nested = nested.flatMap fun group => group.2.members := by
  induction nested with
  | nil => rfl
  | cons group rest ih => rw [nestedMembers, ih, List.flatMap_cons]

mutual
theorem members_names : ∀ table : Table α, table.members.flatMap Entry.names = table.subtypeNames
  | ⟨_, entries, nested, _⟩ => by
    rw [Table.members, Table.subtypeNames, List.flatMap_append, nestedMembers_names nested,
      entryNames_eq]

theorem nestedMembers_names : ∀ nested : List (String × Table α),
    (nestedMembers nested).flatMap Entry.names = nestedNames nested
  | [] => rfl
  | (_, table) :: rest => by
    rw [nestedMembers, nestedNames, List.flatMap_append, members_names table,
      nestedMembers_names rest]
end

theorem nestedNames_eq (nested : List (String × Table α)) :
    nestedNames nested = nested.flatMap fun group => group.2.subtypeNames := by
  induction nested with
  | nil => rfl
  | cons group rest ih => rw [nestedNames, ih, List.flatMap_cons]

/-! Tables. -/

/-- A table that has been built, as its declarations have it. -/
structure Builds (key : String) (declarations : List (Declaration α)) (table : Table α) : Prop where
  eq : table = ⟨key, declarations.filterMap Declaration.entry?,
    declarations.filterMap Declaration.group?,
    (declarations.filterMap Declaration.policy?).head?.getD .none⟩
  keyed : ∀ group ∈ table.nested, group.2.key = key
  names : table.subtypeNames.Nodup
  labels : table.labels.Nodup

/-- The members' parts are those of the entries and groups declared, though not in that order. -/
theorem parts_perm {β : Type} (declarations : List (Declaration α)) (own : Entry α → List β)
    (inner : Table α → List β) :
    ((declarations.filterMap Declaration.entry?).flatMap own ++
      (declarations.filterMap Declaration.group?).flatMap fun group => inner group.2).Perm
      (declarations.flatMap fun declaration => declaration.entry?.toList.flatMap own ++
        declaration.group?.toList.flatMap fun group => inner group.2) := by
  rw [List.filterMap_eq_flatMap_toList, List.filterMap_eq_flatMap_toList, List.flatMap_assoc,
    List.flatMap_assoc]
  exact List.flatMap_append_perm ..

theorem group_fits {key : String} {declaration : Declaration α} {group : String × Table α}
    (fits : declaration.Fits key) (made : declaration.group? = some group) :
    group.2.key = key := by
  obtain ⟨name, label, alternates, kind⟩ := declaration
  cases kind <;> cases made
  exact fits.2.2

theorem build_ok {key : String} {declarations : List (Declaration α)} {table : Table α}
    (built : Table.build key declarations = .ok table) : Builds key declarations table := by
  obtain ⟨valid, rfl⟩ := build_iff.mp built
  refine ⟨rfl, fun group grouped => ?_, ?_, ?_⟩
  · obtain ⟨declaration, declared, made⟩ := List.mem_filterMap.mp grouped
    exact group_fits (valid.fits declaration declared) made
  · rw [Table.subtypeNames, entryNames_eq, nestedNames_eq]
    exact (parts_perm declarations Entry.names Table.subtypeNames).nodup_iff.mpr valid.names
  · rw [Table.labels, Table.members, nestedMembers_eq, List.flatMap_append, List.flatMap_assoc]
    exact (parts_perm declarations Entry.labels Table.labels).nodup_iff.mpr valid.labels

/-- Only one default can be declared, so it is the policy of the table. -/
theorem policy_of_declared {key : String} {declarations : List (Declaration α)} {table : Table α}
    (built : Table.build key declarations = .ok table) {declaration : Declaration α}
    (declared : declaration ∈ declarations) {policy : Policy α}
    (made : declaration.policy? = some policy) : table.policy = policy := by
  obtain ⟨valid, rfl⟩ := build_iff.mp built
  have one : (declarations.filterMap Declaration.policy?).length ≤ 1 := by
    rw [List.length_filterMap_eq_countP, ← funext Declaration.isDefault_eq]
    exact valid.defaults
  have member : policy ∈ declarations.filterMap Declaration.policy? :=
    List.mem_filterMap.mpr ⟨declaration, declared, made⟩
  obtain ⟨first, alone⟩ := List.length_eq_one_iff.mp
    (Nat.le_antisymm one (List.length_pos_of_mem member))
  rw [alone] at member ⊢
  rw [List.mem_singleton.mp member]
  rfl

section Built
variable {key : String} {declarations : List (Declaration α)} {table : Table α}

theorem Builds.key_eq (builds : Builds key declarations table) : table.key = key := by
  rw [builds.eq]

/-- A member of a table is the entry of a declaration or a member of the table of a group. -/
theorem Builds.mem_members (builds : Builds key declarations table) {entry : Entry α} :
    entry ∈ table.members ↔ ∃ declaration ∈ declarations, declaration.entry? = some entry ∨
      ∃ group, declaration.group? = some group ∧ entry ∈ group.2.members := by
  rw [builds.eq, Table.members, nestedMembers_eq, List.mem_append, List.mem_filterMap,
    List.mem_flatMap]
  constructor
  · rintro (⟨declaration, declared, made⟩ | ⟨group, grouped, member⟩)
    · exact ⟨declaration, declared, .inl made⟩
    · obtain ⟨declaration, declared, made⟩ := List.mem_filterMap.mp grouped
      exact ⟨declaration, declared, .inr ⟨group, made, member⟩⟩
  · rintro ⟨declaration, declared, made | ⟨group, made, member⟩⟩
    · exact .inl ⟨declaration, declared, made⟩
    · exact .inr ⟨group, List.mem_filterMap.mpr ⟨declaration, declared, made⟩, member⟩

/-- The table of a group is looked up under the same key. -/
theorem Builds.group_key (builds : Builds key declarations table)
    {declaration : Declaration α} (declared : declaration ∈ declarations)
    {group : String × Table α} (made : declaration.group? = some group) : group.2.key = key := by
  apply builds.keyed
  rw [builds.eq]
  exact List.mem_filterMap.mpr ⟨declaration, declared, made⟩

/-- The policy of a table is the first one declared. -/
theorem Builds.policy_declared (builds : Builds key declarations table) {policy : Policy α}
    (same : table.policy = policy) (set : policy ≠ .none) :
    ∃ declaration ∈ declarations, declaration.policy? = some policy := by
  rw [builds.eq] at same
  cases head : (declarations.filterMap Declaration.policy?).head? with
  | none =>
    rw [head] at same
    exact (set same.symm).elim
  | some found =>
    rw [head, Option.getD_some] at same
    subst same
    exact List.mem_filterMap.mp (List.mem_of_mem_head? head)

end Built

/-! Tables whose own tables have been built as well. -/

/-- The tables an adapter reads with. -/
def Adapter.tables : Adapter α → List (Table α)
  | .record _ | .payload _ | .singleton _ => []
  | .failOnUnknown inner => inner.tables
  | .tagged table _ => [table]

def Declaration.tables (declaration : Declaration α) : List (Table α) :=
  match declaration.kind with
  | .adapter adapter | .fallback adapter => adapter.tables
  | .nested table => [table]
  | .singleton _ | .defaultObject _ | .nullDefault => []

/-- A table that has been built from tables that have been built. -/
inductive Accepted : Table α → Prop
  | build {key : String} {declarations : List (Declaration α)} {table : Table α}
    (built : Table.build key declarations = .ok table)
    (inner : ∀ declaration ∈ declarations, ∀ within ∈ declaration.tables, Accepted within) :
    Accepted table

theorem Accepted.names {table : Table α} (accepted : Accepted table) :
    table.subtypeNames.Nodup := by
  obtain ⟨built, -⟩ := accepted
  exact (build_ok built).names

theorem Accepted.labels {table : Table α} (accepted : Accepted table) : table.labels.Nodup := by
  obtain ⟨built, -⟩ := accepted
  exact (build_ok built).labels

/-- The table of a member has been built, also that of a member of a group. -/
theorem Accepted.within {table : Table α} (accepted : Accepted table) :
    ∀ entry ∈ table.members, ∀ adapter, entry.body = .adapter adapter →
      ∀ within ∈ adapter.tables, Accepted within := by
  induction accepted with
  | @build key declarations table built inner ih =>
    intro entry member adapter body within used
    obtain ⟨declaration, declared, own⟩ := (build_ok built).mem_members.mp member
    obtain ⟨name, label, alternates, kind⟩ := declaration
    rcases own with made | ⟨group, made, member⟩
    · refine inner _ declared within ?_
      obtain ⟨made, has, labeled⟩ := Option.bind_eq_some_iff.mp made
      obtain ⟨text, -, rfl⟩ := Option.map_eq_some_iff.mp labeled
      cases body
      cases kind <;> cases has <;> exact used
    · -- The table of the group has been built, and the induction is on that.
      cases kind <;> cases made
      rename_i table
      exact ih _ declared table (List.mem_singleton.mpr rfl) entry member adapter body within used

/-! Lookups. -/

/-- Where no part has two owners, one item has a given part and no other. -/
theorem filter_of_mem {β : Type} {items : List β} {item : β} {parts : β → List String}
    {name : String} (distinct : (items.flatMap parts).Nodup) (member : item ∈ items)
    (has : name ∈ parts item) :
    items.filter (fun other => (parts other).contains name) = [item] := by
  induction items with
  | nil => cases member
  | cons first rest ih =>
    rw [List.flatMap_cons, List.nodup_append] at distinct
    obtain ⟨-, others, apart⟩ := distinct
    rcases List.mem_cons.mp member with rfl | later
    · -- No item after has the part, or it would be there twice.
      rw [List.filter_cons_of_pos (by simpa using has), List.filter_eq_nil_iff.mpr]
      intro other later
      have fresh : name ∉ parts other := fun again =>
        apart name has name (List.mem_flatMap.mpr ⟨other, later, again⟩) rfl
      simpa using fresh
    · have fresh : name ∉ parts first := fun here =>
        apart name here name (List.mem_flatMap.mpr ⟨item, later, has⟩) rfl
      rw [List.filter_cons_of_neg (by simpa using fresh)]
      exact ih others later

theorem find_of_mem {β : Type} {items : List β} {item : β} {parts : β → List String} {name : String}
    (distinct : (items.flatMap parts).Nodup) (member : item ∈ items) (has : name ∈ parts item) :
    items.find? (fun other => (parts other).contains name) = some item := by
  rw [← List.head?_filter, filter_of_mem distinct member has, List.head?_cons]

theorem lookup_of_mem {table : Table α} {entry : Entry α} {label : String}
    (distinct : table.labels.Nodup) (member : entry ∈ table.members)
    (labeled : label ∈ entry.labels) : table.lookup label = some entry :=
  find_of_mem distinct member labeled

theorem entryFor_of_mem {table : Table α} {entry : Entry α} {subtype : String}
    (distinct : table.subtypeNames.Nodup) (member : entry ∈ table.members)
    (named : subtype ∈ entry.names) : table.entryFor subtype = some entry := by
  rw [← members_names] at distinct
  exact find_of_mem distinct member named

theorem entryFor_isSome {table : Table α} {subtype : String} :
    (table.entryFor subtype).isSome = true ↔ subtype ∈ table.subtypeNames := by
  rw [← members_names, Table.entryFor, List.find?_isSome, List.mem_flatMap]
  simp

end TaggedJson.Hierarchy
