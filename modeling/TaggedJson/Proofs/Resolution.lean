import TaggedJson.Proofs.Indices
/-! What a table resolves. Labels and names are looked up through the whole tree of groups, where no
two entries share one, so reading and writing find the same entry. What no label matches is left to
the policy of the outermost table alone. -/
namespace TaggedJson.Hierarchy
variable {α : Type}

/-! The tree of groups. -/

/-- A table, one of its groups, a group of one of these, and so on. -/
inductive Within : Table α → Table α → Prop
  | self (table : Table α) : Within table table
  | group {outer table inner : Table α} {name : String} (grouped : (name, table) ∈ outer.nested)
    (inside : Within table inner) : Within outer inner

/-- A table that has been built with groups that have been built. Adapters may be any. -/
inductive Assembled : Table α → Prop
  | build {key : String} {declarations : List (Declaration α)} {table : Table α}
    (built : Table.build key declarations = .ok table)
    (groups : ∀ group ∈ declarations.filterMap Declaration.group?, Assembled group.2) :
    Assembled table

theorem Assembled.group {outer : Table α} (assembled : Assembled outer) {name : String}
    {table : Table α} (grouped : (name, table) ∈ outer.nested) :
    Assembled table ∧ table.key = outer.key := by
  obtain ⟨built, groups⟩ := assembled
  have builds := build_ok built
  have key := builds.keyed _ grouped
  rw [← builds.key_eq] at key
  rw [builds.eq] at grouped
  exact ⟨groups _ grouped, key⟩

theorem Assembled.within {table inner : Table α} (assembled : Assembled table)
    (inside : Within table inner) : Assembled inner ∧ inner.key = table.key := by
  induction inside with
  | self table => exact ⟨assembled, rfl⟩
  | group grouped inside ih =>
    obtain ⟨first, same⟩ := assembled.group grouped
    obtain ⟨last, key⟩ := ih first
    exact ⟨last, key.trans same⟩

theorem members_eq (table : Table α) :
    table.members = table.entries ++ nestedMembers table.nested := by
  cases table
  rfl

theorem mem_members_of_within {table inner : Table α} {entry : Entry α}
    (inside : Within table inner) (own : entry ∈ inner.entries) : entry ∈ table.members := by
  induction inside with
  | self table =>
    rw [members_eq]
    exact List.mem_append_left _ own
  | group grouped inside ih =>
    rw [members_eq, nestedMembers_eq]
    apply List.mem_append_right
    exact List.mem_flatMap.mpr ⟨_, grouped, ih own⟩

mutual
theorem within_of_member : ∀ (table : Table α) {entry : Entry α}, entry ∈ table.members →
    ∃ inner, Within table inner ∧ entry ∈ inner.entries
  | ⟨_, entries, nested, _⟩, entry, member => by
    rcases List.mem_append.mp member with own | later
    · exact ⟨_, .self _, own⟩
    · obtain ⟨group, grouped, inner, inside, own⟩ := within_of_nestedMember nested later
      exact ⟨inner, .group grouped inside, own⟩

theorem within_of_nestedMember : ∀ (nested : List (String × Table α)) {entry : Entry α},
    entry ∈ nestedMembers nested →
    ∃ group ∈ nested, ∃ inner, Within group.2 inner ∧ entry ∈ inner.entries
  | (name, table) :: rest, entry, member => by
    rcases List.mem_append.mp member with first | later
    · exact ⟨_, List.mem_cons_self, within_of_member table first⟩
    · obtain ⟨group, grouped, found⟩ := within_of_nestedMember rest later
      exact ⟨group, List.mem_cons_of_mem _ grouped, found⟩
end

theorem mem_members_iff {table : Table α} {entry : Entry α} :
    entry ∈ table.members ↔ ∃ inner, Within table inner ∧ entry ∈ inner.entries :=
  ⟨within_of_member table, fun ⟨_, inside, own⟩ => mem_members_of_within inside own⟩

/-! Resolution. -/

theorem mem_of_lookup {table : Table α} {label : String} {entry : Entry α}
    (found : table.lookup label = some entry) : entry ∈ table.members ∧ label ∈ entry.labels :=
  ⟨List.mem_of_find?_eq_some found, by simpa using List.find?_some found⟩

theorem lookup_isSome {table : Table α} {label : String} :
    (table.lookup label).isSome = true ↔ label ∈ table.labels := by
  rw [Table.lookup, List.find?_isSome, Table.labels, List.mem_flatMap]
  simp

/-- What a policy makes of a document whose label is missing or unknown. -/
def Policy.target? : Policy α → Option (Target α)
  | .none => .none
  | .null => some .null
  | .object _ value => some (.object value)
  | .fallback _ adapter => some (.fallback adapter)

/-- What is reported of a label that nothing takes. -/
def Table.unresolved (table : Table α) : Option String → Pull.DecodeError
  | none => .missingLabel table.key table.labels
  | some label => .unknownLabel table.key label table.labels

theorem resolve_of_lookup {table : Table α} {label : String} {entry : Entry α}
    (found : table.lookup label = some entry) :
    table.resolve (some label) = .ok (.subtype entry) := by
  unfold Table.resolve
  rw [Option.bind_some, found]

theorem resolve_of_unknown {table : Table α} {label : Option String}
    (unknown : ∀ text, label = some text → text ∉ table.labels) :
    table.resolve label = match table.policy.target? with
      | some target => .ok target
      | none => .error (table.unresolved label) := by
  have missed : label.bind table.lookup = none := by
    cases label with
    | none => rfl
    | some text =>
      rw [Option.bind_some, ← Option.not_isSome_iff_eq_none, lookup_isSome]
      exact unknown text rfl
  unfold Table.resolve
  rw [missed]
  cases table.policy with
  | none => cases label <;> rfl
  | null | object subtype value | fallback subtype adapter => rfl

structure Resolves (table : Table α) : Prop where
  /-- What can be looked up is what the indices of labels list, and found as they find it. -/
  labelIndex : table.indexed Entry.labels = table.labels ∧
    ∀ label, table.search Entry.labels label = table.lookup label
  /-- So is what can be written. -/
  nameIndex : table.indexed Entry.names = table.subtypeNames ∧
    ∀ subtype, table.search Entry.names subtype = table.entryFor subtype
  labels : table.labels.Nodup
  known : ∀ label, (∃ entry, table.lookup label = some entry) ↔ label ∈ table.labels
  owner : ∀ label entry, table.lookup label = some entry ↔
    label ∈ entry.labels ∧ ∃ inner, Within table inner ∧ entry ∈ inner.entries
  single : ∀ label entry, table.lookup label = some entry →
    table.members.filter (fun other => other.labels.contains label) = [entry]
  names : table.subtypeNames.Nodup
  written : ∀ subtype, (∃ entry, table.entryFor subtype = some entry) ↔
    subtype ∈ table.subtypeNames
  /-- What is written for a subtype is read as that subtype. -/
  agree : ∀ subtype ∈ table.subtypeNames, ∃ entry,
    table.entryFor subtype = some entry ∧ table.lookup entry.label = some entry
  keyed : ∀ inner, Within table inner → inner.key = table.key
  subtype : ∀ label entry, table.lookup label = some entry →
    table.resolve (some label) = .ok (.subtype entry)
  policy : ∀ label, (∀ text, label = some text → text ∉ table.labels) →
    table.resolve label = match table.policy.target? with
      | some target => .ok target
      | none => .error (table.unresolved label)

theorem resolves_of_assembled {table : Table α} (assembled : Assembled table) :
    Resolves table := by
  obtain ⟨labels, names⟩ : table.labels.Nodup ∧ table.subtypeNames.Nodup := by
    obtain ⟨built, -⟩ := assembled
    exact ⟨(build_ok built).labels, (build_ok built).names⟩
  exact {
    labels, names
    labelIndex := labels_indexed labels
    nameIndex := names_indexed names
    known := fun label => by rw [← Option.isSome_iff_exists, lookup_isSome]
    owner := fun label entry => by
      rw [← mem_members_iff]
      constructor
      · intro found
        exact (mem_of_lookup found).symm
      · rintro ⟨labeled, member⟩
        exact lookup_of_mem labels member labeled
    single := fun label entry found =>
      filter_of_mem labels (mem_of_lookup found).1 (mem_of_lookup found).2
    written := fun subtype => by rw [← Option.isSome_iff_exists, entryFor_isSome]
    agree := fun subtype named => by
      obtain ⟨entry, found⟩ := Option.isSome_iff_exists.mp (entryFor_isSome.mpr named)
      have member : entry ∈ table.members := List.mem_of_find?_eq_some found
      exact ⟨entry, found, lookup_of_mem labels member List.mem_cons_self⟩
    keyed := fun inner inside => (assembled.within inside).2
    subtype := fun label entry => resolve_of_lookup
    policy := fun label => resolve_of_unknown }

/-! A table with a default, a group that has one as well, and a group in that. -/

def solidsTable : Table Nat := ⟨"kind", [⟨"Cube", "cube", ["box"], .singleton 3⟩], [], .none⟩

def bodiesTable : Table Nat :=
  ⟨"kind", [⟨"Ball", "ball", [], .singleton 2⟩], [("Solid", solidsTable)], .null⟩

def formsTable : Table Nat := ⟨"kind", [], [("Body", bodiesTable)], .object "Point" 0⟩

theorem forms_assembled : Assembled formsTable := by
  have solids : Assembled solidsTable :=
    @Assembled.build _ "kind" [(Declaration.singleton "Cube" "cube" 3).withAlternates ["box"]] _
      rfl nofun
  have bodies : Assembled bodiesTable :=
    @Assembled.build _ "kind"
      [.nested "Solid" solidsTable, .singleton "Ball" "ball" 2, .nullDefault] _ rfl
      (List.forall_mem_singleton.mpr solids)
  exact @Assembled.build _ "kind" [.defaultObject "Point" 0, .nested "Body" bodiesTable] _ rfl
    (List.forall_mem_singleton.mpr bodies)

/-- A document with an unknown label is the default of the outermost table and not null. -/
theorem forms_resolved : Assembled formsTable ∧ Resolves formsTable ∧
    formsTable.resolve (some "cone") = .ok (.object 0) := by
  have resolves := resolves_of_assembled forms_assembled
  refine ⟨forms_assembled, resolves, ?_⟩
  apply resolves.policy
  rintro _ ⟨⟩
  decide

end TaggedJson.Hierarchy
