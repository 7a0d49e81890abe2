import TaggedJson.Proofs.Repeats
/-! Values that are refused because their subtype is not registered. That is so of a name the table
does not have, unless it goes to a fallback, and of a name the table does have if it is that of a
hierarchy inside: the hierarchy itself is no value of its members, so it takes one only for its own
fallback. -/
namespace TaggedJson
open Json Hierarchy Emit

/-- A record that is the default, with a label or without. -/
def Member.IsFallback (member : Member) : Prop :=
  member.singleton = false ∧ member.isDefault = true ∧ member.subtypes = none

/-- The name is that of a hierarchy of the file, and no member of it takes what it does not know. -/
def HierarchyFile.Closes (file : HierarchyFile) (name : String) : Prop :=
  ∃ keys found subtypes, (keys, found) ∈ file.places ∧ found.label.isSome = true ∧
    found.name = name ∧ found.subtypes = some subtypes ∧ ∀ member ∈ subtypes, ¬member.IsFallback

/-! Fallbacks. -/

theorem member_fallback {member : Member} {key : String} {outer : List String}
    {declaration : Declaration Variant} (made : member.declaration key outer = .ok declaration) :
    (∃ name adapter, declaration.policy? = some (.fallback name adapter)) ↔ member.IsFallback := by
  obtain ⟨name, label, alternates, singleton, isDefault, own, subtypes⟩ := member
  cases subtypes with
  | none =>
    obtain rfl := leaf_declared made
    cases singleton <;> cases isDefault <;>
      simp [Member.IsFallback, Declaration.policy?, leafKind]
  | some subtypes =>
    rcases group_declared made with ⟨inner, table, -, -, -, rfl⟩ |
      ⟨inner, table, within, text, -, -, -, -, rfl⟩ <;>
      simp [Member.IsFallback, Declaration.policy?]

/-- A table falls back if one of its own members is a fallback, not one of a group in it. -/
theorem fallback_iff {key : String} {outer : List String} {members : List Member}
    {declarations : List (Declaration Variant)} {table : Table Variant}
    (made : memberDeclarations key outer members = .ok declarations)
    (built : Table.build key declarations = .ok table) :
    (∃ name adapter, table.policy = .fallback name adapter) ↔
      ∃ member ∈ members, member.IsFallback := by
  have each := each_declared made
  constructor
  · rintro ⟨name, adapter, policy⟩
    obtain ⟨declaration, declared, set⟩ := (build_ok built).policy_declared policy nofun
    obtain ⟨member, listed, own⟩ := exists_of_mem_right each declared
    exact ⟨member, listed, (member_fallback own).mp ⟨name, adapter, set⟩⟩
  · rintro ⟨member, listed, fallback⟩
    obtain ⟨declaration, declared, own⟩ := exists_of_mem_left each listed
    obtain ⟨name, adapter, set⟩ := (member_fallback own).mpr fallback
    exact ⟨name, adapter, policy_of_declared built declared set⟩

/-! Refusals. -/

/-- The output fails because a subtype is not registered. -/
def Unregistered {α : Type} (output : Except EncodeError α) : Prop :=
  ∃ subtype known, output = .error (.unregistered subtype known)

theorem unregistered_map {α β : Type} {output : Except EncodeError α} {f : α → β} :
    Unregistered (output.map f) ↔ Unregistered output := by
  cases output <;> simp [Unregistered, Except.map]

theorem record_registered (name : String) (reserved : List String) (variant : Variant) :
    ¬Unregistered ((Variant.record name reserved).output variant) := by
  rintro ⟨subtype, known, failed⟩
  rcases record_output name reserved variant with ⟨-, put⟩ | ⟨key, -, -, put⟩ <;>
    cases put.symm.trans failed

/-- What a table does not have goes to its fallback, which is a record, or is refused. -/
theorem other_unregistered {outer : List String} {table : Table Variant} {variant : Variant}
    (declared : Declared outer table) (unknown : variant.subtype ∉ table.subtypeNames) :
    Unregistered (table.output variant) ↔
      ¬∃ name adapter, table.policy = .fallback name adapter := by
  have none : table.entryFor (Root.subtype variant) = none := by
    rw [← Option.not_isSome_iff_eq_none, entryFor_isSome]
    exact unknown
  rw [Table.output_other none]
  cases policy : table.policy with
  | fallback name adapter =>
    rw [declared.fallback policy]
    have taken := record_registered name outer variant
    exact iff_of_false taken (not_not.mpr ⟨name, _, rfl⟩)
  | none | null | object => exact iff_of_true ⟨_, _, rfl⟩ nofun

/-- What is merged is refused where it is not merged. -/
theorem unregistered_members {output : Except EncodeError Value} :
    Unregistered (output.bind membersOf) ↔ Unregistered output := by
  cases output with
  | error e => simp [Unregistered, Except.bind]
  | ok value => cases value <;> simp [Unregistered, Except.bind, membersOf]

/-- An entry refuses its own name if it is a hierarchy in which no member takes it. -/
theorem DeclaresEntry.unregistered {keys : List String} {found : Member}
    {entry : Hierarchy.Entry Variant} {variant : Variant}
    (declares : DeclaresEntry keys found entry) (alone : entry.names.Nodup)
    (named : found.name = variant.subtype) :
    Unregistered (entry.body.written variant) ↔
      ∃ subtypes, found.subtypes = some subtypes ∧ ∀ member ∈ subtypes, ¬member.IsFallback := by
  obtain ⟨outer, key, declaration, rfl, declared, made⟩ := declares
  obtain ⟨name, label, alternates, singleton, isDefault, own, subtypes⟩ := found
  cases subtypes with
  | none =>
    refine iff_of_false ?_ nofun
    have record (reserved : List String) :
        ¬Unregistered ((Body.adapter (Variant.record name reserved)).written variant) := by
      rw [Body.written, unregistered_members]
      exact record_registered name reserved variant
    obtain rfl := leaf_declared declared
    cases label with
    | none => cases singleton <;> cases isDefault <;> cases made
    | some label =>
      cases singleton <;> cases isDefault <;> cases made
      · exact record _
      · exact record _
      all_goals
        rw [Body.written]
        nofun
  | some subtypes =>
    rcases group_declared declared with ⟨inner, table, rfl, inside, built, rfl⟩ |
      ⟨inner, table, within, text, rfl, rfl, inside, built, rfl⟩
    · cases label <;> cases made
    · cases made
      have unknown : variant.subtype ∉ table.subtypeNames := by
        rw [← named]
        exact (List.nodup_cons.mp alone).1
      have tables := declared_of_members inside built
      rw [Body.written, unregistered_members, Adapter.output, other_unregistered tables unknown,
        fallback_iff inside built]
      simp

section Files
variable {file : HierarchyFile} {table : Table Variant}

theorem placed_unregistered (made : file.table = .ok table) {variant : Variant}
    {keys : List String} {found : Member} {label : String} (placed : (keys, found) ∈ file.places)
    (labeled : found.label = some label) (named : found.name = variant.subtype) :
    Unregistered (table.output variant) ↔
      ∃ subtypes, found.subtypes = some subtypes ∧ ∀ member ∈ subtypes, ¬member.IsFallback := by
  obtain ⟨tags, entry, chain, -, declares⟩ := file_entry made placed labeled
  have subtype : Root.subtype variant = entry.subtype := by
    rw [← declares.entryOf.subtype, named]
    rfl
  have accepted := accepted_of_file made
  rw [Chain.output accepted chain subtype, unregistered_map]
  exact declares.unregistered (chain.names_nodup accepted) named

theorem known_unregistered (made : file.table = .ok table) {variant : Variant}
    (known : variant.subtype ∈ table.subtypeNames) :
    Unregistered (table.output variant) ↔ file.Closes variant.subtype := by
  constructor
  · intro refused
    obtain ⟨keys, found, label, placed, labeled, named⟩ := file_names made known
    obtain ⟨subtypes, hierarchy, closed⟩ :=
      (placed_unregistered made placed labeled named).mp refused
    exact ⟨keys, found, subtypes, placed, by rw [labeled]; rfl, named, hierarchy, closed⟩
  · rintro ⟨keys, found, subtypes, placed, labeled, named, hierarchy, closed⟩
    obtain ⟨label, labeled⟩ := Option.isSome_iff_exists.mp labeled
    exact (placed_unregistered made placed labeled named).mpr ⟨subtypes, hierarchy, closed⟩

theorem closes_named (made : file.table = .ok table) {name : String} (closes : file.Closes name) :
    name ∈ table.subtypeNames := by
  obtain ⟨keys, found, subtypes, placed, labeled, rfl, -, -⟩ := closes
  obtain ⟨label, labeled⟩ := Option.isSome_iff_exists.mp labeled
  exact placed_named made placed labeled

/-- A value is refused as unregistered if and only if its subtype is none the table has and there is
no fallback, or it is one the table has, but that of a hierarchy in which nothing takes it. -/
theorem unregistered_iff (made : file.table = .ok table) (variant : Variant) :
    ((∃ subtype known, table.toJson variant = .error (.unregistered subtype known)) ↔
      (variant.subtype ∉ table.subtypeNames ∧
        ¬∃ name adapter, table.policy = .fallback name adapter) ∨ file.Closes variant.subtype) ∧
    (file.Closes variant.subtype → variant.subtype ∈ table.subtypeNames) := by
  refine ⟨?_, closes_named made⟩
  show Unregistered (table.toJson variant) ↔ _
  rw [Table.toJson_eq, unregistered_map]
  by_cases known : variant.subtype ∈ table.subtypeNames
  · rw [known_unregistered made known]
    exact ⟨.inr, fun refused => refused.resolve_left fun other => other.1 known⟩
  · rw [other_unregistered (declared_of_file made) known]
    exact ⟨fun none => .inl ⟨known, none⟩,
      fun refused => (refused.resolve_right fun closes => known (closes_named made closes)).2⟩

end Files

/-- The table of the figures lists their hierarchy and refuses it. -/
theorem figure_unregistered : "Figure" ∈ figuresTable.subtypeNames ∧ ∃ subtype known,
    figuresTable.toJson (.unit "Figure") = .error (.unregistered subtype known) := by
  obtain ⟨refused, listed⟩ := unregistered_iff figures_built (.unit "Figure")
  have closes : figures.Closes "Figure" :=
    ⟨["type"], _, _, List.mem_cons_self, rfl, rfl, rfl, by simp [Member.IsFallback]⟩
  exact ⟨listed closes, refused.mpr (.inr closes)⟩

end TaggedJson
