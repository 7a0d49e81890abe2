import TaggedJson.Proofs.Declared
import TaggedJson.Proofs.Resolution
/-! Which hierarchy files build, said of the declarations as they are written, and what the table
that comes out resolves. A table is put together from the inside out, and an error can come from the
translation of a declaration or from the table around it; what is accepted depends on neither. -/
namespace TaggedJson
open Hierarchy

/-! What a file declares. -/

/-- What documents can tell of an entry. -/
structure Heading where
  name : String
  label : String
  alternates : List String
  singleton : Bool
deriving DecidableEq

def Heading.labels (heading : Heading) : List String := heading.label :: heading.alternates

mutual
/-- The entries of the table that a declaration is part of: those of a group are among them, those
of a hierarchy with a key of its own are not. -/
def Member.headings : Member → List Heading
  | ⟨_, _, _, _, _, none, some subtypes⟩ => memberHeadings subtypes
  | ⟨name, label, alternates, singleton, _, _, _⟩ =>
    label.toList.map fun label => ⟨name, label, alternates, singleton⟩

def memberHeadings : List Member → List Heading
  | [] => []
  | member :: rest => member.headings ++ memberHeadings rest
end

mutual
/-- The names of the values that can be written below a declaration. -/
def Member.names : Member → List String
  | ⟨_, _, _, _, _, none, some subtypes⟩ => memberNames subtypes
  | ⟨name, _, _, _, _, some _, some subtypes⟩ => name :: memberNames subtypes
  | ⟨name, label, _, _, _, _, none⟩ => label.toList.map fun _ => name

def memberNames : List Member → List String
  | [] => []
  | member :: rest => member.names ++ memberNames rest
end

/-! Validity. -/

/-- What has to hold between the declarations of a table. -/
structure Together (defaultNull : Bool) (members : List Member) : Prop where
  defaults : defaultNull.toNat + members.countP Member.isDefault ≤ 1
  labels : ((memberHeadings members).flatMap Heading.labels).Nodup
  names : (memberNames members).Nodup

mutual
def Member.Valid : Member → Prop
  | ⟨_, label, alternates, singleton, isDefault, own, some subtypes⟩ =>
    (singleton = false ∧ isDefault = false) ∧
      (own = none → label = none ∧ alternates = []) ∧ (own ≠ none → label ≠ none) ∧
      EachValid subtypes ∧ Together false subtypes
  | ⟨_, label, alternates, _, isDefault, own, none⟩ =>
    own = none ∧ (isDefault = false → label ≠ none) ∧ (label = none → alternates = [])

def EachValid : List Member → Prop
  | [] => True
  | member :: rest => member.Valid ∧ EachValid rest
end

def HierarchyFile.Valid (file : HierarchyFile) : Prop :=
  EachValid file.subtypes ∧ Together file.defaultNull file.subtypes

instance (defaultNull : Bool) (members : List Member) : Decidable (Together defaultNull members) :=
  decidable_of_iff (defaultNull.toNat + members.countP Member.isDefault ≤ 1 ∧
      ((memberHeadings members).flatMap Heading.labels).Nodup ∧ (memberNames members).Nodup)
    ⟨fun ⟨defaults, labels, names⟩ => ⟨defaults, labels, names⟩,
      fun ⟨defaults, labels, names⟩ => ⟨defaults, labels, names⟩⟩

mutual
def Member.decideValid : ∀ member : Member, Decidable member.Valid
  | ⟨_, label, alternates, singleton, isDefault, own, some subtypes⟩ =>
    have := decideEachValid subtypes
    inferInstanceAs (Decidable ((singleton = false ∧ isDefault = false) ∧
      (own = none → label = none ∧ alternates = []) ∧ (own ≠ none → label ≠ none) ∧
      EachValid subtypes ∧ Together false subtypes))
  | ⟨_, label, alternates, _, isDefault, own, none⟩ =>
    inferInstanceAs (Decidable (own = none ∧ (isDefault = false → label ≠ none) ∧
      (label = none → alternates = [])))

def decideEachValid : ∀ members : List Member, Decidable (EachValid members)
  | [] => inferInstanceAs (Decidable True)
  | member :: rest =>
    have := member.decideValid
    have := decideEachValid rest
    inferInstanceAs (Decidable (member.Valid ∧ EachValid rest))
end

instance (file : HierarchyFile) : Decidable file.Valid :=
  have := decideEachValid file.subtypes
  inferInstanceAs (Decidable (EachValid file.subtypes ∧ Together file.defaultNull file.subtypes))

/-! What is declared reaches the table. -/

def Hierarchy.Entry.heading {α : Type} (entry : Hierarchy.Entry α) : Heading :=
  ⟨entry.subtype, entry.label, entry.alternates, entry.isSingleton⟩

def Hierarchy.Table.headings {α : Type} (table : Table α) : List Heading :=
  table.members.map Entry.heading

def Hierarchy.Declaration.headings {α : Type} (declaration : Declaration α) : List Heading :=
  declaration.entry?.toList.map Entry.heading ++
    declaration.group?.toList.flatMap fun group => group.2.headings

theorem Hierarchy.Table.labels_eq {α : Type} (table : Table α) :
    table.labels = table.headings.flatMap Heading.labels := by
  rw [Table.headings, List.flatMap_map]
  rfl

theorem takenLabels_eq {α : Type} (declaration : Declaration α) :
    declaration.takenLabels = declaration.headings.flatMap Heading.labels := by
  simp only [Declaration.takenLabels, Declaration.headings, List.flatMap_append, List.flatMap_map,
    List.flatMap_assoc, Table.labels_eq]
  rfl

theorem build_headings {key : String} {declarations : List (Declaration Variant)}
    {table : Table Variant} (built : Table.build key declarations = .ok table) :
    table.headings.Perm (declarations.flatMap Declaration.headings) := by
  have parts := parts_perm declarations (fun entry => [entry.heading]) Table.headings
  rw [(build_ok built).eq, Table.headings, Table.members, nestedMembers_eq, List.map_append,
    List.map_flatMap]
  simp only [← List.map_eq_flatMap] at parts
  exact parts

theorem build_names {key : String} {declarations : List (Declaration Variant)}
    {table : Table Variant} (built : Table.build key declarations = .ok table) :
    table.subtypeNames.Perm (declarations.flatMap Declaration.takenNames) := by
  rw [(build_ok built).eq, Table.subtypeNames, entryNames_eq, nestedNames_eq]
  exact parts_perm declarations Entry.names Table.subtypeNames

/-- What a declaration of a file is in the table around it. -/
structure Declares (member : Member) (declaration : Declaration Variant) : Prop where
  headings : declaration.headings.Perm member.headings
  names : declaration.takenNames.Perm member.names
  isDefault : declaration.isDefault = member.isDefault

structure DeclareAll (members : List Member) (declarations : List (Declaration Variant)) :
    Prop where
  headings : (declarations.flatMap Declaration.headings).Perm (memberHeadings members)
  names : (declarations.flatMap Declaration.takenNames).Perm (memberNames members)
  defaults : declarations.countP Declaration.isDefault = members.countP Member.isDefault

theorem declares_leaf (key name : String) (outer alternates : List String)
    (label own : Option String) (singleton isDefault : Bool) :
    Declares ⟨name, label, alternates, singleton, isDefault, own, none⟩
      ⟨name, label, alternates, leafKind key outer name singleton isDefault⟩ := by
  cases own <;> cases label <;> cases singleton <;> cases isDefault <;>
    exact ⟨.refl _, .refl _, rfl⟩

theorem declareAll_of_each {members : List Member} {declarations : List (Declaration Variant)}
    (each : List.Forall₂ Declares members declarations) : DeclareAll members declarations := by
  induction each with
  | nil => exact ⟨.refl _, .refl _, rfl⟩
  | cons own _ later =>
    refine ⟨?_, ?_, ?_⟩
    · exact own.headings.append later.headings
    · exact own.names.append later.names
    · rw [List.countP_cons, List.countP_cons, later.defaults, own.isDefault]

theorem declares_hereditary : Hereditary fun _ _ => Declares := by
  constructor
  · intro key outer name label alternates singleton isDefault own _
    apply declares_leaf
  · -- A group is the entries of its table.
    intro key outer name label alternates subtypes inner table _ built each
    have all := declareAll_of_each each
    refine ⟨?_, ?_, rfl⟩
    · simpa [Declaration.headings, Declaration.entry?, Declaration.body?, Declaration.group?,
        Member.headings] using (build_headings built).trans all.headings
    · simpa [Declaration.takenNames, Declaration.entry?, Declaration.body?, Declaration.group?,
        Member.names] using (build_names built).trans all.names
  · -- A hierarchy is one entry, and only the names below it count around it.
    intro key outer name label alternates within subtypes inner table _ built each
    have all := declareAll_of_each each
    refine ⟨.refl _, ?_, rfl⟩
    simpa [Declaration.takenNames, Declaration.entry?, Declaration.body?, Declaration.group?,
        Entry.names, Body.encodable, Adapter.encodable, Member.names]
      using (build_names built).trans all.names

theorem members_declare {key : String} {outer : List String} {members : List Member}
    {declarations : List (Declaration Variant)}
    (made : memberDeclarations key outer members = .ok declarations) :
    DeclareAll members declarations :=
  declareAll_of_each (declares_hereditary.members members made)

/-! What is accepted. -/

theorem leaf_iff {key name : String} {outer alternates : List String} {label own : Option String}
    {singleton isDefault : Bool} {declaration : Declaration Variant} :
    (⟨name, label, alternates, singleton, isDefault, own, none⟩ : Member).declaration key outer =
        .ok declaration ↔
      own = none ∧ (isDefault = false → label ≠ none) ∧
        declaration = ⟨name, label, alternates, leafKind key outer name singleton isDefault⟩ := by
  constructor
  · intro made
    refine ⟨?_, ?_, leaf_declared made⟩
    · cases own with
      | none => rfl
      | some text => cases made
    · rintro rfl rfl
      cases own <;> cases singleton <;> cases made
  · rintro ⟨rfl, labeled, rfl⟩
    cases label with
    | some text => cases singleton <;> cases isDefault <;> rfl
    | none =>
      cases isDefault with
      | false => exact (labeled rfl rfl).elim
      | true => cases singleton <;> rfl

/-- The declarations of a table, the null default first. -/
def defaulted (defaultNull : Bool) (declarations : List (Declaration Variant)) :
    List (Declaration Variant) :=
  if defaultNull then .nullDefault :: declarations else declarations

/-- The null default is a default and nothing else. -/
theorem valid_defaulted {key : String} (defaultNull : Bool)
    (declarations : List (Declaration Variant)) :
    Hierarchy.Valid key (defaulted defaultNull declarations) ↔
      (∀ declaration ∈ declarations, declaration.Fits key) ∧
      defaultNull.toNat + declarations.countP Declaration.isDefault ≤ 1 ∧
      (declarations.flatMap Declaration.takenLabels).Nodup ∧
      (declarations.flatMap Declaration.takenNames).Nodup := by
  cases defaultNull with
  | false =>
    have counted : declarations.countP Declaration.isDefault =
        false.toNat + declarations.countP Declaration.isDefault := (Nat.zero_add _).symm
    constructor
    · rintro ⟨fits, defaults, labels, names⟩
      exact ⟨fits, counted ▸ defaults, labels, names⟩
    · rintro ⟨fits, defaults, labels, names⟩
      exact ⟨fits, counted ▸ defaults, labels, names⟩
  | true =>
    have counted : (defaulted true declarations).countP Declaration.isDefault =
        true.toNat + declarations.countP Declaration.isDefault :=
      (List.countP_cons_of_pos rfl).trans (Nat.add_comm ..)
    constructor
    · rintro ⟨fits, defaults, labels, names⟩
      exact ⟨fun declaration member => fits declaration (List.mem_cons_of_mem _ member),
        counted ▸ defaults, labels, names⟩
    · rintro ⟨fits, defaults, labels, names⟩
      refine ⟨fun declaration member => ?_, counted ▸ defaults, labels, names⟩
      rcases List.mem_cons.mp member with rfl | later
      · exact ⟨rfl, rfl⟩
      · exact fits declaration later

/-- Declarations that fit make a table if they are valid together. -/
theorem built_iff {key : String} {outer : List String} {members : List Member}
    {declarations : List (Declaration Variant)} (defaultNull : Bool)
    (declared : memberDeclarations key outer members = .ok declarations) :
    (∃ table, Table.build key (defaulted defaultNull declarations) = .ok table) ↔
      (∀ declaration ∈ declarations, declaration.Fits key) ∧ Together defaultNull members := by
  have all := members_declare declared
  have labels := (all.headings.flatMap_right Heading.labels).nodup_iff
  rw [List.flatMap_assoc, ← funext takenLabels_eq] at labels
  rw [build_isOk_iff, valid_defaulted, labels, all.names.nodup_iff, all.defaults]
  constructor
  · rintro ⟨fits, defaults, distinct, named⟩
    exact ⟨fits, defaults, distinct, named⟩
  · rintro ⟨fits, defaults, distinct, named⟩
    exact ⟨fits, defaults, distinct, named⟩

theorem leaf_fits (key name : String) (outer alternates : List String) (label : Option String)
    (singleton isDefault : Bool) :
    Declaration.Fits key ⟨name, label, alternates, leafKind key outer name singleton isDefault⟩ ↔
      (label = none → isDefault = true ∧ alternates = []) := by
  cases singleton <;> cases isDefault <;> exact Iff.rfl

mutual
/-- What is around a declaration does not matter. -/
theorem member_valid_iff : ∀ (member : Member) (key : String) (outer : List String),
    member.Valid ↔
      ∃ declaration, member.declaration key outer = .ok declaration ∧ declaration.Fits key
  | ⟨name, label, alternates, singleton, isDefault, own, none⟩, key, outer => by
    simp only [Member.Valid, leaf_iff]
    constructor
    · rintro ⟨bare, labeled, plain⟩
      refine ⟨_, ⟨bare, labeled, rfl⟩, (leaf_fits ..).mpr fun unlabeled => ?_⟩
      refine ⟨?_, plain unlabeled⟩
      by_contra other
      exact labeled (eq_false_of_ne_true other) unlabeled
    · rintro ⟨_, ⟨bare, labeled, rfl⟩, fits⟩
      exact ⟨bare, labeled, fun unlabeled => ((leaf_fits ..).mp fits unlabeled).2⟩
  | ⟨name, label, alternates, singleton, isDefault, own, some subtypes⟩, key, outer => by
    simp only [Member.Valid]
    constructor
    · rintro ⟨⟨rfl, rfl⟩, group, hierarchy, each, together⟩
      cases own with
      | none =>
        obtain ⟨rfl, rfl⟩ := group rfl
        obtain ⟨inner, declared, fits⟩ := (eachValid_iff subtypes key outer).mp each
        obtain ⟨table, built⟩ := (built_iff false declared).mpr ⟨fits, together⟩
        exact ⟨_, group_made declared built, rfl, rfl, (build_ok built).key_eq⟩
      | some within =>
        obtain ⟨text, rfl⟩ := Option.ne_none_iff_exists'.mp (hierarchy nofun)
        obtain ⟨inner, declared, fits⟩ := (eachValid_iff subtypes within (outer ++ [key])).mp each
        obtain ⟨table, built⟩ := (built_iff false declared).mpr ⟨fits, together⟩
        exact ⟨_, hierarchy_made declared built, nofun⟩
    · rintro ⟨declaration, made, fits⟩
      refine ⟨group_plain made, ?_⟩
      rcases group_declared made with ⟨inner, table, rfl, declared, built, rfl⟩ |
        ⟨inner, table, within, text, rfl, rfl, declared, built, rfl⟩
      · obtain ⟨each, together⟩ := (built_iff false declared).mp ⟨table, built⟩
        refine ⟨fun _ => ⟨fits.1, fits.2.1⟩, fun other => (other rfl).elim, ?_, together⟩
        exact (eachValid_iff subtypes key outer).mpr ⟨inner, declared, each⟩
      · obtain ⟨each, together⟩ := (built_iff false declared).mp ⟨table, built⟩
        refine ⟨nofun, nofun, ?_, together⟩
        exact (eachValid_iff subtypes within (outer ++ [key])).mpr ⟨inner, declared, each⟩

theorem eachValid_iff : ∀ (members : List Member) (key : String) (outer : List String),
    EachValid members ↔ ∃ declarations, memberDeclarations key outer members = .ok declarations ∧
      ∀ declaration ∈ declarations, declaration.Fits key
  | [], key, outer => by
    simp only [EachValid, true_iff]
    exact ⟨[], rfl, nofun⟩
  | member :: rest, key, outer => by
    simp only [EachValid]
    constructor
    · rintro ⟨valid, later⟩
      obtain ⟨first, made, own⟩ := (member_valid_iff member key outer).mp valid
      obtain ⟨others, declared, fits⟩ := (eachValid_iff rest key outer).mp later
      refine ⟨first :: others, ?_, List.forall_mem_cons.mpr ⟨own, fits⟩⟩
      simp only [memberDeclarations, made, declared]
      rfl
    · rintro ⟨declarations, made, fits⟩
      obtain ⟨first, others, declared, more, rfl⟩ := members_declared made
      obtain ⟨own, later⟩ := List.forall_mem_cons.mp fits
      exact ⟨(member_valid_iff member key outer).mpr ⟨first, declared, own⟩,
        (eachValid_iff rest key outer).mpr ⟨others, more, later⟩⟩
end

theorem file_valid_iff (file : HierarchyFile) : (∃ table, file.table = .ok table) ↔ file.Valid := by
  constructor
  · rintro ⟨table, made⟩
    obtain ⟨declarations, declared, built⟩ := file_built made
    obtain ⟨fits, together⟩ := (built_iff file.defaultNull declared).mp ⟨table, built⟩
    exact ⟨(eachValid_iff _ _ _).mpr ⟨declarations, declared, fits⟩, together⟩
  · rintro ⟨each, together⟩
    obtain ⟨declarations, declared, fits⟩ := (eachValid_iff _ file.key []).mp each
    obtain ⟨table, built⟩ := (built_iff file.defaultNull declared).mpr ⟨fits, together⟩
    exact ⟨table, Draft.except_bind_ok.mpr ⟨declarations, declared, declaredTable_ok.mpr built⟩⟩

theorem file_headings {file : HierarchyFile} {table : Table Variant}
    (made : file.table = .ok table) : table.headings.Perm (memberHeadings file.subtypes) := by
  obtain ⟨declarations, declared, built⟩ := file_built made
  refine .trans ?_ (members_declare declared).headings
  have headings := build_headings built
  cases null : file.defaultNull <;> rw [null] at headings <;> exact headings

/-! What is resolved. -/

/-- A table finds, for the labels of the entries declared, those entries and nothing else. -/
structure Finds (table : Table Variant) (headings : List Heading) : Prop where
  owner : ∀ label heading, (table.lookup label).map Entry.heading = some heading ↔
    heading ∈ headings ∧ label ∈ heading.labels
  known : ∀ label, (table.lookup label).isSome = true ↔
    ∃ heading ∈ headings, label ∈ heading.labels

theorem finds_of_headings {table : Table Variant} {headings : List Heading}
    (distinct : table.labels.Nodup) (same : table.headings.Perm headings) :
    Finds table headings := by
  constructor
  · intro label heading
    rw [← same.mem_iff]
    constructor
    · intro found
      obtain ⟨entry, looked, rfl⟩ := Option.map_eq_some_iff.mp found
      obtain ⟨member, labeled⟩ := mem_of_lookup looked
      exact ⟨List.mem_map_of_mem member, labeled⟩
    · rintro ⟨listed, labeled⟩
      obtain ⟨entry, member, rfl⟩ := List.mem_map.mp listed
      rw [lookup_of_mem distinct member labeled, Option.map_some]
  · intro label
    rw [lookup_isSome, Table.labels_eq, List.mem_flatMap]
    constructor
    · rintro ⟨heading, listed, labeled⟩
      exact ⟨heading, same.mem_iff.mp listed, labeled⟩
    · rintro ⟨heading, listed, labeled⟩
      exact ⟨heading, same.mem_iff.mpr listed, labeled⟩

mutual
/-- Where a declaration is a hierarchy with a key of its own, the entry for its label reads with a
table of that key, which finds what is declared there. -/
def Member.Found : Member → Table Variant → Prop
  | ⟨_, _, _, _, _, none, some subtypes⟩, table => EachFound subtypes table
  | ⟨_, some label, _, _, _, some within, some subtypes⟩, table =>
    ∃ entry inner, table.lookup label = some entry ∧ entry.body = .adapter (.tagged inner false) ∧
      inner.key = within ∧ Finds inner (memberHeadings subtypes) ∧ EachFound subtypes inner
  | _, _ => True

def EachFound : List Member → Table Variant → Prop
  | [], _ => True
  | member :: rest, table => member.Found table ∧ EachFound rest table
end

theorem built_finds {key : String} {outer : List String} {members : List Member}
    {declarations : List (Declaration Variant)} {table : Table Variant}
    (declared : memberDeclarations key outer members = .ok declarations)
    (built : Table.build key declarations = .ok table) :
    Finds table (memberHeadings members) :=
  finds_of_headings (build_ok built).labels
    ((build_headings built).trans (members_declare declared).headings)

/-- The entries that a declaration adds to a table are members of that table. -/
def Joins (declaration : Declaration Variant) (table : Table Variant) : Prop :=
  ∀ entry, (declaration.entry? = some entry ∨
    ∃ group, declaration.group? = some group ∧ entry ∈ group.2.members) → entry ∈ table.members

theorem joins_of_build {key : String} {declarations : List (Declaration Variant)}
    {table : Table Variant} (built : Table.build key declarations = .ok table) :
    ∀ declaration ∈ declarations, Joins declaration table := fun declaration declared _ added =>
  (build_ok built).mem_members.mpr ⟨declaration, declared, added⟩

/-- A hierarchy is found in any table that has the entries of its declaration. -/
def FoundWhere (member : Member) (declaration : Declaration Variant) : Prop :=
  ∀ table : Table Variant, table.labels.Nodup → Joins declaration table → member.Found table

theorem eachFound_of_each {members : List Member} {declarations : List (Declaration Variant)}
    (each : List.Forall₂ FoundWhere members declarations) {table : Table Variant}
    (distinct : table.labels.Nodup)
    (joins : ∀ declaration ∈ declarations, Joins declaration table) : EachFound members table := by
  induction each with
  | nil => exact True.intro
  | cons found _ ih =>
    obtain ⟨own, later⟩ := List.forall_mem_cons.mp joins
    exact ⟨found table distinct own, ih later⟩

theorem found_hereditary : Hereditary fun _ _ => FoundWhere := by
  constructor
  · intro key outer name label alternates singleton isDefault own _ table _ _
    cases own <;> cases label <;> exact True.intro
  · -- The members of a group are searched with those of the table around it.
    intro key outer name label alternates subtypes inner nested _ built each table distinct joins
    simp only [Member.Found]
    refine eachFound_of_each each distinct fun declaration member entry added => ?_
    exact joins entry (.inr ⟨_, rfl, joins_of_build built declaration member entry added⟩)
  · intro key outer name label alternates within subtypes inner nested declared built each table
      distinct joins
    have member := joins _ (.inl rfl)
    refine ⟨_, nested, lookup_of_mem distinct member List.mem_cons_self, rfl,
      (build_ok built).key_eq, built_finds declared built, ?_⟩
    exact eachFound_of_each each (build_ok built).labels (joins_of_build built)

theorem file_found {file : HierarchyFile} {table : Table Variant}
    (made : file.table = .ok table) : EachFound file.subtypes table := by
  obtain ⟨declarations, declared, built⟩ := file_built made
  refine eachFound_of_each (found_hereditary.members file.subtypes declared)
    (build_ok built).labels fun declaration member => ?_
  exact joins_of_build built declaration (mem_file_declarations.mpr (.inr member))

/-- A file builds if and only if it is valid, and what it builds finds what is declared: at the top
level and in groups by the table itself, in a hierarchy by the table of that. -/
theorem builds_iff_valid (file : HierarchyFile) :
    ((∃ table, file.table = .ok table) ↔ file.Valid) ∧
    ∀ table, file.table = .ok table →
      Finds table (memberHeadings file.subtypes) ∧ EachFound file.subtypes table := by
  refine ⟨file_valid_iff file, fun table made => ⟨?_, file_found made⟩⟩
  exact finds_of_headings (accepted_of_file made).labels (file_headings made)

/-- A record, a group with a singleton in it, and a hierarchy that uses a label of the group under
its own key. -/
def vehicles : HierarchyFile :=
  ⟨"type", true, [⟨"Car", some "car", ["auto"], false, false, none, none⟩,
    ⟨"Vessel", none, [], false, false, none,
      some [⟨"Raft", some "raft", [], true, false, none, none⟩]⟩,
    ⟨"Aircraft", some "aircraft", [], false, false, some "lift",
      some [⟨"Glider", some "glider", ["raft"], false, false, none, none⟩]⟩]⟩

theorem vehicles_found : vehicles.Valid ∧ ∃ table, vehicles.table = .ok table ∧
    (table.lookup "raft").map Entry.heading = some ⟨"Raft", "raft", [], true⟩ ∧
    table.lookup "glider" = none := by
  obtain ⟨accepted, found⟩ := builds_iff_valid vehicles
  have valid : vehicles.Valid := by decide
  obtain ⟨table, made⟩ := accepted.mpr valid
  obtain ⟨finds, -⟩ := found table made
  refine ⟨valid, table, made, (finds.owner _ _).mpr (by decide), ?_⟩
  rw [← Option.not_isSome_iff_eq_none, finds.known]
  decide

/-- Null is a default, so a file with it has no room for a fallback. -/
example : ¬HierarchyFile.Valid ⟨"type", true, [⟨"Other", none, [], false, true, none, none⟩]⟩ := by
  decide

end TaggedJson
