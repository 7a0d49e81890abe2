import TaggedJson.HierarchyFile.Build
import TaggedJson.Proofs.Builds
/-! The tables that hierarchy files build. Every entry is a singleton, a record or a hierarchy of
its own, and records reserve the keys of the hierarchies around them, outermost first. -/
namespace TaggedJson
open Hierarchy

mutual
/-- An entry under a key, with the keys further out. -/
inductive EntryDeclared : List String → String → Hierarchy.Entry Variant → Prop
  | singleton {outer alternates : List String} {key name label : String} :
    EntryDeclared outer key ⟨name, label, alternates, .singleton (.unit name)⟩
  | record {outer alternates : List String} {key name label : String} : EntryDeclared outer key
      ⟨name, label, alternates, .adapter (Variant.record name (outer ++ [key]))⟩
  /-- The fallback, if it has a label: it is written as it is without one, but for the label. -/
  | fallback {outer alternates : List String} {key name label : String} :
    EntryDeclared outer key ⟨name, label, alternates, .adapter (Variant.record name outer)⟩
  | hierarchy {outer alternates : List String} {key name label : String} {inner : Table Variant}
    (declared : Declared (outer ++ [key]) inner) (valued : inner.policy ≠ .null) :
    EntryDeclared outer key ⟨name, label, alternates, .adapter (.tagged inner false)⟩

inductive Declared : List String → Table Variant → Prop
  | table {outer : List String} {table : Table Variant}
    (entries : ∀ entry ∈ table.members, EntryDeclared outer table.key entry)
    (object : ∀ name value, table.policy = .object name value → value = .unit name)
    (fallback : ∀ name adapter, table.policy = .fallback name adapter →
      adapter = Variant.record name outer) : Declared outer table
end

section Fields
variable {outer : List String} {table : Table Variant}

theorem Declared.entries (declared : Declared outer table) :
    ∀ entry ∈ table.members, EntryDeclared outer table.key entry := by
  obtain ⟨entries, -, -⟩ := declared
  exact entries

theorem Declared.object (declared : Declared outer table) {name : String} {value : Variant}
    (policy : table.policy = .object name value) : value = .unit name := by
  obtain ⟨-, object, -⟩ := declared
  exact object name value policy

theorem Declared.fallback (declared : Declared outer table) {name : String}
    {adapter : Adapter Variant} (policy : table.policy = .fallback name adapter) :
    adapter = Variant.record name outer := by
  obtain ⟨-, -, fallback⟩ := declared
  exact fallback name adapter policy

/-- A hierarchy inside a table is lenient and declared as well. -/
theorem Declared.inner (declared : Declared outer table) {group : Hierarchy.Entry Variant}
    (member : group ∈ table.members) {inner : Table Variant} {strict : Bool}
    (hierarchy : group.body = .adapter (.tagged inner strict)) :
    strict = false ∧ ∃ within, Declared within inner := by
  have is := declared.entries group member
  cases is <;> cases hierarchy
  exact ⟨rfl, _, ‹_›⟩

end Fields

/-- What a declaration of a file adds to a table under a key. -/
structure Contributes (outer : List String) (key : String) (declaration : Declaration Variant) :
    Prop where
  entry : ∀ entry, declaration.entry? = some entry → EntryDeclared outer key entry
  group : ∀ group, declaration.group? = some group → Declared outer group.2
  object : ∀ name value, declaration.policy? = some (.object name value) → value = .unit name
  fallback : ∀ name adapter, declaration.policy? = some (.fallback name adapter) →
    adapter = Variant.record name outer

theorem declared_of_build {outer : List String} {key : String} {table : Table Variant}
    {declarations : List (Declaration Variant)} (built : Table.build key declarations = .ok table)
    (contributes : ∀ declaration ∈ declarations, Contributes outer key declaration) :
    Declared outer table := by
  have builds := build_ok built
  refine .table ?_ ?_ ?_
  · intro entry member
    rw [builds.key_eq]
    obtain ⟨declaration, declared, made | ⟨group, made, member⟩⟩ := builds.mem_members.mp member
    · exact (contributes declaration declared).entry entry made
    · have inner := ((contributes declaration declared).group group made).entries entry member
      rwa [builds.group_key declared made] at inner
  · intro name value policy
    obtain ⟨declaration, declared, made⟩ := builds.policy_declared policy nofun
    exact (contributes declaration declared).object name value made
  · intro name adapter policy
    obtain ⟨declaration, declared, made⟩ := builds.policy_declared policy nofun
    exact (contributes declaration declared).fallback name adapter made

theorem declaredTable_ok {key : String} {declarations : List (Declaration Variant)}
    {table : Table Variant} : declaredTable key declarations = .ok table ↔
      Table.build key declarations = .ok table := by
  unfold declaredTable
  cases Table.build key declarations <;> simp

/-! What a member of a file declares. -/

def leafKind (key : String) (outer : List String) (name : String) (singleton isDefault : Bool) :
    Declaration.Kind Variant :=
  match singleton, isDefault with
  | true, true => .defaultObject (.unit name)
  | false, true => .fallback (Variant.record name outer)
  | true, false => .singleton (.unit name)
  | false, false => .adapter (Variant.record name (outer ++ [key]))

theorem labeled_none_eq (label : Option String) (name : String)
    (kind : Declaration.Kind Variant) :
    labeled label ⟨name, none, [], kind⟩ = ⟨name, label, [], kind⟩ := by
  cases label <;> rfl

theorem leaf_ok {key name : String} {outer : List String} {label : Option String}
    {singleton isDefault : Bool} {declaration : Declaration Variant}
    (made : leaf key outer name label singleton isDefault = .ok declaration) :
    declaration = ⟨name, label, [], leafKind key outer name singleton isDefault⟩ := by
  cases isDefault with
  | true =>
    cases singleton <;>
    · cases made
      exact labeled_none_eq label name _
  | false =>
    -- What is neither labeled nor the default is refused.
    cases label with
    | none => cases singleton <;> cases made
    | some label => cases singleton <;> cases made <;> rfl

theorem leaf_declared {key name : String} {outer alternates : List String} {label : Option String}
    {singleton isDefault : Bool} {declaration : Declaration Variant} {own : Option String}
    (made : (⟨name, label, alternates, singleton, isDefault, own, none⟩ : Member).declaration
      key outer = .ok declaration) :
    declaration = ⟨name, label, alternates, leafKind key outer name singleton isDefault⟩ := by
  simp only [Member.declaration] at made
  split at made
  · cases made
  obtain ⟨first, leafed, rest⟩ := Draft.except_bind_ok.mp made
  cases rest
  rw [leaf_ok leafed]
  rfl

/-- What is declared around the table of some subtypes. -/
theorem around_table_iff {key : String} {outer : List String} {subtypes : List Member}
    {around : Table Variant → Declaration Variant} {declaration : Declaration Variant} :
    (do
      let inner ← memberDeclarations key outer subtypes
      let table ← declaredTable key inner
      .ok (around table) : Except HierarchyFile.Error (Declaration Variant)) = .ok declaration ↔
    ∃ inner table, memberDeclarations key outer subtypes = .ok inner ∧
      Table.build key inner = .ok table ∧ declaration = around table := by
  constructor
  · intro made
    obtain ⟨inner, declared, rest⟩ := Draft.except_bind_ok.mp made
    obtain ⟨table, built, rest⟩ := Draft.except_bind_ok.mp rest
    cases rest
    exact ⟨inner, table, declared, declaredTable_ok.mp built, rfl⟩
  · rintro ⟨inner, table, declared, built, rfl⟩
    exact Draft.except_bind_ok.mpr
      ⟨inner, declared, Draft.except_bind_ok.mpr ⟨table, declaredTable_ok.mpr built, rfl⟩⟩

theorem group_declared {key name : String} {outer alternates : List String}
    {label own : Option String} {singleton isDefault : Bool} {subtypes : List Member}
    {declaration : Declaration Variant}
    (made : (⟨name, label, alternates, singleton, isDefault, own, some subtypes⟩ :
      Member).declaration key outer = .ok declaration) :
    (∃ inner table, own = none ∧ memberDeclarations key outer subtypes = .ok inner ∧
      Table.build key inner = .ok table ∧
      declaration = ⟨name, label, alternates, .nested table⟩) ∨
    ∃ inner table within text, own = some within ∧ label = some text ∧
      memberDeclarations within (outer ++ [key]) subtypes = .ok inner ∧
      Table.build within inner = .ok table ∧
      declaration = ⟨name, some text, alternates, .adapter (.tagged table false)⟩ := by
  simp only [Member.declaration] at made
  split at made
  · cases made
  cases own with
  | none =>
    obtain ⟨inner, table, declared, built, rfl⟩ := around_table_iff.mp made
    refine .inl ⟨inner, table, rfl, declared, built, ?_⟩
    rw [Declaration.nested, labeled_none_eq]
    rfl
  | some within =>
    cases label with
    | none => cases made
    | some text =>
      obtain ⟨inner, table, declared, built, rfl⟩ := around_table_iff.mp made
      exact .inr ⟨inner, table, within, text, rfl, rfl, declared, built, rfl⟩

theorem group_made {key name : String} {outer : List String} {subtypes : List Member}
    {inner : List (Declaration Variant)} {table : Table Variant}
    (declared : memberDeclarations key outer subtypes = .ok inner)
    (built : Table.build key inner = .ok table) :
    (⟨name, none, [], false, false, none, some subtypes⟩ : Member).declaration key outer =
      .ok ⟨name, none, [], .nested table⟩ := by
  simp only [Member.declaration]
  rw [if_neg (by decide)]
  exact around_table_iff.mpr ⟨inner, table, declared, built, rfl⟩

theorem hierarchy_made {key name within label : String} {outer alternates : List String}
    {subtypes : List Member} {inner : List (Declaration Variant)} {table : Table Variant}
    (declared : memberDeclarations within (outer ++ [key]) subtypes = .ok inner)
    (built : Table.build within inner = .ok table) :
    (⟨name, some label, alternates, false, false, some within, some subtypes⟩ :
        Member).declaration key outer =
      .ok ⟨name, some label, alternates, .adapter (.tagged table false)⟩ := by
  simp only [Member.declaration]
  rw [if_neg (by decide)]
  exact around_table_iff.mpr ⟨inner, table, declared, built, rfl⟩

/-- What has subtypes is neither a singleton nor a default. -/
theorem group_plain {key name : String} {outer alternates : List String}
    {label own : Option String} {singleton isDefault : Bool} {subtypes : List Member}
    {declaration : Declaration Variant}
    (made : (⟨name, label, alternates, singleton, isDefault, own, some subtypes⟩ :
      Member).declaration key outer = .ok declaration) : singleton = false ∧ isDefault = false := by
  simp only [Member.declaration] at made
  by_cases flagged : (singleton || isDefault) = true
  · rw [if_pos flagged] at made
    cases made
  · simpa using flagged

theorem members_declared {key : String} {outer : List String} {member : Member}
    {rest : List Member} {declarations : List (Declaration Variant)}
    (made : memberDeclarations key outer (member :: rest) = .ok declarations) :
    ∃ first others, member.declaration key outer = .ok first ∧
      memberDeclarations key outer rest = .ok others ∧ declarations = first :: others := by
  rw [memberDeclarations] at made
  obtain ⟨first, declared, made⟩ := Draft.except_bind_ok.mp made
  obtain ⟨others, more, made⟩ := Draft.except_bind_ok.mp made
  cases made
  exact ⟨first, others, declared, more, rfl⟩

/-! Members and their declarations, one by one. -/

theorem each_declared {key : String} {outer : List String} {members : List Member}
    {declarations : List (Declaration Variant)}
    (made : memberDeclarations key outer members = .ok declarations) :
    List.Forall₂ (fun member declaration => member.declaration key outer = .ok declaration)
      members declarations := by
  induction members generalizing declarations with
  | nil =>
    cases made
    exact .nil
  | cons first rest ih =>
    obtain ⟨one, others, declared, more, rfl⟩ := members_declared made
    exact .cons declared (ih more)

theorem exists_of_mem_right {α β : Type} {R : α → β → Prop} {xs : List α} {ys : List β}
    (each : List.Forall₂ R xs ys) {y : β} (member : y ∈ ys) : ∃ x ∈ xs, R x y := by
  induction each with
  | nil => cases member
  | @cons x _ _ _ related _ ih =>
    rcases List.mem_cons.mp member with rfl | later
    · exact ⟨x, List.mem_cons_self, related⟩
    · obtain ⟨other, member, related⟩ := ih later
      exact ⟨other, List.mem_cons_of_mem _ member, related⟩

theorem forall_of_right {α β : Type} {Q : β → Prop} {xs : List α} {ys : List β}
    (each : List.Forall₂ (fun _ y => Q y) xs ys) : ∀ y ∈ ys, Q y := by
  intro y member
  obtain ⟨_, -, holds⟩ := exists_of_mem_right each member
  exact holds

theorem exists_of_mem_left {α β : Type} {R : α → β → Prop} {xs : List α} {ys : List β}
    (each : List.Forall₂ R xs ys) {x : α} (member : x ∈ xs) : ∃ y ∈ ys, R x y :=
  exists_of_mem_right (List.Forall₂.flip each) member

/-- Members are related to their declarations, given a key and those further out, if leaves are,
and so are groups and hierarchies whose subtypes are related to theirs. -/
structure Hereditary (R : String → List String → Member → Declaration Variant → Prop) : Prop where
  leaf : ∀ {key : String} {outer : List String} {name : String} {label : Option String}
    {alternates : List String} {singleton isDefault : Bool} {own : Option String},
    (⟨name, label, alternates, singleton, isDefault, own, none⟩ : Member).declaration key outer =
      .ok ⟨name, label, alternates, leafKind key outer name singleton isDefault⟩ →
    R key outer ⟨name, label, alternates, singleton, isDefault, own, none⟩
      ⟨name, label, alternates, leafKind key outer name singleton isDefault⟩
  group : ∀ {key : String} {outer : List String} {name : String} {label : Option String}
    {alternates : List String} {subtypes : List Member} {inner : List (Declaration Variant)}
    {table : Table Variant}, memberDeclarations key outer subtypes = .ok inner →
    Table.build key inner = .ok table → List.Forall₂ (R key outer) subtypes inner →
    R key outer ⟨name, label, alternates, false, false, none, some subtypes⟩
      ⟨name, label, alternates, .nested table⟩
  hierarchy : ∀ {key : String} {outer : List String} {name label : String}
    {alternates : List String} {within : String} {subtypes : List Member}
    {inner : List (Declaration Variant)} {table : Table Variant},
    memberDeclarations within (outer ++ [key]) subtypes = .ok inner →
    Table.build within inner = .ok table →
    List.Forall₂ (R within (outer ++ [key])) subtypes inner →
    R key outer ⟨name, some label, alternates, false, false, some within, some subtypes⟩
      ⟨name, some label, alternates, .adapter (.tagged table false)⟩

section Hereditary
variable {R : String → List String → Member → Declaration Variant → Prop}

mutual
theorem Hereditary.member (hereditary : Hereditary R) : ∀ (member : Member) {key : String}
    {outer : List String} {declaration : Declaration Variant},
    member.declaration key outer = .ok declaration → R key outer member declaration
  | ⟨name, label, alternates, singleton, isDefault, own, none⟩, key, outer, declaration, made => by
    obtain rfl := leaf_declared made
    exact hereditary.leaf made
  | ⟨name, label, alternates, singleton, isDefault, own, some subtypes⟩, key, outer, declaration,
      made => by
    obtain ⟨rfl, rfl⟩ := group_plain made
    rcases group_declared made with ⟨inner, table, rfl, declared, built, rfl⟩ |
      ⟨inner, table, within, text, rfl, rfl, declared, built, rfl⟩
    · exact hereditary.group declared built (hereditary.members subtypes declared)
    · exact hereditary.hierarchy declared built (hereditary.members subtypes declared)

theorem Hereditary.members (hereditary : Hereditary R) : ∀ (members : List Member) {key : String}
    {outer : List String} {declarations : List (Declaration Variant)},
    memberDeclarations key outer members = .ok declarations →
    List.Forall₂ (R key outer) members declarations
  | [], key, outer, declarations, made => by
    cases made
    exact .nil
  | first :: rest, key, outer, declarations, made => by
    obtain ⟨one, others, declared, more, rfl⟩ := members_declared made
    exact .cons (hereditary.member first declared) (hereditary.members rest more)
end

end Hereditary

/-! Declared tables. -/

theorem leaf_contributes (key name : String) (outer alternates : List String)
    (label : Option String) (singleton isDefault : Bool) : Contributes outer key
      ⟨name, label, alternates, leafKind key outer name singleton isDefault⟩ := by
  constructor
  · intro entry made
    cases label <;> cases singleton <;> cases isDefault <;> cases made
    · exact .record
    · exact .fallback
    · exact .singleton
    · exact .singleton
  · intro group made
    cases singleton <;> cases isDefault <;> cases made
  · intro _ value made
    cases singleton <;> cases isDefault <;> cases made
    rfl
  · intro _ adapter made
    cases singleton <;> cases isDefault <;> cases made
    rfl

/-- Only the file as a whole can have null for a default. -/
theorem valued_of_build {key : String} {table : Table Variant}
    {declarations : List (Declaration Variant)} (built : Table.build key declarations = .ok table)
    (valued : ∀ declaration ∈ declarations, declaration.policy? ≠ some .null) :
    table.policy ≠ .null := by
  intro null
  obtain ⟨declaration, declared, made⟩ := (build_ok built).policy_declared null nofun
  exact valued declaration declared made

theorem contributes_hereditary : Hereditary fun key outer _ declaration =>
    Contributes outer key declaration ∧ declaration.policy? ≠ some .null := by
  constructor
  · intro key outer name label alternates singleton isDefault own _
    refine ⟨leaf_contributes .., ?_⟩
    cases singleton <;> cases isDefault <;> nofun
  · -- A group adds no entry of its own; its members are declared under the keys around it.
    intro key outer name label alternates subtypes inner table _ built each
    have all := forall_of_right each
    have declared := declared_of_build built fun declaration member => (all declaration member).1
    refine ⟨⟨fun _ made => ?_, ?_, nofun, nofun⟩, nofun⟩
    · cases label <;> cases made
    · rintro _ ⟨⟩
      exact declared
  · -- A hierarchy is one entry, and its members are declared under its key as well.
    intro key outer name label alternates within subtypes inner table _ built each
    have all := forall_of_right each
    have declared := declared_of_build built fun declaration member => (all declaration member).1
    have valued := valued_of_build built fun declaration member => (all declaration member).2
    refine ⟨⟨?_, nofun, nofun, nofun⟩, nofun⟩
    rintro _ ⟨⟩
    exact .hierarchy declared valued

theorem members_contribute {key : String} {outer : List String} {members : List Member}
    {declarations : List (Declaration Variant)}
    (made : memberDeclarations key outer members = .ok declarations) :
    ∀ declaration ∈ declarations, Contributes outer key declaration := fun declaration declared =>
  (forall_of_right (contributes_hereditary.members members made) declaration declared).1

theorem declared_of_members {key : String} {outer : List String} {members : List Member}
    {declarations : List (Declaration Variant)} {table : Table Variant}
    (made : memberDeclarations key outer members = .ok declarations)
    (built : Table.build key declarations = .ok table) : Declared outer table :=
  declared_of_build built (members_contribute made)

theorem file_built {file : HierarchyFile} {table : Table Variant} (made : file.table = .ok table) :
    ∃ declarations, memberDeclarations file.key [] file.subtypes = .ok declarations ∧
      Table.build file.key
        (if file.defaultNull then .nullDefault :: declarations else declarations) = .ok table := by
  obtain ⟨declarations, declared, built⟩ := Draft.except_bind_ok.mp made
  exact ⟨declarations, declared, declaredTable_ok.mp built⟩

theorem mem_file_declarations {defaultNull : Bool} {declarations : List (Declaration Variant)}
    {declaration : Declaration Variant} :
    (declaration ∈ if defaultNull then .nullDefault :: declarations else declarations) ↔
      defaultNull = true ∧ declaration = .nullDefault ∨ declaration ∈ declarations := by
  cases defaultNull <;> simp

theorem nullDefault_contributes (outer : List String) (key : String) :
    Contributes outer key (.nullDefault : Declaration Variant) :=
  ⟨nofun, nofun, nofun, nofun⟩

theorem declared_of_file {file : HierarchyFile} {table : Table Variant}
    (made : file.table = .ok table) : Declared [] table := by
  obtain ⟨declarations, declared, built⟩ := file_built made
  refine declared_of_build built fun declaration member => ?_
  rcases mem_file_declarations.mp member with ⟨-, rfl⟩ | own
  · exact nullDefault_contributes [] file.key
  · exact members_contribute declared declaration own

/-! All tables that a file declares have been built. -/

theorem accepted_hereditary : Hereditary fun _ _ _ declaration =>
    ∀ within ∈ declaration.tables, Accepted within := by
  refine ⟨?_, fun _ built each within used => ?_, fun _ built each within used => ?_⟩
  · intro key outer name label alternates singleton isDefault own _
    cases singleton <;> cases isDefault <;> nofun
  · rw [List.mem_singleton.mp used]
    exact .build built (forall_of_right each)
  · rw [List.mem_singleton.mp used]
    exact .build built (forall_of_right each)

theorem accepted_of_file {file : HierarchyFile} {table : Table Variant}
    (made : file.table = .ok table) : Accepted table := by
  obtain ⟨declarations, declared, built⟩ := file_built made
  have all := forall_of_right (accepted_hereditary.members file.subtypes declared)
  refine .build built fun declaration member => ?_
  rcases mem_file_declarations.mp member with ⟨-, rfl⟩ | own
  · nofun
  · exact all declaration own

/-! A file that declares a hierarchy, one of its own under another key in it, and a record in
that. -/

def figures : HierarchyFile :=
  ⟨"type", false, [⟨"Figure", some "figure", [], false, false, some "shape",
    some [⟨"Circle", some "circle", ["round"], false, false, none, none⟩]⟩]⟩

def circleEntry : Hierarchy.Entry Variant :=
  ⟨"Circle", "circle", ["round"], .adapter (Variant.record "Circle" ["type", "shape"])⟩

def shapesTable : Table Variant := ⟨"shape", [circleEntry], [], .none⟩

def figureEntry : Hierarchy.Entry Variant :=
  ⟨"Figure", "figure", [], .adapter (.tagged shapesTable false)⟩

def figuresTable : Table Variant := ⟨"type", [figureEntry], [], .none⟩

theorem figures_built : figures.table = .ok figuresTable := rfl

end TaggedJson
