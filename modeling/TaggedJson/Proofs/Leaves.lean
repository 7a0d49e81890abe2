import TaggedJson.Proofs.Fields
import TaggedJson.Proofs.Repeats
/-! Leaves of files and back. A leaf reserves the names that its hierarchies write, so that what it
does write is read as it was, and what is read by it can be written again. -/
namespace TaggedJson
open Json Hierarchy Pull Emit

/-- The labels of an object lead to an entry, through hierarchies that look at the same members. -/
inductive Selects : Table Variant → List (String × Document) → Hierarchy.Entry Variant → Prop
  | here {table : Table Variant} {members : List (String × Document)} {label : String}
    {entry : Hierarchy.Entry Variant} (labeled : labelOf? table.key members = some (some label))
    (found : table.lookup label = some entry) : Selects table members entry
  | inside {table inner : Table Variant} {members : List (String × Document)} {label : String}
    {group entry : Hierarchy.Entry Variant} {strict : Bool}
    (labeled : labelOf? table.key members = some (some label))
    (found : table.lookup label = some group)
    (hierarchy : group.body = .adapter (.tagged inner strict))
    (rest : Selects inner members entry) : Selects table members entry

/-- The entry that is selected reads the members once all keys on the way are stripped. -/
theorem Selects.ofMembers {table : Table Variant} {members : List (String × Document)}
    {entry : Hierarchy.Entry Variant} (selects : Selects table members entry) {outer : List String}
    (declared : Declared outer table) (strict : Bool) (setting : Setting) :
    ∃ tags, Chain table tags entry ∧ table.ofMembers? strict setting members =
      (entry.body.ofMembers? (stripping (tags.map Prod.fst) (setting.strictly strict))
        members).map some := by
  induction selects generalizing outer strict setting with
  | here labeled found =>
    refine ⟨_, .here (List.mem_of_find?_eq_some found), ?_⟩
    rw [Table.ofMembers?_eq, labeled, Option.bind_some, Table.resolve, Option.bind_some, found]
    rfl
  | @inside table inner members label group entry strictly labeled found hierarchy rest ih =>
    have member : group ∈ table.members := List.mem_of_find?_eq_some found
    obtain ⟨rfl, within, inward⟩ := declared.inner member hierarchy
    obtain ⟨tags, chain, read⟩ := ih inward false
      ((setting.strictly strict).withKey table.key true)
    refine ⟨_, .inside member hierarchy chain, ?_⟩
    rw [Table.ofMembers?_eq, labeled, Option.bind_some, Table.resolve, Option.bind_some, found]
    show (group.body.ofMembers? ((setting.strictly strict).withKey table.key true) members).map
      some = _
    rw [hierarchy, Body.ofMembers?, Adapter.ofMembers?, read, Setting.strictly_false, join_map_some]
    rfl

/-! Records and singletons on their own. -/

/-- A leaf that writes no label but its own, and reserves the keys of all hierarchies around it. -/
inductive LeafOf (name : String) (keys : List String) : Body Variant → Prop
  | singleton : LeafOf name keys (.singleton (.unit name))
  | record : LeafOf name keys (.adapter (Variant.record name keys))

theorem EntryOf.leaf {keys : List String} {found : Member} {entry : Hierarchy.Entry Variant}
    (is : EntryOf keys found entry) (leaf : found.subtypes = none)
    (plain : found.singleton = true ∨ found.isDefault = false) :
    LeafOf found.name keys entry.body ∧
      (entry.body = .singleton (.unit found.name) → found.singleton = true) := by
  cases is with
  | singleton => exact ⟨.singleton, fun _ => rfl⟩
  | record => exact ⟨.record, nofun⟩
  | fallback => rcases plain with single | apart <;> cases ‹_›
  | hierarchy => cases leaf

section Leaf
variable {name : String} {keys : List String} {body : Body Variant} {variant : Variant}

theorem LeafOf.plain (leaf : LeafOf name keys body) : body.adapterOf.IsPlain := by
  cases leaf <;> trivial

/-- A leaf writes the fields of a variant, unless one of them has a reserved name. -/
theorem LeafOf.written (leaf : LeafOf name keys body)
    (unit : body = .singleton (.unit name) → variant.fields = []) :
    ((∀ key ∈ keys, key ∉ variant.fields.map Prod.fst) ∧
      body.written variant = .ok variant.fields) ∨
    ∃ key ∈ keys, key ∈ variant.fields.map Prod.fst ∧
      body.written variant = .error (.reservedName key) := by
  cases leaf with
  | singleton =>
    rw [unit rfl, Body.written]
    exact .inl ⟨fun _ _ => nofun, rfl⟩
  | record =>
    rw [Body.written]
    rcases record_output name keys variant with ⟨apart, put⟩ | ⟨key, reserved, field, put⟩
    · rw [put]
      exact .inl ⟨apart, rfl⟩
    · rw [put]
      exact .inr ⟨key, reserved, field, rfl⟩

/-- A leaf reads the fields that it wrote. -/
theorem LeafOf.read (leaf : LeafOf name keys body) (named : variant.subtype = name)
    (unit : body = .singleton (.unit name) → variant.fields = [])
    (distinct : (Value.object variant.fields).Distinct) {setting : Setting}
    (bare : setting.keys = []) : body.adapterOf.ofMembers? setting
      (Value.memberDocuments variant.fields) = some variant := by
  obtain ⟨subtype, fields⟩ := variant
  cases named
  cases leaf with
  | singleton =>
    cases unit rfl
    rw [Body.adapterOf, Adapter.ofMembers?]
    rfl
  | record =>
    rw [Body.adapterOf, Variant.record, Adapter.ofMembers?, Setting.fields_written bare distinct]
    rfl

/-- What a leaf reads is a variant that it can write. -/
theorem LeafOf.sound (leaf : LeafOf name keys body) {setting : Setting}
    (bare : setting.keys = []) {members : List (String × Document)}
    (read : body.ofMembers? (stripping keys setting) members = some variant) :
    variant.subtype = name ∧ (body = .singleton (.unit name) → variant.fields = []) ∧
      (Value.object variant.fields).Distinct ∧
      (∀ key ∈ keys, key ∉ variant.fields.map Prod.fst) ∧
      Value.depthMembers variant.fields ≤ Document.depthMembers members := by
  cases leaf with
  | singleton =>
    rw [Body.ofMembers?] at read
    split at read <;> cases read
    exact ⟨rfl, fun _ => rfl, ⟨List.nodup_nil, trivial⟩, fun _ _ => nofun, Nat.zero_le _⟩
  | record =>
    rw [Body.ofMembers?, Variant.record, Adapter.ofMembers?] at read
    obtain ⟨fields, taken, rfl⟩ := Option.map_eq_some_iff.mp read
    have sound := Setting.fields_sound taken
    refine ⟨rfl, nofun, ⟨sound.names, membersDistinct_iff.mpr sound.distinct⟩, ?_,
      depthMembers_le_iff.mpr sound.shallow⟩
    intro key within named
    obtain ⟨field, here, rfl⟩ := List.mem_map.mp named
    have kept := sound.kept field here
    rw [(strips_key keys bare field.1).1, decide_eq_true within] at kept
    cases kept

end Leaf

/-! Behind the labels of hierarchies. -/

theorem depth_documents (members : Members) :
    (Document.object (Value.memberDocuments members)).depth = Value.depthMembers members + 1 :=
  congrArg (· + 1) (Value.memberDocuments_depth members)

/-- A leaf writes its fields behind the labels, unless one of them has a reserved name. -/
theorem leaf_writes {table : Table Variant} {tags : List (String × String)}
    {entry : Hierarchy.Entry Variant} {name : String} (accepted : Accepted table)
    (chain : Chain table tags entry) (leaf : LeafOf name (tags.map Prod.fst) entry.body)
    {variant : Variant} (named : variant.subtype = entry.subtype)
    (unit : entry.body = .singleton (.unit name) → variant.fields = []) :
    ((∀ key ∈ tags.map Prod.fst, key ∉ variant.fields.map Prod.fst) ∧ table.toJson variant =
      .ok (Value.object (tagMembers tags ++ variant.fields)).text) ∨
    ∃ key ∈ tags.map Prod.fst, key ∈ variant.fields.map Prod.fst ∧
      table.toJson variant = .error (.reservedName key) := by
  rw [Table.toJson_eq, Chain.output accepted chain named]
  rcases leaf.written unit with ⟨apart, written⟩ | ⟨key, reserved, field, written⟩
  · rw [written]
    exact .inl ⟨apart, rfl⟩
  · rw [written]
    exact .inr ⟨key, reserved, field, rfl⟩

/-- What a leaf writes behind the labels is read as it was, unless it nests too deep. -/
theorem leaf_reads {table : Table Variant} {tags : List (String × String)}
    {entry : Hierarchy.Entry Variant} {name : String} (accepted : Accepted table)
    (chain : Chain table tags entry) (fresh : (tags.map Prod.fst).Nodup)
    (leaf : LeafOf name (tags.map Prod.fst) entry.body) {variant : Variant}
    (named : variant.subtype = name)
    (unit : entry.body = .singleton (.unit name) → variant.fields = [])
    (distinct : (Value.object variant.fields).Distinct)
    (apart : ∀ key ∈ tags.map Prod.fst, key ∉ variant.fields.map Prod.fst)
    (shallow : Value.depthMembers variant.fields + 1 ≤ depthLimit) (strict : Bool) :
    table.fromJson strict (Value.object (tagMembers tags ++ variant.fields)).text =
      .ok (some variant) := by
  refine Chain.fromJson accepted chain fresh leaf.plain ?_ ?_ (leaf.read named unit distinct rfl)
  · rwa [memberDocuments_names]
  · rwa [depth_documents]

section Tables
variable {table : Table Variant} {tags : List (String × String)} {entry : Hierarchy.Entry Variant}
  {name : String} {variant : Variant}

/-- Writing a variant of a leaf fails exactly on a reserved name, and what is written is read. -/
theorem leaf_written (accepted : Accepted table) (chain : Chain table tags entry)
    (fresh : (tags.map Prod.fst).Nodup) (leaf : LeafOf name (tags.map Prod.fst) entry.body)
    (same : name = entry.subtype) (named : variant.subtype = name)
    (unit : entry.body = .singleton (.unit name) → variant.fields = [])
    (distinct : (Value.object variant.fields).Distinct) :
    ((∃ name, table.toJson variant = .error (.reservedName name)) ↔
      ∃ key ∈ tags.map Prod.fst, key ∈ variant.fields.map Prod.fst) ∧
    ((∀ key ∈ tags.map Prod.fst, key ∉ variant.fields.map Prod.fst) →
      ∃ text, table.toJson variant = .ok text ∧ ∀ document, Spells text document →
        document.depth ≤ depthLimit → ∀ strict,
          table.fromJson strict text = .ok (some variant)) := by
  rcases leaf_writes accepted chain leaf (named.trans same) unit with
    ⟨apart, wrote⟩ | ⟨key, reserved, field, failed⟩
  · refine ⟨⟨?_, ?_⟩, fun _ => ⟨_, wrote, fun document spells shallow strict => ?_⟩⟩
    · rintro ⟨name, failed⟩
      cases wrote.symm.trans failed
    · rintro ⟨key, reserved, field⟩
      exact (apart key reserved field).elim
    · -- The labels in front are strings, so they nest no deeper than the fields do.
      obtain rfl := spells_unique (Value.text_spells _) spells
      have depth : (Value.object (tagMembers tags ++ variant.fields)).document.depth =
          Value.depthMembers variant.fields + 1 := by
        rw [Value.document, memberDocuments_append, memberDocuments_tags, depth_tags,
          depth_documents]
      rw [depth] at shallow
      exact leaf_reads accepted chain fresh leaf named unit distinct apart shallow strict
  · constructor
    · exact ⟨fun _ => ⟨key, reserved, field⟩, fun _ => ⟨key, failed⟩⟩
    · exact fun apart => (apart key reserved field).elim

/-- What an entry with the name of a leaf reads is a variant that the leaf can write. -/
theorem leaf_made (accepted : Accepted table) (chain : Chain table tags entry)
    (leaf : LeafOf name (tags.map Prod.fst) entry.body) (same : name = entry.subtype)
    {others : List (String × String)} {selected : Hierarchy.Entry Variant}
    (branch : Chain table others selected) (named : selected.subtype = name) {setting : Setting}
    (bare : setting.keys = []) {members : List (String × Document)}
    (made : (selected.body.ofMembers? (stripping (others.map Prod.fst) setting) members).map some =
      some (some variant)) :
    variant.subtype = name ∧ (entry.body = .singleton (.unit name) → variant.fields = []) ∧
      (Value.object variant.fields).Distinct ∧
      (∀ key ∈ tags.map Prod.fst, key ∉ variant.fields.map Prod.fst) ∧
      Value.depthMembers variant.fields ≤ Document.depthMembers members := by
  -- The chain that the labels lead along is the one to the leaf, so the same keys are stripped.
  obtain ⟨rfl, rfl⟩ := Chain.unique accepted chain branch (same.symm.trans named.symm)
  obtain ⟨value, body, once⟩ := Option.map_eq_some_iff.mp made
  cases once
  exact leaf.sound bare body

/-- What a text gives through the entry of a leaf can be written and is read as it was. -/
theorem leaf_again (accepted : Accepted table) (chain : Chain table tags entry)
    (fresh : (tags.map Prod.fst).Nodup) (leaf : LeafOf name (tags.map Prod.fst) entry.body)
    (same : name = entry.subtype) {outer : List String} (declared : Declared outer table)
    {text : String} {members : List (String × Document)} {selected : Hierarchy.Entry Variant}
    (spells : Spells text (.object members)) (selects : Selects table members selected)
    (named : selected.subtype = name) {strict : Bool}
    (read : table.fromJson strict text = .ok (some variant)) :
    ∃ again, table.toJson variant = .ok again ∧
      ∀ strict, table.fromJson strict again = .ok (some variant) := by
  obtain ⟨_, other, shallow, result⟩ := Table.fromJson_ok.mp read
  obtain rfl := spells_unique other spells
  obtain ⟨others, branch, made⟩ := selects.ofMembers declared strict Setting.outermost
  obtain ⟨subtype, unit, distinct, apart, depth⟩ :=
    leaf_made accepted chain leaf same branch named rfl (made.symm.trans result)
  have bound : Document.depthMembers members + 1 ≤ depthLimit := shallow
  have again := leaf_reads accepted chain fresh leaf subtype unit distinct apart (by omega)
  rcases leaf_writes accepted chain leaf (subtype.trans same) unit with
    ⟨-, wrote⟩ | ⟨key, reserved, field, -⟩
  · exact ⟨_, wrote, again⟩
  · exact (apart key reserved field).elim

end Tables

/-- Writing a variant of a leaf fails exactly on a reserved name, and what is written is read as it
was. What a text gives through the entry of the leaf can be written and is read as it was. -/
theorem leaf_roundtrip {file : HierarchyFile} {table : Table Variant}
    (made : file.table = .ok table) {keys : List String} {found : Member} {label : String}
    (placed : (keys, found) ∈ file.places) (leaf : found.subtypes = none)
    (labeled : found.label = some label)
    (plain : found.singleton = true ∨ found.isDefault = false) (fresh : keys.Nodup) :
    (∀ variant : Variant, variant.subtype = found.name →
      (found.singleton = true → variant.fields = []) → (Value.object variant.fields).Distinct →
      ((∃ name, table.toJson variant = .error (.reservedName name)) ↔
        ∃ key ∈ keys, key ∈ variant.fields.map Prod.fst) ∧
      ((∀ key ∈ keys, key ∉ variant.fields.map Prod.fst) →
        ∃ text, table.toJson variant = .ok text ∧ ∀ document, Spells text document →
          document.depth ≤ depthLimit → ∀ strict,
            table.fromJson strict text = .ok (some variant))) ∧
    ∀ (text : String) (members : List (String × Document)) (entry : Hierarchy.Entry Variant)
      (strict : Bool) (variant : Variant), Spells text (.object members) →
      Selects table members entry → entry.subtype = found.name →
      table.fromJson strict text = .ok (some variant) → ∃ again, table.toJson variant = .ok again ∧
        ∀ strict, table.fromJson strict again = .ok (some variant) := by
  have accepted := accepted_of_file made
  obtain ⟨tags, entry, chain, rfl, is⟩ := file_lead made placed labeled
  obtain ⟨shape, single⟩ := is.leaf leaf plain
  constructor
  · intro variant subtype unit distinct
    have unit : entry.body = .singleton (.unit found.name) → variant.fields = [] :=
      fun body => unit (single body)
    exact leaf_written accepted chain fresh shape is.subtype subtype unit distinct
  · intro text members selected strict variant spells selects named read
    exact leaf_again accepted chain fresh shape is.subtype (declared_of_file made) spells selects
      named read

theorem leaf_roundtrip_circle :
    (∃ name, figuresTable.toJson ⟨"Circle", [("shape", .null)]⟩ = .error (.reservedName name)) ∧
      ∃ text, figuresTable.toJson ⟨"Circle", [("r", .null)]⟩ = .ok text ∧ ∀ strict,
        figuresTable.fromJson strict text = .ok (some ⟨"Circle", [("r", .null)]⟩) := by
  have placed : (["type", "shape"], ⟨"Circle", some "circle", ["round"], false, false, none, none⟩)
      ∈ figures.places := List.mem_cons_of_mem _ List.mem_cons_self
  have wrote : figuresTable.toJson ⟨"Circle", [("r", .null)]⟩ =
      .ok (Value.object [("type", .string "figure"), ("shape", .string "circle"),
        ("r", .null)]).text := by
    rw [Table.toJson_eq, Chain.output (accepted_of_file figures_built) circle_chain rfl,
      circleEntry, Body.written, Variant.record, Adapter.output]
    rfl
  obtain ⟨leaf, -⟩ := leaf_roundtrip figures_built placed rfl rfl (.inr rfl) (by decide)
  have refused := (leaf ⟨"Circle", [("shape", .null)]⟩ rfl nofun
    ⟨by decide, trivial, trivial⟩).1
  obtain ⟨text, put, read⟩ := (leaf ⟨"Circle", [("r", .null)]⟩ rfl nofun
    ⟨by decide, trivial, trivial⟩).2 (by decide)
  cases wrote.symm.trans put
  refine ⟨refused.mpr ⟨"shape", by decide, by decide⟩, _, wrote, ?_⟩
  exact read _ (Value.text_spells _) (by decide)

end TaggedJson
