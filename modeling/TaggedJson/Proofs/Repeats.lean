import TaggedJson.Proofs.Places
/-! Names that a written object has more than once. They come from two oversights in a file, and
only from them: a record that is the default and has a label all the same, and a hierarchy with the
key of one around it. -/
namespace TaggedJson
open Json Hierarchy Emit

/-- A record that is the default and has a label all the same. It is written with the key of its
hierarchy, which it does not reserve. -/
def Member.IsLabeledFallback (member : Member) : Prop :=
  member.label.isSome = true ∧ member.singleton = false ∧ member.isDefault = true ∧
    member.subtypes.isNone = true

/-- The variant is one of a member whose keys repeat among themselves or in the fields. -/
def HierarchyFile.Repeats (file : HierarchyFile) (variant : Variant) : Prop :=
  ∃ keys found, (keys, found) ∈ file.places ∧ found.label.isSome = true ∧
    found.name = variant.subtype ∧ (¬keys.Nodup ∨
      found.IsLabeledFallback ∧ ∃ key ∈ keys.getLast?, key ∈ variant.fields.map Prod.fst)

/-! Records. -/

theorem record_output (name : String) (reserved : List String) (variant : Variant) :
    ((∀ key ∈ reserved, key ∉ variant.fields.map Prod.fst) ∧
      (Variant.record name reserved).output variant = .ok (.object variant.fields)) ∨
    ∃ key ∈ reserved, key ∈ variant.fields.map Prod.fst ∧
      (Variant.record name reserved).output variant = .error (.reservedName key) := by
  rw [Variant.record, Adapter.output, RecordForm.output]
  cases clash : variant.fields.find? fun field => reserved.contains field.1 with
  | none =>
    refine .inl ⟨fun key reserves field => ?_, rfl⟩
    obtain ⟨found, member, rfl⟩ := List.mem_map.mp field
    exact List.find?_eq_none.mp clash found member (by simpa using reserves)
  | some field =>
    have reserves : field.1 ∈ reserved := by simpa using List.find?_some clash
    have member : field.1 ∈ variant.fields.map Prod.fst :=
      List.mem_map.mpr ⟨field, List.mem_of_find?_eq_some clash, rfl⟩
    exact .inr ⟨field.1, reserves, member, rfl⟩

theorem record_written (name : String) {reserved : List String} {variant : Variant}
    {members : Members} (written : (Body.adapter (Variant.record name reserved)).written variant =
      .ok members) : members = variant.fields ∧
        ∀ key ∈ reserved, key ∉ variant.fields.map Prod.fst := by
  rw [Body.written] at written
  rcases record_output name reserved variant with ⟨apart, put⟩ | ⟨key, _, _, put⟩ <;>
    rw [put] at written <;>
    cases written
  exact ⟨rfl, apart⟩

/-- The members of a hierarchy have names of their own, so a value named for the hierarchy itself
can only go to the fallback in it. -/
theorem hierarchy_written {outer : List String} {inner : Table Variant} {variant : Variant}
    (declared : Declared outer inner) (unknown : variant.subtype ∉ inner.subtypeNames)
    {members : Members} (written : (Body.adapter (.tagged inner false)).written variant =
      .ok members) : members = variant.fields ∧
        ∀ key ∈ outer, key ∉ variant.fields.map Prod.fst := by
  have none : inner.entryFor (Root.subtype variant) = none := by
    rw [← Option.not_isSome_iff_eq_none, entryFor_isSome]
    exact unknown
  rw [Body.written, Adapter.output, Table.output_other none] at written
  cases policy : inner.policy with
  | fallback name adapter =>
    rw [policy, declared.fallback policy] at written
    apply record_written name
    rw [Body.written]
    exact written
  | _ =>
    rw [policy] at written
    cases written

/-! Objects. -/

theorem memberDocuments_names (members : Members) :
    (Value.memberDocuments members).map Prod.fst = members.map Prod.fst := by
  induction members with
  | nil => rfl
  | cons member rest ih => exact congrArg (member.1 :: ·) ih

theorem tagMembers_names (tags : List (String × String)) :
    (tagMembers tags).map Prod.fst = tags.map Prod.fst := by
  rw [tagMembers, List.map_map]
  rfl

theorem nodup_keys {keys names : List String} (distinct : names.Nodup) :
    (keys ++ names).Nodup ↔ keys.Nodup ∧ ∀ key ∈ keys, key ∉ names := by
  rw [List.nodup_append]
  constructor
  · rintro ⟨first, -, apart⟩
    exact ⟨first, fun key member named => apart key member key named rfl⟩
  · rintro ⟨first, apart⟩
    exact ⟨first, distinct, fun key member name named same => apart key member (same ▸ named)⟩

/-- Which names repeat is a matter of the place of the member alone. -/
theorem EntryOf.nodup {keys : List String} {found : Member} {entry : Hierarchy.Entry Variant}
    (is : EntryOf keys found entry) (alone : entry.names.Nodup) {variant : Variant}
    (named : found.name = variant.subtype) (distinct : (variant.fields.map Prod.fst).Nodup)
    {members : Members} (written : entry.body.written variant = .ok members) :
    (keys ++ members.map Prod.fst).Nodup ↔ keys.Nodup ∧ (found.IsLabeledFallback →
      ∀ key ∈ keys.getLast?, key ∉ variant.fields.map Prod.fst) := by
  cases is with
  | singleton =>
    rw [Body.written] at written
    cases written
    rw [List.map_nil, List.append_nil]
    exact ⟨fun fresh => ⟨fresh, nofun⟩, And.left⟩
  | record =>
    obtain ⟨rfl, apart⟩ := record_written _ written
    rw [nodup_keys distinct]
    exact ⟨fun both => ⟨both.1, nofun⟩, fun both => ⟨both.1, apart⟩⟩
  | @fallback outer _ key =>
    -- All keys but the innermost are reserved, so it alone can come again.
    obtain ⟨rfl, apart⟩ := record_written _ written
    rw [nodup_keys distinct]
    constructor
    · rintro ⟨fresh, none⟩
      refine ⟨fresh, fun _ last member => none last ?_⟩
      exact List.mem_of_getLast? member
    · rintro ⟨fresh, last⟩
      refine ⟨fresh, fun other member => ?_⟩
      rcases List.mem_append.mp member with reserved | own
      · exact apart other reserved
      · obtain rfl := List.mem_singleton.mp own
        exact last ⟨rfl, rfl, rfl, rfl⟩ other (by simp)
  | @hierarchy _ _ name _ _ _ _ _ inner declared =>
    have unknown : variant.subtype ∉ inner.subtypeNames := by
      rw [← named]
      exact (List.nodup_cons.mp alone).1
    obtain ⟨rfl, apart⟩ := hierarchy_written declared unknown written
    rw [nodup_keys distinct]
    exact ⟨fun both => ⟨both.1, nofun⟩, fun both => ⟨both.1, apart⟩⟩

section Files
variable {file : HierarchyFile} {table : Table Variant} {variant : Variant}

theorem placed_named (made : file.table = .ok table) {keys : List String} {found : Member}
    {label : String} (placed : (keys, found) ∈ file.places) (labeled : found.label = some label) :
    found.name ∈ table.subtypeNames := by
  obtain ⟨tags, entry, chain, -, is⟩ := file_lead made placed labeled
  rw [is.subtype]
  exact chain.named

theorem placed_nodup (made : file.table = .ok table) {keys : List String} {found : Member}
    {label : String} (placed : (keys, found) ∈ file.places) (labeled : found.label = some label)
    (named : found.name = variant.subtype) (distinct : (variant.fields.map Prod.fst).Nodup)
    {members : Members} (put : table.output variant = .ok (.object members)) :
    (members.map Prod.fst).Nodup ↔ keys.Nodup ∧ (found.IsLabeledFallback →
      ∀ key ∈ keys.getLast?, key ∉ variant.fields.map Prod.fst) := by
  obtain ⟨tags, entry, chain, same, is⟩ := file_lead made placed labeled
  have subtype : Root.subtype variant = entry.subtype := by
    rw [← is.subtype, named]
    rfl
  rw [Chain.output (accepted_of_file made) chain subtype] at put
  cases written : entry.body.written variant with
  | error e =>
    rw [written] at put
    cases put
  | ok rest =>
    rw [written] at put
    cases put
    rw [List.map_append, tagMembers_names, same]
    exact is.nodup (chain.names_nodup (accepted_of_file made)) named distinct written

/-- A value with a member of its own repeats names as the file does there. -/
theorem known_nodup (made : file.table = .ok table) (known : variant.subtype ∈ table.subtypeNames)
    (distinct : (variant.fields.map Prod.fst).Nodup) {members : Members}
    (put : table.output variant = .ok (.object members)) :
    (members.map Prod.fst).Nodup ↔ ¬file.Repeats variant := by
  constructor
  · rintro apart ⟨keys, found, placed, labeled, named, repeats⟩
    obtain ⟨label, labeled⟩ := Option.isSome_iff_exists.mp labeled
    obtain ⟨fresh, last⟩ := (placed_nodup made placed labeled named distinct put).mp apart
    rcases repeats with stale | ⟨fallback, key, own, field⟩
    · exact stale fresh
    · exact last fallback key own field
  · intro none
    -- Any one place of the name will do, for the names are distinct or not whatever the place.
    obtain ⟨keys, found, label, placed, labeled, named⟩ := file_names made known
    apply (placed_nodup made placed labeled named distinct put).mpr
    constructor
    · by_contra stale
      exact none ⟨keys, found, placed, by rw [labeled]; rfl, named, .inl stale⟩
    · intro fallback key own field
      exact none ⟨keys, found, placed, fallback.1, named, .inr ⟨fallback, key, own, field⟩⟩

/-- A value without a member of its own repeats nothing, wherever it is written. -/
theorem not_repeats (made : file.table = .ok table)
    (unknown : variant.subtype ∉ table.subtypeNames) : ¬file.Repeats variant := by
  rintro ⟨keys, found, placed, labeled, named, -⟩
  obtain ⟨label, labeled⟩ := Option.isSome_iff_exists.mp labeled
  have member := placed_named made placed labeled
  rw [named] at member
  exact unknown member

/-- Such a value can only go to the fallback, and is written as its fields. -/
theorem other_written {outer : List String} (declared : Declared outer table)
    (unknown : table.entryFor (Root.subtype variant) = none) {value : Value}
    (put : table.output variant = .ok value) : value = .object variant.fields := by
  rw [Table.output_other unknown] at put
  cases policy : table.policy with
  | fallback name adapter =>
    rw [policy, declared.fallback policy] at put
    rcases record_output name outer variant with ⟨-, same⟩ | ⟨_, _, _, failed⟩
    · exact (Except.ok.inj (same.symm.trans put)).symm
    · cases failed.symm.trans put
  | _ =>
    rw [policy] at put
    cases put

theorem entry_written {entry : Hierarchy.Entry Variant}
    (known : table.entryFor (Root.subtype variant) = some entry) {value : Value}
    (put : table.output variant = .ok value) : ∃ members, value = .object members := by
  rw [Table.output_entry known] at put
  cases rest : entry.body.written variant <;> rw [rest] at put <;> cases put
  exact ⟨_, rfl⟩

end Files

/-- The names in what is written are distinct unless the file has one of the two oversights where
the variant is, and for a labeled fallback only if the variant has a field with the key. -/
theorem names_distinct_iff {file : HierarchyFile} {table : Table Variant}
    (made : file.table = .ok table) {variant : Variant}
    (distinct : (variant.fields.map Prod.fst).Nodup) {text : String}
    (written : table.toJson variant = .ok text) : ∃ members, Spells text (.object members) ∧
      ((members.map Prod.fst).Nodup ↔ ¬file.Repeats variant) := by
  obtain ⟨value, put, rfl⟩ := Table.toJson_ok.mp written
  have names : variant.subtype ∈ table.subtypeNames ↔
      (table.entryFor (Root.subtype variant)).isSome = true := entryFor_isSome.symm
  cases known : table.entryFor (Root.subtype variant) with
  | none =>
    obtain rfl := other_written (declared_of_file made) known put
    refine ⟨_, Value.text_spells _, ?_⟩
    rw [known] at names
    rw [memberDocuments_names]
    exact iff_of_true distinct (not_repeats made (mt names.mp nofun))
  | some entry =>
    obtain ⟨members, rfl⟩ := entry_written known put
    refine ⟨_, Value.text_spells _, ?_⟩
    rw [known] at names
    rw [memberDocuments_names]
    exact known_nodup made (names.mpr rfl) distinct put

/-- A file with a labeled fallback. -/
def rawFile : HierarchyFile :=
  ⟨"type", false, [⟨"Raw", some "raw", [], false, true, none, none⟩]⟩

def rawTable : Table Variant :=
  ⟨"type", [⟨"Raw", "raw", [], .adapter (Variant.record "Raw" [])⟩], [],
    .fallback "Raw" (Variant.record "Raw" [])⟩

theorem raw_repeats : ∃ text members, rawTable.toJson ⟨"Raw", [("type", .null)]⟩ = .ok text ∧
    Spells text (.object members) ∧ ¬(members.map Prod.fst).Nodup := by
  have written : rawTable.toJson ⟨"Raw", [("type", .null)]⟩ =
      .ok (Value.object [("type", .string "raw"), ("type", .null)]).text := by
    rw [Table.toJson_eq, Table.output_entry (by rfl), Body.written, Variant.record, Adapter.output]
    rfl
  have made : rawFile.table = .ok rawTable := rfl
  obtain ⟨members, spells, distinct⟩ := names_distinct_iff made (by decide) written
  refine ⟨_, members, written, spells, mt distinct.mp (not_not.mpr ?_)⟩
  exact ⟨["type"], _, List.mem_cons_self, rfl, rfl,
    .inr ⟨⟨rfl, rfl, rfl, rfl⟩, "type", rfl, List.mem_cons_self⟩⟩

end TaggedJson
