import TaggedJson.Proofs.Agreement
import TaggedJson.Proofs.Leaves
/-! Documents that are left to the fallback of a file, and back. What it reads is written without a
label, so the key that it keeps among its fields has to stand in for the label that was not known.
It may fail to: the label is that of the first member with the key, the field that of the last, and
a number may be printed as a label. Nor is it written as a fallback once a labeled member has its
name. -/
namespace TaggedJson
open Json Hierarchy Pull Emit

/-! The fallback of a file. -/

theorem file_fallback {file : HierarchyFile} {table : Table Variant} (made : file.table = .ok table)
    {member : Member} (listed : member ∈ file.subtypes) (leaf : member.subtypes = none)
    (record : member.singleton = false) (default : member.isDefault = true) :
    table.policy = .fallback member.name (Variant.record member.name []) := by
  obtain ⟨declarations, declared, built⟩ := file_built made
  obtain ⟨declaration, here, own⟩ := exists_of_mem_left (each_declared declared) listed
  obtain ⟨name, label, alternates, singleton, isDefault, key, subtypes⟩ := member
  cases leaf
  cases record
  cases default
  have policy : declaration.policy? = some (.fallback name (Variant.record name [])) := by
    rw [leaf_declared own]
    rfl
  exact policy_of_declared built (mem_file_declarations.mpr (.inr here)) policy

/-! What is left to it. -/

section Objects
variable {table : Table Variant} {members : List (String × Document)} {fields : Members}

/-- The label of the object, if it has one, is not known. -/
def Hierarchy.Table.Unclaimed (table : Table Variant) (members : List (String × Document)) : Prop :=
  ∃ label, labelOf? table.key members = some label ∧ label.bind table.lookup = none

/-- What the table makes of such an object is up to its default. -/
theorem unclaimed_reads (unclaimed : table.Unclaimed members) (strict : Bool) (setting : Setting) :
    table.ofMembers? strict setting members = match table.policy with
      | .none => none
      | .null => some none
      | .object _ value => some (some value)
      | .fallback _ adapter => (adapter.ofMembers?
          ((setting.strictly strict).withKey table.key false) members).map some := by
  obtain ⟨label, labeled, unknown⟩ := unclaimed
  rw [Table.ofMembers?_eq, labeled, Option.bind_some]
  simp only [Table.resolve, unknown]
  cases table.policy <;> rfl

/-- The fallback keeps all members as fields, the key among them. -/
theorem fallback_reads {name : String}
    (policy : table.policy = .fallback name (Variant.record name []))
    (unclaimed : table.Unclaimed members) (strict : Bool) :
    table.ofMembers? strict Setting.outermost members =
      (keptFields [] members).map fun fields => some ⟨name, fields⟩ := by
  have same : ∀ name, (Setting.outermost.strictly strict).strips name =
      decide (name ∈ ([] : List String)) := fun _ => rfl
  have keeps := (strips_withKey table.key same).2
  rw [unclaimed_reads unclaimed, policy]
  show ((Variant.record name []).ofMembers? _ members).map some = _
  rw [record_agrees name [] keeps, Option.map_map]
  rfl

theorem kept_outermost (members : List (String × Document)) :
    (Setting.outermost.fields? members).map Fields.values = keptFields [] members :=
  fields_kept (fun _ => rfl) members

theorem kept_sound (kept : keptFields [] members = some fields) :
    (Value.object fields).Distinct ∧
      Value.depthMembers fields ≤ Document.depthMembers members := by
  rw [← kept_outermost] at kept
  obtain ⟨taken, found, rfl⟩ := Option.map_eq_some_iff.mp kept
  have sound := Setting.fields_sound found
  exact ⟨⟨sound.names, membersDistinct_iff.mpr sound.distinct⟩,
    depthMembers_le_iff.mpr sound.shallow⟩

theorem kept_written (distinct : (Value.object fields).Distinct) :
    keptFields [] (Value.memberDocuments fields) = some fields := by
  rw [← kept_outermost, Setting.fields_written rfl distinct]
  rfl

theorem labelOf_written (key : String) (fields : Members) :
    labelOf? key (Value.memberDocuments fields) = match fields.get? key with
      | none => some none
      | some field => (labelText? field.document).map some := by
  induction fields with
  | nil => rfl
  | cons field rest ih =>
    obtain ⟨name, value⟩ := field
    rw [Value.memberDocuments, labelOf?, Members.get?, List.find?_cons]
    by_cases here : name = key
    · simp [here]
    · rw [if_neg here, beq_false_of_ne here]
      exact ih

theorem unclaimed_iff : table.Unclaimed (Value.memberDocuments fields) ↔
    ∀ field, fields.get? table.key = some field →
      ∃ label, labelText? field.document = some label ∧ table.lookup label = none := by
  rw [Hierarchy.Table.Unclaimed, labelOf_written]
  cases fields.get? table.key with
  | none => exact iff_of_true ⟨none, rfl, rfl⟩ nofun
  | some field => cases text : labelText? field.document <;> simp [text]

end Objects

/-- The text is one of an object that is left to the fallback, which reads it as the variant. -/
def Hierarchy.Table.ReadsUnclaimed (table : Table Variant) (strict : Bool) (text : String)
    (variant : Variant) : Prop :=
  ∃ members, Spells text (.object members) ∧ table.Unclaimed members ∧
    table.fromJson strict text = .ok (some variant)

section Tables
variable {table : Table Variant} {name text : String} {strict : Bool} {variant : Variant}

/-- What the fallback reads is named for it and has fields that can be written again. -/
theorem unclaimed_sound (policy : table.policy = .fallback name (Variant.record name []))
    (read : table.ReadsUnclaimed strict text variant) : variant.subtype = name ∧
      (Value.object variant.fields).Distinct ∧
      Value.depthMembers variant.fields + 1 ≤ depthLimit := by
  obtain ⟨members, spells, unclaimed, decoded⟩ := read
  obtain ⟨_, other, shallow, result⟩ := Table.fromJson_ok.mp decoded
  obtain rfl := spells_unique other spells
  have result : table.ofMembers? strict Setting.outermost members = some (some variant) := result
  rw [fallback_reads policy unclaimed strict] at result
  obtain ⟨fields, kept, same⟩ := Option.map_eq_some_iff.mp result
  cases same
  obtain ⟨distinct, deep⟩ := kept_sound kept
  have bound : Document.depthMembers members + 1 ≤ depthLimit := shallow
  exact ⟨rfl, distinct, Nat.le_trans (Nat.succ_le_succ deep) bound⟩

/-- Fields without a label are read by the fallback if the key among them stands for no label. -/
theorem unclaimed_again (policy : table.policy = .fallback name (Variant.record name []))
    {fields : Members} (distinct : (Value.object fields).Distinct)
    (shallow : Value.depthMembers fields + 1 ≤ depthLimit)
    (unclaimed : table.Unclaimed (Value.memberDocuments fields)) (strict : Bool) :
    table.ReadsUnclaimed strict (Value.object fields).text ⟨name, fields⟩ := by
  refine ⟨_, Value.text_spells _, unclaimed, ?_⟩
  refine Table.fromJson_ok.mpr ⟨_, Value.text_spells _, ?_, ?_⟩
  · rw [Value.document, depth_documents]
    exact shallow
  · show table.ofMembers? strict Setting.outermost (Value.memberDocuments fields) = _
    rw [fallback_reads policy unclaimed strict, kept_written distinct]
    rfl

/-- What the fallback writes is the fields alone. -/
theorem unclaimed_written (policy : table.policy = .fallback name (Variant.record name []))
    (named : variant.subtype = name) (apart : name ∉ table.subtypeNames) :
    table.toJson variant = .ok (Value.object variant.fields).text := by
  have none : table.entryFor (Root.subtype variant) = none := by
    rw [← Option.not_isSome_iff_eq_none, entryFor_isSome]
    rwa [← named] at apart
  rw [Table.toJson_eq, Table.output_other none, policy]
  rcases record_output name [] variant with ⟨-, put⟩ | ⟨_, nothing, -, -⟩
  · exact congrArg (Except.map Value.text) put
  · cases nothing

/-- A variant that a member claims is written with the label of the member, first of all. -/
theorem claimed_written (accepted : Accepted table) (known : variant.subtype ∈ table.subtypeNames)
    (written : table.toJson variant = .ok text) {members : List (String × Document)}
    (spells : Spells text (.object members)) : ¬table.Unclaimed members := by
  have entered : (table.entryFor (Root.subtype variant)).isSome = true := entryFor_isSome.mpr known
  obtain ⟨entry, found⟩ := Option.isSome_iff_exists.mp entered
  obtain ⟨value, put, rfl⟩ := Table.toJson_ok.mp written
  rw [Table.output_entry found] at put
  cases rest : entry.body.written variant with
  | error e =>
    rw [rest] at put
    cases put
  | ok fields =>
    rw [rest] at put
    cases put
    injection spells_unique spells (Value.text_spells _) with same
    subst same
    have member : entry ∈ table.members := List.mem_of_find?_eq_some found
    have label := lookup_of_mem accepted.labels member (List.mem_cons_self (a := entry.label))
    rintro ⟨other, labeled, unknown⟩
    have first : labelOf? table.key (Value.memberDocuments
        ((table.key, .string entry.label) :: fields)) = some (some entry.label) :=
      if_pos rfl
    cases first.symm.trans labeled
    cases label.symm.trans unknown

end Tables

/-- What the fallback of a file reads can be written, unless a labeled member has its name. It is
read by the fallback as it was exactly if, besides, the key that was kept as a field stands for no
label that is known. -/
theorem fallback_returns_iff {file : HierarchyFile} {table : Table Variant}
    (made : file.table = .ok table) {member : Member} (listed : member ∈ file.subtypes)
    (leaf : member.subtypes = none) (record : member.singleton = false)
    (default : member.isDefault = true) {strict again : Bool} {text : String} {variant : Variant}
    (read : table.ReadsUnclaimed strict text variant) :
    (member.name ∉ table.subtypeNames → ∃ written, table.toJson variant = .ok written) ∧
    ((∃ written, table.toJson variant = .ok written ∧
      table.ReadsUnclaimed again written variant) ↔
    member.name ∉ table.subtypeNames ∧ ∀ field, variant.fields.get? table.key = some field →
      ∃ label, labelText? field.document = some label ∧ table.lookup label = none) := by
  have policy := file_fallback made listed leaf record default
  obtain ⟨named, distinct, shallow⟩ := unclaimed_sound policy read
  have written (apart : member.name ∉ table.subtypeNames) :
      table.toJson variant = .ok (Value.object variant.fields).text :=
    unclaimed_written policy named apart
  refine ⟨fun apart => ⟨_, written apart⟩, ?_, ?_⟩
  · rintro ⟨text, put, members, spells, unclaimed, -⟩
    have apart : member.name ∉ table.subtypeNames := fun claimed =>
      claimed_written (accepted_of_file made) (named ▸ claimed) put spells unclaimed
    refine ⟨apart, unclaimed_iff.mp ?_⟩
    cases (written apart).symm.trans put
    injection spells_unique spells (Value.text_spells _) with same
    rwa [same] at unclaimed
  · rintro ⟨apart, stands⟩
    obtain ⟨subtype, fields⟩ := variant
    cases named
    have unclaimed := unclaimed_iff.mpr stands
    exact ⟨_, written apart, unclaimed_again policy distinct shallow unclaimed again⟩

/-- A file with a fallback beside a labeled member. -/
def partlyKnown : HierarchyFile :=
  ⟨"type", false, [⟨"Known", some "known", [], false, false, none, none⟩,
    ⟨"Raw", none, [], false, true, none, none⟩]⟩

def partlyKnownTable : Table Variant :=
  ⟨"type", [⟨"Known", "known", [], .adapter (Variant.record "Known" ["type"])⟩], [],
    .fallback "Raw" (Variant.record "Raw" [])⟩

/-- The first label is looked up and not known, and the last is kept as a field and known. -/
theorem fallback_returns_repeated_key :
    partlyKnownTable.ReadsUnclaimed false
      (Value.object [("type", .string "x"), ("type", .string "known")]).text
      ⟨"Raw", [("type", .string "known")]⟩ ∧
    ¬∃ written, partlyKnownTable.toJson ⟨"Raw", [("type", .string "known")]⟩ = .ok written ∧
      partlyKnownTable.ReadsUnclaimed false written ⟨"Raw", [("type", .string "known")]⟩ := by
  have spells := Value.text_spells (.object [("type", .string "x"), ("type", .string "known")])
  have unclaimed : partlyKnownTable.Unclaimed [("type", .string "x"), ("type", .string "known")] :=
    ⟨some "x", rfl, rfl⟩
  have made : partlyKnown.table = .ok partlyKnownTable := rfl
  have policy : partlyKnownTable.policy = .fallback "Raw" (Variant.record "Raw" []) := rfl
  have decoded := Table.fromJson_ok.mpr ⟨_, spells, by decide,
    fallback_reads policy unclaimed false⟩
  have read : partlyKnownTable.ReadsUnclaimed false _ ⟨"Raw", [("type", .string "known")]⟩ :=
    ⟨_, spells, unclaimed, decoded⟩
  refine ⟨read, fun returned => ?_⟩
  have raw : ⟨"Raw", none, [], false, true, none, none⟩ ∈ partlyKnown.subtypes :=
    List.mem_cons_of_mem _ List.mem_cons_self
  obtain ⟨-, stands⟩ := (fallback_returns_iff made raw rfl rfl rfl read).2.mp returned
  obtain ⟨label, same, unknown⟩ := stands (.string "known") rfl
  cases same
  cases unknown

end TaggedJson
