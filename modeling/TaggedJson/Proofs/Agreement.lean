import TaggedJson.Proofs.Declared
import TaggedJson.Proofs.Printed
import TaggedJson.Proofs.Reference
/-! Lenient reading under a hierarchy file, told without a reader. The document is taken as a whole,
its members as they are written, and the keys of the hierarchies passed through as a set of names to
leave out. -/
namespace TaggedJson
open Json Hierarchy Pull

/-- The members no stripped name has, in order. A name that comes again takes the later value in the
earlier place, and every value kept must be one. -/
def keptFields (stripped : List String) (members : List (String × Document)) : Option Members :=
  members.foldlM (fun fields member =>
    if member.1 ∈ stripped then some fields
    else member.2.value?.map fun value => fields.put member.1 value) []

section Reference
variable {α : Type}

/-- What an object means to a table, where values are made of the name of a subtype and fields. An
entry is chosen by the first member with the key; a hierarchy of its own looks at the same members
again. The fallback keeps the key it was looked for under. -/
def Hierarchy.Table.reference (make : String → Members → α) (table : Table α)
    (stripped : List String) (members : List (String × Document)) : Option (Option α) :=
  (labelOf? table.key members).bind fun label =>
    match _ : label.bind table.lookup with
    | some entry =>
      match _ : entry.body with
      | .singleton _ => some (some (make entry.subtype []))
      | .adapter (.tagged inner _) => inner.reference make (table.key :: stripped) members
      | .adapter _ => (keptFields (table.key :: stripped) members).map fun fields =>
          some (make entry.subtype fields)
    | none =>
      match table.policy with
      | .none => none
      | .null => some none
      | .object name _ => some (some (make name []))
      | .fallback name _ => (keptFields (stripped.filter (· ≠ table.key)) members).map fun fields =>
          some (make name fields)
termination_by sizeOf table
decreasing_by
  obtain ⟨text, _, looked⟩ := Option.bind_eq_some_iff.mp ‹_›
  have smaller := lookup_size looked
  have inside := body_size entry
  rw [‹entry.body = _›, Body.adapter.sizeOf_spec, Adapter.tagged.sizeOf_spec] at inside
  omega

end Reference

/-- What a document means to a table: null is no value, and anything else must be an object. -/
def Hierarchy.Table.meaning (table : Table Variant) : Document → Option (Option Variant)
  | .null => some none
  | .object members => table.reference Variant.mk [] members
  | _ => none

/-- What an object means to an entry, once the table it is an entry of has stripped its key. -/
def Hierarchy.Entry.meaning (stripped : List String) (members : List (String × Document))
    (entry : Hierarchy.Entry Variant) : Option (Option Variant) :=
  match entry.body with
  | .singleton _ => some (some (.unit entry.subtype))
  | .adapter (.tagged inner _) => inner.reference Variant.mk stripped members
  | .adapter _ => (keptFields stripped members).map fun fields => some ⟨entry.subtype, fields⟩

theorem fields_kept {setting : Setting} {stripped : List String}
    (same : ∀ name, setting.strips name = decide (name ∈ stripped))
    (members : List (String × Document)) :
    (setting.fields? members).map Fields.values = keptFields stripped members := by
  have folded (fields : Fields) : (members.foldlM setting.addField fields).map Fields.values =
      members.foldlM (fun kept member => if member.1 ∈ stripped then some kept
        else member.2.value?.map fun value => kept.put member.1 value) fields.values := by
    induction members generalizing fields with
    | nil => rfl
    | cons member rest ih =>
      rw [List.foldlM_cons, List.foldlM_cons, Setting.addField, same]
      by_cases hidden : member.1 ∈ stripped
      · simp only [hidden, decide_true, if_true]
        exact ih fields
      · simp only [hidden, decide_false, if_false, Bool.false_eq_true]
        cases member.2.value? with
        | none => rfl
        | some value => exact ih _
  exact folded ⟨[], []⟩

/-- A record reads the fields kept. The names it reserves matter to writing alone. -/
theorem record_agrees (name : String) (reserved : List String) {setting : Setting}
    {stripped : List String} (same : ∀ name, setting.strips name = decide (name ∈ stripped))
    (members : List (String × Document)) :
    (Variant.record name reserved).ofMembers? setting members =
      (keptFields stripped members).map (Variant.mk name) := by
  rw [Variant.record, Adapter.ofMembers?, ← fields_kept same, Option.map_map]
  rfl

theorem strips_withKey {setting : Setting} {stripped : List String} (key : String)
    (same : ∀ name, setting.strips name = decide (name ∈ stripped)) :
    (∀ name, (setting.withKey key true).strips name = decide (name ∈ key :: stripped)) ∧
      ∀ name, (setting.withKey key false).strips name =
        decide (name ∈ stripped.filter (· ≠ key)) := by
  constructor <;>
  · intro name
    have before := same name
    rw [Setting.strips] at before ⊢
    rw [Setting.withKey_lookup]
    by_cases here : name = key
    · simp [here]
    · simp [here, before]

theorem reference_entry {table : Table Variant} {stripped : List String}
    {members : List (String × Document)} {label : Option String} {entry : Hierarchy.Entry Variant}
    (labeled : labelOf? table.key members = some label)
    (found : label.bind table.lookup = some entry) :
    table.reference Variant.mk stripped members =
      entry.meaning (table.key :: stripped) members := by
  rw [Table.reference, labeled, Option.bind_some]
  split
  · rename_i other same
    rw [found] at same
    cases same
    split
    · rename_i body
      rw [Hierarchy.Entry.meaning, body]
      rfl
    · rename_i body
      rw [Hierarchy.Entry.meaning, body]
    · rename_i adapter apart body
      rw [Hierarchy.Entry.meaning, body]
      cases adapter with
      | tagged inner strict => exact (apart inner strict rfl).elim
      | _ => rfl
  · rename_i none
    rw [found] at none
    cases none

theorem reference_policy {table : Table Variant} {stripped : List String}
    {members : List (String × Document)} {label : Option String}
    (labeled : labelOf? table.key members = some label)
    (unknown : label.bind table.lookup = none) :
    table.reference Variant.mk stripped members = match table.policy with
      | .none => none
      | .null => some none
      | .object name _ => some (some (.unit name))
      | .fallback name _ => (keptFields (stripped.filter (· ≠ table.key)) members).map fun fields =>
          some ⟨name, fields⟩ := by
  rw [Table.reference, labeled, Option.bind_some]
  split
  · rename_i other
    rw [unknown] at other
    cases other
  · cases table.policy <;> rfl

theorem mem_of_label {table : Table Variant} {label : Option String}
    {entry : Hierarchy.Entry Variant} (found : label.bind table.lookup = some entry) :
    entry ∈ table.members := by
  obtain ⟨text, -, looked⟩ := Option.bind_eq_some_iff.mp found
  exact List.mem_of_find?_eq_some looked

theorem resolve_known {table : Table Variant} {label : Option String}
    {entry : Hierarchy.Entry Variant} (found : label.bind table.lookup = some entry) :
    table.resolve label = .ok (.subtype entry) := by
  simp only [Table.resolve, found]

/-! Only null itself is no value to a table without a default of null. -/

mutual
theorem table_valued : ∀ {outer : List String} {table : Table Variant}, Declared outer table →
    table.policy ≠ .null → ∀ (stripped : List String) (members : List (String × Document)),
    table.reference Variant.mk stripped members ≠ some none
  | _, table, .table entries _ _, valued, stripped, members => by
    cases labeled : labelOf? table.key members with
    | none =>
      rw [Table.reference, labeled]
      nofun
    | some label =>
      cases found : label.bind table.lookup with
      | some entry =>
        rw [reference_entry labeled found]
        exact entry_valued (entries entry (mem_of_label found)) (table.key :: stripped) members
      | none =>
        rw [reference_policy labeled found]
        cases policy : table.policy with
        | null => exact (valued policy).elim
        | fallback name adapter => simp
        | _ => nofun

theorem entry_valued : ∀ {outer : List String} {key : String} {entry : Hierarchy.Entry Variant},
    EntryDeclared outer key entry → ∀ (stripped : List String) (members : List (String × Document)),
    entry.meaning stripped members ≠ some none
  | _, _, _, .singleton, _, _ => nofun
  | _, _, _, .record, _, _ => by simp [Hierarchy.Entry.meaning, Variant.record]
  | _, _, _, .fallback, _, _ => by simp [Hierarchy.Entry.meaning, Variant.record]
  | _, _, _, .hierarchy inner valued, stripped, members =>
    table_valued inner valued stripped members
end

/-! What a table reads from an object is what the object means to it. -/

mutual
theorem table_agrees : ∀ {outer : List String} {table : Table Variant}, Declared outer table →
    ∀ {setting : Setting} {stripped : List String}, setting.strict = false →
    (∀ name, setting.strips name = decide (name ∈ stripped)) →
    ∀ members, table.ofMembers? false setting members = table.reference Variant.mk stripped members
  | outer, table, .table entries object fallback, setting, stripped, lenient, same, members => by
    rw [Table.ofMembers?_eq]
    obtain ⟨hides, keeps⟩ := strips_withKey table.key same
    cases labeled : labelOf? table.key members with
    | none => rw [Table.reference, labeled, Option.bind_none, Option.bind_none]
    | some label =>
      rw [Option.bind_some]
      cases found : label.bind table.lookup with
      | some entry =>
        rw [resolve_known found, reference_entry labeled found]
        show (entry.body.ofMembers? ((setting.strictly false).withKey table.key true) members).map
          some = _
        rw [Setting.strictly_false]
        have quieter : (setting.withKey table.key true).strict = false := lenient
        exact entry_agrees (entries entry (mem_of_label found)) quieter hides members
      | none =>
        rw [reference_policy labeled found]
        simp only [Table.resolve, found]
        cases policy : table.policy with
        | none => rfl
        | null => rfl
        | object name value =>
          rw [object name value policy]
          rfl
        | fallback name adapter =>
          rw [fallback name adapter policy]
          show ((Variant.record name outer).ofMembers? ((setting.strictly false).withKey table.key
            false) members).map _ = _
          rw [Setting.strictly_false, record_agrees _ _ keeps, Option.map_map]
          rfl

theorem entry_agrees : ∀ {outer : List String} {key : String} {entry : Hierarchy.Entry Variant},
    EntryDeclared outer key entry → ∀ {setting : Setting} {stripped : List String},
    setting.strict = false → (∀ name, setting.strips name = decide (name ∈ stripped)) →
    ∀ members, (entry.body.ofMembers? setting members).map some = entry.meaning stripped members
  | _, _, _, .singleton, setting, stripped, lenient, _, members => by
    have passed : setting.skips members = true := by simp [Setting.skips, lenient]
    simp only [Body.ofMembers?, passed]
    rfl
  | _, _, _, .record, setting, stripped, _, same, members => by
    rw [Body.ofMembers?, record_agrees _ _ same, Option.map_map]
    rfl
  | _, _, _, .fallback, setting, stripped, _, same, members => by
    rw [Body.ofMembers?, record_agrees _ _ same, Option.map_map]
    rfl
  | _, _, _, .hierarchy inner valued, setting, stripped, lenient, same, members => by
    -- The value inside is there unless the object means null to the table, which it cannot.
    simp only [Body.ofMembers?, Adapter.ofMembers?, Hierarchy.Entry.meaning]
    rw [table_agrees inner lenient same members]
    have present := table_valued inner valued stripped members
    revert present
    cases Table.reference Variant.mk _ stripped members with
    | none => exact fun _ => rfl
    | some value =>
      cases value with
      | none => exact fun present => (present rfl).elim
      | some value => exact fun _ => rfl
end

/-- A table that a file declares reads a text leniently if and as the text spells a document, not
too deep, that means something to the table. -/
theorem fromJson_reference {file : HierarchyFile} {table : Table Variant}
    (built : file.table = .ok table) (text : String) (result : Option Variant) :
    table.fromJson false text = .ok result ↔ ∃ document, Spells text document ∧
      document.depth ≤ depthLimit ∧ table.meaning document = some result := by
  rw [Table.fromJson_ok]
  have same : ∀ name, Setting.outermost.strips name = decide (name ∈ ([] : List String)) :=
    fun _ => rfl
  have agrees (document : Document) :
      table.ofDocument? false Setting.outermost document = table.meaning document := by
    cases document with
    | object members => exact table_agrees (declared_of_file built) rfl same members
    | _ => rfl
  simp only [agrees]

/-- A field named twice keeps its place and takes the later value, and the keys are no fields. -/
theorem fromJson_reference_circle : figuresTable.fromJson false
    (Value.object [("type", .string "figure"), ("r", .null), ("shape", .string "round"),
      ("type", .null), ("r", .bool true)]).text = .ok (some ⟨"Circle", [("r", .bool true)]⟩) := by
  apply (fromJson_reference figures_built _ _).mpr
  refine ⟨_, Value.text_spells _, by decide, ?_⟩
  have outer : (some "figure").bind figuresTable.lookup = some figureEntry := rfl
  have inner : (some "round").bind shapesTable.lookup = some circleEntry := rfl
  exact (reference_entry (by rfl) outer).trans (reference_entry (by rfl) inner)

end TaggedJson
