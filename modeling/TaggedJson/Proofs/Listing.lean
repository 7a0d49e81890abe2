import TaggedJson.Hierarchy.LabelTable
import TaggedJson.Proofs.Resolution
/-! What the label table of a hierarchy lists. Its rows are computed by recursion over entries and
groups, lookups go by the indices of labels, and because no label has two owners the two agree: the
rows have the labels that resolve, in order, each once, and name the entry it resolves to. -/
namespace TaggedJson.Hierarchy
variable {α : Type}

/-! The rows. -/

theorem table_labels (key : String) (entries : List (Entry α)) (nested : List (String × Table α))
    (policy : Policy α) : Table.labels ⟨key, entries, nested, policy⟩ =
      entries.flatMap Entry.labels ++ (nestedMembers nested).flatMap Entry.labels :=
  List.flatMap_append

theorem nested_labels (name : String) (table : Table α) (rest : List (String × Table α)) :
    (nestedMembers ((name, table) :: rest)).flatMap Entry.labels =
      table.labels ++ (nestedMembers rest).flatMap Entry.labels :=
  List.flatMap_append

mutual
theorem rows_labels : ∀ (table : Table α) (groups : List String),
    (table.rows groups).map Row.label = table.labels
  | ⟨key, entries, nested, policy⟩, groups => by
    rw [Table.rows, List.map_append, nestedRows_labels nested groups, table_labels,
      List.map_flatMap]
    congr 2
    funext entry
    simp [Entry.rows, Entry.labels, Function.comp_def]

theorem nestedRows_labels : ∀ (nested : List (String × Table α)) (groups : List String),
    (nestedRows groups nested).map Row.label = (nestedMembers nested).flatMap Entry.labels
  | [], _ => rfl
  | (name, table) :: rest, groups => by
    rw [nestedRows, List.map_append, rows_labels table, nestedRows_labels rest, nested_labels]
end

/-- The names of groups, from the outside, that lead to the table which has the entry. -/
inductive LeadsTo : Table α → List String → Entry α → Prop
  | own {table : Table α} {entry : Entry α} (own : entry ∈ table.entries) : LeadsTo table [] entry
  | group {table inner : Table α} {name : String} {groups : List String} {entry : Entry α}
    (grouped : (name, inner) ∈ table.nested) (inside : LeadsTo inner groups entry) :
    LeadsTo table (name :: groups) entry

theorem LeadsTo.member {table : Table α} {groups : List String} {entry : Entry α}
    (leads : LeadsTo table groups entry) : entry ∈ table.members := by
  induction leads with
  | own own => exact mem_members_of_within (.self _) own
  | group grouped inside ih =>
    obtain ⟨inner, within, own⟩ := mem_members_iff.mp ih
    exact mem_members_of_within (.group grouped within) own

theorem nestedRows_eq (groups : List String) (nested : List (String × Table α)) :
    nestedRows groups nested = nested.flatMap fun group => group.2.rows (groups ++ [group.1]) := by
  induction nested with
  | nil => rfl
  | cons group rest ih => rw [nestedRows, ih, List.flatMap_cons]

theorem rows_eq (table : Table α) (groups : List String) : table.rows groups =
    table.entries.flatMap (Entry.rows groups) ++
      table.nested.flatMap fun group => group.2.rows (groups ++ [group.1]) := by
  rw [← nestedRows_eq]
  cases table
  rfl

mutual
theorem leadsTo_of_row : ∀ (table : Table α) (outer : List String) {row : Row},
    row ∈ table.rows outer →
    ∃ groups entry, LeadsTo table groups entry ∧ row ∈ entry.rows (outer ++ groups)
  | ⟨_, entries, nested, _⟩, outer, row, listed => by
    rcases List.mem_append.mp listed with own | inner
    · obtain ⟨entry, member, listed⟩ := List.mem_flatMap.mp own
      exact ⟨[], entry, .own member, by rwa [List.append_nil]⟩
    · obtain ⟨name, table, grouped, groups, entry, leads, listed⟩ :=
        leadsTo_of_nestedRow nested outer inner
      exact ⟨name :: groups, entry, .group grouped leads, listed⟩

theorem leadsTo_of_nestedRow : ∀ (nested : List (String × Table α)) (outer : List String)
    {row : Row}, row ∈ nestedRows outer nested →
    ∃ name table, (name, table) ∈ nested ∧ ∃ groups entry,
      LeadsTo table groups entry ∧ row ∈ entry.rows (outer ++ name :: groups)
  | (name, table) :: rest, outer, row, listed => by
    rcases List.mem_append.mp listed with first | later
    · obtain ⟨groups, entry, leads, listed⟩ := leadsTo_of_row table (outer ++ [name]) first
      rw [List.append_assoc] at listed
      exact ⟨name, table, List.mem_cons_self, groups, entry, leads, listed⟩
    · obtain ⟨other, inner, grouped, found⟩ := leadsTo_of_nestedRow rest outer later
      exact ⟨other, inner, List.mem_cons_of_mem _ grouped, found⟩
end

theorem LeadsTo.row {table : Table α} {groups : List String} {entry : Entry α}
    (leads : LeadsTo table groups entry) (outer : List String) {row : Row}
    (listed : row ∈ entry.rows (outer ++ groups)) : row ∈ table.rows outer := by
  induction leads generalizing outer with
  | own own =>
    rw [List.append_nil] at listed
    rw [rows_eq]
    exact List.mem_append_left _ (List.mem_flatMap.mpr ⟨_, own, listed⟩)
  | @group table inner name groups entry grouped inside ih =>
    have listed := ih (outer ++ [name]) (by rwa [List.append_assoc])
    rw [rows_eq]
    exact List.mem_append_right _ (List.mem_flatMap.mpr ⟨_, grouped, listed⟩)

/-- The names of groups that lead to an entry, since no other row has its label. -/
theorem LeadsTo.unique {table : Table α} (distinct : table.labels.Nodup) {entry : Entry α}
    {groups others : List String} (leads : LeadsTo table groups entry)
    (leadsToo : LeadsTo table others entry) : groups = others := by
  have row {names : List String} (way : LeadsTo table names entry) :
      ⟨entry.label, names, entry.subtype, if entry.isSingleton then .singleton else .adapter⟩ ∈
        table.rows [] :=
    way.row [] List.mem_cons_self
  rw [← rows_labels table []] at distinct
  exact congrArg Row.groups (List.inj_on_of_nodup_map distinct (row leads) (row leadsToo) rfl)

end TaggedJson.Hierarchy
