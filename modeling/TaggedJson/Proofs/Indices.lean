import TaggedJson.Proofs.Builds
/-! Keys as tables file them. A table has an index of the labels of its entries and one of the names
that they write, filled as the entries are added: each key is filed under the position of its entry.
A lookup asks the index of a table and then those of its groups, and what can be looked up is listed
index by index. Where no key has two owners this comes to the same as asking the members. -/
namespace TaggedJson.Hierarchy
variable {α : Type}

/-! Filing. -/

/-- A key that is entered again keeps its place and leads to the later entry. -/
def enter (index : List (String × Nat)) (filed : String × Nat) : List (String × Nat) :=
  if filed.1 ∈ index.map Prod.fst then
    index.map fun other => if other.1 = filed.1 then filed else other
  else index ++ [filed]

section Filing
variable (keys : Entry α → List String)

/-- What is entered for entries of which the first has that position. -/
def filings (position : Nat) : List (Entry α) → List (String × Nat)
  | [] => []
  | entry :: rest => (keys entry).map (fun key => (key, position)) ++ filings (position + 1) rest

def keyIndex (entries : List (Entry α)) : List (String × Nat) :=
  (filings keys 0 entries).foldl enter []

mutual
/-- The keys in the index of a table, and then those its groups have in theirs. -/
def Table.indexed : Table α → List String
  | ⟨_, entries, nested, _⟩ => (keyIndex keys entries).map Prod.fst ++ nestedIndexed nested

def nestedIndexed : List (String × Table α) → List String
  | [] => []
  | (_, table) :: rest => table.indexed ++ nestedIndexed rest
end

mutual
/-- The entry at the position that the index of the table has for a key, or else that of the first
group which has one. -/
def Table.search (key : String) : Table α → Option (Entry α)
  | ⟨_, entries, nested, _⟩ =>
    (((keyIndex keys entries).lookup key).bind (entries[·]?)).or (nestedSearch key nested)

def nestedSearch (key : String) : List (String × Table α) → Option (Entry α)
  | [] => none
  | (_, table) :: rest => (table.search key).or (nestedSearch key rest)
end

end Filing

/-! The index of one table. -/

theorem foldl_enter {index filed : List (String × Nat)}
    (distinct : (index.map Prod.fst ++ filed.map Prod.fst).Nodup) :
    filed.foldl enter index = index ++ filed := by
  induction filed generalizing index with
  | nil => exact (List.append_nil index).symm
  | cons one rest ih =>
    have fresh : one.1 ∉ index.map Prod.fst := fun taken =>
      (List.nodup_append.mp distinct).2.2 _ taken _ List.mem_cons_self rfl
    rw [List.foldl_cons, enter, if_neg fresh, ih, List.append_assoc, List.singleton_append]
    simpa using distinct

theorem lookup_filed (key : String) (keys : List String) (position : Nat) :
    (keys.map fun filed => (filed, position)).lookup key =
      if key ∈ keys then some position else none := by
  induction keys with
  | nil => rfl
  | cons first rest ih =>
    rw [List.map_cons, List.lookup_cons, ih]
    by_cases same : key = first
    · simp [same]
    · simp [same, beq_false_of_ne same]

section Keys
variable {keys : Entry α → List String}

theorem filings_keys (entries : List (Entry α)) (position : Nat) :
    (filings keys position entries).map Prod.fst = entries.flatMap keys := by
  induction entries generalizing position with
  | nil => rfl
  | cons entry rest ih => simp [filings, ih, Function.comp_def]

theorem keyIndex_eq {entries : List (Entry α)} (distinct : (entries.flatMap keys).Nodup) :
    keyIndex keys entries = filings keys 0 entries := by
  apply foldl_enter
  rw [filings_keys]
  exact distinct

/-- The position filed for a key is that of the first entry that has it. -/
theorem filings_lookup (key : String) (before entries : List (Entry α)) :
    ((filings keys before.length entries).lookup key).bind ((before ++ entries)[·]?) =
      entries.find? fun entry => (keys entry).contains key := by
  induction entries generalizing before with
  | nil => rfl
  | cons entry rest ih =>
    rw [filings, List.lookup_append, lookup_filed]
    by_cases own : key ∈ keys entry
    · simp [own]
    · have later := ih (before ++ [entry])
      rw [List.length_append, List.append_assoc] at later
      simpa [own] using later

/-! The indices of a table and its groups. -/

/-- Some keys are those of the members, in order, and a search for any of them finds whose it is. -/
structure Files (keys : Entry α → List String) (members : List (Entry α)) (listed : List String)
    (search : String → Option (Entry α)) : Prop where
  all : listed = members.flatMap keys
  owner : ∀ key, search key = members.find? fun entry => (keys entry).contains key

theorem Files.append {front back : List (Entry α)} {first later : List String}
    {one other : String → Option (Entry α)} (filed : Files keys front first one)
    (filedToo : Files keys back later other) :
    Files keys (front ++ back) (first ++ later) fun key => (one key).or (other key) := by
  constructor
  · rw [filed.all, filedToo.all, List.flatMap_append]
  · intro key
    rw [filed.owner, filedToo.owner, List.find?_append]

theorem keyIndex_files {entries : List (Entry α)} (distinct : (entries.flatMap keys).Nodup) :
    Files keys entries ((keyIndex keys entries).map Prod.fst)
      fun key => ((keyIndex keys entries).lookup key).bind (entries[·]?) := by
  rw [keyIndex_eq distinct]
  exact ⟨filings_keys entries 0, fun key => filings_lookup key [] entries⟩

mutual
theorem table_files : ∀ table : Table α, (table.members.flatMap keys).Nodup →
    Files keys table.members (table.indexed keys) fun key => table.search keys key
  | ⟨_, entries, nested, _⟩, distinct => by
    rw [Table.members, List.flatMap_append] at distinct
    obtain ⟨own, inner, -⟩ := List.nodup_append.mp distinct
    exact (keyIndex_files own).append (nested_files nested inner)

theorem nested_files : ∀ nested : List (String × Table α),
    ((nestedMembers nested).flatMap keys).Nodup →
    Files keys (nestedMembers nested) (nestedIndexed keys nested)
      fun key => nestedSearch keys key nested
  | [], _ => ⟨rfl, fun _ => rfl⟩
  | (_, table) :: rest, distinct => by
    rw [nestedMembers, List.flatMap_append] at distinct
    obtain ⟨first, later, -⟩ := List.nodup_append.mp distinct
    exact (table_files table first).append (nested_files rest later)
end

end Keys

/-- The indices of labels list what a table resolves and find what it looks up. -/
theorem labels_indexed {table : Table α} (distinct : table.labels.Nodup) :
    table.indexed Entry.labels = table.labels ∧
      ∀ label, table.search Entry.labels label = table.lookup label := by
  have filed : Files Entry.labels table.members (table.indexed Entry.labels)
      (table.search Entry.labels) := table_files table distinct
  exact ⟨filed.all, filed.owner⟩

/-- Those of names list what it can write and find what that is written by. -/
theorem names_indexed {table : Table α} (distinct : table.subtypeNames.Nodup) :
    table.indexed Entry.names = table.subtypeNames ∧
      ∀ subtype, table.search Entry.names subtype = table.entryFor subtype := by
  rw [← members_names] at distinct ⊢
  have filed : Files Entry.names table.members (table.indexed Entry.names)
      (table.search Entry.names) := table_files table distinct
  exact ⟨filed.all, filed.owner⟩

end TaggedJson.Hierarchy
