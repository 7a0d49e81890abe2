import TaggedJson.Emit.Error
import TaggedJson.Json.Value
/-! Hierarchies of subtypes over one root type. A table maps the labels found under its key to
entries and says what happens to documents whose label is missing or unknown. An adapter reads and
writes the values of one member, and a table is itself the heart of an adapter. -/
namespace TaggedJson.Hierarchy

/-- A root type, whose values know the name of their subtype. -/
class Root (α : Type) where
  subtype : α → String

/-- Values that are their fields. Reserved names may not be written as fields: other members of the
same object have them. -/
structure RecordForm (α : Type) where
  ofFields : Json.Members → α
  fields : α → Json.Members
  reserved : List String

/-- Values with a payload of a type of its own. Not every object of fields describes one, not every
value holds one, and one may fail to be written. -/
structure PayloadForm (α : Type) where
  payload : String
  ofFields? : Json.Members → Option α
  /-- Nothing for a value that does not hold such a payload. -/
  toJson? : α → Option (Except Emit.EncodeError Json.Value)
  /-- What the payload that fields describe is written as, if it can be: as a rule what its value
  holds. -/
  rewritten? : Json.Members → Option Json.Value := fun fields =>
    ((ofFields? fields).bind toJson?).bind Except.toOption

mutual
inductive Adapter (α : Type) where
  | record (form : RecordForm α)
  | payload (form : PayloadForm α)
  /-- Any object stands for the value. -/
  | singleton (value : α)
  /-- Unknown names fail while the inner adapter reads. -/
  | failOnUnknown (inner : Adapter α)
  | tagged (table : Table α) (strict : Bool)

inductive Body (α : Type) where
  | adapter (adapter : Adapter α)
  | singleton (value : α)

/-- A subtype with the label it is written with and further ones that are only read. -/
structure Entry (α : Type) where
  subtype : String
  label : String
  alternates : List String
  body : Body α

/-- What a document without a known label is. -/
inductive Policy (α : Type) where
  | none
  | null
  | object (subtype : String) (value : α)
  | fallback (subtype : String) (adapter : Adapter α)

/-- Nested tables have the same key and are searched after the table's own entries. -/
structure Table (α : Type) where
  key : String
  entries : List (Entry α)
  nested : List (String × Table α)
  policy : Policy α
end

variable {α : Type}

def Body.isSingleton : Body α → Bool
  | .adapter _ => false
  | .singleton _ => true

namespace Entry

def labels (entry : Entry α) : List String := entry.label :: entry.alternates

def isSingleton (entry : Entry α) : Bool := entry.body.isSingleton

end Entry

def Policy.describe : Policy α → String
  | .none => "none"
  | .null => "null default"
  | .object subtype _ => subtype
  | .fallback subtype _ => subtype

/-! What can be written: a name of a leaf reaches it through every table around it. -/

mutual
def Adapter.encodable : Adapter α → List String
  | .record _ | .payload _ | .singleton _ => []
  | .failOnUnknown inner => inner.encodable
  | .tagged table _ => table.subtypeNames

def Body.encodable : Body α → List String
  | .adapter adapter => adapter.encodable
  | .singleton _ => []

/-- The names of the values an entry writes, its own first. -/
def Entry.names : Entry α → List String
  | ⟨subtype, _, _, body⟩ => subtype :: body.encodable

def entryNames : List (Entry α) → List String
  | [] => []
  | entry :: rest => entry.names ++ entryNames rest

def nestedNames : List (String × Table α) → List String
  | [] => []
  | (_, table) :: rest => table.subtypeNames ++ nestedNames rest

def Table.subtypeNames : Table α → List String
  | ⟨_, entries, nested, _⟩ => entryNames entries ++ nestedNames nested
end

/-! The entries of a table and of its nested tables, outer ones first. -/

mutual
def Table.members : Table α → List (Entry α)
  | ⟨_, entries, nested, _⟩ => entries ++ nestedMembers nested

def nestedMembers : List (String × Table α) → List (Entry α)
  | [] => []
  | (_, table) :: rest => table.members ++ nestedMembers rest
end

namespace Table

def ownedLabels (table : Table α) : List (String × String) :=
  table.members.flatMap fun entry => entry.labels.map fun label => (label, entry.subtype)

def labels (table : Table α) : List String := table.members.flatMap Entry.labels

def lookup (table : Table α) (label : String) : Option (Entry α) :=
  table.members.find? (·.labels.contains label)

/-- The entry that writes values of a subtype. -/
def entryFor (table : Table α) (subtype : String) : Option (Entry α) :=
  table.members.find? (·.names.contains subtype)

end Table

/-- What a label resolves to. -/
inductive Target (α : Type) where
  | subtype (entry : Entry α)
  | null
  | object (value : α)
  | fallback (adapter : Adapter α)

/-- The table's own policy takes what no label of it or of a nested table matches. -/
def Table.resolve (table : Table α) (label : Option String) : Except Pull.DecodeError (Target α) :=
  match label.bind table.lookup, table.policy with
  | some entry, _ => .ok (.subtype entry)
  | none, .none => .error (match label with
    | some label => .unknownLabel table.key label table.labels
    | none => .missingLabel table.key table.labels)
  | none, .null => .ok .null
  | none, .object _ value => .ok (.object value)
  | none, .fallback _ adapter => .ok (.fallback adapter)

/-! Sizes, for recursion through tables. -/

mutual
theorem member_size : ∀ (table : Table α) (entry : Entry α), entry ∈ table.members →
    sizeOf entry < sizeOf table
  | ⟨key, entries, nested, policy⟩, entry, member => by
    rcases List.mem_append.mp member with own | inner
    · have := List.sizeOf_lt_of_mem own
      simp only [Table.mk.sizeOf_spec]
      omega
    · have := nested_member_size nested entry inner
      simp only [Table.mk.sizeOf_spec]
      omega

theorem nested_member_size : ∀ (nested : List (String × Table α)) (entry : Entry α),
    entry ∈ nestedMembers nested → sizeOf entry < sizeOf nested
  | (name, table) :: rest, entry, member => by
    rcases List.mem_append.mp member with first | later
    · have := member_size table entry first
      simp only [List.cons.sizeOf_spec, Prod.mk.sizeOf_spec]
      omega
    · have := nested_member_size rest entry later
      simp only [List.cons.sizeOf_spec]
      omega
end

theorem lookup_size {table : Table α} {label : String} {entry : Entry α}
    (found : table.lookup label = some entry) : sizeOf entry < sizeOf table :=
  member_size table entry (List.mem_of_find?_eq_some found)

theorem entryFor_size {table : Table α} {subtype : String} {entry : Entry α}
    (found : table.entryFor subtype = some entry) : sizeOf entry < sizeOf table :=
  member_size table entry (List.mem_of_find?_eq_some found)

theorem body_size (entry : Entry α) : sizeOf entry.body < sizeOf entry := by
  cases entry
  simp only [Entry.mk.sizeOf_spec]
  omega

theorem policy_size (table : Table α) : sizeOf table.policy < sizeOf table := by
  cases table
  simp only [Table.mk.sizeOf_spec]
  omega

theorem resolve_subtype_size {table : Table α} {label : Option String} {entry : Entry α}
    (resolved : table.resolve label = .ok (.subtype entry)) : sizeOf entry < sizeOf table := by
  unfold Table.resolve at resolved
  split at resolved
  · rename_i found
    cases resolved
    obtain ⟨text, _, looked⟩ := Option.bind_eq_some_iff.mp found
    exact lookup_size looked
  all_goals cases resolved

theorem resolve_fallback_size {table : Table α} {label : Option String} {adapter : Adapter α}
    (resolved : table.resolve label = .ok (.fallback adapter)) : sizeOf adapter < sizeOf table := by
  unfold Table.resolve at resolved
  split at resolved
  case h_5 subtype inner _ policy =>
    cases resolved
    have := policy_size table
    rw [policy, Policy.fallback.sizeOf_spec] at this
    omega
  all_goals cases resolved

end TaggedJson.Hierarchy
