import TaggedJson.Hierarchy.Declaration
/-! Building a table from declarations, in order. Every label and every name of a value that can be
written has one owner among all members, those inside nested tables included. -/
namespace TaggedJson.Hierarchy
variable {α : Type}

/-- The table so far, the labels taken with the subtypes that have them, and the names taken. -/
structure Draft (α : Type) where
  entries : List (Entry α)
  nested : List (String × Table α)
  policy : Policy α
  owners : List (String × String)
  names : List String

def Draft.empty : Draft α := ⟨[], [], .none, [], []⟩

def takeLabels (owners : List (String × String)) :
    List (String × String) → Except DeclarationError (List (String × String))
  | [] => .ok owners
  | (label, subtype) :: rest =>
    match owners.lookup label with
    | some first => .error (.duplicateLabel label first subtype)
    | none => takeLabels (owners ++ [(label, subtype)]) rest

def takeNames (names : List String) : List String → Except DeclarationError (List String)
  | [] => .ok names
  | subtype :: rest =>
    if subtype ∈ names then .error (.duplicateSubtype subtype)
    else takeNames (names ++ [subtype]) rest

namespace Draft

def setPolicy (draft : Draft α) (name : String) (policy : Policy α) :
    Except DeclarationError (Draft α) :=
  match draft.policy with
  | .none => .ok { draft with policy := policy }
  | earlier => .error (.conflictingDefault earlier.describe name)

/-- Names are claimed before labels. -/
def addEntry (draft : Draft α) (entry : Entry α) : Except DeclarationError (Draft α) := do
  let names ← takeNames draft.names entry.names
  let owners ← takeLabels draft.owners (entry.labels.map fun label => (label, entry.subtype))
  .ok { draft with entries := draft.entries ++ [entry], owners := owners, names := names }

/-- Labels are claimed before names. -/
def addNested (draft : Draft α) (name : String) (table : Table α) :
    Except DeclarationError (Draft α) := do
  let owners ← takeLabels draft.owners table.ownedLabels
  let names ← takeNames draft.names table.subtypeNames
  .ok { draft with nested := draft.nested ++ [(name, table)], owners := owners, names := names }

/-- A member with a label is an entry; without one it can only be a default, and then it has no
labels at all. -/
def addLabeled (draft : Draft α) (declaration : Declaration α) (body : Body α) (isDefault : Bool) :
    Except DeclarationError (Draft α) :=
  match declaration.label with
  | some label => draft.addEntry ⟨declaration.name, label, declaration.alternates, body⟩
  | none =>
    if isDefault && declaration.alternates.isEmpty then .ok draft
    else .error (.unlabeled declaration.name)

def declare (key : String) (draft : Draft α) (declaration : Declaration α) :
    Except DeclarationError (Draft α) :=
  let unlabeled := declaration.label.isNone && declaration.alternates.isEmpty
  match declaration.kind with
  | .nested table =>
    if !unlabeled then .error (.labeledGroup declaration.name)
    else if table.key ≠ key then .error (.keyMismatch declaration.name key table.key)
    else draft.addNested declaration.name table
  | .nullDefault =>
    if !unlabeled then .error .labeledNull else draft.setPolicy declaration.name .null
  | .singleton value => draft.addLabeled declaration (.singleton value) false
  | .adapter inner => draft.addLabeled declaration (.adapter inner) false
  -- A second default is reported before anything that is wrong with its labels.
  | .defaultObject value => do
    let draft ← draft.setPolicy declaration.name (.object declaration.name value)
    draft.addLabeled declaration (.singleton value) true
  | .fallback inner => do
    let draft ← draft.setPolicy declaration.name (.fallback declaration.name inner)
    draft.addLabeled declaration (.adapter inner) true

def declareAll (key : String) (draft : Draft α) :
    List (Declaration α) → Except DeclarationError (Draft α)
  | [] => .ok draft
  | declaration :: rest => do
    let draft ← draft.declare key declaration
    draft.declareAll key rest

end Draft

def Table.build (key : String) (declarations : List (Declaration α)) :
    Except DeclarationError (Table α) := do
  let draft ← Draft.empty.declareAll key declarations
  .ok ⟨key, draft.entries, draft.nested, draft.policy⟩

end TaggedJson.Hierarchy
