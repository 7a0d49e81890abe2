import TaggedJson.Hierarchy.Table
/-! Declarations of the members of a hierarchy, and what can be wrong with a list of them. -/
namespace TaggedJson.Hierarchy

inductive Declaration.Kind (α : Type) where
  | adapter (adapter : Adapter α)
  | singleton (value : α)
  | nested (table : Table α)
  | defaultObject (value : α)
  | fallback (adapter : Adapter α)
  | nullDefault

structure Declaration (α : Type) where
  name : String
  label : Option String
  alternates : List String
  kind : Declaration.Kind α

/-- The default a declaration makes, if any. -/
inductive Marker where
  | none
  | null
  | object
  | fallback
deriving DecidableEq

def Marker.text : Marker → String
  | .none => "None"
  | .null => "Null"
  | .object => "Object"
  | .fallback => "Fallback"

namespace Declaration
variable {α : Type}

def adapter (name label : String) (inner : Adapter α) : Declaration α :=
  ⟨name, some label, [], .adapter inner⟩

def singleton (name label : String) (value : α) : Declaration α :=
  ⟨name, some label, [], .singleton value⟩

def nested (name : String) (table : Table α) : Declaration α := ⟨name, none, [], .nested table⟩

def defaultObject (name : String) (value : α) : Declaration α :=
  ⟨name, none, [], .defaultObject value⟩

def fallback (name : String) (inner : Adapter α) : Declaration α :=
  ⟨name, none, [], .fallback inner⟩

def nullDefault : Declaration α := ⟨(Policy.null : Policy α).describe, none, [], .nullDefault⟩

def withLabel (declaration : Declaration α) (label : String) : Declaration α :=
  { declaration with label := some label }

def withAlternates (declaration : Declaration α) (labels : List String) : Declaration α :=
  { declaration with alternates := declaration.alternates ++ labels }

def marker (declaration : Declaration α) : Marker :=
  match declaration.kind with
  | .adapter _ | .singleton _ | .nested _ => .none
  | .nullDefault => .null
  | .defaultObject _ => .object
  | .fallback _ => .fallback

end Declaration

inductive DeclarationError where
  | duplicateLabel (label first second : String)
  | conflictingDefault (first second : String)
  | labeledGroup (subtype : String)
  | keyMismatch (subtype expected found : String)
  | unlabeled (subtype : String)
  | duplicateSubtype (subtype : String)
  | labeledNull
deriving DecidableEq

def DeclarationError.message : DeclarationError → String
  | .duplicateLabel label first second =>
    "duplicate label '" ++ label ++ "' defined for " ++ second ++ " and " ++ first
  | .conflictingDefault first second =>
    "only one default may be declared: " ++ first ++ " and " ++ second ++ " are both defaults"
  | .labeledGroup subtype => "nested hierarchy " ++ subtype ++ " must not declare its own label"
  | .keyMismatch subtype expected found =>
    "nested hierarchy " ++ subtype ++ " uses key '" ++ found ++ "' but its parent uses '" ++
      expected ++ "'"
  | .unlabeled subtype => "subtype " ++ subtype ++ " must declare a type label"
  | .duplicateSubtype subtype => "subtype " ++ subtype ++ " is declared more than once"
  | .labeledNull => "the null default cannot carry a label"

end TaggedJson.Hierarchy
