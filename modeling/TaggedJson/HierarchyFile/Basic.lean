import TaggedJson.Hierarchy.Declaration
/-! Hierarchy files: hierarchies of variants, declared in a document. -/
namespace TaggedJson

/-- One declaration. With subtypes and no key of its own it is a group that shares the key around
it, with a key a labeled hierarchy of its own. Anything else is a record or a singleton. -/
structure Member where
  name : String
  label : Option String
  alternates : List String
  singleton : Bool
  /-- The default object if it is a singleton, the fallback if it is a record. -/
  isDefault : Bool
  key : Option String
  subtypes : Option (List Member)

structure HierarchyFile where
  key : String
  /-- Whether documents with a missing or unknown label are null. -/
  defaultNull : Bool
  subtypes : List Member

namespace HierarchyFile

/-- Flags of a declaration that do not go together. -/
inductive Misfit where
  | flaggedHierarchy
  | keyWithoutSubtypes
deriving DecidableEq

def Misfit.text : Misfit → String
  | .flaggedHierarchy => "a hierarchy cannot be a singleton or a default"
  | .keyWithoutSubtypes => "'key' requires 'subtypes'"

inductive Error where
  | unreadable (path reason : String)
  | notAHierarchy
  | invalid (subtype : String) (misfit : Misfit)
  | config (error : Hierarchy.DeclarationError)
deriving DecidableEq

/-- Why a text is no hierarchy file is left open. -/
def Error.message : Error → String
  | .unreadable path reason => "failed to read " ++ path ++ ": " ++ reason
  | .notAHierarchy => "invalid hierarchy file: *"
  | .invalid subtype misfit => "subtype " ++ subtype ++ ": " ++ misfit.text
  | .config error => error.message

end HierarchyFile
end TaggedJson
