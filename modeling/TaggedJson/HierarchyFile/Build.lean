import TaggedJson.Hierarchy.Build
import TaggedJson.HierarchyFile.Basic
import TaggedJson.Variant
/-! From a hierarchy file to the table it declares. The keys of the hierarchies around a record are
written into the same object as its fields, so the record reserves them; a fallback is written
without the key of its own hierarchy. -/
namespace TaggedJson
open Hierarchy

def labeled (label : Option String) (declaration : Declaration Variant) : Declaration Variant :=
  match label with
  | some label => declaration.withLabel label
  | none => declaration

/-- A record or singleton under a key, with the keys further out. -/
def leaf (key : String) (outer : List String) (name : String) (label : Option String)
    (singleton isDefault : Bool) : Except HierarchyFile.Error (Declaration Variant) :=
  match singleton, isDefault with
  | true, true => .ok (labeled label (.defaultObject name (.unit name)))
  -- Its own hierarchy's key is left to the fields of a fallback.
  | false, true => .ok (labeled label (.fallback name (Variant.record name outer)))
  | singleton, false =>
    match label with
    | none => .error (.config (.unlabeled name))
    | some label =>
      if singleton then .ok (.singleton name label (.unit name))
      else .ok (.adapter name label (Variant.record name (outer ++ [key])))

def declaredTable (key : String) (declarations : List (Declaration Variant)) :
    Except HierarchyFile.Error (Table Variant) :=
  match Table.build key declarations with
  | .ok table => .ok table
  | .error e => .error (.config e)

mutual
def Member.declaration (key : String) (outer : List String) :
    Member → Except HierarchyFile.Error (Declaration Variant)
  | ⟨name, label, alternates, singleton, isDefault, own, some subtypes⟩ =>
    if singleton || isDefault then .error (.invalid name .flaggedHierarchy)
    else
      match own, label with
      | none, label => do
        -- Without a key of its own a group is part of the table around it.
        let inner ← memberDeclarations key outer subtypes
        let table ← declaredTable key inner
        .ok ((labeled label (.nested name table)).withAlternates alternates)
      | some _, none => .error (.config (.unlabeled name))
      | some own, some label => do
        let inner ← memberDeclarations own (outer ++ [key]) subtypes
        let table ← declaredTable own inner
        .ok ((Declaration.adapter name label (.tagged table false)).withAlternates alternates)
  | ⟨name, label, alternates, singleton, isDefault, own, none⟩ =>
    if own.isSome then .error (.invalid name .keyWithoutSubtypes)
    else do
      let declaration ← leaf key outer name label singleton isDefault
      .ok (declaration.withAlternates alternates)

def memberDeclarations (key : String) (outer : List String) :
    List Member → Except HierarchyFile.Error (List (Declaration Variant))
  | [] => .ok []
  | member :: rest => do
    let first ← member.declaration key outer
    let rest ← memberDeclarations key outer rest
    .ok (first :: rest)
end

namespace HierarchyFile

def table (file : HierarchyFile) : Except Error (Table Variant) := do
  let declarations ← memberDeclarations file.key [] file.subtypes
  declaredTable file.key
    (if file.defaultNull then .nullDefault :: declarations else declarations)

end HierarchyFile
end TaggedJson
