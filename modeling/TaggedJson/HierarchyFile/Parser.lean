import TaggedJson.HierarchyFile.Basic
import TaggedJson.Json.Tree.Parser
import TaggedJson.Json.Tree.Slots
/-! Reading hierarchy files, whose records are closed. -/
namespace TaggedJson
open Json

def Member.fields : List String :=
  ["name", "label", "alternate_labels", "singleton", "default", "key", "subtypes"]

/-- Each level of subtypes takes two levels of the tree, so its depth is more than enough. -/
def Member.ofTree? : Nat → Tree → Option Member
  | 0, _ => none
  | levels + 1, tree => do
    match ← tree.slots? fields true with
    | [some name, label, alternates, singleton, isDefault, key, subtypes] => do
      let name ← Slot.text? name
      let label ← Slot.nullable? Slot.text? label
      let alternates ← Slot.withDefault? [] (Slot.list? Slot.text?) alternates
      let singleton ← Slot.withDefault? false Slot.bool? singleton
      let isDefault ← Slot.withDefault? false Slot.bool? isDefault
      let key ← Slot.nullable? Slot.text? key
      let subtypes ← Slot.nullable? (Slot.list? (ofTree? levels)) subtypes
      some ⟨name, label, alternates, singleton, isDefault, key, subtypes⟩
    | _ => none

namespace HierarchyFile

def fields : List String := ["key", "default_null", "subtypes"]

/-- The key is `type` unless the file has another. -/
def usualKey : String := "type"

def ofTree? (tree : Tree) : Option HierarchyFile := do
  match ← tree.slots? fields true with
  | [key, defaultNull, some subtypes] => do
    let key ← Slot.withDefault? usualKey Slot.text? key
    let defaultNull ← Slot.withDefault? false Slot.bool? defaultNull
    let subtypes ← Slot.list? (Member.ofTree? tree.depth) subtypes
    some ⟨key, defaultNull, subtypes⟩
  | _ => none

def parse (text : String) : Except Error HierarchyFile :=
  match (Tree.parse text.toList).bind fun tree =>
      if tree.depth ≤ wholeDepthLimit then ofTree? tree else none with
  | some file => .ok file
  | none => .error .notAHierarchy

end HierarchyFile
end TaggedJson
