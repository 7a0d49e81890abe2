import TaggedJson.HierarchyFile.Basic
import TaggedJson.Json.Value
/-! Writing hierarchy files. Flags are always written, missing parts and empty lists of further
labels never; an empty list of subtypes is, since it makes a hierarchy. -/
namespace TaggedJson
open Json

def Member.head (member : Member) : Members :=
  [("name", .string member.name)] ++
    (member.label.map fun label => ("label", Value.string label)).toList ++
    (if member.alternates.isEmpty then []
      else [("alternate_labels", .array (member.alternates.map .string))]) ++
    [("singleton", .bool member.singleton), ("default", .bool member.isDefault)] ++
    (member.key.map fun key => ("key", Value.string key)).toList

mutual
def Member.toValue : Member → Value
  | ⟨name, label, alternates, singleton, isDefault, key, some subtypes⟩ =>
    .object (Member.head ⟨name, label, alternates, singleton, isDefault, key, none⟩ ++
      [("subtypes", .array (memberValues subtypes))])
  | ⟨name, label, alternates, singleton, isDefault, key, none⟩ =>
    .object (Member.head ⟨name, label, alternates, singleton, isDefault, key, none⟩)

def memberValues : List Member → List Value
  | [] => []
  | member :: rest => member.toValue :: memberValues rest
end

namespace HierarchyFile

def toValue (file : HierarchyFile) : Value :=
  .object [("key", .string file.key), ("default_null", .bool file.defaultNull),
    ("subtypes", .array (memberValues file.subtypes))]

def text (file : HierarchyFile) : String := file.toValue.text

end HierarchyFile
end TaggedJson
