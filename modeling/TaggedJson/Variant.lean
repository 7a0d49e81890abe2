import TaggedJson.Hierarchy.Table
/-! Variants: values of hierarchies without types of their own. A variant is the name of a subtype
and its fields. -/
namespace TaggedJson
open Json Hierarchy

structure Variant where
  subtype : String
  fields : Members

namespace Variant

instance : Root Variant := ⟨subtype⟩

/-- A variant without fields. -/
def unit (subtype : String) : Variant := ⟨subtype, []⟩

/-- Records of one subtype, any fields of which are read. -/
def record (subtype : String) (reserved : List String) : Adapter Variant :=
  .record ⟨fun fields => ⟨subtype, fields⟩, fields, reserved⟩

/-- Without fields the variant shows its subtype alone. -/
def toValue (variant : Variant) : Value :=
  if variant.fields.isEmpty then .object [("subtype", .string variant.subtype)]
  else .object [("subtype", .string variant.subtype), ("fields", .object variant.fields)]

end Variant
end TaggedJson
