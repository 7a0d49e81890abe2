import TaggedJson.Json.Scaled
import TaggedJson.Json.Tree.Parser
import TaggedJson.Json.Tree.Slots
import TaggedJson.Variant
/-! Reading variants from documents of their own, as `Variant.toValue` writes them. The record is an
open one, a name that comes again among the fields overwrites, and numbers are scaled. -/
namespace TaggedJson
open Json

namespace Variant

def fieldsOfTree? (tree : Tree) : Option Members :=
  if tree.depth < wholeDepthLimit then
    match tree.value? ⟨NumberLiteral.scaledNumber?, true⟩ with
    | some (.object members) => some members
    | _ => none
  else none

def ofTree? (tree : Tree) : Option Variant := do
  match ← tree.slots? ["subtype", "fields"] false with
  | [some subtype, fields] => do
    let subtype ← Slot.text? subtype
    let fields ← Slot.withDefault? [] fieldsOfTree? fields
    some ⟨subtype, fields⟩
  | _ => none

def parse? (text : String) : Option Variant := (Tree.parse text.toList).bind ofTree?

end Variant
end TaggedJson
