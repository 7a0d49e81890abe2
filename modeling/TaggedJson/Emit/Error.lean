import TaggedJson.Decimal.Layout
import TaggedJson.Pull.Error
/-! What can be wrong with a document being written. -/
namespace TaggedJson.Emit

/-- A call that the document has no place for. -/
inductive Imbalance where
  | danglingName
  | noObjectToEnd
  | noArrayToEnd
  | nameAfterName
  | nameOutsideObject
  | secondDocument
  | valueWithoutName
  | nothingWritten
  | incomplete
deriving DecidableEq

def Imbalance.text : Imbalance → String
  | .danglingName => "dangling name"
  | .noObjectToEnd => "end_object outside an object"
  | .noArrayToEnd => "end_array outside an array"
  | .nameAfterName => "name after name"
  | .nameOutsideObject => "name outside an object"
  | .secondDocument => "JSON must have only one top-level value"
  | .valueWithoutName => "value inside an object without a name"
  | .nothingWritten => "no value written"
  | .incomplete => "incomplete document"

inductive EncodeError where
  | unregistered (subtype : String) (known : List String)
  | mismatch (payload subtype : String)
  | reservedName (name : String)
  | nesting (cause : Imbalance)
  | notFinite (value : Binary64)
deriving DecidableEq

def EncodeError.message : EncodeError → String
  | .unregistered subtype known =>
    "expected one of " ++ Pull.alternatives known ++ " but found subtype '" ++ subtype ++
      "'. Register this subtype."
  | .mismatch payload subtype =>
    "adapter for " ++ payload ++ " cannot encode subtype '" ++ subtype ++ "'"
  | .reservedName name => "field '" ++ name ++ "' collides with the discriminator key"
  | .nesting cause => "nesting problem: " ++ cause.text
  | .notFinite value => "numeric values must be finite, but was " ++ value.text

end TaggedJson.Emit
