import TaggedJson.Hierarchy.Decode
import TaggedJson.Hierarchy.Encode
import TaggedJson.Variant.Parser
/-! The two conversions of a line, between documents of a hierarchy and variants. -/
namespace TaggedJson
open Hierarchy

inductive LineFailure where
  | decode (error : Pull.DecodeError)
  | encode (error : Emit.EncodeError)
  | notAVariant
deriving DecidableEq

/-- Why a text is no variant is left open. -/
def LineFailure.message : LineFailure → String
  | .decode error => error.message
  | .encode error => error.message
  | .notAVariant => "invalid variant: *"

/-- A document without a value becomes `null`. -/
def decodeLine (table : Table Variant) (strict : Bool) (line : String) :
    Except LineFailure String :=
  match table.fromJson strict line with
  | .ok (some variant) => .ok variant.toValue.text
  | .ok none => .ok Json.Value.null.text
  | .error e => .error (.decode e)

def encodeLine (table : Table Variant) (line : String) : Except LineFailure String :=
  match Variant.parse? line with
  | none => .error .notAVariant
  | some variant =>
    match table.toJson variant with
    | .ok text => .ok text
    | .error e => .error (.encode e)

end TaggedJson
