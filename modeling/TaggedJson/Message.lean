import TaggedJson.Hierarchy.Table
/-! Messages: a root type whose subtypes have payloads of seven types, or none. Fields that a
payload does not have are ignored when it is read. -/
namespace TaggedJson
open Json Hierarchy

inductive Message where
  | success (value : String)
  /-- Logs in the order of their names. -/
  | errorLogs (logs : List (String × Double))
  | int (value : Int)
  | point (x y : Int)
  | note (text : Option String)
  | any (value : Value)
  /-- Made from an object, of which it keeps the number of fields. -/
  | count (fields : Nat)
  | unit (subtype : String)

namespace Message

def subtype : Message → String
  | .success _ => "Success"
  | .errorLogs _ => "Error"
  | .int _ => "SuccessInt"
  | .point .. => "Point"
  | .note _ => "Note"
  | .any _ => "Any"
  | .count _ => "Count"
  | .unit name => name

instance : Root Message := ⟨subtype⟩

/-! Values as parts of payloads. -/

def string? : Value → Option String
  | .string text => some text
  | _ => none

/-- Only integers of 64 signed bits: a double is none, whatever its value. -/
def int64? : Value → Option Int
  | .number (.integer value _) =>
    if -Int.pow 2 63 ≤ value ∧ value < Int.pow 2 63 then some value else none
  | _ => none

def double? : Value → Option Double
  | .number (.double value) => some value
  | .number (.integer value _) =>
    match (Decimal.mk value.natAbs 0).toBinary64 (decide (value < 0)) with
    | .finite value => some value
    | _ => none
  | _ => none

def integer (value : Int) : Option Value :=
  if fits : integerFits value then some (.number (.integer value fits)) else none

def insertLog (name : String) (value : Double) : List (String × Double) → List (String × Double)
  | [] => [(name, value)]
  | (other, kept) :: rest =>
    if name < other then (name, value) :: (other, kept) :: rest
    else if name = other then (name, value) :: rest
    else (other, kept) :: insertLog name value rest

def logs? : Members → Option (List (String × Double))
  | [] => some []
  | (name, value) :: rest => do
    let value ← double? value
    let rest ← logs? rest
    some (insertLog name value rest)

/-- A note's text is optional and goes by two names, of which an object has at most one. -/
def noteText? (fields : Members) : Option (Option String) :=
  match fields.get? "text", fields.get? "msg" with
  | none, none => some none
  | some .null, none | none, some .null => some none
  | some value, none | none, some value => (string? value).map some
  | some _, some _ => none

/-! The payload types. -/

def successForm : PayloadForm Message where
  payload := "Success"
  ofFields? fields := (fields.get? "value").bind string? |>.map .success
  toJson?
    | .success value => some (.ok (.object [("value", .string value)]))
    | _ => none

def errorForm : PayloadForm Message where
  payload := "ErrorLogs"
  ofFields? fields :=
    match fields.get? "error_logs" with
    | some (.object members) => (logs? members).map .errorLogs
    | _ => none
  toJson?
    | .errorLogs logs =>
      some (.ok (.object [("error_logs",
        .object (logs.map fun (name, value) => (name, .number (.double value))))]))
    | _ => none

def intForm : PayloadForm Message where
  payload := "IntValue"
  ofFields? fields := (fields.get? "value").bind int64? |>.map .int
  toJson?
    | .int value => (integer value).map fun value => .ok (.object [("value", value)])
    | _ => none

def pointForm : PayloadForm Message where
  payload := "Point"
  ofFields? fields := do
    let x ← (fields.get? "x").bind int64?
    let y ← (fields.get? "y").bind int64?
    some (.point x y)
  toJson?
    | .point x y => do
      let x ← integer x
      let y ← integer y
      some (.ok (.object [("x", x), ("y", y)]))
    | _ => none

def noteForm : PayloadForm Message where
  payload := "Note"
  ofFields? fields := (noteText? fields).map .note
  toJson?
    | .note (some text) => some (.ok (.object [("text", .string text)]))
    | .note none => some (.ok (.object []))
    | _ => none

def anyForm : PayloadForm Message where
  payload := "Value"
  ofFields? fields := some (.any (.object fields))
  toJson?
    | .any value => some (.ok value)
    | _ => none

def countForm : PayloadForm Message where
  payload := "Count"
  ofFields? fields := some (.count fields.length)
  toJson?
    | .count fields => (integer fields).map .ok
    | _ => none

def forms : List (PayloadForm Message) :=
  [successForm, errorForm, intForm, pointForm, noteForm, anyForm, countForm]

/-- The payload of a message as a value, if it has one. -/
def payload? (message : Message) : Option Value :=
  forms.findSome? fun form => (form.toJson? message).bind Except.toOption

/-- The message of a subtype with a payload. Any value is a payload of `Any`, the others need an
object. -/
def ofPayload? (subtype : String) (payload : Value) : Option Message :=
  match subtype, payload with
  | "Any", value => some (.any value)
  | "Success", .object fields => successForm.ofFields? fields
  | "Error", .object fields => errorForm.ofFields? fields
  | "SuccessInt", .object fields => intForm.ofFields? fields
  | "Point", .object fields => pointForm.ofFields? fields
  | "Note", .object fields => noteForm.ofFields? fields
  | "Count", .object fields => countForm.ofFields? fields
  | _, _ => none

/-- Whether messages of a subtype have a payload. -/
def hasPayload (subtype : String) : Bool :=
  ["Success", "Error", "SuccessInt", "Point", "Note", "Any", "Count"].contains subtype

end Message
end TaggedJson
