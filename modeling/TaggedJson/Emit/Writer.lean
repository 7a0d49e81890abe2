import TaggedJson.Emit.Error
import TaggedJson.Json.Scope
import TaggedJson.Json.Value
/-! Writing a document call by call. While merging is on, an object opened directly inside the
current one is not nested in it: its members become members of the current object. -/
namespace TaggedJson
namespace Emit
open Json (Scope)

/-- The state of merging in the object at a depth. -/
inductive Merge where
  /-- The next object opened there is merged. -/
  | armed (depth : Nat)
  /-- A merged object is open there. -/
  | merging (depth : Nat)
deriving DecidableEq

/-- Scopes begin with the innermost. -/
structure Writer where
  out : String
  scopes : List Scope
  merge : Option Merge
deriving DecidableEq

namespace Writer

def empty : Writer := ⟨"", [.documentStart], none⟩

def top (w : Writer) : Scope := w.scopes.headD .documentStart

def withScope (w : Writer) (scope : Scope) : Writer := { w with scopes := scope :: w.scopes.tail }

def write (w : Writer) (chars : List Char) : Writer :=
  { w with out := w.out ++ String.ofList chars }

def push (w : Writer) (scope : Scope) : Writer := { w with scopes := scope :: w.scopes }

def pop (w : Writer) : Writer := { w with scopes := w.scopes.tail }

def arm (w : Writer) : Writer := { w with merge := some (.armed w.scopes.length) }

/-- The document, once exactly one value has been written and every container is closed. -/
def finish (w : Writer) : Except EncodeError String :=
  if w.scopes = [.documentEnd] then .ok w.out
  else if w.scopes = [.documentStart] then .error (.nesting .nothingWritten)
  else .error (.nesting .incomplete)

end Writer
end Emit

/-- Calls on a writer. One that fails leaves the writer where it got to. -/
abbrev Emit := EStateM Emit.EncodeError Emit.Writer

namespace Emit

/-- Makes the place for a value, with a comma after an earlier item. -/
def placeValue : Emit Unit := fun w =>
  match w.top with
  | .documentStart => .ok () (w.withScope .documentEnd)
  | .documentEnd => .error (.nesting .secondDocument) w
  | .arrayStart => .ok () (w.withScope .arrayNext)
  | .arrayNext => .ok () (w.write [','])
  | .objectValue => .ok () (w.withScope .objectNext)
  | .objectStart | .objectNext => .error (.nesting .valueWithoutName) w

def scalar (chars : List Char) : Emit Unit := fun w =>
  match placeValue w with
  | .ok () w => .ok () (w.write chars)
  | .error e w => .error e w

def beginObject : Emit Unit := fun w =>
  if w.merge = some (.armed w.scopes.length) ∧ (w.top = .objectStart ∨ w.top = .objectNext) then
    -- No brace: the members go on where those of the current object stopped.
    .ok () { w with merge := some (.merging w.scopes.length) }
  else
    match placeValue w with
    | .ok () w => .ok () ((w.push .objectStart).write ['{'])
    | .error e w => .error e w

def endObject : Emit Unit := fun w =>
  if w.merge = some (.merging w.scopes.length) then
    -- The object around stays open, and takes in the next one as well.
    .ok () { w with merge := some (.armed w.scopes.length) }
  else
    match w.top with
    | .objectStart | .objectNext => .ok () (w.pop.write ['}'])
    | .objectValue => .error (.nesting .danglingName) w
    | _ => .error (.nesting .noObjectToEnd) w

def beginArray : Emit Unit := fun w =>
  match placeValue w with
  | .ok () w => .ok () ((w.push .arrayStart).write ['['])
  | .error e w => .error e w

def endArray : Emit Unit := fun w =>
  match w.top with
  | .arrayStart | .arrayNext => .ok () (w.pop.write [']'])
  | _ => .error (.nesting .noArrayToEnd) w

def name (text : String) : Emit Unit := fun w =>
  let quoted := Text.quoteChars text.toList ++ [':']
  match w.top with
  | .objectStart => .ok () ((w.withScope .objectValue).write quoted)
  | .objectNext => .ok () ((w.withScope .objectValue).write (',' :: quoted))
  | .objectValue => .error (.nesting .nameAfterName) w
  | _ => .error (.nesting .nameOutsideObject) w

def string (text : String) : Emit Unit := scalar (Text.quoteChars text.toList)

def bool (value : Bool) : Emit Unit := scalar (Json.Value.bool value).chars

def null : Emit Unit := scalar Json.Value.null.chars

def integer (value : Int) : Emit Unit := scalar (Json.integerChars value)

def double (value : Binary64) : Emit Unit :=
  match value with
  | .finite value => scalar value.chars
  | other => throw (.notFinite other)

mutual
/-- Writes a value call by call, so an object merges like any other. -/
def json : Json.Value → Emit Unit
  | .null => null
  | .bool value => bool value
  | .number value => scalar value.chars
  | .string text => string text
  | .array items => do
    beginArray
    jsonItems items
    endArray
  | .object members => do
    beginObject
    jsonMembers members
    endObject

def jsonItems : List Json.Value → Emit Unit
  | [] => pure ()
  | item :: rest => do
    json item
    jsonItems rest

def jsonMembers : Json.Members → Emit Unit
  | [] => pure ()
  | (label, value) :: rest => do
    name label
    json value
    jsonMembers rest
end

/-- Arms merging in the current object and gives the state to go back to. -/
def beginMerge : Emit (Option Merge) := fun w => .ok w.merge w.arm

def endMerge (before : Option Merge) : Emit Unit := modify fun w => { w with merge := before }

/-- Runs a body with merging armed and goes back to the state before, also when it fails. -/
def merged (body : Emit Unit) : Emit Unit := fun w =>
  match body w.arm with
  | .ok () after => .ok () { after with merge := w.merge }
  | .error e after => .error e { after with merge := w.merge }

/-- A whole document. -/
def document (body : Emit Unit) : Except EncodeError String :=
  match body Writer.empty with
  | .ok () w => w.finish
  | .error e _ => .error e

end Emit
end TaggedJson
