import TaggedJson.Json.Scope
import TaggedJson.Pull.Error
/-! The state of a pull reader: what is left of the text, the token seen but not taken, and where in
the document the reader stands. Lists of scopes and path steps begin with the innermost. -/
namespace TaggedJson
namespace Pull
open Json (Scope)

/-- A token seen ahead. Brackets and literals are behind the cursor by then, names, strings and
numbers still before it. -/
inductive Ahead where
  | beginObject
  | endObject
  | beginArray
  | endArray
  | name
  | string
  | number
  | bool (value : Bool)
  | null
  | endDocument
deriving DecidableEq

def Ahead.token : Ahead → Token
  | .beginObject => .beginObject
  | .endObject => .endObject
  | .beginArray => .beginArray
  | .endArray => .endArray
  | .name => .name
  | .string => .string
  | .number => .number
  | .bool _ => .boolean
  | .null => .null
  | .endDocument => .endDocument

/-- One for a token that is behind the cursor before it is taken. -/
def Ahead.weight : Ahead → Nat
  | .name | .string | .number | .endDocument => 0
  | _ => 1

inductive Step where
  | field (name : Option String)
  | index (position : Nat)
deriving DecidableEq

/-- A name that strict reading lets through in objects at one depth. A stripped name is moreover
kept out of the fields of such an object. -/
structure Allowance where
  name : String
  depth : Nat
  stripped : Bool
deriving DecidableEq

/-- The rest of the text and the offset of its first byte. -/
structure Place where
  rest : List Char
  offset : Nat
deriving DecidableEq

structure Cursor where
  place : Place
  ahead : Option Ahead
  scopes : List Scope
  path : List Step
  failOnUnknown : Bool
  allowances : List Allowance
deriving DecidableEq

def Step.text : Step → String
  | .field (some name) => "." ++ name
  | .field none => ""
  | .index position => "[" ++ toString position ++ "]"

namespace Cursor

def ofText (text : String) : Cursor :=
  ⟨⟨text.toList, 0⟩, none, [.documentStart], [], false, []⟩

/-- The location of the cursor, as in `$.items[2].name`. -/
def pathText (c : Cursor) : String := c.path.foldr (fun step outer => outer ++ step.text) "$"

def allowance? (c : Cursor) (name : String) : Option Allowance :=
  c.allowances.find? fun allowed => allowed.depth == c.scopes.length && allowed.name == name

/-- Whether a name is kept out of the fields of the object being read. -/
def strips (c : Cursor) (name : String) : Bool :=
  (c.allowance? name).any Allowance.stripped

/-- Whether strict reading lets a name through in the object being read. -/
def allows (c : Cursor) (name : String) : Bool := (c.allowance? name).isSome

def withScope (c : Cursor) (scope : Scope) : Cursor :=
  { c with scopes := scope :: c.scopes.tail }

def setName (c : Cursor) (name : String) : Cursor :=
  match c.path with
  | .field _ :: outer => { c with path := .field (some name) :: outer }
  | _ => c

/-- Every value that ends moves an enclosing array on. -/
def valueTaken (c : Cursor) : Cursor :=
  match c.path with
  | .index position :: outer => { c with path := .index (position + 1) :: outer }
  | _ => c

/-- Opens an object or array whose bracket has been taken. -/
def push (c : Cursor) (scope : Scope) (step : Step) : Cursor :=
  { c with ahead := none, scopes := scope :: c.scopes, path := step :: c.path }

def pop (c : Cursor) : Cursor :=
  valueTaken { c with ahead := none, scopes := c.scopes.tail, path := c.path.tail }

/-- Bounds the tokens still to be taken: the characters not yet passed, and one for a token that
has been passed but not taken. -/
def remaining (c : Cursor) : Nat := c.place.rest.length + (c.ahead.map Ahead.weight).getD 0

end Cursor

/-- Faults inside a lexeme, before the path is known. -/
inductive Fault where
  | malformed (cause : Malformed) (offset : Nat)
  | endOfInput
deriving DecidableEq

def Fault.atPath (path : String) : Fault → DecodeError
  | .malformed cause offset => .malformed cause offset path
  | .endOfInput => .endOfInput path

def byteLength (chars : List Char) : Nat := chars.foldl (fun bytes c => bytes + c.utf8Size) 0

end Pull

/-- Operations on a cursor. One that fails leaves the cursor where it got to. -/
abbrev Pull := EStateM Pull.DecodeError Pull.Cursor

end TaggedJson
