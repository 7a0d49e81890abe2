import TaggedJson.Json.Space
import TaggedJson.Pull.Lexeme
/-! Looking at the next token. Separators are passed on the way, and the scope moves on to what may
come after the token; both stay as they are when no token is found. -/
namespace TaggedJson.Pull
open Json (Scope)

/-- The outcome of an operation, with the cursor it leaves behind in either case. -/
abbrev Outcome (α : Type) := EStateM.Result DecodeError Cursor α

namespace Cursor

def skipSpace (c : Cursor) : Cursor :=
  let space := c.place.rest.takeWhile Json.isSpace
  { c with place := ⟨Json.skipSpace c.place.rest, c.place.offset + space.length⟩ }

/-- Passes a number of characters of one byte each. -/
def advance (c : Cursor) (count : Nat) : Cursor :=
  { c with place := ⟨c.place.rest.drop count, c.place.offset + count⟩ }

def malformed (c : Cursor) (cause : Malformed) : DecodeError :=
  .malformed cause c.place.offset c.pathText

def endOfInput (c : Cursor) : DecodeError := .endOfInput c.pathText

end Cursor

/-- A literal ends where no letter or digit follows. -/
def lookLiteral (word : List Char) (ahead : Ahead) (c : Cursor) : Outcome Ahead :=
  if word.isPrefixOf c.place.rest && !(c.place.rest.drop word.length).head?.any Char.isAlphanum then
    .ok ahead (c.advance word.length)
  else .error (c.malformed .strayLiteral) c

def lookValue (c : Cursor) : Outcome Ahead :=
  let c := c.skipSpace
  match c.place.rest with
  | [] => .error c.endOfInput c
  | next :: _ =>
    if next = '{' then .ok .beginObject (c.advance 1)
    else if next = '[' then .ok .beginArray (c.advance 1)
    else if next = '"' then .ok .string c
    else if next = 't' then lookLiteral ['t', 'r', 'u', 'e'] (.bool true) c
    else if next = 'f' then lookLiteral ['f', 'a', 'l', 's', 'e'] (.bool false) c
    else if next = 'n' then lookLiteral ['n', 'u', 'l', 'l'] .null c
    else if next = '-' ∨ next.isDigit then .ok .number c
    else .error (c.malformed .strayCharacter) c

/-- The name of a member; only the first may be replaced by the end of the object. -/
def lookName (first : Bool) (c : Cursor) : Outcome Ahead :=
  let c := c.skipSpace
  match c.place.rest with
  | [] => .error c.endOfInput c
  | next :: _ =>
    if next = '"' then .ok .name (c.withScope .objectValue)
    else if first ∧ next = '}' then .ok .endObject (c.advance 1)
    else .error (c.malformed .missingName) c

def lookAfterMember (c : Cursor) : Outcome Ahead :=
  let c := c.skipSpace
  match c.place.rest with
  | [] => .error c.endOfInput c
  | next :: _ =>
    if next = '}' then .ok .endObject (c.advance 1)
    else if next = ',' then lookName false (c.advance 1)
    else .error (c.malformed .unterminatedObject) c

def lookAfterName (c : Cursor) : Outcome Ahead :=
  let c := (c.withScope .objectNext).skipSpace
  match c.place.rest with
  | [] => .error c.endOfInput c
  | next :: _ =>
    if next = ':' then lookValue (c.advance 1) else .error (c.malformed .missingColon) c

def lookFirstItem (c : Cursor) : Outcome Ahead :=
  let c := (c.withScope .arrayNext).skipSpace
  if c.place.rest.head? = some ']' then .ok .endArray (c.advance 1) else lookValue c

def lookAfterItem (c : Cursor) : Outcome Ahead :=
  let c := c.skipSpace
  match c.place.rest with
  | [] => .error c.endOfInput c
  | next :: _ =>
    if next = ']' then .ok .endArray (c.advance 1)
    else if next = ',' then lookValue (c.advance 1)
    else .error (c.malformed .unterminatedArray) c

def lookEnd (c : Cursor) : Outcome Ahead :=
  let c := c.skipSpace
  if c.place.rest.isEmpty then .ok .endDocument c else .error (.notFullyConsumed c.pathText) c

def look (c : Cursor) : Outcome Ahead :=
  match c.scopes.head? with
  | some .documentStart => lookValue (c.withScope .documentEnd)
  | some .objectStart => lookName true c
  | some .objectValue => lookAfterName c
  | some .objectNext => lookAfterMember c
  | some .arrayStart => lookFirstItem c
  | some .arrayNext => lookAfterItem c
  | some .documentEnd | none => lookEnd c

/-- The next token, looked for once and then kept until it is taken. -/
def ahead : Pull Ahead := fun c =>
  match c.ahead with
  | some seen => .ok seen c
  | none =>
    match look c with
    | .ok seen c => .ok seen { c with ahead := some seen }
    | .error e c => .error e c

def peek : Pull Token := fun c =>
  match ahead c with
  | .ok seen c => .ok seen.token c
  | .error e c => .error e c

/-- Whether the object or array being read has another member or item. -/
def hasNext : Pull Bool := fun c =>
  match ahead c with
  | .ok seen c => .ok (seen != .endObject && seen != .endArray && seen != .endDocument) c
  | .error e c => .error e c

end TaggedJson.Pull
