import TaggedJson.Json.Value
import TaggedJson.Pull.Peek
/-! Taking single tokens. A token of another kind stays where it is. -/
namespace TaggedJson.Pull
open Json (Scope)

/-- Fails where the cursor stands. -/
def fail (error : Cursor → DecodeError) : Pull α := fun c => .error (error c) c

/-- Takes the next token if it is the wanted one. -/
def takeToken (wanted : Ahead) (expected : Expected) : Pull Unit := fun c =>
  match ahead c with
  | .error e c => .error e c
  | .ok seen c =>
    if seen = wanted then .ok () { c with ahead := none }
    else .error (.unexpectedToken expected seen.token c.pathText) c

/-- Opens an object or array unless that many are open already. -/
def openScope (scope : Scope) (step : Step) : Pull Unit := fun c =>
  if depthLimit < c.scopes.length then .error (.tooDeep c.pathText) c
  else .ok () (c.push scope step)

def beginObject : Pull Unit := do
  takeToken .beginObject .beginObject
  openScope .objectStart (.field none)

def endObject : Pull Unit := do
  takeToken .endObject .endObject
  modify Cursor.pop

def beginArray : Pull Unit := do
  takeToken .beginArray .beginArray
  openScope .arrayStart (.index 0)

def endArray : Pull Unit := do
  takeToken .endArray .endArray
  modify Cursor.pop

/-- Reads the lexeme at the cursor; a fault leaves the cursor before it. -/
def takeLexeme (scan : Place → Except Fault (α × Place)) : Pull α := fun c =>
  match scan c.place with
  | .error fault => .error (fault.atPath c.pathText) c
  | .ok (value, place) => .ok value { c with place := place }

def nextName : Pull String := do
  takeToken .name .name
  let name ← takeLexeme scanString
  modify (·.setName name)
  return name

/-- Takes the next name if it is one of the given, and tells which; any other name stays. -/
def selectName (names : List String) : Pull (Option Nat) := fun c =>
  match ahead c with
  | .error e c => .error e c
  | .ok seen c =>
    if seen = .name then
      match scanString c.place with
      | .error fault => .error (fault.atPath c.pathText) c
      | .ok (name, place) =>
        match names.findIdx? (· == name) with
        | some position =>
          .ok (some position) ({ c with place := place, ahead := none }.setName name)
        | none => .ok none c
    else .error (.unexpectedToken .name seen.token c.pathText) c

/-- Takes the next name, which strict reading takes for an error unless the name is allowed. -/
def skipName : Pull Unit := do
  let name ← nextName
  let c ← get
  if c.failOnUnknown && !c.allows name then fail fun c => .unexpectedName name c.pathText
  else return ()

/-- The kind of the token ahead, once it is one of the kinds asked for. -/
def aheadAs (expected : Expected) (select : Ahead → Option α) : Pull α := fun c =>
  match ahead c with
  | .error e c => .error e c
  | .ok seen c =>
    match select seen with
    | some kind => .ok kind c
    | none => .error (.unexpectedToken expected seen.token c.pathText) c

def dropAhead : Pull Unit := modify fun c => { c with ahead := none }

/-- Ends a value that has no parts. -/
def endScalar : Pull Unit := modify fun c => { c with ahead := none }.valueTaken

inductive TextKind where
  | quoted
  | numeric

def TextKind.scan : TextKind → Place → Except Fault (String × Place)
  | .quoted, place => scanString place
  | .numeric, place =>
    match scanNumber place with
    | .error fault => .error fault
    | .ok (literal, after) => .ok (literal.text, after)

def Ahead.textKind? : Ahead → Option TextKind
  | .string => some .quoted
  | .number => some .numeric
  | _ => none

def Ahead.bool? : Ahead → Option Bool
  | .bool value => some value
  | _ => none

def Ahead.only? (wanted seen : Ahead) : Option Unit := if seen = wanted then some () else none

/-- A string, or the literal of a number. -/
def nextString : Pull String := do
  let kind ← aheadAs .string Ahead.textKind?
  dropAhead
  let text ← takeLexeme kind.scan
  endScalar
  return text

def nextBool : Pull Bool := do
  let value ← aheadAs .boolean Ahead.bool?
  endScalar
  return value

def nextNull : Pull Unit := do
  aheadAs .null (Ahead.only? .null)
  endScalar

/-- The literal of a number; the number does not count as taken yet. -/
def nextLiteral (expected : Expected) : Pull Json.NumberLiteral := do
  aheadAs expected (Ahead.only? .number)
  dropAhead
  takeLexeme scanNumber

def nextDouble : Pull Binary64 := do
  let literal ← nextLiteral .double
  endScalar
  return literal.toBinary64

def int64Fits (n : Int) : Bool := -Int.pow 2 63 ≤ n && n < Int.pow 2 63

/-- A literal without point and exponent counts as it stands if it fits; any other counts as the
double it reads as, if that is an integer. -/
def int64Of? (literal : Json.NumberLiteral) : Option Int :=
  if literal.isIntegral && int64Fits literal.wholeValue then some literal.wholeValue
  else match literal.toBinary64 with
    | .finite value => value.toInt?.filter int64Fits
    | _ => none

def nextInt64 : Pull Int := do
  let literal ← nextLiteral .int
  match int64Of? literal with
  | none => fail fun c => .notAnInt literal.text c.pathText
  | some value =>
    endScalar
    return value

/-- A number as values hold it. One that overflows is reported where it starts. -/
def nextNumber : Pull Json.Number := do
  let literal ← nextLiteral .number
  match literal.number? with
  | none =>
    fail fun c => .malformed .badNumber (c.place.offset - literal.chars.length) c.pathText
  | some number =>
    endScalar
    return number

/-- Fails unless nothing but space is left. -/
def expectEnd : Pull Unit := fun c =>
  match ahead c with
  | .error e c => .error e c
  | .ok seen c =>
    if seen = .endDocument then .ok () c else .error (.notFullyConsumed c.pathText) c

end TaggedJson.Pull
