import TaggedJson.Decimal.Layout
import TaggedJson.Json.Literal
import TaggedJson.Text.Quoted
/-! JSON values with the members of an object in insertion order. -/
namespace TaggedJson.Json

def integerFits (n : Int) : Prop := -Int.pow 2 63 ≤ n ∧ n < Int.pow 2 64

instance (n : Int) : Decidable (integerFits n) := inferInstanceAs (Decidable (_ ∧ _))

/-- An integer of at most 64 bits, signed or unsigned, or a finite double. -/
inductive Number where
  | integer (value : Int) (fits : integerFits value)
  | double (value : Double)
deriving DecidableEq

/-- An integral literal stays an integer as long as it fits; every other literal is a double, and
one that overflows is no number. -/
def NumberLiteral.number? (literal : NumberLiteral) : Option Number :=
  if fits : literal.isIntegral ∧ integerFits literal.wholeValue then
    some (.integer literal.wholeValue fits.2)
  else match literal.toBinary64 with
    | .finite value => some (.double value)
    | _ => none

inductive Value where
  | null
  | bool (value : Bool)
  | number (value : Number)
  | string (value : String)
  | array (items : List Value)
  | object (members : List (String × Value))

/-- The members of one object, in order. -/
abbrev Members := List (String × Value)

namespace Members

def has (members : Members) (name : String) : Bool := members.any (·.1 == name)

def get? (members : Members) (name : String) : Option Value :=
  (members.find? (·.1 == name)).map Prod.snd

/-- A name set again keeps its place and takes the new value. -/
def put : Members → String → Value → Members
  | [], name, value => [(name, value)]
  | (other, kept) :: rest, name, value =>
    if other = name then (name, value) :: rest else (other, kept) :: put rest name value

end Members

namespace Value

def isNull : Value → Bool
  | .null => true
  | _ => false

mutual
/-- Levels of arrays and objects, the value itself included. -/
def depth : Value → Nat
  | .array items => depthItems items + 1
  | .object members => depthMembers members + 1
  | _ => 0

def depthItems : List Value → Nat
  | [] => 0
  | item :: rest => max (depth item) (depthItems rest)

def depthMembers : Members → Nat
  | [] => 0
  | (_, value) :: rest => max (depth value) (depthMembers rest)
end

end Value

/-! Compact text. -/

def integerChars (n : Int) : List Char :=
  (if n < 0 then ['-'] else []) ++ Nat.toDigits 10 n.natAbs

def Number.chars : Number → List Char
  | .integer value _ => integerChars value
  | .double value => value.chars

/-- Items with a comma between neighbours. -/
def commaSeparated : List (List Char) → List Char
  | [] => []
  | [item] => item
  | item :: next :: rest => item ++ ',' :: commaSeparated (next :: rest)

namespace Value

mutual
def chars : Value → List Char
  | .null => ['n', 'u', 'l', 'l']
  | .bool true => ['t', 'r', 'u', 'e']
  | .bool false => ['f', 'a', 'l', 's', 'e']
  | .number value => value.chars
  | .string value => Text.quoteChars value.toList
  | .array items => '[' :: commaSeparated (itemChars items) ++ [']']
  | .object members => '{' :: commaSeparated (memberChars members) ++ ['}']

def itemChars : List Value → List (List Char)
  | [] => []
  | item :: rest => chars item :: itemChars rest

def memberChars : Members → List (List Char)
  | [] => []
  | (name, value) :: rest =>
    (Text.quoteChars name.toList ++ ':' :: chars value) :: memberChars rest
end

def text (value : Value) : String := String.ofList value.chars

end Value
end TaggedJson.Json
