import TaggedJson.Json.Value
/-! Whole documents as they are written. A tree keeps what a value forgets: repeated member names,
the spelling of numbers, and escapes that are not yet known to pair. -/
namespace TaggedJson.Json

/-- One element of a quoted string: a character standing for itself, or a code in four digits. A
short escape counts as the character it names. -/
inductive Piece where
  | plain (c : Char)
  | code (unit : Nat)
deriving DecidableEq

/-- The characters of a quoted string, if every surrogate is half of a pair. -/
def decodePieces : List Piece → Option (List Char)
  | [] => some []
  | .plain c :: rest => (decodePieces rest).map (c :: ·)
  | .code high :: .code low :: rest =>
    if Text.isHighSurrogate high then
      if Text.isLowSurrogate low then (decodePieces rest).map (Text.ofSurrogates high low :: ·)
      else none
    else if Text.isLowSurrogate high then none
    else (decodePieces (.code low :: rest)).map (Char.ofNat high :: ·)
  | .code unit :: rest =>
    if Text.isHighSurrogate unit || Text.isLowSurrogate unit then none
    else (decodePieces rest).map (Char.ofNat unit :: ·)

def textOf? (pieces : List Piece) : Option String := (decodePieces pieces).map String.ofList

inductive Tree where
  | null
  | bool (value : Bool)
  | number (literal : NumberLiteral)
  | string (pieces : List Piece)
  | array (items : List Tree)
  | object (members : List (List Piece × Tree))

namespace Tree

mutual
/-- Levels of arrays and objects, the tree itself included. -/
def depth : Tree → Nat
  | .array items => depthItems items + 1
  | .object members => depthMembers members + 1
  | _ => 0

def depthItems : List Tree → Nat
  | [] => 0
  | item :: rest => max (depth item) (depthItems rest)

def depthMembers : List (List Piece × Tree) → Nat
  | [] => 0
  | (_, tree) :: rest => max (depth tree) (depthMembers rest)
end

end Tree

/-- What a reader makes of the two points on which readers of the same grammar differ: the number a
literal stands for, and whether a member name may come again. -/
structure Reading where
  number? : NumberLiteral → Option Number
  repeats : Bool

namespace Tree

mutual
/-- The value of a tree: surrogates pair, numbers are finite, and where names may come again the
last member of a name counts, in the place of the first. -/
def value? (reading : Reading) : Tree → Option Value
  | .null => some .null
  | .bool value => some (.bool value)
  | .number literal => (reading.number? literal).map .number
  | .string pieces => (textOf? pieces).map .string
  | .array items => (items? reading items).map .array
  | .object members => (members? reading [] members).map .object

def items? (reading : Reading) : List Tree → Option (List Value)
  | [] => some []
  | item :: rest => do
    let item ← value? reading item
    let rest ← items? reading rest
    some (item :: rest)

def members? (reading : Reading) (before : Members) : List (List Piece × Tree) → Option Members
  | [] => some before
  | (name, tree) :: rest => do
    let name ← textOf? name
    let value ← value? reading tree
    if before.has name && !reading.repeats then none
    else members? reading (before.put name value) rest
end

end Tree
end TaggedJson.Json
