import TaggedJson.Json.Space
import TaggedJson.Json.Value
/-! Documents and the texts that spell them. The grammar is given twice over: the lexemes of a
document follow from the document, and a text spells lexemes one after the other with any space
between them. -/
namespace TaggedJson.Json

/-- What a text holds before anything is made of it: members come as often as they are written and
numbers keep their literals. Escapes are decoded. -/
inductive Document where
  | null
  | bool (value : Bool)
  | number (literal : NumberLiteral)
  | string (text : String)
  | array (items : List Document)
  | object (members : List (String × Document))

inductive Lexeme where
  | openObject
  | closeObject
  | openArray
  | closeArray
  | comma
  | colon
  | null
  | bool (value : Bool)
  | number (literal : NumberLiteral)
  | string (text : String)

/-- A comma before every item but the first. -/
def separator (first : Bool) : List Lexeme := if first then [] else [.comma]

namespace Document

mutual
def lexemes : Document → List Lexeme
  | .null => [.null]
  | .bool value => [.bool value]
  | .number literal => [.number literal]
  | .string text => [.string text]
  | .array items => .openArray :: itemLexemes true items
  | .object members => .openObject :: memberLexemes true members

/-- The rest of an array, its bracket included. -/
def itemLexemes : Bool → List Document → List Lexeme
  | _, [] => [.closeArray]
  | first, item :: rest => separator first ++ (lexemes item ++ itemLexemes false rest)

/-- The rest of an object, its bracket included. -/
def memberLexemes : Bool → List (String × Document) → List Lexeme
  | _, [] => [.closeObject]
  | first, (name, document) :: rest =>
    separator first ++ (.string name :: .colon :: (lexemes document ++ memberLexemes false rest))
end

mutual
/-- Levels of arrays and objects, the document itself included. -/
def depth : Document → Nat
  | .array items => depthItems items + 1
  | .object members => depthMembers members + 1
  | _ => 0

def depthItems : List Document → Nat
  | [] => 0
  | item :: rest => max (depth item) (depthItems rest)

def depthMembers : List (String × Document) → Nat
  | [] => 0
  | (_, document) :: rest => max (depth document) (depthMembers rest)
end

mutual
/-- The value of a document, unless a number in it overflows or a name comes twice in one object. -/
def value? : Document → Option Value
  | .null => some .null
  | .bool value => some (.bool value)
  | .number literal => literal.number?.map .number
  | .string text => some (.string text)
  | .array items => (itemValues? items).map .array
  | .object members =>
    (memberValues? members).bind fun values =>
      if (values.map Prod.fst).Nodup then some (.object values) else none

def itemValues? : List Document → Option (List Value)
  | [] => some []
  | item :: rest => (value? item).bind fun value => (itemValues? rest).map (value :: ·)

def memberValues? : List (String × Document) → Option Members
  | [] => some []
  | (name, document) :: rest =>
    (value? document).bind fun value => (memberValues? rest).map ((name, value) :: ·)
end

end Document

/-! How lexemes are spelled. -/

def Blank (chars : List Char) : Prop := ∀ c ∈ chars, isSpace c = true

/-- The spellings of one character between quotes. -/
inductive CharSpelled : Char → List Char → Prop
  | plain {c : Char} (quote : c ≠ '"') (backslash : c ≠ '\\') (control : 0x20 ≤ c.toNat) :
    CharSpelled c [c]
  | short {mark c : Char} (named : Text.shortEscape? mark = some c) : CharSpelled c ['\\', mark]
  | code {p q r s : Char} {code : Nat} (digits : Text.fourHex? p q r s = some code)
    (high : Text.isHighSurrogate code = false) (low : Text.isLowSurrogate code = false) :
    CharSpelled (Char.ofNat code) ['\\', 'u', p, q, r, s]
  | pair {p q r s t u v w : Char} {high low : Nat} (first : Text.fourHex? p q r s = some high)
    (isHigh : Text.isHighSurrogate high = true) (second : Text.fourHex? t u v w = some low)
    (isLow : Text.isLowSurrogate low = true) :
    CharSpelled (Text.ofSurrogates high low) ['\\', 'u', p, q, r, s, '\\', 'u', t, u, v, w]

inductive CharsSpelled : List Char → List Char → Prop
  | nil : CharsSpelled [] []
  | cons {c : Char} {chars one more : List Char} (first : CharSpelled c one)
    (rest : CharsSpelled chars more) : CharsSpelled (c :: chars) (one ++ more)

def IsDigits (chars : List Char) : Prop := ∀ c ∈ chars, c.isDigit = true

/-- A literal as the grammar has it: no zero before other digits, no point and no exponent without
digits. -/
structure NumberLiteral.Grammatical (literal : NumberLiteral) : Prop where
  whole : literal.whole = ['0'] ∨
    ∃ first rest, literal.whole = first :: rest ∧ first ≠ '0' ∧ IsDigits (first :: rest)
  fraction : IsDigits literal.fraction
  exponent : ∀ power, literal.exponent = some power → (power.mark = 'e' ∨ power.mark = 'E') ∧
    (power.sign = [] ∨ power.sign = ['+'] ∨ power.sign = ['-']) ∧
    power.digits ≠ [] ∧ IsDigits power.digits

inductive Lexeme.Spelled : Lexeme → List Char → Prop
  | openObject : Spelled .openObject ['{']
  | closeObject : Spelled .closeObject ['}']
  | openArray : Spelled .openArray ['[']
  | closeArray : Spelled .closeArray [']']
  | comma : Spelled .comma [',']
  | colon : Spelled .colon [':']
  | null : Spelled .null ['n', 'u', 'l', 'l']
  | true : Spelled (.bool true) ['t', 'r', 'u', 'e']
  | false : Spelled (.bool false) ['f', 'a', 'l', 's', 'e']
  | number {literal : NumberLiteral} (grammatical : literal.Grammatical) :
    Spelled (.number literal) literal.chars
  | string {text : String} {chars : List Char} (spelled : CharsSpelled text.toList chars) :
    Spelled (.string text) ('"' :: (chars ++ ['"']))

/-- Space may stand before each lexeme and after the last. -/
inductive Spelling : List Lexeme → List Char → Prop
  | nil {space : List Char} (blank : Blank space) : Spelling [] space
  | cons {lexeme : Lexeme} {lexemes : List Lexeme} {space chars rest : List Char}
    (blank : Blank space) (first : lexeme.Spelled chars) (more : Spelling lexemes rest) :
    Spelling (lexeme :: lexemes) (space ++ (chars ++ rest))

/-- The text is the document by the grammar, with nothing but space around it. -/
def Spells (text : String) (document : Document) : Prop := Spelling document.lexemes text.toList

end TaggedJson.Json
