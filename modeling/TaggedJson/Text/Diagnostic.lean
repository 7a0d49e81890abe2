import TaggedJson.Text.Hidden
import TaggedJson.Text.Marks
/-! Text and records as diagnostics show them. -/
namespace TaggedJson.Text

def codeEscape (c : Char) : List Char :=
  ['\\', 'u', '{'] ++ Nat.toDigits 16 c.toNat ++ ['}']

/-- Marks and hidden characters show their code point. -/
def revealChar (c : Char) : List Char :=
  if c = '"' then ['\\', '"']
  else if c = '\\' then ['\\', '\\']
  else if c = '\n' then ['\\', 'n']
  else if c = '\r' then ['\\', 'r']
  else if c = '\t' then ['\\', 't']
  else if c = '\x00' then ['\\', '0']
  else if isMark c || isHidden c then codeEscape c
  else [c]

def reveal (text : String) : String :=
  "\"" ++ String.ofList (text.toList.flatMap revealChar) ++ "\""

def revealList (items : List String) : String := "[" ++ ", ".intercalate items ++ "]"

/-- A record with its fields in order. -/
def revealRecord (name : String) (fields : List (String × String)) : String :=
  name ++ " \x7b " ++
    ", ".intercalate (fields.map fun (label, value) => label ++ ": " ++ value) ++ " \x7d"

end TaggedJson.Text
