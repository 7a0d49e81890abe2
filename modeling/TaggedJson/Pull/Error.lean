/-! Tokens, and what can be wrong with a document. -/
namespace TaggedJson.Pull

inductive Token where
  | beginObject
  | endObject
  | beginArray
  | endArray
  | name
  | string
  | number
  | boolean
  | null
  | endDocument
deriving DecidableEq

def Token.text : Token → String
  | .beginObject => "BEGIN_OBJECT"
  | .endObject => "END_OBJECT"
  | .beginArray => "BEGIN_ARRAY"
  | .endArray => "END_ARRAY"
  | .name => "NAME"
  | .string => "STRING"
  | .number => "NUMBER"
  | .boolean => "BOOLEAN"
  | .null => "NULL"
  | .endDocument => "END_DOCUMENT"

/-- What an operation asks of the next token. -/
inductive Expected where
  | beginObject
  | endObject
  | beginArray
  | endArray
  | name
  | string
  | boolean
  | null
  | double
  | int
  | number
  | value
deriving DecidableEq

def Expected.text : Expected → String
  | .beginObject => Token.beginObject.text
  | .endObject => Token.endObject.text
  | .beginArray => Token.beginArray.text
  | .endArray => Token.endArray.text
  | .name => "a name"
  | .string => "a string"
  | .boolean => "a boolean"
  | .null => "null"
  | .double => "a double"
  | .int => "an int"
  | .number => "a number"
  | .value => "a value"

/-- Text that no document contains where it stands. -/
inductive Malformed where
  | unterminatedArray
  | unterminatedObject
  | missingName
  | missingColon
  | strayCharacter
  | strayLiteral
  | bareControl
  | badEscape
  | badUnicodeEscape
  | unpairedSurrogate
  | badNumber
deriving DecidableEq

def Malformed.text : Malformed → String
  | .unterminatedArray => "unterminated array"
  | .unterminatedObject => "unterminated object"
  | .missingName => "expected a name"
  | .missingColon => "expected ':'"
  | .strayCharacter => "unexpected character"
  | .strayLiteral => "unexpected literal"
  | .bareControl => "unescaped control character"
  | .badEscape => "invalid escape sequence"
  | .badUnicodeEscape => "invalid unicode escape"
  | .unpairedSurrogate => "unpaired surrogate"
  | .badNumber => "invalid number"

/-- Objects and arrays may be this deep. -/
def depthLimit : Nat := 128

/-- Offsets count bytes of UTF-8 from the start of the text. -/
inductive DecodeError where
  | malformed (cause : Malformed) (offset : Nat) (path : String)
  | unexpectedToken (expected : Expected) (found : Token) (path : String)
  | endOfInput (path : String)
  | unexpectedName (name path : String)
  | tooDeep (path : String)
  | unexpectedNull (path : String)
  | notFullyConsumed (path : String)
  | missingLabel (key : String) (known : List String)
  | unknownLabel (key label : String) (known : List String)
  | badPayload (path : String)
  | repeatedName (name path : String)
  | notAnInt (literal path : String)
deriving DecidableEq

/-- A list of alternatives as messages show it. -/
def alternatives (texts : List String) : String := "[" ++ ", ".intercalate texts ++ "]"

/-- The part of the message of an ill-typed payload that depends on the payload's type is left
open. -/
def DecodeError.message : DecodeError → String
  | .malformed cause offset path =>
    "malformed JSON at offset " ++ toString offset ++ " (" ++ path ++ "): " ++ cause.text
  | .unexpectedToken expected found path =>
    "expected " ++ expected.text ++ " but was " ++ found.text ++ " at path " ++ path
  | .endOfInput path => "unexpected end of input at path " ++ path
  | .unexpectedName name path => "cannot skip unexpected name '" ++ name ++ "' at path " ++ path
  | .tooDeep path =>
    "nesting too deep at path " ++ path ++ " (limit " ++ toString depthLimit ++ ")"
  | .unexpectedNull path => "unexpected null at path " ++ path
  | .notFullyConsumed path => "JSON document was not fully consumed (at path " ++ path ++ ")"
  | .missingLabel key known =>
    "missing label for key '" ++ key ++ "' (expected one of " ++ alternatives known ++ ")"
  | .unknownLabel key label known =>
    "expected one of " ++ alternatives known ++ " for key '" ++ key ++ "' but found '" ++ label ++
      "'. Register a subtype for this label."
  | .badPayload path => "invalid payload at path " ++ path ++ ": *"
  | .repeatedName name path => "map key '" ++ name ++ "' has multiple values at path " ++ path
  | .notAnInt literal path => "expected an int but was " ++ literal ++ " at path " ++ path

end TaggedJson.Pull
