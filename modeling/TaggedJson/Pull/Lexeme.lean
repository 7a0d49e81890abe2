import TaggedJson.Json.Literal
import TaggedJson.Pull.Cursor
import TaggedJson.Text.Quoted
/-! Strings and numbers in the text, with the offset of the first fault in them. -/
namespace TaggedJson.Pull

/-- The code in the next four characters. Fewer than four bytes are a text that ends too soon;
anything else but hexadecimal digits is a fault of the escape. -/
def scanCode (chars : List Char) (offset : Nat) : Except Fault Nat :=
  match chars with
  | a :: b :: c :: d :: _ =>
    match Text.fourHex? a b c d with
    | some code => .ok code
    | none => .error (.malformed .badUnicodeEscape offset)
  | short =>
    if byteLength short < 4 then .error .endOfInput
    else .error (.malformed .badUnicodeEscape offset)

/-- The character of an escape after its `\u`, and how many characters it took. -/
def scanUnicode (chars : List Char) (offset : Nat) : Except Fault (Char × Nat) :=
  match scanCode chars offset with
  | .error fault => .error fault
  | .ok code =>
    if Text.isHighSurrogate code then
      -- The low half must follow at once, as an escape of its own.
      match chars.drop 4 with
      | '\\' :: 'u' :: rest =>
        match scanCode rest (offset + 6) with
        | .error fault => .error fault
        | .ok low =>
          if Text.isLowSurrogate low then .ok (Text.ofSurrogates code low, 10)
          else .error (.malformed .unpairedSurrogate offset)
      | _ => .error (.malformed .unpairedSurrogate offset)
    else if Text.isLowSurrogate code then .error (.malformed .badUnicodeEscape offset)
    else .ok (Char.ofNat code, 4)

/-- The character of an escape after its backslash, and how many characters it took. -/
def scanEscape (chars : List Char) (offset : Nat) : Except Fault (Char × Nat) :=
  match chars with
  | [] => .error .endOfInput
  | 'u' :: rest =>
    match scanUnicode rest (offset + 1) with
    | .error fault => .error fault
    | .ok (c, taken) => .ok (c, taken + 1)
  | mark :: _ =>
    match Text.shortEscape? mark with
    | some c => .ok (c, 1)
    | none => .error (.malformed .badEscape offset)

/-- The characters of a string after its opening quote, and the place after its closing one. -/
def scanQuoted : List Char → Nat → Except Fault (List Char × Place)
  | [], _ => .error .endOfInput
  | c :: rest, offset =>
    if c = '"' then .ok ([], ⟨rest, offset + 1⟩)
    else if c = '\\' then
      match scanEscape rest (offset + 1) with
      | .error fault => .error fault
      | .ok (decoded, taken) =>
        match scanQuoted (rest.drop taken) (offset + 1 + taken) with
        | .error fault => .error fault
        | .ok (chars, place) => .ok (decoded :: chars, place)
    else if c.toNat < 0x20 then .error (.malformed .bareControl offset)
    else
      match scanQuoted rest (offset + c.utf8Size) with
      | .error fault => .error fault
      | .ok (chars, place) => .ok (c :: chars, place)
termination_by chars => chars.length
decreasing_by all_goals simp only [List.length_drop, List.length_cons]; omega

/-- A string from its opening quote on. -/
def scanString (place : Place) : Except Fault (String × Place) :=
  match scanQuoted (place.rest.drop 1) (place.offset + 1) with
  | .error fault => .error fault
  | .ok (chars, after) => .ok (String.ofList chars, after)

def scanNumber (place : Place) : Except Fault (Json.NumberLiteral × Place) :=
  match Json.NumberLiteral.scan place.rest with
  | .error fitting => .error (.malformed .badNumber (place.offset + fitting))
  | .ok (literal, rest) => .ok (literal, ⟨rest, place.offset + literal.chars.length⟩)

end TaggedJson.Pull
