import TaggedJson.Decimal.Double
/-! Number literals: their parts as written, what they stand for, and how one is found at the head
of a text. -/
namespace TaggedJson.Json

structure Exponent where
  mark : Char
  sign : List Char
  digits : List Char
deriving DecidableEq

def appendDigit (value : Nat) (digit : Char) : Nat := 10 * value + (digit.toNat - '0'.toNat)

def readDigits (digits : List Char) : Nat := digits.foldl appendDigit 0

def Exponent.value (power : Exponent) : Int :=
  if power.sign = ['-'] then -(readDigits power.digits : Int) else readDigits power.digits

/-- The parts of a literal. No digits after the point means that there is no point. -/
structure NumberLiteral where
  negative : Bool
  whole : List Char
  fraction : List Char
  exponent : Option Exponent
deriving DecidableEq

namespace NumberLiteral

def chars (literal : NumberLiteral) : List Char :=
  (if literal.negative then ['-'] else []) ++ literal.whole ++
    (if literal.fraction.isEmpty then [] else '.' :: literal.fraction) ++
    (match literal.exponent with
      | none => []
      | some power => power.mark :: (power.sign ++ power.digits))

def text (literal : NumberLiteral) : String := String.ofList literal.chars

/-- The magnitude a literal denotes, exactly. -/
def magnitude (literal : NumberLiteral) : Decimal :=
  ⟨readDigits (literal.whole ++ literal.fraction),
    (literal.exponent.map Exponent.value).getD 0 - literal.fraction.length⟩

def isIntegral (literal : NumberLiteral) : Bool :=
  literal.fraction.isEmpty && literal.exponent.isNone

/-- The value of a literal that has neither point nor exponent. -/
def wholeValue (literal : NumberLiteral) : Int :=
  if literal.negative then -(readDigits literal.whole : Int) else readDigits literal.whole

def toBinary64 (literal : NumberLiteral) : Binary64 :=
  literal.magnitude.toBinary64 literal.negative

/-! Scanning. A fault is the number of characters that fit the grammar before it. -/

def scanSign : List Char → Bool × List Char
  | '-' :: rest => (true, rest)
  | rest => (false, rest)

/-- A zero stands alone; any other first digit takes the digits after it along. -/
def scanWhole : List Char → Except Nat (List Char × List Char)
  | [] => .error 0
  | c :: rest =>
    if c = '0' then .ok ([c], rest)
    else if c.isDigit then .ok (c :: rest.takeWhile Char.isDigit, rest.dropWhile Char.isDigit)
    else .error 0

def scanFraction : List Char → Except Nat (List Char × List Char)
  | '.' :: rest =>
    let digits := rest.takeWhile Char.isDigit
    if digits.isEmpty then .error 1 else .ok (digits, rest.dropWhile Char.isDigit)
  | rest => .ok ([], rest)

def scanPowerSign : List Char → List Char × List Char
  | '+' :: rest => (['+'], rest)
  | '-' :: rest => (['-'], rest)
  | rest => ([], rest)

def scanExponent : List Char → Except Nat (Option Exponent × List Char)
  | [] => .ok (none, [])
  | c :: rest =>
    if c = 'e' ∨ c = 'E' then
      let signed := scanPowerSign rest
      let digits := signed.2.takeWhile Char.isDigit
      if digits.isEmpty then .error (1 + signed.1.length)
      else .ok (some ⟨c, signed.1, digits⟩, signed.2.dropWhile Char.isDigit)
    else .ok (none, c :: rest)

/-- The longest literal at the head of a text, and what follows it. -/
def scan (chars : List Char) : Except Nat (NumberLiteral × List Char) :=
  let signed := scanSign chars
  let before := if signed.1 then 1 else 0
  match scanWhole signed.2 with
  | .error fitting => .error (before + fitting)
  | .ok (whole, rest) =>
    let before := before + whole.length
    match scanFraction rest with
    | .error fitting => .error (before + fitting)
    | .ok (fraction, rest) =>
      let before := if fraction.isEmpty then before else before + 1 + fraction.length
      match scanExponent rest with
      | .error fitting => .error (before + fitting)
      | .ok (exponent, rest) => .ok (⟨signed.1, whole, fraction, exponent⟩, rest)

theorem scanWhole_length {chars whole rest : List Char}
    (found : scanWhole chars = .ok (whole, rest)) : rest.length < chars.length := by
  unfold scanWhole at found
  have shorter (tail : List Char) := (List.dropWhile_sublist (l := tail) Char.isDigit).length_le
  repeat' split at found
  all_goals first
    | cases found; done
    | (cases found
       simp only [List.length_cons]
       first | omega | exact Nat.lt_succ_of_le (shorter _))

theorem scanFraction_length {chars fraction rest : List Char}
    (found : scanFraction chars = .ok (fraction, rest)) : rest.length ≤ chars.length := by
  unfold scanFraction at found
  simp only at found
  repeat' split at found
  all_goals first
    | cases found; done
    | (cases found
       first | exact Nat.le_refl _ | exact Nat.le_succ_of_le (List.dropWhile_sublist _).length_le)

theorem scanPowerSign_length (chars : List Char) :
    (scanPowerSign chars).2.length ≤ chars.length := by
  unfold scanPowerSign
  split <;> simp

theorem scanExponent_length {chars rest : List Char} {exponent : Option Exponent}
    (found : scanExponent chars = .ok (exponent, rest)) : rest.length ≤ chars.length := by
  unfold scanExponent at found
  simp only at found
  repeat' split at found
  all_goals first
    | cases found; done
    | (cases found
       first
         | exact Nat.le_refl _
         | exact Nat.le_succ_of_le
             (Nat.le_trans (List.dropWhile_sublist _).length_le (scanPowerSign_length _)))

theorem scan_length {chars rest : List Char} {literal : NumberLiteral}
    (found : scan chars = .ok (literal, rest)) : rest.length < chars.length := by
  have sign : (scanSign chars).2.length ≤ chars.length := by
    unfold scanSign
    split <;> simp
  unfold scan at found
  simp only at found
  repeat' split at found
  all_goals first
    | cases found; done
    | (rename_i whole _ _ fraction _ _ power
       cases found
       have := scanWhole_length ‹_›
       have := scanFraction_length ‹_›
       have := scanExponent_length ‹_›
       omega)

end NumberLiteral
end TaggedJson.Json
