import TaggedJson.Decimal.Scaling
import TaggedJson.Json.Value
/-! Literals read into a word of 64 bits: as many digits as fit, scaled by a power of ten in double
arithmetic. A literal whose digits all fit keeps its magnitude, and only scaling rounds. This is how
the library that reads whole documents takes its numbers. It may miss the double nearest to a
literal, so whether a number comes back from its text is a condition wherever that matters. -/
namespace TaggedJson.Json

def wordLimit : Nat := Nat.pow 2 64

/-- A word with digits appended up to the first that does not fit, and what is left from there. -/
def fillWord (word : Nat) : List Char → Nat × List Char
  | [] => (word, [])
  | digit :: rest =>
    if appendDigit word digit < wordLimit then fillWord (appendDigit word digit) rest
    else (word, digit :: rest)

namespace NumberLiteral

/-- The digits of a literal in a word. A whole digit that is left over counts as a power of ten. The
fraction is appended to the word the whole digits left, so its first digit may fit where a whole
one did not; what is left over of it is dropped. -/
def inWord (literal : NumberLiteral) : Decimal :=
  let whole := fillWord 0 literal.whole
  let fraction := fillWord whole.1 literal.fraction
  let places := literal.fraction.length - fraction.2.length
  ⟨fraction.1, (literal.exponent.map Exponent.value).getD 0 + whole.2.length - places⟩

/-- A zero with a sign and nothing else. It is a double, as it is when written with a point. -/
def isSignedZero (literal : NumberLiteral) : Prop :=
  literal.isIntegral ∧ literal.negative ∧ literal.wholeValue = 0

instance (literal : NumberLiteral) : Decidable literal.isSignedZero :=
  inferInstanceAs (Decidable (_ ∧ _ ∧ _))

/-- An integral literal stays an integer as long as it fits; every other literal is scaled to a
double, and one that overflows on the way is no number. -/
def scaledNumber? (literal : NumberLiteral) : Option Number :=
  if fits : literal.isIntegral ∧ integerFits literal.wholeValue ∧ ¬literal.isSignedZero then
    some (.integer literal.wholeValue fits.2.1)
  else match literal.inWord.scaled literal.negative with
    | .finite value => some (.double value)
    | _ => none

end NumberLiteral

theorem le_appendDigits (word : Nat) (digits : List Char) :
    word ≤ digits.foldl appendDigit word := by
  induction digits generalizing word with
  | nil => exact Nat.le_refl word
  | cons digit rest ih =>
    have grows : word ≤ appendDigit word digit := by unfold appendDigit; omega
    exact Nat.le_trans grows (ih _)

theorem fillWord_of_fits {word : Nat} {digits : List Char}
    (fits : digits.foldl appendDigit word < wordLimit) :
    fillWord word digits = (digits.foldl appendDigit word, []) := by
  induction digits generalizing word with
  | nil => rfl
  | cons digit rest ih =>
    have small := Nat.lt_of_le_of_lt (le_appendDigits (appendDigit word digit) rest) fits
    rw [fillWord, if_pos small, ih fits]
    rfl

/-- A literal whose digits fit is held as it is. -/
theorem NumberLiteral.inWord_eq_magnitude {literal : NumberLiteral}
    (fits : readDigits (literal.whole ++ literal.fraction) < wordLimit) :
    literal.inWord = literal.magnitude := by
  have split : readDigits (literal.whole ++ literal.fraction) =
      literal.fraction.foldl appendDigit (literal.whole.foldl appendDigit 0) := List.foldl_append
  rw [split] at fits
  have whole := fillWord_of_fits (Nat.lt_of_le_of_lt (le_appendDigits _ literal.fraction) fits)
  simp [inWord, magnitude, whole, fillWord_of_fits fits, split]

end TaggedJson.Json
