import TaggedJson.Decimal.Shortest
/-! How the digits of a double are set out. That is up to the JSON library that prints documents,
and `documentLayout` is what one release of it does. Reading a number back takes no more than a
legible layout: another one may change the texts of documents, but not the values they are read
as. -/
namespace TaggedJson

/-- Which numbers stand in positional notation: with the value as d.ddd times 10^e, those with e
from `least` on and below `limit`. The others have an exponent. -/
structure NumberLayout where
  least : Int
  limit : Int
  /-- What an integral number in positional notation ends in. -/
  integralEnd : List Char
  /-- What comes between the digits and an exponent that is not negative. -/
  raised : List Char
  /-- What comes between the digits and the magnitude of a negative exponent. -/
  lowered : List Char

/-- Documents show numbers from 0.00001 on and below 10^16 in full; an integral double keeps one
decimal, and an exponent always has a sign. -/
def documentLayout : NumberLayout := ⟨-5, 16, ['.', '0'], ['e', '+'], ['e', '-']⟩

/-- What a layout needs for its texts to be literals, and literals of doubles. Which numbers stand
in full is left open, and so is whether an exponent that is not negative has a sign. -/
structure NumberLayout.Legible (layout : NumberLayout) : Prop where
  integralEnd : layout.integralEnd = ['.', '0']
  raised : layout.raised = ['e'] ∨ layout.raised = ['e', '+']
  lowered : layout.lowered = ['e', '-']

theorem documentLayout_legible : documentLayout.Legible := ⟨rfl, .inr rfl, rfl⟩

theorem NumberLayout.Legible.sign {layout : NumberLayout} (legible : layout.Legible) :
    layout.raised.tail = [] ∨ layout.raised.tail = ['+'] := by
  rcases legible.raised with raised | raised <;> rw [raised]
  · exact .inl rfl
  · exact .inr rfl

/-- Digits, with a point after the first if there are more. -/
def pointed : List Char → List Char
  | first :: second :: rest => first :: '.' :: second :: rest
  | digits => digits

def NumberLayout.place (layout : NumberLayout) (value : Decimal) : List Char :=
  let digits := Nat.toDigits 10 value.digits
  let scale : Int := value.exponent + digits.length - 1
  if layout.least ≤ scale ∧ scale < layout.limit then
    if 0 ≤ value.exponent then
      digits ++ List.replicate value.exponent.toNat '0' ++ layout.integralEnd
    else if 0 ≤ scale then
      digits.take (scale.toNat + 1) ++ '.' :: digits.drop (scale.toNat + 1)
    else '0' :: '.' :: (List.replicate (-scale - 1).toNat '0' ++ digits)
  else if 0 ≤ scale then pointed digits ++ layout.raised ++ Nat.toDigits 10 scale.toNat
  else pointed digits ++ layout.lowered ++ Nat.toDigits 10 (-scale).toNat

/-- The text of a double: its shortest digits, and a minus sign for every negative one, zero
included. -/
def Double.chars (d : Double) : List Char :=
  (if d.negative then ['-'] else []) ++ documentLayout.place (Double.shortest d.rank)

def Double.text (d : Double) : String := String.ofList d.chars

def Binary64.text : Binary64 → String
  | .finite value => value.text
  | .infinite negative => if negative then "-inf" else "inf"
  | .nan => "NaN"

end TaggedJson
