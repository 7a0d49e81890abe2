/-! Finite doubles as ranks. The magnitudes a double can have are counted upward from zero, so the
rank determines the magnitude and equal doubles are equal data. All arithmetic is on naturals, in
units of 2^-1074, the distance of the smallest magnitudes from each other. -/
namespace TaggedJson

/-- The rank the first magnitude too large for a double would have. -/
def infiniteRank : Nat := 2047 * Nat.pow 2 52

structure Double where
  negative : Bool
  rank : Nat
  finite : rank < infiniteRank
deriving DecidableEq

/-- What a number written in decimal can round to, and what arithmetic can leave behind. -/
inductive Binary64 where
  | finite (value : Double)
  | infinite (negative : Bool)
  | nan
deriving DecidableEq

/-- A magnitude in decimal: the digits times the power of ten. -/
structure Decimal where
  digits : Nat
  exponent : Int
deriving DecidableEq

namespace Double

def unitsPerOne : Nat := Nat.pow 2 1074

/-- Ranks come in blocks of 2^52; the magnitudes of a block are 2^shift units apart. -/
def shiftOf (rank : Nat) : Nat := rank / Nat.pow 2 52 - 1

def significandOf (rank : Nat) : Nat := rank - shiftOf rank * Nat.pow 2 52

/-- The magnitude of a rank in units. -/
def unitsOf (rank : Nat) : Nat := significandOf rank * Nat.pow 2 (shiftOf rank)

/-- The quotient to the nearest natural, a half to the even neighbour. -/
def roundQuotient (numerator denominator : Nat) : Nat :=
  let quotient := numerator / denominator
  let doubled := 2 * (numerator % denominator)
  if doubled < denominator then quotient
  else if denominator < doubled then quotient + 1
  -- Halfway, an odd quotient goes up to the even one.
  else quotient + quotient % 2

/-- The rank nearest to a quotient given in units. A quotient that rounds up to the end of its
block has reached the first rank of the next one, so one sum covers both. -/
def rankOfUnits (numerator denominator : Nat) : Nat :=
  let shift := (numerator / denominator).log2 - 52
  shift * Nat.pow 2 52 + roundQuotient numerator (denominator * Nat.pow 2 shift)

end Double

/-- Magnitudes from 10^311 are infinite and those below 10^-399 are zero, so no power of ten far
outside the range of doubles is ever computed. -/
def Decimal.rank (d : Decimal) : Nat :=
  if d.digits = 0 then 0
  else if 310 < d.exponent then infiniteRank
  else if d.exponent < -(400 + d.digits.log2 : Int) then 0
  else if 0 ≤ d.exponent then
    Double.rankOfUnits (d.digits * Nat.pow 10 d.exponent.toNat * Double.unitsPerOne) 1
  else Double.rankOfUnits (d.digits * Double.unitsPerOne) (Nat.pow 10 (-d.exponent).toNat)

/-- A magnitude given by its rank, or an infinity from the rank where the doubles end. -/
def Binary64.ofRank (negative : Bool) (rank : Nat) : Binary64 :=
  if finite : rank < infiniteRank then .finite ⟨negative, rank, finite⟩ else .infinite negative

/-- The nearest double, or an infinity from the point where the next magnitude would be nearer. -/
def Decimal.toBinary64 (negative : Bool) (d : Decimal) : Binary64 := .ofRank negative d.rank

namespace Double

def units (d : Double) : Nat := unitsOf d.rank

/-- The integer a double stands for, if it stands for one. -/
def toInt? (d : Double) : Option Int :=
  if d.units % unitsPerOne = 0 then
    let magnitude : Int := (d.units / unitsPerOne : Nat)
    some (if d.negative then -magnitude else magnitude)
  else none

end Double
end TaggedJson
