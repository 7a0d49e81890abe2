import TaggedJson.Decimal.Double
/-! Decimals scaled in double arithmetic: the digits become a double, which is multiplied or divided
by a power of ten. Each step rounds to the nearest double, so the result can lie beside the double
nearest to the decimal. Powers of ten end where the doubles end, and a smaller exponent takes two
divisions. -/
namespace TaggedJson

/-- The largest exponent whose power of ten is a double. -/
def widestPower : Nat := 308

namespace Double

/-- The rank nearest to the product of two magnitudes. -/
def productRank (left right : Nat) : Nat := rankOfUnits (unitsOf left * unitsOf right) unitsPerOne

/-- The rank nearest to the quotient of two magnitudes. -/
def quotientRank (left right : Nat) : Nat :=
  rankOfUnits (unitsOf left * unitsPerOne) (unitsOf right)

/-- The rank nearest to a power of ten. -/
def powerRank (exponent : Nat) : Nat := (Decimal.mk 1 exponent).rank

end Double

namespace Decimal
open Double

/-- A larger exponent than the widest is infinite, whatever the digits; one that two divisions
cannot cover is zero. -/
def scaledRank (d : Decimal) : Nat :=
  let start := (Decimal.mk d.digits 0).rank
  let down := (-d.exponent).toNat
  if d.digits = 0 then 0
  else if 0 ≤ d.exponent then
    if d.exponent ≤ widestPower then productRank start (powerRank d.exponent.toNat)
    else infiniteRank
  else if down ≤ widestPower then quotientRank start (powerRank down)
  else if down ≤ 2 * widestPower then
    quotientRank (quotientRank start (powerRank widestPower)) (powerRank (down - widestPower))
  else 0

/-- The double that scaling arrives at, or an infinity. -/
def scaled (negative : Bool) (d : Decimal) : Binary64 := .ofRank negative d.scaledRank

end Decimal
end TaggedJson
