import TaggedJson.Decimal.Double
/-! The shortest decimal that reads back as a given double. Grids of powers of ten are tried from
coarse to fine; the first on which a neighbour of the value reads back gives the fewest digits. -/
namespace TaggedJson.Double

/-- A power of ten above the magnitude: log10 2 lies just below 30103/100000. -/
def coarsestGrid (units : Nat) : Int :=
  ((units.log2 : Int) - 1073) * 30103 / 100000 + 2

/-- Numerator and denominator of a magnitude measured in steps of a grid. -/
def inGrid (units : Nat) (exponent : Int) : Nat × Nat :=
  if 0 ≤ exponent then (units, unitsPerOne * Nat.pow 10 exponent.toNat)
  else (units * Nat.pow 10 (-exponent).toNat, unitsPerOne)

/-- The neighbour on a grid that reads back: the nearer one if both do, the even one if neither is
nearer. -/
def onGrid? (rank : Nat) (exponent : Int) : Option Decimal :=
  let steps := inGrid (unitsOf rank) exponent
  let below : Decimal := ⟨steps.1 / steps.2, exponent⟩
  let above : Decimal := ⟨steps.1 / steps.2 + 1, exponent⟩
  let nearest := roundQuotient steps.1 steps.2
  match below.rank == rank, above.rank == rank with
  | true, true => some ⟨nearest, exponent⟩
  | true, false => some below
  | false, true => some above
  | false, false => none

/-- The exact value, the last resort of a search whose grids ran out. -/
def exactDecimal (rank : Nat) : Decimal := ⟨unitsOf rank * Nat.pow 5 1074, -1074⟩

def searchGrids (rank : Nat) : Nat → Int → Decimal
  | 0, _ => exactDecimal rank
  | grids + 1, exponent => (onGrid? rank exponent).getD (searchGrids rank grids (exponent - 1))

/-- Seventeen digits always read back and the first grid lies at most three above the leading
digit, so the search ends long before its grids do. -/
def shortest (rank : Nat) : Decimal :=
  if rank = 0 then ⟨0, 0⟩ else searchGrids rank 24 (coarsestGrid (unitsOf rank))

end TaggedJson.Double
