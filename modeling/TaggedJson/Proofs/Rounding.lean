import Mathlib.Algebra.Order.Ring.Nat
import Mathlib.Data.Nat.Log
import Mathlib.Tactic.Ring
import TaggedJson.Decimal.Shortest
/-! The shortest decimal of a double reads back as that double: on a grid because reading it back
was tried, and as the last resort because the exact value is taken. -/
namespace TaggedJson.Double

theorem roundQuotient_scale (numerator denominator : Nat) {k : Nat} (positive : 0 < k) :
    roundQuotient (numerator * k) (denominator * k) = roundQuotient numerator denominator := by
  unfold roundQuotient
  have quotient : numerator * k / (denominator * k) = numerator / denominator :=
    Nat.mul_div_mul_right _ _ positive
  have remainder : numerator * k % (denominator * k) = numerator % denominator * k :=
    Nat.mul_mod_mul_right ..
  have doubled : 2 * (numerator % denominator * k) = 2 * (numerator % denominator) * k :=
    (Nat.mul_assoc ..).symm
  simp only [quotient, remainder, doubled, Nat.mul_lt_mul_right positive]

/-- Only the quotient matters. -/
theorem rankOfUnits_scale (numerator denominator : Nat) {k : Nat} (positive : 0 < k) :
    rankOfUnits (numerator * k) (denominator * k) = rankOfUnits numerator denominator := by
  unfold rankOfUnits
  simp only [Nat.mul_div_mul_right _ _ positive, Nat.mul_right_comm denominator k,
    roundQuotient_scale _ _ positive]

theorem roundQuotient_exact (quotient : Nat) {k : Nat} (positive : 0 < k) :
    roundQuotient (quotient * k) k = quotient := by
  unfold roundQuotient
  simp [Nat.mul_div_cancel _ positive, positive]

/-- The first two blocks count the units one by one. -/
theorem significand_small (rank : Nat) (small : rank < 2 ^ 53) :
    shiftOf rank = 0 ∧ significandOf rank = rank := by
  have shift : shiftOf rank = 0 := by
    simp only [shiftOf, Nat.pow_eq]
    omega
  exact ⟨shift, by simp [significandOf, shift]⟩

/-- A rank from the second block on has a significand of 53 bits. -/
theorem significand_large (rank : Nat) (large : 2 ^ 53 ≤ rank) :
    2 ^ 52 ≤ significandOf rank ∧ significandOf rank < 2 ^ 53 ∧
      shiftOf rank * 2 ^ 52 + significandOf rank = rank := by
  simp only [significandOf, shiftOf, Nat.pow_eq]
  omega

theorem log2_units {rank : Nat} (large : 2 ^ 53 ≤ rank) :
    (unitsOf rank).log2 = shiftOf rank + 52 := by
  obtain ⟨least, below, -⟩ := significand_large rank large
  have positive : 0 < 2 ^ shiftOf rank := Nat.two_pow_pos _
  have set : unitsOf rank ≠ 0 := by
    exact Nat.mul_ne_zero (by omega) positive.ne'
  apply (Nat.log2_eq_iff set).mpr
  constructor
  · rw [Nat.pow_add, Nat.mul_comm]
    exact Nat.mul_le_mul_right _ least
  · rw [Nat.add_assoc, Nat.pow_add, Nat.mul_comm]
    exact Nat.mul_lt_mul_of_pos_right below positive

theorem log2_small {units : Nat} (small : units < 2 ^ 53) : units.log2 ≤ 52 := by
  by_cases zero : units = 0
  · rw [zero]
    decide
  · exact Nat.le_of_lt_succ ((Nat.log2_lt zero).mpr small)

/-- The magnitude of a rank has that rank, in whatever unit it is measured. -/
theorem rankOfUnits_units (rank : Nat) {k : Nat} (positive : 0 < k) :
    rankOfUnits (unitsOf rank * k) k = rank := by
  simp only [rankOfUnits, Nat.mul_div_cancel _ positive, Nat.pow_eq]
  by_cases large : 2 ^ 53 ≤ rank
  · obtain ⟨-, -, whole⟩ := significand_large rank large
    rw [log2_units large, Nat.add_sub_cancel, unitsOf, Nat.pow_eq, Nat.mul_assoc,
      Nat.mul_comm (2 ^ shiftOf rank),
      roundQuotient_exact _ (Nat.mul_pos positive (Nat.two_pow_pos _)), whole]
  · obtain ⟨shift, significand⟩ := significand_small rank (Nat.lt_of_not_le large)
    have units : unitsOf rank = rank := by
      rw [unitsOf, shift, significand, Nat.pow_eq, Nat.pow_zero, Nat.mul_one]
    have none : rank.log2 - 52 = 0 :=
      Nat.sub_eq_zero_of_le (log2_small (Nat.lt_of_not_le large))
    rw [units, none, Nat.pow_zero, Nat.mul_one, roundQuotient_exact _ positive, Nat.zero_mul,
      Nat.zero_add]

theorem units_pos {rank : Nat} (set : rank ≠ 0) : 0 < unitsOf rank := by
  -- Without units the rank that comes back would be that of zero.
  by_contra none
  have zero := rankOfUnits_units rank (k := 1) (by decide)
  rw [Nat.eq_zero_of_not_pos none] at zero
  exact set zero.symm

/-- Short of the powers that are never computed, a decimal with places is a quotient. -/
theorem rank_places {digits : Nat} (places : Nat) (set : digits ≠ 0) (some : 0 < places)
    (within : places ≤ 400 + digits.log2) : (Decimal.mk digits (-places)).rank =
      rankOfUnits (digits * unitsPerOne) (10 ^ places) := by
  unfold Decimal.rank
  rw [if_neg set, if_neg (by simp only; omega), if_neg (by simp only; omega),
    if_neg (by simp only; omega)]
  simp only [Int.neg_neg, Int.toNat_natCast, Nat.pow_eq]

theorem le_log2_fives {units : Nat} (set : 0 < units) (places : Nat) :
    places ≤ (units * 5 ^ places).log2 := by
  have fives : 0 < 5 ^ places := Nat.pow_pos (by decide)
  apply (Nat.le_log2 (Nat.mul_pos set fives).ne').mpr
  calc 2 ^ places ≤ 5 ^ places := Nat.pow_le_pow_left (by decide) _
    _ ≤ units * 5 ^ places := Nat.le_mul_of_pos_left _ set

/-- A multiple of the unit, as a decimal with as many places as the unit has halvings. -/
theorem rank_halvings (rank : Nat) {halvings : Nat} (set : rank ≠ 0) (some : 0 < halvings)
    (unit : unitsPerOne = 2 ^ halvings) :
    (Decimal.mk (unitsOf rank * 5 ^ halvings) (-halvings)).rank = rank := by
  have units := units_pos set
  have digits : unitsOf rank * 5 ^ halvings ≠ 0 :=
    Nat.mul_ne_zero units.ne' (pow_ne_zero halvings (by decide))
  have long := le_log2_fives units halvings
  calc (Decimal.mk (unitsOf rank * 5 ^ halvings) (-halvings)).rank
      = rankOfUnits (unitsOf rank * 5 ^ halvings * unitsPerOne) (10 ^ halvings) :=
        rank_places _ digits some (by omega)
    _ = rankOfUnits (unitsOf rank * 10 ^ halvings) (10 ^ halvings) := by
        rw [Nat.mul_assoc, unit, ← Nat.mul_pow]
    _ = rank := rankOfUnits_units rank (Nat.pow_pos (by decide))

theorem exactDecimal_rank {rank : Nat} (set : rank ≠ 0) : (exactDecimal rank).rank = rank :=
  rank_halvings rank set (by decide) rfl

theorem roundQuotient_neighbour (numerator denominator : Nat) :
    roundQuotient numerator denominator = numerator / denominator ∨
      roundQuotient numerator denominator = numerator / denominator + 1 := by
  unfold roundQuotient
  simp only
  split
  · exact .inl rfl
  split
  · exact .inr rfl
  · omega

theorem onGrid_rank {rank : Nat} {exponent : Int} {found : Decimal}
    (tried : onGrid? rank exponent = some found) : found.rank = rank := by
  unfold onGrid? at tried
  simp only at tried
  split at tried
  · rename_i below above
    cases tried
    rcases roundQuotient_neighbour _ _ with same | same <;> rw [same]
    · exact eq_of_beq below
    · exact eq_of_beq above
  · cases tried
    exact eq_of_beq ‹_›
  · cases tried
    exact eq_of_beq ‹_›
  · cases tried

theorem searchGrids_rank {rank : Nat} (set : rank ≠ 0) (grids : Nat) (exponent : Int) :
    (searchGrids rank grids exponent).rank = rank := by
  induction grids generalizing exponent with
  | zero => exact exactDecimal_rank set
  | succ grids ih =>
    rw [searchGrids]
    cases tried : onGrid? rank exponent with
    | none => exact ih (exponent - 1)
    | some found => exact onGrid_rank tried

theorem shortest_rank (rank : Nat) : (shortest rank).rank = rank := by
  unfold shortest
  split
  · rename_i zero
    rw [zero]
    rfl
  · exact searchGrids_rank ‹_› ..

/-- A zero after the point changes nothing. -/
theorem rank_tenths {d : Decimal} (whole : 0 ≤ d.exponent) (finite : d.rank < infiniteRank) :
    (Decimal.mk (d.digits * 10 ^ (d.exponent.toNat + 1)) (-1)).rank = d.rank := by
  by_cases none : d.digits = 0
  · simp [Decimal.rank, none]
  have set : d.digits * 10 ^ (d.exponent.toNat + 1) ≠ 0 :=
    Nat.mul_ne_zero none (Nat.pow_pos (by decide)).ne'
  -- With that many places before the point it would be an infinity.
  have near : ¬310 < d.exponent := by
    intro far
    rw [Decimal.rank, if_neg none, if_pos far] at finite
    exact Nat.lt_irrefl _ finite
  calc (Decimal.mk (d.digits * 10 ^ (d.exponent.toNat + 1)) (-1)).rank
      = rankOfUnits (d.digits * 10 ^ (d.exponent.toNat + 1) * unitsPerOne) (10 ^ 1) :=
        rank_places 1 set Nat.one_pos (by omega)
    _ = rankOfUnits (d.digits * 10 ^ d.exponent.toNat * unitsPerOne * 10) (1 * 10) := by
        rw [Nat.pow_succ, ← Nat.mul_assoc, Nat.mul_right_comm _ 10, Nat.pow_one, Nat.one_mul]
    _ = rankOfUnits (d.digits * 10 ^ d.exponent.toNat * unitsPerOne) 1 :=
        rankOfUnits_scale _ _ (by decide)
    _ = d.rank := by
        rw [Decimal.rank, if_neg none, if_neg near, if_neg (by omega), if_pos whole, Nat.pow_eq]

end TaggedJson.Double
