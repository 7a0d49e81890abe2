import Mathlib.Algebra.Order.Field.Rat
import Mathlib.Tactic.FieldSimp
import Mathlib.Tactic.Linarith
import Mathlib.Tactic.NormNum
import Mathlib.Tactic.Positivity
import TaggedJson.Proofs.Rounding
/-! The double a decimal reads as is the one nearest to it, and of two that are equally near the one
with the even rank. -/
namespace TaggedJson

/-! Quotients. -/
namespace Double

/-- A quotient is rounded by no more than a half, and by a half only to an even number. -/
theorem roundQuotient_half (numerator : Nat) {denominator : Nat} (positive : 0 < denominator) :
    |(numerator / denominator : ℚ) - roundQuotient numerator denominator| ≤ 1 / 2 ∧
      (|(numerator / denominator : ℚ) - roundQuotient numerator denominator| = 1 / 2 →
        roundQuotient numerator denominator % 2 = 0) := by
  have whole := Nat.div_add_mod numerator denominator
  have scale : (0 : ℚ) < denominator := by exact_mod_cast positive
  have less : ((numerator % denominator : Nat) : ℚ) < denominator := by
    exact_mod_cast Nat.mod_lt numerator positive
  unfold roundQuotient
  generalize numerator / denominator = quotient at *
  generalize numerator % denominator = rest at *
  have split : (numerator / denominator : ℚ) = quotient + rest / denominator := by
    rw [← whole]
    push_cast
    field_simp
  rw [split]
  simp only
  by_cases below : 2 * rest < denominator
  · have part : (rest / denominator : ℚ) < 1 / 2 := by
      rw [div_lt_iff₀ scale]
      have : (2 * rest : ℚ) < denominator := by exact_mod_cast below
      linarith
    rw [if_pos below, add_sub_cancel_left, abs_of_nonneg (by positivity)]
    exact ⟨part.le, fun tie => (part.ne tie).elim⟩
  rw [if_neg below]
  by_cases above : denominator < 2 * rest
  · have part : (1 / 2 : ℚ) < rest / denominator := by
      rw [lt_div_iff₀ scale]
      have : (denominator : ℚ) < 2 * rest := by exact_mod_cast above
      linarith
    have most : (rest / denominator : ℚ) < 1 := (div_lt_one scale).mpr less
    have distance : |(quotient + rest / denominator : ℚ) - (quotient + 1 : Nat)| =
        1 - rest / denominator := by
      push_cast
      rw [abs_of_nonpos (by linarith)]
      ring
    rw [if_pos above, distance]
    exact ⟨by linarith, fun tie => by linarith⟩
  · have part : (rest / denominator : ℚ) = 1 / 2 := by
      rw [div_eq_div_iff scale.ne' (by norm_num)]
      have : rest * 2 = 1 * denominator := by omega
      exact_mod_cast this
    have even : (quotient + quotient % 2) % 2 = 0 := by omega
    rw [if_neg above, part]
    refine ⟨?_, fun _ => even⟩
    rcases Nat.mod_two_eq_zero_or_one quotient with parity | parity <;> rw [parity] <;>
      push_cast <;> rw [abs_le] <;> constructor <;> linarith

/-- No natural is nearer to a quotient than the one it rounds to, and one as near is odd. -/
theorem roundQuotient_nearest (numerator : Nat) {denominator : Nat} (positive : 0 < denominator)
    (other : Nat) :
    |(numerator / denominator : ℚ) - roundQuotient numerator denominator| ≤
        |(numerator / denominator : ℚ) - other| ∧
      (other ≠ roundQuotient numerator denominator →
        |(numerator / denominator : ℚ) - other| =
          |(numerator / denominator : ℚ) - roundQuotient numerator denominator| →
        roundQuotient numerator denominator % 2 = 0 ∧ other % 2 = 1) := by
  obtain ⟨near, even⟩ := roundQuotient_half numerator positive
  generalize roundQuotient numerator denominator = rounded at *
  generalize (numerator / denominator : ℚ) = quotient at *
  by_cases same : other = rounded
  · exact ⟨by rw [same], fun apart => (apart same).elim⟩
  -- Another natural is a whole away from the rounded one, so a half or more from the quotient.
  have far : 1 / 2 ≤ |quotient - other| := by
    have bounds := abs_le.mp near
    rcases Nat.lt_or_gt_of_ne same with less | more
    · have step : (other : ℚ) + 1 ≤ rounded := by exact_mod_cast less
      exact le_abs.mpr (.inl (by linarith))
    · have step : (rounded : ℚ) + 1 ≤ other := by exact_mod_cast more
      exact le_abs.mpr (.inr (by linarith))
  refine ⟨near.trans far, fun _ tie => ?_⟩
  have half : |quotient - rounded| = 1 / 2 := le_antisymm near (tie ▸ far)
  have parity := even half
  have close : other ≤ rounded + 1 ∧ rounded ≤ other + 1 := by
    have bounds := abs_le.mp near
    have others := abs_le.mp (tie.trans half).le
    constructor
    · have : (other : ℚ) ≤ rounded + 1 := by linarith
      exact_mod_cast this
    · have : (rounded : ℚ) ≤ other + 1 := by linarith
      exact_mod_cast this
  omega

/-! Ranks. -/

/-- Of two numbers that are not above, the greater is nearer. -/
theorem nearer {number low high : ℚ} (less : low < high) (under : high ≤ number) :
    |number - high| < |number - low| := by
  rw [abs_of_nonneg (by linarith), abs_of_nonneg (by linarith)]
  linarith

/-- A rank is the block it falls in and the significand within the block. -/
theorem rank_parts (rank : Nat) : rank = shiftOf rank * 2 ^ 52 + significandOf rank ∧
    (shiftOf rank = 0 ∨ 2 ^ 52 ≤ significandOf rank) ∧ significandOf rank < 2 ^ 53 := by
  by_cases large : 2 ^ 53 ≤ rank
  · obtain ⟨least, most, whole⟩ := significand_large rank large
    exact ⟨whole.symm, .inr least, most⟩
  · have small := Nat.lt_of_not_le large
    obtain ⟨shift, significand⟩ := significand_small rank small
    rw [shift, significand]
    exact ⟨by omega, .inl rfl, small⟩

/-- What a block and a significand add up to, also at the end of the block. -/
theorem unitsOf_sum {shift significand : Nat} (least : shift = 0 ∨ 2 ^ 52 ≤ significand)
    (most : significand ≤ 2 ^ 53) :
    unitsOf (shift * 2 ^ 52 + significand) = significand * 2 ^ shift := by
  unfold unitsOf significandOf
  by_cases ended : significand = 2 ^ 53
  · have block : shiftOf (shift * 2 ^ 52 + significand) = shift + 1 := by
      simp only [shiftOf, Nat.pow_eq]
      omega
    have rest : shift * 2 ^ 52 + significand - (shift + 1) * 2 ^ 52 = 2 ^ 52 := by omega
    rw [block, Nat.pow_eq, Nat.pow_eq, rest, ended, Nat.pow_succ 2 shift]
    omega
  · have block : shiftOf (shift * 2 ^ 52 + significand) = shift := by
      simp only [shiftOf, Nat.pow_eq]
      omega
    rw [block, Nat.pow_eq, Nat.pow_eq, Nat.add_sub_cancel_left]

theorem sum_finite {shift significand : Nat} (block : shift ≤ 1074) (most : significand ≤ 2 ^ 53) :
    shift * 2 ^ 52 + significand < infiniteRank := by
  simp only [infiniteRank, Nat.pow_eq]
  omega

theorem unitsOf_zero : unitsOf 0 = 0 := rfl

theorem unitsOf_strictMono : StrictMono unitsOf := by
  intro low high less
  obtain ⟨lowWhole, -, lowMost⟩ := rank_parts low
  obtain ⟨highWhole, highLeast, -⟩ := rank_parts high
  unfold unitsOf
  rw [Nat.pow_eq, Nat.pow_eq]
  have blocks : shiftOf low ≤ shiftOf high := by
    simp only [shiftOf, Nat.pow_eq]
    omega
  generalize significandOf low = lowPart, significandOf high = highPart at *
  generalize shiftOf low = lowShift, shiftOf high = highShift at *
  rcases Nat.lt_or_eq_of_le blocks with later | same
  · have large : 2 ^ 52 ≤ highPart := highLeast.resolve_left (by omega)
    calc lowPart * 2 ^ lowShift
        < 2 ^ 53 * 2 ^ lowShift := Nat.mul_lt_mul_of_pos_right lowMost (Nat.two_pow_pos _)
      _ = 2 ^ 52 * 2 ^ (lowShift + 1) := by
        rw [Nat.pow_succ 2 lowShift]
        omega
      _ ≤ highPart * 2 ^ highShift :=
        Nat.mul_le_mul large (Nat.pow_le_pow_right (by decide) later)
  · rw [same]
    exact Nat.mul_lt_mul_of_pos_right (by omega) (Nat.two_pow_pos _)

/-- No magnitude is nearer to so many units than that of the rank, and one as near has an odd rank
where this one is even. -/
structure NearestRank (units : ℚ) (rank : Nat) : Prop where
  near (other : Nat) : |units - unitsOf rank| ≤ |units - unitsOf other|
  even (other : Nat) (apart : other ≠ rank)
    (tie : |units - unitsOf other| = |units - unitsOf rank|) : rank % 2 = 0 ∧ other % 2 = 1

/-- The block a quotient of units is rounded in: it begins no later than the quotient, unless it is
the first, and ends after it. -/
theorem shift_bounds (numerator : Nat) {denominator shift : Nat} (positive : 0 < denominator)
    (block : (numerator / denominator).log2 - 52 = shift) :
    (shift = 0 ∨ 2 ^ 52 * (denominator * 2 ^ shift) ≤ numerator) ∧
      numerator < 2 ^ 53 * (denominator * 2 ^ shift) := by
  have below : numerator / denominator < 2 ^ (shift + 53) := by
    apply Nat.lt_log2_self.trans_le
    exact Nat.pow_le_pow_right (by decide) (by omega)
  constructor
  · by_cases first : shift = 0
    · exact .inl first
    have set : numerator / denominator ≠ 0 := by
      intro none
      rw [none] at block
      exact first block.symm
    have least : 2 ^ (shift + 52) ≤ numerator / denominator :=
      (Nat.le_log2 set).mp (by omega)
    refine .inr ?_
    calc 2 ^ 52 * (denominator * 2 ^ shift) = 2 ^ (shift + 52) * denominator := by ring
      _ ≤ numerator := (Nat.le_div_iff_mul_le positive).mp least
  · calc numerator < 2 ^ (shift + 53) * denominator := (Nat.div_lt_iff_lt_mul positive).mp below
      _ = 2 ^ 53 * (denominator * 2 ^ shift) := by ring

/-- A quotient between two naturals is rounded to one between them. -/
theorem roundQuotient_bounds (numerator : Nat) {denominator : Nat} (positive : 0 < denominator) :
    (∀ least, least * denominator ≤ numerator → least ≤ roundQuotient numerator denominator) ∧
      ∀ most, numerator < most * denominator → roundQuotient numerator denominator ≤ most := by
  rcases roundQuotient_neighbour numerator denominator with rounded | rounded <;> rw [rounded]
  · exact ⟨fun least bound => (Nat.le_div_iff_mul_le positive).mpr bound,
      fun most bound => ((Nat.div_lt_iff_lt_mul positive).mpr bound).le⟩
  · exact ⟨fun least bound => ((Nat.le_div_iff_mul_le positive).mpr bound).trans (Nat.le_succ _),
      fun most bound => (Nat.div_lt_iff_lt_mul positive).mpr bound⟩

/-- A magnitude is on the grid of a block, with the parity of its rank if the block is its own, or
it is below the block. -/
theorem units_grid (rank shift : Nat) :
    (∃ count, unitsOf rank = count * 2 ^ shift ∧ (count % 2 = 1 → rank % 2 = 1)) ∨
      (shift ≠ 0 ∧ unitsOf rank < 2 ^ 52 * 2 ^ shift) := by
  obtain ⟨whole, -, most⟩ := rank_parts rank
  unfold unitsOf
  rw [Nat.pow_eq]
  generalize significandOf rank = part, shiftOf rank = own at *
  rcases Nat.lt_or_ge own shift with below | within
  · refine .inr ⟨by omega, ?_⟩
    calc part * 2 ^ own < 2 ^ 53 * 2 ^ own := Nat.mul_lt_mul_of_pos_right most (Nat.two_pow_pos _)
      _ = 2 ^ 52 * 2 ^ (own + 1) := by ring
      _ ≤ 2 ^ 52 * 2 ^ shift :=
        Nat.mul_le_mul_left _ (Nat.pow_le_pow_right (by decide) below)
  · obtain ⟨more, rfl⟩ := Nat.exists_eq_add_of_le within
    refine .inl ⟨part * 2 ^ more, by ring, fun odd => ?_⟩
    cases more with
    | zero =>
      rw [Nat.pow_zero, Nat.mul_one] at odd
      omega
    | succ more =>
      rw [Nat.pow_succ, ← Nat.mul_assoc, Nat.mul_mod_left] at odd
      cases odd

/-- Distances from the grid of a block are those of the quotient that is rounded, times its step. -/
theorem grid_distance (numerator : Nat) {denominator : Nat} (positive : 0 < denominator)
    (shift count : Nat) : |(numerator / denominator : ℚ) - (count * 2 ^ shift : Nat)| =
      |(numerator / (denominator * 2 ^ shift : Nat) : ℚ) - count| * 2 ^ shift := by
  have step : (0 : ℚ) < 2 ^ shift := by positivity
  have scaled : (numerator / denominator : ℚ) - (count * 2 ^ shift : Nat) =
      (numerator / (denominator * 2 ^ shift : Nat) - count) * 2 ^ shift := by
    push_cast
    field_simp
  rw [scaled, abs_mul, abs_of_pos step]

/-- A quotient of units has the rank of the nearest magnitude. -/
theorem rankOfUnits_nearest (numerator : Nat) {denominator : Nat} (positive : 0 < denominator) :
    NearestRank (numerator / denominator) (rankOfUnits numerator denominator) := by
  unfold rankOfUnits
  simp only [Nat.pow_eq]
  generalize block : (numerator / denominator).log2 - 52 = shift
  obtain ⟨begins, ends⟩ := shift_bounds numerator positive block
  have span : 0 < denominator * 2 ^ shift := Nat.mul_pos positive (Nat.two_pow_pos _)
  obtain ⟨atLeast, atMost⟩ := roundQuotient_bounds numerator span
  have units := unitsOf_sum (begins.imp_right (atLeast _)) (atMost _ ends)
  have nearest := roundQuotient_nearest numerator span
  generalize roundQuotient numerator (denominator * 2 ^ shift) = rounded at *
  have grid := grid_distance numerator positive shift
  have closest (count : Nat) : |(numerator / denominator : ℚ) - (rounded * 2 ^ shift : Nat)| ≤
      |(numerator / denominator : ℚ) - (count * 2 ^ shift : Nat)| := by
    rw [grid, grid]
    exact mul_le_mul_of_nonneg_right (nearest count).1 (by positivity)
  -- What is below the block is farther away than the start of the block, which is on the grid.
  have below {other : Nat} (first : shift ≠ 0) (under : unitsOf other < 2 ^ 52 * 2 ^ shift) :
      |(numerator / denominator : ℚ) - (rounded * 2 ^ shift : Nat)| <
        |(numerator / denominator : ℚ) - unitsOf other| := by
    apply (closest (2 ^ 52)).trans_lt
    have start : ((2 ^ 52 * 2 ^ shift : Nat) : ℚ) ≤ numerator / denominator := by
      rw [le_div_iff₀ (by exact_mod_cast positive)]
      have := begins.resolve_left first
      exact_mod_cast (by linarith : 2 ^ 52 * 2 ^ shift * denominator ≤ numerator)
    exact nearer (Nat.cast_lt.mpr under) start
  constructor
  · intro other
    rw [units]
    rcases units_grid other shift with ⟨count, on, -⟩ | ⟨first, under⟩
    · rw [on]
      exact closest count
    · exact (below first under).le
  · intro other apart tie
    rw [units] at tie
    rcases units_grid other shift with ⟨count, on, parity⟩ | ⟨first, under⟩
    · have distinct : count ≠ rounded := by
        rintro rfl
        exact apart (unitsOf_strictMono.injective (on.trans units.symm))
      rw [on, grid, grid] at tie
      obtain ⟨even, odd⟩ := (nearest count).2 distinct (mul_right_cancel₀ (by positivity) tie)
      exact ⟨by omega, parity odd⟩
    · exact ((below first under).ne' tie).elim

/-- Less than half a unit is nearest to none. -/
theorem nearestRank_zero {units : ℚ} (least : 0 ≤ units) (less : units < 1 / 2) :
    NearestRank units 0 := by
  have farther (other : Nat) (apart : other ≠ 0) :
      |units - unitsOf 0| < |units - unitsOf other| := by
    have one : (1 : ℚ) ≤ unitsOf other := by exact_mod_cast units_pos apart
    rw [unitsOf_zero, Nat.cast_zero, sub_zero, abs_of_nonneg least, abs_of_nonpos (by linarith)]
    linarith
  constructor
  · intro other
    by_cases same : other = 0
    · rw [same]
    · exact (farther other same).le
  · exact fun other apart tie => ((farther other apart).ne' tie).elim

/-- The magnitudes of lower ranks are all below the number. -/
theorem NearestRank.above {units : ℚ} {rank low : Nat} (nearest : NearestRank units rank)
    (less : low < rank) : (unitsOf low : ℚ) < units := by
  by_contra under
  have order : (unitsOf low : ℚ) < unitsOf rank := by exact_mod_cast unitsOf_strictMono less
  have near := nearest.near low
  rw [abs_of_nonpos (by linarith), abs_of_nonpos (by linarith)] at near
  linarith

/-- The unit is halved so often. The number of halvings is given a name so that the power is never
computed. -/
theorem units_halved : ∃ halvings, halvings = 1074 ∧ unitsPerOne = 2 ^ halvings := ⟨1074, rfl, rfl⟩

theorem units_finite {rank : Nat} (finite : rank < infiniteRank) :
    unitsOf rank < 2 ^ 1024 * unitsPerOne := by
  obtain ⟨whole, -, most⟩ := rank_parts rank
  have shift : shiftOf rank ≤ 2045 := by
    simp only [infiniteRank, Nat.pow_eq] at finite
    simp only [shiftOf, Nat.pow_eq]
    omega
  obtain ⟨halvings, count, unit⟩ := units_halved
  rw [unit, ← Nat.pow_add]
  calc unitsOf rank < 2 ^ 53 * 2 ^ shiftOf rank :=
        Nat.mul_lt_mul_of_pos_right most (Nat.two_pow_pos _)
    _ = 2 ^ (53 + shiftOf rank) := (Nat.pow_add ..).symm
    _ ≤ 2 ^ (1024 + halvings) := Nat.pow_le_pow_right (by decide) (by omega)

end Double

/-! Decimals. -/
namespace Decimal
open Double

/-- The number a decimal denotes. -/
def value (d : Decimal) : ℚ := d.digits * 10 ^ d.exponent

theorem value_nonneg (d : Decimal) : 0 ≤ d.value :=
  mul_nonneg (Nat.cast_nonneg _) (zpow_nonneg (by norm_num) _)

/-- What a decimal with places after the point denotes, as a quotient. -/
theorem value_places (digits places units : Nat) : (Decimal.mk digits (-places)).value * units =
    (digits * units : Nat) / (10 ^ places : Nat) := by
  simp only [value, zpow_neg, zpow_natCast]
  push_cast
  field_simp

/-- What a decimal with zeros before the point denotes, as a quotient. -/
theorem value_zeros (digits zeros units : Nat) : (Decimal.mk digits zeros).value * units =
    (digits * 10 ^ zeros * units : Nat) / (1 : Nat) := by
  simp only [value, zpow_natCast]
  push_cast
  ring

/-- So many places leave less than half a unit. -/
theorem places_vanish {digits places : Nat} (many : 400 + digits.log2 < places) :
    digits * unitsPerOne * 2 < 10 ^ places := by
  have tiny : 2 * unitsPerOne < 10 ^ 400 := by decide +kernel
  calc digits * unitsPerOne * 2 = digits * (2 * unitsPerOne) := by ring
    _ ≤ 2 ^ (digits.log2 + 1) * (2 * unitsPerOne) :=
      Nat.mul_le_mul_right _ Nat.lt_log2_self.le
    _ < 2 ^ (digits.log2 + 1) * 10 ^ 400 := Nat.mul_lt_mul_of_pos_left tiny (Nat.two_pow_pos _)
    _ ≤ 10 ^ (digits.log2 + 1) * 10 ^ 400 :=
      Nat.mul_le_mul_right _ (Nat.pow_le_pow_left (by decide) _)
    _ = 10 ^ (digits.log2 + 1 + 400) := (Nat.pow_add ..).symm
    _ ≤ 10 ^ places := Nat.pow_le_pow_right (by decide) (by omega)

/-- So many zeros are more than the greatest double. -/
theorem zeros_exceed {digits zeros : Nat} (set : digits ≠ 0) (many : 310 < zeros) :
    2 ^ 1024 ≤ digits * 10 ^ zeros := by
  have huge : 2 ^ 1024 ≤ 10 ^ 310 := by decide +kernel
  calc 2 ^ 1024 ≤ 10 ^ 310 := huge
    _ ≤ 10 ^ zeros := Nat.pow_le_pow_right (by decide) many.le
    _ ≤ digits * 10 ^ zeros := Nat.le_mul_of_pos_left _ (Nat.pos_of_ne_zero set)

/-- The rank of a decimal is that of the nearest magnitude, unless it is past every double and so is
the decimal. -/
theorem rank_nearest (d : Decimal) : NearestRank (d.value * unitsPerOne) d.rank ∨
    d.rank = infiniteRank ∧
      ∀ finite < infiniteRank, (unitsOf finite : ℚ) < d.value * unitsPerOne := by
  obtain ⟨digits, exponent⟩ := d
  unfold rank
  simp only [Nat.pow_eq]
  by_cases none : digits = 0
  · rw [if_pos none, value, none, Nat.cast_zero, zero_mul, zero_mul]
    exact .inl (nearestRank_zero le_rfl (by norm_num))
  rw [if_neg none]
  by_cases whole : 0 ≤ exponent
  · obtain ⟨zeros, rfl⟩ := Int.eq_ofNat_of_zero_le whole
    by_cases huge : 310 < (zeros : Int)
    · refine .inr ⟨if_pos huge, fun finite below => ?_⟩
      have large : 2 ^ 1024 ≤ digits * 10 ^ zeros := zeros_exceed none (by omega)
      rw [value_zeros, Nat.cast_one, div_one]
      exact Nat.cast_lt.mpr ((units_finite below).trans_le (Nat.mul_le_mul_right _ large))
    · rw [if_neg huge, if_neg (by omega), if_pos whole, Int.toNat_natCast, value_zeros]
      exact .inl (rankOfUnits_nearest _ Nat.one_pos)
  · obtain ⟨places, rfl⟩ := Int.exists_eq_neg_ofNat (Int.le_of_not_le whole)
    rw [if_neg (by omega), value_places]
    by_cases tiny : -(places : Int) < -(400 + digits.log2)
    · rw [if_pos tiny]
      have vanish : digits * unitsPerOne * 2 < 10 ^ places := places_vanish (by omega)
      refine .inl (nearestRank_zero (div_nonneg (Nat.cast_nonneg _) (Nat.cast_nonneg _)) ?_)
      rw [div_lt_div_iff₀ (Nat.cast_pos.mpr (Nat.pow_pos (by decide))) (by norm_num), one_mul]
      exact_mod_cast vanish
    · rw [if_neg tiny, if_neg whole, Int.neg_neg, Int.toNat_natCast]
      exact .inl (rankOfUnits_nearest _ (Nat.pow_pos (by decide)))

end Decimal

/-! Signs. -/

/-- A magnitude with its sign. -/
def signed (negative : Bool) (magnitude : ℚ) : ℚ := if negative then -magnitude else magnitude

theorem signed_same (negative : Bool) (left right : ℚ) :
    |signed negative left - signed negative right| = |left - right| := by
  cases negative
  · rfl
  · simp only [signed, if_true, neg_sub_neg]
    exact abs_sub_comm right left

theorem signed_apart {negative opposite : Bool} (apart : opposite ≠ negative) {left right : ℚ}
    (least : 0 ≤ left) (least' : 0 ≤ right) :
    |signed negative left - signed opposite right| = left + right := by
  have sum : 0 ≤ left + right := add_nonneg least least'
  cases negative <;> cases opposite <;> try exact (apart rfl).elim
  · simp only [signed, if_true, Bool.false_eq_true, if_false, sub_neg_eq_add]
    exact abs_of_nonneg sum
  · simp only [signed, if_true, Bool.false_eq_true, if_false]
    rw [abs_of_nonpos (by linarith)]
    ring

theorem abs_signed (negative : Bool) (magnitude : ℚ) :
    |signed negative magnitude| = |magnitude| := by
  cases negative
  · rfl
  · exact abs_neg magnitude

namespace Double

/-- The number a double stands for. -/
def value (d : Double) : ℚ := signed d.negative (d.units / unitsPerOne)

/-- No double is nearer to the number, and none that is as near has an even rank where this one has
an odd rank. The last bit of a rank is that of the significand. -/
structure Nearest (number : ℚ) (d : Double) : Prop where
  near (other : Double) : |number - d.value| ≤ |number - other.value|
  even (other : Double) (tie : |number - other.value| = |number - d.value|) :
    d.rank % 2 ≤ other.rank % 2

theorem unitsPerOne_pos : (0 : ℚ) < unitsPerOne := Nat.cast_pos.mpr (Nat.pow_pos (by decide))

theorem abs_value (d : Double) : |d.value| = d.units / unitsPerOne := by
  rw [value, abs_signed, abs_of_nonneg]
  exact div_nonneg (Nat.cast_nonneg _) unitsPerOne_pos.le

theorem value_rank {d other : Double} (same : d.value = other.value) : d.rank = other.rank := by
  have magnitudes := congrArg abs same
  rw [abs_value, abs_value, div_left_inj' unitsPerOne_pos.ne'] at magnitudes
  exact unitsOf_strictMono.injective (Nat.cast_injective magnitudes)

/-- To the value of a double nothing else is nearest. -/
theorem nearest_value_iff {d other : Double} : other.Nearest d.value ↔ other.value = d.value := by
  have here : |d.value - d.value| = 0 := by rw [sub_self, abs_zero]
  constructor
  · intro nearest
    have none := (nearest.near d).trans here.le
    exact (sub_eq_zero.mp (abs_nonpos_iff.mp none)).symm
  · intro same
    constructor
    · intro third
      rw [same, here]
      exact abs_nonneg _
    · intro third tie
      rw [same, here, abs_eq_zero, sub_eq_zero] at tie
      rw [value_rank (same.trans tie)]

section
variable {negative : Bool} {magnitude : ℚ} {d : Double}

/-- A double of the same sign is as far away as the magnitudes are from each other. -/
theorem distance_same (same : d.negative = negative) :
    |signed negative magnitude - d.value| =
      |magnitude * unitsPerOne - unitsOf d.rank| / unitsPerOne := by
  rw [value, same, signed_same, eq_div_iff unitsPerOne_pos.ne', ← abs_of_pos unitsPerOne_pos,
    ← abs_mul, abs_of_pos unitsPerOne_pos, sub_mul, div_mul_cancel₀ _ unitsPerOne_pos.ne']
  rfl

/-- A double of the other sign is at least as far away as zero. -/
theorem distance_apart (least : 0 ≤ magnitude) (apart : d.negative ≠ negative) :
    |signed negative magnitude - d.value| =
      (magnitude * unitsPerOne + unitsOf d.rank) / unitsPerOne := by
  have units : (0 : ℚ) ≤ d.units / unitsPerOne := div_nonneg (Nat.cast_nonneg _) unitsPerOne_pos.le
  rw [value, signed_apart apart least units, add_div, mul_div_cancel_right₀ _ unitsPerOne_pos.ne']
  rfl

theorem value_zero (none : d.rank = 0) : d.value = 0 := by
  have magnitude : |d.value| = 0 := by
    rw [abs_value, units, none, unitsOf_zero, Nat.cast_zero, zero_div]
  exact abs_eq_zero.mp magnitude

/-- To a number of its sign a double of the nearest rank is nearest. One that is as near is the same
or has an odd rank where this one is even. -/
theorem ranked_nearest (least : 0 ≤ magnitude) (same : d.negative = negative)
    (nearest : NearestRank (magnitude * unitsPerOne) d.rank) (other : Double) :
    |signed negative magnitude - d.value| ≤ |signed negative magnitude - other.value| ∧
      (|signed negative magnitude - other.value| = |signed negative magnitude - d.value| →
        other.value = d.value ∨ (d.rank % 2 = 0 ∧ other.rank % 2 = 1)) := by
  rw [distance_same same]
  by_cases alike : other.negative = negative
  · rw [distance_same alike, div_le_div_iff_of_pos_right unitsPerOne_pos,
      div_left_inj' unitsPerOne_pos.ne']
    refine ⟨nearest.near _, fun tie => ?_⟩
    by_cases equal : other.rank = d.rank
    · rw [value, value, alike, same, units, units, equal]
      exact .inl rfl
    · exact .inr (nearest.even _ equal tie)
  · rw [distance_apart least alike, div_le_div_iff_of_pos_right unitsPerOne_pos,
      div_left_inj' unitsPerOne_pos.ne']
    -- The other is no nearer than zero, which is a rank to compare with.
    have zero : |magnitude * unitsPerOne - unitsOf 0| = magnitude * unitsPerOne := by
      rw [unitsOf_zero, Nat.cast_zero, sub_zero]
      exact abs_of_nonneg (mul_nonneg least unitsPerOne_pos.le)
    have near := nearest.near 0
    have more : (0 : ℚ) ≤ unitsOf other.rank := Nat.cast_nonneg _
    refine ⟨by linarith, fun tie => ?_⟩
    have none : other.rank = 0 := by
      by_contra set
      have : (0 : ℚ) < unitsOf other.rank := Nat.cast_pos.mpr (units_pos set)
      linarith
    by_cases equal : d.rank = 0
    · exact .inl ((value_zero none).trans (value_zero equal).symm)
    · exact absurd (nearest.even 0 (Ne.symm equal) (by linarith)).2 (by decide)

/-- The doubles nearest to a number are those with the sign and the nearest rank. -/
theorem nearest_iff (least : 0 ≤ magnitude) (same : d.negative = negative)
    (nearest : NearestRank (magnitude * unitsPerOne) d.rank) (other : Double) :
    other.Nearest (signed negative magnitude) ↔ other.value = d.value := by
  have ranked := ranked_nearest least same nearest
  constructor
  · intro rival
    have tie := le_antisymm (rival.near d) (ranked other).1
    have parity := rival.even d tie.symm
    refine ((ranked other).2 tie).resolve_right ?_
    rintro ⟨even, odd⟩
    omega
  · intro equal
    constructor
    · intro third
      rw [equal]
      exact (ranked third).1
    · intro third tie
      rw [equal] at tie
      rcases (ranked third).2 tie with copy | ⟨even, odd⟩
      · rw [value_rank equal, value_rank copy]
      · rw [value_rank equal, even]
        exact Nat.zero_le _

/-- Past every double only the greatest magnitude is nearest. -/
theorem nearest_greatest (past : ∀ finite < infiniteRank,
    (unitsOf finite : ℚ) < magnitude * unitsPerOne)
    (nearest : d.Nearest (signed negative magnitude)) : infiniteRank ≤ d.rank + 1 := by
  by_contra less
  have finite : infiniteRank - 1 < infiniteRank := by omega
  have top := past _ finite
  have least : 0 ≤ magnitude := by
    have : 0 < magnitude * unitsPerOne := (Nat.cast_nonneg _).trans_lt top
    exact (pos_of_mul_pos_left this unitsPerOne_pos.le).le
  have near := nearest.near ⟨negative, infiniteRank - 1, finite⟩
  rw [distance_same (d := ⟨negative, infiniteRank - 1, finite⟩) rfl] at near
  have step : (unitsOf d.rank : ℚ) < unitsOf (infiniteRank - 1) :=
    Nat.cast_lt.mpr (unitsOf_strictMono (by omega))
  by_cases alike : d.negative = negative
  · rw [distance_same alike, div_le_div_iff_of_pos_right unitsPerOne_pos] at near
    exact absurd (nearer step top.le) (not_lt.mpr near)
  · rw [distance_apart least alike, div_le_div_iff_of_pos_right unitsPerOne_pos,
      abs_of_nonneg (by linarith)] at near
    have : (0 : ℚ) ≤ unitsOf d.rank := Nat.cast_nonneg _
    linarith

end

/-- The greatest magnitude is far past the integers of 64 bits. -/
theorem greatest_value {d : Double} (top : infiniteRank ≤ d.rank + 1) : 2 ^ 64 ≤ |d.value| := by
  obtain ⟨whole, large, most⟩ := rank_parts d.rank
  have shift : 2045 ≤ shiftOf d.rank := by
    simp only [infiniteRank, Nat.pow_eq] at top
    simp only [shiftOf, Nat.pow_eq]
    omega
  obtain ⟨halvings, count, unit⟩ := units_halved
  have bound : 2 ^ 64 * unitsPerOne ≤ d.units := by
    rw [unit, ← Nat.pow_add]
    calc 2 ^ (64 + halvings) ≤ 2 ^ (52 + shiftOf d.rank) :=
          Nat.pow_le_pow_right (by decide) (by omega)
      _ = 2 ^ 52 * 2 ^ shiftOf d.rank := Nat.pow_add ..
      _ ≤ d.units := Nat.mul_le_mul_right _ (large.resolve_left (by omega))
  rw [abs_value, le_div_iff₀ unitsPerOne_pos]
  exact_mod_cast bound

/-- A natural of at most 53 bits is doubled until it has them all. -/
theorem exists_doublings {count : Nat} (set : count ≠ 0) (small : count ≤ 2 ^ 53) :
    ∃ doublings ≤ 52, 2 ^ 52 ≤ count * 2 ^ doublings ∧ count * 2 ^ doublings ≤ 2 ^ 53 := by
  refine ⟨52 - count.log2, Nat.sub_le .., ?_, ?_⟩
  · calc 2 ^ 52 ≤ 2 ^ (count.log2 + (52 - count.log2)) :=
          Nat.pow_le_pow_right (by decide) (by omega)
      _ = 2 ^ count.log2 * 2 ^ (52 - count.log2) := Nat.pow_add ..
      _ ≤ count * 2 ^ (52 - count.log2) := Nat.mul_le_mul_right _ (Nat.log2_self_le set)
  · by_cases long : 52 < count.log2
    · rw [Nat.sub_eq_zero_of_le long.le, Nat.pow_zero, Nat.mul_one]
      exact small
    · calc count * 2 ^ (52 - count.log2) ≤ 2 ^ (count.log2 + 1) * 2 ^ (52 - count.log2) :=
            Nat.mul_le_mul_right _ Nat.lt_log2_self.le
        _ = 2 ^ (count.log2 + 1 + (52 - count.log2)) := (Nat.pow_add ..).symm
        _ ≤ 2 ^ 53 := Nat.pow_le_pow_right (by decide) (by omega)

theorem exists_units {count : Nat} (small : count ≤ 2 ^ 53) :
    ∃ rank < infiniteRank, unitsOf rank = count * unitsPerOne := by
  by_cases none : count = 0
  · exact ⟨0, by decide, by rw [none, Nat.zero_mul, unitsOf_zero]⟩
  obtain ⟨doublings, few, least, most⟩ := exists_doublings none small
  obtain ⟨halvings, many, unit⟩ := units_halved
  have block : halvings - doublings ≤ 1074 := by omega
  have total : doublings + (halvings - doublings) = halvings := by omega
  refine ⟨_, sum_finite block most, ?_⟩
  rw [unitsOf_sum (.inr least) most, unit, Nat.mul_assoc, ← Nat.pow_add, total]

theorem value_whole {d : Double} {count : Nat} (whole : d.units = count * unitsPerOne) :
    d.value = signed d.negative count := by
  rw [value, whole, Nat.cast_mul, mul_div_cancel_right₀ _ unitsPerOne_pos.ne']

theorem signed_natAbs (n : Int) : signed (n < 0) n.natAbs = n := by
  unfold signed
  simp only [decide_eq_true_eq]
  split
  · rw [Nat.cast_natAbs, abs_of_neg ‹_›, Int.cast_neg, neg_neg]
  · rw [Nat.cast_natAbs, abs_of_nonneg (not_lt.mp ‹_›)]

/-- Every integer of up to 53 bits is the value of a double. -/
theorem exists_value {n : Int} (small : n.natAbs ≤ 2 ^ 53) : ∃ d : Double, d.value = n := by
  obtain ⟨rank, finite, same⟩ := exists_units small
  have whole : units ⟨n < 0, rank, finite⟩ = n.natAbs * unitsPerOne := same
  exact ⟨_, (value_whole whole).trans (signed_natAbs n)⟩

theorem toInt?_iff {d : Double} {n : Int} : d.toInt? = some n ↔ d.value = n := by
  have denoted {count : Nat} (whole : d.units = count * unitsPerOne) :
      d.value = ((if d.negative then -count else count : Int) : ℚ) := by
    rw [value_whole whole, signed]
    split <;> simp
  unfold toInt?
  constructor
  · intro read
    split at read
    · rename_i exact
      rw [denoted (Nat.div_mul_cancel (Nat.dvd_of_mod_eq_zero exact)).symm]
      exact congrArg Int.cast (Option.some.inj read)
    · cases read
  · intro same
    have whole : d.units = n.natAbs * unitsPerOne := by
      have magnitude : |d.value| = n.natAbs := by rw [same, Nat.cast_natAbs, Int.cast_abs]
      rw [abs_value, div_eq_iff unitsPerOne_pos.ne'] at magnitude
      exact Nat.cast_injective (magnitude.trans (Nat.cast_mul ..).symm)
    rw [if_pos (by rw [whole, Nat.mul_mod_left]), whole,
      Nat.mul_div_cancel _ (Nat.cast_pos.mp unitsPerOne_pos)]
    exact congrArg some (Int.cast_injective ((denoted whole).symm.trans same))

end Double

namespace Decimal
open Double

theorem toBinary64_iff {negative : Bool} {d : Decimal} {found : Double} :
    d.toBinary64 negative = .finite found ↔ found.negative = negative ∧ found.rank = d.rank := by
  unfold toBinary64 Binary64.ofRank
  constructor
  · intro reads
    split at reads
    · cases reads
      exact ⟨rfl, rfl⟩
    · cases reads
  · rintro ⟨rfl, same⟩
    rw [dif_pos (same ▸ found.finite)]
    congr 1
    cases found
    cases same
    rfl

/-- What a decimal reads as is a double nearest to it, and the only one by value. Where the decimal
is past every double, it reads as none of them. -/
theorem reads_iff {negative : Bool} {d : Decimal} {number : ℚ} (inside : |number| < 2 ^ 64) :
    (∃ found, d.toBinary64 negative = .finite found ∧ found.value = number) ↔
      ∃ found : Double, found.Nearest (signed negative d.value) ∧ found.value = number := by
  have least := d.value_nonneg
  constructor
  · rintro ⟨found, reads, denoted⟩
    obtain ⟨sign, same⟩ := toBinary64_iff.mp reads
    refine ⟨found, ?_, denoted⟩
    rcases d.rank_nearest with nearest | ⟨infinite, -⟩
    · exact (nearest_iff least sign (same ▸ nearest) found).mpr rfl
    · exact absurd (same.trans infinite) found.finite.ne
  · rintro ⟨found, nearest, denoted⟩
    by_cases finite : d.rank < infiniteRank
    · refine ⟨⟨negative, d.rank, finite⟩, toBinary64_iff.mpr ⟨rfl, rfl⟩, ?_⟩
      have ranked := d.rank_nearest.resolve_right fun other => finite.ne other.1
      rw [← denoted]
      exact ((nearest_iff least (d := ⟨negative, d.rank, finite⟩) rfl ranked found).mp nearest).symm
    · have past : ∀ rank < infiniteRank, (unitsOf rank : ℚ) < d.value * unitsPerOne :=
        d.rank_nearest.elim (fun ranked rank below => ranked.above (by omega)) fun other => other.2
      have top := greatest_value (nearest_greatest past nearest)
      rw [denoted] at top
      exact absurd top (not_le.mpr inside)

end Decimal
end TaggedJson
