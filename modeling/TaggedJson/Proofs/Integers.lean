import TaggedJson.Proofs.Aftermath
import TaggedJson.Proofs.Calls
import TaggedJson.Proofs.Literals
import TaggedJson.Proofs.Nearest
import TaggedJson.Proofs.Paths
/-! The integer a number is taken for. A literal that spells an integer of 64 bits is taken for that
integer. Any other literal counts as the double that is nearest to what it denotes, so it is taken
for an integer that it does not denote where the rounding leads to one. -/
namespace TaggedJson

/-- The integers of 64 bits. -/
def IsInt64 (n : Int) : Prop := -2 ^ 63 ≤ n ∧ n < 2 ^ 63

theorem IsInt64.bounded {n : Int} (fits : IsInt64 n) : |(n : ℚ)| < 2 ^ 64 := by
  have bound : |n| < 2 ^ 64 := abs_lt.mpr (by unfold IsInt64 at fits; omega)
  exact_mod_cast bound

/-! What a literal denotes. -/
namespace Json.NumberLiteral

/-- The digits before the point, the places after it and the power of ten. -/
def value (literal : NumberLiteral) : ℚ :=
  signed literal.negative
    ((readDigits literal.whole + readDigits literal.fraction / 10 ^ literal.fraction.length) *
      10 ^ (literal.exponent.map Exponent.value).getD 0)

theorem value_magnitude (literal : NumberLiteral) :
    literal.value = signed literal.negative literal.magnitude.value := by
  have ten : (10 : ℚ) ≠ 0 := by norm_num
  unfold value magnitude Decimal.value
  rw [readDigits_append, zpow_sub₀ ten, zpow_natCast]
  push_cast
  congr 1
  field_simp

theorem value_integral {literal : NumberLiteral} (plain : literal.isIntegral = true) :
    literal.value = literal.wholeValue := by
  obtain ⟨negative, whole, fraction, exponent⟩ := literal
  simp only [isIntegral, Bool.and_eq_true, List.isEmpty_iff, Option.isNone_iff_eq_none] at plain
  obtain ⟨rfl, rfl⟩ := plain
  cases negative <;> simp [value, wholeValue, signed, readDigits]

/-- A literal without point and exponent that stands for an integer of 64 bits. -/
def SpellsInt64 (literal : NumberLiteral) : Prop :=
  literal.isIntegral = true ∧ ∃ n : Int, IsInt64 n ∧ literal.value = n

end Json.NumberLiteral

namespace Pull
open Json (NumberLiteral)

/-! What a literal is taken for. -/

theorem int64Fits_iff {n : Int} : int64Fits n = true ↔ IsInt64 n := by
  simp only [int64Fits, IsInt64, Bool.and_eq_true, decide_eq_true_eq]
  exact Iff.rfl

theorem spells_iff {literal : NumberLiteral} : literal.SpellsInt64 ↔
    (literal.isIntegral && int64Fits literal.wholeValue) = true := by
  rw [Bool.and_eq_true, int64Fits_iff]
  constructor
  · rintro ⟨plain, n, fits, denoted⟩
    rw [Json.NumberLiteral.value_integral plain, Int.cast_inj] at denoted
    exact ⟨plain, denoted ▸ fits⟩
  · rintro ⟨plain, fits⟩
    exact ⟨plain, _, fits, Json.NumberLiteral.value_integral plain⟩

theorem int64Of?_spelled {literal : NumberLiteral} (spelled : literal.SpellsInt64) {n : Int} :
    int64Of? literal = some n ↔ literal.value = n := by
  rw [int64Of?, if_pos (spells_iff.mp spelled), Json.NumberLiteral.value_integral spelled.1,
    Int.cast_inj, Option.some.injEq]

theorem int64Of?_rounded {literal : NumberLiteral} (other : ¬literal.SpellsInt64) {n : Int} :
    int64Of? literal = some n ↔
      IsInt64 n ∧ ∃ d : Double, d.Nearest literal.value ∧ d.value = n := by
  have denoted : int64Of? literal = some n ↔
      IsInt64 n ∧ ∃ d, literal.toBinary64 = .finite d ∧ d.value = n := by
    rw [int64Of?, if_neg fun spelled => other (spells_iff.mpr spelled)]
    cases read : literal.toBinary64 with
    | finite d =>
      simp [Option.filter_eq_some_iff, int64Fits_iff, Double.toInt?_iff, and_comm]
    | infinite negative => simp
    | nan => simp
  rw [denoted, Json.NumberLiteral.value_magnitude]
  exact and_congr_right fun fits => Decimal.reads_iff fits.bounded

/-- Where a literal denotes what a double stands for, nothing is lost by the rounding. -/
theorem int64Of?_exact {literal : NumberLiteral} {d : Double} (exact : literal.value = d.value)
    {n : Int} : int64Of? literal = some n ↔ IsInt64 n ∧ literal.value = n := by
  by_cases spelled : literal.SpellsInt64
  · rw [int64Of?_spelled spelled]
    refine ⟨fun denoted => ⟨?_, denoted⟩, And.right⟩
    obtain ⟨-, m, fits, same⟩ := spelled
    exact Int.cast_injective (same.symm.trans denoted) ▸ fits
  · rw [int64Of?_rounded spelled, exact]
    refine and_congr_right fun _ => ⟨?_, fun denoted => ?_⟩
    · rintro ⟨other, nearest, denoted⟩
      exact (Double.nearest_value_iff.mp nearest).symm.trans denoted
    · exact ⟨d, Double.nearest_value_iff.mpr rfl, denoted⟩

/-! What a reader takes a number for. -/

section
variable {literal : NumberLiteral} {c c' : Cursor}

theorem nextInt64_of (stands : (Event.number literal).Taken c c') {n : Int} :
    nextInt64 c = .ok n c' ↔ int64Of? literal = some n := by
  rw [nextInt64_iff]
  constructor
  · rintro ⟨other, taken, denoted⟩
    obtain ⟨⟨⟩, -⟩ := taken_unique stands taken
    exact denoted
  · exact fun denoted => ⟨literal, stands, denoted⟩

theorem nextLiteral_path {expected : Expected} {d : Cursor}
    (scanned : nextLiteral expected c = .ok literal d) : d.pathText = c.pathText := by
  obtain ⟨e, looked, lexeme⟩ := nextLiteral_iff.mp scanned
  obtain ⟨place, -, rfl⟩ := takeLexeme_iff.mp lexeme
  simp only [Cursor.pathText, looked_path looked]

/-- A number that is taken for no integer is reported as it is spelled. -/
theorem nextInt64_refuses (stands : (Event.number literal).Taken c c')
    (none : int64Of? literal = none) :
    ∃ d, nextInt64 c = .error (.notAnInt literal.text c.pathText) d := by
  obtain ⟨d, scanned, -⟩ := (number_taken_iff .int).mp stands
  refine ⟨d, bind_error.mpr (.inr ⟨literal, d, scanned, ?_⟩)⟩
  rw [none, ← nextLiteral_path scanned]
  rfl

/-- A literal that spells an integer of 64 bits is taken for it. Any other literal is taken for the
integer that the double nearest to it stands for, if that is one of 64 bits; so it is taken for what
it denotes where a double stands for that, as for every integer of up to 53 bits. All the rest is
refused. -/
theorem nextInt64_nearest (stands : (Event.number literal).Taken c c') :
    (literal.SpellsInt64 → ∀ n : Int, nextInt64 c = .ok n c' ↔ literal.value = n) ∧
    (¬literal.SpellsInt64 → ∀ n : Int, nextInt64 c = .ok n c' ↔
      IsInt64 n ∧ ∃ d : Double, d.Nearest literal.value ∧ d.value = n) ∧
    ((∃ d : Double, literal.value = d.value) → ∀ n : Int, nextInt64 c = .ok n c' ↔
      IsInt64 n ∧ literal.value = n) ∧
    (∀ n : Int, n.natAbs ≤ 2 ^ 53 → literal.value = n → nextInt64 c = .ok n c') ∧
    ((∀ n, nextInt64 c ≠ .ok n c') →
      ∃ d, nextInt64 c = .error (.notAnInt literal.text c.pathText) d) := by
  simp only [nextInt64_of stands, ne_eq]
  refine ⟨fun spelled n => int64Of?_spelled spelled, fun other n => int64Of?_rounded other,
    fun ⟨d, exact⟩ n => int64Of?_exact exact, fun n small denoted => ?_, fun refused => ?_⟩
  · obtain ⟨d, exact⟩ := Double.exists_value small
    refine (int64Of?_exact (denoted.trans exact.symm)).mpr ⟨?_, denoted⟩
    unfold IsInt64
    omega
  · exact nextInt64_refuses stands (Option.eq_none_iff_forall_ne_some.mpr refused)

end

theorem nextInt64_nearest_three : ∃ c', (Event.number ⟨false, ['3'], ['0'], none⟩).Taken
    (Cursor.ofText "3.0") c' ∧ nextInt64 (Cursor.ofText "3.0") = .ok 3 c' := by
  have stands : (Event.number ⟨false, ['3'], ['0'], none⟩).Taken (Cursor.ofText "3.0") _ :=
    ⟨_, rfl, _, rfl, rfl⟩
  have denoted : NumberLiteral.value ⟨false, ['3'], ['0'], none⟩ = (3 : Int) := by
    simp [NumberLiteral.value, signed, Json.readDigits, Json.appendDigit]
  exact ⟨_, stands, (nextInt64_nearest stands).2.2.2.1 3 (by decide) denoted⟩

/-- One more than 2^53 is an integer of 64 bits, but with a point it is taken for 2^53. -/
theorem nextInt64_inexact : ¬∀ (literal : NumberLiteral) (c c' : Cursor) (n : Int),
    (Event.number literal).Taken c c' →
      (nextInt64 c = .ok n c' ↔ IsInt64 n ∧ literal.value = n) := by
  intro exact
  have stands : (Event.number ⟨false, "9007199254740993".toList, ['0'], none⟩).Taken
      (Cursor.ofText "9007199254740993.0") _ := ⟨_, rfl, _, rfl, rfl⟩
  have taken : nextInt64 (Cursor.ofText "9007199254740993.0") = .ok 9007199254740992 _ :=
    (nextInt64_of stands).mpr (by decide +kernel)
  have denoted := ((exact _ _ _ _ stands).mp taken).2
  simp [NumberLiteral.value, signed, Json.readDigits, Json.appendDigit] at denoted

end Pull
end TaggedJson
