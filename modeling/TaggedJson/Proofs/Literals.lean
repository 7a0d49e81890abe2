import TaggedJson.Proofs.Numbers
import TaggedJson.Proofs.Rounding
/-! The literals that numbers are written as. Each is one by the grammar, and stands for the number
it was written from. -/
namespace TaggedJson.Json

/-! Digits. -/

theorem readDigits_eq (digits : List Char) : readDigits digits = Nat.ofDigitChars 10 digits 0 := by
  rw [Nat.ofDigitChars_eq_foldl]
  rfl

theorem readDigits_toDigits (n : Nat) : readDigits (Nat.toDigits 10 n) = n := by
  rw [readDigits_eq, Nat.ofDigitChars_ten_toDigits]

theorem readDigits_append (before after : List Char) : readDigits (before ++ after) =
    readDigits before * 10 ^ after.length + readDigits after := by
  rw [readDigits_eq, readDigits_eq, readDigits_eq, Nat.ofDigitChars_append,
    Nat.ofDigitChars_eq_ofDigitChars_zero, Nat.mul_comm]

theorem readDigits_zeros (zeros : Nat) : readDigits (List.replicate zeros '0') = 0 := by
  rw [readDigits_eq, Nat.ofDigitChars_replicate_zero, Nat.mul_zero]

theorem readDigits_zeros_before (zeros : Nat) (digits : List Char) :
    readDigits (List.replicate zeros '0' ++ digits) = readDigits digits := by
  rw [readDigits_append, readDigits_zeros, Nat.zero_mul, Nat.zero_add]

theorem readDigits_zeros_after (digits : List Char) (zeros : Nat) :
    readDigits (digits ++ List.replicate zeros '0') = readDigits digits * 10 ^ zeros := by
  rw [readDigits_append, readDigits_zeros, List.length_replicate, Nat.add_zero]

theorem isDigits_toDigits (n : Nat) : IsDigits (Nat.toDigits 10 n) :=
  fun _ member => Nat.isDigit_of_mem_toDigits (by decide) (by decide) member

theorem isDigits_zeros (zeros : Nat) : IsDigits (List.replicate zeros '0') := by
  intro c member
  rw [List.eq_of_mem_replicate member]
  rfl

theorem IsDigits.append {left right : List Char} (first : IsDigits left) (second : IsDigits right) :
    IsDigits (left ++ right) := fun c member =>
  (List.mem_append.mp member).elim (first c) (second c)

/-- No number but zero is written with a zero in front. -/
theorem toDigits_head {n : Nat} (set : n ≠ 0) :
    ∃ first rest, Nat.toDigits 10 n = first :: rest ∧ first ≠ '0' := by
  induction n using Nat.strongRecOn with
  | ind n ih =>
    -- The first digit is that of a tenth of the number, which is not zero from ten on.
    by_cases small : n < 10
    · have leading : ∀ digit < 10, digit ≠ 0 → digit.digitChar ≠ '0' := by decide
      exact ⟨n.digitChar, [], Nat.toDigits_of_lt_base small, leading n small set⟩
    · obtain ⟨first, rest, shape, nonzero⟩ := ih (n / 10) (by omega) (by omega)
      refine ⟨first, rest ++ [(n % 10).digitChar], ?_, nonzero⟩
      rw [Nat.toDigits_of_base_le (by decide) (Nat.le_of_not_lt small), shape]
      rfl

theorem isWhole_toDigits (n : Nat) : IsWhole (Nat.toDigits 10 n) := by
  by_cases zero : n = 0
  · rw [zero]
    exact .inl (Nat.toDigits_zero 10)
  · obtain ⟨first, rest, shape, nonzero⟩ := toDigits_head zero
    exact .inr ⟨first, rest, shape, nonzero, shape ▸ isDigits_toDigits n⟩

/-! Integers. -/

def integerLiteral (value : Int) : NumberLiteral :=
  ⟨value < 0, Nat.toDigits 10 value.natAbs, [], none⟩

theorem integerLiteral_chars (value : Int) : (integerLiteral value).chars = integerChars value := by
  simp [NumberLiteral.chars, integerLiteral, integerChars]

theorem integerLiteral_grammatical (value : Int) : (integerLiteral value).Grammatical :=
  ⟨isWhole_toDigits _, nofun, nofun⟩

theorem integerLiteral_value (value : Int) : (integerLiteral value).wholeValue = value := by
  simp only [NumberLiteral.wholeValue, integerLiteral, readDigits_toDigits, decide_eq_true_eq]
  split <;> omega

/-! Doubles. -/

/-- The literal a legible layout makes of a decimal. -/
def placedLiteral (layout : NumberLayout) (negative : Bool) (value : Decimal) : NumberLiteral :=
  let digits := Nat.toDigits 10 value.digits
  let scale : Int := value.exponent + digits.length - 1
  if layout.least ≤ scale ∧ scale < layout.limit then
    if 0 ≤ value.exponent then
      ⟨negative, digits ++ List.replicate value.exponent.toNat '0', ['0'], none⟩
    else if 0 ≤ scale then
      ⟨negative, digits.take (scale.toNat + 1), digits.drop (scale.toNat + 1), none⟩
    else ⟨negative, ['0'], List.replicate (-scale - 1).toNat '0' ++ digits, none⟩
  else if 0 ≤ scale then
    ⟨negative, digits.take 1, digits.drop 1,
      some ⟨'e', layout.raised.tail, Nat.toDigits 10 scale.toNat⟩⟩
  else ⟨negative, digits.take 1, digits.drop 1, some ⟨'e', ['-'], Nat.toDigits 10 (-scale).toNat⟩⟩

theorem pointed_split (digits : List Char) : pointed digits = digits.take 1 ++
    (if (digits.drop 1).isEmpty then [] else '.' :: digits.drop 1) := by
  cases digits with
  | nil => rfl
  | cons first rest => cases rest <;> rfl

theorem chars_point (negative : Bool) (whole : List Char) {fraction : List Char}
    (some : fraction ≠ []) : (⟨negative, whole, fraction, none⟩ : NumberLiteral).chars =
      (if negative then ['-'] else []) ++ (whole ++ '.' :: fraction) := by
  cases fraction with
  | nil => exact (some rfl).elim
  | cons first rest => simp [NumberLiteral.chars]

theorem chars_power (negative : Bool) (digits sign power : List Char) :
    (⟨negative, digits.take 1, digits.drop 1, some ⟨'e', sign, power⟩⟩ : NumberLiteral).chars =
      (if negative then ['-'] else []) ++ (pointed digits ++ ('e' :: (sign ++ power))) := by
  simp [NumberLiteral.chars, pointed_split]

/-- Where a point falls among digits, some of them follow it. -/
theorem drop_ne_nil {digits : List Char} {exponent : Int} (fractional : ¬0 ≤ exponent)
    (inside : 0 ≤ exponent + digits.length - 1) :
    digits.drop ((exponent + digits.length - 1).toNat + 1) ≠ [] := by
  rw [ne_eq, List.drop_eq_nil_iff]
  omega

theorem placedLiteral_chars {layout : NumberLayout} (legible : layout.Legible) (negative : Bool)
    (value : Decimal) : (placedLiteral layout negative value).chars =
      (if negative then ['-'] else []) ++ layout.place value := by
  obtain ⟨least, limit, integralEnd, raised, lowered⟩ := layout
  obtain ⟨rfl, raises, rfl⟩ := legible
  unfold placedLiteral NumberLayout.place
  have longer := Nat.length_toDigits_pos (b := 10) (n := value.digits)
  generalize Nat.toDigits 10 value.digits = digits at longer
  simp only
  split
  · split
    · rw [chars_point _ _ (by simp)]
    split
    · rw [chars_point _ _ (drop_ne_nil ‹_› ‹_›)]
    · rw [chars_point _ _ (List.append_ne_nil_of_right_ne_nil _ (List.ne_nil_of_length_pos longer))]
      rfl
  · split
    · rw [chars_power, List.append_assoc]
      rcases raises with rfl | rfl <;> rfl
    · rw [chars_power, List.append_assoc]
      rfl

theorem isWhole_take {digits : List Char} (whole : IsWhole digits) (more : Nat) :
    IsWhole (digits.take (more + 1)) := by
  rcases whole with rfl | ⟨first, rest, rfl, nonzero, all⟩
  · simp [IsWhole]
  · refine .inr ⟨first, rest.take more, rfl, nonzero, fun c member => all c ?_⟩
    exact List.mem_of_mem_take (i := more + 1) member

theorem isDigits_drop {digits : List Char} (all : IsDigits digits) (dropped : Nat) :
    IsDigits (digits.drop dropped) := fun c member => all c (List.mem_of_mem_drop member)

theorem isWhole_zeros {n zeros : Nat} (none : n = 0 → zeros = 0) :
    IsWhole (Nat.toDigits 10 n ++ List.replicate zeros '0') := by
  by_cases zero : n = 0
  · rw [none zero, List.replicate_zero, List.append_nil]
    exact isWhole_toDigits n
  · obtain ⟨first, rest, shape, nonzero⟩ := toDigits_head zero
    refine .inr ⟨first, rest ++ List.replicate zeros '0', by rw [shape]; rfl, nonzero, ?_⟩
    have all := (isDigits_toDigits n).append (isDigits_zeros zeros)
    rwa [shape] at all

theorem power_grammatical {sign : List Char} (signed : sign = [] ∨ sign = ['+'] ∨ sign = ['-'])
    (n : Nat) : ∀ power : Exponent, some ⟨'e', sign, Nat.toDigits 10 n⟩ = some power →
      power.Grammatical := by
  rintro _ ⟨⟩
  exact ⟨.inl rfl, signed, Nat.toDigits_ne_nil, isDigits_toDigits n⟩

theorem placedLiteral_grammatical {layout : NumberLayout} (legible : layout.Legible)
    (negative : Bool) {value : Decimal} (zero : value.digits = 0 → value.exponent = 0) :
    (placedLiteral layout negative value).Grammatical := by
  unfold placedLiteral
  have whole := isWhole_toDigits value.digits
  have all := isDigits_toDigits value.digits
  simp only
  split
  · split
    · exact ⟨isWhole_zeros fun none => by rw [zero none]; rfl, isDigits_zeros 1, nofun⟩
    split
    · exact ⟨isWhole_take whole _, isDigits_drop all _, nofun⟩
    · exact ⟨.inl rfl, (isDigits_zeros _).append all, nofun⟩
  · split
    · refine ⟨isWhole_take whole 0, isDigits_drop all 1, ?_⟩
      exact power_grammatical (legible.sign.imp_right Or.inl) _
    · exact ⟨isWhole_take whole 0, isDigits_drop all 1, power_grammatical (.inr (.inr rfl)) _⟩

/-- A literal without a point has an exponent. -/
theorem placedLiteral_fractional (layout : NumberLayout) (negative : Bool) (value : Decimal) :
    (placedLiteral layout negative value).isIntegral = false := by
  unfold placedLiteral
  have longer := Nat.length_toDigits_pos (b := 10) (n := value.digits)
  generalize Nat.toDigits 10 value.digits = digits at longer
  have point {fraction : List Char} (some : fraction ≠ []) (whole : List Char) :
      (⟨negative, whole, fraction, none⟩ : NumberLiteral).isIntegral = false := by
    rw [NumberLiteral.isIntegral, List.isEmpty_eq_false_iff.mpr some, Bool.false_and]
  have power (fraction : List Char) (power : Exponent) (whole : List Char) :
      (⟨negative, whole, fraction, some power⟩ : NumberLiteral).isIntegral = false := by
    rw [NumberLiteral.isIntegral, Option.isNone_some, Bool.and_false]
  simp only
  split
  · split
    · rfl
    split
    · exact point (drop_ne_nil ‹_› ‹_›) _
    · exact point (List.append_ne_nil_of_right_ne_nil _ (List.ne_nil_of_length_pos longer)) _
  · split <;> apply power

section Magnitudes
variable (negative : Bool) (digits : List Char)

/-- A point among the digits takes the digits behind it off the exponent. -/
theorem magnitude_split (place : Nat) (exponent : Option Exponent) :
    (⟨negative, digits.take place, digits.drop place, exponent⟩ : NumberLiteral).magnitude =
      ⟨readDigits digits,
        (exponent.map Exponent.value).getD 0 - (digits.length - place : Nat)⟩ := by
  rw [NumberLiteral.magnitude, List.take_append_drop, List.length_drop]

/-- Zeros behind the point only count as places. -/
theorem magnitude_below (zeros : Nat) :
    (⟨negative, ['0'], List.replicate zeros '0' ++ digits, none⟩ : NumberLiteral).magnitude =
      ⟨readDigits digits, -(zeros + digits.length : Nat)⟩ := by
  have none : readDigits (['0'] ++ (List.replicate zeros '0' ++ digits)) = readDigits digits := by
    show readDigits (List.replicate 1 '0' ++ (List.replicate zeros '0' ++ digits)) = _
    rw [readDigits_zeros_before, readDigits_zeros_before]
  rw [NumberLiteral.magnitude, none, List.length_append, List.length_replicate, Option.map_none,
    Option.getD_none, Int.zero_sub]

/-- Zeros in front of the point, and one behind it. -/
theorem magnitude_above (zeros : Nat) :
    (⟨negative, digits ++ List.replicate zeros '0', ['0'], none⟩ : NumberLiteral).magnitude =
      ⟨readDigits digits * 10 ^ (zeros + 1), -1⟩ := by
  have all : List.replicate zeros '0' ++ ['0'] = List.replicate (zeros + 1) '0' :=
    List.replicate_succ'.symm
  rw [NumberLiteral.magnitude, List.append_assoc, all, readDigits_zeros_after]
  rfl

theorem power_up {sign : List Char} (signed : sign = [] ∨ sign = ['+']) (n : Nat) :
    (⟨'e', sign, Nat.toDigits 10 n⟩ : Exponent).value = n := by
  have apart : sign ≠ ['-'] := by rcases signed with rfl | rfl <;> decide
  rw [Exponent.value, if_neg apart, readDigits_toDigits]

theorem power_down (n : Nat) : (⟨'e', ['-'], Nat.toDigits 10 n⟩ : Exponent).value = -n := by
  rw [Exponent.value, if_pos rfl, readDigits_toDigits]

end Magnitudes

/-- The literal has the same digits and exponent as the decimal, unless zeros take the place of the
exponent; then its last zero is a place of its own. -/
theorem placedLiteral_rank {layout : NumberLayout} (legible : layout.Legible) (negative : Bool)
    {value : Decimal} (finite : value.rank < infiniteRank) :
    (placedLiteral layout negative value).magnitude.rank = value.rank := by
  unfold placedLiteral
  have longer := Nat.length_toDigits_pos (b := 10) (n := value.digits)
  have read := readDigits_toDigits value.digits
  generalize Nat.toDigits 10 value.digits = digits at longer read
  have same {exponent : Int} (equal : exponent = value.exponent) :
      (Decimal.mk (readDigits digits) exponent).rank = value.rank := by
    rw [read, equal]
  simp only
  split
  · split
    · rename_i whole
      rw [magnitude_above, read]
      exact Double.rank_tenths whole finite
    split
    · rw [magnitude_split, Option.map_none, Option.getD_none]
      apply same
      omega
    · rw [magnitude_below]
      apply same
      omega
  · split
    · rw [magnitude_split, Option.map_some, Option.getD_some, power_up legible.sign]
      apply same
      omega
    · rw [magnitude_split, Option.map_some, Option.getD_some, power_down]
      apply same
      omega

theorem shortest_zero {rank : Nat} (zero : (Double.shortest rank).digits = 0) :
    (Double.shortest rank).exponent = 0 := by
  have none : rank = 0 := by
    rw [← Double.shortest_rank rank, Decimal.rank, if_pos zero]
  rw [none]
  rfl

/-- A double is read as it was from the shortest digits, however they are set out. -/
theorem placedLiteral_number {layout : NumberLayout} (legible : layout.Legible) (value : Double) :
    (placedLiteral layout value.negative (Double.shortest value.rank)).number? =
      some (.double value) := by
  obtain ⟨negative, rank, finite⟩ := value
  have shortest := Double.shortest_rank rank
  have magnitude := placedLiteral_rank legible negative (shortest.symm ▸ finite)
  have sign : (placedLiteral layout negative (Double.shortest rank)).negative = negative := by
    unfold placedLiteral
    simp only
    repeat' split
    all_goals rfl
  -- A literal with a point or an exponent is a double even if its value is whole.
  rw [NumberLiteral.number?, dif_neg (by simp [placedLiteral_fractional]),
    NumberLiteral.toBinary64, Decimal.toBinary64, sign, magnitude, shortest, Binary64.ofRank,
    dif_pos finite]

/-! Numbers. -/

def Number.literal : Number → NumberLiteral
  | .integer value _ => integerLiteral value
  | .double value => placedLiteral documentLayout value.negative (Double.shortest value.rank)

theorem Number.literal_chars (number : Number) : number.literal.chars = number.chars := by
  cases number with
  | integer value fits => exact integerLiteral_chars value
  | double value => exact placedLiteral_chars documentLayout_legible ..

theorem Number.literal_grammatical (number : Number) : number.literal.Grammatical := by
  cases number with
  | integer value fits => exact integerLiteral_grammatical value
  | double value => exact placedLiteral_grammatical documentLayout_legible _ shortest_zero

/-- A number that is written is read as it was. -/
theorem Number.literal_number (number : Number) : number.literal.number? = some number := by
  cases number with
  | integer value fits =>
    have fit : (integerLiteral value).isIntegral ∧ integerFits (integerLiteral value).wholeValue :=
      ⟨rfl, by rwa [integerLiteral_value]⟩
    rw [literal, NumberLiteral.number?, dif_pos fit]
    simp only [integerLiteral_value]
  | double value => exact placedLiteral_number documentLayout_legible value

end TaggedJson.Json
