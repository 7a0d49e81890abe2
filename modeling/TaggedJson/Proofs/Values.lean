import TaggedJson.Proofs.Reference
import TaggedJson.Proofs.Rounding
/-! Which texts have a value, and which one. A text has the value of the document it spells, unless
that is nested too deep, repeats a name within an object or has a number no double reaches. -/
namespace TaggedJson.Double

/-- Each block of ranks doubles the units it reaches. -/
theorem rankOfUnits_le {units blocks : Nat} (small : units < 2 ^ (blocks + 53)) :
    rankOfUnits units 1 ≤ (blocks + 2) * 2 ^ 52 := by
  let shift := units.log2 - 52
  have near : shift ≤ blocks := by
    by_cases none : units = 0
    · simp [shift, none]
    · have := (Nat.log2_lt none).mpr small
      omega
  have quotient : units / 2 ^ shift < 2 ^ 53 := by
    apply Nat.div_lt_of_lt_mul
    rw [← Nat.pow_add]
    calc units < 2 ^ (units.log2 + 1) := Nat.lt_log2_self
      _ ≤ 2 ^ (shift + 53) := Nat.pow_le_pow_right (by decide) (by omega)
  have rounded : roundQuotient units (2 ^ shift) ≤ 2 * 2 ^ 52 := by
    rcases roundQuotient_neighbour units (2 ^ shift) with same | same <;> rw [same]
    · exact Nat.le_of_lt quotient
    · exact quotient
  calc rankOfUnits units 1 = shift * 2 ^ 52 + roundQuotient units (2 ^ shift) := by
        simp only [rankOfUnits, Nat.div_one, Nat.one_mul, Nat.pow_eq, shift]
    _ ≤ blocks * 2 ^ 52 + 2 * 2 ^ 52 := Nat.add_le_add (Nat.mul_le_mul_right _ near) rounded
    _ = (blocks + 2) * 2 ^ 52 := (Nat.add_mul ..).symm

/-- The rank of an integer, by its bits and those of the unit. -/
theorem rank_integer {digits bits halvings : Nat} (blocks : Nat) (small : digits < 2 ^ bits)
    (unit : unitsPerOne = 2 ^ halvings) (sum : bits + halvings = blocks + 53) :
    (Decimal.mk digits 0).rank ≤ (blocks + 2) * 2 ^ 52 := by
  by_cases none : digits = 0
  · rw [Decimal.rank, if_pos none]
    exact Nat.zero_le _
  · have units : digits * unitsPerOne < 2 ^ (blocks + 53) := by
      rw [unit, ← sum, Nat.pow_add]
      exact Nat.mul_lt_mul_of_pos_right small (Nat.two_pow_pos _)
    have below : ¬ (310 : Int) < 0 := by decide
    rw [Decimal.rank, if_neg none, if_neg below, if_neg (by simp only; omega),
      if_pos (Int.le_refl 0)]
    have power : digits * Nat.pow 10 (Int.toNat 0) = digits := Nat.mul_one digits
    rw [power]
    exact rankOfUnits_le units

end TaggedJson.Double

namespace TaggedJson.Json

/-- An integer of 64 bits is far below the largest double. -/
theorem NumberLiteral.finite_of_fits {literal : NumberLiteral}
    (integral : literal.isIntegral = true) (fits : integerFits literal.wholeValue) :
    ∃ value, literal.toBinary64 = .finite value := by
  have digits : readDigits literal.whole < 2 ^ 64 := by
    have least : Int.pow 2 63 = 2 ^ 63 := rfl
    have bound : Int.pow 2 64 = 2 ^ 64 := rfl
    rw [integerFits, NumberLiteral.wholeValue, least, bound] at fits
    split at fits <;> omega
  have magnitude : literal.magnitude = ⟨readDigits literal.whole, 0⟩ := by
    rw [isIntegral, Bool.and_eq_true, List.isEmpty_iff, Option.isNone_iff_eq_none] at integral
    simp [NumberLiteral.magnitude, integral]
  have rank : literal.magnitude.rank < infiniteRank := by
    rw [magnitude]
    apply Nat.lt_of_le_of_lt (Double.rank_integer 1085 digits Nat.pow_eq rfl)
    decide
  rw [toBinary64, Decimal.toBinary64, Binary64.ofRank, dif_pos rank]
  exact ⟨_, rfl⟩

theorem NumberLiteral.number_iff {literal : NumberLiteral} :
    (∃ number, literal.number? = some number) ↔ ∃ value, literal.toBinary64 = .finite value := by
  unfold number?
  split
  · rename_i fits
    exact iff_of_true ⟨_, rfl⟩ (finite_of_fits fits.1 fits.2)
  · cases literal.toBinary64 <;> simp

namespace Document

/-- A document, and every one that is an item or a member of a document within it. -/
inductive Holds : Document → Document → Prop
  | self (document : Document) : Holds document document
  | item {items : List Document} {item inner : Document} (listed : item ∈ items)
    (inside : Holds item inner) : Holds (.array items) inner
  | member {members : List (String × Document)} {member : String × Document} {inner : Document}
    (listed : member ∈ members) (inside : Holds member.2 inner) : Holds (.object members) inner

/-- What a document needs to have a value. -/
structure Valued (document : Document) : Prop where
  names : ∀ members, document.Holds (.object members) → (members.map Prod.fst).Nodup
  numbers : ∀ literal, document.Holds (.number literal) →
    ∃ value, literal.toBinary64 = .finite value

theorem valued_number {literal : NumberLiteral} :
    (Document.number literal).Valued ↔ ∃ value, literal.toBinary64 = .finite value := by
  constructor
  · intro valued
    exact valued.numbers literal (.self _)
  · intro finite
    refine ⟨nofun, fun other inside => ?_⟩
    cases inside
    exact finite

theorem valued_array {items : List Document} :
    (Document.array items).Valued ↔ ∀ item ∈ items, item.Valued := by
  constructor
  · intro valued item listed
    exact ⟨fun members inside => valued.names members (.item listed inside),
      fun literal inside => valued.numbers literal (.item listed inside)⟩
  · intro each
    constructor
    · rintro members (_ | ⟨listed, inside⟩)
      exact (each _ listed).names members inside
    · rintro literal (_ | ⟨listed, inside⟩)
      exact (each _ listed).numbers literal inside

theorem valued_object {members : List (String × Document)} :
    (Document.object members).Valued ↔
      (members.map Prod.fst).Nodup ∧ ∀ member ∈ members, member.2.Valued := by
  constructor
  · intro valued
    refine ⟨valued.names members (.self _), fun member listed => ?_⟩
    exact ⟨fun others inside => valued.names others (.member listed inside),
      fun literal inside => valued.numbers literal (.member listed inside)⟩
  · rintro ⟨distinct, each⟩
    constructor
    · rintro others (_ | _ | ⟨listed, inside⟩)
      · exact distinct
      · exact (each _ listed).names others inside
    · rintro literal (_ | _ | ⟨listed, inside⟩)
      exact (each _ listed).numbers literal inside

theorem memberValues_names : ∀ {members : List (String × Document)} {values : Members},
    memberValues? members = some values → values.map Prod.fst = members.map Prod.fst
  | [], values, made => by
    cases made
    rfl
  | (name, document) :: rest, values, made => by
    obtain ⟨value, -, more⟩ := Option.bind_eq_some_iff.mp made
    obtain ⟨others, found, rfl⟩ := Option.map_eq_some_iff.mp more
    rw [List.map_cons, List.map_cons, memberValues_names found]

mutual
theorem value_iff : ∀ document : Document,
    (∃ value, document.value? = some value) ↔ document.Valued
  | .null | .bool _ | .string _ =>
    iff_of_true ⟨_, rfl⟩ ⟨nofun, nofun⟩
  | .number literal => by
    rw [valued_number, ← NumberLiteral.number_iff, value?]
    simp
  | .array items => by
    rw [valued_array, ← itemValues_iff items, value?]
    simp
  | .object members => by
    rw [valued_object, ← memberValues_iff members, value?]
    constructor
    · rintro ⟨value, made⟩
      obtain ⟨values, found, made⟩ := Option.bind_eq_some_iff.mp made
      split at made
      · rename_i distinct
        rw [memberValues_names found] at distinct
        exact ⟨distinct, values, found⟩
      · cases made
    · rintro ⟨distinct, values, found⟩
      rw [← memberValues_names found] at distinct
      rw [found, Option.bind_some, if_pos distinct]
      exact ⟨_, rfl⟩

theorem itemValues_iff : ∀ items : List Document,
    (∃ values, itemValues? items = some values) ↔ ∀ item ∈ items, item.Valued
  | [] => iff_of_true ⟨_, rfl⟩ nofun
  | item :: rest => by
    rw [List.forall_mem_cons, ← value_iff item, ← itemValues_iff rest, itemValues?]
    cases value? item <;> cases itemValues? rest <;> simp

theorem memberValues_iff : ∀ members : List (String × Document),
    (∃ values, memberValues? members = some values) ↔ ∀ member ∈ members, member.2.Valued
  | [] => iff_of_true ⟨_, rfl⟩ nofun
  | (name, document) :: rest => by
    rw [List.forall_mem_cons, ← value_iff document, ← memberValues_iff rest, memberValues?]
    cases value? document <;> cases memberValues? rest <;> simp
end

end Document
end TaggedJson.Json

namespace TaggedJson.Hierarchy
open Json Pull

theorem decode_value_ok {text : String} {value : Value} :
    decodeDocument readValue text = .ok value ↔ ∃ document, Spells text document ∧
      document.depth ≤ depthLimit ∧ document.value? = some value := by
  rw [decodeDocument_ok]
  constructor
  · rintro ⟨c, ran, ended⟩
    obtain ⟨document, reads, made⟩ := readValue_iff.mp ran
    obtain ⟨spells, shallow⟩ := reads_text.mp ⟨c, reads, ended⟩
    exact ⟨document, spells, shallow, made⟩
  · rintro ⟨document, spells, shallow, made⟩
    obtain ⟨c, reads, ended⟩ := reads_text.mpr ⟨spells, shallow⟩
    exact ⟨c, readValue_iff.mpr ⟨document, reads, made⟩, ended⟩

/-- A text can be read when it spells a document with at most 128 levels of arrays and objects, no
name twice in one object and no number beyond the doubles. The value read is that of the document,
in which surrogates have been taken by pairs. -/
theorem decode_value_iff (text : String) :
    ((∃ value, decodeDocument readValue text = .ok value) ↔
      ∃ document, Spells text document ∧ document.depth ≤ 128 ∧ document.Valued) ∧
    ∀ value, decodeDocument readValue text = .ok value ↔
      ∃ document, Spells text document ∧ document.depth ≤ 128 ∧
        document.value? = some value := by
  refine ⟨?_, fun value => decode_value_ok⟩
  constructor
  · rintro ⟨value, decoded⟩
    obtain ⟨document, spells, shallow, made⟩ := decode_value_ok.mp decoded
    exact ⟨document, spells, shallow, document.value_iff.mp ⟨value, made⟩⟩
  · rintro ⟨document, spells, shallow, valued⟩
    obtain ⟨value, made⟩ := document.value_iff.mpr valued
    exact ⟨value, decode_value_ok.mpr ⟨document, spells, shallow, made⟩⟩

end TaggedJson.Hierarchy
