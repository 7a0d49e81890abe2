import TaggedJson.Proofs.Document
import TaggedJson.Pull.Lexeme
/-! Numbers are scanned by the grammar. A literal is found whole wherever what follows it cannot
belong to it. -/
namespace TaggedJson.Json

/-- Digits that a literal can have before the point. -/
def IsWhole (digits : List Char) : Prop := digits = ['0'] ∨
  ∃ first rest, digits = first :: rest ∧ first ≠ '0' ∧ IsDigits (first :: rest)

/-- An exponent that a literal can have. -/
def Exponent.Grammatical (power : Exponent) : Prop := (power.mark = 'e' ∨ power.mark = 'E') ∧
  (power.sign = [] ∨ power.sign = ['+'] ∨ power.sign = ['-']) ∧
  power.digits ≠ [] ∧ IsDigits power.digits

namespace NumberLiteral

/-- What may follow a literal without becoming part of it. -/
def Stops (rest : List Char) : Prop :=
  ∀ c ∈ rest.head?, c.isDigit = false ∧ c ≠ '.' ∧ c ≠ 'e' ∧ c ≠ 'E'

/-- What may follow a run of digits without becoming part of it. -/
def StopsDigits (rest : List Char) : Prop := ∀ c ∈ rest.head?, c.isDigit = false

theorem Stops.digits {rest : List Char} (stops : Stops rest) : StopsDigits rest :=
  fun c first => (stops c first).1

theorem isDigits_takeWhile (chars : List Char) : IsDigits (chars.takeWhile Char.isDigit) :=
  fun c member => by simpa using List.all_eq_true.mp (List.all_takeWhile (l := chars)) c member

theorem takeWhile_stops {rest : List Char} (stops : StopsDigits rest) :
    rest.takeWhile Char.isDigit = [] ∧ rest.dropWhile Char.isDigit = rest := by
  cases rest with
  | nil => exact ⟨rfl, rfl⟩
  | cons c rest => simp [stops c rfl]

theorem takeWhile_digits {digits rest : List Char} (all : IsDigits digits)
    (stops : StopsDigits rest) :
    (digits ++ rest).takeWhile Char.isDigit = digits ∧
      (digits ++ rest).dropWhile Char.isDigit = rest := by
  rw [List.takeWhile_append_of_pos all, List.dropWhile_append_of_pos all,
    (takeWhile_stops stops).1, (takeWhile_stops stops).2, List.append_nil]
  exact ⟨rfl, rfl⟩

/-! The parts of a literal as they are written. -/

def signChars (negative : Bool) : List Char := if negative then ['-'] else []

def fractionChars (fraction : List Char) : List Char :=
  if fraction.isEmpty then [] else '.' :: fraction

def exponentChars : Option Exponent → List Char
  | none => []
  | some power => power.mark :: (power.sign ++ power.digits)

theorem chars_parts (literal : NumberLiteral) : literal.chars = signChars literal.negative ++
    (literal.whole ++ (fractionChars literal.fraction ++ exponentChars literal.exponent)) := by
  unfold chars signChars fractionChars exponentChars
  cases literal.exponent <;> simp

/-! What a scan that succeeds has found. -/

theorem scanSign_parts (chars : List Char) :
    chars = signChars (scanSign chars).1 ++ (scanSign chars).2 := by
  unfold scanSign
  split <;> rfl

theorem scanWhole_ok {chars whole rest : List Char} (found : scanWhole chars = .ok (whole, rest)) :
    IsWhole whole ∧ chars = whole ++ rest := by
  unfold scanWhole at found
  split at found
  · cases found
  · rename_i c others
    split at found
    · rename_i zero
      cases found
      exact ⟨.inl (by rw [zero]), rfl⟩
    · rename_i zero
      split at found
      · rename_i digit
        cases found
        refine ⟨.inr ⟨c, _, rfl, zero, ?_⟩, by simp⟩
        intro d member
        rcases List.mem_cons.mp member with rfl | later
        · exact digit
        · exact isDigits_takeWhile _ d later
      · cases found

theorem scanFraction_ok {chars fraction rest : List Char}
    (found : scanFraction chars = .ok (fraction, rest)) :
    IsDigits fraction ∧ chars = fractionChars fraction ++ rest := by
  unfold scanFraction at found
  split at found
  · rename_i digits
    simp only at found
    split at found
    · cases found
    · rename_i some
      cases found
      refine ⟨isDigits_takeWhile _, ?_⟩
      simp [fractionChars, some]
  · cases found
    exact ⟨fun c member => (List.not_mem_nil member).elim, rfl⟩

theorem scanPowerSign_parts (chars : List Char) :
    ((scanPowerSign chars).1 = [] ∨ (scanPowerSign chars).1 = ['+'] ∨
      (scanPowerSign chars).1 = ['-']) ∧
      chars = (scanPowerSign chars).1 ++ (scanPowerSign chars).2 := by
  unfold scanPowerSign
  split <;> simp

theorem scanExponent_ok {chars rest : List Char} {exponent : Option Exponent}
    (found : scanExponent chars = .ok (exponent, rest)) :
    (∀ power, exponent = some power → power.Grammatical) ∧
      chars = exponentChars exponent ++ rest := by
  unfold scanExponent at found
  split at found
  · cases found
    exact ⟨by simp, rfl⟩
  · rename_i c others
    split at found
    · rename_i mark
      obtain ⟨sign, parts⟩ := scanPowerSign_parts others
      simp only at found
      split at found
      · cases found
      · rename_i some
        cases found
        refine ⟨?_, by simp only [exponentChars]; rw [List.cons_append, List.append_assoc,
          List.takeWhile_append_dropWhile, ← parts]⟩
        rintro _ ⟨rfl⟩
        exact ⟨mark, sign, by simpa using some, isDigits_takeWhile _⟩
    · cases found
      exact ⟨by simp, rfl⟩

theorem scan_ok {chars rest : List Char} {literal : NumberLiteral}
    (found : scan chars = .ok (literal, rest)) :
    literal.Grammatical ∧ chars = literal.chars ++ rest := by
  unfold scan at found
  simp only at found
  split at found
  · cases found
  · rename_i whole afterWhole scannedWhole
    split at found
    · cases found
    · rename_i fraction afterFraction scannedFraction
      split at found
      · cases found
      · rename_i exponent _ scannedExponent
        cases found
        obtain ⟨wholeParts, first⟩ := scanWhole_ok scannedWhole
        obtain ⟨fractionParts, second⟩ := scanFraction_ok scannedFraction
        obtain ⟨exponentParts, third⟩ := scanExponent_ok scannedExponent
        refine ⟨⟨wholeParts, fractionParts, exponentParts⟩, ?_⟩
        rw [chars_parts, List.append_assoc, List.append_assoc, List.append_assoc, ← third, ← second,
          ← first]
        exact scanSign_parts chars

/-! Literals that a scan finds. -/

theorem scanSign_chars (negative : Bool) {rest : List Char} (unsigned : rest.head? ≠ some '-') :
    scanSign (signChars negative ++ rest) = (negative, rest) := by
  cases negative with
  | true => rfl
  | false =>
    unfold signChars scanSign
    split
    · simp_all
    · rfl

theorem scanWhole_chars {whole rest : List Char}
    (shape : IsWhole whole) (stops : StopsDigits rest) :
    scanWhole (whole ++ rest) = .ok (whole, rest) := by
  rcases shape with rfl | ⟨first, others, rfl, nonzero, all⟩
  · rfl
  · have tail := takeWhile_digits (fun c member => all c (List.mem_cons_of_mem _ member)) stops
    simp [scanWhole, nonzero, all first List.mem_cons_self, tail.1, tail.2]

theorem scanFraction_chars {fraction rest : List Char} (all : IsDigits fraction)
    (stops : StopsDigits rest) (point : rest.head? ≠ some '.') :
    scanFraction (fractionChars fraction ++ rest) = .ok (fraction, rest) := by
  cases fraction with
  | nil =>
    unfold fractionChars scanFraction
    split
    · simp_all
    · rfl
  | cons digit others =>
    have tail := takeWhile_digits all stops
    simp only [List.cons_append] at tail
    simp [fractionChars, scanFraction, tail.1, tail.2]

theorem scanPowerSign_chars {sign digits rest : List Char}
    (shape : sign = [] ∨ sign = ['+'] ∨ sign = ['-']) (some : digits ≠ [])
    (all : IsDigits digits) :
    scanPowerSign (sign ++ (digits ++ rest)) = (sign, digits ++ rest) := by
  rcases shape with rfl | rfl | rfl
  · obtain ⟨first, others, rfl⟩ := List.exists_cons_of_ne_nil some
    have digit := all first List.mem_cons_self
    unfold scanPowerSign
    split
    · simp_all [Char.isDigit]
    · simp_all [Char.isDigit]
    · rfl
  · rfl
  · rfl

theorem scanExponent_chars {exponent : Option Exponent} {rest : List Char}
    (shape : ∀ power, exponent = some power → power.Grammatical) (stops : Stops rest) :
    scanExponent (exponentChars exponent ++ rest) = .ok (exponent, rest) := by
  cases exponent with
  | none =>
    cases rest with
    | nil => rfl
    | cons c rest =>
      have stop := stops c rfl
      simp [exponentChars, scanExponent, stop.2.2.1, stop.2.2.2]
  | some power =>
    obtain ⟨mark, sign, some, all⟩ := shape power rfl
    have tail := takeWhile_digits all stops.digits
    simp only [exponentChars, List.cons_append, List.append_assoc, scanExponent]
    rw [if_pos mark, scanPowerSign_chars sign some all]
    simp only [tail.1, tail.2]
    rw [if_neg (by simpa using some)]

theorem exponentChars_head {exponent : Option Exponent} {rest : List Char}
    (shape : ∀ power, exponent = some power → power.Grammatical) (stops : Stops rest) :
    ∀ c ∈ (exponentChars exponent ++ rest).head?, c.isDigit = false ∧ c ≠ '.' := by
  cases exponent with
  | none => exact fun c first => ⟨(stops c first).1, (stops c first).2.1⟩
  | some power =>
    rintro c first
    obtain rfl : power.mark = c := by simpa [exponentChars] using first
    rcases (shape power rfl).1 with mark | mark <;> rw [mark] <;> decide

theorem fractionChars_head {fraction rest : List Char}
    (stops : ∀ c ∈ rest.head?, c.isDigit = false ∧ c ≠ '.') :
    StopsDigits (fractionChars fraction ++ rest) := by
  cases fraction with
  | nil => exact fun c first => (stops c first).1
  | cons digit others =>
    intro c first
    obtain rfl : '.' = c := by simpa [fractionChars] using first
    decide

theorem whole_head {literal : NumberLiteral} (grammatical : literal.Grammatical) :
    ∃ first others, literal.whole = first :: others ∧ first.isDigit = true := by
  rcases grammatical.whole with zero | ⟨first, others, shape, -, all⟩
  · exact ⟨'0', [], zero, by decide⟩
  · exact ⟨first, others, shape, all first List.mem_cons_self⟩

theorem scan_chars {literal : NumberLiteral} (grammatical : literal.Grammatical)
    {rest : List Char} (stops : Stops rest) :
    scan (literal.chars ++ rest) = .ok (literal, rest) := by
  obtain ⟨first, others, shape, digit⟩ := whole_head grammatical
  have unsigned (tail : List Char) : (literal.whole ++ tail).head? ≠ some '-' := by
    rw [shape]
    intro minus
    cases minus
    simp [Char.isDigit] at digit
  -- Each part is found whole because what comes behind it cannot belong to it.
  have atExponent := exponentChars_head grammatical.exponent stops
  have point : (exponentChars literal.exponent ++ rest).head? ≠ some '.' :=
    fun dot => (atExponent '.' dot).2 rfl
  simp only [chars_parts, List.append_assoc, scan]
  rw [scanSign_chars _ (unsigned _)]
  simp only
  rw [scanWhole_chars grammatical.whole (fractionChars_head atExponent)]
  simp only
  rw [scanFraction_chars grammatical.fraction (fun c first => (atExponent c first).1) point]
  simp only
  rw [scanExponent_chars grammatical.exponent stops]

end NumberLiteral
end TaggedJson.Json

namespace TaggedJson.Pull
open Json

theorem scanNumber_ok {place after : Place} {literal : NumberLiteral}
    (found : scanNumber place = .ok (literal, after)) :
    (Lexeme.number literal).Spelled literal.chars ∧ place.rest = literal.chars ++ after.rest := by
  unfold scanNumber at found
  split at found
  · cases found
  · rename_i scanned
    cases found
    obtain ⟨grammatical, parts⟩ := NumberLiteral.scan_ok scanned
    exact ⟨.number grammatical, parts⟩

theorem scanNumber_spelled {place : Place} {literal : NumberLiteral} {chars rest : List Char}
    (spelled : (Lexeme.number literal).Spelled chars) (stands : place.rest = chars ++ rest)
    (stops : NumberLiteral.Stops rest) :
    ∃ further, scanNumber place = .ok (literal, ⟨rest, further⟩) := by
  cases spelled with
  | number grammatical =>
    refine ⟨place.offset + literal.chars.length, ?_⟩
    simp only [scanNumber, stands, NumberLiteral.scan_chars grammatical stops]

end TaggedJson.Pull
