import TaggedJson.Lines.Report
import TaggedJson.Proofs.Printed
/-! What one run prints as the input of another. A text in which no line ends, and which has no
blanks at its ends, is a line of its own and comes through as it was. -/
namespace TaggedJson
open Json

/-! Text as bytes. -/

namespace Text

def toUtf8 (text : String) : List UInt8 := text.toByteArray.data.toList

theorem ofUtf8_toUtf8 (text : String) : ofUtf8? (toUtf8 text) = some text := by
  have whole : (⟨(toUtf8 text).toArray⟩ : ByteArray) = text.toByteArray := rfl
  rw [ofUtf8?, whole, String.fromUTF8?, dif_pos text.isValidUTF8]
  rfl

theorem toUtf8_append (left right : String) :
    toUtf8 (left ++ right) = toUtf8 left ++ toUtf8 right := by
  simp [toUtf8, String.toByteArray_append]

theorem toUtf8_eq (text : String) : toUtf8 text = text.toList.flatMap String.utf8EncodeChar := by
  rw [toUtf8, ← String.utf8Encode_toList]
  simp [List.utf8Encode]

theorem newline_eq {v : Nat} : newline = UInt8.ofNat v ↔ v % 256 = 10 := by
  rw [← UInt8.toNat_inj, UInt8.toNat_ofNat']
  exact eq_comm

/-- Only a newline is written with its byte: characters of several bytes have none below 128. -/
theorem newline_encoded {c : Char} (holds : newline ∈ String.utf8EncodeChar c) : c = '\n' := by
  unfold String.utf8EncodeChar at holds
  simp only at holds
  split at holds
  · have code : c.toNat = 10 := by
      have same := newline_eq.mp (List.mem_singleton.mp holds)
      show c.val.toNat = 10
      omega
    rw [← Char.ofNat_toNat c, code]
  · exfalso
    repeat' split at holds
    all_goals
      simp only [List.mem_cons, List.not_mem_nil, or_false, newline_eq] at holds
      omega

theorem newline_toUtf8 {text : String} (single : '\n' ∉ text.toList) :
    newline ∉ toUtf8 text := by
  rw [toUtf8_eq, List.mem_flatMap]
  rintro ⟨c, member, holds⟩
  exact single (newline_encoded holds ▸ member)

/-! Ends without blanks. -/

theorem dropBlanks_solid {c : Char} (solid : isBlank c = false) (rest : List Char) :
    dropBlanks (c :: rest) = c :: rest :=
  List.dropWhile_cons_of_neg (by simp [solid])

theorem trimBlanks_between {first last : Char} (left : isBlank first = false)
    (right : isBlank last = false) (inner : List Char) :
    trimBlanks (first :: (inner ++ [last])) = first :: (inner ++ [last]) := by
  have back : (first :: (inner ++ [last])).reverse = last :: (first :: inner).reverse := by simp
  rw [trimBlanks, dropBlanks_solid left, back, dropBlanks_solid right, ← back,
    List.reverse_reverse]

end Text

/-! Lines. -/

theorem splitLines_line {line : List UInt8} (single : newline ∉ line) (rest : List UInt8) :
    splitLines (line ++ newline :: rest) = line :: splitLines rest := by
  induction line with
  | nil => rw [List.nil_append, splitLines, if_pos rfl]
  | cons byte line ih =>
    rw [List.mem_cons, not_or] at single
    rw [List.cons_append, splitLines, if_neg (Ne.symm single.1), ih single.2]

/-- A text that is one line and nothing else. -/
structure Tidy (text : String) : Prop where
  single : '\n' ∉ text.toList
  trimmed : Text.trimBlanks text.toList = text.toList
  nonempty : text.isEmpty = false

theorem Tidy.document {text : String} (tidy : Tidy text) :
    documentOf? (Text.toUtf8 text) = some text := by
  rw [documentOf?, Text.ofUtf8_toUtf8, Option.map_some, tidy.trimmed, String.ofList_toList]

theorem linesText_cons (line : String) (rest : List String) :
    linesText (line :: rest) = line ++ ("\n" ++ linesText rest) := by
  rw [linesText, List.map_cons, String.join_cons, String.append_assoc]
  rfl

/-- What comes of texts that are each a line, the first of them with the given number. -/
def convertTexts {ε : Type} (convert : String → Except ε String) (number : Nat) :
    List String → Report ε
  | [] => .empty
  | text :: rest => (convertTexts convert (number + 1) rest).cons number (convert text)

/-- Printed texts come through one by one. -/
theorem convertLines_printed {ε : Type} (convert : String → Except ε String) (number : Nat)
    {texts : List String} (tidy : ∀ text ∈ texts, Tidy text) :
    convertLines convert number (splitLines (Text.toUtf8 (linesText texts))) =
      convertTexts convert number texts := by
  induction texts generalizing number with
  | nil => rfl
  | cons text rest ih =>
    obtain ⟨first, others⟩ := List.forall_mem_cons.mp tidy
    have bytes : Text.toUtf8 (linesText (text :: rest)) =
        Text.toUtf8 text ++ newline :: Text.toUtf8 (linesText rest) := by
      rw [linesText_cons, Text.toUtf8_append, Text.toUtf8_append]
      rfl
    rw [bytes, splitLines_line (Text.newline_toUtf8 first.single), convertLines, first.document]
    simp only [first.nonempty, Bool.false_eq_true, if_false, ih (number + 1) others]
    rfl

/-! Values are written without controls. -/

namespace Json

def Printable (chars : List Char) : Prop := ∀ c ∈ chars, 0x20 ≤ c.toNat

instance (chars : List Char) : Decidable (Printable chars) :=
  List.decidableBAll (fun c : Char => 0x20 ≤ c.toNat) chars

theorem printable_append {left right : List Char} (first : Printable left)
    (second : Printable right) : Printable (left ++ right) :=
  List.forall_mem_append.mpr ⟨first, second⟩

theorem printable_cons {c : Char} {chars : List Char} (first : 0x20 ≤ c.toNat)
    (rest : Printable chars) : Printable (c :: chars) :=
  List.forall_mem_cons.mpr ⟨first, rest⟩

theorem hexDigit_printable : ∀ n < 16, 0x20 ≤ (Text.hexDigit n).toNat := by decide

theorem escapeChar_printable (c : Char) : Printable (Text.escapeChar c) := by
  unfold Text.escapeChar
  repeat' split
  iterate 7 decide
  · rename_i control
    have first := hexDigit_printable (c.toNat / 16) (by omega)
    have second := hexDigit_printable (c.toNat % 16) (by omega)
    simp [Printable, first, second]
  · rename_i control
    exact printable_cons (by omega) nofun

theorem quoteChars_printable (text : String) : Printable (Text.quoteChars text.toList) := by
  have escaped : Printable (Text.escapeChars text.toList) := by
    intro c member
    obtain ⟨original, -, written⟩ := List.mem_flatMap.mp member
    exact escapeChar_printable original c written
  exact printable_cons (by decide) (printable_append escaped (by decide))

theorem isDigits_printable {digits : List Char} (all : IsDigits digits) : Printable digits := by
  intro c member
  have digit := all c member
  simp only [Char.isDigit, Bool.and_eq_true, decide_eq_true_eq] at digit
  have least : '0'.toNat ≤ c.toNat := digit.1
  exact Nat.le_trans (by decide) least

theorem exponentChars_printable {exponent : Option Exponent}
    (grammatical : ∀ power, exponent = some power → power.Grammatical) :
    Printable (NumberLiteral.exponentChars exponent) := by
  cases exponent with
  | none => nofun
  | some power =>
    obtain ⟨mark, sign, -, digits⟩ := grammatical power rfl
    have marked : 0x20 ≤ power.mark.toNat := by
      rcases mark with same | same <;> rw [same] <;> decide
    have signed : Printable power.sign := by
      rcases sign with same | same | same <;> rw [same] <;> decide
    exact printable_cons marked (printable_append signed (isDigits_printable digits))

theorem literal_printable {literal : NumberLiteral} (grammatical : literal.Grammatical) :
    Printable literal.chars := by
  have sign : Printable (NumberLiteral.signChars literal.negative) := by
    cases literal.negative <;> decide
  have whole : Printable literal.whole := by
    rcases grammatical.whole with zero | ⟨first, rest, shape, -, digits⟩
    · rw [zero]
      decide
    · exact shape ▸ isDigits_printable digits
  have fraction : Printable (NumberLiteral.fractionChars literal.fraction) := by
    unfold NumberLiteral.fractionChars
    split
    · nofun
    · exact printable_cons (by decide) (isDigits_printable grammatical.fraction)
  rw [NumberLiteral.chars_parts]
  exact printable_append sign (printable_append whole
    (printable_append fraction (exponentChars_printable grammatical.exponent)))

theorem commaSeparated_printable {parts : List (List Char)}
    (all : ∀ part ∈ parts, Printable part) : Printable (commaSeparated parts) := by
  induction parts using commaSeparated.induct with
  | case1 => nofun
  | case2 part => exact all part List.mem_cons_self
  | case3 part next rest ih =>
    obtain ⟨first, others⟩ := List.forall_mem_cons.mp all
    exact printable_append first (printable_cons (by decide) (ih others))

namespace Value

mutual
theorem chars_printable : ∀ value : Value, Printable value.chars
  | .null | .bool true | .bool false => by decide
  | .number n => by
    rw [chars, ← n.literal_chars]
    exact literal_printable n.literal_grammatical
  | .string text => quoteChars_printable text
  | .array items =>
    printable_cons (by decide)
      (printable_append (commaSeparated_printable (itemChars_printable items)) (by decide))
  | .object members =>
    printable_cons (by decide)
      (printable_append (commaSeparated_printable (memberChars_printable members)) (by decide))

theorem itemChars_printable : ∀ items : List Value, ∀ part ∈ itemChars items, Printable part
  | [] => nofun
  | item :: rest =>
    List.forall_mem_cons.mpr ⟨chars_printable item, itemChars_printable rest⟩

theorem memberChars_printable : ∀ members : Members,
    ∀ part ∈ memberChars members, Printable part
  | [] => nofun
  | (name, value) :: rest =>
    List.forall_mem_cons.mpr ⟨printable_append (quoteChars_printable name)
      (printable_cons (by decide) (chars_printable value)), memberChars_printable rest⟩
end

/-- An object is written as one line. -/
theorem object_tidy (members : Members) : Tidy (Value.object members).text := by
  have shape : (Value.object members).text.toList =
      '{' :: (commaSeparated (memberChars members) ++ ['}']) := by
    rw [text, String.toList_ofList, chars, List.cons_append]
  constructor
  · intro newline
    rw [text, String.toList_ofList] at newline
    exact absurd (chars_printable _ _ newline) (by decide)
  · rw [shape]
    exact Text.trimBlanks_between (by decide) (by decide) _
  · rw [String.isEmpty_eq_false_iff]
    intro empty
    rw [empty] at shape
    cases shape

end Value
end Json
end TaggedJson
