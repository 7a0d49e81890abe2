import TaggedJson.Proofs.Lexemes
import TaggedJson.Proofs.Literals
/-! Values as documents. The compact text of a value spells its document, and the value is what the
document stands for unless a name comes twice in an object of it. -/
namespace TaggedJson.Json

/-! Strings. -/

theorem hexDigit_value : ∀ n < 16, Text.hexValue? (Text.hexDigit n) = some n := by decide

theorem fourHex_low {n : Nat} (low : n < 256) :
    Text.fourHex? '0' '0' (Text.hexDigit (n / 16)) (Text.hexDigit (n % 16)) = some n := by
  have zero : Text.hexValue? '0' = some 0 := rfl
  unfold Text.fourHex?
  rw [zero, hexDigit_value _ (by omega), hexDigit_value _ (by omega)]
  simp only [Option.bind_eq_bind, Option.bind_some, Option.some.injEq]
  omega

theorem escapeChar_spelled (c : Char) : CharSpelled c (Text.escapeChar c) := by
  unfold Text.escapeChar
  by_cases quote : c = '"'
  · rw [if_pos quote, quote]
    exact .short rfl
  rw [if_neg quote]
  by_cases backslash : c = '\\'
  · rw [if_pos backslash, backslash]
    exact .short rfl
  rw [if_neg backslash]
  repeat' split
  iterate 5
    subst_vars
    exact .short rfl
  · rename_i control
    -- A control character has a code below the surrogates, so one escape is enough for it.
    have code := fourHex_low (n := c.toNat) (by omega)
    have spelled := CharSpelled.code code
      (by simp only [Text.isHighSurrogate, Bool.and_eq_false_iff, decide_eq_false_iff_not]; omega)
      (by simp only [Text.isLowSurrogate, Bool.and_eq_false_iff, decide_eq_false_iff_not]; omega)
    rwa [Char.ofNat_toNat] at spelled
  · exact .plain quote backslash (by omega)

theorem escapeChars_spelled (chars : List Char) : CharsSpelled chars (Text.escapeChars chars) := by
  induction chars with
  | nil => exact .nil
  | cons c rest ih => exact .cons (escapeChar_spelled c) ih

theorem quoteChars_spelled (text : String) :
    (Lexeme.string text).Spelled (Text.quoteChars text.toList) :=
  .string (escapeChars_spelled text.toList)

/-! Values. -/

namespace Value

mutual
/-- The document a value is written as. -/
def document : Value → Document
  | .null => .null
  | .bool value => .bool value
  | .number n => .number n.literal
  | .string text => .string text
  | .array items => .array (itemDocuments items)
  | .object members => .object (memberDocuments members)

def itemDocuments : List Value → List Document
  | [] => []
  | item :: rest => item.document :: itemDocuments rest

def memberDocuments : Members → List (String × Document)
  | [] => []
  | (name, value) :: rest => (name, value.document) :: memberDocuments rest
end

mutual
/-- No object in the value has a name twice. -/
def Distinct : Value → Prop
  | .array items => ItemsDistinct items
  | .object members => (members.map Prod.fst).Nodup ∧ MembersDistinct members
  | _ => True

def ItemsDistinct : List Value → Prop
  | [] => True
  | item :: rest => item.Distinct ∧ ItemsDistinct rest

def MembersDistinct : Members → Prop
  | [] => True
  | (_, value) :: rest => value.Distinct ∧ MembersDistinct rest
end

mutual
theorem document_depth : ∀ value : Value, value.document.depth = value.depth
  | .null | .bool _ | .number _ | .string _ => rfl
  | .array items => congrArg (· + 1) (itemDocuments_depth items)
  | .object members => congrArg (· + 1) (memberDocuments_depth members)

theorem itemDocuments_depth : ∀ items : List Value,
    Document.depthItems (itemDocuments items) = depthItems items
  | [] => rfl
  | item :: rest => by
    rw [itemDocuments, Document.depthItems, depthItems, document_depth item,
      itemDocuments_depth rest]

theorem memberDocuments_depth : ∀ members : Members,
    Document.depthMembers (memberDocuments members) = depthMembers members
  | [] => rfl
  | (_, value) :: rest => by
    rw [memberDocuments, Document.depthMembers, depthMembers, document_depth value,
      memberDocuments_depth rest]
end

mutual
theorem document_value : ∀ value : Value, value.Distinct → value.document.value? = some value
  | .null, _ | .bool _, _ | .string _, _ => rfl
  | .number n, _ => by
    rw [document, Document.value?, n.literal_number]
    rfl
  | .array items, distinct => by
    rw [document, Document.value?, itemDocuments_values items distinct]
    rfl
  | .object members, distinct => by
    rw [document, Document.value?, memberDocuments_values members distinct.2, Option.bind_some,
      if_pos distinct.1]

theorem itemDocuments_values : ∀ items : List Value, ItemsDistinct items →
    Document.itemValues? (itemDocuments items) = some items
  | [], _ => rfl
  | item :: rest, distinct => by
    rw [itemDocuments, Document.itemValues?, document_value item distinct.1,
      itemDocuments_values rest distinct.2]
    rfl

theorem memberDocuments_values : ∀ members : Members, MembersDistinct members →
    Document.memberValues? (memberDocuments members) = some members
  | [], _ => rfl
  | (_, value) :: rest, distinct => by
    rw [memberDocuments, Document.memberValues?, document_value value distinct.1,
      memberDocuments_values rest distinct.2]
    rfl
end

/-! Text. -/

/-- Parts that follow others. -/
def following (parts : List (List Char)) : List Char := parts.flatMap (',' :: ·)

theorem commaSeparated_cons (part : List Char) (rest : List (List Char)) :
    commaSeparated (part :: rest) = part ++ following rest := by
  induction rest generalizing part with
  | nil => simp [commaSeparated, following]
  | cons next rest ih => simp [commaSeparated, ih next, following]

mutual
theorem chars_spelling : ∀ (value : Value) {more : List Lexeme} {rest : List Char},
    Spelling more rest → Spelling (value.document.lexemes ++ more) (value.chars ++ rest)
  | .null, _, _, spelling => spelling_exact .null spelling
  | .bool true, _, _, spelling => spelling_exact .true spelling
  | .bool false, _, _, spelling => spelling_exact .false spelling
  | .number n, _, _, spelling => by
    have spelled : (Lexeme.number n.literal).Spelled n.chars := by
      rw [← n.literal_chars]
      exact .number n.literal_grammatical
    exact spelling_exact spelled spelling
  | .string text, _, _, spelling => spelling_exact (quoteChars_spelled text) spelling
  | .array [], _, _, spelling => by
    have whole := spelling_exact .openArray (spelling_exact .closeArray spelling)
    exact whole
  | .array (item :: items), more, rest, spelling => by
    have inner := chars_spelling item (following_items items spelling)
    have whole := spelling_exact .openArray inner
    simpa [document, itemDocuments, Document.lexemes, Document.itemLexemes, separator, chars,
      itemChars, commaSeparated_cons] using whole
  | .object [], _, _, spelling => by
    have whole := spelling_exact .openObject (spelling_exact .closeObject spelling)
    exact whole
  | .object ((name, value) :: members), more, rest, spelling => by
    have inner := chars_spelling value (following_members members spelling)
    have whole := spelling_exact .openObject <| spelling_exact (quoteChars_spelled name) <|
      spelling_exact .colon inner
    simpa [document, memberDocuments, Document.lexemes, Document.memberLexemes, separator, chars,
      memberChars, commaSeparated_cons] using whole

theorem following_items : ∀ (items : List Value) {more : List Lexeme} {rest : List Char},
    Spelling more rest → Spelling (Document.itemLexemes false (itemDocuments items) ++ more)
      (following (itemChars items) ++ ']' :: rest)
  | [], _, _, spelling => by
    have closing := spelling_exact .closeArray spelling
    exact closing
  | item :: items, _, _, spelling => by
    have inner := chars_spelling item (following_items items spelling)
    have whole := spelling_exact .comma inner
    simpa [itemDocuments, Document.itemLexemes, separator, itemChars, following] using whole

theorem following_members : ∀ (members : Members) {more : List Lexeme} {rest : List Char},
    Spelling more rest → Spelling (Document.memberLexemes false (memberDocuments members) ++ more)
      (following (memberChars members) ++ '}' :: rest)
  | [], _, _, spelling => by
    have closing := spelling_exact .closeObject spelling
    exact closing
  | (name, value) :: members, _, _, spelling => by
    have inner := chars_spelling value (following_members members spelling)
    have whole := spelling_exact .comma <| spelling_exact (quoteChars_spelled name) <|
      spelling_exact .colon inner
    simpa [memberDocuments, Document.memberLexemes, separator, memberChars, following] using whole
end

theorem text_spells (value : Value) : Spells value.text value.document := by
  have blank : Blank [] := nofun
  have spelling := chars_spelling value (.nil blank)
  rw [List.append_nil, List.append_nil] at spelling
  rwa [Spells, text, String.toList_ofList]

end Value
end TaggedJson.Json
