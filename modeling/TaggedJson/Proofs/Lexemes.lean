import Mathlib.Data.List.TakeWhile
import TaggedJson.Proofs.Numbers
import TaggedJson.Proofs.Strings
/-! A text has one reading. The first character of a lexeme tells its kind, a lexeme ends where its
spelling says so, a number at the latest before the comma or bracket after it, and the lexemes of a
document determine the document. -/
namespace TaggedJson.Json

/-! Space between lexemes. -/

theorem blank_takeWhile (chars : List Char) : Blank (chars.takeWhile isSpace) :=
  fun c member => List.all_eq_true.mp (List.all_takeWhile (l := chars)) c member

theorem skipSpace_split (chars : List Char) : chars.takeWhile isSpace ++ skipSpace chars = chars :=
  List.takeWhile_append_dropWhile

theorem spelling_after_blank {lexemes : List Lexeme} {space chars : List Char} (blank : Blank space)
    (spelling : Spelling lexemes chars) : Spelling lexemes (space ++ chars) := by
  have both {inner : List Char} (also : Blank inner) : Blank (space ++ inner) := fun c member =>
    (List.mem_append.mp member).elim (blank c) (also c)
  cases spelling with
  | nil inner => exact .nil (both inner)
  | cons inner first more =>
    rw [← List.append_assoc]
    exact .cons (both inner) first more

theorem spelling_skipSpace {lexemes : List Lexeme} {chars : List Char}
    (spelling : Spelling lexemes (skipSpace chars)) : Spelling lexemes chars := by
  rw [← skipSpace_split chars]
  exact spelling_after_blank (blank_takeWhile chars) spelling

theorem spelling_nil_iff {chars : List Char} : Spelling [] chars ↔ skipSpace chars = [] := by
  constructor
  · rintro ⟨blank⟩
    exact List.dropWhile_eq_nil_iff.mpr blank
  · intro empty
    exact .nil (List.dropWhile_eq_nil_iff.mp empty)

theorem spelling_exact {lexeme : Lexeme} {lexemes : List Lexeme} {chars rest : List Char}
    (first : lexeme.Spelled chars) (more : Spelling lexemes rest) :
    Spelling (lexeme :: lexemes) (chars ++ rest) := by
  have blank : Blank [] := nofun
  exact .cons blank first more

/-! The kinds of lexemes. -/

/-- A character that lexemes of the kind begin with. -/
def Lexeme.kind : Lexeme → Char
  | .openObject => '{'
  | .closeObject => '}'
  | .openArray => '['
  | .closeArray => ']'
  | .comma => ','
  | .colon => ':'
  | .null => 'n'
  | .bool true => 't'
  | .bool false => 'f'
  | .number _ => '0'
  | .string _ => '"'

/-- All numbers count as beginning alike. -/
def kindOf (c : Char) : Char := if c = '-' ∨ c.isDigit then '0' else c

theorem number_head {literal : NumberLiteral} (grammatical : literal.Grammatical) :
    ∃ c rest, literal.chars = c :: rest ∧ (c = '-' ∨ c.isDigit = true) := by
  obtain ⟨first, others, shape, digit⟩ := NumberLiteral.whole_head grammatical
  rw [NumberLiteral.chars_parts, shape]
  cases literal.negative with
  | true => exact ⟨'-', _, rfl, .inl rfl⟩
  | false => exact ⟨first, _, rfl, .inr digit⟩

theorem isSpace_iff {c : Char} :
    isSpace c = true ↔ c = ' ' ∨ c = '\t' ∨ c = '\n' ∨ c = '\r' := by
  simp [isSpace, or_assoc]

theorem spelled_head {lexeme : Lexeme} {chars : List Char} (spelled : lexeme.Spelled chars) :
    ∃ c rest, chars = c :: rest ∧ isSpace c = false ∧ kindOf c = lexeme.kind := by
  cases spelled with
  | number grammatical =>
    obtain ⟨c, rest, shape, start⟩ := number_head grammatical
    refine ⟨c, rest, shape, ?_, by simp [kindOf, start, Lexeme.kind]⟩
    rw [Bool.eq_false_iff, Ne, isSpace_iff]
    rintro (rfl | rfl | rfl | rfl) <;> revert start <;> decide
  | string => exact ⟨_, _, rfl, by decide, by simp [kindOf, Lexeme.kind]⟩
  | _ => exact ⟨_, _, rfl, by decide, by decide⟩

/-- Space before a lexeme is all space up to its first character. -/
theorem spelling_cons_iff {lexeme : Lexeme} {lexemes : List Lexeme} {text : List Char} :
    Spelling (lexeme :: lexemes) text ↔
      ∃ chars rest, skipSpace text = chars ++ rest ∧ lexeme.Spelled chars ∧
        Spelling lexemes rest := by
  constructor
  · rintro (_ | ⟨blank, first, more⟩)
    rename_i space chars rest
    obtain ⟨c, others, rfl, solid, -⟩ := spelled_head first
    refine ⟨_, rest, ?_, first, more⟩
    rw [skipSpace, List.dropWhile_append_of_pos blank, List.cons_append,
      List.dropWhile_cons_of_neg (by simp [solid])]
  · rintro ⟨chars, rest, split, first, more⟩
    apply spelling_skipSpace
    rw [split]
    exact spelling_exact first more

/-! Where a number ends. -/

/-- Whether a lexeme may stand after a value. -/
def Lexeme.isEnd : Lexeme → Bool
  | .comma | .closeObject | .closeArray => true
  | _ => false

/-- What comes after a value. -/
def Ends (lexemes : List Lexeme) : Prop := ∀ lexeme ∈ lexemes.head?, lexeme.isEnd = true

theorem ends_itemLexemes (items : List Document) (more : List Lexeme) :
    Ends (Document.itemLexemes false items ++ more) := by
  cases items <;> rintro _ ⟨⟩ <;> rfl

theorem ends_memberLexemes (members : List (String × Document)) (more : List Lexeme) :
    Ends (Document.memberLexemes false members ++ more) := by
  obtain _ | ⟨⟨_, _⟩, _⟩ := members <;> rintro _ ⟨⟩ <;> rfl

theorem ends_head {lexemes : List Lexeme} {rest : List Char} (ends : Ends lexemes)
    (spelling : Spelling lexemes rest) : ∀ c ∈ rest.head?,
    c = ' ' ∨ c = '\t' ∨ c = '\n' ∨ c = '\r' ∨ c = ',' ∨ c = '}' ∨ c = ']' := by
  have space {c : Char} (blank : isSpace c = true) :
      c = ' ' ∨ c = '\t' ∨ c = '\n' ∨ c = '\r' ∨ c = ',' ∨ c = '}' ∨ c = ']' := by
    rcases isSpace_iff.mp blank with rfl | rfl | rfl | rfl <;> simp
  intro c first
  cases spelling with
  | nil blank => exact space (blank c (List.mem_of_mem_head? first))
  | @cons lexeme _ blanks _ _ blank spelled more =>
    cases blanks with
    | cons b _ =>
      cases first
      exact space (blank _ List.mem_cons_self)
    | nil =>
      have last := ends lexeme rfl
      cases spelled <;> first | cases last; done | (cases first; simp)

theorem ends_stops {lexemes : List Lexeme} {rest : List Char} (ends : Ends lexemes)
    (spelling : Spelling lexemes rest) : NumberLiteral.Stops rest := by
  intro c first
  rcases ends_head ends spelling c first with rfl | rfl | rfl | rfl | rfl | rfl | rfl <;> decide

theorem ends_literal {lexemes : List Lexeme} {rest : List Char} (ends : Ends lexemes)
    (spelling : Spelling lexemes rest) : rest.head?.any Char.isAlphanum = false := by
  cases rest with
  | nil => rfl
  | cons c _ =>
    rcases ends_head ends spelling c rfl with rfl | rfl | rfl | rfl | rfl | rfl | rfl <;> rfl

/-! One text spells one list of lexemes. -/

/-- Numbers are followed by what may stand after a value. -/
def Spaced : List Lexeme → Prop
  | [] => True
  | lexeme :: rest => (∀ literal, lexeme = .number literal → Ends rest) ∧ Spaced rest

theorem spelled_unique {left right : Lexeme} {chars others rest more : List Char}
    (first : left.Spelled chars) (second : right.Spelled others)
    (same : chars ++ rest = others ++ more)
    (stops : ∀ literal, left = .number literal → NumberLiteral.Stops rest)
    (stopsToo : ∀ literal, right = .number literal → NumberLiteral.Stops more) :
    left = right ∧ rest = more := by
  have kinds : left.kind = right.kind := by
    obtain ⟨c, _, rfl, -, kind⟩ := spelled_head first
    obtain ⟨d, _, rfl, -, kindToo⟩ := spelled_head second
    rw [← kind, ← kindToo, (List.cons.inj same).1]
  -- Lexemes of one kind are left, and but for numbers and strings a kind has one spelling.
  cases first <;> cases second <;>
    first | (simp [Lexeme.kind] at kinds; done) | skip
  case number.number left grammatical right grammaticalToo =>
    have scanned := NumberLiteral.scan_chars grammatical (stops _ rfl)
    rw [same, NumberLiteral.scan_chars grammaticalToo (stopsToo _ rfl)] at scanned
    cases scanned
    exact ⟨rfl, rfl⟩
  case string.string _ _ spelled _ _ spelledToo =>
    -- The scanner takes both spellings from one place, and it gives one answer.
    obtain ⟨_, scanned⟩ := @Pull.scanString_spelled ⟨_, 0⟩ _ _ _ (.string spelled) rfl
    obtain ⟨_, scannedToo⟩ := @Pull.scanString_spelled ⟨_, 0⟩ _ _ _ (.string spelledToo) rfl
    rw [same, scannedToo] at scanned
    cases scanned
    exact ⟨rfl, rfl⟩
  all_goals exact ⟨rfl, List.append_cancel_left same⟩

theorem spelling_unique {left right : List Lexeme} {text : List Char} (spaced : Spaced left)
    (spacedToo : Spaced right) (first : Spelling left text) (second : Spelling right text) :
    left = right := by
  induction left generalizing right text with
  | nil =>
    cases right with
    | nil => rfl
    | cons lexeme _ =>
      obtain ⟨chars, rest, split, spelled, -⟩ := spelling_cons_iff.mp second
      obtain ⟨c, _, rfl, -, -⟩ := spelled_head spelled
      rw [spelling_nil_iff.mp first] at split
      cases split
  | cons lexeme lexemes ih =>
    obtain ⟨chars, rest, split, spelled, more⟩ := spelling_cons_iff.mp first
    cases right with
    | nil =>
      obtain ⟨c, _, rfl, -, -⟩ := spelled_head spelled
      rw [spelling_nil_iff.mp second] at split
      cases split
    | cons other others =>
      obtain ⟨_, _, splitToo, spelledToo, moreToo⟩ := spelling_cons_iff.mp second
      obtain ⟨rfl, rfl⟩ := spelled_unique spelled spelledToo (split.symm.trans splitToo)
        (fun literal number => ends_stops (spaced.1 literal number) more)
        (fun literal number => ends_stops (spacedToo.1 literal number) moreToo)
      rw [ih spaced.2 spacedToo.2 more moreToo]

mutual
theorem spaced_lexemes : ∀ (document : Document) {more : List Lexeme}, Ends more → Spaced more →
    Spaced (document.lexemes ++ more)
  | .null, _, _, spaced | .bool _, _, _, spaced | .string _, _, _, spaced =>
    ⟨nofun, spaced⟩
  | .number _, _, ends, spaced => ⟨fun _ _ => ends, spaced⟩
  | .array items, _, _, spaced =>
    ⟨nofun, spaced_itemLexemes true items spaced⟩
  | .object members, _, _, spaced =>
    ⟨nofun, spaced_memberLexemes true members spaced⟩

theorem spaced_itemLexemes : ∀ (first : Bool) (items : List Document) {more : List Lexeme},
    Spaced more → Spaced (Document.itemLexemes first items ++ more)
  | _, [], more, spaced => ⟨nofun, spaced⟩
  | first, item :: rest, more, spaced => by
    have tail := spaced_lexemes item (ends_itemLexemes rest more)
      (spaced_itemLexemes false rest spaced)
    rw [Document.itemLexemes, List.append_assoc, List.append_assoc]
    cases first with
    | true => exact tail
    | false => exact ⟨nofun, tail⟩

theorem spaced_memberLexemes : ∀ (first : Bool) (members : List (String × Document))
    {more : List Lexeme}, Spaced more → Spaced (Document.memberLexemes first members ++ more)
  | _, [], more, spaced => ⟨nofun, spaced⟩
  | first, (name, document) :: rest, more, spaced => by
    have tail := spaced_lexemes document (ends_memberLexemes rest more)
      (spaced_memberLexemes false rest spaced)
    have named : Spaced (.string name :: .colon :: (document.lexemes ++
        (Document.memberLexemes false rest ++ more))) :=
      ⟨nofun, nofun, tail⟩
    rw [Document.memberLexemes, List.append_assoc, List.cons_append, List.cons_append,
      List.append_assoc]
    cases first with
    | true => exact named
    | false => exact ⟨nofun, named⟩
end

/-! The lexemes of a document are those of no other, whatever follows. -/

/-- Whether a value begins with the lexeme. -/
def Lexeme.starts : Lexeme → Bool
  | .closeObject | .closeArray | .comma | .colon => false
  | _ => true

theorem lexemes_head (document : Document) :
    ∃ lexeme rest, document.lexemes = lexeme :: rest ∧ lexeme.starts = true := by
  cases document <;> exact ⟨_, _, rfl, rfl⟩

mutual
theorem lexemes_injective : ∀ (left right : Document) {x y : List Lexeme},
    left.lexemes ++ x = right.lexemes ++ y → left = right ∧ x = y
  | .array items, right, x, y, same => by
    cases right <;> simp only [Document.lexemes, List.cons_append, List.cons.injEq, reduceCtorEq,
      false_and] at same
    obtain ⟨rfl, rfl⟩ := itemLexemes_injective true items _ same.2
    exact ⟨rfl, rfl⟩
  | .object members, right, x, y, same => by
    cases right <;> simp only [Document.lexemes, List.cons_append, List.cons.injEq, reduceCtorEq,
      false_and] at same
    obtain ⟨rfl, rfl⟩ := memberLexemes_injective true members _ same.2
    exact ⟨rfl, rfl⟩
  | .null, right, x, y, same | .bool _, right, x, y, same | .number _, right, x, y, same
  | .string _, right, x, y, same => by
    cases right <;> simp_all [Document.lexemes]

theorem itemLexemes_injective : ∀ (first : Bool) (left right : List Document) {x y : List Lexeme},
    Document.itemLexemes first left ++ x = Document.itemLexemes first right ++ y →
    left = right ∧ x = y
  | first, [], [], x, y, same => ⟨rfl, (List.cons.inj same).2⟩
  | first, [], item :: rest, x, y, same => by
    -- One array ends where the other has an item, but no item begins with the bracket.
    obtain ⟨lexeme, others, shape, starts⟩ := lexemes_head item
    cases first <;> simp [Document.itemLexemes, separator, shape] at same
    rw [← same.1] at starts
    cases starts
  | first, item :: rest, [], x, y, same => by
    obtain ⟨lexeme, others, shape, starts⟩ := lexemes_head item
    cases first <;> simp [Document.itemLexemes, separator, shape] at same
    rw [same.1] at starts
    cases starts
  | first, item :: rest, other :: others, x, y, same => by
    simp only [Document.itemLexemes, List.append_assoc, List.append_cancel_left_eq] at same
    obtain ⟨rfl, tail⟩ := lexemes_injective item other same
    obtain ⟨rfl, rfl⟩ := itemLexemes_injective false rest others tail
    exact ⟨rfl, rfl⟩

theorem memberLexemes_injective : ∀ (first : Bool) (left right : List (String × Document))
    {x y : List Lexeme},
    Document.memberLexemes first left ++ x = Document.memberLexemes first right ++ y →
    left = right ∧ x = y
  | first, [], [], x, y, same => ⟨rfl, (List.cons.inj same).2⟩
  | first, [], (name, document) :: rest, x, y, same => by
    cases first <;> simp [Document.memberLexemes, separator] at same
  | first, (name, document) :: rest, [], x, y, same => by
    cases first <;> simp [Document.memberLexemes, separator] at same
  | first, (name, document) :: rest, (other, document') :: others, x, y, same => by
    simp only [Document.memberLexemes, List.append_assoc, List.append_cancel_left_eq,
      List.cons_append, List.cons.injEq, Lexeme.string.injEq, true_and] at same
    obtain ⟨rfl, same⟩ := same
    obtain ⟨rfl, tail⟩ := lexemes_injective document document' same
    obtain ⟨rfl, rfl⟩ := memberLexemes_injective false rest others tail
    exact ⟨rfl, rfl⟩
end

/-- No text is two documents. -/
theorem spells_unique {text : String} {left right : Document} (first : Spells text left)
    (second : Spells text right) : left = right := by
  have spaced (document : Document) : Spaced document.lexemes := by
    have := @spaced_lexemes document [] nofun trivial
    rwa [List.append_nil] at this
  have same := spelling_unique (spaced left) (spaced right) first second
  exact (lexemes_injective left right (congrArg (· ++ []) same)).1

end TaggedJson.Json
