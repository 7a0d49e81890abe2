import TaggedJson.Proofs.Document
import TaggedJson.Pull.Lexeme
/-! Strings are scanned by the grammar: what the scanner passes spells the characters it returns,
and it passes every spelling. -/
namespace TaggedJson.Pull
open Json

/-! A scan that succeeds. -/

theorem scanCode_ok {chars : List Char} {offset code : Nat}
    (found : scanCode chars offset = .ok code) :
    ∃ p q r s, Text.fourHex? p q r s = some code ∧
      chars = p :: q :: r :: s :: chars.drop 4 := by
  unfold scanCode at found
  split at found
  · rename_i p q r s rest
    split at found
    · rename_i digits
      cases found
      exact ⟨p, q, r, s, digits, rfl⟩
    · cases found
  · split at found <;> cases found

theorem scanUnicode_ok {chars : List Char} {offset taken : Nat} {c : Char}
    (found : scanUnicode chars offset = .ok (c, taken)) :
    ∃ one, CharSpelled c ('\\' :: 'u' :: one) ∧ one.length = taken ∧
      chars = one ++ chars.drop taken := by
  unfold scanUnicode at found
  split at found
  · cases found
  · rename_i code scanned
    obtain ⟨p, q, r, s, first, shape⟩ := scanCode_ok scanned
    split at found
    · rename_i isHigh
      split at found
      · rename_i rest follows
        split at found
        · cases found
        · rename_i low scannedLow
          obtain ⟨t, u, v, w, second, shapeLow⟩ := scanCode_ok scannedLow
          split at found
          · rename_i isLow
            injection found with found
            injection found with same long
            subst same
            subst long
            refine ⟨_, .pair first isHigh second isLow, rfl, ?_⟩
            rw [shape, follows, shapeLow]
            rfl
          · cases found
      · cases found
    · rename_i high
      split at found
      · cases found
      · rename_i low
        cases found
        exact ⟨_, .code first (by simpa using high) (by simpa using low), rfl, shape⟩

theorem scanEscape_ok {chars : List Char} {offset taken : Nat} {c : Char}
    (found : scanEscape chars offset = .ok (c, taken)) :
    ∃ one, CharSpelled c ('\\' :: one) ∧ one.length = taken ∧ chars = one ++ chars.drop taken := by
  unfold scanEscape at found
  split at found
  · cases found
  · rename_i rest
    split at found
    · cases found
    · rename_i inner scanned
      cases found
      obtain ⟨one, spelled, long, shape⟩ := scanUnicode_ok scanned
      refine ⟨'u' :: one, spelled, by simp [long], ?_⟩
      rw [List.drop_succ_cons, List.cons_append, ← shape]
  · rename_i mark rest _
    split at found
    · rename_i named
      cases found
      exact ⟨[mark], .short named, rfl, rfl⟩
    · cases found

theorem scanQuoted_ok {chars decoded : List Char} {offset : Nat} {after : Place}
    (found : scanQuoted chars offset = .ok (decoded, after)) :
    ∃ spelled, CharsSpelled decoded spelled ∧ chars = spelled ++ '"' :: after.rest := by
  fun_induction scanQuoted chars offset generalizing decoded after with
  | case2 => cases found; exact ⟨[], .nil, rfl⟩
  | case5 rest _ c taken escape _ _ inner _ ih =>
    cases found
    obtain ⟨one, first, _, shape⟩ := scanEscape_ok escape
    obtain ⟨more, spelled, tail⟩ := ih inner
    refine ⟨('\\' :: one) ++ more, .cons first spelled, ?_⟩
    rw [shape, tail]
    simp
  | case8 c rest _ quote backslash control _ _ inner ih =>
    cases found
    obtain ⟨more, spelled, tail⟩ := ih inner
    refine ⟨[c] ++ more, .cons (.plain quote backslash (by omega)) spelled, ?_⟩
    rw [tail]
    rfl
  | _ => cases found

/-! Spellings that are scanned. -/

theorem scanCode_spelled {p q r s : Char} {code : Nat}
    (digits : Text.fourHex? p q r s = some code) (rest : List Char) (offset : Nat) :
    scanCode (p :: q :: r :: s :: rest) offset = .ok code := by
  simp [scanCode, digits]

theorem scanQuoted_char {c : Char} {one : List Char} (spelled : CharSpelled c one)
    (rest : List Char) (offset : Nat) :
    ∃ further, scanQuoted (one ++ rest) offset =
      (scanQuoted rest further).map fun (chars, place) => (c :: chars, place) := by
  cases spelled with
  | plain quote backslash control =>
    refine ⟨offset + c.utf8Size, ?_⟩
    rw [List.singleton_append, scanQuoted]
    simp only [quote, backslash, if_false, Nat.not_lt.mpr control]
    cases scanQuoted rest (offset + c.utf8Size) <;> rfl
  | @short mark _ named =>
    -- The scanner asks for a code first, but no short escape is named as codes are.
    have plain : mark ≠ 'u' := by rintro rfl; simp [Text.shortEscape?] at named
    refine ⟨offset + 1 + 1, ?_⟩
    rw [List.cons_append, List.singleton_append, scanQuoted]
    simp only [scanEscape, named, List.drop_succ_cons, List.drop_zero]
    cases scanQuoted rest (offset + 1 + 1) <;> rfl
  | @code p q r s unit digits high low =>
    refine ⟨offset + 1 + 5, ?_⟩
    simp only [List.cons_append, List.nil_append]
    rw [scanQuoted]
    simp only [scanEscape, scanUnicode, scanCode_spelled digits, high, low, Bool.false_eq_true,
      if_false, List.drop_succ_cons, List.drop_zero]
    cases scanQuoted rest (offset + 1 + 5) <;> rfl
  | @pair p q r s t u v w high low first isHigh second isLow =>
    refine ⟨offset + 1 + 11, ?_⟩
    simp only [List.cons_append, List.nil_append]
    rw [scanQuoted]
    simp only [scanEscape, scanUnicode, scanCode_spelled first, scanCode_spelled second, isHigh,
      isLow, if_true, List.drop_succ_cons, List.drop_zero]
    cases scanQuoted rest (offset + 1 + 11) <;> rfl

theorem scanQuoted_spelled {decoded spelled : List Char} (chars : CharsSpelled decoded spelled)
    (rest : List Char) (offset : Nat) :
    ∃ further, scanQuoted (spelled ++ '"' :: rest) offset = .ok (decoded, ⟨rest, further⟩) := by
  induction chars generalizing offset with
  | nil => exact ⟨offset + 1, by rw [List.nil_append, scanQuoted]; rfl⟩
  | cons first _ ih =>
    obtain ⟨next, scanned⟩ := scanQuoted_char first (_ ++ '"' :: rest) offset
    obtain ⟨further, tail⟩ := ih next
    refine ⟨further, ?_⟩
    rw [List.append_assoc, scanned, tail]
    rfl

/-! Strings with their quotes. -/

theorem scanString_ok {place after : Place} {text : String}
    (quote : place.rest.head? = some '"') (found : scanString place = .ok (text, after)) :
    ∃ chars, (Lexeme.string text).Spelled chars ∧ place.rest = chars ++ after.rest := by
  unfold scanString at found
  split at found
  · cases found
  · rename_i decoded after' scanned
    cases found
    obtain ⟨spelled, chars, tail⟩ := scanQuoted_ok scanned
    refine ⟨'"' :: (spelled ++ ['"']), .string (by simpa using chars), ?_⟩
    -- The scanner drops the quote without a look at it; that it is one has been seen before.
    obtain ⟨rest, shape⟩ := List.head?_eq_some_iff.mp quote
    rw [shape] at tail ⊢
    simp only [List.drop_succ_cons, List.drop_zero] at tail
    simp [tail]

theorem scanString_spelled {place : Place} {text : String} {chars rest : List Char}
    (spelled : (Lexeme.string text).Spelled chars) (stands : place.rest = chars ++ rest) :
    ∃ further, scanString place = .ok (text, ⟨rest, further⟩) := by
  cases spelled with
  | string inner =>
    obtain ⟨further, scanned⟩ := scanQuoted_spelled inner rest (place.offset + 1)
    refine ⟨further, ?_⟩
    rw [scanString, stands]
    simp only [List.cons_append, List.append_assoc, List.nil_append, List.drop_succ_cons,
      List.drop_zero, scanned, String.ofList_toList]

end TaggedJson.Pull
