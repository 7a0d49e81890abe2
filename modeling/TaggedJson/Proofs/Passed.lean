import TaggedJson.Proofs.Numbers
import TaggedJson.Proofs.Strings
/-! How far the scanners get. They pass whole characters, and where one stops over a fault, the
offset it reports is that of a character further on, or of the end of the text. -/
namespace TaggedJson.Pull
open Json (CharSpelled CharsSpelled IsDigits NumberLiteral)

/-! Lengths in bytes. -/

theorem foldl_byteLength (chars : List Char) (bytes : Nat) :
    chars.foldl (fun bytes c => bytes + c.utf8Size) bytes = bytes + byteLength chars := by
  induction chars generalizing bytes with
  | nil => rfl
  | cons c rest ih =>
    rw [byteLength, List.foldl_cons, List.foldl_cons, ih, ih (0 + c.utf8Size)]
    omega

@[simp] theorem byteLength_nil : byteLength [] = 0 := rfl

@[simp] theorem byteLength_cons (c : Char) (rest : List Char) :
    byteLength (c :: rest) = c.utf8Size + byteLength rest := by
  rw [byteLength, List.foldl_cons, foldl_byteLength, Nat.zero_add]

@[simp] theorem byteLength_append (front back : List Char) :
    byteLength (front ++ back) = byteLength front + byteLength back := by
  rw [byteLength, List.foldl_append, foldl_byteLength]
  rfl

theorem byteLength_ofList (chars : List Char) :
    (String.ofList chars).utf8ByteSize = byteLength chars := by
  induction chars with
  | nil => rfl
  | cons c rest ih =>
    rw [byteLength_cons, ← ih, String.ofList_cons, String.utf8ByteSize_append,
      String.utf8ByteSize_singleton]

/-- Characters of one byte each. -/
def Narrow (chars : List Char) : Prop := ∀ c ∈ chars, c.utf8Size = 1

instance (chars : List Char) : Decidable (Narrow chars) :=
  List.decidableBAll (fun c : Char => c.utf8Size = 1) chars

theorem utf8Size_narrow {c : Char} (small : c.toNat ≤ 0x7F) : c.utf8Size = 1 :=
  Char.utf8Size_eq_one_iff.mpr (UInt32.le_iff_toNat_le.mpr small)

theorem Narrow.byteLength {chars : List Char} (narrow : Narrow chars) :
    byteLength chars = chars.length := by
  induction chars with
  | nil => rfl
  | cons c rest ih =>
    have first : c.utf8Size = 1 := narrow c List.mem_cons_self
    have others : Narrow rest := fun d member => narrow d (List.mem_cons_of_mem c member)
    rw [byteLength_cons, first, ih others, List.length_cons]
    omega

theorem narrow_nil : Narrow [] := nofun

theorem Narrow.cons {c : Char} {rest : List Char} (first : c.utf8Size = 1) (narrow : Narrow rest) :
    Narrow (c :: rest) := by
  intro d member
  rcases List.mem_cons.mp member with rfl | later
  · exact first
  · exact narrow d later

theorem Narrow.append {front back : List Char} (first : Narrow front) (last : Narrow back) :
    Narrow (front ++ back) := by
  intro c member
  rcases List.mem_append.mp member with early | late
  · exact first c early
  · exact last c late

theorem isDigit_narrow {c : Char} (digit : c.isDigit = true) : c.utf8Size = 1 :=
  utf8Size_narrow (Nat.le_trans (Char.isDigit_iff_toNat.mp digit).2 (by decide))

theorem isDigits_narrow {digits : List Char} (all : IsDigits digits) : Narrow digits :=
  fun c member => isDigit_narrow (all c member)

/-! Places. -/

namespace Place

/-- Whole characters lead from one place to the other. -/
def Reaches (p q : Place) : Prop :=
  ∃ passed, p.rest = passed ++ q.rest ∧ q.offset = p.offset + byteLength passed

theorem Reaches.refl (p : Place) : p.Reaches p := ⟨[], rfl, rfl⟩

theorem Reaches.trans {p q r : Place} (first : p.Reaches q) (next : q.Reaches r) : p.Reaches r := by
  obtain ⟨front, shape, offset⟩ := first
  obtain ⟨back, shape', offset'⟩ := next
  refine ⟨front ++ back, by rw [shape, shape', List.append_assoc], ?_⟩
  rw [offset', offset, byteLength_append, Nat.add_assoc]

/-- Characters of one byte each are counted. -/
theorem reaches_narrow {front : List Char} (narrow : Narrow front) (rest : List Char)
    (offset : Nat) :
    Reaches ⟨front ++ rest, offset⟩ ⟨rest, offset + front.length⟩ :=
  ⟨front, rfl, by rw [narrow.byteLength]⟩

theorem reaches_one {c : Char} {rest : List Char} {offset : Nat} (narrow : c.utf8Size = 1) :
    Reaches ⟨c :: rest, offset⟩ ⟨rest, offset + 1⟩ :=
  reaches_narrow (.cons narrow narrow_nil) rest offset

/-- If there is an offset to a fault, whole characters lead to it. -/
def Locates (p : Place) (fault : Fault) : Prop :=
  ∀ cause offset, fault = .malformed cause offset → ∃ q, p.Reaches q ∧ q.offset = offset

theorem locates_end (p : Place) : p.Locates .endOfInput := nofun

theorem Reaches.locates {p q : Place} (reached : p.Reaches q) (cause : Malformed) :
    p.Locates (.malformed cause q.offset) := by
  rintro _ _ ⟨⟩
  exact ⟨q, reached, rfl⟩

theorem Locates.back {p q : Place} {fault : Fault} (located : q.Locates fault)
    (reached : p.Reaches q) : p.Locates fault := by
  intro cause offset same
  obtain ⟨r, further, there⟩ := located cause offset same
  exact ⟨r, reached.trans further, there⟩

end Place

/-! Strings. -/

theorem hexValue_narrow {c : Char} {value : Nat} (digit : Text.hexValue? c = some value) :
    c.utf8Size = 1 := by
  have upper (top : Char) (small : top.toNat ≤ 0x7F) (below : c ≤ top) : c.utf8Size = 1 :=
    utf8Size_narrow (Nat.le_trans (UInt32.le_iff_toNat_le.mp below) small)
  unfold Text.hexValue? at digit
  split at digit
  · exact upper '9' (by decide) (by rename_i h; exact h.2)
  · split at digit
    · exact upper 'f' (by decide) (by rename_i h; exact h.2)
    · split at digit
      · exact upper 'F' (by decide) (by rename_i h; exact h.2)
      · cases digit

theorem fourHex_narrow {p q r s : Char} {code : Nat} (digits : Text.fourHex? p q r s = some code) :
    Narrow [p, q, r, s] := by
  simp only [Text.fourHex?, Option.bind_eq_bind, Option.bind_eq_some_iff] at digits
  obtain ⟨_, first, _, second, _, third, _, fourth, -⟩ := digits
  exact .cons (hexValue_narrow first) <| .cons (hexValue_narrow second) <|
    .cons (hexValue_narrow third) <| .cons (hexValue_narrow fourth) narrow_nil

theorem shortEscape_narrow {mark c : Char} (named : Text.shortEscape? mark = some c) :
    mark.utf8Size = 1 := by
  unfold Text.shortEscape? at named
  split at named
  all_goals first | rfl | cases named

/-- Escapes are written in characters of one byte. -/
theorem escape_narrow {c : Char} {one : List Char} (spelled : CharSpelled c ('\\' :: one)) :
    Narrow one := by
  cases spelled with
  | plain _ backslash => exact absurd rfl backslash
  | short named => exact .cons (shortEscape_narrow named) narrow_nil
  | code digits => exact .cons rfl (fourHex_narrow digits)
  | pair first _ second =>
    exact .append (.cons rfl (fourHex_narrow first)) (.cons rfl (.cons rfl (fourHex_narrow second)))

theorem scanCode_located {chars : List Char} {offset : Nat} {fault : Fault}
    (failed : scanCode chars offset = .error fault) : Place.Locates ⟨chars, offset⟩ fault := by
  have here (cause : Malformed) := (Place.Reaches.refl ⟨chars, offset⟩).locates cause
  unfold scanCode at failed
  split at failed
  · split at failed
    · cases failed
    · cases failed
      exact here _
  · split at failed <;> cases failed
    · exact Place.locates_end _
    · exact here _

theorem scanUnicode_located {chars : List Char} {offset : Nat} {fault : Fault}
    (failed : scanUnicode chars offset = .error fault) : Place.Locates ⟨chars, offset⟩ fault := by
  have here (cause : Malformed) := (Place.Reaches.refl ⟨chars, offset⟩).locates cause
  unfold scanUnicode at failed
  split at failed
  · rename_i stopped
    cases failed
    exact scanCode_located stopped
  · rename_i code scanned
    obtain ⟨p, q, r, s, digits, shape⟩ := scanCode_ok scanned
    split at failed
    · split at failed
      · rename_i rest follows
        -- The second half begins six characters on: a code, a backslash and a mark.
        have reached : Place.Reaches ⟨chars, offset⟩ ⟨rest, offset + 6⟩ := by
          rw [shape, follows]
          have narrow : Narrow ([p, q, r, s] ++ ['\\', 'u']) :=
            .append (fourHex_narrow digits) (by decide)
          exact Place.reaches_narrow narrow rest offset
        split at failed
        · rename_i stopped
          cases failed
          exact (scanCode_located stopped).back reached
        · split at failed <;> cases failed
          exact here _
      · cases failed
        exact here _
    · split at failed <;> cases failed
      exact here _

theorem scanEscape_located {chars : List Char} {offset : Nat} {fault : Fault}
    (failed : scanEscape chars offset = .error fault) : Place.Locates ⟨chars, offset⟩ fault := by
  unfold scanEscape at failed
  split at failed
  · cases failed
    exact Place.locates_end _
  · split at failed
    · rename_i stopped
      cases failed
      exact (scanUnicode_located stopped).back (Place.reaches_one rfl)
    · cases failed
  · split at failed <;> cases failed
    exact (Place.Reaches.refl _).locates _

theorem scanEscape_reaches {chars : List Char} {offset taken : Nat} {c : Char}
    (found : scanEscape chars offset = .ok (c, taken)) :
    Place.Reaches ⟨chars, offset⟩ ⟨chars.drop taken, offset + taken⟩ := by
  obtain ⟨one, spelled, long, shape⟩ := scanEscape_ok found
  have passed := Place.reaches_narrow (escape_narrow spelled) (chars.drop taken) offset
  rwa [← shape, long] at passed

theorem scanQuoted_reaches {chars decoded : List Char} {offset : Nat} {after : Place}
    (found : scanQuoted chars offset = .ok (decoded, after)) :
    Place.Reaches ⟨chars, offset⟩ after := by
  fun_induction scanQuoted chars offset generalizing decoded after with
  | case2 =>
    cases found
    exact Place.reaches_one rfl
  | case5 rest _ c taken escape _ _ inner _ ih =>
    cases found
    exact ((Place.reaches_one rfl).trans (scanEscape_reaches escape)).trans (ih inner)
  | case8 c rest _ quote backslash control _ _ inner ih =>
    cases found
    exact Place.Reaches.trans ⟨[c], rfl, by simp⟩ (ih inner)
  | _ => cases found

theorem scanQuoted_located {chars : List Char} {offset : Nat} {fault : Fault}
    (failed : scanQuoted chars offset = .error fault) : Place.Locates ⟨chars, offset⟩ fault := by
  fun_induction scanQuoted chars offset generalizing fault with
  | case1 =>
    cases failed
    exact Place.locates_end _
  | case2 => cases failed
  | case3 rest offset _ stopped =>
    cases failed
    exact (scanEscape_located stopped).back (Place.reaches_one rfl)
  | case4 rest offset c taken escape _ stopped _ ih =>
    cases failed
    exact (ih stopped).back ((Place.reaches_one rfl).trans (scanEscape_reaches escape))
  | case5 => cases failed
  | case6 =>
    cases failed
    exact (Place.Reaches.refl _).locates _
  | case7 c rest offset _ _ _ _ stopped ih =>
    cases failed
    exact (ih stopped).back ⟨[c], rfl, by simp⟩
  | case8 => cases failed

theorem scanString_reaches {place after : Place} {text : String}
    (quote : place.rest.head? = some '"') (found : scanString place = .ok (text, after)) :
    place.Reaches after := by
  obtain ⟨rest, shape⟩ := List.head?_eq_some_iff.mp quote
  unfold scanString at found
  split at found
  · cases found
  · rename_i scanned
    cases found
    rw [shape] at scanned
    have opened : place.Reaches ⟨rest, place.offset + 1⟩ := ⟨['"'], shape, rfl⟩
    exact opened.trans (scanQuoted_reaches scanned)

theorem scanString_located {place : Place} {fault : Fault} (quote : place.rest.head? = some '"')
    (failed : scanString place = .error fault) : place.Locates fault := by
  obtain ⟨rest, shape⟩ := List.head?_eq_some_iff.mp quote
  unfold scanString at failed
  split at failed
  · rename_i stopped
    cases failed
    rw [shape] at stopped
    have opened : place.Reaches ⟨rest, place.offset + 1⟩ := ⟨['"'], shape, rfl⟩
    exact (scanQuoted_located stopped).back opened
  · cases failed

/-! Numbers. -/

theorem sign_narrow {sign : List Char} (written : sign = [] ∨ sign = ['+'] ∨ sign = ['-']) :
    Narrow sign := by
  rcases written with rfl | rfl | rfl
  · exact narrow_nil
  · exact .cons rfl narrow_nil
  · exact .cons rfl narrow_nil

theorem signChars_narrow (negative : Bool) : Narrow (NumberLiteral.signChars negative) :=
  sign_narrow (by cases negative <;> simp [NumberLiteral.signChars])

theorem isWhole_narrow {whole : List Char} (written : Json.IsWhole whole) : Narrow whole := by
  rcases written with rfl | ⟨first, rest, rfl, -, digits⟩
  · exact .cons rfl narrow_nil
  · exact isDigits_narrow digits

theorem fractionChars_narrow {fraction : List Char} (digits : IsDigits fraction) :
    Narrow (NumberLiteral.fractionChars fraction) := by
  unfold NumberLiteral.fractionChars
  split
  · exact narrow_nil
  · exact .cons rfl (isDigits_narrow digits)

theorem mark_narrow {mark : Char} (written : mark = 'e' ∨ mark = 'E') : mark.utf8Size = 1 := by
  rcases written with rfl | rfl <;> rfl

theorem exponentChars_narrow {exponent : Option Json.Exponent}
    (grammatical : ∀ power, exponent = some power → power.Grammatical) :
    Narrow (NumberLiteral.exponentChars exponent) := by
  cases exponent with
  | none => exact narrow_nil
  | some power =>
    obtain ⟨mark, sign, -, digits⟩ := grammatical power rfl
    exact .cons (mark_narrow mark) (.append (sign_narrow sign) (isDigits_narrow digits))

theorem literal_narrow {literal : NumberLiteral} (grammatical : literal.Grammatical) :
    Narrow literal.chars := by
  rw [NumberLiteral.chars_parts]
  exact (signChars_narrow _).append <| (isWhole_narrow grammatical.whole).append <|
    (fractionChars_narrow grammatical.fraction).append (exponentChars_narrow grammatical.exponent)

/-- So many characters fit before a fault, each of one byte. -/
def Fitting (chars : List Char) (fitting : Nat) : Prop :=
  ∃ front rest, chars = front ++ rest ∧ Narrow front ∧ front.length = fitting

theorem Fitting.after {chars : List Char} {fitting : Nat} (fits : Fitting chars fitting)
    {front : List Char} (narrow : Narrow front) :
    Fitting (front ++ chars) (front.length + fitting) := by
  obtain ⟨more, rest, rfl, alsoNarrow, rfl⟩ := fits
  exact ⟨front ++ more, rest, by simp, narrow.append alsoNarrow, by simp⟩

theorem scanWhole_fitting {chars : List Char} {fitting : Nat}
    (failed : NumberLiteral.scanWhole chars = .error fitting) : Fitting chars fitting := by
  unfold NumberLiteral.scanWhole at failed
  repeat' split at failed
  all_goals cases failed
  all_goals exact ⟨[], _, rfl, narrow_nil, rfl⟩

theorem scanFraction_fitting {chars : List Char} {fitting : Nat}
    (failed : NumberLiteral.scanFraction chars = .error fitting) : Fitting chars fitting := by
  unfold NumberLiteral.scanFraction at failed
  split at failed
  · simp only at failed
    split at failed <;> cases failed
    exact ⟨['.'], _, rfl, .cons rfl narrow_nil, rfl⟩
  · cases failed

theorem scanExponent_fitting {chars : List Char} {fitting : Nat}
    (failed : NumberLiteral.scanExponent chars = .error fitting) : Fitting chars fitting := by
  unfold NumberLiteral.scanExponent at failed
  split at failed
  · cases failed
  · rename_i c rest
    split at failed
    · rename_i mark
      obtain ⟨sign, parts⟩ := NumberLiteral.scanPowerSign_parts rest
      simp only at failed
      split at failed <;> cases failed
      refine ⟨c :: (NumberLiteral.scanPowerSign rest).1, (NumberLiteral.scanPowerSign rest).2, ?_,
        .cons (mark_narrow mark) (sign_narrow sign), by simp [Nat.add_comm]⟩
      rw [List.cons_append, ← parts]
    · cases failed

theorem scan_fitting {chars : List Char} {fitting : Nat}
    (failed : NumberLiteral.scan chars = .error fitting) : Fitting chars fitting := by
  rw [NumberLiteral.scanSign_parts chars]
  have sign : (NumberLiteral.signChars (NumberLiteral.scanSign chars).1).length =
      if (NumberLiteral.scanSign chars).1 then 1 else 0 := by
    cases (NumberLiteral.scanSign chars).1 <;> rfl
  unfold NumberLiteral.scan at failed
  simp only [← sign] at failed
  have signed := signChars_narrow (NumberLiteral.scanSign chars).1
  split at failed
  · rename_i stopped
    cases failed
    exact (scanWhole_fitting stopped).after signed
  · rename_i whole rest scannedWhole
    obtain ⟨isWhole, parts⟩ := NumberLiteral.scanWhole_ok scannedWhole
    rw [parts, ← List.append_assoc]
    have passed := signed.append (isWhole_narrow isWhole)
    split at failed
    · rename_i stopped
      cases failed
      rw [← List.length_append]
      exact (scanFraction_fitting stopped).after passed
    · rename_i fraction rest scannedFraction
      obtain ⟨digits, parts⟩ := NumberLiteral.scanFraction_ok scannedFraction
      rw [parts, ← List.append_assoc]
      have passed := passed.append (fractionChars_narrow digits)
      split at failed
      · rename_i fitting stopped
        cases failed
        have count : (NumberLiteral.signChars (NumberLiteral.scanSign chars).1 ++ whole ++
            NumberLiteral.fractionChars fraction).length =
              if fraction.isEmpty then
                (NumberLiteral.signChars (NumberLiteral.scanSign chars).1).length + whole.length
              else (NumberLiteral.signChars (NumberLiteral.scanSign chars).1).length +
                whole.length + 1 + fraction.length := by
          unfold NumberLiteral.fractionChars
          split <;> simp only [List.length_append, List.length_nil, List.length_cons] <;> omega
        rw [← count]
        exact (scanExponent_fitting stopped).after passed
      · cases failed

theorem scanNumber_reaches {place after : Place} {literal : NumberLiteral}
    (found : scanNumber place = .ok (literal, after)) :
    place.Reaches after ∧ after.offset = place.offset + literal.chars.length := by
  unfold scanNumber at found
  split at found
  · cases found
  · rename_i scanned
    cases found
    obtain ⟨grammatical, parts⟩ := NumberLiteral.scan_ok scanned
    exact ⟨⟨literal.chars, parts, by rw [(literal_narrow grammatical).byteLength]⟩, rfl⟩

theorem scanNumber_located {place : Place} {fault : Fault}
    (failed : scanNumber place = .error fault) : place.Locates fault := by
  unfold scanNumber at failed
  split at failed
  · rename_i stopped
    cases failed
    obtain ⟨front, rest, shape, narrow, rfl⟩ := scan_fitting stopped
    have reached : place.Reaches ⟨rest, place.offset + front.length⟩ :=
      ⟨front, shape, by rw [narrow.byteLength]⟩
    exact reached.locates _
  · cases failed

end TaggedJson.Pull
