import TaggedJson.Json.Tree.Parser
import TaggedJson.Proofs.Fields
/-! Written values read as whole documents. The text of a value has one tree, which is as deep as
the value, and stands for it wherever its numbers are read back. -/
namespace TaggedJson.Json

/-! Strings. -/

/-- How a character between quotes is written: by its code only if it is a control without an escape
of its own. -/
def writtenPiece (c : Char) : Piece :=
  if c.toNat < 0x20 ∧ c ∉ ['\n', '\r', '\t', '\x08', '\x0c'] then .code c.toNat else .plain c

def writtenPieces (text : String) : List Piece := text.toList.map writtenPiece

/-- One more element in front of those found. -/
def withPiece (piece : Piece) (found : List Piece × List Char) : List Piece × List Char :=
  (piece :: found.1, found.2)

theorem scanPieces_short {mark c : Char} (named : Text.shortEscape? mark = some c)
    (rest : List Char) :
    scanPieces ('\\' :: mark :: rest) = (scanPieces rest).map (withPiece (.plain c)) := by
  -- A code is looked for first, but no short escape is named as codes are.
  have plain : mark ≠ 'u' := by rintro rfl; simp [Text.shortEscape?] at named
  rw [scanPieces, named]
  · cases scanPieces rest <;> rfl
  · simp [plain]

theorem scanPieces_code {a b c d : Char} {unit : Nat}
    (digits : Text.fourHex? a b c d = some unit) (rest : List Char) :
    scanPieces ('\\' :: 'u' :: a :: b :: c :: d :: rest) =
      (scanPieces rest).map (withPiece (.code unit)) := by
  rw [scanPieces, digits]
  cases scanPieces rest <;> rfl

theorem scanPieces_plain {c : Char} (quote : c ≠ '"') (backslash : c ≠ '\\')
    (control : 0x20 ≤ c.toNat) (rest : List Char) :
    scanPieces (c :: rest) = (scanPieces rest).map (withPiece (.plain c)) := by
  have solid : ¬(c = '\\' ∨ c.toNat < 0x20) := by simp [backslash, control]
  rw [scanPieces, if_neg solid]
  · cases scanPieces rest <;> rfl
  all_goals simp [quote, backslash]

theorem scanPieces_escape (c : Char) (rest : List Char) :
    scanPieces (Text.escapeChar c ++ rest) =
      (scanPieces rest).map (withPiece (writtenPiece c)) := by
  unfold Text.escapeChar
  by_cases quote : c = '"'
  · rw [if_pos quote, quote]
    exact scanPieces_short rfl rest
  rw [if_neg quote]
  by_cases backslash : c = '\\'
  · rw [if_pos backslash, backslash]
    exact scanPieces_short rfl rest
  rw [if_neg backslash]
  repeat' split
  iterate 5
    subst_vars
    exact scanPieces_short rfl rest
  · rename_i control
    have written : writtenPiece c = .code c.toNat := if_pos (by simp_all)
    rw [written]
    exact scanPieces_code (fourHex_low (by omega)) rest
  · rename_i control
    have written : writtenPiece c = .plain c := if_neg fun written => control written.1
    rw [written]
    exact scanPieces_plain quote backslash (by omega) rest

theorem scanPieces_written (text : String) (rest : List Char) :
    scanPieces (Text.escapeChars text.toList ++ '"' :: rest) =
      some (writtenPieces text, rest) := by
  unfold writtenPieces
  induction text.toList with
  | nil => rfl
  | cons c others ih =>
    have first : Text.escapeChars (c :: others) = Text.escapeChar c ++ Text.escapeChars others :=
      List.flatMap_cons
    rw [first, List.append_assoc, scanPieces_escape, ih]
    rfl

/-- No control is half of a pair. -/
theorem decodePieces_control {unit : Nat} (control : unit < 0x20) (rest : List Piece) :
    decodePieces (.code unit :: rest) = (decodePieces rest).map (Char.ofNat unit :: ·) := by
  have high : Text.isHighSurrogate unit = false := by
    simp only [Text.isHighSurrogate, Bool.and_eq_false_iff, decide_eq_false_iff_not]
    omega
  have low : Text.isLowSurrogate unit = false := by
    simp only [Text.isLowSurrogate, Bool.and_eq_false_iff, decide_eq_false_iff_not]
    omega
  cases rest with
  | nil => simp [decodePieces, high, low]
  | cons next later => cases next <;> simp [decodePieces, high, low]

theorem decodePieces_written (c : Char) (rest : List Piece) :
    decodePieces (writtenPiece c :: rest) = (decodePieces rest).map (c :: ·) := by
  unfold writtenPiece
  split
  · rename_i written
    rw [decodePieces_control written.1, Char.ofNat_toNat]
  · rw [decodePieces]

theorem textOf_written (text : String) : textOf? (writtenPieces text) = some text := by
  have decoded : decodePieces (writtenPieces text) = some text.toList := by
    unfold writtenPieces
    induction text.toList with
    | nil => rfl
    | cons c others ih => rw [List.map_cons, decodePieces_written, ih, Option.map_some]
  rw [textOf?, decoded, Option.map_some, String.ofList_toList]

/-! Values. -/

namespace Value

mutual
/-- The tree a value is written as. -/
def tree : Value → Tree
  | .null => .null
  | .bool value => .bool value
  | .number n => .number n.literal
  | .string text => .string (writtenPieces text)
  | .array items => .array (itemTrees items)
  | .object members => .object (memberTrees members)

def itemTrees : List Value → List Tree
  | [] => []
  | item :: rest => item.tree :: itemTrees rest

def memberTrees : Members → List (List Piece × Tree)
  | [] => []
  | (name, value) :: rest => (writtenPieces name, value.tree) :: memberTrees rest
end

mutual
theorem tree_depth : ∀ value : Value, value.tree.depth = value.depth
  | .null | .bool _ | .number _ | .string _ => rfl
  | .array items => congrArg (· + 1) (itemTrees_depth items)
  | .object members => congrArg (· + 1) (memberTrees_depth members)

theorem itemTrees_depth : ∀ items : List Value,
    Tree.depthItems (itemTrees items) = depthItems items
  | [] => rfl
  | item :: rest => congrArg₂ max (tree_depth item) (itemTrees_depth rest)

theorem memberTrees_depth : ∀ members : Members,
    Tree.depthMembers (memberTrees members) = depthMembers members
  | [] => rfl
  | (_, value) :: rest => congrArg₂ max (tree_depth value) (memberTrees_depth rest)
end

/-- The names of members come back from their trees. -/
theorem memberTrees_named (members : Members) :
    ((memberTrees members).mapM fun (name, tree) =>
      (textOf? name).map fun name => (name, tree)) =
        some (members.map fun (name, value) => (name, value.tree)) := by
  induction members with
  | nil => rfl
  | cons member rest ih =>
    obtain ⟨name, value⟩ := member
    simp only [memberTrees, List.mapM_cons, textOf_written, Option.map_some]
    rw [ih]
    rfl

mutual
/-- The numbers in a value, as often as they are there. -/
def numbers : Value → List Number
  | .number n => [n]
  | .array items => itemNumbers items
  | .object members => memberNumbers members
  | _ => []

def itemNumbers : List Value → List Number
  | [] => []
  | item :: rest => item.numbers ++ itemNumbers rest

def memberNumbers : Members → List Number
  | [] => []
  | (_, value) :: rest => value.numbers ++ memberNumbers rest
end

mutual
/-- A value is what its tree stands for, if each of its numbers is. -/
theorem tree_value {reading : Reading} : ∀ value : Value, value.Distinct →
    (∀ n ∈ value.numbers, reading.number? n.literal = some n) →
    value.tree.value? reading = some value
  | .null, _, _ | .bool _, _, _ => rfl
  | .number n, _, returned => by
    rw [tree, Tree.value?, returned n (List.mem_singleton.mpr rfl)]
    rfl
  | .string text, _, _ => by
    rw [tree, Tree.value?, textOf_written]
    rfl
  | .array items, distinct, returned => by
    rw [tree, Tree.value?, itemTrees_values items distinct returned]
    rfl
  | .object members, distinct, returned => by
    rw [tree, Tree.value?, memberTrees_values [] members distinct.1 distinct.2 returned]
    rfl

theorem itemTrees_values {reading : Reading} : ∀ items : List Value, ItemsDistinct items →
    (∀ n ∈ itemNumbers items, reading.number? n.literal = some n) →
    Tree.items? reading (itemTrees items) = some items
  | [], _, _ => rfl
  | item :: rest, distinct, returned => by
    obtain ⟨first, others⟩ := List.forall_mem_append.mp returned
    rw [itemTrees, Tree.items?, tree_value item distinct.1 first,
      itemTrees_values rest distinct.2 others]
    rfl

theorem memberTrees_values {reading : Reading} : ∀ (before members : Members),
    ((before ++ members).map Prod.fst).Nodup → MembersDistinct members →
    (∀ n ∈ memberNumbers members, reading.number? n.literal = some n) →
    Tree.members? reading before (memberTrees members) = some (before ++ members)
  | before, [], _, _, _ => congrArg some (List.append_nil before).symm
  | before, (name, value) :: rest, apart, distinct, returned => by
    obtain ⟨first, others⟩ := List.forall_mem_append.mp returned
    have fresh : name ∉ before.map Prod.fst := by
      rw [List.map_append, List.nodup_append] at apart
      exact fun here => apart.2.2 name here name List.mem_cons_self rfl
    have absent : before.has name = false := Bool.eq_false_iff.mpr fun here =>
      fresh (Pull.has_iff.mp here)
    have later := memberTrees_values (before ++ [(name, value)]) rest (by simpa using apart)
      distinct.2 others
    rw [memberTrees, Tree.members?, textOf_written, tree_value value distinct.1 first]
    simp only [Option.bind_eq_bind, Option.bind_some, absent, Bool.false_and, Bool.false_eq_true,
      if_false, Members.put_fresh fresh]
    rw [later, List.append_assoc, List.singleton_append]
end

end Value

/-! Text. -/

theorem quoteChars_append (chars rest : List Char) : Text.quoteChars chars ++ rest =
    '"' :: (Text.escapeChars chars ++ '"' :: rest) := by
  simp [Text.quoteChars]

theorem skipSpace_solid {c : Char} (solid : isSpace c = false) (rest : List Char) :
    skipSpace (c :: rest) = c :: rest :=
  List.dropWhile_cons_of_neg (by simp [solid])

/-- No value begins with space or a bracket that closes. -/
theorem Value.chars_head (value : Value) : ∃ c rest, value.chars = c :: rest ∧
    isSpace c = false ∧ c ≠ ']' := by
  cases value with
  | bool value => cases value <;> exact ⟨_, _, rfl, by decide, by decide⟩
  | number n =>
    obtain ⟨c, rest, shape, solid, kind⟩ := spelled_head (.number n.literal_grammatical)
    rw [chars, ← n.literal_chars]
    refine ⟨c, rest, shape, solid, ?_⟩
    rintro rfl
    cases kind
  | null | string text | array items | object members => exact ⟨_, _, rfl, by decide, by decide⟩

namespace Tree
open Value (chars itemChars memberChars itemTrees memberTrees commaSeparated_cons)

/-! What scanning does once the first character is known. -/

section Scan
variable (steps : Nat) {rest : List Char}

theorem scan_string (text : String) :
    scan (steps + 1) (Text.quoteChars text.toList ++ rest) =
      some (.string (writtenPieces text), rest) := by
  rw [quoteChars_append, scan, skipSpace_solid (by decide)]
  simp only [scanPieces_written]
  rfl

theorem scan_number (n : Number) (stops : NumberLiteral.Stops rest) :
    scan (steps + 1) (n.chars ++ rest) = some (.number n.literal, rest) := by
  have scanned := NumberLiteral.scan_chars n.literal_grammatical stops
  obtain ⟨c, others, shape, solid, kind⟩ := spelled_head (.number n.literal_grammatical)
  rw [← n.literal_chars]
  rw [shape, List.cons_append] at scanned ⊢
  rw [scan, skipSpace_solid solid]
  -- A digit or a minus sign begins nothing else.
  split
  iterate 6
    rename_i same
    obtain ⟨rfl, -⟩ := List.cons.inj same
    cases kind
  rw [scanned]

theorem scan_emptyArray : scan (steps + 1) ('[' :: ']' :: rest) = some (.array [], rest) := by
  rw [scan, skipSpace_solid (by decide)]
  simp only [skipSpace_solid (show isSpace ']' = false by decide)]

theorem scan_emptyObject : scan (steps + 1) ('{' :: '}' :: rest) = some (.object [], rest) := by
  rw [scan, skipSpace_solid (by decide)]
  simp only [skipSpace_solid (show isSpace '}' = false by decide)]

theorem scan_array {c : Char} (solid : isSpace c = false) (more : c ≠ ']') {inner : List Char}
    {items : List Tree} (scanned : scanItems steps (c :: inner) = some (items, rest)) :
    scan (steps + 1) ('[' :: c :: inner) = some (.array items, rest) := by
  rw [scan, skipSpace_solid (by decide)]
  simp only [skipSpace_solid solid]
  split
  · rename_i same
    cases same
    exact (more rfl).elim
  · rw [scanned]
    rfl

theorem scan_object {inner : List Char} {members : List (List Piece × Tree)}
    (scanned : scanMembers steps ('"' :: inner) = some (members, rest)) :
    scan (steps + 1) ('{' :: '"' :: inner) = some (.object members, rest) := by
  rw [scan, skipSpace_solid (by decide)]
  simp only [skipSpace_solid (show isSpace '"' = false by decide)]
  show (scanMembers steps ('"' :: inner)).bind _ = _
  rw [scanned]
  rfl

theorem scanItems_last {chars : List Char} {item : Tree}
    (scanned : scan steps chars = some (item, ']' :: rest)) :
    scanItems (steps + 1) chars = some ([item], rest) := by
  rw [scanItems, scanned]
  simp only [Option.bind_eq_bind, Option.bind_some,
    skipSpace_solid (show isSpace ']' = false by decide)]

theorem scanItems_more {chars others : List Char} {item : Tree} {items : List Tree}
    (scanned : scan steps chars = some (item, ',' :: others))
    (further : scanItems steps others = some (items, rest)) :
    scanItems (steps + 1) chars = some (item :: items, rest) := by
  rw [scanItems, scanned]
  simp only [Option.bind_eq_bind, Option.bind_some,
    skipSpace_solid (show isSpace ',' = false by decide), further]

theorem scanMembers_last (name : String) {chars : List Char} {tree : Tree}
    (scanned : scan steps chars = some (tree, '}' :: rest)) :
    scanMembers (steps + 1) (Text.quoteChars name.toList ++ ':' :: chars) =
      some ([(writtenPieces name, tree)], rest) := by
  rw [quoteChars_append, scanMembers, skipSpace_solid (by decide)]
  simp only [scanPieces_written, Option.bind_eq_bind, Option.bind_some,
    skipSpace_solid (show isSpace ':' = false by decide), scanned,
    skipSpace_solid (show isSpace '}' = false by decide)]

theorem scanMembers_more (name : String) {chars others : List Char} {tree : Tree}
    {members : List (List Piece × Tree)}
    (scanned : scan steps chars = some (tree, ',' :: others))
    (further : scanMembers steps others = some (members, rest)) :
    scanMembers (steps + 1) (Text.quoteChars name.toList ++ ':' :: chars) =
      some ((writtenPieces name, tree) :: members, rest) := by
  rw [quoteChars_append, scanMembers, skipSpace_solid (by decide)]
  simp only [scanPieces_written, Option.bind_eq_bind, Option.bind_some,
    skipSpace_solid (show isSpace ':' = false by decide), scanned,
    skipSpace_solid (show isSpace ',' = false by decide), further]

end Scan

/-! Enough steps for a text are twice its length: an item takes one less than the items it is the
first of, and it is shorter than they are by a comma or a bracket. -/

theorem stops_comma (rest : List Char) : NumberLiteral.Stops (',' :: rest) := by
  rintro _ ⟨⟩
  decide

theorem stops_bracket {c : Char} (closing : c = ']' ∨ c = '}') (rest : List Char) :
    NumberLiteral.Stops (c :: rest) := by
  rintro _ ⟨⟩
  rcases closing with rfl | rfl <;> decide

mutual
theorem scan_chars : ∀ (value : Value) {steps : Nat} {rest : List Char},
    2 * (chars value).length ≤ steps + 1 → NumberLiteral.Stops rest →
    scan (steps + 1) (chars value ++ rest) = some (value.tree, rest)
  | .null, _, _, _, _ | .bool true, _, _, _, _ | .bool false, _, _, _, _ => by
    rw [scan]
    rfl
  | .number n, steps, _, _, stops => scan_number steps n stops
  | .string text, steps, _, _, _ => scan_string steps text
  | .array [], steps, _, _, _ => scan_emptyArray steps
  | .object [], steps, _, _, _ => scan_emptyObject steps
  | .array (item :: items), steps, rest, enough, _ => by
    simp only [chars, List.cons_append, List.length_cons, List.length_append, List.length_nil]
      at enough
    obtain ⟨steps, rfl⟩ : ∃ fewer, steps = fewer + 1 := ⟨steps - 1, by omega⟩
    have inner := scan_items (item :: items) rest (List.cons_ne_nil _ _)
      (show 2 * (commaSeparated (itemChars (item :: items))).length ≤ steps by omega)
    obtain ⟨c, others, head, solid, more⟩ := item.chars_head
    rw [itemChars, commaSeparated_cons, head, List.cons_append, List.cons_append] at inner
    have scanned := scan_array _ solid more inner
    simpa [chars, itemChars, commaSeparated_cons, head, Value.tree] using scanned
  | .object ((name, value) :: members), steps, rest, enough, _ => by
    simp only [chars, List.cons_append, List.length_cons, List.length_append, List.length_nil]
      at enough
    obtain ⟨steps, rfl⟩ : ∃ fewer, steps = fewer + 1 := ⟨steps - 1, by omega⟩
    have inner := scan_members ((name, value) :: members) rest (List.cons_ne_nil _ _)
      (show 2 * (commaSeparated (memberChars ((name, value) :: members))).length ≤ steps by omega)
    rw [memberChars, commaSeparated_cons, List.append_assoc, List.append_assoc,
      quoteChars_append] at inner
    have scanned := scan_object _ inner
    simpa [chars, memberChars, commaSeparated_cons, quoteChars_append, Value.tree] using scanned

theorem scan_items : ∀ (items : List Value) {steps : Nat} (rest : List Char), items ≠ [] →
    2 * (commaSeparated (itemChars items)).length ≤ steps →
    scanItems (steps + 1) (commaSeparated (itemChars items) ++ ']' :: rest) =
      some (itemTrees items, rest)
  | [], _, _, nonempty, _ => (nonempty rfl).elim
  | [item], steps, rest, _, enough => by
    obtain ⟨c, others, head, -⟩ := item.chars_head
    have some : 0 < (chars item).length := head ▸ Nat.succ_pos _
    simp only [itemChars, commaSeparated] at enough
    obtain ⟨steps, rfl⟩ : ∃ fewer, steps = fewer + 1 := ⟨steps - 1, by omega⟩
    exact scanItems_last _ (scan_chars item enough (stops_bracket (.inl rfl) rest))
  | item :: next :: items, steps, rest, _, enough => by
    simp only [itemChars, commaSeparated, List.length_append, List.length_cons] at enough
    obtain ⟨steps, rfl⟩ : ∃ fewer, steps = fewer + 1 := ⟨steps - 1, by omega⟩
    have first := scan_chars item (show 2 * (chars item).length ≤ steps + 1 by omega)
      (stops_comma (commaSeparated (itemChars (next :: items)) ++ ']' :: rest))
    have others := scan_items (next :: items) rest (List.cons_ne_nil _ _)
      (show 2 * (commaSeparated (itemChars (next :: items))).length ≤ steps by
        rw [itemChars]; omega)
    have shape : commaSeparated (itemChars (item :: next :: items)) ++ ']' :: rest =
        chars item ++ ',' :: (commaSeparated (itemChars (next :: items)) ++ ']' :: rest) := by
      simp [itemChars, commaSeparated]
    rw [shape]
    exact scanItems_more _ first others

theorem scan_members : ∀ (members : Members) {steps : Nat} (rest : List Char), members ≠ [] →
    2 * (commaSeparated (memberChars members)).length ≤ steps →
    scanMembers (steps + 1) (commaSeparated (memberChars members) ++ '}' :: rest) =
      some (memberTrees members, rest)
  | [], _, _, nonempty, _ => (nonempty rfl).elim
  | [(name, value)], steps, rest, _, enough => by
    simp only [memberChars, commaSeparated, List.length_append, List.length_cons] at enough
    obtain ⟨steps, rfl⟩ : ∃ fewer, steps = fewer + 1 := ⟨steps - 1, by omega⟩
    have only := scan_chars value (show 2 * (chars value).length ≤ steps + 1 by omega)
      (stops_bracket (.inr rfl) rest)
    have shape : commaSeparated (memberChars [(name, value)]) ++ '}' :: rest =
        Text.quoteChars name.toList ++ ':' :: (chars value ++ '}' :: rest) := by
      simp [memberChars, commaSeparated]
    rw [shape]
    exact scanMembers_last _ name only
  | (name, value) :: (other, inner) :: members, steps, rest, _, enough => by
    simp only [memberChars, commaSeparated, List.length_append, List.length_cons] at enough
    obtain ⟨steps, rfl⟩ : ∃ fewer, steps = fewer + 1 := ⟨steps - 1, by omega⟩
    have first := scan_chars value (show 2 * (chars value).length ≤ steps + 1 by omega)
      (stops_comma (commaSeparated (memberChars ((other, inner) :: members)) ++ '}' :: rest))
    have others := scan_members ((other, inner) :: members) rest (List.cons_ne_nil _ _)
      (show 2 * (commaSeparated (memberChars ((other, inner) :: members))).length ≤ steps by
        rw [memberChars]; omega)
    have shape : commaSeparated (memberChars ((name, value) :: (other, inner) :: members)) ++
        '}' :: rest = Text.quoteChars name.toList ++ ':' :: (chars value ++ ',' ::
          (commaSeparated (memberChars ((other, inner) :: members)) ++ '}' :: rest)) := by
      simp [memberChars, commaSeparated]
    rw [shape]
    exact scanMembers_more _ name first others
end

/-- The text of a value is one tree. -/
theorem parse_text (value : Value) : parse value.text.toList = some value.tree := by
  have nothing : NumberLiteral.Stops [] := nofun
  have enough : 2 * (chars value).length ≤ 2 * (chars value).length + 1 + 1 := by omega
  have scanned := scan_chars value enough nothing
  rw [List.append_nil] at scanned
  rw [Value.text, String.toList_ofList, parse, scanned]
  rfl

end Tree
end TaggedJson.Json
