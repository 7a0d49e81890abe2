import TaggedJson.Lines.Conversion
import TaggedJson.Proofs.Leaves
import TaggedJson.Proofs.Nesting
import TaggedJson.Proofs.Resolution
import TaggedJson.Proofs.Transport
import TaggedJson.Proofs.Trees
/-! Variants between the two conversions of a line. A variant is printed with an envelope around its
fields, which is one level more than the document had, and what prints it reads deeper documents
than what reads it back. -/
namespace TaggedJson
open Json Hierarchy Pull

/-! Numbers. -/

/-- Scaling takes no integer for another number. -/
theorem Json.integer_scaled (value : Int) (fits : integerFits value) :
    (Number.integer value fits).literal.scaledNumber? = some (.integer value fits) := by
  have unsigned : ¬(integerLiteral value).isSignedZero := by
    rintro ⟨-, negative, zero⟩
    rw [integerLiteral_value] at zero
    rw [zero] at negative
    cases negative
  have fit : (integerLiteral value).isIntegral ∧ integerFits (integerLiteral value).wholeValue ∧
      ¬(integerLiteral value).isSignedZero := ⟨rfl, by rwa [integerLiteral_value], unsigned⟩
  rw [Number.literal, NumberLiteral.scaledNumber?, dif_pos fit]
  simp only [integerLiteral_value]

namespace Variant

/-- Scaling takes each double among the fields back from the literal it is written as. -/
def Returns (variant : Variant) : Prop := ∀ value : Double,
  .double value ∈ Value.memberNumbers variant.fields →
    (Number.double value).literal.scaledNumber? = some (.double value)

theorem Returns.numbers {variant : Variant} (returns : variant.Returns) :
    ∀ n ∈ Value.memberNumbers variant.fields, n.literal.scaledNumber? = some n := by
  intro n member
  cases n with
  | integer value fits => exact integer_scaled value fits
  | double value => exact returns value member

/-! Envelopes. -/

/-- The fields of an envelope, if it shows any. -/
def shown? (variant : Variant) : Option Tree :=
  if variant.fields.isEmpty then none else some (Value.object variant.fields).tree

theorem toValue_slots (variant : Variant) :
    variant.toValue.tree.slots? ["subtype", "fields"] false =
      some [some (.string (writtenPieces variant.subtype)), variant.shown?] := by
  unfold toValue shown?
  split
  · rw [Value.tree, Tree.slots?, Value.memberTrees_named]
    rfl
  · rw [Value.tree, Tree.slots?, Value.memberTrees_named]
    rfl

theorem toValue_depth (variant : Variant) : variant.toValue.depth =
    if variant.fields.isEmpty then 1 else Value.depthMembers variant.fields + 2 := by
  unfold toValue
  split
  · rfl
  · simp [Value.depth, Value.depthMembers]

/-- The fields that an envelope shows are read back, unless they nest too deep in it. -/
theorem shown_fields {variant : Variant} (distinct : (Value.object variant.fields).Distinct)
    (returns : variant.Returns) : Slot.withDefault? [] fieldsOfTree? variant.shown? =
      if variant.toValue.depth ≤ wholeDepthLimit then some variant.fields else none := by
  rw [toValue_depth]
  unfold shown?
  by_cases empty : variant.fields.isEmpty = true
  · rw [if_pos empty, if_pos empty, if_pos (by decide), List.isEmpty_iff.mp empty]
    rfl
  · have value : (Value.object variant.fields).tree.value? ⟨NumberLiteral.scaledNumber?, true⟩ =
        some (.object variant.fields) := Value.tree_value _ distinct returns.numbers
    rw [if_neg empty, if_neg empty, Slot.withDefault?, fieldsOfTree?, Value.tree_depth, value]
    rfl

/-- A printed variant is read back, unless its envelope nests too deep. -/
theorem parse_toValue {variant : Variant} (distinct : (Value.object variant.fields).Distinct)
    (returns : variant.Returns) : parse? variant.toValue.text =
      if variant.toValue.depth ≤ wholeDepthLimit then some variant else none := by
  rw [parse?, Tree.parse_text, Option.bind_some, ofTree?, toValue_slots]
  show (textOf? _).bind (fun subtype => (Slot.withDefault? [] fieldsOfTree? _).bind _) = _
  rw [textOf_written, shown_fields distinct returns]
  split <;> rfl

end Variant

/-! Where a variant comes from. -/

/-- The labels of an object lead to an entry with a name, or to a table that misses one of them and
takes for it an object with that name. A fallback without a label is left out, also one that has the
name: what it reads has kept its label as a field. -/
inductive Yields (name : String) : Table Variant → List (String × Document) → Prop
  | entry {table : Table Variant} {members : List (String × Document)}
    {entry : Hierarchy.Entry Variant} (selects : Selects table members entry)
    (named : entry.subtype = name) : Yields name table members
  | object {table : Table Variant} {members : List (String × Document)} {label : Option String}
    {value : Variant} (labeled : labelOf? table.key members = some label)
    (missed : label.bind table.lookup = none) (policy : table.policy = .object name value) :
    Yields name table members
  | inside {table inner : Table Variant} {members : List (String × Document)} {label : String}
    {group : Hierarchy.Entry Variant} {strict : Bool}
    (labeled : labelOf? table.key members = some (some label))
    (found : table.lookup label = some group)
    (hierarchy : group.body = .adapter (.tagged inner strict))
    (rest : Yields name inner members) : Yields name table members

/-- What such members give: what the entry reads once all keys on the way are stripped, or no
fields. -/
theorem Yields.ofMembers {name : String} {table : Table Variant}
    {members : List (String × Document)} (yields : Yields name table members)
    {outer : List String} (declared : Declared outer table) (strict : Bool) (setting : Setting) :
    (∃ tags entry, Chain table tags entry ∧ entry.subtype = name ∧
      table.ofMembers? strict setting members =
        (entry.body.ofMembers? (stripping (tags.map Prod.fst) (setting.strictly strict))
          members).map some) ∨
      table.ofMembers? strict setting members = some (some (.unit name)) := by
  induction yields generalizing outer strict setting with
  | entry selects named =>
    obtain ⟨tags, chain, made⟩ := selects.ofMembers declared strict setting
    exact .inl ⟨tags, _, chain, named, made⟩
  | @object table members label value labeled missed policy =>
    have resolved : table.resolve label = .ok (.object value) := by
      simp only [Table.resolve, missed, policy]
    rw [Table.ofMembers?_resolved labeled resolved, declared.object policy]
    exact .inr rfl
  | @inside table inner members label group strictly labeled found hierarchy rest ih =>
    have member : group ∈ table.members := List.mem_of_find?_eq_some found
    have resolved := resolve_of_lookup found
    obtain ⟨rfl, within, inward⟩ := declared.inner member hierarchy
    have handed : table.ofMembers? strict setting members =
        ((inner.ofMembers? false ((setting.strictly strict).withKey table.key true)
          members).join).map some := by
      rw [Table.ofMembers?_resolved labeled resolved, Target.ofMembers?, hierarchy,
        Body.ofMembers?, Adapter.ofMembers?]
    rcases ih inward false ((setting.strictly strict).withKey table.key true) with
      ⟨tags, entry, chain, named, made⟩ | made
    · refine .inl ⟨_, entry, .inside member hierarchy chain, named, ?_⟩
      rw [handed, made, Setting.strictly_false, join_map_some]
      rfl
    · refine .inr ?_
      rw [handed, made]
      rfl

section Leaf
variable {table : Table Variant} {tags : List (String × String)} {entry : Hierarchy.Entry Variant}
  {name : String} {variant : Variant}

/-- A variant that a text yields for a leaf is one that the leaf can write, and no deeper than texts
may be. -/
theorem leaf_yielded (accepted : Accepted table) (chain : Chain table tags entry)
    (leaf : LeafOf name (tags.map Prod.fst) entry.body) (same : name = entry.subtype)
    {outer : List String} (declared : Declared outer table) {text : String}
    {members : List (String × Document)} (spells : Spells text (.object members))
    (yields : Yields name table members) {strict : Bool}
    (read : table.fromJson strict text = .ok (some variant)) :
    variant.subtype = name ∧ (entry.body = .singleton (.unit name) → variant.fields = []) ∧
      (Value.object variant.fields).Distinct ∧
      (∀ key ∈ tags.map Prod.fst, key ∉ variant.fields.map Prod.fst) ∧
      Value.depthMembers variant.fields + 1 ≤ depthLimit := by
  obtain ⟨_, other, shallow, result⟩ := Table.fromJson_ok.mp read
  obtain rfl := spells_unique other spells
  have bound : Document.depthMembers members + 1 ≤ depthLimit := shallow
  rcases yields.ofMembers declared strict Setting.outermost with
    ⟨others, selected, branch, named, made⟩ | made
  · obtain ⟨subtype, unit, distinct, apart, depth⟩ :=
      leaf_made accepted chain leaf same branch named rfl (made.symm.trans result)
    exact ⟨subtype, unit, distinct, apart, by omega⟩
  · cases made.symm.trans result
    exact ⟨rfl, fun _ => rfl, ⟨List.nodup_nil, trivial⟩, fun _ _ => nofun, Nat.le_add_left 1 127⟩

/-- A leaf writes the document of a printed variant, which is a line of its own and gives the
variant again. -/
theorem leaf_document (accepted : Accepted table) (chain : Chain table tags entry)
    (fresh : (tags.map Prod.fst).Nodup) (leaf : LeafOf name (tags.map Prod.fst) entry.body)
    (same : name = entry.subtype) (named : variant.subtype = name)
    (unit : entry.body = .singleton (.unit name) → variant.fields = [])
    (distinct : (Value.object variant.fields).Distinct)
    (apart : ∀ key ∈ tags.map Prod.fst, key ∉ variant.fields.map Prod.fst)
    (shallow : Value.depthMembers variant.fields + 1 ≤ depthLimit) :
    ∃ document, table.toJson variant = .ok document ∧ Tidy document ∧
      ∀ strict, table.fromJson strict document = .ok (some variant) := by
  have again := leaf_reads accepted chain fresh leaf named unit distinct apart shallow
  rcases leaf_writes accepted chain leaf (named.trans same) unit with
    ⟨-, wrote⟩ | ⟨key, reserved, field, -⟩
  · exact ⟨_, wrote, Value.object_tidy _, again⟩
  · exact (apart key reserved field).elim

end Leaf

theorem decodeLine_some {table : Table Variant} {strict : Bool} {line : String} {variant : Variant}
    (read : table.fromJson strict line = .ok (some variant)) :
    decodeLine table strict line = .ok variant.toValue.text := by
  rw [decodeLine, read]

/-- Encoding a printed variant is writing it, unless its envelope nests too deep. -/
theorem encodeLine_printed {table : Table Variant} {variant : Variant} {document : String}
    (distinct : (Value.object variant.fields).Distinct) (returns : variant.Returns)
    (wrote : table.toJson variant = .ok document) :
    encodeLine table variant.toValue.text =
      if variant.toValue.depth ≤ wholeDepthLimit then .ok document else .error .notAVariant := by
  rw [encodeLine, Variant.parse_toValue distinct returns]
  by_cases fits : variant.toValue.depth ≤ wholeDepthLimit
  · rw [if_pos fits, if_pos fits]
    simp only [wrote]
  · rw [if_neg fits, if_neg fits]

theorem Variant.toValue_tidy (variant : Variant) : Tidy variant.toValue.text := by
  unfold toValue
  split <;> exact Value.object_tidy _

/-- What a run makes of one printed text. -/
def convertPrinted (convert : String → Except LineFailure String) (text : String) :
    Report LineFailure :=
  convertInput convert (Text.toUtf8 (linesText [text]))

theorem convertPrinted_tidy {convert : String → Except LineFailure String} {text : String}
    (tidy : Tidy text) : convertPrinted convert text = Report.empty.cons 1 (convert text) :=
  convertLines_printed convert 1 (List.forall_mem_singleton.mpr tidy)

/-! Circles, with a radius of any kind. -/

def circle (radius : Value) : Variant := ⟨"Circle", [("r", radius)]⟩

def circleMembers (radius : Value) : Members :=
  [("type", .string "figure"), ("shape", .string "circle"), ("r", radius)]

theorem circle_yields (radius : Value) :
    Yields "Circle" figuresTable (Value.memberDocuments (circleMembers radius)) :=
  .entry (.inside rfl rfl rfl (.here rfl rfl)) rfl

theorem circle_distinct {radius : Value} (distinct : radius.Distinct) :
    (Value.object (circle radius).fields).Distinct := ⟨by simp [circle], distinct, trivial⟩

theorem circle_read {radius : Value} (distinct : radius.Distinct) (shallow : radius.depth < 128)
    (strict : Bool) : figuresTable.fromJson strict (Value.object (circleMembers radius)).text =
      .ok (some (circle radius)) := by
  have depth : Value.depthMembers (circle radius).fields = radius.depth := Nat.max_zero _
  have apart : ∀ key ∈ ["type", "shape"], key ∉ (circle radius).fields.map Prod.fst := by
    simp [circle]
  exact leaf_reads (accepted_of_file figures_built) circle_chain (by decide) .record rfl nofun
    (circle_distinct distinct) apart (by rw [depth]; exact shallow) strict

theorem circle_placed :
    (["type", "shape"], ⟨"Circle", some "circle", ["round"], false, false, none, none⟩) ∈
      figures.places := List.mem_cons_of_mem _ List.mem_cons_self

theorem boxed_numbers (inner : Value) (levels : Nat) :
    (boxed inner levels).numbers = inner.numbers := by
  induction levels with
  | zero => rfl
  | succ levels ih =>
    rw [boxed, Value.numbers, Value.itemNumbers, Value.itemNumbers, ih, List.append_nil]

theorem circle_depth (radius : Value) : (circle radius).toValue.depth = radius.depth + 2 := by
  rw [Variant.toValue_depth]
  exact congrArg (· + 2) (Nat.max_zero _)

theorem box_returns (levels : Nat) : (circle (boxed .null levels)).Returns := by
  intro value member
  have none : Value.memberNumbers (circle (boxed .null levels)).fields = [] := by
    rw [circle, Value.memberNumbers, boxed_numbers]
    rfl
  rw [none] at member
  cases member

def half : Value := .number (.double ⟨false, 0x3FE0000000000000, by decide⟩)

theorem half_returns : (circle half).Returns := by
  intro value member
  rw [List.mem_singleton.mp member]
  decide +kernel

/-- A variant of a labeled leaf that a line is decoded into is printed as a line of its own.
Encoding takes that line if it nests at most 127 levels deep, and decoding the document it prints
gives the same variant and prints it again. A line that nests deeper is refused: it is no
variant. -/
theorem printed_line_returns {file : HierarchyFile} {table : Table Variant}
    (made : file.table = .ok table) {keys : List String} {found : Member} {label : String}
    (placed : (keys, found) ∈ file.places) (leaf : found.subtypes = none)
    (labeled : found.label = some label)
    (plain : found.singleton = true ∨ found.isDefault = false) (fresh : keys.Nodup)
    {text : String} {members : List (String × Document)} (spells : Spells text (.object members))
    (yields : Yields found.name table members) {strict : Bool} {variant : Variant}
    (read : table.fromJson strict text = .ok (some variant)) (returns : variant.Returns) :
    decodeLine table strict text = .ok variant.toValue.text ∧
    (variant.toValue.depth ≤ 127 → ∃ document,
      convertPrinted (encodeLine table) variant.toValue.text = ⟨[document], [], false⟩ ∧
      ∀ strict, table.fromJson strict document = .ok (some variant) ∧
        convertPrinted (decodeLine table strict) document =
          ⟨[variant.toValue.text], [], false⟩) ∧
    (127 < variant.toValue.depth →
      convertPrinted (encodeLine table) variant.toValue.text =
        ⟨[], [(1, .notAVariant)], false⟩) := by
  have accepted := accepted_of_file made
  obtain ⟨tags, entry, chain, rfl, is⟩ := file_lead made placed labeled
  obtain ⟨shape, -⟩ := is.leaf leaf plain
  obtain ⟨named, unit, distinct, apart, shallow⟩ :=
    leaf_yielded accepted chain shape is.subtype (declared_of_file made) spells yields read
  obtain ⟨document, wrote, tidy, again⟩ :=
    leaf_document accepted chain fresh shape is.subtype named unit distinct apart shallow
  have encoded := encodeLine_printed distinct returns wrote
  refine ⟨decodeLine_some read, ?_, ?_⟩
  · intro (fits : variant.toValue.depth ≤ wholeDepthLimit)
    refine ⟨document, ?_, fun strict => ⟨again strict, ?_⟩⟩
    · rw [convertPrinted_tidy variant.toValue_tidy, encoded, if_pos fits]
      rfl
    · rw [convertPrinted_tidy tidy, decodeLine_some (again strict)]
      rfl
  · intro (deep : wholeDepthLimit < variant.toValue.depth)
    rw [convertPrinted_tidy variant.toValue_tidy, encoded, if_neg (Nat.not_le.mpr deep)]
    rfl

theorem printed_line_returns_circle :
    (∃ document, convertPrinted (encodeLine figuresTable) (circle half).toValue.text =
      ⟨[document], [], false⟩ ∧ ∀ strict,
        figuresTable.fromJson strict document = .ok (some (circle half)) ∧
        convertPrinted (decodeLine figuresTable strict) document =
          ⟨[(circle half).toValue.text], [], false⟩) ∧
    convertPrinted (encodeLine figuresTable) (circle (boxed .null 126)).toValue.text =
      ⟨[], [(1, .notAVariant)], false⟩ := by
  have read := circle_read (show half.Distinct from trivial) (by decide) true
  have flat := printed_line_returns figures_built circle_placed rfl rfl (.inr rfl) (by decide)
    (Value.text_spells _) (circle_yields half) read half_returns
  have boxes := boxed_distinct (show Value.null.Distinct from trivial) 126
  have depth : (boxed .null 126).depth = 126 := boxed_depth .null 126
  have deep := printed_line_returns figures_built circle_placed rfl rfl (.inr rfl) (by decide)
    (Value.text_spells _) (circle_yields (boxed .null 126))
    (circle_read boxes (by omega) true) (box_returns 126)
  exact ⟨flat.2.1 (by decide), deep.2.2 (by rw [circle_depth]; omega)⟩

/-- A document of 127 levels is decoded, and encoding refuses the line it is printed on. -/
theorem deep_line_refused :
    figures.table = .ok figuresTable ∧
    (["type", "shape"], ⟨"Circle", some "circle", ["round"], false, false, none, none⟩) ∈
      figures.places ∧
    Yields "Circle" figuresTable (Value.memberDocuments (circleMembers (boxed .null 126))) ∧
    (circle (boxed .null 126)).Returns ∧
    decodeLine figuresTable false (Value.object (circleMembers (boxed .null 126))).text =
      .ok (circle (boxed .null 126)).toValue.text ∧
    encodeLine figuresTable (circle (boxed .null 126)).toValue.text = .error .notAVariant := by
  have boxes := boxed_distinct (show Value.null.Distinct from trivial) 126
  have depth : (boxed .null 126).depth = 126 := boxed_depth .null 126
  have deep : ¬(circle (boxed .null 126)).toValue.depth ≤ wholeDepthLimit := by
    rw [circle_depth, depth]
    decide
  have read := circle_read boxes (by omega) false
  refine ⟨figures_built, circle_placed, circle_yields _, box_returns 126, decodeLine_some read, ?_⟩
  rw [encodeLine, Variant.parse_toValue (circle_distinct boxes) (box_returns 126), if_neg deep]

end TaggedJson
