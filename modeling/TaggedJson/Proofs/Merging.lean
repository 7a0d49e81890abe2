import TaggedJson.Proofs.Chain
/-! What a member writes of its own and what its table makes of that. The label is put in front of
the members of the object, whatever is in them, and anything but an object cannot take it. -/
namespace TaggedJson.Hierarchy
open Json Emit
variable {α : Type}

/-- The text of a member that is a string. -/
def tagChars (key label : String) : List Char :=
  Text.quoteChars key.toList ++ ':' :: Text.quoteChars label.toList

/-- The text of an object with one more member, put first. What follows the brace at the start of it
stays as it is. -/
def putFirst (key label text : String) : String :=
  String.ofList ('{' :: (tagChars key label ++
    if text.toList = ['{', '}'] then ['}'] else ',' :: text.toList.drop 1))

/-- The text of an object that has members has more in it than its braces. -/
theorem object_text_ne (member : String × Value) (rest : Members) :
    (Value.object (member :: rest)).text.toList ≠ ['{', '}'] := by
  intro chars
  rw [Value.text, String.toList_ofList, Value.chars, Value.memberChars,
    Value.commaSeparated_cons] at chars
  cases chars

theorem text_putFirst (key label : String) (members : Members) :
    (Value.object ((key, .string label) :: members)).text =
      putFirst key label (Value.object members).text := by
  rw [putFirst]
  cases members with
  | nil =>
    have empty : (Value.object []).text.toList = ['{', '}'] := rfl
    rw [if_pos empty]
    rfl
  | cons member rest =>
    rw [if_neg (object_text_ne member rest)]
    simp [Value.text, Value.chars, Value.memberChars, commaSeparated, tagChars]

section Bodies
variable [Root α] {table : Table α} {entry : Entry α} {value : α}

theorem toJson_entry (found : table.entryFor (Root.subtype value) = some entry) :
    table.toJson value = (entry.body.written value).map fun members =>
      (Value.object ((table.key, .string entry.label) :: members)).text := by
  rw [Table.toJson_eq, Table.output_entry found]
  cases entry.body.written value <;> rfl

/-- What an adapter cannot write on its own, it cannot write behind a label. -/
theorem toJson_failed (found : table.entryFor (Root.subtype value) = some entry)
    {adapter : Adapter α} (body : entry.body = .adapter adapter) {e : EncodeError}
    (failed : adapter.toJson value = .error e) : table.toJson value = .error e := by
  rw [toJson_entry found, body, Body.written]
  rw [Adapter.toJson_eq] at failed
  cases made : adapter.output value with
  | ok output =>
    rw [made] at failed
    cases failed
  | error other =>
    rw [made] at failed
    cases failed
    rfl

theorem toJson_object (found : table.entryFor (Root.subtype value) = some entry)
    {adapter : Adapter α} (body : entry.body = .adapter adapter) {text : String}
    {members : List (String × Document)} (written : adapter.toJson value = .ok text)
    (object : Spells text (.object members)) :
    table.toJson value = .ok (putFirst table.key entry.label text) ∧
      Spells (putFirst table.key entry.label text)
        (.object ((table.key, .string entry.label) :: members)) := by
  obtain ⟨output, made, rfl⟩ := Adapter.toJson_ok.mp written
  obtain ⟨fields, rfl, rfl⟩ := output_object object
  rw [toJson_entry found, body, Body.written, made, ← text_putFirst]
  exact ⟨rfl, Value.text_spells _⟩

theorem toJson_other (found : table.entryFor (Root.subtype value) = some entry)
    {adapter : Adapter α} (body : entry.body = .adapter adapter) {text : String}
    (written : adapter.toJson value = .ok text)
    (other : ∀ members, ¬Spells text (.object members)) :
    table.toJson value = .error (.nesting .valueWithoutName) := by
  obtain ⟨output, made, rfl⟩ := Adapter.toJson_ok.mp written
  rw [toJson_entry found, body, Body.written, made]
  cases output with
  | object fields => exact (other _ (Value.text_spells (.object fields))).elim
  | _ => rfl

end Bodies

/-- A table that has been built writes a singleton as its label alone. Of any other value it writes
what the adapter of the entry writes alone, with the label put first in the object and all members
in it left as they are; it fails as the adapter does, and where that writes no object. -/
theorem toJson_merged [Root α] {key : String} {declarations : List (Declaration α)}
    {table : Table α} (built : Table.build key declarations = .ok table) {entry : Entry α}
    (member : entry ∈ table.members) {value : α} (named : Root.subtype value ∈ entry.names) :
    (∀ instance_, entry.body = .singleton instance_ →
      table.toJson value = .ok (String.ofList ('{' :: (tagChars key entry.label ++ ['}'])))) ∧
    ∀ adapter, entry.body = .adapter adapter →
      (∀ e, adapter.toJson value = .error e → table.toJson value = .error e) ∧
      (∀ text, adapter.toJson value = .ok text →
        (∀ members, Spells text (.object members) →
          table.toJson value = .ok (putFirst key entry.label text) ∧
          Spells (putFirst key entry.label text)
            (.object ((key, .string entry.label) :: members))) ∧
        ((∀ members, ¬Spells text (.object members)) →
          table.toJson value = .error (.nesting .valueWithoutName))) ∧
      ((∃ merged, table.toJson value = .ok merged) ↔
        ∃ text members, adapter.toJson value = .ok text ∧ Spells text (.object members)) := by
  have builds := build_ok built
  have found := entryFor_of_mem builds.names member named
  obtain rfl := builds.key_eq
  constructor
  · intro instance_ body
    rw [toJson_entry found, body, Body.written]
    exact congrArg Except.ok (text_putFirst table.key entry.label [])
  · intro adapter body
    refine ⟨fun e failed => toJson_failed found body failed, ?_, ?_⟩
    · intro text written
      exact ⟨fun members object => toJson_object found body written object,
        fun other => toJson_other found body written other⟩
    · constructor
      · rintro ⟨merged, wrote⟩
        cases alone : adapter.toJson value with
        | error e =>
          rw [toJson_failed found body alone] at wrote
          cases wrote
        | ok text =>
          by_contra none
          have other (members : List (String × Document)) : ¬Spells text (.object members) :=
            fun object => none ⟨text, members, rfl, object⟩
          rw [toJson_other found body alone other] at wrote
          cases wrote
      · rintro ⟨text, members, written, object⟩
        exact ⟨_, (toJson_object found body written object).1⟩

/-- A circle with an object in its field, and in that the key of a table. -/
def nestedCircle : Variant := ⟨"Circle", [("r", .object [("type", .null)])]⟩

theorem toJson_merged_circle : figuresTable.toJson nestedCircle = .ok
    "\x7b\"type\":\"figure\",\"shape\":\"circle\",\"r\":\x7b\"type\":null\x7d\x7d" := by
  have outer : Table.build "type" [⟨"Figure", some "figure", [],
      .adapter (.tagged shapesTable false)⟩] = .ok figuresTable := rfl
  have inner : Table.build "shape" [⟨"Circle", some "circle", ["round"],
      .adapter (Variant.record "Circle" ["type", "shape"])⟩] = .ok shapesTable := rfl
  have group : figureEntry ∈ figuresTable.members := List.mem_cons_self
  have leaf : circleEntry ∈ shapesTable.members := List.mem_cons_self
  have inGroup : Root.subtype nestedCircle ∈ figureEntry.names := by decide
  have inLeaf : Root.subtype nestedCircle ∈ circleEntry.names := by decide
  have alone : (Variant.record "Circle" ["type", "shape"]).toJson nestedCircle =
      .ok (Value.object nestedCircle.fields).text := by
    rw [Adapter.toJson_eq, Variant.record, Adapter.output]
    rfl
  obtain ⟨-, written, -⟩ := (toJson_merged inner leaf inLeaf).2 _ rfl
  obtain ⟨once, spells⟩ := (written _ alone).1 _ (Value.text_spells (.object nestedCircle.fields))
  have within : (Adapter.tagged shapesTable false).toJson nestedCircle =
      shapesTable.toJson nestedCircle := by
    rw [Adapter.toJson, Adapter.write, Table.toJson]
  obtain ⟨-, written, -⟩ := (toJson_merged outer group inGroup).2 _ rfl
  rw [((written _ (within.trans once)).1 _ spells).1]
  rfl

end TaggedJson.Hierarchy
