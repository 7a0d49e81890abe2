import TaggedJson.Hierarchy.Encode
import TaggedJson.Proofs.Printed
/-! What an adapter writes, as a value. Written on its own the value is a document; merged into an
object, its members become members of the object. The calls on the writer come to the same text. -/
namespace TaggedJson.Emit
open Json (Members Scope)
open Json.Value (memberChars itemChars following commaSeparated_cons)

/-- What comes of a call, but for what a failed call leaves behind. -/
def outcome : EStateM.Result EncodeError Writer Unit → Except EncodeError Writer
  | .ok () w => .ok w
  | .error e _ => .error e

theorem outcome_bind (first second : Emit Unit) (w : Writer) :
    outcome ((first >>= fun _ => second) w) =
      (outcome (first w)).bind fun after => outcome (second after) := by
  show outcome (EStateM.bind first (fun _ => second) w) = _
  unfold EStateM.bind
  cases first w <;> rfl

theorem outcome_merged (body : Emit Unit) (w : Writer) : outcome (merged body w) =
    (outcome (body w.arm)).map fun after => { after with merge := w.merge } := by
  unfold merged
  cases body w.arm <;> rfl

theorem document_eq (body : Emit Unit) :
    document body = (outcome (body Writer.empty)).bind Writer.finish := by
  unfold document
  cases body Writer.empty <;> rfl

/-! States of the writer. -/

namespace Writer

/-- Merging concerns no object that is still to be opened. -/
def Calm (w : Writer) : Prop := ∀ depth,
  w.merge = some (.armed depth) ∨ w.merge = some (.merging depth) → depth ≤ w.scopes.length

/-- The writer is in an object and before a name. -/
def AtName (w : Writer) : Prop := w.top = .objectStart ∨ w.top = .objectNext

/-- The next object is merged. -/
def Armed (w : Writer) : Prop := w.merge = some (.armed w.scopes.length) ∧ w.AtName

/-- The writer after further parts of the current container, whose scope is `next` after any. -/
def added (start next : Scope) (w : Writer) (parts : List (List Char)) : Writer :=
  if parts.isEmpty then w
  else (w.withScope next).write
    (if w.top = start then Json.commaSeparated parts else following parts)

def addMembers (w : Writer) (members : Members) : Writer :=
  w.added .objectStart .objectNext (memberChars members)

theorem write_write (w : Writer) (left right : List Char) :
    (w.write left).write right = w.write (left ++ right) := by
  simp [write, String.ofList_append, String.append_assoc]

theorem added_cons {start next : Scope} (apart : next ≠ start) (w : Writer) (part : List Char)
    (parts : List (List Char)) :
    (w.added start next [part]).added start next parts = w.added start next (part :: parts) := by
  cases parts with
  | nil => rfl
  | cons second rest =>
    have top : (w.added start next [part]).top = next := rfl
    have joined : (if w.top = start then Json.commaSeparated [part] else following [part]) ++
        following (second :: rest) = if w.top = start then
          Json.commaSeparated (part :: second :: rest) else following (part :: second :: rest) := by
      split <;> simp [commaSeparated_cons, following]
    show ((w.added start next [part]).withScope next).write
      (if (w.added start next [part]).top = start then Json.commaSeparated (second :: rest)
        else following (second :: rest)) = (w.withScope next).write _
    rw [top, if_neg apart, ← joined, ← write_write]
    rfl

theorem AtName.cases {w : Writer} (named : w.AtName) : ∃ scope outer,
    w = ⟨w.out, scope :: outer, w.merge⟩ ∧ (scope = .objectStart ∨ scope = .objectNext) := by
  obtain ⟨out, scopes, merge⟩ := w
  cases scopes with
  | nil => rcases named with start | next <;> cases ‹_›
  | cons scope outer => exact ⟨scope, outer, rfl, named⟩

end Writer

/-! Values call by call. -/

theorem placeValue_frame {w placed : Writer} (ran : placeValue w = .ok () placed) :
    placed.merge = w.merge ∧ w.scopes.length ≤ placed.scopes.length ∧ ¬w.AtName := by
  unfold placeValue at ran
  unfold Writer.AtName
  split at ran <;> cases ran <;> rename_i top <;> rw [top] <;>
    refine ⟨rfl, ?_, by decide⟩ <;> simp [Writer.withScope, Writer.write] <;> omega

theorem scalar_placed {w placed : Writer} (ran : placeValue w = .ok () placed)
    (chars : List Char) : scalar chars w = .ok () (placed.write chars) := by
  rw [scalar, ran]

theorem beginObject_placed {w placed : Writer} (ran : placeValue w = .ok () placed) :
    beginObject w = .ok () ((placed.push .objectStart).write ['{']) := by
  rw [beginObject, if_neg fun both => (placeValue_frame ran).2.2 both.2, ran]

theorem Writer.Calm.inside {w placed : Writer} (calm : w.Calm)
    (ran : placeValue w = .ok () placed) (scope : Scope) (chars : List Char) :
    ((placed.push scope).write chars).Calm := by
  obtain ⟨merge, deeper, -⟩ := placeValue_frame ran
  intro depth set
  have := calm depth (merge ▸ set)
  show depth ≤ placed.scopes.length + 1
  omega

/-- A name and the place for its value. -/
theorem name_placed {w : Writer} (named : w.AtName) (label : String) :
    ∃ after placed, name label w = .ok () after ∧ placeValue after = .ok () placed ∧
      after.merge = w.merge ∧ after.scopes.length = w.scopes.length ∧
      ∀ chars, placed.write chars = w.added .objectStart .objectNext
        [Text.quoteChars label.toList ++ ':' :: chars] := by
  obtain ⟨scope, outer, shape, start | next⟩ := named.cases <;> subst scope <;> rw [shape] <;>
    refine ⟨_, _, rfl, rfl, rfl, rfl, fun chars => ?_⟩
  · show Writer.write (Writer.write ⟨w.out, .objectNext :: outer, w.merge⟩ _) chars =
      Writer.write ⟨w.out, .objectNext :: outer, w.merge⟩ _
    rw [Writer.write_write, List.append_assoc]
    rfl
  · show Writer.write (Writer.write ⟨w.out, .objectNext :: outer, w.merge⟩ _) chars =
      Writer.write ⟨w.out, .objectNext :: outer, w.merge⟩ _
    rw [Writer.write_write, List.cons_append, List.append_assoc]
    simp [Writer.top, following]

theorem item_placed {w : Writer} (inArray : w.top = .arrayStart ∨ w.top = .arrayNext) :
    ∃ placed, placeValue w = .ok () placed ∧
      ∀ chars, placed.write chars = w.added .arrayStart .arrayNext [chars] := by
  obtain ⟨out, scopes, merge⟩ := w
  cases scopes with
  | nil => rcases inArray with start | next <;> cases ‹_›
  | cons scope outer =>
    have top : scope = .arrayStart ∨ scope = .arrayNext := inArray
    rcases top with rfl | rfl
    · exact ⟨_, rfl, fun chars => rfl⟩
    · refine ⟨_, rfl, fun chars => ?_⟩
      rw [Writer.write_write]
      simp [Writer.added, Writer.top, following, Writer.withScope]

/-- A container with all its parts. -/
theorem closed_container {start next : Scope} (placed : Writer) (opening closing : Char)
    (parts : List (List Char)) :
    (((placed.push start).write [opening]).added start next parts).pop.write [closing] =
      placed.write (opening :: Json.commaSeparated parts ++ [closing]) := by
  have opened : placed.write (opening :: Json.commaSeparated parts ++ [closing]) =
      ((placed.write [opening]).write (Json.commaSeparated parts)).write [closing] := by
    rw [Writer.write_write, Writer.write_write]
    rfl
  rw [opened]
  cases parts with
  | nil =>
    rw [Json.commaSeparated, Writer.write_write _ [opening] [], List.append_nil]
    rfl
  | cons part rest =>
    have top : ((placed.push start).write [opening]).top = start := rfl
    rw [Writer.added, if_neg (by simp), if_pos top]
    rfl

theorem added_frame (start next : Scope) (w : Writer) (part : List Char) :
    (w.added start next [part]).top = next ∧ (w.added start next [part]).merge = w.merge ∧
      w.scopes.length ≤ (w.added start next [part]).scopes.length := by
  refine ⟨rfl, rfl, ?_⟩
  show w.scopes.length ≤ (w.scopes.tail).length + 1
  rw [List.length_tail]
  omega

theorem Writer.Calm.mono {w after : Writer} (calm : w.Calm) (merge : after.merge = w.merge)
    (deeper : w.scopes.length ≤ after.scopes.length) : after.Calm := by
  intro depth set
  have := calm depth (merge ▸ set)
  omega

theorem bind_eq {first second : Emit Unit} {w after : Writer} (ran : first w = .ok () after) :
    (first >>= fun _ => second) w = second after := by
  show EStateM.bind first (fun _ => second) w = _
  rw [EStateM.bind, ran]

theorem endArray_added (placed : Writer) (parts : List (List Char)) :
    endArray (((placed.push .arrayStart).write ['[']).added .arrayStart .arrayNext parts) =
      .ok () ((((placed.push .arrayStart).write ['[']).added .arrayStart .arrayNext
        parts).pop.write [']']) := by
  cases parts <;> rfl

theorem endObject_ok {w : Writer} (named : w.AtName)
    (other : w.merge ≠ some (.merging w.scopes.length)) :
    endObject w = .ok () (w.pop.write ['}']) := by
  unfold endObject
  rw [if_neg other]
  rcases named with top | top <;> rw [top]

theorem endObject_added {w placed : Writer} (ran : placeValue w = .ok () placed) (calm : w.Calm)
    (parts : List (List Char)) :
    endObject (((placed.push .objectStart).write ['{']).added .objectStart .objectNext parts) =
      .ok () ((((placed.push .objectStart).write ['{']).added .objectStart .objectNext
        parts).pop.write ['}']) := by
  obtain ⟨merge, deeper, -⟩ := placeValue_frame ran
  have other : placed.merge ≠ some (.merging (placed.scopes.length + 1)) := by
    intro set
    have := calm _ (.inr (merge ▸ set))
    omega
  cases parts with
  | nil => exact endObject_ok (.inl rfl) other
  | cons part rest => exact endObject_ok (.inr rfl) other

mutual
theorem json_placed : ∀ (value : Json.Value) {w placed : Writer},
    placeValue w = .ok () placed → w.Calm → json value w = .ok () (placed.write value.chars)
  | .null, w, placed, ran, _ | .bool _, w, placed, ran, _ | .number _, w, placed, ran, _
  | .string _, w, placed, ran, _ => scalar_placed ran _
  | .array items, w, placed, ran, calm => by
    -- What is merged lies further out, so the brackets in here are written as they are.
    have opened : beginArray w = .ok () ((placed.push .arrayStart).write ['[']) := by
      rw [beginArray, ran]
    have inner := jsonItems_added items (.inl rfl) (calm.inside ran .arrayStart ['['])
    have ended := endArray_added placed (itemChars items)
    rw [json, bind_eq opened, bind_eq inner, ended, closed_container]
    rfl
  | .object members, w, placed, ran, calm => by
    have opened := beginObject_placed ran
    have inner := jsonMembers_added members (.inl rfl) (calm.inside ran .objectStart ['{'])
    have ended := endObject_added ran calm (memberChars members)
    rw [json, bind_eq opened, bind_eq inner, Writer.addMembers, ended, closed_container]
    rfl

theorem jsonItems_added : ∀ (items : List Json.Value) {w : Writer},
    (w.top = .arrayStart ∨ w.top = .arrayNext) → w.Calm →
    jsonItems items w = .ok () (w.added .arrayStart .arrayNext (itemChars items))
  | [], w, _, _ => rfl
  | item :: rest, w, inArray, calm => by
    obtain ⟨placed, ran, added⟩ := item_placed inArray
    obtain ⟨top, merge, deeper⟩ := added_frame .arrayStart .arrayNext w item.chars
    have first := json_placed item ran calm
    rw [added] at first
    have others := jsonItems_added rest (.inr top) (calm.mono merge deeper)
    rw [Writer.added_cons (by decide)] at others
    rw [jsonItems, bind_eq first]
    exact others

theorem jsonMembers_added : ∀ (members : Members) {w : Writer}, w.AtName → w.Calm →
    jsonMembers members w = .ok () (w.addMembers members)
  | [], w, _, _ => rfl
  | (label, value) :: rest, w, named, calm => by
    obtain ⟨after, placed, labeled, ran, merge, length, added⟩ := name_placed named label
    have first := json_placed value ran (calm.mono merge (Nat.le_of_eq length.symm))
    rw [added] at first
    obtain ⟨top, merge, deeper⟩ := added_frame .objectStart .objectNext w
      (Text.quoteChars label.toList ++ ':' :: value.chars)
    have others := jsonMembers_added rest (.inr top) (calm.mono merge deeper)
    rw [Writer.addMembers, Writer.added_cons (by decide)] at others
    rw [jsonMembers, bind_eq labeled, bind_eq first]
    exact others
end

/-! Merged objects. -/

theorem beginObject_armed {w : Writer} (armed : w.Armed) :
    beginObject w = .ok () { w with merge := some (.merging w.scopes.length) } := by
  have both : w.merge = some (.armed w.scopes.length) ∧
      (w.top = .objectStart ∨ w.top = .objectNext) := armed
  rw [beginObject, if_pos both]

theorem endObject_merging {w : Writer} (armed : w.Armed) (parts : List (List Char)) :
    endObject (Writer.added .objectStart .objectNext
      { w with merge := some (.merging w.scopes.length) } parts) =
        .ok () (w.added .objectStart .objectNext parts) := by
  obtain ⟨merge, named⟩ := armed
  obtain ⟨scope, outer, shape, -⟩ := named.cases
  rw [shape] at merge ⊢
  have set : w.merge = some (.armed (outer.length + 1)) := merge
  cases parts with
  | nil =>
    rw [endObject, if_pos (by rfl), set]
    rfl
  | cons part rest =>
    rw [endObject, if_pos (by rfl), set]
    rfl

theorem json_armed {w : Writer} (armed : w.Armed) (members : Members) :
    json (.object members) w = .ok () (w.addMembers members) := by
  have merging : Writer.Calm { w with merge := some (.merging w.scopes.length) } := by
    rintro depth (set | set) <;> cases set
    exact Nat.le_refl _
  have inner := jsonMembers_added members
    (w := { w with merge := some (.merging w.scopes.length) }) armed.2 merging
  rw [json, bind_eq (beginObject_armed armed), bind_eq inner]
  exact endObject_merging armed (memberChars members)

theorem placeValue_named {w : Writer} (named : w.AtName) :
    placeValue w = .error (.nesting .valueWithoutName) w := by
  unfold placeValue
  rcases named with top | top <;> rw [top]

/-! What a body writes. -/

/-- The members that are left of a value that is merged. -/
def membersOf : Json.Value → Except EncodeError Members
  | .object members => .ok members
  | _ => .error (.nesting .valueWithoutName)

/-- A body that writes a value wherever one has a place, and merges it where an object is merged. -/
structure Puts (body : Emit Unit) (output : Except EncodeError Json.Value) : Prop where
  placed : ∀ {w placed : Writer}, placeValue w = .ok () placed → w.Calm →
    outcome (body w) = output.map fun value => placed.write value.chars
  armed : ∀ {w : Writer}, w.Armed → outcome (body w) = (output.bind membersOf).map w.addMembers

theorem puts_json (value : Json.Value) : Puts (json value) (.ok value) := by
  constructor
  · intro w placed ran calm
    rw [json_placed value ran calm]
    rfl
  · intro w armed
    have lost := placeValue_named armed.2
    have stuck (chars : List Char) :
        outcome (scalar chars w) = .error (.nesting .valueWithoutName) := by
      rw [scalar, lost]
      rfl
    cases value with
    | object members =>
      rw [json_armed armed members]
      rfl
    | array items =>
      show outcome (EStateM.bind beginArray _ w) = _
      rw [EStateM.bind, beginArray, lost]
      rfl
    | _ => exact stuck _

theorem puts_throw (e : EncodeError) : Puts (throw e) (.error e) :=
  ⟨fun _ _ => rfl, fun _ => rfl⟩

theorem puts_empty : Puts (beginObject >>= fun _ => endObject) (.ok (.object [])) := by
  constructor
  · intro w placed ran calm
    rw [bind_eq (beginObject_placed ran)]
    have ended := endObject_added ran calm []
    rw [closed_container] at ended
    exact congrArg outcome ended
  · intro w armed
    rw [bind_eq (beginObject_armed armed)]
    exact congrArg outcome (endObject_merging armed [])

/-- A body that writes further members of an object. -/
def Adds (body : Emit Unit) (written : Except EncodeError Members) : Prop :=
  ∀ {w : Writer}, w.top = .objectNext → outcome (body w) = written.map w.addMembers

theorem adds_merged {body : Emit Unit} {output : Except EncodeError Json.Value}
    (puts : Puts body output) : Adds (merged body) (output.bind membersOf) := by
  intro w top
  have armed : w.arm.Armed := ⟨rfl, .inr top⟩
  rw [outcome_merged, puts.armed armed]
  cases output.bind membersOf with
  | error e => rfl
  | ok members =>
    -- Going back to the merge state from before takes the arming off again.
    show Except.ok _ = Except.ok _
    cases members <;> rfl

theorem adds_nothing : Adds (pure ()) (.ok []) := fun _ => rfl

theorem member_added {w : Writer} (named : w.AtName) (key label : String) :
    ∃ after, name key w = .ok () after ∧ string label after =
      .ok () (w.addMembers [(key, .string label)]) := by
  obtain ⟨after, placed, ran, place, -, -, added⟩ := name_placed named key
  refine ⟨after, ran, ?_⟩
  rw [string, scalar_placed place, added]
  rfl

/-- A label and what a body adds behind it, up to the end of the object they are in. -/
theorem tagged_added {w : Writer} (named : w.AtName) (key label : String) {body : Emit Unit}
    {written : Except EncodeError Members} (adds : Adds body written) {closed : Members → Writer}
    (ended : ∀ members, endObject (w.addMembers members) = .ok () (closed members)) :
    outcome ((name key >>= fun _ => string label >>= fun _ => body >>= fun _ => endObject) w) =
      written.map fun members => closed ((key, .string label) :: members) := by
  obtain ⟨after, started, labeled⟩ := member_added named key label
  rw [bind_eq started, bind_eq labeled, outcome_bind, adds rfl]
  cases written with
  | error e => rfl
  | ok members =>
    have joined : (w.addMembers [(key, .string label)]).addMembers members =
        w.addMembers ((key, .string label) :: members) := Writer.added_cons (by decide) ..
    show outcome (endObject (Writer.addMembers _ members)) = _
    rw [joined, ended]
    rfl

theorem puts_tagged (key label : String) {body : Emit Unit} {written : Except EncodeError Members}
    (adds : Adds body written) : Puts (beginObject >>= fun _ => name key >>= fun _ =>
      string label >>= fun _ => body >>= fun _ => endObject)
      (written.map fun members => .object ((key, .string label) :: members)) := by
  constructor
  · intro w placed ran calm
    have ended (members : Members) :
        endObject (Writer.addMembers ((placed.push .objectStart).write ['{']) members) =
          .ok () (placed.write (Json.Value.object members).chars) := by
      rw [Writer.addMembers, endObject_added ran calm, closed_container]
      rfl
    rw [bind_eq (beginObject_placed ran), tagged_added (.inl rfl) key label adds ended]
    cases written <;> rfl
  · intro w armed
    -- The braces are those of the object around, so only the members are written.
    have ended (members : Members) : endObject (Writer.addMembers
        { w with merge := some (.merging w.scopes.length) } members) =
          .ok () (w.addMembers members) := endObject_merging armed (memberChars members)
    rw [bind_eq (beginObject_armed armed), tagged_added
      (w := { w with merge := some (.merging w.scopes.length) }) armed.2 key label adds ended]
    cases written <;> rfl

/-- A whole document is the text of the value. -/
theorem document_puts {body : Emit Unit} {output : Except EncodeError Json.Value}
    (puts : Puts body output) : document body = output.map Json.Value.text := by
  have calm : Writer.empty.Calm := by
    rintro depth (set | set) <;> cases set
  rw [document_eq, puts.placed (w := Writer.empty) rfl calm]
  cases output with
  | error e => rfl
  | ok value =>
    show Except.ok ("" ++ String.ofList value.chars) = _
    rw [String.empty_append]
    rfl

end TaggedJson.Emit

namespace TaggedJson.Hierarchy
open Emit
open Json (Members)
variable {α : Type}

def RecordForm.output (form : RecordForm α) (value : α) : Except EncodeError Json.Value :=
  match (form.fields value).find? fun field => form.reserved.contains field.1 with
  | some (name, _) => .error (.reservedName name)
  | none => .ok (.object (form.fields value))

mutual
/-- The value an adapter writes. -/
def Adapter.output [Root α] (adapter : Adapter α) (value : α) : Except EncodeError Json.Value :=
  match adapter with
  | .record form => form.output value
  | .payload form =>
    match form.toJson? value with
    | some payload => payload
    | none => .error (.mismatch form.payload (Root.subtype value))
  | .singleton _ => .ok (.object [])
  | .failOnUnknown inner => inner.output value
  | .tagged table _ => table.output value
termination_by sizeOf adapter

def Table.output [Root α] (table : Table α) (value : α) : Except EncodeError Json.Value :=
  match _ : table.entryFor (Root.subtype value) with
  | some entry => (entry.body.written value).map fun members =>
      .object ((table.key, .string entry.label) :: members)
  | none =>
    match _ : table.policy with
    | .fallback _ adapter => adapter.output value
    | _ => .error (.unregistered (Root.subtype value) table.subtypeNames)
termination_by sizeOf table
decreasing_by
  · exact Nat.lt_trans (body_size entry) (entryFor_size ‹_›)
  · have := policy_size table
    rw [‹table.policy = _›, Policy.fallback.sizeOf_spec] at this
    omega

/-- The members that follow the label. -/
def Body.written [Root α] (body : Body α) (value : α) : Except EncodeError Members :=
  match body with
  | .adapter adapter => (adapter.output value).bind membersOf
  | .singleton _ => .ok []
termination_by sizeOf body
end

section Tables
variable [Root α] {table : Table α} {value : α}

theorem Table.write_entry {entry : Entry α}
    (found : table.entryFor (Root.subtype value) = some entry) :
    table.write value = beginObject >>= fun _ => name table.key >>= fun _ =>
      string entry.label >>= fun _ => entry.body.write value >>= fun _ => endObject := by
  rw [Table.write]
  split <;> rename_i other
  · rw [found] at other
    cases other
    rfl
  · rw [found] at other
    cases other

theorem Table.output_entry {entry : Entry α}
    (found : table.entryFor (Root.subtype value) = some entry) :
    table.output value = (entry.body.written value).map fun members =>
      .object ((table.key, .string entry.label) :: members) := by
  rw [Table.output]
  split <;> rename_i other
  · rw [found] at other
    cases other
    rfl
  · rw [found] at other
    cases other

theorem Table.write_other (none : table.entryFor (Root.subtype value) = none) :
    table.write value = match table.policy with
      | .fallback _ adapter => adapter.write value
      | _ => throw (.unregistered (Root.subtype value) table.subtypeNames) := by
  rw [Table.write]
  split <;> rename_i other
  · rw [none] at other
    cases other
  · cases table.policy <;> rfl

theorem Table.output_other (none : table.entryFor (Root.subtype value) = none) :
    table.output value = match table.policy with
      | .fallback _ adapter => adapter.output value
      | _ => .error (.unregistered (Root.subtype value) table.subtypeNames) := by
  rw [Table.output]
  split <;> rename_i other
  · rw [none] at other
    cases other
  · cases table.policy <;> rfl

end Tables

mutual
theorem adapter_puts [Root α] : ∀ (adapter : Adapter α) (value : α),
    Puts (adapter.write value) (adapter.output value)
  | .record form, value => by
    rw [Adapter.write, Adapter.output, RecordForm.write, RecordForm.output]
    cases (form.fields value).find? _ with
    | none => exact puts_json _
    | some field => exact puts_throw _
  | .payload form, value => by
    rw [Adapter.write, Adapter.output]
    cases form.toJson? value with
    | none => exact puts_throw _
    | some payload =>
      cases payload with
      | error e => exact puts_throw e
      | ok payload => exact puts_json payload
  | .singleton _, value => by
    rw [Adapter.write, Adapter.output]
    exact puts_empty
  | .failOnUnknown inner, value => by
    rw [Adapter.write, Adapter.output]
    exact adapter_puts inner value
  | .tagged table _, value => by
    rw [Adapter.write, Adapter.output]
    exact table_puts table value
termination_by adapter => sizeOf adapter

theorem table_puts [Root α] (table : Table α) (value : α) :
    Puts (table.write value) (table.output value) :=
  match found : table.entryFor (Root.subtype value) with
  | some entry => by
    rw [Table.write_entry found, Table.output_entry found]
    exact puts_tagged _ _ (body_adds entry.body value)
  | none =>
    match policy : table.policy with
    | .fallback _ adapter => by
      rw [Table.write_other found, Table.output_other found, policy]
      exact adapter_puts adapter value
    | .none | .null | .object _ _ => by
      rw [Table.write_other found, Table.output_other found, policy]
      exact puts_throw _
termination_by sizeOf table
decreasing_by
  · exact Nat.lt_trans (body_size entry) (entryFor_size found)
  · have := policy_size table
    rw [policy, Policy.fallback.sizeOf_spec] at this
    omega

theorem body_adds [Root α] : ∀ (body : Body α) (value : α),
    Adds (body.write value) (body.written value)
  | .adapter adapter, value => by
    rw [Body.write, Body.written]
    exact adds_merged (adapter_puts adapter value)
  | .singleton _, value => by
    rw [Body.write, Body.written]
    exact adds_nothing
termination_by body => sizeOf body
end

theorem Adapter.toJson_eq [Root α] (adapter : Adapter α) (value : α) :
    adapter.toJson value = (adapter.output value).map Json.Value.text :=
  document_puts (adapter_puts adapter value)

theorem Table.toJson_eq [Root α] (table : Table α) (value : α) :
    table.toJson value = (table.output value).map Json.Value.text :=
  document_puts (table_puts table value)

/-! What is written is the text of an output. -/

theorem map_text_ok {ε : Type} {output : Except ε Json.Value} {text : String} :
    output.map Json.Value.text = .ok text ↔ ∃ value, output = .ok value ∧ value.text = text := by
  cases output <;> simp [Except.map]

theorem Adapter.toJson_ok [Root α] {adapter : Adapter α} {value : α} {text : String} :
    adapter.toJson value = .ok text ↔
      ∃ output, adapter.output value = .ok output ∧ output.text = text := by
  rw [Adapter.toJson_eq, map_text_ok]

theorem Table.toJson_ok [Root α] {table : Table α} {value : α} {text : String} :
    table.toJson value = .ok text ↔
      ∃ output, table.output value = .ok output ∧ output.text = text := by
  rw [Table.toJson_eq, map_text_ok]

end TaggedJson.Hierarchy
