import TaggedJson.Emit.Writer
import TaggedJson.Hierarchy.Table
/-! Writing values of a hierarchy: the key with the primary label first, then whatever the member's
adapter writes, merged into the same object. -/
namespace TaggedJson.Hierarchy
open Emit
variable {α : Type}

def RecordForm.write (form : RecordForm α) (value : α) : Emit Unit :=
  match (form.fields value).find? fun field => form.reserved.contains field.1 with
  | some (name, _) => throw (.reservedName name)
  | none => json (.object (form.fields value))

mutual
def Adapter.write [Root α] (adapter : Adapter α) (value : α) : Emit Unit :=
  match adapter with
  | .record form => form.write value
  | .payload form =>
    match form.toJson? value with
    | some (.ok payload) => json payload
    | some (.error e) => throw e
    | none => throw (.mismatch form.payload (Root.subtype value))
  | .singleton _ => do
    beginObject
    endObject
  | .failOnUnknown inner => inner.write value
  | .tagged table _ => table.write value
termination_by sizeOf adapter

def Table.write [Root α] (table : Table α) (value : α) : Emit Unit :=
  match _ : table.entryFor (Root.subtype value) with
  | some entry => do
    beginObject
    name table.key
    string entry.label
    entry.body.write value
    endObject
  | none =>
    -- Only a fallback takes values that have no entry, and no label is written for it.
    match _ : table.policy with
    | .fallback _ adapter => adapter.write value
    | _ => throw (.unregistered (Root.subtype value) table.subtypeNames)
termination_by sizeOf table
decreasing_by
  · exact Nat.lt_trans (body_size entry) (entryFor_size ‹_›)
  · have := policy_size table
    rw [‹table.policy = _›, Policy.fallback.sizeOf_spec] at this
    omega

/-- A singleton is its label alone. -/
def Body.write [Root α] (body : Body α) (value : α) : Emit Unit :=
  match body with
  | .adapter adapter => merged (adapter.write value)
  | .singleton _ => pure ()
termination_by sizeOf body
end

def Adapter.toJson [Root α] (adapter : Adapter α) (value : α) : Except EncodeError String :=
  document (adapter.write value)

/-- No value is written as null. -/
def Table.writeOption [Root α] (table : Table α) : Option α → Emit Unit
  | none => null
  | some value => table.write value

def Table.toJson [Root α] (table : Table α) (value : α) : Except EncodeError String :=
  document (table.write value)

end TaggedJson.Hierarchy
