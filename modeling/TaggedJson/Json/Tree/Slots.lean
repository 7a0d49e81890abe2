import TaggedJson.Json.Tree
/-! Reading records out of a tree: an object with the names of its fields, none of these twice, or
an array of the fields in order, from which the last ones may be missing. These forms, null for a
field that is missing, and the limit on nesting are those of the library that reads whole documents.
Which fields a record has, and what each holds, is stated where the record is read. -/
namespace TaggedJson.Json

/-- Documents read as a whole keep nothing that nests deeper than this. -/
def wholeDepthLimit : Nat := 127

/-- What a tree says of each field of a record. A closed record has no other members; an open one
may, and what they hold is not looked at. -/
def Tree.slots? (names : List String) (closed : Bool) : Tree → Option (List (Option Tree))
  | .array items =>
    if items.length ≤ names.length then
      some (items.map some ++ List.replicate (names.length - items.length) none)
    else none
  | .object members => do
    let named ← members.mapM fun (name, tree) => (textOf? name).map fun name => (name, tree)
    let (known, other) := named.partition fun member => names.contains member.1
    if decide (known.map Prod.fst).Nodup && (other.isEmpty || !closed) then
      some (names.map fun name => known.lookup name)
    else none
  | _ => none

/-! Contents of fields. -/
namespace Slot

def text? : Tree → Option String
  | .string pieces => textOf? pieces
  | _ => none

def bool? : Tree → Option Bool
  | .bool value => some value
  | _ => none

def list? (item? : Tree → Option α) : Tree → Option (List α)
  | .array items => items.mapM item?
  | _ => none

/-- A field that may be null, which is the same as missing. -/
def nullable? (read? : Tree → Option α) : Option Tree → Option (Option α)
  | none | some .null => some none
  | some tree => (read? tree).map some

def withDefault? (default : α) (read? : Tree → Option α) : Option Tree → Option α
  | none => some default
  | some tree => read? tree

end Slot
end TaggedJson.Json
