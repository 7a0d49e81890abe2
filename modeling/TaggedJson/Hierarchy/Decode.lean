import TaggedJson.Hierarchy.Table
import TaggedJson.Pull.Members
/-! Reading values of a hierarchy. The label is looked for on a copy of the cursor; the member it
resolves to then reads the object from its start. -/
namespace TaggedJson.Hierarchy
open Pull
variable {α : Type}

/-- What strict reading has against a payload: that it cannot be written to compare it with the
fields, or a name that it is written without. -/
inductive Objection where
  | unwritten
  | unknown (name : String)
deriving DecidableEq

def Objection.error (path : String) : Objection → DecodeError
  | .unwritten => .badPayload path
  | .unknown name => .unexpectedName name (path ++ "." ++ name)

/-- The names strict reading looks for in the payload: not those let through, and none of a null,
which need not be written. -/
def checkedNames (fields : Fields) : List String :=
  (fields.values.filter fun (name, field) =>
    !field.isNull && !fields.allowed.contains name).map Prod.fst

/-- A payload that is no object accepts all. -/
def PayloadForm.objection? (form : PayloadForm α) (fields : Fields) : Option Objection :=
  -- Without a name to look for the payload is not written at all.
  if (checkedNames fields).isEmpty then none
  else match form.rewritten? fields.values with
    | none => some .unwritten
    | some (.object written) =>
      ((checkedNames fields).find? fun name => !Json.Members.has written name).map .unknown
    | some _ => none

def PayloadForm.read (form : PayloadForm α) : Pull α := do
  let start ← get
  let fields ← takeFields
  match form.ofFields? fields.values with
  | none => fail fun _ => .badPayload start.pathText
  | some value =>
    match if start.failOnUnknown then form.objection? fields else none with
    | some objection => fail fun _ => objection.error start.pathText
    | none => return value

/-- Runs a body and then puts back the flag for unknown names, also when the body fails. -/
def keepingFlag (body : Pull β) : Pull β := fun c =>
  match body c with
  | .ok b after => .ok b { after with failOnUnknown := c.failOnUnknown }
  | .error e after => .error e { after with failOnUnknown := c.failOnUnknown }

/-- Runs a body while a key is allowed in the object about to be read, and then takes the allowance
back, also when the body fails. -/
def withKey (key : String) (stripped : Bool) (body : Pull β) : Pull β := fun c =>
  let allowed : Allowance := ⟨key, c.scopes.length + 1, stripped⟩
  match body { c with allowances := allowed :: c.allowances } with
  | .ok b after => .ok b { after with allowances := after.allowances.tail }
  | .error e after => .error e { after with allowances := after.allowances.tail }

def withStrict (strict : Bool) (body : Pull β) : Pull β := keepingFlag do
  modify fun c => { c with failOnUnknown := c.failOnUnknown || strict }
  body

mutual
def Adapter.read (adapter : Adapter α) : Pull α :=
  match adapter with
  | .record form => do
    let fields ← takeFields
    return form.ofFields fields.values
  | .payload form => form.read
  | .singleton value => do
    skipMembers
    return value
  | .failOnUnknown inner => withStrict true inner.read
  | .tagged table strict => do
    match ← table.read strict with
    | some value => return value
    | none => fail fun c => .unexpectedNull c.pathText
termination_by sizeOf adapter

/-- The label itself is kept from the member's fields, except from a fallback's: that one writes no
label, so the key is a field like any other to it. -/
def Table.read (table : Table α) (strict : Bool) : Pull (Option α) := do
  if (← peek) = .null then
    nextNull
    return none
  else
    -- The search leaves the cursor where it was, so the object is read from its start again.
    let label ← lookForLabel table.key
    match _ : table.resolve label with
    | .error e => throw e
    | .ok .null => do
      skipValue
      return none
    | .ok (.object value) => do
      skipValue
      return some value
    | .ok (.fallback adapter) => some <$> withStrict strict (withKey table.key false adapter.read)
    | .ok (.subtype entry) => some <$> withStrict strict (withKey table.key true entry.body.read)
termination_by sizeOf table
decreasing_by
  · exact resolve_fallback_size ‹_›
  · exact Nat.lt_trans (body_size entry) (resolve_subtype_size ‹_›)

def Body.read (body : Body α) : Pull α :=
  match body with
  | .adapter adapter => adapter.read
  | .singleton value => do
    skipMembers
    return value
termination_by sizeOf body
end

/-- The value of a whole document. -/
def decodeDocument (body : Pull β) (text : String) : Except DecodeError β :=
  match (do let value ← body; expectEnd; return value : Pull β) (Cursor.ofText text) with
  | .ok value _ => .ok value
  | .error e _ => .error e

def Adapter.fromJson (adapter : Adapter α) (text : String) : Except DecodeError α :=
  decodeDocument adapter.read text

/-- No value stands for null and for what the null default takes. -/
def Table.fromJson (table : Table α) (strict : Bool) (text : String) :
    Except DecodeError (Option α) :=
  decodeDocument (table.read strict) text

end TaggedJson.Hierarchy
