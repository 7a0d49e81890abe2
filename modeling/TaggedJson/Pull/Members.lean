import TaggedJson.Pull.Subtree
/-! Objects member by member: as fields, as nothing but names to be allowed, or up to the member
that holds a label. -/
namespace TaggedJson.Pull

/-- The fields of an object in the order of their first appearance, and the names among them that
strict reading lets through. -/
structure Fields where
  values : Json.Members
  allowed : List String

/-- Takes one more member, a stripped one without looking into it. -/
def fieldStep (fields : Fields) : Pull (Fields ⊕ Fields) := do
  if ← hasNext then
    let name ← nextName
    let c ← get
    if c.strips name then
      skipValue
      return .inl fields
    else
      let value ← readValue
      return .inl ⟨fields.values.put name value,
        if c.allows name then name :: fields.allowed else fields.allowed⟩
  else return .inr fields

/-- Passes one more member whose name may be skipped. -/
def skipStep (_ : Unit) : Pull (Unit ⊕ Unit) := do
  if ← hasNext then
    skipName
    skipValue
    return .inl ()
  else return .inr ()

/-- Looks at one more member for the text of the label. -/
def labelStep (key : String) (_ : Unit) : Pull (Unit ⊕ Option String) := do
  if ← hasNext then
    match ← selectName [key] with
    | some _ => do
      let label ← nextString
      return .inr (some label)
    | none => do
      -- The name was only looked at, and is still ahead.
      skipName
      skipValue
      return .inl ()
  else return .inr none

theorem keeps_hasNext : Keeps hasNext := by
  intro c a c' ran
  unfold hasNext at ran
  split at ran
  · rename_i found
    cases ran
    exact (ahead_ok found).1
  · cases ran

/-- A loop over members advances if going on takes something. -/
theorem advances_members {more : σ → Pull (σ ⊕ β)} {last : σ → β} (takes : Advances more) :
    Advances fun s =>
      hasNext >>= fun next => if next = true then more s else pure (.inr (last s)) := by
  intro s c s' c' ran
  obtain ⟨next, d, found, rest⟩ := bind_ok.mp ran
  have smaller := keeps_hasNext c next d found
  cases next with
  | true => exact Nat.lt_of_lt_of_le (takes _ _ _ _ rest) smaller
  | false => cases (pure_ok.mp rest).1

theorem fieldStep_advances : Advances fieldStep := by
  unfold fieldStep
  refine advances_members <| Takes.advances fun fields => nextName_takes.bind fun name =>
    keeps_get.bind fun c => ?_
  split
  · exact skipValue_takes.keeps.bind fun _ => keeps_pure _
  · exact readValue_takes.keeps.bind fun _ => keeps_pure _

theorem skipStep_advances : Advances skipStep := by
  unfold skipStep
  exact advances_members <| Takes.advances fun _ => skipName_takes.bind fun _ =>
    skipValue_takes.keeps.bind fun _ => keeps_pure _

theorem labelStep_advances (key : String) : Advances (labelStep key) := by
  unfold labelStep
  refine advances_members ?_
  intro s c s' c' ran
  obtain ⟨selected, d, found, rest⟩ := bind_ok.mp ran
  refine Nat.lt_of_lt_of_le ?_ (selectName_keeps _ _ _ _ found)
  cases selected with
  | some position =>
    obtain ⟨label, d', _, done⟩ := bind_ok.mp rest
    cases (pure_ok.mp done).1
  | none =>
    exact (skipName_takes.bind fun _ => skipValue_takes.keeps.bind fun _ => keeps_pure _) _ _ _ rest

def takeFields : Pull Fields := do
  beginObject
  let fields ← iterate fieldStep fieldStep_advances ⟨[], []⟩
  endObject
  return fields

def skipMembers : Pull Unit := do
  beginObject
  iterate skipStep skipStep_advances ()
  endObject

/-- The text of the first member with the given name, if the object has one. -/
def findLabel (key : String) : Pull (Option String) := do
  beginObject
  iterate (labelStep key) (labelStep_advances key) ()

/-- Looks for a label on a copy of the cursor that allows every name; the cursor itself stays. -/
def lookForLabel (key : String) : Pull (Option String) := fun c =>
  match findLabel key { c with failOnUnknown := false } with
  | .ok label _ => .ok label c
  | .error e _ => .error e c

end TaggedJson.Pull
