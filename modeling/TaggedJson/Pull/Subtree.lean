import TaggedJson.Pull.Progress
/-! Whole values, taken without recursion: the containers still open are counted or kept in a list,
so the depth of a document costs no stack. -/
namespace TaggedJson.Pull

def refuse (expected : Expected) (seen : Ahead) : Pull α :=
  fail fun c => .unexpectedToken expected seen.token c.pathText

/-- The loop goes on as long as a container is open. -/
def whileOpen (depth : Nat) : Nat ⊕ Unit := if depth = 0 then .inr () else .inl depth

/-- Passes one token inside so many open containers. -/
def skipToken (depth : Nat) : Pull (Nat ⊕ Unit) := do
  let seen ← ahead
  match seen with
  | .beginObject => do beginObject; return whileOpen (depth + 1)
  | .beginArray => do beginArray; return whileOpen (depth + 1)
  | .endObject =>
    if depth = 0 then refuse .value seen else do endObject; return whileOpen (depth - 1)
  | .endArray =>
    if depth = 0 then refuse .value seen else do endArray; return whileOpen (depth - 1)
  | .name => if depth = 0 then refuse .value seen else do let _ ← nextName; return whileOpen depth
  | .string => do let _ ← nextString; return whileOpen depth
  -- Not asked for its value, a number that overflows is passed like any other.
  | .number => do let _ ← nextLiteral .value; endScalar; return whileOpen depth
  | .bool _ => do let _ ← nextBool; return whileOpen depth
  | .null => do nextNull; return whileOpen depth
  | .endDocument => refuse .value seen

/-- A container part way through, its parts newest first. -/
inductive Frame where
  | items (done : List Json.Value)
  | members (done : Json.Members)
  | member (done : Json.Members) (name : String)

/-- Puts a value that has ended into the container it belongs to. Only between members is there no
place for one, and there the document has none. -/
def deliver (value : Json.Value) : List Frame → Pull (List Frame ⊕ Json.Value)
  | [] => return .inr value
  | .items done :: outer => return .inl (.items (value :: done) :: outer)
  | .member done name :: outer =>
    if done.has name then fail fun c => .repeatedName name c.pathText
    else return .inl (.members ((name, value) :: done) :: outer)
  | .members done :: outer => return .inl (.members done :: outer)

/-- Takes one token into the containers still open. -/
def readToken (frames : List Frame) : Pull (List Frame ⊕ Json.Value) := do
  let seen ← ahead
  match seen, frames with
  | .beginObject, frames => do beginObject; return .inl (.members [] :: frames)
  | .beginArray, frames => do beginArray; return .inl (.items [] :: frames)
  | .endObject, .members done :: outer => do endObject; deliver (.object done.reverse) outer
  | .endArray, .items done :: outer => do endArray; deliver (.array done.reverse) outer
  | .name, .members done :: outer => do
    let name ← nextName
    return .inl (.member done name :: outer)
  | .string, frames => do
    let text ← nextString
    deliver (.string text) frames
  | .number, frames => do
    let number ← nextNumber
    deliver (.number number) frames
  | .bool _, frames => do
    let value ← nextBool
    deliver (.bool value) frames
  | .null, frames => do nextNull; deliver .null frames
  | seen, _ => refuse .value seen

/-! Each token they go on after has been taken. -/

theorem refuse_takes (expected : Expected) (seen : Ahead) : Takes (refuse expected seen : Pull α) :=
  takes_fail _

theorem Takes.advances {step : σ → Pull (σ ⊕ β)} (takes : ∀ s, Takes (step s)) : Advances step :=
  fun s c s' c' ran => takes s c (.inl s') c' ran

theorem skipToken_takes (depth : Nat) : Takes (skipToken depth) :=
  keeps_ahead.then_takes fun seen => by
    cases seen with
    | beginObject => exact beginObject_takes.bind fun _ => keeps_pure _
    | beginArray => exact beginArray_takes.bind fun _ => keeps_pure _
    | endObject =>
      by_cases outermost : depth = 0
      · simpa only [outermost, if_true] using refuse_takes _ _
      · simpa only [outermost, if_false] using endObject_takes.bind fun _ => keeps_pure _
    | endArray =>
      by_cases outermost : depth = 0
      · simpa only [outermost, if_true] using refuse_takes _ _
      · simpa only [outermost, if_false] using endArray_takes.bind fun _ => keeps_pure _
    | name =>
      by_cases outermost : depth = 0
      · simpa only [outermost, if_true] using refuse_takes _ _
      · simpa only [outermost, if_false] using nextName_takes.bind fun _ => keeps_pure _
    | string => exact nextString_takes.bind fun _ => keeps_pure _
    | number =>
      exact (nextLiteral_takes _).bind fun _ => endScalar_keeps.bind fun _ => keeps_pure _
    | bool => exact nextBool_takes.bind fun _ => keeps_pure _
    | null => exact nextNull_takes.bind fun _ => keeps_pure _
    | endDocument => exact refuse_takes _ _

theorem deliver_keeps (value : Json.Value) (frames : List Frame) :
    Keeps (deliver value frames) := by
  unfold deliver
  split
  · exact keeps_pure _
  · exact keeps_pure _
  · split
    · exact (takes_fail _).keeps
    · exact keeps_pure _
  · exact keeps_pure _

theorem readToken_takes (frames : List Frame) : Takes (readToken frames) :=
  keeps_ahead.then_takes fun seen => by
    split
    · exact beginObject_takes.bind fun _ => keeps_pure _
    · exact beginArray_takes.bind fun _ => keeps_pure _
    · exact endObject_takes.bind fun _ => deliver_keeps _ _
    · exact endArray_takes.bind fun _ => deliver_keeps _ _
    · exact nextName_takes.bind fun _ => keeps_pure _
    · exact nextString_takes.bind fun _ => deliver_keeps _ _
    · exact nextNumber_takes.bind fun _ => deliver_keeps _ _
    · exact nextBool_takes.bind fun _ => deliver_keeps _ _
    · exact nextNull_takes.bind fun _ => deliver_keeps _ _
    · exact refuse_takes _ _

/-- Passes the next value with everything in it. -/
def skipValue : Pull Unit := iterate skipToken (Takes.advances skipToken_takes) 0

/-- Takes the next value. A name may not come twice in one object. -/
def readValue : Pull Json.Value := iterate readToken (Takes.advances readToken_takes) []

theorem skipValue_takes : Takes skipValue := iterate_takes _ skipToken_takes _

theorem readValue_takes : Takes readValue := iterate_takes _ readToken_takes _

end TaggedJson.Pull
