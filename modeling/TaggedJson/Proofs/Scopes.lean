import TaggedJson.Proofs.Document
import TaggedJson.Proofs.Events
/-! What may be ahead in a scope, and the events of whole documents. A document takes the reader
from before a value to after it and leaves everything further out as it was. -/
namespace TaggedJson.Pull
open Json (Document Scope)

/-- The scope once a value has been passed in it, if it may be. -/
def afterValue : Scope → Option Scope
  | .documentStart => some .documentEnd
  | .objectValue => some .objectNext
  | .arrayStart | .arrayNext => some .arrayNext
  | .documentEnd | .objectStart | .objectNext => none

/-- Whether a value begins with the token. -/
def Ahead.starts : Ahead → Bool
  | .name | .endObject | .endArray | .endDocument => false
  | _ => true

/-- In an object, before a name or the end. -/
def AtMember (scope : Scope) : Prop := scope = .objectStart ∨ scope = .objectNext

/-- In an array, before an item or the end. -/
def AtItem (scope : Scope) : Prop := scope = .arrayStart ∨ scope = .arrayNext

/-- What a look finds in a stack of scopes, and the stack it leaves. -/
inductive Sees : List Scope → Ahead → List Scope → Prop
  | value {scope after : Scope} {outer : List Scope} {seen : Ahead}
    (place : afterValue scope = some after) (starts : seen.starts = true) :
    Sees (scope :: outer) seen (after :: outer)
  | name {scope : Scope} {outer : List Scope} (member : AtMember scope) :
    Sees (scope :: outer) .name (.objectValue :: outer)
  | endObject {scope : Scope} {outer : List Scope} (member : AtMember scope) :
    Sees (scope :: outer) .endObject (scope :: outer)
  | endArray {scope : Scope} {outer : List Scope} (item : AtItem scope) :
    Sees (scope :: outer) .endArray (.arrayNext :: outer)
  | endDocument {scopes : List Scope} (done : scopes.head? = some .documentEnd ∨ scopes = []) :
    Sees scopes .endDocument scopes

/-- A look goes neither deeper nor further out. -/
theorem Sees.length {before after : List Scope} {seen : Ahead} (sees : Sees before seen after) :
    after.length = before.length := by
  cases sees <;> rfl

theorem lookLiteral_scopes {word : List Char} {seen found : Ahead} {c e : Cursor}
    (looked : lookLiteral word seen c = .ok found e) : found = seen ∧ e.scopes = c.scopes := by
  unfold lookLiteral at looked
  split at looked
  · cases looked
    exact ⟨rfl, rfl⟩
  · cases looked

theorem lookValue_scopes {c e : Cursor} {seen : Ahead} (looked : lookValue c = .ok seen e) :
    seen.starts = true ∧ e.scopes = c.scopes := by
  unfold lookValue at looked
  simp only at looked
  repeat' split at looked
  all_goals first
    | cases looked; done
    | (cases looked; exact ⟨rfl, rfl⟩)
    | (obtain ⟨rfl, same⟩ := lookLiteral_scopes looked; exact ⟨rfl, same⟩)

theorem lookName_sees {first : Bool} {c e : Cursor} {seen : Ahead} {scope : Scope}
    {outer : List Scope} (shape : c.scopes = scope :: outer) (member : AtMember scope)
    (looked : lookName first c = .ok seen e) : Sees (scope :: outer) seen e.scopes := by
  unfold lookName at looked
  simp only at looked
  repeat' split at looked
  · cases looked
  · cases looked
    simpa [Cursor.withScope, Cursor.skipSpace, shape] using Sees.name member
  · cases looked
    simpa [Cursor.advance, Cursor.skipSpace, shape] using Sees.endObject member
  · cases looked

section Looks
variable {c e : Cursor} {seen : Ahead} {outer : List Scope}

theorem lookAfterName_sees (shape : c.scopes = .objectValue :: outer)
    (looked : lookAfterName c = .ok seen e) : Sees (.objectValue :: outer) seen e.scopes := by
  simp only [lookAfterName] at looked
  split at looked
  · cases looked
  split at looked
  · obtain ⟨starts, same⟩ := lookValue_scopes looked
    rw [same]
    simpa [Cursor.withScope, Cursor.skipSpace, Cursor.advance, shape] using Sees.value rfl starts
  · cases looked

theorem lookAfterMember_sees (shape : c.scopes = .objectNext :: outer)
    (looked : lookAfterMember c = .ok seen e) : Sees (.objectNext :: outer) seen e.scopes := by
  simp only [lookAfterMember] at looked
  repeat' split at looked
  · cases looked
  · cases looked
    simpa [Cursor.skipSpace, Cursor.advance, shape] using Sees.endObject (.inr rfl)
  · exact lookName_sees (c := c.skipSpace.advance 1) shape (.inr rfl) looked
  · cases looked

theorem lookFirstItem_sees (shape : c.scopes = .arrayStart :: outer)
    (looked : lookFirstItem c = .ok seen e) : Sees (.arrayStart :: outer) seen e.scopes := by
  simp only [lookFirstItem] at looked
  split at looked
  · cases looked
    simpa [Cursor.withScope, Cursor.skipSpace, Cursor.advance, shape] using
      Sees.endArray (.inl rfl)
  · obtain ⟨starts, same⟩ := lookValue_scopes looked
    rw [same]
    simpa [Cursor.withScope, Cursor.skipSpace, shape] using Sees.value rfl starts

theorem lookAfterItem_sees (shape : c.scopes = .arrayNext :: outer)
    (looked : lookAfterItem c = .ok seen e) : Sees (.arrayNext :: outer) seen e.scopes := by
  simp only [lookAfterItem] at looked
  repeat' split at looked
  · cases looked
  · cases looked
    simpa [Cursor.skipSpace, Cursor.advance, shape] using Sees.endArray (.inr rfl)
  · obtain ⟨starts, same⟩ := lookValue_scopes looked
    rw [same]
    simpa [Cursor.skipSpace, Cursor.advance, shape] using Sees.value rfl starts
  · cases looked

theorem lookEnd_sees (done : c.scopes.head? = some .documentEnd ∨ c.scopes = [])
    (looked : lookEnd c = .ok seen e) : Sees c.scopes seen e.scopes := by
  unfold lookEnd at looked
  simp only at looked
  split at looked <;> cases looked
  exact .endDocument done

theorem look_sees (looked : look c = .ok seen e) : Sees c.scopes seen e.scopes := by
  unfold look at looked
  cases shape : c.scopes with
  | nil =>
    rw [shape] at looked
    exact shape ▸ lookEnd_sees (.inr shape) looked
  | cons scope outer =>
    cases scope <;> simp only [shape, List.head?_cons] at looked
    case documentStart =>
      obtain ⟨starts, same⟩ := lookValue_scopes looked
      rw [same]
      simpa [Cursor.withScope, shape] using Sees.value rfl starts
    case documentEnd => exact shape ▸ lookEnd_sees (.inl (shape ▸ rfl)) looked
    case objectStart => exact lookName_sees shape (.inl rfl) looked
    case objectValue => exact lookAfterName_sees shape looked
    case objectNext => exact lookAfterMember_sees shape looked
    case arrayStart => exact lookFirstItem_sees shape looked
    case arrayNext => exact lookAfterItem_sees shape looked

end Looks

/-! Events as moves of the stack. -/

/-- Whether the event is a value without parts. -/
def Event.isScalar : Event → Bool
  | .string _ | .number _ | .bool _ | .null => true
  | _ => false

inductive Event.Moves : Event → List Scope → List Scope → Prop
  | beginObject {scope after : Scope} {outer : List Scope} (place : afterValue scope = some after) :
    Moves .beginObject (scope :: outer) (.objectStart :: after :: outer)
  | beginArray {scope after : Scope} {outer : List Scope} (place : afterValue scope = some after) :
    Moves .beginArray (scope :: outer) (.arrayStart :: after :: outer)
  | scalar {event : Event} {scope after : Scope} {outer : List Scope}
    (place : afterValue scope = some after) (single : event.isScalar = true) :
    Moves event (scope :: outer) (after :: outer)
  | name {text : String} {scope : Scope} {outer : List Scope} (member : AtMember scope) :
    Moves (.name text) (scope :: outer) (.objectValue :: outer)
  | endObject {scope : Scope} {outer : List Scope} (member : AtMember scope) :
    Moves .endObject (scope :: outer) outer
  | endArray {scope : Scope} {outer : List Scope} (item : AtItem scope) :
    Moves .endArray (scope :: outer) outer

theorem valueTaken_scopes (c : Cursor) : c.valueTaken.scopes = c.scopes := by
  unfold Cursor.valueTaken
  split <;> rfl

theorem valueTaken_ahead (c : Cursor) : c.valueTaken.ahead = c.ahead := by
  unfold Cursor.valueTaken
  split <;> rfl

theorem setName_scopes (c : Cursor) (name : String) : (c.setName name).scopes = c.scopes := by
  unfold Cursor.setName
  split <;> rfl

theorem setName_ahead (c : Cursor) (name : String) : (c.setName name).ahead = c.ahead := by
  unfold Cursor.setName
  split <;> rfl

theorem takeLexeme_scopes {scan : Place → Except Fault (α × Place)} {c e : Cursor} {a : α}
    (taken : takeLexeme scan c = .ok a e) : e.scopes = c.scopes ∧ e.ahead = c.ahead := by
  unfold takeLexeme at taken
  split at taken <;> cases taken
  exact ⟨rfl, rfl⟩

theorem openScope_scopes {scope : Scope} {step : Step} {c c' : Cursor} {u : Unit}
    (opened : openScope scope step c = .ok u c') :
    c'.scopes = scope :: c.scopes ∧ c'.ahead = none := by
  unfold openScope at opened
  split at opened <;> cases opened
  exact ⟨rfl, rfl⟩

/-- The stack an event leaves, from the one the look has left. -/
def Event.leave : Event → List Scope → List Scope
  | .beginObject, scopes => .objectStart :: scopes
  | .beginArray, scopes => .arrayStart :: scopes
  | .endObject, scopes | .endArray, scopes => scopes.tail
  | _, scopes => scopes

theorem leaves_scopes {event : Event} {d c' : Cursor} (leaves : event.Leaves d c') :
    c'.ahead = none ∧ c'.scopes = event.leave d.scopes := by
  cases event with
  | beginObject | beginArray =>
    obtain ⟨scopes, fresh⟩ := openScope_scopes leaves
    exact ⟨fresh, scopes⟩
  | endObject | endArray =>
    cases leaves
    exact ⟨valueTaken_ahead _, valueTaken_scopes _⟩
  | name text =>
    obtain ⟨e, taken, rfl⟩ := leaves
    obtain ⟨scopes, fresh⟩ := takeLexeme_scopes taken
    exact ⟨(setName_ahead ..).trans fresh, (setName_scopes ..).trans scopes⟩
  | string text | number literal =>
    obtain ⟨e, taken, rfl⟩ := leaves
    obtain ⟨scopes, -⟩ := takeLexeme_scopes taken
    exact ⟨valueTaken_ahead _, (valueTaken_scopes _).trans scopes⟩
  | bool value | null =>
    cases leaves
    exact ⟨valueTaken_ahead _, valueTaken_scopes _⟩

theorem sees_moves {event : Event} {before after : List Scope}
    (sees : Sees before event.seen after) : event.Moves before (event.leave after) := by
  cases event <;> simp only [Event.seen] at sees <;> cases sees
  case beginObject.value place _ => exact .beginObject place
  case beginArray.value place _ => exact .beginArray place
  case endObject.endObject member => exact .endObject member
  case endArray.endArray item => exact .endArray item
  case name.name member => exact .name member
  case string.value place _ | number.value place _ | bool.value place _ | null.value place _ =>
    exact .scalar place rfl
  -- A name or an end, seen where a value begins.
  all_goals
    rename_i starts
    cases starts

theorem taken_moves {event : Event} {c c' : Cursor} (fresh : c.ahead = none)
    (taken : event.Taken c c') : event.Moves c.scopes c'.scopes ∧ c'.ahead = none := by
  obtain ⟨d, found, leaves⟩ := taken
  obtain ⟨e, looked, rfl⟩ := (ahead_fresh fresh).mp found
  obtain ⟨clear, scopes⟩ := leaves_scopes leaves
  have sees := look_sees looked
  exact ⟨scopes ▸ sees_moves sees, clear⟩

theorem moves_of_taken {event : Event} {scope : Scope} {outer : List Scope} {c d : Cursor}
    (fresh : c.ahead = none) (shape : c.scopes = scope :: outer) (taken : event.Taken c d) :
    event.Moves (scope :: outer) d.scopes ∧ d.ahead = none := by
  have moved := taken_moves fresh taken
  rwa [shape] at moved

theorem moves_beginObject {scope : Scope} {outer after : List Scope}
    (moves : Event.beginObject.Moves (scope :: outer) after) :
    ∃ next, afterValue scope = some next ∧ after = .objectStart :: next :: outer := by
  cases moves with
  | beginObject place => exact ⟨_, place, rfl⟩
  | scalar _ single => cases single

theorem moves_beginArray {scope : Scope} {outer after : List Scope}
    (moves : Event.beginArray.Moves (scope :: outer) after) :
    ∃ next, afterValue scope = some next ∧ after = .arrayStart :: next :: outer := by
  cases moves with
  | beginArray place => exact ⟨_, place, rfl⟩
  | scalar _ single => cases single

theorem moves_name {text : String} {scope : Scope} {outer after : List Scope}
    (moves : (Event.name text).Moves (scope :: outer) after) : after = .objectValue :: outer := by
  cases moves with
  | name => rfl
  | scalar _ single => cases single

/-- After a name there is nothing but a value. -/
theorem value_after_name {event : Event} {outer after : List Scope}
    (moves : event.Moves (.objectValue :: outer) after) : event.seen.starts = true := by
  cases moves with
  | scalar _ single => cases event <;> first | rfl | cases single
  | beginObject | beginArray => rfl
  | name member | endObject member => rcases member with member | member <;> cases member
  | endArray item => rcases item with item | item <;> cases item

/-- Among members there is nothing but a name or the end. -/
theorem moves_member {event : Event} {scope : Scope} {outer after : List Scope}
    (moves : event.Moves (scope :: outer) after) (member : AtMember scope) :
    (event = .endObject ∧ after = outer) ∨
      ∃ text, event = .name text ∧ after = .objectValue :: outer := by
  cases moves with
  | endObject => exact .inl ⟨rfl, rfl⟩
  | name => exact .inr ⟨_, rfl, rfl⟩
  | scalar place | beginObject place | beginArray place =>
    rcases member with rfl | rfl <;> cases place
  | endArray item => rcases member with rfl | rfl <;> rcases item with item | item <;> cases item

/-- Among items there is nothing but a value or the end. -/
theorem moves_item {event : Event} {scope : Scope} {outer after : List Scope}
    (moves : event.Moves (scope :: outer) after) (item : AtItem scope) :
    event = .endArray ∨ event.seen.starts = true := by
  cases moves with
  | endArray => exact .inl rfl
  | scalar _ single => cases event <;> first | exact .inr rfl | cases single
  | beginObject | beginArray => exact .inr rfl
  | name member | endObject member =>
    rcases item with rfl | rfl <;> rcases member with member | member <;> cases member

/-! The events of documents. -/

mutual
def documentEvents : Document → List Event
  | .null => [.null]
  | .bool value => [.bool value]
  | .number literal => [.number literal]
  | .string text => [.string text]
  | .array items => .beginArray :: itemEvents items
  | .object members => .beginObject :: memberEvents members

/-- The rest of an array, its end included. -/
def itemEvents : List Document → List Event
  | [] => [.endArray]
  | item :: rest => documentEvents item ++ itemEvents rest

/-- The rest of an object, its end included. -/
def memberEvents : List (String × Document) → List Event
  | [] => [.endObject]
  | (name, document) :: rest => .name name :: (documentEvents document ++ memberEvents rest)
end

/-- The document is read from one place to the other. -/
def Reads (document : Document) (c c' : Cursor) : Prop := Runs (documentEvents document) c c'

theorem documentEvents_ne_nil (document : Document) : documentEvents document ≠ [] := by
  cases document <;> simp [documentEvents]

theorem Reads.first {document : Document} {c c' : Cursor} (reads : Reads document c c') :
    ∃ event rest d, documentEvents document = event :: rest ∧ event.Taken c d ∧ Runs rest d c' := by
  obtain ⟨event, rest, shape⟩ := List.exists_cons_of_ne_nil (documentEvents_ne_nil document)
  rw [Reads, shape] at reads
  obtain ⟨d, taken, runs⟩ := reads
  exact ⟨event, rest, d, shape, taken, runs⟩

mutual
theorem reads_scopes : ∀ (document : Document) {c c' : Cursor} {scope : Scope} {outer : List Scope},
    c.ahead = none → c.scopes = scope :: outer → Reads document c c' →
    ∃ after, afterValue scope = some after ∧ c'.scopes = after :: outer ∧ c'.ahead = none
  | .null, c, c', scope, outer, fresh, shape, reads
  | .bool _, c, c', scope, outer, fresh, shape, reads
  | .number _, c, c', scope, outer, fresh, shape, reads
  | .string _, c, c', scope, outer, fresh, shape, reads => by
    obtain ⟨moves, clear⟩ := moves_of_taken fresh shape (runs_singleton.mp reads)
    generalize c'.scopes = scopes at moves
    cases moves with
    | scalar place => exact ⟨_, place, rfl, clear⟩
  | .array items, c, c', scope, outer, fresh, shape, reads => by
    obtain ⟨d, taken, rest⟩ := reads
    obtain ⟨moves, clear⟩ := moves_of_taken fresh shape taken
    obtain ⟨_, place, opened⟩ := moves_beginArray moves
    obtain ⟨left, done⟩ := items_scopes items clear opened (.inl rfl) rest
    exact ⟨_, place, left, done⟩
  | .object members, c, c', scope, outer, fresh, shape, reads => by
    obtain ⟨d, taken, rest⟩ := reads
    obtain ⟨moves, clear⟩ := moves_of_taken fresh shape taken
    obtain ⟨_, place, opened⟩ := moves_beginObject moves
    obtain ⟨left, done⟩ := members_scopes members clear opened (.inl rfl) rest
    exact ⟨_, place, left, done⟩

theorem items_scopes : ∀ (items : List Document) {c c' : Cursor} {scope : Scope}
    {outer : List Scope}, c.ahead = none → c.scopes = scope :: outer → AtItem scope →
    Runs (itemEvents items) c c' → c'.scopes = outer ∧ c'.ahead = none
  | [], c, c', scope, outer, fresh, shape, item, runs => by
    obtain ⟨moves, clear⟩ := moves_of_taken fresh shape (runs_singleton.mp runs)
    generalize c'.scopes = scopes at moves
    cases moves with
    | endArray => exact ⟨rfl, clear⟩
    | scalar _ single => cases single
  | first :: rest, c, c', scope, outer, fresh, shape, item, runs => by
    obtain ⟨d, one, more⟩ := runs_append.mp runs
    obtain ⟨after, place, left, clear⟩ := reads_scopes first fresh shape one
    refine items_scopes rest clear left ?_ more
    rcases item with rfl | rfl <;> cases place <;> exact .inr rfl

theorem members_scopes : ∀ (members : List (String × Document)) {c c' : Cursor} {scope : Scope}
    {outer : List Scope}, c.ahead = none → c.scopes = scope :: outer → AtMember scope →
    Runs (memberEvents members) c c' → c'.scopes = outer ∧ c'.ahead = none
  | [], c, c', scope, outer, fresh, shape, member, runs => by
    obtain ⟨moves, clear⟩ := moves_of_taken fresh shape (runs_singleton.mp runs)
    generalize c'.scopes = scopes at moves
    cases moves with
    | endObject => exact ⟨rfl, clear⟩
    | scalar _ single => cases single
  | (name, first) :: rest, c, c', scope, outer, fresh, shape, member, runs => by
    obtain ⟨d, taken, value⟩ := runs
    obtain ⟨e, one, more⟩ := runs_append.mp value
    obtain ⟨moves, clear⟩ := moves_of_taken fresh shape taken
    obtain ⟨after, place, left, done⟩ := reads_scopes first clear (moves_name moves) one
    -- A value in an object always leaves the place behind a member.
    cases place
    exact members_scopes rest done left (.inr rfl) more
end

end TaggedJson.Pull
