import TaggedJson.Proofs.Objects
/-! The path of the cursor. A look leaves it as it is, and a whole value only moves an array around
it on to the next item. -/
namespace TaggedJson.Pull
open Json (Document)

/-! Looks. -/

section Looks
variable {c e : Cursor} {seen : Ahead}

theorem lookLiteral_path {word : List Char} {found : Ahead}
    (looked : lookLiteral word seen c = .ok found e) : e.path = c.path := by
  unfold lookLiteral at looked
  split at looked <;> cases looked
  rfl

theorem lookValue_path (looked : lookValue c = .ok seen e) : e.path = c.path := by
  unfold lookValue at looked
  simp only at looked
  repeat' split at looked
  all_goals first
    | cases looked; done
    | (cases looked; rfl)
    | exact (lookLiteral_path looked).trans rfl

theorem lookName_path {first : Bool} (looked : lookName first c = .ok seen e) :
    e.path = c.path := by
  unfold lookName at looked
  simp only at looked
  repeat' split at looked
  all_goals cases looked
  all_goals rfl

theorem lookAfterMember_path (looked : lookAfterMember c = .ok seen e) : e.path = c.path := by
  simp only [lookAfterMember] at looked
  repeat' split at looked
  · cases looked
  · cases looked
    rfl
  · exact (lookName_path looked).trans rfl
  · cases looked

theorem lookAfterName_path (looked : lookAfterName c = .ok seen e) : e.path = c.path := by
  simp only [lookAfterName] at looked
  repeat' split at looked
  · cases looked
  · exact (lookValue_path looked).trans rfl
  · cases looked

theorem lookFirstItem_path (looked : lookFirstItem c = .ok seen e) : e.path = c.path := by
  simp only [lookFirstItem] at looked
  split at looked
  · cases looked
    rfl
  · exact (lookValue_path looked).trans rfl

theorem lookAfterItem_path (looked : lookAfterItem c = .ok seen e) : e.path = c.path := by
  simp only [lookAfterItem] at looked
  repeat' split at looked
  · cases looked
  · cases looked
    rfl
  · exact (lookValue_path looked).trans rfl
  · cases looked

theorem look_path (looked : look c = .ok seen e) : e.path = c.path := by
  unfold look at looked
  split at looked
  · exact (lookValue_path looked).trans rfl
  · exact (lookName_path looked).trans rfl
  · exact lookAfterName_path looked
  · exact lookAfterMember_path looked
  · exact lookFirstItem_path looked
  · exact lookAfterItem_path looked
  all_goals
    unfold lookEnd at looked
    simp only at looked
    split at looked <;> cases looked
    rfl

theorem looked_path (looked : ahead c = .ok seen e) : e.path = c.path := by
  unfold ahead at looked
  split at looked
  · cases looked
    rfl
  · split at looked <;> cases looked
    rename_i found
    have same := look_path found
    exact same

end Looks

/-! Events. -/

/-- The path behind a value. -/
def passed : List Step → List Step
  | .index position :: outer => .index (position + 1) :: outer
  | path => path

/-- The path behind the name of a member. -/
def named (name : String) : List Step → List Step
  | .field _ :: outer => .field (some name) :: outer
  | path => path

theorem valueTaken_path (c : Cursor) : c.valueTaken.path = passed c.path := by
  unfold Cursor.valueTaken
  split
  · rename_i position outer path
    rw [path, passed]
  · rename_i other
    unfold passed
    split
    · rename_i position outer path
      exact (other position outer path).elim
    · rfl

theorem setName_path (c : Cursor) (name : String) : (c.setName name).path = named name c.path := by
  unfold Cursor.setName
  split
  · rename_i before outer path
    rw [path, named]
  · rename_i other
    unfold named
    split
    · rename_i before outer path
      exact (other before outer path).elim
    · rfl

/-- The path an event leaves. -/
def Event.leavePath : Event → List Step → List Step
  | .beginObject, path => .field none :: path
  | .beginArray, path => .index 0 :: path
  | .endObject, path | .endArray, path => passed path.tail
  | .name text, path => named text path
  | _, path => passed path

theorem takeLexeme_path {β : Type} {scan : Place → Except Fault (β × Place)} {c e : Cursor} {b : β}
    (taken : takeLexeme scan c = .ok b e) : e.path = c.path := by
  unfold takeLexeme at taken
  split at taken <;> cases taken
  rfl

theorem openScope_path {scope : Json.Scope} {step : Step} {c c' : Cursor} {u : Unit}
    (opened : openScope scope step c = .ok u c') : c'.path = step :: c.path := by
  unfold openScope at opened
  split at opened <;> cases opened
  rfl

theorem taken_path {event : Event} {c c' : Cursor} (taken : event.Taken c c') :
    c'.path = event.leavePath c.path := by
  obtain ⟨d, looked, leaves⟩ := taken
  rw [← looked_path looked]
  cases event with
  | beginObject | beginArray =>
    have opened := openScope_path leaves
    exact opened
  | endObject | endArray =>
    cases leaves
    exact valueTaken_path _
  | name text =>
    obtain ⟨e, lexeme, rfl⟩ := leaves
    have same := takeLexeme_path lexeme
    rw [setName_path, same]
    rfl
  | string text | number literal =>
    obtain ⟨e, lexeme, rfl⟩ := leaves
    have same := takeLexeme_path lexeme
    rw [valueTaken_path, same]
    rfl
  | bool value | null =>
    cases leaves
    exact valueTaken_path _

/-- The path that events leave, one after the other. -/
def leavePaths (events : List Event) (path : List Step) : List Step :=
  events.foldl (fun path event => event.leavePath path) path

theorem leavePaths_cons (event : Event) (rest : List Event) (path : List Step) :
    leavePaths (event :: rest) path = leavePaths rest (event.leavePath path) := rfl

theorem leavePaths_append (left right : List Event) (path : List Step) :
    leavePaths (left ++ right) path = leavePaths right (leavePaths left path) :=
  List.foldl_append

theorem runs_path {events : List Event} {c c' : Cursor} (runs : Runs events c c') :
    c'.path = leavePaths events c.path := by
  induction events generalizing c with
  | nil =>
    cases runs
    rfl
  | cons event rest ih =>
    obtain ⟨d, taken, more⟩ := runs
    rw [ih more, taken_path taken, leavePaths_cons]

/-! Documents. -/

mutual
theorem document_leaves : ∀ (document : Document) (path : List Step),
    leavePaths (documentEvents document) path = passed path
  | .null, _ | .bool _, _ | .number _, _ | .string _, _ => rfl
  | .array items, path => items_leave items 0 path
  | .object members, path => members_leave members none path

theorem items_leave : ∀ (items : List Document) (position : Nat) (outer : List Step),
    leavePaths (itemEvents items) (.index position :: outer) = passed outer
  | [], _, _ => rfl
  | item :: rest, position, outer => by
    rw [itemEvents, leavePaths_append, document_leaves item]
    exact items_leave rest (position + 1) outer

theorem members_leave : ∀ (members : List (String × Document)) (before : Option String)
    (outer : List Step), leavePaths (memberEvents members) (.field before :: outer) = passed outer
  | [], _, _ => rfl
  | (name, document) :: rest, before, outer => by
    rw [memberEvents, leavePaths_cons, leavePaths_append, document_leaves document]
    exact members_leave rest (some name) outer
end

/-- Behind a member the path is that of the member. -/
theorem member_path {name : String} {document : Document} {c c' : Cursor} {before : Option String}
    {outer : List Step} (inside : c.path = .field before :: outer)
    (runs : Runs (.name name :: documentEvents document) c c') :
    c'.path = .field (some name) :: outer := by
  rw [runs_path runs, leavePaths_cons, document_leaves document, inside]
  rfl

end TaggedJson.Pull
