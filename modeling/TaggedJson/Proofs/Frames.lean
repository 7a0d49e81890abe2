import TaggedJson.Proofs.Scopes
/-! The frame of reading: no event reads or changes the flag for unknown names and the allowances,
so a run under one choice of them is a run under any other. -/
namespace TaggedJson.Pull
open Json (Document Scope)

/-- The cursor with another flag and other allowances. -/
def Cursor.under (c : Cursor) (failOnUnknown : Bool) (allowances : List Allowance) : Cursor :=
  { c with failOnUnknown := failOnUnknown, allowances := allowances }

/-- The same outcome for a cursor with another flag and other allowances. -/
def onward (failOnUnknown : Bool) (allowances : List Allowance) : Outcome α → Outcome α
  | .ok a c => .ok a (c.under failOnUnknown allowances)
  | .error e c => .error e (c.under failOnUnknown allowances)

variable {flag : Bool} {allowances : List Allowance}

/-! What a look does to a cursor, it does under any frame. -/

namespace Cursor
variable (c : Cursor)

@[simp] theorem under_place : (c.under flag allowances).place = c.place := rfl

@[simp] theorem under_scopes : (c.under flag allowances).scopes = c.scopes := rfl

@[simp] theorem under_ahead : (c.under flag allowances).ahead = c.ahead := rfl

@[simp] theorem under_skipSpace :
    (c.under flag allowances).skipSpace = c.skipSpace.under flag allowances := rfl

@[simp] theorem under_advance (count : Nat) :
    (c.under flag allowances).advance count = (c.advance count).under flag allowances := rfl

@[simp] theorem under_withScope (scope : Scope) :
    (c.under flag allowances).withScope scope = (c.withScope scope).under flag allowances := rfl

end Cursor

theorem lookLiteral_under (word : List Char) (seen : Ahead) (c : Cursor) :
    lookLiteral word seen (c.under flag allowances) =
      onward flag allowances (lookLiteral word seen c) := by
  unfold lookLiteral
  rw [apply_ite (onward flag allowances)]
  rfl

theorem lookValue_under (c : Cursor) :
    lookValue (c.under flag allowances) = onward flag allowances (lookValue c) := by
  unfold lookValue
  simp only [Cursor.under_skipSpace, Cursor.under_place]
  cases c.skipSpace.place.rest with
  | nil => rfl
  | cons next rest =>
    simp only [apply_ite (onward flag allowances), lookLiteral_under]
    rfl

theorem lookName_under (first : Bool) (c : Cursor) :
    lookName first (c.under flag allowances) = onward flag allowances (lookName first c) := by
  unfold lookName
  simp only [Cursor.under_skipSpace, Cursor.under_place]
  cases c.skipSpace.place.rest with
  | nil => rfl
  | cons next rest =>
    simp only [apply_ite (onward flag allowances)]
    rfl

theorem lookAfterMember_under (c : Cursor) :
    lookAfterMember (c.under flag allowances) = onward flag allowances (lookAfterMember c) := by
  unfold lookAfterMember
  simp only [Cursor.under_skipSpace, Cursor.under_place, Cursor.under_advance]
  cases c.skipSpace.place.rest with
  | nil => rfl
  | cons next rest =>
    simp only [apply_ite (onward flag allowances), lookName_under]
    rfl

theorem lookAfterName_under (c : Cursor) :
    lookAfterName (c.under flag allowances) = onward flag allowances (lookAfterName c) := by
  unfold lookAfterName
  simp only [Cursor.under_withScope, Cursor.under_skipSpace, Cursor.under_place,
    Cursor.under_advance]
  cases (c.withScope .objectNext).skipSpace.place.rest with
  | nil => rfl
  | cons next rest =>
    simp only [apply_ite (onward flag allowances), lookValue_under]
    rfl

theorem lookFirstItem_under (c : Cursor) :
    lookFirstItem (c.under flag allowances) = onward flag allowances (lookFirstItem c) := by
  unfold lookFirstItem
  simp only [Cursor.under_withScope, Cursor.under_skipSpace, Cursor.under_place,
    apply_ite (onward flag allowances), lookValue_under]
  rfl

theorem lookAfterItem_under (c : Cursor) :
    lookAfterItem (c.under flag allowances) = onward flag allowances (lookAfterItem c) := by
  unfold lookAfterItem
  simp only [Cursor.under_skipSpace, Cursor.under_place, Cursor.under_advance]
  cases c.skipSpace.place.rest with
  | nil => rfl
  | cons next rest =>
    simp only [apply_ite (onward flag allowances), lookValue_under]
    rfl

theorem lookEnd_under (c : Cursor) :
    lookEnd (c.under flag allowances) = onward flag allowances (lookEnd c) := by
  unfold lookEnd
  simp only [Cursor.under_skipSpace, Cursor.under_place, apply_ite (onward flag allowances)]
  rfl

theorem look_under (c : Cursor) :
    look (c.under flag allowances) = onward flag allowances (look c) := by
  unfold look
  rw [Cursor.under_scopes]
  cases c.scopes with
  | nil => exact lookEnd_under c
  | cons scope outer =>
    cases scope with
    | documentStart =>
      simp only [List.head?_cons, Cursor.under_withScope]
      exact lookValue_under _
    | documentEnd => exact lookEnd_under c
    | objectStart => exact lookName_under true c
    | objectValue => exact lookAfterName_under c
    | objectNext => exact lookAfterMember_under c
    | arrayStart => exact lookFirstItem_under c
    | arrayNext => exact lookAfterItem_under c

theorem ahead_under {c d : Cursor} {seen : Ahead} (looked : ahead c = .ok seen d) :
    ahead (c.under flag allowances) = .ok seen (d.under flag allowances) := by
  unfold ahead at looked ⊢
  rw [Cursor.under_ahead, look_under]
  cases kept : c.ahead with
  | some before =>
    rw [kept] at looked
    cases looked
    rfl
  | none =>
    rw [kept] at looked
    cases found : look c with
    | error => simp [found] at looked
    | ok seen e =>
      simp only [found] at looked
      cases looked
      rfl

theorem valueTaken_under (c : Cursor) :
    (c.under flag allowances).valueTaken = c.valueTaken.under flag allowances := by
  unfold Cursor.valueTaken
  simp only [Cursor.under]
  split <;> rfl

theorem setName_under (c : Cursor) (name : String) :
    (c.under flag allowances).setName name = (c.setName name).under flag allowances := by
  unfold Cursor.setName
  simp only [Cursor.under]
  split <;> rfl

theorem takeLexeme_under {scan : Place → Except Fault (α × Place)} {c e : Cursor} {a : α}
    (taken : takeLexeme scan c = .ok a e) :
    takeLexeme scan (c.under flag allowances) = .ok a (e.under flag allowances) := by
  unfold takeLexeme at taken ⊢
  rw [Cursor.under_place]
  split at taken <;> cases taken
  rfl

theorem openScope_under {scope : Scope} {step : Step} {c c' : Cursor}
    (opened : openScope scope step c = .ok () c') :
    openScope scope step (c.under flag allowances) = .ok () (c'.under flag allowances) := by
  unfold openScope at opened ⊢
  rw [Cursor.under_scopes]
  split at opened
  · cases opened
  · rename_i room
    cases opened
    rw [if_neg room]
    rfl

theorem leaves_under {event : Event} {d c' : Cursor} (leaves : event.Leaves d c') :
    event.Leaves (d.under flag allowances) (c'.under flag allowances) := by
  cases event with
  | beginObject | beginArray => exact openScope_under leaves
  | endObject | endArray | bool | null =>
    cases leaves
    exact (valueTaken_under _).symm
  | name text =>
    obtain ⟨e, taken, rfl⟩ := leaves
    exact ⟨_, takeLexeme_under taken, (setName_under e text).symm⟩
  | string | number =>
    obtain ⟨e, taken, rfl⟩ := leaves
    exact ⟨_, takeLexeme_under taken, (valueTaken_under _).symm⟩

theorem taken_under {event : Event} {c c' : Cursor} (flag : Bool) (allowances : List Allowance)
    (taken : event.Taken c c') :
    event.Taken (c.under flag allowances) (c'.under flag allowances) := by
  obtain ⟨d, looked, leaves⟩ := taken
  exact ⟨_, ahead_under looked, leaves_under leaves⟩

theorem runs_under {events : List Event} {c c' : Cursor} (flag : Bool)
    (allowances : List Allowance) (runs : Runs events c c') :
    Runs events (c.under flag allowances) (c'.under flag allowances) := by
  induction events generalizing c with
  | nil => exact congrArg (Cursor.under · flag allowances) runs
  | cons event rest ih =>
    obtain ⟨d, taken, more⟩ := runs
    exact ⟨_, taken_under flag allowances taken, ih more⟩

/-! The flag and the allowances stay as they are. -/

/-- Runs are deterministic, so one that starts under a frame also ends under it. -/
theorem runs_frame {events : List Event} {c c' : Cursor} (runs : Runs events c c') :
    c'.failOnUnknown = c.failOnUnknown ∧ c'.allowances = c.allowances := by
  have same := runs_deterministic runs (runs_under c.failOnUnknown c.allowances runs)
  rw [same]
  exact ⟨rfl, rfl⟩

theorem runs_under_iff {events : List Event} {c e : Cursor} {flag : Bool}
    {allowances : List Allowance} : Runs events (c.under flag allowances) e ↔
      ∃ c', Runs events c c' ∧ e = c'.under flag allowances := by
  constructor
  · intro runs
    -- Under the frame from before the run is one of the cursor itself, and there is but one.
    have back := runs_under c.failOnUnknown c.allowances runs
    exact ⟨_, back, runs_deterministic runs (runs_under flag allowances back)⟩
  · rintro ⟨c', runs, rfl⟩
    exact runs_under flag allowances runs

end TaggedJson.Pull
