import TaggedJson.Pull.Members
/-! How operations end, whether they succeed or fail. What holds of the end of every single
operation and can be carried from one to the next holds of the end of whatever is made of them. -/
namespace TaggedJson.Pull

/-- The error an operation failed with, if it did, and the cursor it left in either case. -/
structure Ending where
  error : Option DecodeError
  cursor : Cursor

def ending : Outcome α → Ending
  | .ok _ c => ⟨none, c⟩
  | .error e c => ⟨some e, c⟩

/-- Where in the text an error is reported to be, if it is one of the text itself. -/
def DecodeError.offset? : DecodeError → Option Nat
  | .malformed _ offset _ => some offset
  | _ => none

/-- Every end of the operation is so related to the cursor it began at. -/
def Always (R : Cursor → Ending → Prop) (x : Pull α) : Prop := ∀ c, R c (ending (x c))

theorem Always.map {R : Cursor → Ending → Prop} {x : Pull α} (f : α → β) (ends : Always R x) :
    Always R (f <$> x) := by
  intro c
  have ended := ends c
  show R c (ending (EStateM.map f x c))
  unfold EStateM.map
  cases ran : x c <;> rw [ran] at ended <;> exact ended

theorem Always.bind {R : Cursor → Ending → Prop} (onward : ∀ {c d o}, R c ⟨none, d⟩ → R d o → R c o)
    {x : Pull α} {f : α → Pull β} (first : Always R x) (next : ∀ a, Always R (f a)) :
    Always R (x >>= f) := by
  intro c
  have begun := first c
  show R c (ending (EStateM.bind x f c))
  unfold EStateM.bind
  cases ran : x c with
  | error e d =>
    rw [ran] at begun
    exact begun
  | ok a d =>
    rw [ran] at begun
    exact onward begun (next a d)

/-- What only looks at the token ahead, and then ends well or refuses it. -/
theorem Always.looks {R : Cursor → Ending → Prop}
    (onward : ∀ {c d o}, R c ⟨none, d⟩ → R d o → R c o) (looked : Always R ahead) {x : Pull α}
    (stops : ∀ c e d, ahead c = .error e d → ending (x c) = ⟨some e, d⟩)
    (stands : ∀ c seen d, ahead c = .ok seen d → R d (ending (x c))) : Always R x := by
  intro c
  have begun := looked c
  cases found : ahead c with
  | error e d =>
    rw [stops c e d found]
    rw [found] at begun
    exact begun
  | ok seen d =>
    rw [found] at begun
    exact onward begun (stands c seen d found)

/-- A failure comes from the first operation, or else from the second. -/
theorem bind_error {x : Pull α} {f : α → Pull β} {c c' : Cursor} {e : DecodeError} :
    (x >>= f) c = .error e c' ↔
      x c = .error e c' ∨ ∃ a d, x c = .ok a d ∧ f a d = .error e c' := by
  show EStateM.bind x f c = _ ↔ _
  unfold EStateM.bind
  cases x c <;> simp [and_assoc]

/-- What can be carried from one operation to the next, and holds of those that take a token or look
at one. -/
structure Steady (R : Cursor → Ending → Prop) : Prop where
  stays : ∀ c, R c ⟨none, c⟩
  onward : ∀ {c d o}, R c ⟨none, d⟩ → R d o → R c o
  fails : ∀ {c e}, e.offset? = none → R c ⟨some e, c⟩
  ahead : Always R ahead
  beginObject : Always R beginObject
  endObject : Always R endObject
  beginArray : Always R beginArray
  endArray : Always R endArray
  nextName : Always R nextName
  selectName : ∀ names, Always R (selectName names)
  nextString : Always R nextString
  nextLiteral : ∀ expected, Always R (nextLiteral expected)
  nextNumber : Always R nextNumber
  endScalar : Always R endScalar

namespace Steady
variable {R : Cursor → Ending → Prop} (steady : Steady R)
include steady

/-! Putting operations together. -/

theorem pure (a : α) : Always R (pure a : Pull α) := fun c => steady.stays c

theorem get : Always R (get : Pull Cursor) := fun c => steady.stays c

theorem fail {error : Cursor → DecodeError} (elsewhere : ∀ c, (error c).offset? = none) :
    Always R (fail error : Pull α) := fun c => steady.fails (elsewhere c)

theorem bind {x : Pull α} {f : α → Pull β} (first : Always R x) (next : ∀ a, Always R (f a)) :
    Always R (x >>= f) := .bind steady.onward first next

theorem iterate {step : σ → Pull (σ ⊕ β)} (advances : Advances step)
    (steps : ∀ s, Always R (step s)) (s : σ) : Always R (iterate step advances s) := by
  intro c
  fun_induction Pull.iterate step advances s c with
  | case1 s c e d failed =>
    have ended := steps s c
    rw [failed] at ended
    exact ended
  | case2 s c result d done =>
    have ended := steps s c
    rw [done] at ended
    exact ended
  | case3 s c next d stepped ih =>
    have begun := steps s c
    rw [stepped] at begun
    exact steady.onward begun ih

/-! Looking ahead. -/

theorem peek : Always R peek := by
  refine .looks steady.onward steady.ahead (fun c e d stopped => ?_) fun c seen d found => ?_
  · rw [Pull.peek, stopped]
    rfl
  · rw [Pull.peek, found]
    exact steady.stays d

theorem hasNext : Always R hasNext := by
  refine .looks steady.onward steady.ahead (fun c e d stopped => ?_) fun c seen d found => ?_
  · rw [Pull.hasNext, stopped]
    rfl
  · rw [Pull.hasNext, found]
    exact steady.stays d

theorem expectEnd : Always R expectEnd := by
  refine .looks steady.onward steady.ahead (fun c e d stopped => ?_) fun c seen d found => ?_
  · rw [Pull.expectEnd, stopped]
    rfl
  · simp only [Pull.expectEnd, found]
    split
    · exact steady.stays d
    · exact steady.fails rfl

theorem aheadAs (expected : Expected) (select : Ahead → Option α) :
    Always R (aheadAs expected select) := by
  refine .looks steady.onward steady.ahead (fun c e d stopped => ?_) fun c seen d found => ?_
  · rw [Pull.aheadAs, stopped]
    rfl
  · simp only [Pull.aheadAs, found]
    split
    · exact steady.stays d
    · exact steady.fails rfl

/-! Scalars and names. -/

theorem nextBool : Always R nextBool :=
  steady.bind (steady.aheadAs _ _) fun _ => steady.bind steady.endScalar fun _ => steady.pure _

theorem nextNull : Always R nextNull :=
  steady.bind (steady.aheadAs _ _) fun _ => steady.endScalar

theorem nextDouble : Always R nextDouble :=
  steady.bind (steady.nextLiteral _) fun _ => steady.bind steady.endScalar fun _ => steady.pure _

theorem nextInt64 : Always R nextInt64 :=
  steady.bind (steady.nextLiteral _) fun literal => by
    cases int64Of? literal with
    | none => exact steady.fail fun _ => rfl
    | some value => exact steady.bind steady.endScalar fun _ => steady.pure _

theorem skipName : Always R skipName :=
  steady.bind steady.nextName fun _ => steady.bind steady.get fun _ => by
    split
    · exact steady.fail fun _ => rfl
    · exact steady.pure _

/-! Whole values. -/

theorem refuse (expected : Expected) (seen : Ahead) : Always R (refuse expected seen : Pull α) :=
  steady.fail fun _ => rfl

theorem skipToken (depth : Nat) : Always R (skipToken depth) :=
  steady.bind steady.ahead fun seen => by
    cases seen with
    | beginObject => exact steady.bind steady.beginObject fun _ => steady.pure _
    | beginArray => exact steady.bind steady.beginArray fun _ => steady.pure _
    | endObject =>
      by_cases outermost : depth = 0
      · simpa only [outermost, if_true] using steady.refuse _ _
      · simpa only [outermost, if_false] using steady.bind steady.endObject fun _ => steady.pure _
    | endArray =>
      by_cases outermost : depth = 0
      · simpa only [outermost, if_true] using steady.refuse _ _
      · simpa only [outermost, if_false] using steady.bind steady.endArray fun _ => steady.pure _
    | name =>
      by_cases outermost : depth = 0
      · simpa only [outermost, if_true] using steady.refuse _ _
      · simpa only [outermost, if_false] using steady.bind steady.nextName fun _ => steady.pure _
    | string => exact steady.bind steady.nextString fun _ => steady.pure _
    | number =>
      exact steady.bind (steady.nextLiteral _) fun _ =>
        steady.bind steady.endScalar fun _ => steady.pure _
    | bool => exact steady.bind steady.nextBool fun _ => steady.pure _
    | null => exact steady.bind steady.nextNull fun _ => steady.pure _
    | endDocument => exact steady.refuse _ _

theorem deliver (value : Json.Value) (frames : List Frame) : Always R (deliver value frames) := by
  unfold Pull.deliver
  split
  · exact steady.pure _
  · exact steady.pure _
  · split
    · exact steady.fail fun _ => rfl
    · exact steady.pure _
  · exact steady.pure _

theorem readToken (frames : List Frame) : Always R (readToken frames) :=
  steady.bind steady.ahead fun seen => by
    split
    · exact steady.bind steady.beginObject fun _ => steady.pure _
    · exact steady.bind steady.beginArray fun _ => steady.pure _
    · exact steady.bind steady.endObject fun _ => steady.deliver _ _
    · exact steady.bind steady.endArray fun _ => steady.deliver _ _
    · exact steady.bind steady.nextName fun _ => steady.pure _
    · exact steady.bind steady.nextString fun _ => steady.deliver _ _
    · exact steady.bind steady.nextNumber fun _ => steady.deliver _ _
    · exact steady.bind steady.nextBool fun _ => steady.deliver _ _
    · exact steady.bind steady.nextNull fun _ => steady.deliver _ _
    · exact steady.refuse _ _

theorem skipValue : Always R skipValue := steady.iterate _ steady.skipToken 0

theorem readValue : Always R readValue := steady.iterate _ steady.readToken []

/-! Objects member by member. -/

theorem fieldStep (fields : Fields) : Always R (fieldStep fields) :=
  steady.bind steady.hasNext fun next => by
    cases next with
    | false => exact steady.pure _
    | true =>
      refine steady.bind steady.nextName fun name => steady.bind steady.get fun c => ?_
      split
      · exact steady.bind steady.skipValue fun _ => steady.pure _
      · exact steady.bind steady.readValue fun _ => steady.pure _

theorem skipStep : Always R (skipStep ()) :=
  steady.bind steady.hasNext fun next => by
    cases next with
    | false => exact steady.pure _
    | true =>
      exact steady.bind steady.skipName fun _ => steady.bind steady.skipValue fun _ => steady.pure _

theorem takeFields : Always R takeFields :=
  steady.bind steady.beginObject fun _ => steady.bind (steady.iterate _ steady.fieldStep _) fun _ =>
    steady.bind steady.endObject fun _ => steady.pure _

theorem skipMembers : Always R skipMembers :=
  steady.bind steady.beginObject fun _ =>
    steady.bind (steady.iterate _ (fun _ => steady.skipStep) ()) fun _ => steady.endObject

end Steady

end TaggedJson.Pull
