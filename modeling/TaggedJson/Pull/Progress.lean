import TaggedJson.Pull.Iterate
/-! What operations leave to read: looking ahead never more than there was, taking a token less. -/
namespace TaggedJson.Pull
open Json (Scope)

theorem bind_ok {x : Pull α} {f : α → Pull β} {c c' : Cursor} {b : β} :
    (x >>= f) c = .ok b c' ↔ ∃ a d, x c = .ok a d ∧ f a d = .ok b c' := by
  show EStateM.bind x f c = _ ↔ _
  unfold EStateM.bind
  cases x c <;> simp [and_assoc]

theorem pure_ok {a b : α} {c c' : Cursor} : (pure a : Pull α) c = .ok b c' ↔ a = b ∧ c = c' := by
  show EStateM.Result.ok a c = _ ↔ _
  simp

theorem modify_ok {f : Cursor → Cursor} {c c' : Cursor} {u : Unit} :
    (modify f : Pull Unit) c = .ok u c' ↔ f c = c' := by
  show EStateM.Result.ok () (f c) = _ ↔ _
  simp

theorem get_ok {a c c' : Cursor} : (get : Pull Cursor) c = .ok a c' ↔ c = a ∧ c = c' := by
  show EStateM.Result.ok c c = _ ↔ _
  simp

theorem fail_ok {error : Cursor → DecodeError} {b : β} {c c' : Cursor} :
    (fail error : Pull β) c = .ok b c' ↔ False := by
  simp [fail]

/-! Looking ahead. -/

/-- Looking passes at least as much text as the token it finds weighs, and keeps the token slot. -/
def Passes (look : Cursor → Outcome Ahead) : Prop :=
  ∀ c seen c', look c = .ok seen c' →
    c'.place.rest.length + seen.weight ≤ c.place.rest.length ∧ c'.ahead = c.ahead

/-- A separator may have been passed before the look. -/
theorem Passes.weaken {look : Cursor → Outcome Ahead} (passes : Passes look) {d c' : Cursor}
    {seen : Ahead} (found : look d = .ok seen c') {length : Nat}
    (shorter : d.place.rest.length ≤ length) :
    c'.place.rest.length + seen.weight ≤ length ∧ c'.ahead = d.ahead :=
  ⟨Nat.le_trans (passes d seen c' found).1 shorter, (passes d seen c' found).2⟩

theorem skipSpace_length (c : Cursor) : c.skipSpace.place.rest.length ≤ c.place.rest.length :=
  (List.dropWhile_sublist _).length_le

theorem advance_length (c : Cursor) (count : Nat) :
    (c.advance count).place.rest.length = c.place.rest.length - count := List.length_drop

theorem skipSpace_ahead (c : Cursor) : c.skipSpace.ahead = c.ahead := rfl

theorem advance_ahead (c : Cursor) (count : Nat) : (c.advance count).ahead = c.ahead := rfl

theorem withScope_ahead (c : Cursor) (scope : Scope) : (c.withScope scope).ahead = c.ahead := rfl

theorem withScope_place (c : Cursor) (scope : Scope) : (c.withScope scope).place = c.place := rfl

theorem lookLiteral_passes (word : List Char) (nonempty : word ≠ []) (seen : Ahead) :
    Passes (lookLiteral word seen) := by
  intro c seen' c' found
  unfold lookLiteral at found
  split at found
  · rename_i fits
    have start := (Bool.and_eq_true_iff.mp fits).1
    have long := (List.isPrefixOf_iff_prefix.mp start).length_le
    have one : 0 < word.length := List.length_pos_iff.mpr nonempty
    cases found
    have light : seen.weight ≤ 1 := by cases seen <;> simp [Ahead.weight]
    simp only [Cursor.advance, List.length_drop, and_true]
    omega
  · cases found

theorem lookValue_passes : Passes lookValue := by
  intro c seen c' found
  have space := skipSpace_length c
  rw [← skipSpace_ahead c]
  unfold lookValue at found
  -- Of the space before the token only its length matters from here on.
  revert found space
  generalize c.skipSpace = d
  intro found space
  simp only at found
  split at found
  · cases found
  · rename_i next rest shape
    have one : 0 < d.place.rest.length := by simp [shape]
    repeat' split at found
    all_goals first
      | exact Passes.weaken (lookLiteral_passes _ (by simp) _) found space
      | (cases found
         simp only [advance_length, advance_ahead, Ahead.weight, and_true]
         omega)
      | cases found

theorem lookName_passes (first : Bool) : Passes (lookName first) := by
  intro c seen c' found
  have space := skipSpace_length c
  rw [← skipSpace_ahead c]
  unfold lookName at found
  revert found space
  generalize c.skipSpace = d
  intro found space
  simp only at found
  split at found
  · cases found
  · rename_i next rest shape
    have one : 0 < d.place.rest.length := by simp [shape]
    repeat' split at found
    all_goals first
      | (cases found
         simp only [advance_length, advance_ahead, withScope_ahead, withScope_place, Ahead.weight,
           and_true]
         omega)
      | cases found

theorem lookAfterName_passes : Passes lookAfterName := by
  intro c seen c' found
  have space := skipSpace_length (c.withScope .objectNext)
  rw [← withScope_ahead c .objectNext, ← skipSpace_ahead (c.withScope .objectNext)]
  unfold lookAfterName at found
  revert found space
  generalize (c.withScope .objectNext).skipSpace = d
  intro found space
  simp only at found
  split at found
  · cases found
  · split at found
    · exact Passes.weaken lookValue_passes found
        (by rw [advance_length]; exact Nat.le_trans (Nat.sub_le ..) space)
    · cases found

theorem lookAfterMember_passes : Passes lookAfterMember := by
  intro c seen c' found
  have space := skipSpace_length c
  rw [← skipSpace_ahead c]
  unfold lookAfterMember at found
  revert found space
  generalize c.skipSpace = d
  intro found space
  simp only at found
  split at found
  · cases found
  · rename_i next rest shape
    have one : 0 < d.place.rest.length := by simp [shape]
    repeat' split at found
    · cases found
      simp only [advance_length, advance_ahead, Ahead.weight, and_true]
      omega
    · exact Passes.weaken (lookName_passes false) found (by rw [advance_length]; omega)
    · cases found

theorem lookFirstItem_passes : Passes lookFirstItem := by
  intro c seen c' found
  have space := skipSpace_length (c.withScope .arrayNext)
  rw [← withScope_ahead c .arrayNext, ← skipSpace_ahead (c.withScope .arrayNext)]
  unfold lookFirstItem at found
  revert found space
  generalize (c.withScope .arrayNext).skipSpace = d
  intro found space
  rw [withScope_place] at space
  simp only at found
  split at found
  · rename_i close
    cases found
    have one : 0 < d.place.rest.length := by
      cases h : d.place.rest with
      | nil => simp [h] at close
      | cons => simp
    simp only [advance_length, advance_ahead, Ahead.weight, and_true]
    omega
  · exact Passes.weaken lookValue_passes found space

theorem lookAfterItem_passes : Passes lookAfterItem := by
  intro c seen c' found
  have space := skipSpace_length c
  rw [← skipSpace_ahead c]
  unfold lookAfterItem at found
  revert found space
  generalize c.skipSpace = d
  intro found space
  simp only at found
  split at found
  · cases found
  · rename_i next rest shape
    have one : 0 < d.place.rest.length := by simp [shape]
    repeat' split at found
    · cases found
      simp only [advance_length, advance_ahead, Ahead.weight, and_true]
      omega
    · exact Passes.weaken lookValue_passes found (by rw [advance_length]; omega)
    · cases found

theorem lookEnd_passes : Passes lookEnd := by
  intro c seen c' found
  unfold lookEnd at found
  simp only at found
  split at found
  · cases found
    exact ⟨skipSpace_length c, skipSpace_ahead c⟩
  · cases found

theorem look_passes : Passes look := by
  intro c seen c' found
  unfold look at found
  split at found
  · exact Passes.weaken lookValue_passes found (Nat.le_refl _)
  · exact lookName_passes true c seen c' found
  · exact lookAfterName_passes c seen c' found
  · exact lookAfterMember_passes c seen c' found
  · exact lookFirstItem_passes c seen c' found
  · exact lookAfterItem_passes c seen c' found
  all_goals exact lookEnd_passes c seen c' found

theorem ahead_ok {c c' : Cursor} {seen : Ahead} (found : ahead c = .ok seen c') :
    c'.remaining ≤ c.remaining ∧ c'.ahead = some seen := by
  unfold ahead at found
  split at found
  · rename_i kept
    cases found
    exact ⟨Nat.le_refl _, kept⟩
  · rename_i none
    split at found
    · rename_i seen' d looked
      cases found
      have passed := look_passes c seen d looked
      simp only [Cursor.remaining, none, Option.map_none, Option.map_some, Option.getD, and_true]
      omega
    · cases found

/-! Operations as a whole. -/

def Keeps (x : Pull α) : Prop := ∀ c a c', x c = .ok a c' → c'.remaining ≤ c.remaining

def Takes (x : Pull α) : Prop := ∀ c a c', x c = .ok a c' → c'.remaining < c.remaining

theorem Takes.keeps {x : Pull α} (takes : Takes x) : Keeps x :=
  fun c a c' ran => Nat.le_of_lt (takes c a c' ran)

theorem Keeps.bind {x : Pull α} {f : α → Pull β} (first : Keeps x) (next : ∀ a, Keeps (f a)) :
    Keeps (x >>= f) := by
  intro c b c' ran
  obtain ⟨a, d, left, right⟩ := bind_ok.mp ran
  exact Nat.le_trans (next a d b c' right) (first c a d left)

theorem Takes.bind {x : Pull α} {f : α → Pull β} (first : Takes x) (next : ∀ a, Keeps (f a)) :
    Takes (x >>= f) := by
  intro c b c' ran
  obtain ⟨a, d, left, right⟩ := bind_ok.mp ran
  exact Nat.lt_of_le_of_lt (next a d b c' right) (first c a d left)

theorem Keeps.then_takes {x : Pull α} {f : α → Pull β} (first : Keeps x)
    (next : ∀ a, Takes (f a)) : Takes (x >>= f) := by
  intro c b c' ran
  obtain ⟨a, d, left, right⟩ := bind_ok.mp ran
  exact Nat.lt_of_lt_of_le (next a d b c' right) (first c a d left)

theorem keeps_pure (a : α) : Keeps (pure a : Pull α) := by
  intro c b c' ran
  obtain ⟨_, rfl⟩ := pure_ok.mp ran
  exact Nat.le_refl _

theorem takes_fail (error : Cursor → DecodeError) : Takes (fail error : Pull α) :=
  fun _ _ _ ran => (fail_ok.mp ran).elim

theorem keeps_get : Keeps (get : Pull Cursor) := by
  intro c a c' ran
  obtain ⟨_, rfl⟩ := get_ok.mp ran
  exact Nat.le_refl _

theorem keeps_modify {f : Cursor → Cursor} (smaller : ∀ c, (f c).remaining ≤ c.remaining) :
    Keeps (modify f) := by
  intro c a c' ran
  obtain rfl := modify_ok.mp ran
  exact smaller c

theorem iterate_keeps {step : σ → Pull (σ ⊕ β)} (advances : Advances step)
    (keeps : ∀ s, Keeps (step s)) (s : σ) : Keeps (iterate step advances s) := by
  intro c b c' ran
  fun_induction iterate step advances s c with
  | case1 => cases ran
  | case2 _ _ _ _ stepped => cases ran; exact keeps _ _ _ _ stepped
  | case3 _ _ _ _ stepped ih => exact Nat.le_trans (ih ran) (keeps _ _ _ _ stepped)

theorem iterate_takes {step : σ → Pull (σ ⊕ β)} (advances : Advances step)
    (takes : ∀ s, Takes (step s)) (s : σ) : Takes (iterate step advances s) := by
  intro c b c' ran
  rw [iterate] at ran
  split at ran
  · cases ran
  · rename_i stepped
    cases ran
    exact takes _ _ _ _ stepped
  · rename_i stepped
    exact Nat.lt_of_le_of_lt
      (iterate_keeps advances (fun s => (takes s).keeps) _ _ _ _ ran) (takes _ _ _ _ stepped)

theorem setName_remaining (c : Cursor) (name : String) :
    (c.setName name).remaining = c.remaining := by
  unfold Cursor.setName
  split <;> rfl

theorem valueTaken_remaining (c : Cursor) : c.valueTaken.remaining = c.remaining := by
  unfold Cursor.valueTaken
  split <;> rfl

theorem pop_remaining (c : Cursor) : c.pop.remaining ≤ c.remaining := by
  rw [Cursor.pop, valueTaken_remaining]
  exact Nat.le_add_right ..

theorem keeps_ahead : Keeps ahead := fun _ _ _ found => (ahead_ok found).1

theorem takeToken_ok {wanted : Ahead} {expected : Expected} {c c' : Cursor} {u : Unit}
    (ran : takeToken wanted expected c = .ok u c') :
    c'.remaining + wanted.weight ≤ c.remaining := by
  unfold takeToken at ran
  split at ran
  · cases ran
  · rename_i seen d found
    split at ran
    · rename_i same
      cases ran
      have looked := ahead_ok found
      simp only [Cursor.remaining, looked.2, Option.map_some, Option.map_none,
        Option.getD] at looked ⊢
      subst same
      omega
    · cases ran

theorem takeToken_keeps (wanted : Ahead) (expected : Expected) :
    Keeps (takeToken wanted expected) :=
  fun _ _ _ ran => Nat.le_trans (Nat.le_add_right ..) (takeToken_ok ran)

theorem takeToken_takes {wanted : Ahead} (heavy : wanted.weight = 1) (expected : Expected) :
    Takes (takeToken wanted expected) := by
  intro c a c' ran
  have := takeToken_ok ran
  omega

theorem openScope_keeps (scope : Scope) (step : Step) : Keeps (openScope scope step) := by
  intro c a c' ran
  unfold openScope at ran
  split at ran
  · cases ran
  · cases ran
    exact Nat.le_add_right ..

theorem beginObject_takes : Takes beginObject :=
  (takeToken_takes rfl _).bind fun _ => openScope_keeps _ _

theorem endObject_takes : Takes endObject :=
  (takeToken_takes rfl _).bind fun _ => keeps_modify pop_remaining

theorem beginArray_takes : Takes beginArray :=
  (takeToken_takes rfl _).bind fun _ => openScope_keeps _ _

theorem endArray_takes : Takes endArray :=
  (takeToken_takes rfl _).bind fun _ => keeps_modify pop_remaining

/-! Lexemes. -/

def Shortens (scan : Place → Except Fault (α × Place)) : Prop :=
  ∀ place a after, scan place = .ok (a, after) → after.rest.length < place.rest.length

theorem scanQuoted_length {chars decoded : List Char} {offset : Nat} {after : Place}
    (found : scanQuoted chars offset = .ok (decoded, after)) :
    after.rest.length < chars.length := by
  fun_induction scanQuoted chars offset generalizing decoded after with
  | case2 => cases found; simp
  | case5 _ _ _ taken _ _ _ inner _ ih =>
    cases found
    have := ih inner
    simp only [List.length_drop, List.length_cons] at this ⊢
    omega
  | case8 _ _ _ _ _ _ _ _ inner ih =>
    cases found
    have := ih inner
    simp only [List.length_cons]
    omega
  | _ => cases found

theorem scanString_shortens : Shortens scanString := by
  intro place text after found
  unfold scanString at found
  split at found
  · cases found
  · rename_i chars place' inner
    cases found
    have := scanQuoted_length inner
    simp only [List.length_drop] at this
    omega

theorem scanNumber_shortens : Shortens scanNumber := by
  intro place literal after found
  unfold scanNumber at found
  split at found
  · cases found
  · rename_i literal rest inner
    cases found
    exact Json.NumberLiteral.scan_length inner

theorem textKind_shortens (kind : TextKind) : Shortens kind.scan := by
  intro place text after found
  cases kind with
  | quoted => exact scanString_shortens _ _ _ found
  | numeric =>
    simp only [TextKind.scan] at found
    split at found
    · cases found
    · rename_i scanned
      cases found
      exact scanNumber_shortens _ _ _ scanned

theorem takeLexeme_takes {scan : Place → Except Fault (α × Place)} (shortens : Shortens scan) :
    Takes (takeLexeme scan) := by
  intro c a c' ran
  unfold takeLexeme at ran
  split at ran
  · cases ran
  · rename_i place found
    cases ran
    have := shortens _ _ _ found
    simp only [Cursor.remaining]
    omega

theorem nextName_takes : Takes nextName :=
  (takeToken_keeps _ _).then_takes fun _ => (takeLexeme_takes scanString_shortens).bind fun _ =>
    (keeps_modify fun c => Nat.le_of_eq (setName_remaining c _)).bind fun _ => keeps_pure _

theorem skipName_takes : Takes skipName :=
  nextName_takes.bind fun _ => keeps_get.bind fun _ => by
    split
    · exact (takes_fail _).keeps
    · exact keeps_pure _

theorem selectName_keeps (names : List String) : Keeps (selectName names) := by
  intro c a c' ran
  unfold selectName at ran
  split at ran
  · cases ran
  · rename_i seen d found
    have looked := ahead_ok found
    split at ran
    · rename_i same
      split at ran
      · cases ran
      · rename_i name place scanned
        have shorter := scanString_shortens _ _ _ scanned
        split at ran
        · cases ran
          rw [setName_remaining]
          simp only [Cursor.remaining, Option.map_none, Option.getD] at looked ⊢
          omega
        · cases ran
          exact looked.1
    · cases ran

theorem aheadAs_ok {expected : Expected} {select : Ahead → Option α} {c c' : Cursor} {kind : α}
    (ran : aheadAs expected select c = .ok kind c') :
    ∃ seen, c'.ahead = some seen ∧ select seen = some kind ∧ c'.remaining ≤ c.remaining := by
  unfold aheadAs at ran
  split at ran
  · cases ran
  · rename_i seen d found
    have looked := ahead_ok found
    split at ran
    · rename_i chosen
      cases ran
      exact ⟨seen, looked.2, chosen, looked.1⟩
    · cases ran

theorem aheadAs_keeps (expected : Expected) (select : Ahead → Option α) :
    Keeps (aheadAs expected select) := fun _ _ _ ran =>
  let ⟨_, _, _, smaller⟩ := aheadAs_ok ran
  smaller

theorem dropAhead_remaining (c : Cursor) :
    ({ c with ahead := none } : Cursor).remaining ≤ c.remaining :=
  Nat.le_add_right ..

theorem dropAhead_keeps : Keeps dropAhead := keeps_modify dropAhead_remaining

theorem endScalar_keeps : Keeps endScalar := keeps_modify fun c => by
  rw [valueTaken_remaining]
  exact dropAhead_remaining c

theorem nextLiteral_takes (expected : Expected) : Takes (nextLiteral expected) :=
  (aheadAs_keeps _ _).then_takes fun _ => dropAhead_keeps.then_takes fun _ =>
    takeLexeme_takes scanNumber_shortens

theorem nextNumber_takes : Takes nextNumber :=
  (nextLiteral_takes _).bind fun _ => by
    split
    · exact (takes_fail _).keeps
    · exact endScalar_keeps.bind fun _ => keeps_pure _

theorem nextString_takes : Takes nextString :=
  (aheadAs_keeps _ _).then_takes fun kind => dropAhead_keeps.then_takes fun _ =>
    (takeLexeme_takes (textKind_shortens kind)).bind fun _ =>
      endScalar_keeps.bind fun _ => keeps_pure _

/-- A token already passed is taken by emptying its slot. -/
theorem passed_takes {expected : Expected} {select : Ahead → Option α}
    (heavy : ∀ seen kind, select seen = some kind → seen.weight = 1) (result : α → β) :
    Takes (aheadAs expected select >>= fun kind => endScalar >>= fun _ => pure (result kind)) := by
  intro c b c' ran
  obtain ⟨kind, d, found, rest⟩ := bind_ok.mp ran
  obtain ⟨seen, slot, chosen, smaller⟩ := aheadAs_ok found
  obtain ⟨_, d', dropped, done⟩ := bind_ok.mp rest
  obtain ⟨_, rfl⟩ := pure_ok.mp done
  obtain rfl := modify_ok.mp dropped
  rw [valueTaken_remaining]
  have one := heavy seen kind chosen
  simp only [Cursor.remaining, slot, Option.map_some, Option.map_none, Option.getD] at smaller ⊢
  omega

theorem nextBool_takes : Takes nextBool :=
  passed_takes (fun seen kind chosen => by cases seen <;> simp_all [Ahead.bool?, Ahead.weight]) id

theorem nextNull_takes : Takes nextNull := by
  have heavy (seen : Ahead) (kind : Unit) (chosen : Ahead.only? .null seen = some kind) :
      seen.weight = 1 := by
    cases seen <;> simp_all [Ahead.only?, Ahead.weight]
  exact @passed_takes _ _ .null _ heavy id

end TaggedJson.Pull
