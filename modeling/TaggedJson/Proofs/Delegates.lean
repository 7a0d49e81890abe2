import TaggedJson.Proofs.Chain
/-! Where an object is handed on. A table gives it to the adapter of the entry that the label
resolves to, or to the adapter of its fallback, and that may be the adapter of a further table. At
the end of the way a record, a payload or a singleton takes the object. -/
namespace TaggedJson.Hierarchy
open Json Pull
variable {α : Type}

/-- The adapter that gets the object, and whether the label is kept from it. -/
def Target.delegate? : Target α → Option (Adapter α × Bool)
  | .subtype entry => some (entry.body.adapterOf, true)
  | .fallback adapter => some (adapter, false)
  | .null | .object _ => none

section Resolved
variable {table : Table α} {label : Option String} {target : Target α} {adapter : Adapter α}
  {stripped : Bool}

theorem adapterOf_size (body : Body α) : sizeOf body.adapterOf ≤ sizeOf body := by
  cases body with
  | adapter inner =>
    simp only [Body.adapterOf, Body.adapter.sizeOf_spec]
    omega
  | singleton value =>
    simp only [Body.adapterOf, Body.singleton.sizeOf_spec, Adapter.singleton.sizeOf_spec]
    omega

theorem delegate_size (resolved : table.resolve label = .ok target)
    (handed : target.delegate? = some (adapter, stripped)) : sizeOf adapter < sizeOf table := by
  cases target with
  | subtype entry =>
    cases handed
    have inside := resolve_subtype_size resolved
    have within := body_size entry
    have own := adapterOf_size entry.body
    omega
  | fallback inner =>
    cases handed
    exact resolve_fallback_size resolved
  | null => cases handed
  | object value => cases handed

/-- The adapter is that of a member, which the label is kept from, or that of the fallback. -/
theorem delegate_cases (resolved : table.resolve label = .ok target)
    (handed : target.delegate? = some (adapter, stripped)) :
    (∃ entry ∈ table.members, adapter = entry.body.adapterOf ∧ stripped = true) ∨
      ∃ name, table.policy = .fallback name adapter ∧ stripped = false := by
  unfold Table.resolve at resolved
  split at resolved
  case h_1 entry found =>
    cases resolved
    cases handed
    obtain ⟨text, -, looked⟩ := Option.bind_eq_some_iff.mp found
    exact .inl ⟨entry, List.mem_of_find?_eq_some looked, rfl, rfl⟩
  case h_5 name inner _ policy =>
    cases resolved
    cases handed
    exact .inr ⟨name, policy, rfl⟩
  all_goals cases resolved
  all_goals cases handed

end Resolved

/-- Induction on the way of an object: a table may hand it on to any adapter that a label resolves
to. -/
@[elab_as_elim]
theorem Adapter.handed_induction {motive : Adapter α → Prop}
    (record : ∀ form, motive (.record form)) (payload : ∀ form, motive (.payload form))
    (singleton : ∀ value, motive (.singleton value))
    (failOnUnknown : ∀ inner, motive inner → motive (.failOnUnknown inner))
    (tagged : ∀ (table : Table α) strict, (∀ label target adapter stripped,
      table.resolve label = .ok target → target.delegate? = some (adapter, stripped) →
        motive adapter) → motive (.tagged table strict)) (adapter : Adapter α) :
    motive adapter := by
  -- The handed adapter need not be a part of the table at a fixed place, so it is the size.
  induction size : sizeOf adapter using Nat.strong_induction_on generalizing adapter with
  | _ _ ih =>
    subst size
    cases adapter with
    | record form => exact record form
    | payload form => exact payload form
    | singleton value => exact singleton value
    | failOnUnknown inner =>
      refine failOnUnknown inner (ih _ ?_ inner rfl)
      simp only [Adapter.failOnUnknown.sizeOf_spec]
      omega
    | tagged table strict =>
      refine tagged table strict fun label target handed stripped resolved delegate => ?_
      have smaller := delegate_size resolved delegate
      refine ih _ ?_ handed rfl
      simp only [Adapter.tagged.sizeOf_spec]
      omega

section Reading
variable {target : Target α} {adapter : Adapter α} {stripped : Bool}

theorem Target.ofMembers?_handed (handed : target.delegate? = some (adapter, stripped))
    (key : String) (strict : Bool) (setting : Setting) (members : List (String × Document)) :
    target.ofMembers? key strict setting members =
      (adapter.ofMembers? ((setting.strictly strict).withKey key stripped) members).map some := by
  cases target with
  | subtype entry =>
    cases handed
    rw [Target.ofMembers?, ofMembers_adapterOf]
  | fallback inner =>
    cases handed
    rfl
  | null => cases handed
  | object value => cases handed

/-- What is not handed on is settled by the label alone. -/
theorem Target.ofMembers?_kept (kept : target.delegate? = none) :
    ∃ result, ∀ key strict setting members,
      target.ofMembers? key strict setting members = some result := by
  cases target with
  | subtype entry => cases kept
  | fallback inner => cases kept
  | null => exact ⟨none, fun _ _ _ _ => rfl⟩
  | object value => exact ⟨some value, fun _ _ _ _ => rfl⟩

end Reading

/-! The end of the way. -/

/-- What takes an object in the end: an adapter that reads it, or the default of a table. -/
inductive Taker (α : Type) where
  | record (form : RecordForm α)
  | payload (form : PayloadForm α)
  | singleton (value : α)
  | default (value : Option α)

/-- Where the members of an object lead. The keys of the tables that hand the object on come in
front of those that are let through already, each with whether its label is kept from the taker. -/
inductive TakenBy (members : List (String × Document)) :
    Adapter α → List (String × Bool) → Taker α → List (String × Bool) → Prop
  | record {keys : List (String × Bool)} (form : RecordForm α) :
    TakenBy members (.record form) keys (.record form) keys
  | payload {keys : List (String × Bool)} (form : PayloadForm α) :
    TakenBy members (.payload form) keys (.payload form) keys
  | singleton {keys : List (String × Bool)} (value : α) :
    TakenBy members (.singleton value) keys (.singleton value) keys
  | null {keys : List (String × Bool)} {table : Table α} {strict : Bool} {label : Option String}
    (labeled : labelOf? table.key members = some label)
    (resolved : table.resolve label = .ok .null) :
    TakenBy members (.tagged table strict) keys (.default none) keys
  | object {keys : List (String × Bool)} {table : Table α} {strict : Bool}
    {label : Option String} {value : α} (labeled : labelOf? table.key members = some label)
    (resolved : table.resolve label = .ok (.object value)) :
    TakenBy members (.tagged table strict) keys (.default (some value)) keys
  | handed {keys all : List (String × Bool)} {table : Table α} {strict stripped : Bool}
    {label : Option String} {target : Target α} {adapter : Adapter α} {taker : Taker α}
    (labeled : labelOf? table.key members = some label)
    (resolved : table.resolve label = .ok target)
    (delegated : target.delegate? = some (adapter, stripped))
    (rest : TakenBy members adapter ((table.key, stripped) :: keys) taker all) :
    TakenBy members (.tagged table strict) keys taker all

/-- What the taker makes of the members. -/
def Taker.ofMembers? (taker : Taker α) (setting : Setting) (members : List (String × Document)) :
    Option α :=
  match taker with
  | .record form => (Adapter.record form).ofMembers? setting members
  | .payload form => (Adapter.payload form).ofMembers? setting members
  | .singleton value => (Adapter.singleton value).ofMembers? setting members
  | .default value => value

end TaggedJson.Hierarchy

namespace TaggedJson.Pull.Setting

theorem strips_withKey (setting : Setting) (key : String) (stripped : Bool) (name : String) :
    (setting.withKey key stripped).strips name =
      if name = key then stripped else setting.strips name := by
  rw [strips, withKey_lookup]
  by_cases here : name = key
  · rw [if_pos here, if_pos here, Option.getD_some]
  · rw [if_neg here, if_neg here, strips]

/-- A name that is kept out of the fields is let through. -/
theorem allows_of_strips {setting : Setting} {name : String} (strips : setting.strips name = true) :
    setting.allows name = true := by
  rw [Setting.strips] at strips
  rw [allows]
  cases found : setting.keys.lookup name with
  | none =>
    rw [found] at strips
    cases strips
  | some stripped => rfl

end TaggedJson.Pull.Setting
