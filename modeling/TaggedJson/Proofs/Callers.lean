import Mathlib.Algebra.Order.BigOperators.Group.Finset
import Mathlib.Data.Fintype.Card
import TaggedJson.Hierarchy.Build
import TaggedJson.Proofs.Interleavings
/-! What the callers of a registry get when their calls run at the same time. A cell only ever goes
from empty over filling to full, so all calls for a type return what one of them built; and any
interleaving comes to a run of the registry in which every call fills its slot at one moment. -/
namespace TaggedJson.Hierarchy.Concurrent
variable {κ β : Type} {n : Nat} [DecidableEq κ]

/-! What happens to a cell. -/

/-- A cell is made, then filled by one call, and then stays as it is. -/
inductive Cell.Next : Option (Cell n β) → Option (Cell n β) → Prop
  | stay (cell : Option (Cell n β)) : Next cell cell
  | made : Next none (some .empty)
  | begun {caller : Fin n} : Next (some .empty) (some (.filling caller))
  | filled {caller : Fin n} {built : Built β} : Next (some (.filling caller)) (some (.full built))

section Step
variable {root : Fin n → κ} {act : Act n β} {w w' : World κ β n}

theorem step_cells (step : Step root w act w') (sound : Sound root w) :
    ∃ cell, Cell.Next (w.cellOf (root act.caller)) cell ∧
      w'.cellOf = Function.update w.cellOf (root act.caller) cell := by
  cases step with
  | found fresh kept => exact ⟨_, .stay _, (Function.update_eq_self ..).symm⟩
  | read holds full => exact ⟨_, .stay _, (Function.update_eq_self ..).symm⟩
  | @opened caller fresh missing =>
    refine ⟨_, ?_, sound.cellOf_addCell missing⟩
    rw [Act.caller, World.cellOf, missing]
    exact .made
  | @start caller address holds empty =>
    have kept := sound.holds caller address (.inl holds)
    refine ⟨_, ?_, sound.cellOf_begin caller kept⟩
    rw [Act.caller, cellOf_of_lookup kept, empty]
    exact .begun
  | @finish caller address result builds =>
    refine ⟨_, ?_, sound.cellOf_fill _ (sound.holds caller address (.inr builds))⟩
    rw [Act.caller, (sound.filling _ caller).mpr ⟨rfl, address, builds⟩]
    exact .filled

theorem step_others (step : Step root w act w') (sound : Sound root w) {key : κ}
    (other : root act.caller ≠ key) : w'.cellOf key = w.cellOf key := by
  obtain ⟨cell, -, cells⟩ := step_cells step sound
  rw [cells, Function.update_of_ne other.symm]

theorem step_phases (step : Step root w act w') {caller : Fin n} (other : act.caller ≠ caller) :
    w'.phases caller = w.phases caller := by
  cases step <;> exact Function.update_of_ne other.symm ..

/-- What has been built is kept. -/
theorem step_built (step : Step root w act w') (sound : Sound root w) {key : κ} {built : Built β}
    (kept : w.built? key = some built) : w'.built? key = some built := by
  obtain ⟨cell, next, cells⟩ := step_cells step sound
  rw [World.built?] at kept ⊢
  rw [cells]
  by_cases same : key = root act.caller
  · subst same
    rw [Function.update_self]
    generalize w.cellOf (root act.caller) = was at next kept
    cases next with
    | stay => exact kept
    | made | begun | filled => cases kept
  · rwa [Function.update_of_ne same]

/-- What is built is what a build for that type has just given, or was there before. -/
theorem step_source (step : Step root w act w') (sound : Sound root w) {key : κ} {built : Built β}
    (kept : w'.built? key = some built) :
    w.built? key = some built ∨ act = .finish act.caller built.result ∧ root act.caller = key := by
  by_cases same : root act.caller = key
  · subst same
    cases step with
    | found | read => exact .inl kept
    | opened fresh missing =>
      rw [World.built?, World.cellOf_hold, sound.cellOf_addCell missing, Act.caller,
        Function.update_self] at kept
      cases kept
    | start holds empty =>
      rw [World.built?, sound.cellOf_begin _ (sound.holds _ _ (.inl holds)), Act.caller,
        Function.update_self] at kept
      cases kept
    | finish builds =>
      rw [World.built?, World.cellOf_leave, sound.cellOf_fill _ (sound.holds _ _ (.inr builds)),
        Act.caller, Function.update_self] at kept
      cases kept
      exact .inr ⟨rfl, rfl⟩
  · rw [World.built?, step_others step sound same] at kept
    exact .inl kept

theorem step_outcome {caller : Fin n} {result : β} (step : Step root w (.finish caller result) w')
    (sound : Sound root w) : w'.built? (root caller) = some (w.outcome result) := by
  cases step with
  | @finish _ address _ builds =>
    rw [World.built?, World.cellOf_leave, sound.cellOf_fill _ (sound.holds _ _ (.inr builds)),
      Function.update_self]
    rfl

theorem step_keys (step : Step root w act w') (key : κ) :
    key ∈ w'.keys ↔ key ∈ w.keys ∨ act = .lookup act.caller ∧ root act.caller = key := by
  cases step with
  | @found caller address fresh kept =>
    refine ⟨.inl, ?_⟩
    rintro (before | ⟨-, rfl⟩)
    · exact before
    · exact mem_keys_iff.mpr ⟨address, kept⟩
  | @opened caller fresh missing =>
    show key ∈ (w.slots ++ [(root caller, w.cells.length)]).map Prod.fst ↔ _
    rw [List.map_append, List.mem_append, List.map_singleton, List.mem_singleton, eq_comm]
    simp [World.keys, Act.caller]
  | start | finish | read =>
    refine ⟨.inl, ?_⟩
    rintro (before | ⟨⟨⟩, -⟩)
    exact before

end Step

/-! Runs. -/

section Steps
variable {root : Fin n → κ} {acts : List (Act n β)} {w w' : World κ β n}

theorem steps_built (steps : Steps root w acts w') (sound : Sound root w) {key : κ}
    {built : Built β} (kept : w.built? key = some built) : w'.built? key = some built := by
  induction steps with
  | refl => exact kept
  | snoc before last ih => exact step_built last (steps_sound before sound) ih

/-- Calls for other types change neither the cell of a type nor the calls for it. -/
theorem steps_others (steps : Steps root w acts w') (sound : Sound root w) {key : κ}
    (others : ∀ act ∈ acts, root act.caller ≠ key) :
    w'.cellOf key = w.cellOf key ∧
      ∀ caller, root caller = key → w'.phases caller = w.phases caller := by
  induction steps with
  | refl => exact ⟨rfl, fun _ _ => rfl⟩
  | @snoc acts act middle after before last ih =>
    obtain ⟨earlier, other⟩ := List.forall_mem_append.mp others
    have other := List.forall_mem_singleton.mp other
    obtain ⟨cells, phases⟩ := ih earlier
    constructor
    · rw [step_others last (steps_sound before sound) other, cells]
    · rintro caller rfl
      have apart : act.caller ≠ caller := fun same => other (congrArg root same)
      rw [step_phases last apart, phases caller rfl]

end Steps

/-- A run from the start. -/
abbrev Run (root : Fin n → κ) (acts : List (Act n β)) (w : World κ β n) : Prop :=
  Steps root .initial acts w

section Run
variable {root : Fin n → κ} {acts : List (Act n β)} {w : World κ β n}

theorem run_sound (run : Run root acts w) : Sound root w := steps_sound run (sound_initial root)

theorem run_source (run : Run root acts w) {key : κ} {built : Built β}
    (kept : w.built? key = some built) :
    ∃ caller, root caller = key ∧ .finish caller built.result ∈ acts := by
  induction run with
  | refl => cases kept
  | @snoc acts act middle after before last ih =>
    rcases step_source last (run_sound before) kept with earlier | ⟨made, rfl⟩
    · obtain ⟨caller, same, listed⟩ := ih earlier
      exact ⟨caller, same, List.mem_append_left _ listed⟩
    · exact ⟨act.caller, rfl, List.mem_append_right _ (List.mem_singleton.mpr made.symm)⟩

theorem run_outcome (run : Run root acts w) {caller : Fin n} {result : β}
    (ended : .finish caller result ∈ acts) :
    ∃ serial, w.built? (root caller) = some ⟨serial, result⟩ := by
  induction run with
  | refl => cases ended
  | snoc before last ih =>
    have sound := run_sound before
    rcases List.mem_append.mp ended with earlier | now
    · obtain ⟨serial, kept⟩ := ih earlier
      exact ⟨serial, step_built last sound kept⟩
    · cases List.mem_singleton.mp now
      exact ⟨_, step_outcome last sound⟩

theorem run_keys (run : Run root acts w) (key : κ) :
    key ∈ w.keys ↔ ∃ caller, .lookup caller ∈ acts ∧ root caller = key := by
  induction run with
  | refl => exact ⟨nofun, nofun⟩
  | @snoc acts act middle after before last ih =>
    rw [step_keys last, ih]
    constructor
    · rintro (⟨caller, listed, same⟩ | ⟨looked, same⟩)
      · exact ⟨caller, List.mem_append_left _ listed, same⟩
      · exact ⟨act.caller, List.mem_append_right _ (List.mem_singleton.mpr looked.symm), same⟩
    · rintro ⟨caller, listed, same⟩
      rcases List.mem_append.mp listed with earlier | now
      · exact .inl ⟨caller, earlier, same⟩
      · cases List.mem_singleton.mp now
        exact .inr ⟨rfl, same⟩

/-- The types that were looked up so far. -/
def lookedUp (root : Fin n → κ) (acts : List (Act n β)) : Finset κ :=
  (acts.filterMap fun
    | .lookup caller => some (root caller)
    | _ => none).toFinset

theorem run_size (run : Run root acts w) : w.registry.size = (lookedUp root acts).card := by
  have same : w.keys.toFinset = lookedUp root acts := by
    ext key
    rw [List.mem_toFinset, run_keys run, lookedUp, List.mem_toFinset, List.mem_filterMap]
    constructor
    · rintro ⟨caller, listed, rfl⟩
      exact ⟨_, listed, rfl⟩
    · rintro ⟨act, listed, looked⟩
      cases act <;> cases looked
      exact ⟨_, listed, rfl⟩
  rw [← same, List.toFinset_card_of_nodup (run_sound run).keys, Registry.size, World.registry,
    List.length_map]

end Run

/-! Calls come to an end. -/

section Progress
variable {root : Fin n → κ} {acts : List (Act n β)} {w w' : World κ β n}

/-- If a call has not returned, it has a step, or the one it waits for has. -/
theorem step_exists [Nonempty β] (sound : Sound root w) {caller : Fin n}
    (waits : w.phases caller ≠ .returned) : ∃ act w', Step root w act w' := by
  obtain ⟨result⟩ := ‹Nonempty β›
  cases phase : w.phases caller with
  | fresh =>
    cases looked : w.slots.lookup (root caller) with
    | none => exact ⟨_, _, .opened phase looked⟩
    | some address => exact ⟨_, _, .found phase looked⟩
  | building address => exact ⟨.finish caller result, _, .finish phase⟩
  | returned => exact (waits phase).elim
  | holding address =>
    have kept := sound.holds caller address (.inl phase)
    obtain ⟨held, cell⟩ : ∃ held, w.cells[address]? = some held :=
      ⟨_, List.getElem?_eq_getElem (sound.bound kept)⟩
    cases held with
    | empty => exact ⟨_, _, .start phase cell⟩
    | full built => exact ⟨_, _, .read phase cell⟩
    | filling other =>
      rw [← cellOf_of_lookup kept] at cell
      obtain ⟨-, place, building⟩ := (sound.filling _ other).mp cell
      exact ⟨.finish other result, _, .finish building⟩

/-- How many steps a call has left at most. -/
def Phase.rank : Phase → Nat
  | .fresh => 3
  | .holding _ => 2
  | .building _ => 1
  | .returned => 0

def World.rank (w : World κ β n) : Nat := ∑ caller, (w.phases caller).rank

theorem rank_update {phases : Fin n → Phase} {caller : Fin n} {phase : Phase}
    (less : phase.rank < (phases caller).rank) :
    ∑ other, (Function.update phases caller phase other).rank < ∑ other, (phases other).rank := by
  apply Finset.sum_lt_sum
  · intro other _
    by_cases same : other = caller
    · subst same
      rw [Function.update_self]
      exact less.le
    · rw [Function.update_of_ne same]
  · refine ⟨caller, Finset.mem_univ _, ?_⟩
    rw [Function.update_self]
    exact less

theorem step_rank {act : Act n β} (step : Step root w act w') : w'.rank < w.rank := by
  have less {caller : Fin n} {phase : Phase} (less : phase.rank < (w.phases caller).rank) :
      ∑ other, (Function.update w.phases caller phase other).rank < w.rank := rank_update less
  cases step with
  | found fresh _ | opened fresh _ => exact less (by rw [fresh]; exact Nat.lt_add_one 2)
  | start holds _ => exact less (by rw [holds]; exact Nat.lt_add_one 1)
  | read holds _ => exact less (by rw [holds]; exact Nat.two_pos)
  | finish builds => exact less (by rw [builds]; exact Nat.one_pos)

theorem run_bounded (run : Run root acts w) : acts.length + w.rank ≤ 3 * n := by
  induction run with
  | refl => simp [World.rank, World.initial, Phase.rank, Nat.mul_comm]
  | snoc before last ih =>
    have := step_rank last
    rw [List.length_append, List.length_singleton]
    omega

end Progress

/-! The registry of a run. -/

/-- What a step is to the registry. The start of a build is nothing to it. -/
def Act.atomic (root : Fin n → κ) : Act n β → List (Registry.Step κ)
  | .lookup caller => [.reserve (root caller)]
  | .start _ => []
  | .finish caller _ | .read caller => [.fill (root caller)]

theorem run_append (build : κ → β) (first second : List (Registry.Step κ))
    (registry : Registry κ β) :
    Registry.run build (first ++ second) registry =
      let (results, registry) := Registry.run build first registry
      let (later, registry) := Registry.run build second registry
      (results ++ later, registry) := by
  induction first generalizing registry with
  | nil => rfl
  | cons step rest ih =>
    cases step with
    | reserve key => exact ih (registry.reserve key)
    | fill key =>
      simp only [List.cons_append, Registry.run, ih]

theorem lookup_keys {γ : Type} (keys : List κ) (kept : κ → γ) (key : κ) :
    (keys.map fun other => (other, kept other)).lookup key =
      if key ∈ keys then some (kept key) else none := by
  induction keys with
  | nil => rfl
  | cons first rest ih =>
    rw [List.map_cons, List.lookup_cons, ih]
    by_cases same : key = first
    · subst same
      simp
    · rw [beq_eq_false_iff_ne.mpr same]
      simp [same]

theorem setSlot_keys {keys : List κ} (distinct : keys.Nodup) {key : κ} (member : key ∈ keys)
    (kept : κ → Option (Built β)) (built : Built β) :
    Registry.setSlot key built (keys.map fun other => (other, kept other)) =
      keys.map fun other => (other, Function.update kept key (some built) other) := by
  induction keys with
  | nil => cases member
  | cons first rest ih =>
    obtain ⟨fresh, distinct⟩ := List.nodup_cons.mp distinct
    rw [List.map_cons, Registry.setSlot, List.map_cons]
    by_cases same : first = key
    · subst same
      rw [if_pos rfl, Function.update_self]
      congr 1
      apply List.map_congr_left
      intro other later
      rw [Function.update_of_ne]
      rintro rfl
      exact fresh later
    · rw [if_neg same, Function.update_of_ne same]
      rw [ih distinct ((List.mem_cons.mp member).resolve_left (Ne.symm same))]

section Refinement
variable {root : Fin n → κ} {acts : List (Act n β)} {w w' : World κ β n}

/-- What the calls have returned, in order, with the types they were for. -/
def World.answers (root : Fin n → κ) (w : World κ β n) : List (κ × Built β) :=
  w.returns.map fun returned => (root returned.1, returned.2)

theorem built?_update {key : κ} {cell : Cell n β}
    (cells : w'.cellOf = Function.update w.cellOf key (some cell)) :
    w'.built? = Function.update w.built? key cell.built? := by
  funext other
  rw [World.built?, cells]
  by_cases same : other = key
  · subst same
    rw [Function.update_self, Function.update_self, Option.bind_some]
  · rw [Function.update_of_ne same, Function.update_of_ne same, World.built?]

theorem registry_lookup {key : κ} (member : key ∈ w.keys) :
    w.registry.slots.lookup key = some (w.built? key) :=
  (lookup_keys w.keys w.built? key).trans (if_pos member)

theorem registry_reserve {key : κ} (member : key ∈ w.keys) :
    w.registry.reserve key = w.registry := by
  rw [Registry.reserve, registry_lookup member]

theorem registry_addCell (linked : Linked root w) {key : κ}
    (missing : w.slots.lookup key = none) :
    w.registry.reserve key = (w.addCell key).registry := by
  have fresh : key ∉ w.keys := by
    rw [mem_keys_iff, missing]
    nofun
  have looked : w.registry.slots.lookup key = none :=
    (lookup_keys w.keys w.built? key).trans (if_neg fresh)
  have old : (w.keys.map fun other => (other, Function.update w.built? key none other)) =
      w.registry.slots := by
    apply List.map_congr_left
    intro other member
    rw [Function.update_of_ne]
    rintro rfl
    exact fresh member
  have slots : (w.addCell key).registry.slots = w.registry.slots ++ [(key, none)] := by
    rw [World.registry, show (w.addCell key).keys = w.keys ++ [key] from List.map_append,
      built?_update (linked.cellOf_addCell missing), Cell.built?, List.map_append, old,
      List.map_singleton, Function.update_self]
  rw [Registry.reserve, looked]
  exact congrArg₂ Registry.mk slots.symm rfl

theorem registry_finish (linked : Linked root w) {caller : Fin n} {address : Nat}
    (kept : w.slots.lookup (root caller) = some address)
    (unbuilt : w.built? (root caller) = none) (build : κ → β) :
    let built := w.outcome (build (root caller))
    w.registry.fill build (root caller) =
      (built, ((w.fill (root caller) address built).leave caller built).registry) := by
  intro built
  have member : root caller ∈ w.keys := mem_keys_iff.mpr ⟨address, kept⟩
  have cells := linked.cellOf_fill built kept
  rw [← World.cellOf_leave _ caller built] at cells
  rw [Registry.fill, registry_lookup member, unbuilt]
  dsimp only
  rw [World.registry, World.registry, setSlot_keys linked.keys member, built?_update cells]
  rfl

theorem step_registry {act : Act n β} (step : Step root w act w') (sound : Sound root w)
    (build : κ → β) (agrees : ∀ caller result, act = .finish caller result →
      build (root caller) = result) :
    ∃ new, w'.returns = w.returns ++ new ∧ Registry.run build (act.atomic root) w.registry =
      (new.map fun returned => (root returned.1, returned.2), w'.registry) := by
  cases step with
  | @found caller address fresh kept =>
    refine ⟨[], (List.append_nil _).symm, ?_⟩
    simp only [Act.atomic, Registry.run, registry_reserve (mem_keys_iff.mpr ⟨address, kept⟩)]
    rfl
  | opened fresh missing =>
    refine ⟨[], (List.append_nil _).symm, ?_⟩
    simp only [Act.atomic, Registry.run, registry_addCell sound.toLinked missing]
    rfl
  | @start caller address holds empty =>
    have kept := sound.holds caller address (.inl holds)
    have same := built?_update (sound.cellOf_begin caller kept)
    have none : w.built? (root caller) = none := by
      rw [World.built?, cellOf_of_lookup kept, empty]
      rfl
    rw [Cell.built?, ← none, Function.update_eq_self] at same
    refine ⟨[], (List.append_nil _).symm, ?_⟩
    rw [World.registry, World.registry, same]
    rfl
  | @finish caller address result builds =>
    have kept := sound.holds caller address (.inr builds)
    have unbuilt : w.built? (root caller) = none := by
      rw [World.built?, (sound.filling _ caller).mpr ⟨rfl, address, builds⟩]
      rfl
    cases agrees caller result rfl
    refine ⟨[(caller, w.outcome (build (root caller)))], rfl, ?_⟩
    simp only [Act.atomic, Registry.run, registry_finish sound.toLinked kept unbuilt]
    rfl
  | @read caller address built holds full =>
    have kept := sound.holds caller address (.inl holds)
    have found : w.built? (root caller) = some built := by
      rw [World.built?, cellOf_of_lookup kept, full]
      rfl
    refine ⟨[(caller, built)], rfl, ?_⟩
    simp only [Act.atomic, Registry.run, Registry.fill,
      registry_lookup (mem_keys_iff.mpr ⟨address, kept⟩), found]
    rfl

/-- A run is one of the registry, if `build` gives what the builds in it gave. -/
theorem run_registry (run : Run root acts w) (build : κ → β)
    (agrees : ∀ caller result, .finish caller result ∈ acts → build (root caller) = result) :
    Registry.run build (acts.flatMap (Act.atomic root)) .empty = (w.answers root, w.registry) := by
  induction run with
  | refl => rfl
  | snoc before last ih =>
    obtain ⟨new, returns, registry⟩ := step_registry last (run_sound before) build
      fun caller result same => agrees caller result
        (List.mem_append_right _ (List.mem_singleton.mpr same.symm))
    have earlier := ih fun caller result ended =>
      agrees caller result (List.mem_append_left _ ended)
    rw [List.flatMap_append, run_append, earlier, List.flatMap_singleton]
    simp only [registry]
    rw [World.answers, World.answers, returns, List.map_append]

end Refinement

/-! Any number of calls. -/

/-- What holds of a world that a run has come to. -/
structure Serves (root : Fin n → κ) (acts : List (Act n β)) (w : World κ β n) : Prop where
  /-- No table is built twice. -/
  once : w.started.Nodup
  /-- All calls for a type return what its one build gave, also where that is an error. -/
  same : ∀ first second one other, (first, one) ∈ w.returns → (second, other) ∈ w.returns →
    root first = root second → one = other
  own : ∀ caller built, (caller, built) ∈ w.returns →
    ∃ builder, root builder = root caller ∧ .finish builder built.result ∈ acts
  /-- What was built stays, whatever calls come later. -/
  kept : ∀ more w', Steps root w more w' → ∀ key built, w.built? key = some built →
    w'.built? key = some built
  others : ∀ key more w', Steps root w more w' → (∀ act ∈ more, root act.caller ≠ key) →
    w'.cellOf key = w.cellOf key ∧ ∀ caller, root caller = key → w'.phases caller = w.phases caller
  size : w.registry.size = (lookedUp root acts).card
  /-- Steps come to an end, and that is when every call has returned. -/
  bounded : acts.length ≤ 3 * n
  ends : (∀ act w', ¬Step root w act w') → ∀ caller, ∃ built, (caller, built) ∈ w.returns
  /-- It is as if every call filled its slot at one moment. -/
  refines : ∃ build : κ → β,
    (∀ caller result, .finish caller result ∈ acts → build (root caller) = result) ∧
    Registry.run build (acts.flatMap (Act.atomic root)) .empty = (w.answers root, w.registry)

theorem build_exists [Nonempty β] {root : Fin n → κ} {acts : List (Act n β)} {w : World κ β n}
    (run : Run root acts w) : ∃ build : κ → β,
      ∀ caller result, .finish caller result ∈ acts → build (root caller) = result := by
  obtain ⟨any⟩ := ‹Nonempty β›
  refine ⟨fun key => ((w.built? key).map Built.result).getD any, fun caller result ended => ?_⟩
  obtain ⟨serial, kept⟩ := run_outcome run ended
  dsimp only
  rw [kept, Option.map_some, Option.getD_some]

/-- However many calls there are, whatever types they are for and however their steps come in
between each other, the tables are built once and every call returns that of its type. -/
theorem run_serves [Nonempty β] (root : Fin n → κ) (acts : List (Act n β)) (w : World κ β n)
    (run : Run root acts w) : Serves root acts w := by
  have sound := run_sound run
  obtain ⟨build, agrees⟩ := build_exists run
  exact {
    once := sound.once
    same := by
      intro first second one other returned also same
      have kept := sound.results first one returned
      rw [same, sound.results second other also] at kept
      cases kept
      rfl
    own := fun caller built returned => run_source run (sound.results caller built returned)
    kept := fun more w' steps key built => steps_built steps sound
    others := fun key more w' steps => steps_others steps sound
    size := run_size run
    bounded := (Nat.le_add_right ..).trans (run_bounded run)
    ends := by
      intro stuck caller
      by_contra waits
      obtain ⟨act, w', step⟩ := step_exists sound (mt (sound.returned caller).mp waits)
      exact stuck act w' step
    refines := ⟨build, agrees, run_registry run build agrees⟩ }

/-! Two calls for a type whose table can be built, and one for a type whose table cannot. -/

def requested (caller : Fin 3) : Bool := caller < 2

def declared : Bool → Except DeclarationError (Table Nat)
  | true => Table.build "type" [.singleton "Unknown" "unknown" 0]
  | false => Table.build "type" [.singleton "A" "same" 0, .singleton "B" "same" 1]

/-- The second call builds while the first waits, and the third builds meanwhile. -/
def script : List (Act 3 (Except DeclarationError (Table Nat))) :=
  [.lookup 0, .lookup 1, .start 1, .lookup 2, .start 2, .finish 2 (declared false),
    .finish 1 (declared true), .read 0]

theorem script_runs : ∃ w, Run requested script w ∧
    w.returns = [(2, ⟨0, declared false⟩), (1, ⟨1, declared true⟩), (0, ⟨1, declared true⟩)] := by
  let w : World Bool (Except DeclarationError (Table Nat)) 3 := World.initial
  have idle : Steps requested w [] w := .refl
  have opened := idle.snoc (show Step requested _ (.lookup 0) _ from .opened rfl rfl)
  have found := opened.snoc (show Step requested _ (.lookup 1) _ from .found rfl rfl)
  have begun := found.snoc (show Step requested _ (.start 1) _ from .start rfl rfl)
  have apart := begun.snoc (show Step requested _ (.lookup 2) _ from .opened rfl rfl)
  have both := apart.snoc (show Step requested _ (.start 2) _ from .start rfl rfl)
  have failed := both.snoc
    (show Step requested _ (.finish 2 (declared false)) _ from .finish rfl)
  have built := failed.snoc (show Step requested _ (.finish 1 (declared true)) _ from .finish rfl)
  exact ⟨_, built.snoc (show Step requested _ (.read 0) _ from .read rfl rfl), rfl⟩

theorem script_served : ∃ w, Run requested script w ∧ w.started.Nodup ∧ w.registry.size = 2 ∧
    ∀ one other, (0, one) ∈ w.returns → (1, other) ∈ w.returns → one = other := by
  have : Nonempty (Except DeclarationError (Table Nat)) := ⟨declared true⟩
  obtain ⟨w, run, returns⟩ := script_runs
  have serves := run_serves requested script w run
  refine ⟨w, run, serves.once, ?_, fun one other returned also => ?_⟩
  · rw [serves.size]
    decide
  · exact serves.same 0 1 one other returned also rfl

end TaggedJson.Hierarchy.Concurrent
