import Mathlib.Data.List.Nodup
import Mathlib.Logic.Function.Basic
import TaggedJson.Hierarchy.Registry
/-! Calls of a registry that run at the same time. What the registry does in two steps for a call
takes more of them: under a lock a call is given the cell of its type, a new one if there is none;
whoever then finds the cell empty begins to fill it, which is not done at once, and the other calls
for the type wait. However the steps of any number of calls come in between each other, there is one
cell for each type that was looked up, and at most one call has ever begun to fill it. -/
namespace TaggedJson.Hierarchy.Concurrent
variable {κ β : Type} {n : Nat}

/-- A cell that is filled once. The call that fills it is noted for the proofs only. -/
inductive Cell (n : Nat) (β : Type) where
  | empty
  | filling (caller : Fin n)
  | full (built : Built β)

def Cell.built? : Cell n β → Option (Built β)
  | .full built => some built
  | .empty | .filling _ => none

/-- How far a call is, with the address of the cell it has been given. -/
inductive Phase where
  | fresh
  | holding (address : Nat)
  | building (address : Nat)
  | returned
deriving DecidableEq

structure World (κ β : Type) (n : Nat) where
  /-- The addresses of the cells, by type. -/
  slots : List (κ × Nat)
  cells : List (Cell n β)
  phases : Fin n → Phase
  /-- The types of the builds that were begun, and of those that ended, in order. -/
  started : List κ
  finished : List κ
  returns : List (Fin n × Built β)

def World.initial : World κ β n := ⟨[], [], fun _ => .fresh, [], [], []⟩

/-- What a build gives is up to the call that runs it. -/
inductive Act (n : Nat) (β : Type) where
  | lookup (caller : Fin n)
  | start (caller : Fin n)
  | finish (caller : Fin n) (result : β)
  | read (caller : Fin n)

def Act.caller : Act n β → Fin n
  | .lookup caller | .start caller | .finish caller _ | .read caller => caller

namespace World

/-- The cell that a call is given. -/
def hold (caller : Fin n) (address : Nat) (w : World κ β n) : World κ β n :=
  { w with phases := Function.update w.phases caller (.holding address) }

/-- A new cell for a type. -/
def addCell (key : κ) (w : World κ β n) : World κ β n :=
  { w with slots := w.slots ++ [(key, w.cells.length)], cells := w.cells ++ [.empty] }

def begin (key : κ) (caller : Fin n) (address : Nat) (w : World κ β n) : World κ β n :=
  { w with
    cells := w.cells.set address (.filling caller)
    phases := Function.update w.phases caller (.building address)
    started := w.started ++ [key] }

def leave (caller : Fin n) (built : Built β) (w : World κ β n) : World κ β n :=
  { w with
    phases := Function.update w.phases caller .returned
    returns := w.returns ++ [(caller, built)] }

def fill (key : κ) (address : Nat) (built : Built β) (w : World κ β n) : World κ β n :=
  { w with cells := w.cells.set address (.full built), finished := w.finished ++ [key] }

/-- What a build gives now; no other has its number. -/
def outcome (result : β) (w : World κ β n) : Built β := ⟨w.finished.length, result⟩

end World

variable [DecidableEq κ]

/-- One step of one call, where `root` is the type that each call asks for. A call that holds a cell
which another is filling has no step: it waits. -/
inductive Step (root : Fin n → κ) (w : World κ β n) : Act n β → World κ β n → Prop
  | found {caller : Fin n} {address : Nat} (fresh : w.phases caller = .fresh)
    (kept : w.slots.lookup (root caller) = some address) :
    Step root w (.lookup caller) (w.hold caller address)
  | opened {caller : Fin n} (fresh : w.phases caller = .fresh)
    (missing : w.slots.lookup (root caller) = none) :
    Step root w (.lookup caller) ((w.addCell (root caller)).hold caller w.cells.length)
  | start {caller : Fin n} {address : Nat} (holds : w.phases caller = .holding address)
    (empty : w.cells[address]? = some .empty) :
    Step root w (.start caller) (w.begin (root caller) caller address)
  | finish {caller : Fin n} {address : Nat} {result : β}
    (builds : w.phases caller = .building address) :
    Step root w (.finish caller result)
      ((w.fill (root caller) address (w.outcome result)).leave caller (w.outcome result))
  | read {caller : Fin n} {address : Nat} {built : Built β}
    (holds : w.phases caller = .holding address)
    (full : w.cells[address]? = some (.full built)) :
    Step root w (.read caller) (w.leave caller built)

/-- Any interleaving. -/
inductive Steps (root : Fin n → κ) (w : World κ β n) : List (Act n β) → World κ β n → Prop
  | refl : Steps root w [] w
  | snoc {acts : List (Act n β)} {act : Act n β} {middle after : World κ β n}
    (before : Steps root w acts middle) (last : Step root middle act after) :
    Steps root w (acts ++ [act]) after

/-! Cells by type. -/

namespace World

def keys (w : World κ β n) : List κ := w.slots.map Prod.fst

/-- The cell for a type. -/
def cellOf (w : World κ β n) (key : κ) : Option (Cell n β) :=
  (w.slots.lookup key).bind fun address => w.cells[address]?

def built? (w : World κ β n) (key : κ) : Option (Built β) := (w.cellOf key).bind Cell.built?

@[simp] theorem cellOf_hold (w : World κ β n) (caller : Fin n) (address : Nat) :
    (w.hold caller address).cellOf = w.cellOf := rfl

@[simp] theorem cellOf_leave (w : World κ β n) (caller : Fin n) (built : Built β) :
    (w.leave caller built).cellOf = w.cellOf := rfl

/-- What the calls have made of the registry. -/
def registry (w : World κ β n) : Registry κ β :=
  ⟨w.keys.map fun key => (key, w.built? key), w.finished⟩

end World

/-- There is one cell for each type that was looked up, and calls hold those of their types. -/
structure Linked (root : Fin n → κ) (w : World κ β n) : Prop where
  keys : w.keys.Nodup
  addresses : w.slots.map Prod.snd = List.range w.cells.length
  holds : ∀ caller address,
    w.phases caller = .holding address ∨ w.phases caller = .building address →
      w.slots.lookup (root caller) = some address

theorem lookup_of_mem {slots : List (κ × Nat)} (distinct : (slots.map Prod.fst).Nodup) {key : κ}
    {address : Nat} (member : (key, address) ∈ slots) : slots.lookup key = some address := by
  induction slots with
  | nil => cases member
  | cons slot rest ih =>
    rw [List.map_cons, List.nodup_cons] at distinct
    rcases List.mem_cons.mp member with rfl | later
    · exact List.lookup_cons_self
    · have other : (key == slot.1) = false := by
        rw [beq_eq_false_iff_ne]
        intro same
        exact distinct.1 (List.mem_map.mpr ⟨_, later, same⟩)
      rw [List.lookup_cons, other]
      exact ih distinct.2 later

theorem mem_of_lookup {slots : List (κ × Nat)} {key : κ} {address : Nat}
    (found : slots.lookup key = some address) : (key, address) ∈ slots := by
  obtain ⟨before, after, rfl, -⟩ := List.lookup_eq_some_iff.mp found
  exact List.mem_append_right _ List.mem_cons_self

section Linked
variable {root : Fin n → κ} {w : World κ β n}

theorem Linked.bound (linked : Linked root w) {key : κ} {address : Nat}
    (found : w.slots.lookup key = some address) : address < w.cells.length := by
  rw [← List.mem_range, ← linked.addresses]
  exact List.mem_map_of_mem (mem_of_lookup found)

/-- No cell is shared by two types. -/
theorem Linked.apart (linked : Linked root w) {key other : κ} {address : Nat}
    (found : w.slots.lookup key = some address) (also : w.slots.lookup other = some address) :
    key = other := by
  have distinct : (w.slots.map Prod.snd).Nodup := linked.addresses ▸ List.nodup_range
  have same := List.inj_on_of_nodup_map distinct (mem_of_lookup found) (mem_of_lookup also) rfl
  exact congrArg Prod.fst same

/-- A write changes the cell of one type. -/
theorem Linked.set_cell (linked : Linked root w) {key : κ} {address : Nat} {cell : Cell n β}
    (found : w.slots.lookup key = some address) :
    (fun other => (w.slots.lookup other).bind fun place => (w.cells.set address cell)[place]?) =
      Function.update w.cellOf key (some cell) := by
  funext other
  by_cases same : other = key
  · subst same
    rw [Function.update_self, found, Option.bind_some,
      List.getElem?_set_self (linked.bound found)]
  · rw [Function.update_of_ne same, World.cellOf]
    cases looked : w.slots.lookup other with
    | none => rfl
    | some place =>
      have : address ≠ place := by
        rintro rfl
        exact same (linked.apart looked found)
      rw [Option.bind_some, List.getElem?_set_ne this, Option.bind_some]

theorem Linked.cellOf_begin (linked : Linked root w) {key : κ} {address : Nat} (caller : Fin n)
    (found : w.slots.lookup key = some address) :
    (w.begin key caller address).cellOf =
      Function.update w.cellOf key (some (.filling caller)) :=
  linked.set_cell found

theorem Linked.cellOf_fill (linked : Linked root w) {key : κ} {address : Nat} (built : Built β)
    (found : w.slots.lookup key = some address) :
    (w.fill key address built).cellOf = Function.update w.cellOf key (some (.full built)) :=
  linked.set_cell found

/-- A new cell is for a type that had none. -/
theorem Linked.cellOf_addCell (linked : Linked root w) {key : κ}
    (missing : w.slots.lookup key = none) :
    (w.addCell key).cellOf = Function.update w.cellOf key (some .empty) := by
  funext other
  rw [World.cellOf, World.addCell, List.lookup_append]
  by_cases same : other = key
  · subst same
    rw [Function.update_self, missing, Option.none_or, List.lookup_cons_self, Option.bind_some,
      List.getElem?_concat_length]
  · have fresh : List.lookup other [(key, w.cells.length)] = none := by
      rw [List.lookup_cons, beq_eq_false_iff_ne.mpr same]
      rfl
    rw [Function.update_of_ne same, fresh, Option.or_none, World.cellOf]
    cases looked : w.slots.lookup other with
    | none => rfl
    | some place =>
      rw [Option.bind_some, Option.bind_some, List.getElem?_append_left (linked.bound looked)]

theorem cellOf_of_lookup {key : κ} {address : Nat} (found : w.slots.lookup key = some address) :
    w.cellOf key = w.cells[address]? := by
  rw [World.cellOf, found, Option.bind_some]

theorem mem_keys_iff {key : κ} : key ∈ w.keys ↔ ∃ address, w.slots.lookup key = some address := by
  rw [World.keys, ← Option.isSome_iff_exists, ← Option.not_isNone, Bool.not_eq_true',
    ← Bool.not_eq_true, Option.isNone_iff_eq_none, List.lookup_eq_none_iff]
  simp

end Linked

/-! Steps. -/

/-- What the cells and the calls have to do with each other. -/
structure Sound (root : Fin n → κ) (w : World κ β n) : Prop extends Linked root w where
  filling : ∀ key caller, w.cellOf key = some (.filling caller) ↔
    key = root caller ∧ ∃ address, w.phases caller = .building address
  started : ∀ key, key ∈ w.started ↔ ∃ cell, w.cellOf key = some cell ∧ cell ≠ .empty
  once : w.started.Nodup
  returned : ∀ caller, w.phases caller = .returned ↔ ∃ built, (caller, built) ∈ w.returns
  results : ∀ caller built, (caller, built) ∈ w.returns → w.built? (root caller) = some built

theorem sound_initial (root : Fin n → κ) : Sound root (World.initial : World κ β n) where
  keys := List.nodup_nil
  addresses := rfl
  holds := fun _ _ held => by rcases held with held | held <;> cases held
  filling := fun _ _ => ⟨nofun, nofun⟩
  started := fun _ => ⟨nofun, nofun⟩
  once := List.nodup_nil
  returned := fun _ => ⟨nofun, nofun⟩
  results := nofun

section Moves
variable {root : Fin n → κ} {w : World κ β n} {caller : Fin n} {address : Nat}

/-- A call goes on with the cell of its type. -/
theorem Linked.move (linked : Linked root w) {cells : List (Cell n β)} {phase : Phase}
    (started finished : List κ) (returns : List (Fin n × Built β))
    (length : cells.length = w.cells.length)
    (holds : ∀ address, phase = .holding address ∨ phase = .building address →
      w.slots.lookup (root caller) = some address) :
    Linked root ⟨w.slots, cells, Function.update w.phases caller phase, started, finished,
      returns⟩ where
  keys := linked.keys
  addresses := length ▸ linked.addresses
  holds other address held := by
    dsimp only at held
    by_cases same : other = caller
    · subst same
      rw [Function.update_self] at held
      exact holds address held
    · rw [Function.update_of_ne same] at held
      exact linked.holds other address held

theorem Linked.addCell (linked : Linked root w) {key : κ} (missing : w.slots.lookup key = none) :
    Linked root (w.addCell key) where
  keys := by
    have fresh : key ∉ w.keys := by
      rw [mem_keys_iff, missing]
      nofun
    rw [World.keys, World.addCell, List.map_append, List.map_singleton, ← List.concat_eq_append]
    exact linked.keys.concat fresh
  addresses := by
    rw [World.addCell, List.map_append, linked.addresses, List.length_append, List.length_singleton,
      List.range_succ]
    rfl
  holds other address held := by
    rw [World.addCell, List.lookup_append, linked.holds other address held, Option.some_or]

/-- The cell of a call is filled by that call or by none. -/
theorem Sound.filling_move (sound : Sound root w) {phase : Phase} {cell : Cell n β}
    (own : ∀ other, cell = .filling other ↔ other = caller ∧ ∃ address, phase = .building address)
    (alone : ∀ other, w.cellOf (root caller) = some (.filling other) → other = caller)
    (key : κ) (other : Fin n) :
    Function.update w.cellOf (root caller) (some cell) key = some (.filling other) ↔
      key = root other ∧
        ∃ address, Function.update w.phases caller phase other = .building address := by
  by_cases mine : other = caller
  · subst mine
    rw [Function.update_self]
    by_cases same : key = root other
    · subst same
      rw [Function.update_self, Option.some_inj, own]
      simp
    · rw [Function.update_of_ne same, sound.filling]
      simp [same]
  · rw [Function.update_of_ne mine]
    by_cases same : key = root caller
    · subst same
      rw [Function.update_self, Option.some_inj, own]
      constructor
      · rintro ⟨rfl, -⟩
        exact (mine rfl).elim
      · intro building
        exact (mine (alone other ((sound.filling _ other).mpr building))).elim
    · rw [Function.update_of_ne same, sound.filling]

theorem Sound.filling_stay (sound : Sound root w) {phase : Phase}
    (before : ∀ address, w.phases caller ≠ .building address)
    (after : ∀ address, phase ≠ .building address) (key : κ) (other : Fin n) :
    w.cellOf key = some (.filling other) ↔ key = root other ∧
      ∃ address, Function.update w.phases caller phase other = .building address := by
  rw [sound.filling]
  by_cases mine : other = caller
  · subst mine
    rw [Function.update_self]
    simp [before, after]
  · rw [Function.update_of_ne mine]

theorem Sound.returned_stay (sound : Sound root w) {phase : Phase}
    (before : w.phases caller ≠ .returned) (after : phase ≠ .returned) (other : Fin n) :
    Function.update w.phases caller phase other = .returned ↔
      ∃ built, (other, built) ∈ w.returns := by
  rw [← sound.returned]
  by_cases mine : other = caller
  · subst mine
    rw [Function.update_self]
    exact iff_of_false after before
  · rw [Function.update_of_ne mine]

theorem Sound.returned_leave (sound : Sound root w) (built : Built β) (other : Fin n) :
    Function.update w.phases caller .returned other = .returned ↔
      ∃ found, (other, found) ∈ w.returns ++ [(caller, built)] := by
  by_cases mine : other = caller
  · subst mine
    rw [Function.update_self]
    exact iff_of_true rfl ⟨built, List.mem_append_right _ (List.mem_singleton.mpr rfl)⟩
  · rw [Function.update_of_ne mine, sound.returned]
    simp [mine]

/-- What was returned is for other types than one for which nothing has been built. -/
theorem Sound.results_other (sound : Sound root w) {key : κ} (unbuilt : w.built? key = none)
    (cell : Option (Cell n β)) (other : Fin n) (built : Built β)
    (found : (other, built) ∈ w.returns) :
    (Function.update w.cellOf key cell (root other)).bind Cell.built? = some built := by
  have before := sound.results other built found
  have apart : root other ≠ key := by
    rintro rfl
    rw [unbuilt] at before
    cases before
  rw [Function.update_of_ne apart]
  exact before

theorem Sound.hold (sound : Sound root w) (fresh : w.phases caller = .fresh)
    (kept : w.slots.lookup (root caller) = some address) : Sound root (w.hold caller address) where
  toLinked := by
    apply sound.toLinked.move _ _ _ rfl
    rintro _ (same | same) <;> cases same
    exact kept
  filling := sound.filling_stay (fresh ▸ nofun) nofun
  started := sound.started
  once := sound.once
  returned := sound.returned_stay (fresh ▸ nofun) nofun
  results := sound.results

theorem Sound.addCell (sound : Sound root w) {key : κ} (missing : w.slots.lookup key = none) :
    Sound root (w.addCell key) where
  toLinked := sound.toLinked.addCell missing
  filling other caller := by
    have none : w.cellOf key = none := by rw [World.cellOf, missing, Option.bind_none]
    rw [sound.cellOf_addCell missing]
    by_cases same : other = key
    · subst same
      rw [Function.update_self]
      refine iff_of_false nofun fun building => ?_
      rw [(sound.filling other caller).mpr building] at none
      cases none
    · rw [Function.update_of_ne same]
      exact sound.filling other caller
  started other := by
    have none : w.cellOf key = none := by rw [World.cellOf, missing, Option.bind_none]
    rw [sound.cellOf_addCell missing]
    by_cases same : other = key
    · subst same
      rw [Function.update_self]
      refine (sound.started other).trans (iff_of_false ?_ ?_)
      · rw [none]
        nofun
      · rintro ⟨_, ⟨⟩, different⟩
        exact different rfl
    · rw [Function.update_of_ne same]
      exact sound.started other
  once := sound.once
  returned := sound.returned
  results caller built found := by
    have unbuilt : w.built? key = none := by
      rw [World.built?, World.cellOf, missing]
      rfl
    rw [World.built?, sound.cellOf_addCell missing]
    exact sound.results_other unbuilt _ caller built found

theorem Sound.begin (sound : Sound root w) (holds : w.phases caller = .holding address)
    (empty : w.cells[address]? = some .empty) :
    Sound root (w.begin (root caller) caller address) := by
  have kept := sound.holds caller address (.inl holds)
  have was : w.cellOf (root caller) = some .empty := (cellOf_of_lookup kept).trans empty
  have cells := sound.cellOf_begin caller kept
  have new : root caller ∉ w.started := by
    rw [sound.started, was]
    rintro ⟨_, ⟨⟩, different⟩
    exact different rfl
  exact {
    toLinked := by
      apply sound.toLinked.move _ _ _ List.length_set
      rintro _ (same | same) <;> cases same
      exact kept
    filling := by
      rw [cells]
      refine sound.filling_move (fun other => ?_) (fun other building => ?_)
      · simp [eq_comm]
      · rw [was] at building
        cases building
    started := by
      intro key
      rw [cells, World.begin, List.mem_append, List.mem_singleton, sound.started]
      by_cases same : key = root caller
      · subst same
        rw [Function.update_self]
        simp
      · rw [Function.update_of_ne same]
        simp [same]
    once := by
      rw [World.begin, ← List.concat_eq_append]
      exact sound.once.concat new
    returned := sound.returned_stay (holds ▸ nofun) nofun
    results := by
      intro other built found
      have unbuilt : w.built? (root caller) = none := by
        rw [World.built?, was]
        rfl
      rw [World.built?, cells]
      exact sound.results_other unbuilt _ other built found }

theorem Sound.finish (sound : Sound root w) (builds : w.phases caller = .building address)
    (built : Built β) : Sound root ((w.fill (root caller) address built).leave caller built) := by
  have kept := sound.holds caller address (.inr builds)
  have was : w.cellOf (root caller) = some (.filling caller) :=
    (sound.filling _ caller).mpr ⟨rfl, address, builds⟩
  have cells := sound.cellOf_fill built kept
  rw [← World.cellOf_leave _ caller built] at cells
  exact {
    toLinked := by
      apply sound.toLinked.move _ _ _ List.length_set
      rintro _ (same | same) <;> cases same
    filling := by
      rw [cells]
      refine sound.filling_move (fun other => ?_) (fun other building => ?_)
      · simp
      · rw [was] at building
        cases building
        rfl
    started := by
      intro key
      rw [cells]
      by_cases same : key = root caller
      · subst same
        rw [Function.update_self]
        refine (sound.started _).trans (iff_of_true ?_ ⟨_, rfl, nofun⟩)
        exact ⟨_, was, nofun⟩
      · rw [Function.update_of_ne same]
        exact sound.started key
    once := sound.once
    returned := sound.returned_leave built
    results := by
      intro other found listed
      rw [World.built?, cells]
      rcases List.mem_append.mp listed with before | now
      · have unbuilt : w.built? (root caller) = none := by
          rw [World.built?, was]
          rfl
        exact sound.results_other unbuilt _ other found before
      · cases List.mem_singleton.mp now
        rw [Function.update_self]
        rfl }

theorem Sound.read (sound : Sound root w) (holds : w.phases caller = .holding address)
    {built : Built β} (full : w.cells[address]? = some (.full built)) :
    Sound root (w.leave caller built) where
  toLinked := by
    apply sound.toLinked.move _ _ _ rfl
    rintro _ (same | same) <;> cases same
  filling := sound.filling_stay (holds ▸ nofun) nofun
  started := sound.started
  once := sound.once
  returned := sound.returned_leave built
  results other found listed := by
    rcases List.mem_append.mp listed with before | now
    · exact sound.results other found before
    · cases List.mem_singleton.mp now
      have kept := sound.holds caller address (.inl holds)
      show w.built? (root caller) = some built
      rw [World.built?, cellOf_of_lookup kept, full]
      rfl

end Moves

theorem lookup_addCell {w : World κ β n} {key : κ} (missing : w.slots.lookup key = none) :
    (w.addCell key).slots.lookup key = some w.cells.length := by
  rw [World.addCell, List.lookup_append, missing, Option.none_or, List.lookup_cons_self]

theorem step_sound {root : Fin n → κ} {act : Act n β} {w w' : World κ β n}
    (step : Step root w act w') (sound : Sound root w) : Sound root w' := by
  cases step with
  | found fresh kept => exact sound.hold fresh kept
  | opened fresh missing => exact (sound.addCell missing).hold fresh (lookup_addCell missing)
  | start holds empty => exact sound.begin holds empty
  | finish builds => exact sound.finish builds _
  | read holds full => exact sound.read holds full

theorem steps_sound {root : Fin n → κ} {acts : List (Act n β)} {w w' : World κ β n}
    (steps : Steps root w acts w') (sound : Sound root w) : Sound root w' := by
  induction steps with
  | refl => exact sound
  | snoc before last ih => exact step_sound last ih

end TaggedJson.Hierarchy.Concurrent
