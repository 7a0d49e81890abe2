/-! A registry keeps what was built for each key, failures included, so that nothing is built twice.
A call takes two steps, and steps of different calls may come in any order: it finds the slot of its
key, and then it has the slot filled unless that was done before. -/
namespace TaggedJson.Hierarchy

/-- What a build gave, and how many builds there were before it. The number tells results of
different builds apart. -/
structure Built (β : Type) where
  serial : Nat
  result : β
deriving DecidableEq

structure Registry (κ β : Type) where
  /-- In the order in which the keys were first looked up. -/
  slots : List (κ × Option (Built β))
  /-- The keys of all builds, in order. -/
  builds : List κ

namespace Registry
variable {κ β : Type}

def empty : Registry κ β := ⟨[], []⟩

def size (registry : Registry κ β) : Nat := registry.slots.length

def isEmpty (registry : Registry κ β) : Bool := registry.size == 0

variable [DecidableEq κ]

def setSlot (key : κ) (built : Built β) :
    List (κ × Option (Built β)) → List (κ × Option (Built β))
  | [] => [(key, some built)]
  | (other, kept) :: rest =>
    if other = key then (key, some built) :: rest else (other, kept) :: setSlot key built rest

/-- The first step of a call. -/
def reserve (key : κ) (registry : Registry κ β) : Registry κ β :=
  match registry.slots.lookup key with
  | some _ => registry
  | none => { registry with slots := registry.slots ++ [(key, none)] }

/-- The second step of a call. -/
def fill (build : κ → β) (key : κ) (registry : Registry κ β) : Built β × Registry κ β :=
  match registry.slots.lookup key with
  | some (some built) => (built, registry)
  | _ =>
    -- A slot that nobody reserved is made now.
    let built := ⟨registry.builds.length, build key⟩
    (built, ⟨setSlot key built registry.slots, registry.builds ++ [key]⟩)

inductive Step (κ : Type) where
  | reserve (key : κ)
  | fill (key : κ)
deriving DecidableEq

/-- The steps of one call. -/
def call (key : κ) : List (Step κ) := [.reserve key, .fill key]

/-- The results of the second steps, with the keys they are for, and the registry left behind. -/
def run (build : κ → β) : List (Step κ) → Registry κ β → List (κ × Built β) × Registry κ β
  | [], registry => ([], registry)
  | .reserve key :: rest, registry => run build rest (registry.reserve key)
  | .fill key :: rest, registry =>
    let (built, registry) := registry.fill build key
    let (later, registry) := run build rest registry
    ((key, built) :: later, registry)

end Registry
end TaggedJson.Hierarchy
