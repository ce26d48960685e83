import LayeredCache.Chain

/-!
# Looking at single layers

What the layers of a chain show of themselves, and the operations that concern one layer: another
bound, a collection, a purge. None of them passes through the layers outside. Layers are counted
from the base store outward, the innermost one is the layer 0.
-/

namespace LayeredCache

/-- What a layer shows of itself. -/
inductive LayerReport where
  | bounded (capacity : Nat)
  | soft (hardBound held retention generation : Nat)
  | weak (hardBound held every generation : Nat)
  | window (interval : Span)
  | packing
  | counting (count : HitCount)
  | passing
  | latching (latched : Nat) (timeout : Option Span)
  deriving DecidableEq, Repr

namespace Kind

variable {κ : Type}

/-- What a layer of a kind shows; `pressure` is the generation of each signal. -/
def report (pressure : Signal → Nat) : (kind : Kind) → kind.State κ → LayerReport
  | lru, (s : Recency κ) => .bounded s.capacity
  | fifo, (s : WriteQueue κ) => .bounded s.capacity
  | leasing, (s : Leasing κ) =>
    match s.retention with
    | .soft limit => .soft s.hardBound s.hardLinks.length limit (pressure s.signal)
    | .weak every _ => .weak s.hardBound s.hardLinks.length every (pressure s.signal)
  | window, (s : Window) => .window s.interval
  | packing, _ => .packing
  | counting, (s : HitCount) => .counting s
  | passing, _ => .passing
  | latching, (s : Gate κ) => .latching s.latches.size s.timeout

/-- A layer of a kind with another bound, where it has one. -/
def setBound (bound : Nat) : (kind : Kind) → kind.State κ → kind.State κ
  | lru, (s : Recency κ) => s.setCapacity bound
  | fifo, (s : WriteQueue κ) => s.setCapacity bound
  | leasing, (s : Leasing κ) => s.setHardBound bound
  | window, s | packing, s | counting, s | passing, s | latching, s => s

end Kind

namespace Stack

variable {κ α : Type}

/-- What the layers show, the outermost one first. -/
def reports (pressure : Signal → Nat) : (kinds : List Kind) → Stack κ kinds → List LayerReport
  | [], _ => []
  | kind :: kinds, s => kind.report pressure s.1 :: reports pressure kinds s.2

/-- The instances that the reclaiming layers hold because they were read. -/
def links : (kinds : List Kind) → Stack κ kinds → List Nat
  | [], _ => []
  | .leasing :: kinds, s => (s.1 : Leasing κ).hardLinks ++ links kinds s.2
  | _ :: kinds, s => links kinds s.2

/-- Changes the layer that has `depth` layers outside itself. -/
def modify (f : (kind : Kind) → kind.State κ → kind.State κ) :
    (kinds : List Kind) → Stack κ kinds → (depth : Nat) → Stack κ kinds
  | [], s, _ => s
  | kind :: _, s, 0 => (f kind s.1, s.2)
  | _ :: kinds, s, depth + 1 => (s.1, modify f kinds s.2 depth)

variable [DecidableEq κ] [Codec α]

/-- Runs a collection in the layer that has `depth` layers outside itself, if it reclaims. -/
def collecting (base : Nat) : (kinds : List Kind) → (depth : Nat) →
    Routine κ α (Stack κ kinds) Nat
  | [], _ => return 0
  | .leasing :: _, 0 => Leasing.collecting base
  | _ :: _, 0 => return 0
  | _ :: kinds, depth + 1 => Routine.below (collecting base kinds depth)

/-- Purges the layer that has `depth` layers outside itself, if it reclaims. -/
def purging (id : String) (base : Nat) : (kinds : List Kind) → (depth : Nat) →
    Routine κ α (Stack κ kinds) Nat
  | [], _ => return 0
  | .leasing :: kinds, 0 => Leasing.purging (Stack.routines id base kinds)
  | _ :: _, 0 => return 0
  | _ :: kinds, depth + 1 => Routine.below (purging id base kinds depth)

end Stack

namespace Chain

variable {κ α : Type}

/-- The number of layers outside the layer `i`. -/
def depth (c : Chain κ) (i : Nat) : Nat := c.kinds.length - 1 - i

/-- What the layers show, the innermost one first. -/
def reports (c : Chain κ) (pressure : Signal → Nat) : List LayerReport :=
  (Stack.reports pressure c.kinds c.stack).reverse

/-- The instances that the reclaiming layers hold because they were read. -/
def links (c : Chain κ) : List Nat := Stack.links c.kinds c.stack

/-- Gives the layer `i` another bound. -/
def setBound (c : Chain κ) (i bound : Nat) : Chain κ :=
  { c with stack := Stack.modify (Kind.setBound bound) c.kinds c.stack (c.depth i) }

variable [DecidableEq κ] [Codec α]

/-- Runs a collection in the layer `i`; the answer is the number of leases that were pinned. -/
def collecting (c : Chain κ) (i : Nat) : Routine κ α (Stack κ c.kinds) Nat :=
  Stack.collecting c.base c.kinds (c.depth i)

/-- Purges the layer `i`; the answer is the number of cells that were removed. -/
def purging (c : Chain κ) (i : Nat) : Routine κ α (Stack κ c.kinds) Nat :=
  Stack.purging c.id c.base c.kinds (c.depth i)

end Chain

end LayeredCache
