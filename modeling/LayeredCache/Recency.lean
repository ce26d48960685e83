import LayeredCache.Table

/-!
# An index of keys by recency

The index keeps the tracked keys in the order of their last use. The order is a doubly linked list
whose nodes live in numbered slots; a table leads from a key to its slot, and slots that became free
are used again before a new one is made. `order` reads the keys from the most recent one on, which
is the view in which every operation is a simple list operation.
-/

namespace LayeredCache

/-- A tracked key with the slots of its neighbours, the more recent one first. -/
structure RecencyNode (κ : Type) where
  key : κ
  prev : Option Nat := none
  next : Option Nat := none
  deriving DecidableEq

/-- Keys in the order of their last use. -/
structure Recency (κ : Type) where
  /-- The number of keys above which the eldest one is given up. -/
  capacity : Nat
  /-- The slot of each tracked key. -/
  slots : Table κ Nat := .empty
  /-- The slots; an unused one holds no node. -/
  nodes : Array (Option (RecencyNode κ)) := #[]
  /-- The slot of the most recent key. -/
  head : Option Nat := none
  /-- The slot of the eldest key. -/
  tail : Option Nat := none
  /-- The unused slots, the one that became free last in front. -/
  free : List Nat := []

namespace Recency

variable {κ : Type}

/-- An index without keys. -/
def ofCapacity (capacity : Nat) : Recency κ := { capacity := capacity }

/-- The number of tracked keys. -/
def size (r : Recency κ) : Nat := r.slots.size

/-- The node of a slot. -/
def node? (r : Recency κ) (i : Nat) : Option (RecencyNode κ) := (r.nodes[i]?).getD none

/-- Follows the links from a slot on. Each step visits a slot, so the number of slots bounds
them. -/
def walk (r : Recency κ) : (fuel : Nat) → Option Nat → List κ
  | 0, _ => []
  | _, none => []
  | fuel + 1, some i =>
    match r.node? i with
    | none => []
    | some n => n.key :: r.walk fuel n.next

/-- The tracked keys, the most recent one first. -/
def order (r : Recency κ) : List κ := r.walk r.nodes.size r.head

/-- Changes the node of a slot. -/
def updateNode (r : Recency κ) (i : Nat) (f : RecencyNode κ → RecencyNode κ) : Recency κ :=
  { r with nodes := r.nodes.modify i (·.map f) }

/-- Takes a node out of the list; the slot keeps it. -/
def unlink (r : Recency κ) (i : Nat) : Recency κ :=
  match r.node? i with
  | none => r
  | some n =>
    let r := match n.prev with
      | some p => r.updateNode p fun x => { x with next := n.next }
      | none => { r with head := n.next }
    match n.next with
    | some q => r.updateNode q fun x => { x with prev := n.prev }
    | none => { r with tail := n.prev }

/-- Puts a node that is in no list in front. -/
def pushFront (r : Recency κ) (i : Nat) : Recency κ :=
  let front := r.head
  let r := r.updateNode i fun x => { x with prev := none, next := front }
  let r := match front with
    | some h => r.updateNode h fun x => { x with prev := some i }
    | none => r
  { r with head := some i, tail := if r.tail.isNone then some i else r.tail }

/-- Gives a key a slot, an unused one if there is one. -/
def allocate (r : Recency κ) (k : κ) : Recency κ × Nat :=
  match r.free with
  | i :: free => ({ r with nodes := r.nodes.setIfInBounds i (some { key := k }), free := free }, i)
  | [] => ({ r with nodes := r.nodes.push (some { key := k }) }, r.nodes.size)

variable [DecidableEq κ]

/-- Makes a key the most recent one and tracks it if it was not tracked. -/
def touch (r : Recency κ) (k : κ) : Recency κ :=
  match r.slots.find? k with
  | some i => if r.head = some i then r else (r.unlink i).pushFront i
  | none =>
    let (r, i) := r.allocate k
    let r := r.pushFront i
    { r with slots := r.slots.insert k i }

/-- Makes a key the most recent one if it is tracked. -/
def refresh (r : Recency κ) (k : κ) : Recency κ :=
  if r.slots.contains k then r.touch k else r

/-- Frees a slot. -/
def vacate (r : Recency κ) (i : Nat) : Recency κ :=
  { r with nodes := r.nodes.setIfInBounds i none, free := i :: r.free }

/-- Stops tracking a key. -/
def forget (r : Recency κ) (k : κ) : Recency κ :=
  match r.slots.find? k with
  | some i =>
    let r := { r with slots := r.slots.erase k }
    (r.unlink i).vacate i
  | none => r

/-- Gives up the eldest key if more keys than the capacity are tracked. -/
def evictEldest (r : Recency κ) : Recency κ × Option κ :=
  if r.size ≤ r.capacity then (r, none)
  else
    match r.tail with
    | none => (r, none)
    | some i =>
      let r := r.unlink i
      match r.node? i with
      | none => (r, none)
      | some n => ({ r.vacate i with slots := r.slots.erase n.key }, some n.key)

/-- Stops tracking every key. -/
def clear (r : Recency κ) : Recency κ := { capacity := r.capacity }

/-- Changes the capacity; keys above it are given up later. -/
def setCapacity (r : Recency κ) (capacity : Nat) : Recency κ := { r with capacity := capacity }

omit [DecidableEq κ] in
@[simp] theorem order_ofCapacity (capacity : Nat) : (ofCapacity capacity : Recency κ).order = [] :=
  rfl

omit [DecidableEq κ] in
@[simp] theorem order_clear (r : Recency κ) : r.clear.order = [] := rfl

example : (((ofCapacity 2 : Recency Nat).touch 1).touch 2).order = [2, 1] := by decide
example : ((((ofCapacity 2 : Recency Nat).touch 1).touch 2).refresh 1).order = [1, 2] := by decide

end Recency

end LayeredCache
