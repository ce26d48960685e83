/-!
# What a store holds

Values are handed on as instances: two reads share one instance when its serial number is the same.
A layer that turns values into bytes makes instances of bytes. A reclaiming layer stores an instance
under a lease, which keeps the instance alive as long as it is pinned.
-/

namespace LayeredCache

/-- A value, or the bytes of one. -/
inductive Content (α : Type) where
  | plain (value : α)
  | packed (bytes : List UInt8)
  deriving DecidableEq

/-- One instance of a value or of bytes, told from others by its serial number. -/
structure Item (α : Type) where
  serial : Nat
  content : Content α
  deriving DecidableEq

/-- The value of an instance that is not bytes. -/
def Item.value? {α : Type} (i : Item α) : Option α :=
  match i.content with
  | .plain v => some v
  | .packed _ => none

/-- What a reclaiming layer stores an instance under. -/
structure Lease where
  serial : Nat
  pinned : Bool
  deriving DecidableEq, Repr

/-- A stored instance, with the lease it is stored under if a reclaiming layer stored it. -/
structure Cell (α : Type) where
  item : Item α
  lease : Option Lease := none
  deriving DecidableEq

namespace Cell

variable {α : Type}

/-- Whether the cell keeps its instance alive: it does unless its lease is not pinned. -/
def keeps (c : Cell α) : Bool :=
  match c.lease with
  | none => true
  | some l => l.pinned

/-- The cell with its lease, if any, no longer pinned. -/
def unpin (c : Cell α) : Cell α :=
  { c with lease := c.lease.map fun l => { l with pinned := false } }

/-- Whether the cell is stored under the lease with this serial number. -/
def isUnder (c : Cell α) (serial : Nat) : Bool :=
  match c.lease with
  | none => false
  | some l => l.serial = serial

@[simp] theorem item_unpin (c : Cell α) : c.unpin.item = c.item := rfl

@[simp] theorem isUnder_unpin (c : Cell α) (serial : Nat) :
    c.unpin.isUnder serial = c.isUnder serial := by
  cases c with | mk item lease => cases lease <;> rfl

end Cell

end LayeredCache
