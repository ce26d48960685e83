import LayeredCache.Cell
import LayeredCache.Journal.Event
import LayeredCache.Table

/-!
# The ground below all caches

The base stores, each a table of cells, the next serial number, and the journal. Every operation of
a cache takes the ground as it is and gives the ground as it leaves it.
-/

namespace LayeredCache

/-- The base stores by number, the next serial number of instances and leases, and the events told
so far, the latest first. -/
structure Ground (κ α : Type) where
  stores : Table Nat (Table κ (Cell α)) := .empty
  issued : Nat := 0
  journal : List (Event κ) := []

namespace Ground

variable {κ α : Type}

/-- The cells of a base store. -/
def store (g : Ground κ α) (base : Nat) : Table κ (Cell α) := (g.stores.find? base).getD .empty

/-- The ground with other cells in one base store. -/
def setStore (g : Ground κ α) (base : Nat) (t : Table κ (Cell α)) : Ground κ α :=
  { g with stores := g.stores.insert base t }

/-- The ground with one more event. -/
def note (g : Ground κ α) (e : Event κ) : Ground κ α := { g with journal := e :: g.journal }

/-- The ground with the next serial number taken; the number taken is `g.issued`. -/
def issue (g : Ground κ α) : Ground κ α := { g with issued := g.issued + 1 }

/-- Whether some cell of some base store keeps the instance alive. -/
def keeps (g : Ground κ α) (serial : Nat) : Bool :=
  g.stores.entries.any fun s => s.2.entries.any fun e => e.2.item.serial = serial && e.2.keeps

theorem store_setStore (g : Ground κ α) (base base' : Nat) (t : Table κ (Cell α)) :
    (g.setStore base t).store base' = if base' = base then t else g.store base' := by
  simp only [store, setStore, Table.find?_insert]
  split <;> rfl

@[simp] theorem store_setStore_self (g : Ground κ α) (base : Nat) (t : Table κ (Cell α)) :
    (g.setStore base t).store base = t := by simp [store_setStore]

@[simp] theorem store_note (g : Ground κ α) (e : Event κ) (base : Nat) :
    (g.note e).store base = g.store base := rfl

@[simp] theorem store_issue (g : Ground κ α) (base : Nat) :
    g.issue.store base = g.store base := rfl

end Ground

/-- A clock that layers with a window read. -/
inductive Clock where
  /-- The clock of the machine. -/
  | system
  /-- A clock that moves only when it is told to. -/
  | manual (name : String)
  deriving DecidableEq, Repr

/-- A signal that asks reclaiming layers to drop their pins. -/
inductive Signal where
  /-- A signal that nobody can raise. -/
  | silent
  /-- A signal that several layers may watch. -/
  | shared (name : String)
  deriving DecidableEq, Repr

/-- How a wait has ended. -/
inductive Wake where
  /-- What was waited for has come about. -/
  | opened
  /-- The time was over. -/
  | expired
  deriving DecidableEq, Repr

/-- What an operation sees of the world outside the cache: the thread it runs on, the clocks, the
signals, and which instances are held by somebody other than base stores and the cache's own
layers. -/
structure Moment where
  thread : String := "main"
  time : Clock → Span := fun _ => 0
  pressure : Signal → Nat := fun _ => 0
  held : Nat → Bool := fun _ => false

/-- The same moment with more instances held. -/
def Moment.holding (m : Moment) (serials : List Nat) : Moment :=
  { m with held := fun n => serials.contains n || m.held n }

@[simp] theorem Moment.held_holding (m : Moment) (serials : List Nat) (n : Nat) :
    (m.holding serials).held n = (serials.contains n || m.held n) := rfl

end LayeredCache
