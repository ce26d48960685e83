import LayeredCache.Session.Command
import LayeredCache.Transaction.UnitOfWork
import Std.Data.HashSet

/-!
# The world of a session

The threads of a session share a world. It knows caches by numbers and by names, and it holds
instances, clocks, signals, units of work, buffers, leases of its own and a registry. What a cache
sees of all this is a moment: the thread, the clocks, the signals and the instances that somebody
holds.

A chain lives as long as somebody can still reach it, and a base store as long as a chain over it
lives. What lives no more holds no instances.
-/

namespace LayeredCache

/-- An instance under a lease outside all caches. -/
structure LooseLease where
  item : Item Sample
  pinned : Bool

/-- What a command can have in hand. -/
inductive Thing where
  | chain (number : Nat)
  | buffer (number : Nat)
  /-- An instance, by its serial number. -/
  | item (serial : Nat)
  deriving DecidableEq, Repr

namespace Thing

/-- The number of a chain. -/
def chain? : Thing → Option Nat
  | chain number => some number
  | _ => none

/-- The number of a buffer. -/
def buffer? : Thing → Option Nat
  | buffer number => some number
  | _ => none

/-- The serial number of an instance. -/
def item? : Thing → Option Nat
  | item serial => some serial
  | _ => none

end Thing

/-- What the threads of a session share. -/
structure World where
  ground : Ground Key Sample := {}
  /-- The chains by their numbers. -/
  chains : Table Nat (Chain Key) := .empty
  /-- The number of the next chain, and of the base store made for it. -/
  made : Nat := 0
  /-- The chains by name. -/
  names : Table String Nat := .empty
  /-- The chains that were composed, by name. -/
  composed : Catalog Nat := .empty
  /-- The held instances by name. -/
  held : Table String (Item Sample) := .empty
  clocks : Table String Span := .empty
  signals : Table String Nat := .empty
  units : Table String (UnitOfWork Nat Key Sample) := .empty
  /-- The write buffers by their numbers, each with the number of its chain. -/
  buffers : Table Nat (Nat × Buffer Key Sample) := .empty
  /-- The number of the next buffer. -/
  opened : Nat := 0
  /-- The buffers by name. -/
  bufferNames : Table String Nat := .empty
  leases : Table String LooseLease := .empty
  registry : Registry Nat := {}
  /-- What the command that a thread is at has in hand, each thing as often as it has it. -/
  hands : Table String (List Thing) := .empty
  /-- The latest detached task of each thread. -/
  detached : Table String Nat := .empty
  /-- The answers of tasks that are done, and what they told the journal, by their numbers. -/
  results : Table Nat (Answer × List (Event Key)) := .empty
  /-- The time that has passed. -/
  now : Span := 0

namespace World

/-- What a clock shows. -/
def time (w : World) : Clock → Span
  | .system => w.now
  | .manual name => (w.clocks.find? name).getD 0

/-- The generation of a signal. -/
def pressure (w : World) : Signal → Nat
  | .silent => 0
  | .shared name => (w.signals.find? name).getD 0

/-- The instances that somebody holds outside base stores. -/
def holds (w : World) : List Nat :=
  w.held.values.map (·.serial) ++ w.units.values.flatMap (·.serials) ++
    w.buffers.values.flatMap (·.2.serials) ++
    (w.leases.values.filter (·.pinned)).map (·.item.serial) ++
    w.hands.values.flatMap (·.filterMap Thing.item?) ++ w.chains.values.flatMap (·.links)

/-- The moment in which a thread takes a step. The held instances are looked up once, when the step
asks for the first one. -/
def moment (w : World) (thread : String) : Moment :=
  let holds := Thunk.mk fun _ => Std.HashSet.ofList w.holds
  { thread := thread, time := w.time, pressure := w.pressure, held := holds.get.contains }

/-- Whether anybody holds an instance. -/
def isAlive (w : World) (serial : Nat) : Bool := w.holds.contains serial || w.ground.keeps serial

/-- The unit of work of a name, a new one if there is none. -/
def unit (w : World) (name : String) : UnitOfWork Nat Key Sample := (w.units.find? name).getD {}

/-- The cell of a key in the base store of a chain. -/
def stored? (w : World) (c : Chain Key) (k : Key) : Option (Cell Sample) :=
  (w.ground.store c.base).find? k

/-- Gives a chain a name in place of what the name stood for. -/
def name (w : World) (name : String) (r : Nat) : World :=
  { w with names := w.names.insert name r, composed := w.composed.erase name }

/-- Adds a chain and gives it a name. -/
def add (w : World) (name : String) (c : Chain Key) : World :=
  { w with chains := w.chains.insert w.made c, made := w.made + 1 }.name name w.made

/-- The states of the layers of a chain, which is `c` under the number `r`. -/
def stack (c : Chain Key) (r : Nat) (w : World) : Stack Key c.kinds :=
  match w.chains.find? r with
  | none => c.stack
  | some d => if h : d.kinds = c.kinds then h ▸ d.stack else c.stack

/-- The world with other states of the layers of a chain. -/
def setStack (c : Chain Key) (r : Nat) (s : Stack Key c.kinds) (w : World) : World :=
  { w with chains := w.chains.modify r fun _ => { c with stack := s } }

/-- The world without the buffers and the chains that nobody can reach, by a name, as a registered
one, through a unit of work or a buffer, or because a thread has it in hand; and without the base
stores below none of the other chains. -/
def prune (w : World) : World :=
  let things := w.hands.values.flatten
  let bufferNumbers := w.bufferNames.values ++ things.filterMap Thing.buffer?
  let buffers := w.buffers.entries.filter (bufferNumbers.contains ·.1)
  let chainNumbers := w.names.values ++ w.registry.caches.entries.map (·.2) ++
    w.units.values.flatMap (·.participants.map (·.cache)) ++ buffers.map (·.2.1) ++
    things.filterMap Thing.chain?
  let chains := w.chains.entries.filter (chainNumbers.contains ·.1)
  let stores := w.ground.stores.entries.filter fun e => chains.any (·.2.base = e.1)
  { w with buffers := ⟨buffers⟩, chains := ⟨chains⟩
           ground := { w.ground with stores := ⟨stores⟩ } }

/-- The world in which a thread has one thing more in hand. -/
def grasp (w : World) (thread : String) (x : Thing) : World :=
  { w with hands := w.hands.insert thread (x :: (w.hands.find? thread).getD []) }

/-- The world in which a thread has let go of a thing. -/
def drop (w : World) (thread : String) (x : Thing) : World :=
  ({ w with hands := w.hands.modify thread (·.erase x) } : World).prune

/-- The world in which a thread has nothing in hand. -/
def dropAll (w : World) (thread : String) : World :=
  { w with hands := w.hands.erase thread }

/-- What a composed chain shows: the number of cells in its base store, and its layers, the
innermost one first. -/
structure ChainReport where
  base : Nat
  layers : List LayerReport
  deriving Repr

/-- What the composed chains show, in the order of their names. -/
def reports (w : World) : List (String × ChainReport) :=
  w.composed.entries.filterMap fun e =>
    (w.chains.find? e.2).map fun c => (e.1, ⟨(w.ground.store c.base).size, c.reports w.pressure⟩)

end World

end LayeredCache
