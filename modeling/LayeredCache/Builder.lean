import LayeredCache.Catalog
import LayeredCache.Chain
import LayeredCache.Text.Ascii
import LayeredCache.Text.Blank

/-!
# Building a chain from settings

A builder holds the settings of one cache: the eviction policy with its size, an interval between
flushes, whether readers get copies, whether one caller at a time populates a key, and free-form
properties of the eviction policy. The layers follow from the settings in a fixed order, from the
base store outward: eviction, window, copies, count, exclusion, latches.
-/

namespace LayeredCache

/-- The kinds of base stores. -/
inductive Implementation where
  | perpetual
  deriving DecidableEq, Repr

namespace Implementation

/-- The name of a base store. -/
def name : Implementation → String
  | perpetual => "perpetual"

/-- The base store of a name, without regard to case. -/
def parse {κ : Type} (s : String) : Except (CacheError κ) Implementation :=
  if Text.asciiLower s = "perpetual" then .ok perpetual else .error (.unknownImplementation s)

end Implementation

/-- The eviction policies. -/
inductive Eviction where
  | lru
  | fifo
  | soft
  | weak
  deriving DecidableEq, Repr

namespace Eviction

/-- All policies. -/
def all : List Eviction := [lru, fifo, soft, weak]

/-- The name of a policy. -/
def name : Eviction → String
  | lru => "lru"
  | fifo => "fifo"
  | soft => "soft"
  | weak => "weak"

/-- The size of a cache for which none was set. -/
def defaultSize : Eviction → Nat
  | lru | fifo => defaultCapacity
  | soft | weak => Leasing.defaultHardBound

/-- The policy of a name, without regard to case. -/
def parse {κ : Type} (s : String) : Except (CacheError κ) Eviction :=
  match all.find? (·.name = Text.asciiLower s) with
  | some e => .ok e
  | none => .error (.unknownEviction s)

end Eviction

/-- The greatest count plus one. -/
def countLimit : Nat := Nat.pow 2 64

/-- The number of a text of decimal digits, at least one, that may follow a plus sign. -/
def parseCount? (s : String) : Option Nat :=
  let digits := match s.toList with
    | '+' :: rest => rest
    | all => all
  if digits.isEmpty || digits.any (fun c => !c.isDigit) then none
  else
    let n := digits.foldl (fun n c => 10 * n + (c.toNat - 48)) 0
    if n < countLimit then some n else none

/-- The settings of one cache. -/
structure Builder where
  id : String
  implementation : Implementation := .perpetual
  eviction : Eviction := .lru
  size : Option Nat := none
  flushInterval : Option Span := none
  readWrite : Bool := true
  blocking : Bool := false
  blockingTimeout : Option Span := none
  properties : Catalog String := .empty
  signal : Signal := .silent

namespace Builder

/-- A span that is not zero. -/
def positive? (span : Option Span) : Option Span := span.filter (· ≠ 0)

/-- Sets the interval between flushes; zero is none. -/
def withFlushInterval (b : Builder) (span : Option Span) : Builder :=
  { b with flushInterval := positive? span }

/-- Sets how long a lookup may wait for another caller; zero is forever. -/
def withBlockingTimeout (b : Builder) (span : Option Span) : Builder :=
  { b with blockingTimeout := positive? span }

/-- Sets a property. -/
def withProperty (b : Builder) (name value : String) : Builder :=
  { b with properties := b.properties.insert name value }

/-- The parameters of the eviction layer. -/
structure Parameters where
  size : Nat
  retention : Option Nat := none
  every : Option Nat := none
  deriving DecidableEq

variable {κ : Type}

/-- The value of a property as a positive count. -/
def count (b : Builder) (name value : String) : Except (CacheError κ) Nat :=
  match parseCount? (Text.trimBlank value) with
  | some n => if 0 < n then .ok n else .error (.invalidProperty b.id name value)
  | none => .error (.invalidProperty b.id name value)

/-- Applies one property. -/
def applyProperty (b : Builder) (p : Parameters) (name value : String) :
    Except (CacheError κ) Parameters :=
  if name = "size" then (b.count name value).map fun n => { p with size := n }
  else if name = "retention" ∧ b.eviction = .soft then
    (b.count name value).map fun n => { p with retention := some n }
  else if name = "collect_every" ∧ b.eviction = .weak then
    (b.count name value).map fun n => { p with every := some n }
  else .error (.unknownProperty b.id name)

/-- Applies properties in order; the first failure counts. -/
def applyProperties (b : Builder) (p : Parameters) :
    List (String × String) → Except (CacheError κ) Parameters
  | [] => .ok p
  | (name, value) :: rest =>
    match b.applyProperty p name value with
    | .error e => .error e
    | .ok p => b.applyProperties p rest

/-- How much a soft layer retains unless a property tells. The product is a machine word: from the
limit of counts on it starts again at zero, where arithmetic that is checked would stop. -/
def defaultRetention (size : Nat) : Nat := size * Leasing.retentionFactor % countLimit

/-- The eviction layer of a policy with its parameters. -/
def layerOf (e : Eviction) (p : Parameters) : Layer :=
  match e with
  | .lru => .lru p.size
  | .fifo => .fifo p.size
  | .soft => .soft p.size (p.retention.getD (defaultRetention p.size))
  | .weak => .weak p.size (p.every.getD Leasing.defaultEvery)

/-- The eviction layer. -/
def evictionLayer (b : Builder) : Except (CacheError κ) Layer :=
  (b.applyProperties { size := b.size.getD b.eviction.defaultSize } b.properties.entries).map
    (layerOf b.eviction)

/-- The layers outside the eviction layer. -/
def outerLayers (b : Builder) : List Layer :=
  (b.flushInterval.toList.map .scheduled) ++ (if b.readWrite then [.serialized] else []) ++
    [.logging, .synchronized] ++ (if b.blocking then [.blocking b.blockingTimeout] else [])

/-- The layers that follow from the settings, from the base store outward. -/
def layers (b : Builder) : Except (CacheError κ) (List Layer) :=
  if b.id.isEmpty then .error .missingId
  else b.evictionLayer.map fun l => l :: b.outerLayers

/-- Builds the chain over the base store with the number `base`. -/
def build {α : Type} (b : Builder) (base : Nat) (m : Moment) (g : Ground κ α) :
    Ground κ α × Except (CacheError κ) (Chain κ) :=
  match b.layers with
  | .error e => (g, .error e)
  | .ok layers => Chain.build b.id base b.signal layers m g

end Builder

end LayeredCache
