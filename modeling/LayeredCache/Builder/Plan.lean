import LayeredCache.Config.Cache

/-!
# Plans for builders and layers

A plan says which settings are made on the way to a builder or a layer; what it does not say keeps
its default. Settings are made in a fixed order, and the first one that fails ends it.
-/

namespace LayeredCache

/-- The settings to make on a builder. -/
structure BuilderPlan where
  id : String
  /-- The configured settings to start from. -/
  config : Option CacheSettings := none
  /-- The name of a base store. -/
  implementation : Option String := none
  /-- The name of an eviction policy. -/
  eviction : Option String := none
  size : Option Nat := none
  /-- The interval between flushes to set, which may be none. -/
  flushInterval : Option (Option Span) := none
  readWrite : Option Bool := none
  blocking : Option Bool := none
  /-- The time to wait to set, which may be none. -/
  blockingTimeout : Option (Option Span) := none
  properties : List (String × String) := []
  signal : Signal := .silent

namespace BuilderPlan

/-- Makes an optional setting. -/
def setting {α : Type} (value : Option α) (f : Builder → α → Builder) (b : Builder) : Builder :=
  match value with
  | none => b
  | some v => f b v

/-- The builder after all settings were made. -/
def resolve (p : BuilderPlan) : Except (CacheError Key) Builder := do
  let b ← match p.config with
    | none => .ok { id := p.id }
    | some config => config.toBuilder p.id
  let b ← match p.implementation with
    | none => .ok b
    | some name => (Implementation.parse name).map fun i => { b with implementation := i }
  let b ← match p.eviction with
    | none => .ok b
    | some name => (Eviction.parse name).map fun e => { b with eviction := e }
  let b := setting p.size (fun b n => { b with size := some n }) b
  let b := setting p.flushInterval Builder.withFlushInterval b
  let b := setting p.readWrite (fun b yes => { b with readWrite := yes }) b
  let b := setting p.blocking (fun b yes => { b with blocking := yes }) b
  let b := setting p.blockingTimeout Builder.withBlockingTimeout b
  let b := p.properties.foldl (fun b e => b.withProperty e.1 e.2) b
  .ok { b with signal := p.signal }

end BuilderPlan

/-- A layer to stack, of which some settings may be left to their defaults. -/
inductive LayerPlan where
  | lru (capacity : Option Nat)
  | fifo (capacity : Option Nat)
  | soft (hardBound retention : Option Nat) (signal : Option String)
  | weak (hardBound every : Option Nat) (signal : Option String)
  | scheduled (interval : Option Span) (clock : String)
  | serialized
  | logging
  | synchronized
  | blocking (timeout : Option Span)
  deriving DecidableEq, Repr

namespace LayerPlan

/-- The signal of a name, or one that nobody can raise. -/
def signalOf : Option String → Signal
  | none => .silent
  | some name => .shared name

/-- The layer of a plan and what it watches. A reclaiming layer without all its bounds is one with
defaults, and watches a signal of its own; a window without an interval of its own reads the clock
of the machine. -/
def resolve : LayerPlan → Layer × Wiring
  | lru capacity => (.lru (capacity.getD defaultCapacity), {})
  | fifo capacity => (.fifo (capacity.getD defaultCapacity), {})
  | soft none _ _ =>
    (.soft Leasing.defaultHardBound (Leasing.defaultHardBound * Leasing.retentionFactor), {})
  | soft (some bound) retention signal =>
    (.soft bound (retention.getD (bound * Leasing.retentionFactor)), { signal := signalOf signal })
  | weak none _ _ => (.weak Leasing.defaultHardBound Leasing.defaultEvery, {})
  | weak (some bound) none _ => (.weak bound Leasing.defaultEvery, {})
  | weak (some bound) (some every) signal => (.weak bound every, { signal := signalOf signal })
  | scheduled none _ => (.scheduled Window.defaultInterval, { clock := .system })
  | scheduled (some interval) clock => (.scheduled interval, { clock := .manual clock })
  | serialized => (.serialized, {})
  | logging => (.logging, {})
  | synchronized => (.synchronized, {})
  | blocking timeout => (.blocking timeout, {})

end LayerPlan

end LayeredCache
