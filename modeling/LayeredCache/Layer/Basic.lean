import LayeredCache.Layer.Bounded
import LayeredCache.Layer.Counting
import LayeredCache.Layer.Latching
import LayeredCache.Layer.Leasing
import LayeredCache.Layer.Packing
import LayeredCache.Layer.Window

/-!
# Layers and stacks of layers

A layer is a kind with its settings. The kind decides what state the layer keeps and how it turns a
cache into another one, as a whole and step by step; a stack of kinds keeps the states of its layers
and the base store has none of its own. Lists of layers are written from the base store outward; a
stack is read from outside.
-/

namespace LayeredCache

/-- The kinds of layers. -/
inductive Kind where
  | lru
  | fifo
  | leasing
  | window
  | packing
  | counting
  | passing
  | latching
  deriving DecidableEq, Repr

/-- A layer with its settings. -/
inductive Layer where
  /-- Evicts the key that was used least recently. -/
  | lru (capacity : Nat)
  /-- Evicts the key that was written first. -/
  | fifo (capacity : Nat)
  /-- Lets values go under memory pressure and beyond a number of them. -/
  | soft (hardBound retention : Nat)
  /-- Lets values go under memory pressure and every so many operations. -/
  | weak (hardBound every : Nat)
  /-- Clears after a span of time. -/
  | scheduled (interval : Span)
  /-- Keeps values as bytes. -/
  | serialized
  /-- Counts hits. -/
  | logging
  /-- Keeps calls apart. -/
  | synchronized
  /-- Lets one thread populate a key, others wait so long or forever. -/
  | blocking (timeout : Option Span)
  deriving DecidableEq, Repr

namespace Layer

/-- The kind of a layer. -/
def kind : Layer → Kind
  | lru _ => .lru
  | fifo _ => .fifo
  | soft .. | weak .. => .leasing
  | scheduled _ => .window
  | serialized => .packing
  | logging => .counting
  | synchronized => .passing
  | blocking _ => .latching

/-- The text of a layer. -/
def text : Layer → String
  | lru capacity => "lru(capacity=" ++ toString capacity ++ ")"
  | fifo capacity => "fifo(capacity=" ++ toString capacity ++ ")"
  | soft hardBound retention =>
    "soft(hard_refs=" ++ toString hardBound ++ ", retention=" ++ toString retention ++ ")"
  | weak hardBound every =>
    "weak(hard_refs=" ++ toString hardBound ++ ", collect_every=" ++ toString every ++ ")"
  | scheduled interval => "scheduled(interval=" ++ Span.text interval ++ ")"
  | serialized => "serialized"
  | logging => "logging"
  | synchronized => "synchronized"
  | blocking none => "blocking"
  | blocking (some timeout) => "blocking(timeout=" ++ Span.text timeout ++ ")"

/-- The text of a chain of layers over a base store. -/
def describe (layers : List Layer) : String :=
  layers.foldl (fun s l => s ++ " -> " ++ l.text) "perpetual"

end Layer

/-- The state that a layer of a kind keeps. -/
def Kind.State (κ : Type) : Kind → Type
  | lru => Recency κ
  | fifo => WriteQueue κ
  | leasing => Leasing κ
  | window => Window
  | packing => Unit
  | counting => HitCount
  | passing => Unit
  | latching => Gate κ

/-- What a layer watches when it is made: its clock and its signal, and what they show. -/
structure Wiring where
  clock : Clock := .system
  signal : Signal := .silent

/-- The state of a new layer. -/
def Layer.initial (κ : Type) (w : Wiring) (m : Moment) : (l : Layer) → l.kind.State κ
  | lru capacity => (Recency.ofCapacity capacity : Recency κ)
  | fifo capacity => ({ capacity := capacity } : WriteQueue κ)
  | soft hardBound retention =>
    ({ retention := .soft retention, signal := w.signal, seen := m.pressure w.signal,
       hardBound := hardBound } : Leasing κ)
  | weak hardBound every =>
    ({ retention := .weak every 0, signal := w.signal, seen := m.pressure w.signal,
       hardBound := hardBound } : Leasing κ)
  | scheduled interval => (⟨interval, w.clock, m.time w.clock⟩ : Window)
  | serialized => ()
  | logging => ({} : HitCount)
  | synchronized => ()
  | blocking timeout => ({ timeout := timeout } : Gate κ)

variable {κ α σ : Type} [DecidableEq κ] [Codec α]

/-- The cache that a layer of a kind makes of the cache below it. -/
def Kind.onto : (kind : Kind) → Cache κ α σ → Cache κ α (kind.State κ × σ)
  | lru, d => Recency.onto d
  | fifo, d => WriteQueue.onto d
  | leasing, d => Leasing.onto d
  | window, d => Window.onto d
  | packing, d => Packing.onto d
  | counting, d => HitCount.onto d
  | passing, d => Passing.onto d
  | latching, d => Gate.onto d

/-- The steps of the cache that a layer of a kind makes of the cache below it. -/
def Kind.routines : (kind : Kind) → Routines κ α σ → Routines κ α (kind.State κ × σ)
  | lru, d => Recency.routines d
  | fifo, d => WriteQueue.routines d
  | leasing, d => Leasing.routines d
  | window, d => Window.routines d
  | packing, d => Packing.routines d
  | counting, d => HitCount.routines d
  | passing, d => Passing.routines d
  | latching, d => Gate.routines d

/-- The states of a stack of layers, the outermost one first. -/
def Stack (κ : Type) : List Kind → Type
  | [] => Unit
  | kind :: kinds => kind.State κ × Stack κ kinds

/-- The cache that a stack of layers makes of a base store. -/
def Stack.cache (id : String) (base : Nat) : (kinds : List Kind) → Cache κ α (Stack κ kinds)
  | [] => Cache.bare id base
  | kind :: kinds => kind.onto (Stack.cache id base kinds)

/-- The steps of the cache that a stack of layers makes of a base store. -/
def Stack.routines (id : String) (base : Nat) :
    (kinds : List Kind) → Routines κ α (Stack κ kinds)
  | [] => Routines.bare id base
  | kind :: kinds => kind.routines (Stack.routines id base kinds)

/-- A layer over steps that follow a cache follows the layer over the cache. -/
theorem Kind.routines_follow (kind : Kind) {d : Routines κ α σ} {c : Cache κ α σ}
    (h : d.Follows c) : (kind.routines d).Follows (kind.onto c) := by
  cases kind
  · exact Recency.routines_follow h
  · exact WriteQueue.routines_follow h
  · exact Leasing.routines_follow h
  · exact Window.routines_follow h
  · exact Packing.routines_follow h
  · exact HitCount.routines_follow h
  · exact Passing.routines_follow h
  · exact Gate.routines_follow h

/-- The steps of a stack come to the operations of the stack. -/
theorem Stack.routines_follow (id : String) (base : Nat) (kinds : List Kind) :
    (Stack.routines id base kinds : Routines κ α _).Follows (Stack.cache id base kinds) := by
  induction kinds with
  | nil => exact Routines.bare_follows id base
  | cons kind kinds ih => exact kind.routines_follow ih

theorem id_onto (kind : Kind) (d : Cache κ α σ) : (kind.onto d).id = d.id := by cases kind <;> rfl

theorem base_onto (kind : Kind) (d : Cache κ α σ) : (kind.onto d).base = d.base := by
  cases kind <;> rfl

/-- Every layer of a stack reports the identifier of the base store. -/
@[simp] theorem Stack.id_cache (id : String) (base : Nat) (kinds : List Kind) :
    (Stack.cache id base kinds : Cache κ α _).id = id := by
  induction kinds with
  | nil => rfl
  | cons kind kinds ih => exact (id_onto kind _).trans ih

@[simp] theorem Stack.base_cache (id : String) (base : Nat) (kinds : List Kind) :
    (Stack.cache id base kinds : Cache κ α _).base = base := by
  induction kinds with
  | nil => rfl
  | cons kind kinds ih => exact (base_onto kind _).trans ih

end LayeredCache
