import LayeredCache.Layer.Basic

/-!
# Chains

A chain is a stack of layers over a base store, under one identifier. A layer that reclaims values
must lie directly on the base store, there is at most one layer that keeps values as bytes, and no
capacity is zero; a list of layers with these properties is a valid chain, and building accepts
exactly those. Building checks the list as a whole first and then stacks the layers one by one, each
on what lies below it: first those that see bytes, on them the layer that makes bytes of values, and
then those that see values.
-/

namespace LayeredCache

/-- A stack of layers over a base store. -/
structure Chain (κ : Type) where
  /-- The identifier of the base store and of all layers. -/
  id : String
  /-- The number of the base store. -/
  base : Nat
  /-- The kinds of the layers, the outermost one first. -/
  kinds : List Kind
  /-- The states of the layers. -/
  stack : Stack κ kinds

namespace Layer

/-- Whether the layer reclaims values. -/
def isReclaiming (l : Layer) : Bool := l.kind = .leasing

/-- Whether the layer has a capacity of zero. -/
def hasZeroCapacity : Layer → Bool
  | lru capacity | fifo capacity => capacity = 0
  | soft hardBound retention => hardBound = 0 || retention = 0
  | weak hardBound _ => hardBound = 0
  | _ => false

/-- Checks a list of layers, written from the base store outward. -/
def validate {κ : Type} (id : String) (layers : List Layer) : Except (CacheError κ) Unit :=
  if (layers.drop 1).any isReclaiming then
    .error (.invalidChain id "soft and weak layers must wrap the base store directly")
  else if 1 < layers.count .serialized then
    .error (.invalidChain id "at most one serialized layer is allowed")
  else if layers.any hasZeroCapacity then
    .error (.invalidChain id "capacities must be greater than 0")
  else .ok ()

end Layer

namespace Chain

variable {κ α : Type}

/-- The chain without layers. -/
def bare (id : String) (base : Nat) : Chain κ := ⟨id, base, [], ()⟩

/-- The chain with one more layer outside. -/
def wrap (c : Chain κ) (l : Layer) (w : Wiring) (m : Moment) : Chain κ :=
  { c with kinds := l.kind :: c.kinds, stack := (l.initial κ w m, c.stack) }

/-- Puts one more layer outside. A layer that reclaims and one that keeps values as bytes have a
place of their own and are refused here. -/
def decorate (c : Chain κ) (l : Layer) (w : Wiring) (m : Moment) :
    Except (CacheError κ) (Chain κ) :=
  if l.isReclaiming || l = .serialized then
    .error (.invalidChain c.id (l.text ++ " cannot be stacked at this position"))
  else .ok (c.wrap l w m)

/-- Puts layers outside one after the other; the first one that is refused counts. -/
def decorateAll (c : Chain κ) (w : Wiring) (m : Moment) :
    List Layer → Except (CacheError κ) (Chain κ)
  | [] => .ok c
  | l :: rest =>
    match c.decorate l w m with
    | .error e => .error e
    | .ok c => c.decorateAll w m rest

/-- Stacks layers on the base store, of which the first one may reclaim. -/
def stackOn (c : Chain κ) (w : Wiring) (m : Moment) :
    List Layer → Except (CacheError κ) (Chain κ)
  | [] => .ok c
  | l :: rest =>
    if l.isReclaiming then (c.wrap l w m).decorateAll w m rest else c.decorateAll w m (l :: rest)

/-- Stacks all layers on the base store. The first layer that keeps values as bytes is the border
between those below it, which see bytes, and those outside it, which see values. -/
def assemble (c : Chain κ) (w : Wiring) (m : Moment) (layers : List Layer) :
    Except (CacheError κ) (Chain κ) :=
  match layers.dropWhile (· ≠ .serialized) with
  | [] => c.stackOn w m layers
  | border :: outer =>
    match c.stackOn w m (layers.takeWhile (· ≠ .serialized)) with
    | .error e => .error e
    | .ok inner => (inner.wrap border w m).decorateAll w m outer

/-- Stacks layers without any check of their order. -/
def compose (c : Chain κ) (m : Moment) (layers : List (Layer × Wiring)) : Chain κ :=
  layers.foldl (fun c l => c.wrap l.1 l.2 m) c

/-- Builds a chain over the base store with the number `base`, and tells the journal. All reclaiming
layers watch one signal, all windows the clock of the machine. -/
def build (id : String) (base : Nat) (signal : Signal) (layers : List Layer) (m : Moment)
    (g : Ground κ α) : Ground κ α × Except (CacheError κ) (Chain κ) :=
  if id.isEmpty then (g, .error .missingId)
  else
    match Layer.validate id layers with
    | .error e => (g, .error e)
    | .ok _ =>
      match (bare id base).assemble { signal := signal } m layers with
      | .error e => (g, .error e)
      | .ok c => (g.note (.built id (Layer.describe layers)), .ok c)

variable [DecidableEq κ] [Codec α]

/-- The operations of a chain. -/
def cache (c : Chain κ) : Cache κ α (Stack κ c.kinds) := Stack.cache c.id c.base c.kinds

/-- The operations of a chain, step by step. -/
def routines (c : Chain κ) : Routines κ α (Stack κ c.kinds) := Stack.routines c.id c.base c.kinds

/-- The operations of a chain are what its steps come to when nobody keeps them waiting. -/
theorem routines_follow (c : Chain κ) : (c.routines : Routines κ α _).Follows c.cache :=
  Stack.routines_follow c.id c.base c.kinds

@[simp] theorem id_cache (c : Chain κ) : (c.cache : Cache κ α _).id = c.id := Stack.id_cache ..

@[simp] theorem base_cache (c : Chain κ) : (c.cache : Cache κ α _).base = c.base :=
  Stack.base_cache ..

omit [DecidableEq κ] in
@[simp] theorem id_wrap (c : Chain κ) (l : Layer) (w : Wiring) (m : Moment) :
    (c.wrap l w m).id = c.id := rfl

omit [DecidableEq κ] in
@[simp] theorem kinds_wrap (c : Chain κ) (l : Layer) (w : Wiring) (m : Moment) :
    (c.wrap l w m).kinds = l.kind :: c.kinds := rfl

end Chain

end LayeredCache
