import LayeredCache.Ground

/-!
# Caches and their operations

A cache is a family of operations on a private state `σ` and on the ground. Every layer turns a
cache into another one, so an operation of a stack of layers is what the layers make of the
operations of the base store, and a law of a layer can be stated over any cache below it.

A lookup may have to wait until another thread has populated the key. It then stops where it waits,
and the caller can later let it go on or let it give up.
-/

namespace LayeredCache

/-- What an operation leaves: the private state, the ground, and the answer. -/
structure Reply (κ α σ ρ : Type) where
  state : σ
  ground : Ground κ α
  answer : ρ

/-- The answer of a write. -/
abbrev Written (κ : Type) := Except (CacheError κ) Unit

/-- The answer of a finished lookup. -/
abbrev Found (κ α : Type) := Except (CacheError κ) (Option (Cell α))

/-- The answer of a lookup. -/
inductive Lookup (κ α : Type) where
  /-- The lookup is finished. -/
  | done (found : Found κ α)
  /-- The lookup waits for a latch of a blocking layer; `gate` blocking layers lie above that
  one. -/
  | waiting (gate latch : Nat)

/-- A cache with private state `σ`, keys `κ` and values `α`. -/
structure Cache (κ α σ : Type) where
  /-- The identifier. -/
  id : String
  /-- The number of the base store below all layers. -/
  base : Nat
  /-- Stores a cell. -/
  put : Moment → κ → Cell α → σ → Ground κ α → Reply κ α σ (Written κ)
  /-- Looks a key up. -/
  get : Moment → κ → σ → Ground κ α → Reply κ α σ (Lookup κ α)
  /-- Goes on with a lookup that waits in the blocking layer below `gate` others. -/
  resume : Moment → κ → (gate : Nat) → Wake → σ → Ground κ α → Reply κ α σ (Lookup κ α)
  /-- Removes a key. -/
  remove : Moment → κ → σ → Ground κ α → Reply κ α σ (Option (Cell α))
  /-- Removes every key. -/
  clear : Moment → σ → Ground κ α → Reply κ α σ Unit
  /-- Counts the stored keys. -/
  size : Moment → σ → Ground κ α → Reply κ α σ Nat
  /-- Says that a key that was missed will not be populated. -/
  release : Moment → κ → σ → Ground κ α → Reply κ α σ Unit

namespace Cache

variable {κ α σ : Type}

/-- Looks a key up for a caller that cannot be woken: a lookup that would wait gives up at once. -/
def fetch (c : Cache κ α σ) (m : Moment) (k : κ) (s : σ) (g : Ground κ α) :
    Reply κ α σ (Found κ α) :=
  let r := c.get m k s g
  match r.answer with
  | .done found => ⟨r.state, r.ground, found⟩
  | .waiting gate _ =>
    let r := c.resume m k gate .expired r.state r.ground
    match r.answer with
    | .done found => ⟨r.state, r.ground, found⟩
    | .waiting .. => ⟨r.state, r.ground, .error (.lockTimeout c.id k 0)⟩

/-- Removes keys one after the other. -/
def removeAll (c : Cache κ α σ) (m : Moment) : List κ → σ → Ground κ α → σ × Ground κ α
  | [], s, g => (s, g)
  | k :: rest, s, g =>
    let r := c.remove m k s g
    c.removeAll m rest r.state r.ground

/-- Releases keys one after the other. -/
def releaseAll (c : Cache κ α σ) (m : Moment) : List κ → σ → Ground κ α → σ × Ground κ α
  | [], s, g => (s, g)
  | k :: rest, s, g =>
    let r := c.release m k s g
    c.releaseAll m rest r.state r.ground

variable [DecidableEq κ]

/-- The base store: a table of cells without a bound. -/
def bare (id : String) (base : Nat) : Cache κ α Unit where
  id := id
  base := base
  put _ k c s g := ⟨s, g.setStore base ((g.store base).insert k c), .ok ()⟩
  get _ k s g := ⟨s, g, .done (.ok ((g.store base).find? k))⟩
  resume _ _ _ _ s g := ⟨s, g, .done (.ok none)⟩
  remove _ k s g :=
    match (g.store base).find? k with
    | none => ⟨s, g, none⟩
    | some c => ⟨s, g.setStore base ((g.store base).erase k), some c⟩
  clear _ s g := ⟨s, g.setStore base .empty, ()⟩
  size _ s g := ⟨s, g, (g.store base).size⟩
  release _ _ s g := ⟨s, g, ()⟩

end Cache

end LayeredCache
