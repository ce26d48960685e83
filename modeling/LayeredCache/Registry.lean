import LayeredCache.Config.Basic

/-!
# Building all caches of a configuration

The caches are built in the order of their names, and the first failure ends the building. A
registry holds caches under their identifiers; a cache replaces the one registered under its
identifier.
-/

namespace LayeredCache

/-- Builds caches in order, each over a base store of its own; the first one has the number
`base`. -/
def Chain.buildAll {α : Type} (m : Moment) (base : Nat) :
    List (String × CacheSettings) → Ground Key α →
      Ground Key α × Except (CacheError Key) (List (Chain Key))
  | [], g => (g, .ok [])
  | (name, settings) :: rest, g =>
    match settings.toBuilder name with
    | .error e => (g, .error e)
    | .ok builder =>
      match builder.build base m g with
      | (g, .error e) => (g, .error e)
      | (g, .ok chain) =>
        match buildAll m (base + 1) rest g with
        | (g, .error e) => (g, .error e)
        | (g, .ok chains) => (g, .ok (chain :: chains))

/-- Caches, given as references `ρ`, under their identifiers. -/
structure Registry (ρ : Type) where
  caches : Catalog ρ := .empty

namespace Registry

variable {ρ : Type}

/-- The identifiers in ascending order. -/
def ids (r : Registry ρ) : List String := r.caches.names

/-- The number of caches. -/
def size (r : Registry ρ) : Nat := r.caches.size

/-- Whether there is no cache. -/
def isEmpty (r : Registry ρ) : Bool := r.caches.isEmpty

/-- The cache of an identifier. -/
def find? (r : Registry ρ) (id : String) : Option ρ := r.caches.find? id

/-- Registers a cache; the answer is the one that it replaces. -/
def register (r : Registry ρ) (id : String) (cache : ρ) : Registry ρ × Option ρ :=
  (⟨r.caches.insert id cache⟩, r.find? id)

/-- Registers chains under their identifiers; the references are numbers from `first` upward. -/
def ofChains {κ : Type} (first : Nat) (chains : List (Chain κ)) : Registry Nat :=
  (chains.zipIdx first).foldl (fun r c => (r.register c.1.id c.2).1) {}

/-- Builds the caches of a configuration and registers them, unless one cannot be built. The first
one has the number `base`. -/
def load {α : Type} (m : Moment) (base : Nat) (config : Config) (g : Ground Key α) :
    Ground Key α × Except (CacheError Key) (List (Chain Key) × Registry Nat) :=
  match Chain.buildAll m base config.caches.entries g with
  | (g, .error e) => (g, .error e)
  | (g, .ok chains) => (g, .ok (chains, ofChains base chains))

/-- What a registry shows of itself. -/
structure Report where
  ids : List String
  size : Nat
  isEmpty : Bool
  deriving DecidableEq, Repr

/-- What the registry shows. -/
def report (r : Registry ρ) : Report := ⟨r.ids, r.size, r.isEmpty⟩

end Registry

end LayeredCache
