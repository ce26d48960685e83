import LayeredCache.Key.Basic
import LayeredCache.Random.Generator
import LayeredCache.Transaction.UnitOfWork

/-!
# A seeded workload against one cache

Every lookup asks for a random one of a number of keys, inside a unit of work; a miss writes the
value of the key in the same unit of work. After a fixed number of lookups, and after the last one,
the unit of work ends: about one in twenty is rolled back, the others are committed.
-/

namespace LayeredCache

/-- A workload. -/
structure Workload where
  /-- The number of lookups. -/
  operations : Nat := 10000
  /-- The number of different keys. -/
  keys : Nat := 256
  /-- The seed of the random numbers. -/
  seed : Nat := 42
  /-- The number of lookups in a unit of work; zero counts as one. -/
  transactionSize : Nat := 16
  deriving DecidableEq, Repr

/-- What a workload did. -/
structure WorkloadReport where
  hits : Nat := 0
  misses : Nat := 0
  commits : Nat := 0
  rollbacks : Nat := 0
  /-- The number of stored keys at the end. -/
  size : Nat := 0
  deriving DecidableEq, Repr

/-- The lookups and hits of a workload. -/
def WorkloadReport.hitCount (r : WorkloadReport) : HitCount :=
  { requests := r.hits + r.misses, hits := r.hits }

namespace Workload

/-- The number of lookups in a unit of work, at least one. -/
def batch (w : Workload) : Nat := max w.transactionSize 1

/-- The key with a number. -/
def key (id : Nat) : Key := .ofParts [.str "simulate", .uint (UInt64.ofNat id)]

/-- The value of the key with a number. -/
def value (id : Nat) : String := "value-" ++ toString id

/-- How many of `2 ^ 64` draws end a unit of work without a commit: a twentieth. -/
def rollbackThreshold : UInt64 := 922337203685477632

variable {σ : Type}

/-- The unit of work on one cache. -/
abbrev Work := UnitOfWork Unit Key String

/-- What a run carries from one lookup to the next. -/
structure Run (σ : Type) where
  random : Generator
  work : Work
  report : WorkloadReport := {}
  state : σ
  ground : Ground Key String

/-- Looks the next key up, and writes its value if it was missed. -/
def lookup (c : Cache Key String σ) (m : Moment) (w : Workload) (r : Run σ) :
    Except (CacheError Key × Run σ) (Run σ) :=
  let (id, random) := r.random.below w.keys
  let reply :=
    r.work.fetch (fun _ => c) (m.holding r.work.serials) () c.id (key id) r.state r.ground
  let r := { r with random := random, work := reply.state.1, state := reply.state.2,
                    ground := reply.ground }
  match reply.answer with
  | .error e => .error (e, r)
  | .ok (some _) => .ok { r with report := { r.report with hits := r.report.hits + 1 } }
  | .ok none =>
    .ok { r with
      work := r.work.put () c.id (key id) ⟨r.ground.issued, .plain (value id)⟩
      ground := r.ground.issue
      report := { r.report with misses := r.report.misses + 1 } }

/-- Ends the unit of work. -/
def finish (c : Cache Key String σ) (m : Moment) (r : Run σ) :
    Except (CacheError Key × Run σ) (Run σ) :=
  let (abandoned, random) := r.random.occurs rollbackThreshold
  let r := { r with random := random }
  if abandoned then
    let reply := r.work.rollback (fun _ => c) m r.state r.ground
    .ok { r with work := reply.state.1, state := reply.state.2, ground := reply.ground,
                 report := { r.report with rollbacks := r.report.rollbacks + 1 } }
  else
    let reply := r.work.commit (fun _ => c) m r.state r.ground
    let r := { r with work := reply.state.1, state := reply.state.2, ground := reply.ground }
    match reply.answer with
    | .error e => .error (e, r)
    | .ok _ => .ok { r with report := { r.report with commits := r.report.commits + 1 } }

/-- Makes the lookups that are left, the one with the number `operations - left + 1` first. The
lookup with the number `n` is made at the moment `2 * n`, and a unit of work that ends after it does
so at the next one. -/
def loop (c : Cache Key String σ) (moments : Nat → Moment) (w : Workload) :
    (left : Nat) → Run σ → Except (CacheError Key × Run σ) (Run σ)
  | 0, r => .ok r
  | left + 1, r =>
    let number := w.operations - left
    match lookup c (moments (2 * number)) w r with
    | .error e => .error e
    | .ok r =>
      if number % w.batch = 0 ∨ left = 0 then
        match finish c (moments (2 * number + 1)) r with
        | .error e => .error e
        | .ok r => loop c moments w left r
      else loop c moments w left r

/-- Runs the workload against a cache with the numbers that a generator draws, each call at a moment
of its own. Without keys there is nothing to do. -/
def runFrom (w : Workload) (c : Cache Key String σ) (moments : Nat → Moment) (random : Generator)
    (s : σ) (g : Ground Key String) :
    Reply Key String σ (Except (CacheError Key) WorkloadReport) :=
  if w.keys = 0 then ⟨s, g, .ok {}⟩
  else
    match loop c moments w w.operations
      { random := random, work := {}, state := s, ground := g } with
    | .error (e, r) => ⟨r.state, r.ground, .error e⟩
    | .ok r =>
      let reply := c.size (moments (2 * w.operations + 2)) r.state r.ground
      ⟨reply.state, reply.ground, .ok { r.report with size := reply.answer }⟩

/-- Runs the workload against a cache, all at one moment. -/
def run (w : Workload) (c : Cache Key String σ) (m : Moment) (s : σ) (g : Ground Key String) :
    Reply Key String σ (Except (CacheError Key) WorkloadReport) :=
  w.runFrom c (fun _ => m) (.ofSeed (UInt64.ofNat w.seed)) s g

end Workload

end LayeredCache
