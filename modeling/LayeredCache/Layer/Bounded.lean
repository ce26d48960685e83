import LayeredCache.Recency
import LayeredCache.Routine

/-!
# Layers with a bound on the number of keys

Both layers watch the keys that pass and remove a key from below when they track more than their
capacity, at most one per write. The layer that evicts by recency counts reads and writes as uses
and evicts after a write has succeeded. The layer that evicts in the order of writes queues the key
of every write again, whether or not it is queued already, and evicts before it writes; a removal
leaves the queue as it is. Neither keeps other threads waiting, so an eviction and the write it
belongs to are steps of their own.
-/

namespace LayeredCache

open Routine (below change handle note run_below run_change run_handle)

/-- The number of keys that a bounded layer tracks unless it is told otherwise. -/
def defaultCapacity : Nat := 1024

variable {κ α σ : Type} [DecidableEq κ]

/-- A cache that evicts the key that was used least recently. -/
def Recency.onto (d : Cache κ α σ) : Cache κ α (Recency κ × σ) where
  id := d.id
  base := d.base
  put m k c s g :=
    let r := d.put m k c s.2 g
    match r.answer with
    | .error e => ⟨(s.1, r.state), r.ground, .error e⟩
    | .ok _ =>
      match (s.1.touch k).evictEldest with
      | (index, none) => ⟨(index, r.state), r.ground, .ok ()⟩
      | (index, some eldest) =>
        let r := d.remove m eldest r.state (r.ground.note (.evicting .lru d.id eldest))
        ⟨(index, r.state), r.ground, .ok ()⟩
  get m k s g :=
    let r := d.get m k s.2 g
    ⟨(s.1.refresh k, r.state), r.ground, r.answer⟩
  resume m k gate w s g :=
    let r := d.resume m k gate w s.2 g
    ⟨(s.1, r.state), r.ground, r.answer⟩
  remove m k s g :=
    let r := d.remove m k s.2 g
    ⟨(s.1.forget k, r.state), r.ground, r.answer⟩
  clear m s g :=
    let r := d.clear m s.2 g
    ⟨(s.1.clear, r.state), r.ground, ()⟩
  size m s g :=
    let r := d.size m s.2 g
    ⟨(s.1, r.state), r.ground, r.answer⟩
  release m k s g :=
    let r := d.release m k s.2 g
    ⟨(s.1, r.state), r.ground, ()⟩

/-- The steps of a cache that evicts the key that was used least recently. -/
def Recency.routines (d : Routines κ α σ) : Routines κ α (Recency κ × σ) where
  id := d.id
  base := d.base
  put k c := do
    match ← below (d.put k c) with
    | .error e => return .error e
    | .ok _ =>
      match ← handle fun _ index g =>
        let (index, eldest) := (index.touch k).evictEldest
        (eldest, index, g) with
      | none => return .ok ()
      | some eldest =>
        note (.evicting .lru d.id eldest)
        let _ ← below (d.remove eldest)
        return .ok ()
  get k := do
    change (·.refresh k)
    below (d.get k)
  remove k := do
    change (·.forget k)
    below (d.remove k)
  clear := do
    below d.clear
    change (·.clear)
  size := below d.size
  release k := below (d.release k)

theorem Recency.routines_follow {d : Routines κ α σ} {c : Cache κ α σ} (h : d.Follows c) :
    (Recency.routines d).Follows (Recency.onto c) where
  id := h.id
  base := h.base
  put m k x s g := by
    simp only [routines, onto, Process.bind_eq, Process.run_bind, run_below, h.put, h.id,
      Reply.outcome, Option.map_some, Option.bind_some]
    cases (c.put m k x s.2 g).answer with
    | error e => rfl
    | ok _ =>
      simp only [Process.run_bind, run_handle, Option.bind_some]
      rcases (s.1.touch k).evictEldest with ⟨_, _ | _⟩
      · rfl
      · simp [h.remove, Reply.outcome]
  get m k s g := by
    simp only [routines, onto, Process.bind_eq, Process.run_bind, run_change, run_below, h.get,
      Reply.finished?, Option.bind_some]
    cases (c.get m k s.2 g).answer <;> rfl
  remove m k s g := by simp [routines, onto, h.remove, Reply.outcome]
  clear m s g := by simp [routines, onto, h.clear, Reply.outcome]
  size m s g := by simp [routines, onto, h.size, Reply.outcome]
  release m k s g := by simp [routines, onto, h.release, Reply.outcome]

/-- The keys of the writes that were not yet evicted, the first one in front. -/
structure WriteQueue (κ : Type) where
  capacity : Nat
  keys : List κ := []
  deriving DecidableEq

namespace WriteQueue

/-- Queues a key and takes out the first one if there are more than the capacity. -/
def cycle (q : WriteQueue κ) (k : κ) : WriteQueue κ × Option κ :=
  let keys := q.keys ++ [k]
  if q.capacity < keys.length then ({ q with keys := keys.drop 1 }, keys.head?)
  else ({ q with keys := keys }, none)

/-- Changes the capacity; keys above it are evicted later. -/
def setCapacity (q : WriteQueue κ) (capacity : Nat) : WriteQueue κ :=
  { q with capacity := capacity }

/-- A cache that evicts the key that was written first. -/
def onto (d : Cache κ α σ) : Cache κ α (WriteQueue κ × σ) where
  id := d.id
  base := d.base
  put m k c s g :=
    match s.1.cycle k with
    | (queue, none) =>
      let r := d.put m k c s.2 g
      ⟨(queue, r.state), r.ground, r.answer⟩
    | (queue, some oldest) =>
      let r := d.remove m oldest s.2 (g.note (.evicting .fifo d.id oldest))
      let r := d.put m k c r.state r.ground
      ⟨(queue, r.state), r.ground, r.answer⟩
  get m k s g :=
    let r := d.get m k s.2 g
    ⟨(s.1, r.state), r.ground, r.answer⟩
  resume m k gate w s g :=
    let r := d.resume m k gate w s.2 g
    ⟨(s.1, r.state), r.ground, r.answer⟩
  remove m k s g :=
    let r := d.remove m k s.2 g
    ⟨(s.1, r.state), r.ground, r.answer⟩
  clear m s g :=
    let r := d.clear m s.2 g
    ⟨({ s.1 with keys := [] }, r.state), r.ground, ()⟩
  size m s g :=
    let r := d.size m s.2 g
    ⟨(s.1, r.state), r.ground, r.answer⟩
  release m k s g :=
    let r := d.release m k s.2 g
    ⟨(s.1, r.state), r.ground, ()⟩

/-- The steps of a cache that evicts the key that was written first. -/
def routines (d : Routines κ α σ) : Routines κ α (WriteQueue κ × σ) where
  id := d.id
  base := d.base
  put k c := do
    match ← handle fun _ queue g =>
      let (queue, oldest) := queue.cycle k
      (oldest, queue, g) with
    | none => below (d.put k c)
    | some oldest =>
      note (.evicting .fifo d.id oldest)
      let _ ← below (d.remove oldest)
      below (d.put k c)
  get k := below (d.get k)
  remove k := below (d.remove k)
  clear := do
    below d.clear
    change fun queue => { queue with keys := [] }
  size := below d.size
  release k := below (d.release k)

omit [DecidableEq κ] in
theorem routines_follow {d : Routines κ α σ} {c : Cache κ α σ} (h : d.Follows c) :
    (routines d).Follows (onto c) where
  id := h.id
  base := h.base
  put m k x s g := by
    simp only [routines, onto, Process.bind_eq, Process.run_bind, run_handle, h.id,
      Option.bind_some]
    rcases s.1.cycle k with ⟨_, _ | _⟩
    · simp [h.put, Reply.outcome]
    · simp [h.put, h.remove, Reply.outcome]
  get m k s g := by
    simp only [routines, onto, run_below, h.get, Reply.finished?]
    cases (c.get m k s.2 g).answer <;> rfl
  remove m k s g := by simp [routines, onto, h.remove, Reply.outcome]
  clear m s g := by simp [routines, onto, h.clear, Reply.outcome]
  size m s g := by simp [routines, onto, h.size, Reply.outcome]
  release m k s g := by simp [routines, onto, h.release, Reply.outcome]

omit [DecidableEq κ] in
/-- Writing never lets the queue grow beyond the capacity. -/
theorem length_keys_cycle_le (q : WriteQueue κ) (k : κ) (h : q.keys.length ≤ q.capacity) :
    (q.cycle k).1.keys.length ≤ q.capacity := by
  simp only [cycle]
  split <;> simp at * <;> omega

end WriteQueue

end LayeredCache
