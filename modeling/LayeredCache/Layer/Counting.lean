import LayeredCache.Routine

/-!
# Layers that count hits, and layers that only pass on

The counting layer counts a lookup before it is made and a hit when it is finished, and tells the
ratio of the two after every finished lookup that did not fail. The passing layer hands every call
on; it holds its lock meanwhile, so what lies below it is done by one thread at a time.
-/

namespace LayeredCache

open Routine (below change guarded handle note run_below run_change run_guarded)

variable {κ α σ : Type}

namespace HitCount

/-- Counts a finished lookup and tells the ratio. -/
def settle (id : String) (count : HitCount) (r : Reply κ α σ (Lookup κ α)) :
    Reply κ α (HitCount × σ) (Lookup κ α) :=
  match r.answer with
  | .done (.ok found) =>
    let count := if found.isSome then count.hit else count
    ⟨(count, r.state), r.ground.note (.hitRatio id count), .done (.ok found)⟩
  | answer => ⟨(count, r.state), r.ground, answer⟩

/-- A cache that counts lookups and hits. -/
def onto (d : Cache κ α σ) : Cache κ α (HitCount × σ) where
  id := d.id
  base := d.base
  put m k c s g :=
    let r := d.put m k c s.2 g
    ⟨(s.1, r.state), r.ground, r.answer⟩
  get m k s g := settle d.id s.1.request (d.get m k s.2 g)
  resume m k gate w s g := settle d.id s.1 (d.resume m k gate w s.2 g)
  remove m k s g :=
    let r := d.remove m k s.2 g
    ⟨(s.1, r.state), r.ground, r.answer⟩
  clear m s g :=
    let r := d.clear m s.2 g
    ⟨(s.1, r.state), r.ground, ()⟩
  size m s g :=
    let r := d.size m s.2 g
    ⟨(s.1, r.state), r.ground, r.answer⟩
  release m k s g :=
    let r := d.release m k s.2 g
    ⟨(s.1, r.state), r.ground, ()⟩

/-- The steps of a cache that counts lookups and hits. -/
def routines (d : Routines κ α σ) : Routines κ α (HitCount × σ) where
  id := d.id
  base := d.base
  put k c := below (d.put k c)
  get k := do
    change (·.request)
    match ← below (d.get k) with
    | .error e => return .error e
    | .ok found =>
      let count ← handle fun _ count g =>
        let count := if found.isSome then count.hit else count
        (count, count, g)
      note (.hitRatio d.id count)
      return .ok found
  remove k := below (d.remove k)
  clear := below d.clear
  size := below d.size
  release k := below (d.release k)

theorem routines_follow {d : Routines κ α σ} {c : Cache κ α σ} (h : d.Follows c) :
    (routines d).Follows (onto c) where
  id := h.id
  base := h.base
  put m k x s g := by simp [routines, onto, h.put, Reply.outcome]
  get m k s g := by
    simp only [routines, onto, settle, Process.bind_eq, Process.run_bind, run_change, run_below,
      h.get, h.id, Reply.finished?, Option.bind_some]
    cases (c.get m k s.2 g).answer with
    | waiting gate latch => rfl
    | done found => cases found <;> simp
  remove m k s g := by simp [routines, onto, h.remove, Reply.outcome]
  clear m s g := by simp [routines, onto, h.clear, Reply.outcome]
  size m s g := by simp [routines, onto, h.size, Reply.outcome]
  release m k s g := by simp [routines, onto, h.release, Reply.outcome]

end HitCount

namespace Passing

/-- A reply with the empty state of the passing layer. -/
def lift {ρ : Type} (r : Reply κ α σ ρ) : Reply κ α (Unit × σ) ρ :=
  ⟨((), r.state), r.ground, r.answer⟩

/-- A cache whose calls exclude one another. -/
def onto (d : Cache κ α σ) : Cache κ α (Unit × σ) where
  id := d.id
  base := d.base
  put m k c s g := lift (d.put m k c s.2 g)
  get m k s g := lift (d.get m k s.2 g)
  resume m k gate w s g := lift (d.resume m k gate w s.2 g)
  remove m k s g := lift (d.remove m k s.2 g)
  clear m s g := lift (d.clear m s.2 g)
  size m s g := lift (d.size m s.2 g)
  release m k s g := lift (d.release m k s.2 g)

/-- The steps of a cache whose calls exclude one another. -/
def routines (d : Routines κ α σ) : Routines κ α (Unit × σ) where
  id := d.id
  base := d.base
  put k c := guarded (below (d.put k c))
  get k := guarded (below (d.get k))
  remove k := guarded (below (d.remove k))
  clear := guarded (below d.clear)
  size := guarded (below d.size)
  release k := guarded (below (d.release k))

theorem routines_follow {d : Routines κ α σ} {c : Cache κ α σ} (h : d.Follows c) :
    (routines d).Follows (onto c) where
  id := h.id
  base := h.base
  put m k x s g := by simp [routines, onto, lift, h.put, Reply.outcome]
  get m k s g := by
    simp only [routines, onto, lift, run_guarded, run_below, h.get, Reply.finished?]
    cases (c.get m k s.2 g).answer <;> rfl
  remove m k s g := by simp [routines, onto, lift, h.remove, Reply.outcome]
  clear m s g := by simp [routines, onto, lift, h.clear, Reply.outcome]
  size m s g := by simp [routines, onto, lift, h.size, Reply.outcome]
  release m k s g := by simp [routines, onto, lift, h.release, Reply.outcome]

end Passing

end LayeredCache
