import LayeredCache.Routine
import Std.Data.HashSet

/-!
# Layers that let values go

A reclaiming layer stores every instance under a lease. The lease is pinned at first and keeps the
instance alive; a collection unpins every lease of the layer. An instance whose lease is not pinned
lives on as long as somebody else holds it: a caller, another cell, or the layer's own queue of the
instances that were read last. Before each operation the layer removes the cells whose instance
nobody holds.

A soft layer also unpins its oldest lease when it has more than a number of them; a weak layer runs
a collection every so many operations. Both collect when their signal was raised.
-/

namespace LayeredCache

/-- How long a reclaiming layer keeps its leases pinned. -/
inductive Retention where
  /-- Until the signal is raised or more than `limit` leases followed. -/
  | soft (limit : Nat)
  /-- Until the signal is raised or the number of operations, `operations` so far, reaches a
  multiple of `every`; zero is no such number. -/
  | weak (every operations : Nat)
  deriving DecidableEq, Repr

/-- The state of a reclaiming layer. -/
structure Leasing (κ : Type) where
  retention : Retention
  /-- The signal that the layer watches. -/
  signal : Signal
  /-- The generation of the signal that the layer saw last. -/
  seen : Nat
  /-- The greatest number of instances that the layer holds because they were read. -/
  hardBound : Nat
  /-- The instances that were read last, the latest one at the end. -/
  hardLinks : List Nat := []
  /-- The lease of each key. -/
  registry : Table κ Nat := .empty
  /-- The leases that count against the limit, the oldest one in front. -/
  pins : List (κ × Nat) := []

namespace Leasing

open Routine (below change forEach guarded handle issue note own run_below run_change
  run_guarded run_handle run_issue)

variable {κ α σ : Type}

/-- The number of instances that a layer holds because they were read, unless it is told
otherwise. -/
def defaultHardBound : Nat := 256

/-- The number of operations between two collections, unless a layer is told otherwise. -/
def defaultEvery : Nat := 64

/-- The limit of a soft layer for one instance that it may hold, unless it is told otherwise. -/
def retentionFactor : Nat := 8

/-- Whether somebody holds an instance. -/
def holds (l : Leasing κ) (m : Moment) (g : Ground κ α) (serial : Nat) : Bool :=
  l.hardLinks.contains serial || m.held serial || g.keeps serial

/-- Whether the instance of a cell can still be handed out. -/
def reaches (l : Leasing κ) (m : Moment) (g : Ground κ α) (c : Cell α) : Bool :=
  c.keeps || l.holds m g c.item.serial

/-- Remembers that an instance was read. -/
def remember (l : Leasing κ) (serial : Nat) : Leasing κ :=
  let links := l.hardLinks ++ [serial]
  { l with hardLinks := if l.hardBound < links.length then links.drop 1 else links }

/-- Changes the number of instances that the layer may hold, and lets the oldest ones go. -/
def setHardBound (l : Leasing κ) (bound : Nat) : Leasing κ :=
  { l with hardBound := bound, hardLinks := l.hardLinks.drop (l.hardLinks.length - bound) }

/-- The state after the layer has seen a moment, and whether a collection is due: because of
pressure, or by the number of operations. -/
def observe (l : Leasing κ) (m : Moment) : Leasing κ × Bool × Bool :=
  let generation := m.pressure l.signal
  let pressured := decide (l.seen ≠ generation)
  let l := { l with seen := generation }
  match l.retention with
  | .soft _ => (l, pressured, false)
  | .weak every operations =>
    if every = 0 then (l, pressured, false)
    else ({ l with retention := .weak every (operations + 1) }, pressured,
      decide ((operations + 1) % every = 0))

/-- Lets every instance go that was read, and forgets which leases count against the limit. -/
def letGo (l : Leasing κ) : Leasing κ := { l with hardLinks := [], pins := [] }

/-- Forgets the lease of every key. -/
def forgetAll (l : Leasing κ) : Leasing κ := { l with registry := .empty }

variable [DecidableEq κ]

/-- Registers the lease of a key. -/
def register (l : Leasing κ) (k : κ) (serial : Nat) : Leasing κ :=
  { l with registry := l.registry.insert k serial }

/-- Forgets the lease of a key. -/
def forget (l : Leasing κ) (k : κ) : Leasing κ := { l with registry := l.registry.erase k }

/-- Whether a cell is stored under a lease of this layer. -/
def owns (l : Leasing κ) (k : κ) (c : Cell α) : Bool :=
  match l.registry.find? k with
  | none => false
  | some serial => c.isUnder serial

/-- Unpins one lease if its cell is still stored. -/
def unpin (base : Nat) (g : Ground κ α) (k : κ) (serial : Nat) : Ground κ α :=
  match (g.store base).find? k with
  | none => g
  | some c =>
    if c.isUnder serial then g.setStore base ((g.store base).modify k Cell.unpin) else g

/-- Whether no other lease than that of the cell is the one of the key. -/
def isCurrent (l : Leasing κ) (k : κ) (c : Cell α) : Bool := (l.registry.find? k).all c.isUnder

/-- Unpins every lease of the layer, and counts those that were pinned. -/
def unpinAll (base : Nat) (l : Leasing κ) (g : Ground κ α) : Ground κ α × Nat :=
  let pinned (e : κ × Cell α) : Bool := e.2.lease.any (·.pinned) && l.owns e.1 e.2
  let cells := (g.store base).entries
  (g.setStore base ⟨cells.map fun e => if pinned e then (e.1, e.2.unpin) else e⟩,
    cells.countP pinned)

/-- Forgets which leases count against the limit. -/
def forgetPins (l : Leasing κ) : Leasing κ := { l with pins := [] }

/-- Runs a collection; the answer is the number of leases that were pinned. -/
def collect (base : Nat) (l : Leasing κ) (g : Ground κ α) : Leasing κ × Ground κ α × Nat :=
  (l.forgetPins, unpinAll base l g)

/-- Runs a collection if one is due. -/
def attend (d : Cache κ α σ) (m : Moment) (l : Leasing κ) (g : Ground κ α) :
    Leasing κ × Ground κ α :=
  match l.observe m with
  | (l, pressured, scheduled) =>
    if pressured || scheduled then
      match collect d.base l g with
      | (l, g, pins) => (l, g.note (.collected d.id pressured pins))
    else (l, g)

/-- Whether a cell is one of the layer and nobody holds its instance. -/
def abandons (l : Leasing κ) (m : Moment) (g : Ground κ α) (k : κ) (c : Cell α) : Bool :=
  !c.keeps && !l.holds m g c.item.serial && l.owns k c

/-- Forgets the leases that are stored no more and those whose instance nobody holds; gives the keys
of the latter. A lease is stored under one key only, so its serial number tells whether it is
stored. -/
def sweep (base : Nat) (m : Moment) (l : Leasing κ) (g : Ground κ α) : List κ × Leasing κ :=
  let (gone, kept) := (g.store base).entries.partition fun e => l.abandons m g e.1 e.2
  let leases := Std.HashSet.ofList (kept.filterMap (·.2.lease.map (·.serial)))
  (gone.map (·.1), { l with registry := ⟨l.registry.entries.filter (leases.contains ·.2)⟩ })

/-- Tells that cells were removed, if some were. -/
def notePurged (id : String) (keys : List κ) (g : Ground κ α) : Ground κ α :=
  if keys.isEmpty then g else g.note (.purged id keys.length)

/-- Runs a collection if one is due and removes the cells whose instance nobody holds; counts
them. -/
def purge (d : Cache κ α σ) (m : Moment) (s : Leasing κ × σ) (g : Ground κ α) :
    Reply κ α (Leasing κ × σ) Nat :=
  let (l, g) := attend d m s.1 g
  let (keys, l) := l.sweep d.base m g
  let (inner, g) := d.removeAll m keys s.2 g
  ⟨(l, inner), notePurged d.id keys g, keys.length⟩

/-- Queues a new lease, and unpins the oldest ones above the limit. -/
def track (base : Nat) (l : Leasing κ) (k : κ) (serial : Nat) (g : Ground κ α) :
    Leasing κ × Ground κ α :=
  match l.retention with
  | .weak .. => (l, g)
  | .soft limit =>
    let pins := l.pins ++ [(k, serial)]
    let excess := pins.length - limit
    ({ l with pins := pins.drop excess },
      (pins.take excess).foldl (fun g p => unpin base g p.1 p.2) g)

/-- What the layer does with a finished lookup: an instance that somebody holds is remembered and
handed on without its lease, a cell whose instance is gone is removed unless another one has taken
its place. -/
def settle (d : Cache κ α σ) (m : Moment) (k : κ) (l : Leasing κ) (r : Reply κ α σ (Lookup κ α)) :
    Reply κ α (Leasing κ × σ) (Lookup κ α) :=
  match r.answer with
  | .done (.ok (some c)) =>
    if l.reaches m r.ground c then
      ⟨(l.remember c.item.serial, r.state), r.ground, .done (.ok (some { item := c.item }))⟩
    else if l.isCurrent k c then
      let r := d.remove m k r.state r.ground
      ⟨(l.forget k, r.state), r.ground, .done (.ok none)⟩
    else ⟨(l, r.state), r.ground, .done (.ok none)⟩
  | answer => ⟨(l, r.state), r.ground, answer⟩

/-- A cache that lets go of instances that nobody holds. -/
def onto (d : Cache κ α σ) : Cache κ α (Leasing κ × σ) where
  id := d.id
  base := d.base
  put m k c s g :=
    let p := purge d m s g
    let serial := p.ground.issued
    let r := d.put m k { c with lease := some ⟨serial, true⟩ } p.state.2 p.ground.issue
    match r.answer with
    | .error e => ⟨(p.state.1, r.state), r.ground, .error e⟩
    | .ok _ =>
      match track d.base (p.state.1.register k serial) k serial r.ground with
      | (l, g) => ⟨(l, r.state), g, .ok ()⟩
  get m k s g :=
    let p := purge d m s g
    settle d m k p.state.1 (d.get m k p.state.2 p.ground)
  resume m k gate w s g := settle d m k s.1 (d.resume m k gate w s.2 g)
  remove m k s g :=
    let p := purge d m s g
    let l := p.state.1.forget k
    let r := d.remove m k p.state.2 p.ground
    match r.answer with
    | none => ⟨(l, r.state), r.ground, none⟩
    | some c =>
      if l.reaches m r.ground c then ⟨(l, r.state), r.ground, some { item := c.item }⟩
      else ⟨(l, r.state), r.ground, none⟩
  clear m s g :=
    let r := d.clear m s.2 g
    ⟨(s.1.letGo.forgetAll, r.state), r.ground, ()⟩
  size m s g :=
    let p := purge d m s g
    let r := d.size m p.state.2 p.ground
    ⟨(p.state.1, r.state), r.ground, r.answer⟩
  release m k s g :=
    let r := d.release m k s.2 g
    ⟨(s.1, r.state), r.ground, ()⟩

/-- Runs a collection. The leases to unpin are read under the lock. -/
def collecting (base : Nat) : Routine κ α (Leasing κ × σ) Nat := do
  change (·.forgetPins)
  guarded (handle fun _ l g =>
    let (g, pins) := unpinAll base l g
    (pins, l, g))

/-- Runs a collection if one is due. -/
def attending (d : Routines κ α σ) : Routine κ α (Leasing κ × σ) Unit := do
  let (pressured, scheduled) ← handle fun m l g =>
    let (l, due) := l.observe m
    (due, l, g)
  if pressured || scheduled then
    let pins ← collecting d.base
    note (.collected d.id pressured pins)

/-- Runs a collection if one is due and, under the lock, removes the cells whose instance nobody
holds; counts them. -/
def purging (d : Routines κ α σ) : Routine κ α (Leasing κ × σ) Nat := do
  attending d
  guarded do
    let keys ← handle fun m l g =>
      let (keys, l) := l.sweep d.base m g
      (keys, l, g)
    below (forEach d.remove keys)
    handle fun _ l g => (keys.length, l, notePurged d.id keys g)

/-- Stores a cell under a lease, and registers the lease. -/
def storing (d : Routines κ α σ) (k : κ) (c : Cell α) (serial : Nat) :
    Routine κ α (Leasing κ × σ) (Written κ) := do
  match ← below (d.put k { c with lease := some ⟨serial, true⟩ }) with
  | .error e => return .error e
  | .ok _ =>
    change (·.register k serial)
    return .ok ()

/-- The steps of a cache that lets go of instances that nobody holds. A write and a removal keep
the lock until the registry and the cache below agree again; a write has the new lease in hand until
then. -/
def routines (d : Routines κ α σ) : Routines κ α (Leasing κ × σ) where
  id := d.id
  base := d.base
  put k c := do
    let _ ← purging d
    let serial ← issue
    .holding c.item.serial
    let written ← guarded (storing d k c serial)
    .dropping c.item.serial
    match written with
    | .error e => return .error e
    | .ok _ => handle fun _ l g => (.ok (), track d.base l k serial g)
  get k := do
    let _ ← purging d
    match ← below (d.get k) with
    | .ok (some c) =>
      if ← handle fun m l g =>
        if l.reaches m g c then (true, l.remember c.item.serial, g) else (false, l, g) then
        return .ok (some { item := c.item })
      else
        guarded do
          if ← own (·.isCurrent k c) then
            change (·.forget k)
            let _ ← below (d.remove k)
        return .ok none
    | found => return found
  remove k := do
    let _ ← purging d
    let removed ← guarded do
      change (·.forget k)
      below (d.remove k)
    match removed with
    | none => return none
    | some c =>
      handle fun m l g => (if l.reaches m g c then some { item := c.item } else none, l, g)
  clear := do
    change (·.letGo)
    guarded do
      change (·.forgetAll)
      below d.clear
  size := do
    let _ ← purging d
    below d.size
  release k := below (d.release k)

theorem run_attending {d : Routines κ α σ} {c : Cache κ α σ} (h : d.Follows c) (m : Moment)
    (s : Leasing κ × σ) (g : Ground κ α) :
    (attending d).run m (s, g) =
      some ((((attend c m s.1 g).1, s.2), (attend c m s.1 g).2), ()) := by
  simp only [attending, attend, Process.bind_eq, Process.run_bind, run_handle,
    Option.bind_some, h.id, h.base]
  rcases s.1.observe m with ⟨_, pressured, scheduled⟩
  cases pressured <;> cases scheduled <;> rfl

theorem run_purging {d : Routines κ α σ} {c : Cache κ α σ} (h : d.Follows c) (m : Moment)
    (s : Leasing κ × σ) (g : Ground κ α) :
    (purging d).run m (s, g) = some (purge c m s g).outcome := by
  simp [purging, purge, run_attending h, Routine.run_forEach_remove h, h.id, h.base, Reply.outcome]

theorem run_storing {d : Routines κ α σ} {c : Cache κ α σ} (h : d.Follows c) (m : Moment)
    (k : κ) (x : Cell α) (serial : Nat) (s : Leasing κ × σ) (g : Ground κ α) :
    (storing d k x serial).run m (s, g) =
      let r := c.put m k { x with lease := some ⟨serial, true⟩ } s.2 g
      some (((match r.answer with | .error _ => s.1 | .ok _ => s.1.register k serial, r.state),
        r.ground), r.answer) := by
  simp only [storing, Process.bind_eq, Process.run_bind, run_below, h.put, Reply.outcome,
    Option.map_some, Option.bind_some]
  cases (c.put m k { x with lease := some ⟨serial, true⟩ } s.2 g).answer <;> rfl

theorem routines_follow {d : Routines κ α σ} {c : Cache κ α σ} (h : d.Follows c) :
    (routines d).Follows (onto c) where
  id := h.id
  base := h.base
  put m k x s g := by
    simp only [routines, onto, Process.bind_eq, Process.run_bind, run_purging h, Reply.outcome,
      run_issue, run_guarded, run_storing h, Process.run_holding, Process.run_dropping,
      Option.bind_some, h.base]
    cases (c.put m k { x with lease := some ⟨(purge c m s g).ground.issued, true⟩ }
      (purge c m s g).state.2 (purge c m s g).ground.issue).answer <;> rfl
  get m k s g := by
    simp only [routines, onto, settle, Process.bind_eq, Process.run_bind, run_purging h,
      Reply.outcome, run_below, h.get, Reply.finished?, Option.bind_some]
    generalize purge c m s g = p
    cases (c.get m k p.state.2 p.ground).answer with
    | waiting gate latch => rfl
    | done found =>
      rcases found with _ | _ | x
      · rfl
      · rfl
      · simp only [Option.map_some, Option.bind_some, Process.run_bind, run_handle]
        cases p.state.1.reaches m (c.get m k p.state.2 p.ground).ground x with
        | true => simp
        | false =>
          cases hc : p.state.1.isCurrent k x <;> simp [hc, h.remove, Reply.outcome]
  remove m k s g := by
    simp only [routines, onto, Process.bind_eq, Process.run_bind, run_purging h, Reply.outcome,
      run_guarded, run_change, run_below, h.remove, Option.map_some,
      Option.bind_some]
    generalize purge c m s g = p
    cases (c.remove m k p.state.2 p.ground).answer with
    | none => rfl
    | some x =>
      simp only [run_handle]
      split <;> rfl
  clear m s g := by simp [routines, onto, h.clear, Reply.outcome]
  size m s g := by simp [routines, onto, run_purging h, h.size, Reply.outcome]
  release m k s g := by simp [routines, onto, h.release, Reply.outcome]

end Leasing

end LayeredCache
