import LayeredCache.Routine

/-!
# Layers that let one thread populate a key

A lookup takes the latch of its key first. A hit and a failure give it back; a miss keeps it,
because the caller is expected to store the value. Lookups of the same key by other threads wait
until the latch is opened, or until their time is over; the thread that owns the latch passes. A
write, a removal and a release open the latch of their key, whoever owns it.

A latch is an object of its own: it is opened once, and the next latch of the same key is another
one.
-/

namespace LayeredCache

/-- A latch that is registered for a key. -/
structure Latch where
  number : Nat
  owner : String
  deriving DecidableEq, Repr

/-- The state of a blocking layer: how long a lookup may wait, the registered latches, the latches
that were opened, and the number of the next latch. -/
structure Gate (κ : Type) where
  timeout : Option Span
  latches : Table κ Latch := .empty
  opened : List Nat := []
  issued : Nat := 0

namespace Gate

open Routine (below change handle note own run_below run_handle run_own)

variable {κ α σ : Type} [DecidableEq κ]

/-- Registers a new latch for a key. -/
def latch (t : Gate κ) (k : κ) (owner : String) : Gate κ :=
  { t with latches := t.latches.insert k ⟨t.issued, owner⟩, issued := t.issued + 1 }

/-- Opens the latch of a key, if one is registered. -/
def unlatch (t : Gate κ) (k : κ) : Gate κ :=
  match t.latches.find? k with
  | none => t
  | some l => { t with latches := t.latches.erase k, opened := l.number :: t.opened }

/-- Whether a thread finds the key without a latch of another thread. -/
def isFreeFor (t : Gate κ) (thread : String) (k : κ) : Bool :=
  (t.latches.find? k).all (·.owner = thread)

/-- Registers a latch for a key unless there is one. -/
def claim (t : Gate κ) (k : κ) (owner : String) : Gate κ :=
  if t.latches.contains k then t else t.latch k owner

/-- What a lookup that holds the latch of its key does with it when it is finished: only a miss
keeps it. A lookup that waits further down waits below one more blocking layer. -/
def settle (t : Gate κ) (k : κ) (r : Reply κ α σ (Lookup κ α)) :
    Reply κ α (Gate κ × σ) (Lookup κ α) :=
  match r.answer with
  | .done (.ok none) => ⟨(t, r.state), r.ground, .done (.ok none)⟩
  | .done found => ⟨(t.unlatch k, r.state), r.ground, .done found⟩
  | .waiting gate latch => ⟨(t, r.state), r.ground, .waiting (gate + 1) latch⟩

/-- Looks a key up: passes on one's own latch, waits for one of another thread, else takes a new
one. -/
def enter (d : Cache κ α σ) (m : Moment) (k : κ) (s : Gate κ × σ) (g : Ground κ α) :
    Reply κ α (Gate κ × σ) (Lookup κ α) :=
  match s.1.latches.find? k with
  | some l =>
    if l.owner = m.thread then s.1.settle k (d.get m k s.2 g)
    else ⟨s, g, .waiting 0 l.number⟩
  | none => (s.1.latch k m.thread).settle k (d.get m k s.2 g)

/-- Gives up waiting. -/
def giveUp (d : Cache κ α σ) (k : κ) (s : Gate κ × σ) (g : Ground κ α) :
    Reply κ α (Gate κ × σ) (Lookup κ α) :=
  match s.1.timeout with
  | some timeout =>
    ⟨s, g.note (.gaveUp d.id k timeout), .done (.error (.lockTimeout d.id k timeout))⟩
  | none => ⟨s, g, .done (.error (.lockTimeout d.id k 0))⟩

/-- A cache in which one thread at a time populates a key. -/
def onto (d : Cache κ α σ) : Cache κ α (Gate κ × σ) where
  id := d.id
  base := d.base
  put m k c s g :=
    let r := d.put m k c s.2 g
    ⟨(s.1.unlatch k, r.state), r.ground, r.answer⟩
  get := enter d
  resume m k gate w s g :=
    match gate with
    | 0 =>
      match w with
      | .opened => enter d m k s g
      | .expired => giveUp d k s g
    | gate + 1 => s.1.settle k (d.resume m k gate w s.2 g)
  remove m k s g :=
    let r := d.remove m k s.2 g
    ⟨(s.1.unlatch k, r.state), r.ground, r.answer⟩
  clear m s g :=
    let r := d.clear m s.2 g
    ⟨(s.1, r.state), r.ground, ()⟩
  size m s g :=
    let r := d.size m s.2 g
    ⟨(s.1, r.state), r.ground, r.answer⟩
  release m k s g :=
    let r := d.release m k s.2 g
    ⟨(s.1.unlatch k, r.state), r.ground, ()⟩

/-- The lookup of a thread that may pass, or whose time is over. -/
def looking (d : Routines κ α σ) (k : κ) : Wake → Routine κ α (Gate κ × σ) (Found κ α)
  | .opened => do
    handle fun m t g => ((), t.claim k m.thread, g)
    match ← below (d.get k) with
    | .ok none => return .ok none
    | found =>
      change (·.unlatch k)
      return found
  | .expired => do
    match ← own (·.timeout) with
    | some timeout =>
      note (.gaveUp d.id k timeout)
      return .error (.lockTimeout d.id k timeout)
    | none => return .error (.lockTimeout d.id k 0)

/-- The steps of a cache in which one thread at a time populates a key. A lookup goes on waiting
while the latches of its key are those of other threads, whether or not it is the same one. -/
def routines (d : Routines κ α σ) : Routines κ α (Gate κ × σ) where
  id := d.id
  base := d.base
  put k c := do
    let written ← below (d.put k c)
    change (·.unlatch k)
    return written
  get k := do
    let deadline ← .see fun m t => t.1.1.timeout.map (m.time .system + ·)
    looking d k (← .wait (fun m t => t.1.1.isFreeFor m.thread k) deadline)
  remove k := do
    let removed ← below (d.remove k)
    change (·.unlatch k)
    return removed
  clear := below d.clear
  size := below d.size
  release k := do
    change (·.unlatch k)
    below (d.release k)

/-- A lookup that may pass comes to what a lookup with the latch of its key comes to. -/
theorem run_looking_opened {d : Routines κ α σ} {c : Cache κ α σ} (h : d.Follows c) (m : Moment)
    (k : κ) (s : Gate κ × σ) (g : Ground κ α) :
    (looking d k .opened).run m (s, g) =
      ((s.1.claim k m.thread).settle k (c.get m k s.2 g)).finished? := by
  simp only [looking, settle, Process.bind_eq, Process.run_bind, run_handle, run_below, h.get,
    Reply.finished?, Option.bind_some]
  cases (c.get m k s.2 g).answer with
  | waiting gate latch => rfl
  | done found => rcases found with _ | _ | _ <;> simp

/-- A lookup whose time is over comes to giving up. -/
theorem run_looking_expired {d : Routines κ α σ} {c : Cache κ α σ} (h : d.Follows c) (m : Moment)
    (k : κ) (s : Gate κ × σ) (g : Ground κ α) :
    (looking d k .expired).run m (s, g) = (giveUp c k s g).finished? := by
  simp only [looking, giveUp, h.id, Process.bind_eq, Process.run_bind, run_own, Option.bind_some]
  cases s.1.timeout <;> rfl

theorem routines_follow {d : Routines κ α σ} {c : Cache κ α σ} (h : d.Follows c) :
    (routines d).Follows (onto c) where
  id := h.id
  base := h.base
  put m k x s g := by simp [routines, onto, h.put, Reply.outcome]
  get m k s g := by
    simp only [routines, onto, enter, Process.bind_eq, Process.run_bind, Process.run_see,
      Process.run_wait, isFreeFor, Option.bind_some]
    cases hl : s.1.latches.find? k with
    | none => simp [run_looking_opened h, claim, Table.contains, hl]
    | some l =>
      by_cases ho : l.owner = m.thread
      · simp [run_looking_opened h, claim, Table.contains, hl, ho]
      · simp [ho, Reply.finished?]
  remove m k s g := by simp [routines, onto, h.remove, Reply.outcome]
  clear m s g := by simp [routines, onto, h.clear, Reply.outcome]
  size m s g := by simp [routines, onto, h.size, Reply.outcome]
  release m k s g := by simp [routines, onto, h.release, Reply.outcome]

/-- Opening the latch of a key leaves it without one. -/
@[simp] theorem find?_latches_unlatch (t : Gate κ) (k k' : κ) :
    (t.unlatch k).latches.find? k' = if k' = k then none else t.latches.find? k' := by
  simp only [unlatch]
  split
  · next h => split <;> simp_all
  · simp [Table.find?_erase]

@[simp] theorem find?_latches_latch (t : Gate κ) (k k' : κ) (owner : String) :
    (t.latch k owner).latches.find? k' =
      if k' = k then some ⟨t.issued, owner⟩ else t.latches.find? k' := by
  simp [latch, Table.find?_insert]

end Gate

end LayeredCache
