import LayeredCache.Routine

/-!
# Layers that flush after a span of time

Before a lookup, a write, a removal or a count, the layer clears what lies below it if more than its
interval has passed since the last time. A lookup that clears finds nothing; it also releases the
key, which a blocking layer below may have latched for the caller.
-/

namespace LayeredCache

/-- The state of a layer with a window: its interval, its clock, and when it last cleared. -/
structure Window where
  interval : Span
  clock : Clock
  lastClear : Span
  deriving DecidableEq, Repr

namespace Window

open Routine (below change guarded note own run_below run_guarded run_own)

/-- The interval of a window unless it is told otherwise. -/
def defaultInterval : Span := Span.hour

/-- Whether more than the interval has passed since the last time. -/
def stale (w : Window) (now : Span) : Bool := decide (w.interval < now - w.lastClear)

/-- The window after clearing. -/
def renew (w : Window) (now : Span) : Window := { w with lastClear := now }

variable {κ α σ : Type}

/-- Clears what lies below if the window has passed, and says whether it has. -/
def settle (d : Cache κ α σ) (m : Moment) (s : Window × σ) (g : Ground κ α) :
    Reply κ α (Window × σ) Bool :=
  if s.1.stale (m.time s.1.clock) then
    let r := d.clear m s.2 (g.note (.flushing d.id))
    ⟨(s.1.renew (m.time s.1.clock), r.state), r.ground, true⟩
  else ⟨s, g, false⟩

/-- A cache that is cleared at most once per interval. -/
def onto (d : Cache κ α σ) : Cache κ α (Window × σ) where
  id := d.id
  base := d.base
  put m k c s g :=
    let f := settle d m s g
    let r := d.put m k c f.state.2 f.ground
    ⟨(f.state.1, r.state), r.ground, r.answer⟩
  get m k s g :=
    let f := settle d m s g
    if f.answer then
      let r := d.release m k f.state.2 f.ground
      ⟨(f.state.1, r.state), r.ground, .done (.ok none)⟩
    else
      let r := d.get m k f.state.2 f.ground
      ⟨(f.state.1, r.state), r.ground, r.answer⟩
  resume m k gate w s g :=
    let r := d.resume m k gate w s.2 g
    ⟨(s.1, r.state), r.ground, r.answer⟩
  remove m k s g :=
    let f := settle d m s g
    let r := d.remove m k f.state.2 f.ground
    ⟨(f.state.1, r.state), r.ground, r.answer⟩
  clear m s g :=
    let r := d.clear m s.2 g
    ⟨(s.1.renew (m.time s.1.clock), r.state), r.ground, ()⟩
  size m s g :=
    let f := settle d m s g
    let r := d.size m f.state.2 f.ground
    ⟨(f.state.1, r.state), r.ground, r.answer⟩
  release m k s g :=
    let r := d.release m k s.2 g
    ⟨(s.1, r.state), r.ground, ()⟩

/-- What a layer's clock shows. -/
def now : Routine κ α (Window × σ) Span := .see fun m t => m.time t.1.1.clock

/-- Clears what lies below if the window had passed when the clock was read, and says whether it
had. -/
def flushing (d : Routines κ α σ) : Routine κ α (Window × σ) Bool := do
  let now ← now
  guarded do
    if ← own (·.stale now) then
      note (.flushing d.id)
      below d.clear
      change (·.renew now)
      return true
    else return false

/-- The steps of a cache that is cleared at most once per interval. Clearing holds the lock. -/
def routines (d : Routines κ α σ) : Routines κ α (Window × σ) where
  id := d.id
  base := d.base
  put k c := do
    let _ ← flushing d
    below (d.put k c)
  get k := do
    if ← flushing d then
      below (d.release k)
      return .ok none
    else below (d.get k)
  remove k := do
    let _ ← flushing d
    below (d.remove k)
  clear := guarded do
    let now ← now
    change (·.renew now)
    below d.clear
  size := do
    let _ ← flushing d
    below d.size
  release k := below (d.release k)

theorem run_flushing {d : Routines κ α σ} {c : Cache κ α σ} (h : d.Follows c) (m : Moment)
    (s : Window × σ) (g : Ground κ α) :
    (flushing d).run m (s, g) = some (settle c m s g).outcome := by
  simp only [flushing, settle, now, Process.bind_eq, Process.run_bind, Process.run_see,
    run_guarded, run_own, Option.bind_some]
  cases s.1.stale (m.time s.1.clock) <;> simp [h.clear, h.id, Reply.outcome]

theorem routines_follow {d : Routines κ α σ} {c : Cache κ α σ} (h : d.Follows c) :
    (routines d).Follows (onto c) where
  id := h.id
  base := h.base
  put m k x s g := by simp [routines, onto, run_flushing h, h.put, Reply.outcome]
  get m k s g := by
    simp only [routines, onto, Process.bind_eq, Process.run_bind, run_flushing h, Reply.outcome,
      Option.bind_some]
    cases (settle c m s g).answer with
    | true => simp [h.release, Reply.outcome, Reply.finished?]
    | false =>
      simp only [Bool.false_eq_true, if_false, run_below, h.get, Reply.finished?]
      cases (c.get m k (settle c m s g).state.2 (settle c m s g).ground).answer <;> rfl
  remove m k s g := by simp [routines, onto, run_flushing h, h.remove, Reply.outcome]
  clear m s g := by simp [routines, onto, now, h.clear, Reply.outcome]
  size m s g := by simp [routines, onto, run_flushing h, h.size, Reply.outcome]
  release m k s g := by simp [routines, onto, h.release, Reply.outcome]

@[simp] theorem stale_renew (w : Window) (now : Span) : (w.renew now).stale now = false := by
  simp [stale, renew]

end Window

end LayeredCache
