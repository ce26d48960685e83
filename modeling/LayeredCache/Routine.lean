import LayeredCache.Cache
import LayeredCache.Process

/-!
# The operations of a cache, step by step

A routine is an operation of a cache as a process on the cache's private state and the ground, so
that it says where other threads may come between, and which instances, by their serial numbers, it
has in hand meanwhile. A layer has one lock of its own, number 0, and the locks of the layers below
it are counted on from there. The routines of a cache follow its
operations if each of them, when nobody keeps it waiting, comes to what the operation comes to; so a
law of the operations is one of the routines as long as the threads take turns.
-/

namespace LayeredCache

/-- An operation, step by step. -/
abbrev Routine (κ α σ ρ : Type) := Process (σ × Ground κ α) Nat Nat ρ

/-- The operations of a cache with private state `σ`, step by step. -/
structure Routines (κ α σ : Type) where
  /-- The identifier. -/
  id : String
  /-- The number of the base store below all layers. -/
  base : Nat
  /-- Stores a cell, whose instance is in hand before, and lets go of that. -/
  put : κ → Cell α → Routine κ α σ (Written κ)
  /-- Looks a key up. -/
  get : κ → Routine κ α σ (Found κ α)
  /-- Removes a key. -/
  remove : κ → Routine κ α σ (Option (Cell α))
  /-- Removes every key. -/
  clear : Routine κ α σ Unit
  /-- Counts the stored keys. -/
  size : Routine κ α σ Nat
  /-- Says that a key that was missed will not be populated. -/
  release : κ → Routine κ α σ Unit

namespace Routine

variable {κ α σ β ρ : Type}

/-- Tells the journal. -/
def note (e : Event κ) : Routine κ α σ Unit := .alter fun _ t => (t.1, t.2.note e)

/-- Takes a serial number. -/
def issue : Routine κ α σ Nat := .act fun _ t => (t.2.issued, t.1, t.2.issue)

/-- What a layer's own state shows. -/
def own (f : β → ρ) : Routine κ α (β × σ) ρ := .see fun _ t => f t.1.1

/-- Changes a layer's own state. -/
def change (f : β → β) : Routine κ α (β × σ) Unit := .alter fun _ t => ((f t.1.1, t.1.2), t.2)

/-- Does something with a layer's own state and the ground. -/
def handle (f : Moment → β → Ground κ α → ρ × β × Ground κ α) : Routine κ α (β × σ) ρ :=
  .act fun m t =>
    let (a, l, g) := f m t.1.1 t.2
    (a, (l, t.1.2), g)

/-- A routine of what lies below a layer. -/
def below (p : Routine κ α σ ρ) : Routine κ α (β × σ) ρ :=
  p.within (fun t => (t.1.2, t.2)) (fun u t => ((t.1.1, u.1), u.2)) (· + 1) id

/-- Does something while it has the layer's lock. -/
def guarded (p : Routine κ α (β × σ) ρ) : Routine κ α (β × σ) ρ := .locked 0 p

/-- Does the same to one key after the other. -/
def forEach (p : κ → Routine κ α σ ρ) : List κ → Routine κ α σ Unit
  | [] => return
  | k :: rest => do
    let _ ← p k
    forEach p rest

@[simp] theorem run_below (m : Moment) (p : Routine κ α σ ρ) (t : (β × σ) × Ground κ α) :
    (below p).run m t =
      (p.run m (t.1.2, t.2)).map fun r => (((t.1.1, r.1.1), r.1.2), r.2) :=
  Process.run_within (fun t : (β × σ) × Ground κ α => (t.1.2, t.2))
    (fun u t => ((t.1.1, u.1), u.2)) _ _ (fun _ _ => rfl) (fun _ _ _ => rfl) (fun _ => rfl) m p t

end Routine

/-- What an operation leaves, as a routine leaves it. -/
def Reply.outcome {κ α σ ρ : Type} (r : Reply κ α σ ρ) : (σ × Ground κ α) × ρ :=
  ((r.state, r.ground), r.answer)

/-- What a finished lookup leaves; nothing while the lookup waits. -/
def Reply.finished? {κ α σ : Type} (r : Reply κ α σ (Lookup κ α)) :
    Option ((σ × Ground κ α) × Found κ α) :=
  match r.answer with
  | .done found => some ((r.state, r.ground), found)
  | .waiting .. => none

/-- Routines follow the operations of a cache: every routine comes to what its operation comes
to, and a lookup has to wait in the one exactly if it waits in the other. -/
structure Routines.Follows {κ α σ : Type} (d : Routines κ α σ) (c : Cache κ α σ) : Prop where
  id : d.id = c.id
  base : d.base = c.base
  put : ∀ m k x s g, (d.put k x).run m (s, g) = some (c.put m k x s g).outcome
  get : ∀ m k s g, (d.get k).run m (s, g) = (c.get m k s g).finished?
  remove : ∀ m k s g, (d.remove k).run m (s, g) = some (c.remove m k s g).outcome
  clear : ∀ m s g, d.clear.run m (s, g) = some (c.clear m s g).outcome
  size : ∀ m s g, d.size.run m (s, g) = some (c.size m s g).outcome
  release : ∀ m k s g, (d.release k).run m (s, g) = some (c.release m k s g).outcome

namespace Routine

variable {κ α σ β : Type}

@[simp] theorem run_note (m : Moment) (e : Event κ) (t : σ × Ground κ α) :
    (note e).run m t = some ((t.1, t.2.note e), ()) := rfl

@[simp] theorem run_issue (m : Moment) (t : σ × Ground κ α) :
    issue.run m t = some ((t.1, t.2.issue), t.2.issued) := rfl

@[simp] theorem run_own {ρ : Type} (m : Moment) (f : β → ρ) (t : (β × σ) × Ground κ α) :
    (own f).run m t = some (t, f t.1.1) := rfl

@[simp] theorem run_change (m : Moment) (f : β → β) (t : (β × σ) × Ground κ α) :
    (change f).run m t = some (((f t.1.1, t.1.2), t.2), ()) := rfl

@[simp] theorem run_handle {ρ : Type} (m : Moment)
    (f : Moment → β → Ground κ α → ρ × β × Ground κ α) (t : (β × σ) × Ground κ α) :
    (handle f).run m t =
      some ((((f m t.1.1 t.2).2.1, t.1.2), (f m t.1.1 t.2).2.2), (f m t.1.1 t.2).1) := rfl

@[simp] theorem run_guarded {ρ : Type} (m : Moment) (p : Routine κ α (β × σ) ρ)
    (t : (β × σ) × Ground κ α) : (guarded p).run m t = p.run m t :=
  Process.run_locked m 0 p t

/-- Removing keys one after the other, step by step. -/
theorem run_forEach_remove {d : Routines κ α σ} {c : Cache κ α σ} (h : d.Follows c) (m : Moment)
    (ks : List κ) (s : σ) (g : Ground κ α) :
    (forEach d.remove ks).run m (s, g) = some (c.removeAll m ks s g, ()) := by
  induction ks generalizing s g with
  | nil => rfl
  | cons k ks ih => simp [forEach, h.remove, Reply.outcome, ih, Cache.removeAll]

/-- Releasing keys one after the other, step by step. -/
theorem run_forEach_release {d : Routines κ α σ} {c : Cache κ α σ} (h : d.Follows c) (m : Moment)
    (ks : List κ) (s : σ) (g : Ground κ α) :
    (forEach d.release ks).run m (s, g) = some (c.releaseAll m ks s g, ()) := by
  induction ks generalizing s g with
  | nil => rfl
  | cons k ks ih => simp [forEach, h.release, Reply.outcome, ih, Cache.releaseAll]

end Routine

namespace Routines

open Routine

variable {κ α σ : Type} [DecidableEq κ]

/-- The base store: a table of cells without a bound. -/
def bare (id : String) (base : Nat) : Routines κ α Unit where
  id := id
  base := base
  put k c := do
    .alter fun _ t => (t.1, t.2.setStore base ((t.2.store base).insert k c))
    .dropping c.item.serial
    return .ok ()
  get k := .see fun _ t => .ok ((t.2.store base).find? k)
  remove k := .act fun _ t =>
    match (t.2.store base).find? k with
    | none => (none, t)
    | some c => (some c, t.1, t.2.setStore base ((t.2.store base).erase k))
  clear := .alter fun _ t => (t.1, t.2.setStore base .empty)
  size := .see fun _ t => (t.2.store base).size
  release _ := return

theorem bare_follows (id : String) (base : Nat) :
    (bare id base : Routines κ α Unit).Follows (Cache.bare id base) where
  id := rfl
  base := rfl
  put _ _ _ _ _ := rfl
  get _ _ _ _ := rfl
  remove m k s g := by
    cases h : (g.store base).find? k <;> simp [bare, Cache.bare, Reply.outcome, h]
  clear _ _ _ := rfl
  size _ _ _ := rfl
  release _ _ _ _ := rfl

end Routines

end LayeredCache
