import LayeredCache.Proofs.Transaction.Units
import Mathlib.Logic.Function.Basic

/-!
# Units of work that share a blocking cache

Any number of threads, each with a unit of work of its own, share one cache; a unit of work may take
part in other caches as well. Calls are made one at a time, each by one thread at a moment of its
own. A thread whose lookup waits makes no other call until the lookup goes on or gives up, and a
value is written only under a key that was missed in the same unit of work.

The history of a run, the latest event in front, tells what each call has meant to the shared cache:
the answer of a lookup, or the keys whose latches a commit or a rollback has opened. Which thread
holds the latch of a key follows from the history.

## Main definitions

* `Sharing.Call.perform` — a call of a unit of work, with the event that it is.
* `Sharing.Run` — the runs of units of work.
* `Sharing.IsPopulating` — a thread has missed a key and has ended nothing since.
* `Sharing.IsDisturbed` — another thread has opened the latch of the key since.
-/

namespace LayeredCache.Sharing

variable {ι κ α σ τ : Type}

/-- What a call has meant to the shared cache. -/
inductive Deed (κ α : Type) where
  /-- A lookup and what the cache has answered, whatever the unit of work made of it. -/
  | looked (k : κ) (answer : Lookup κ α)
  /-- A lookup that has waited for too long. -/
  | gaveUp (k : κ)
  /-- A commit, and the keys that it has written or removed; a write that was refused counts. -/
  | committed (result : Written κ) (touched : List κ)
  /-- A rollback, and the keys that it has released. -/
  | rolledBack (released : List κ)
  /-- Nothing: a write or a clear that waits for the commit, or a lookup in another cache. -/
  | nothing

/-- What a thread has done. -/
structure Event (κ α : Type) where
  thread : String
  deed : Deed κ α

namespace Event

/-- The thread has looked a key up in the shared cache and found nothing. -/
def Misses (e : Event κ α) (thread : String) (k : κ) : Prop :=
  e.thread = thread ∧ e.deed = .looked k (.done (.ok none))

/-- The thread has called commit or rollback. -/
def Ends (e : Event κ α) (thread : String) : Prop :=
  e.thread = thread ∧
    match e.deed with
    | .committed .. | .rolledBack _ => True
    | _ => False

/-- A commit has failed. -/
def Fails (e : Event κ α) : Prop := ∃ failure touched, e.deed = .committed (.error failure) touched

/-- The keys that were written, removed or released. -/
def opens (e : Event κ α) : List κ :=
  match e.deed with
  | .committed _ keys | .rolledBack keys => keys
  | _ => []

end Event

/-- The thread has missed the key in the shared cache and has called neither commit nor rollback
since. -/
def IsPopulating (thread : String) (k : κ) : (past : List (Event κ α)) → Prop
  | [] => False
  | e :: past => e.Misses thread k ∨ ¬e.Ends thread ∧ IsPopulating thread k past

/-- A commit or a rollback of another thread has written, removed or released the key since the
thread has missed it last. -/
def IsDisturbed (thread : String) (k : κ) : (past : List (Event κ α)) → Prop
  | [] => False
  | e :: past => ¬e.Misses thread k ∧
    (e.thread ≠ thread ∧ k ∈ e.opens ∨ IsDisturbed thread k past)

/-- The thread that holds the latch of a key after an event, if it was `before` before it: one that
has missed the key does, until the key is found, written, removed or released. -/
def Event.latched [DecidableEq κ] (k : κ) (e : Event κ α) (before : Option String) :
    Option String :=
  match e.deed with
  | .looked k' (.done (.ok none)) => if k = k' then some e.thread else before
  | .looked k' (.done _) => if k = k' then none else before
  | .looked _ (.waiting ..) | .gaveUp _ | .nothing => before
  | .committed _ keys | .rolledBack keys => if k ∈ keys then none else before

/-- The thread that holds the latch of a key. -/
def holder? [DecidableEq κ] (k : κ) : (past : List (Event κ α)) → Option String
  | [] => none
  | e :: past => e.latched k (holder? k past)

/-! ## Runs -/

/-- The state of the shared cache beside that of the other caches, the ground, the unit of work of
each thread, and where lookups wait: the identifier of the cache, the key, and the layer. -/
structure World (ι κ α σ τ : Type) where
  state : σ × τ
  ground : Ground κ α
  units : String → UnitOfWork (Option ι) κ α := fun _ => {}
  waits : String → Option (String × κ × Nat) := fun _ => none

/-- The world after a lookup. -/
def World.answered (w : World ι κ α σ τ) (thread id : String) (k : κ)
    (r : Reply κ α (UnitOfWork (Option ι) κ α × (σ × τ)) (Lookup κ α)) : World ι κ α σ τ where
  state := r.state.2
  ground := r.ground
  units := Function.update w.units thread r.state.1
  waits := Function.update w.waits thread <|
    match r.answer with
    | .done _ => none
    | .waiting gate _ => some (id, k, gate)

/-- The world with another unit of work of a thread. -/
def World.withUnit (w : World ι κ α σ τ) (thread : String) (u : UnitOfWork (Option ι) κ α) :
    World ι κ α σ τ :=
  { w with units := Function.update w.units thread u }

/-- What a thread can ask its unit of work for; the shared cache has the reference `none`. -/
inductive Call (ι κ α : Type) where
  | get (cache : Option ι) (k : κ)
  /-- Goes on with the lookup that waits. -/
  | resume (w : Wake)
  | put (cache : Option ι) (k : κ) (item : Item α)
  | clear (cache : Option ι)
  | commit
  | rollback

/-- Whether a thread may make a call: a thread that waits goes on with its lookup before anything
else, and only missed keys are written to the shared cache. -/
def Call.IsFair (id thread : String) (w : World ι κ α σ τ) : Call ι κ α → Prop
  | .resume _ => w.waits thread ≠ none
  | .put none k _ => w.waits thread = none ∧ k ∈ (w.units thread).missed id
  | _ => w.waits thread = none

/-- What may happen outside the units of work: everything but changes of the shared cache and of the
cells of its base store. -/
structure Elsewhere (base : Nat) (w w' : World ι κ α σ τ) : Prop where
  state : w'.state.1 = w.state.1
  store : w'.ground.store base = w.ground.store base
  units : w'.units = w.units
  waits : w'.waits = w.waits

variable [DecidableEq κ]

open UnitOfWork (among)

/-- Makes a call at a moment, by the thread of the moment. -/
def Call.perform (c : Cache κ α σ) (others : ι → Cache κ α τ) (m : Moment)
    (w : World ι κ α σ τ) : Call ι κ α → Event κ α × World ι κ α σ τ
  | .get cache k =>
    let id := (among c others cache).id
    let r := (w.units m.thread).get (among c others) m cache id k w.state w.ground
    let deed : Deed κ α :=
      match cache with
      | none => .looked k (c.get m k w.state.1 w.ground).answer
      | some _ => .nothing
    (⟨m.thread, deed⟩, w.answered m.thread id k r)
  | .resume wake =>
    match w.waits m.thread with
    | none => (⟨m.thread, .nothing⟩, w)
    | some (id, k, gate) =>
      let r := (w.units m.thread).resume (among c others) m id k gate wake w.state w.ground
      let deed : Deed κ α :=
        if id = c.id then
          match wake with
          | .opened => .looked k (c.resume m k gate .opened w.state.1 w.ground).answer
          | .expired => .gaveUp k
        else .nothing
      (⟨m.thread, deed⟩, w.answered m.thread id k r)
  | .put cache k item =>
    (⟨m.thread, .nothing⟩, w.withUnit m.thread
      ((w.units m.thread).put cache (among c others cache).id k item))
  | .clear cache =>
    (⟨m.thread, .nothing⟩, w.withUnit m.thread
      ((w.units m.thread).clear cache (among c others cache).id))
  | .commit =>
    let u := w.units m.thread
    let r := u.commit (among c others) m w.state w.ground
    (⟨m.thread, .committed r.answer
        (UnitOfWork.touchedAll (among c others) m c.id u.participants w.state w.ground)⟩,
      { w with state := r.state.2, ground := r.ground }.withUnit m.thread r.state.1)
  | .rollback =>
    let u := w.units m.thread
    let r := u.rollback (among c others) m w.state w.ground
    (⟨m.thread, .rolledBack (u.missed c.id)⟩,
      { w with state := r.state.2, ground := r.ground }.withUnit m.thread r.state.1)

/-- `Run c others w₀ past w`: the events `past` of units of work lead from `w₀` to `w`. -/
inductive Run (c : Cache κ α σ) (others : ι → Cache κ α τ) (w₀ : World ι κ α σ τ) :
    List (Event κ α) → World ι κ α σ τ → Prop where
  | start : Run c others w₀ [] w₀
  | call {past : List (Event κ α)} {w : World ι κ α σ τ} (m : Moment) (a : Call ι κ α) :
    Run c others w₀ past w → a.IsFair c.id m.thread w →
      Run c others w₀ ((a.perform c others m w).1 :: past) (a.perform c others m w).2
  | elsewhere {past : List (Event κ α)} {w : World ι κ α σ τ} (w' : World ι κ α σ τ) :
    Run c others w₀ past w → Elsewhere c.base w w' → Run c others w₀ past w'

end LayeredCache.Sharing
