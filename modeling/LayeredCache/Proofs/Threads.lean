import LayeredCache.Layer.Latching
import LayeredCache.Proofs.Run
import Mathlib.Logic.Function.Basic

/-!
# Threads that call a blocking layer

Any number of threads call a blocking layer. A lookup is finished at once, or it waits for a latch;
a thread whose lookup waits makes no other call until the lookup goes on or gives up. It may go on
at any time, and then passes or waits again.

To take a latch out of the table and to open it are two steps, and other threads may come between
them: a call is made, with all that it does below, up to the point where its latch is out of the
table, and its thread opens that latch next. Between two steps others may do what they like to the
layer below and to the ground.

## Main definitions

* `Threads.World` — a blocking layer, what its threads wait for and are about to open, and the
  latches that were made.
* `Threads.World.after`, `Threads.World.openTaken` — the two steps of a thread.
* `Threads.Run` — the runs of threads that call a blocking layer.
* `Threads.Effect` — what a call does to the latches, and where it leaves its thread.

## Main statements

* `Threads.World.state_complete` — the two steps of a call come to what the call does.
-/

namespace LayeredCache

variable {κ α σ : Type}

namespace Cache

/-- The key that a call is about. -/
def Call.key? : Call κ α → Option κ
  | .put k .. | .get k | .resume k .. | .remove k | .release k => some k
  | .clear | .size => none

/-- The call writes, removes or releases the key. -/
def Call.Opens (k : κ) : Call κ α → Prop
  | .put k' .. | .remove k' | .release k' => k' = k
  | _ => False

end Cache

namespace Gate

variable [DecidableEq κ]

@[simp] theorem issued_latch (t : Gate κ) (k : κ) (owner : String) :
    (t.latch k owner).issued = t.issued + 1 := rfl

@[simp] theorem issued_unlatch (t : Gate κ) (k : κ) : (t.unlatch k).issued = t.issued := by
  unfold unlatch
  split <;> rfl

theorem opened_unlatch (t : Gate κ) (k : κ) :
    (t.unlatch k).opened = ((t.latches.find? k).map (·.number)).toList ++ t.opened := by
  unfold unlatch
  cases t.latches.find? k <;> rfl

theorem mem_opened_unlatch {t : Gate κ} {k : κ} {n : Nat} :
    n ∈ (t.unlatch k).opened ↔
      n ∈ t.opened ∨ ∃ l, t.latches.find? k = some l ∧ l.number = n := by
  simp [opened_unlatch, or_comm]

end Gate

namespace Threads

open Cache (Call Record)

/-! ## Worlds -/

/-- What a lookup waits for: the latch of a key, and the layer, counted inward, that it belongs
to. -/
structure Wait (κ : Type) where
  key : κ
  gate : Nat
  latch : Nat

/-- The state of a blocking layer and the one below it, the ground, what the lookup of each thread
waits for, the latch that each thread took out of the table and has not opened yet, and the key that
each latch of the blocking layer was made for. -/
structure World (κ α σ : Type) where
  state : Gate κ × σ
  ground : Ground κ α
  waits : String → Option (Wait κ) := fun _ => none
  taken : String → Option Nat := fun _ => none
  keys : Nat → Option κ := fun _ => none

/-- What a thread waits for after a call. -/
def waitAfter (c : Call κ α) : Cache.Answer κ α → Option (Wait κ)
  | .looked (.waiting gate n) => c.key?.map fun k => ⟨k, gate, n⟩
  | _ => none

/-- The keys of the latches after a call that made at most one. -/
def keysAfter (t t' : Gate κ) (c : Call κ α) (keys : Nat → Option κ) : Nat → Option κ :=
  if t'.issued = t.issued then keys else Function.update keys t.issued c.key?

/-- The latch that was opened between two states of the latches, if one was. -/
def newlyOpened (t t' : Gate κ) : Option Nat :=
  if t'.opened = t.opened then none else t'.opened.head?

theorem newlyOpened_eq {t t' : Gate κ} {o : Option Nat} (h : t'.opened = o.toList ++ t.opened) :
    newlyOpened t t' = o := by
  unfold newlyOpened
  cases o <;> simp [h]

namespace World

/-- A blocking layer that nobody has called. -/
def new (timeout : Option Span) (s : σ) (g : Ground κ α) : World κ α σ where
  state := ({ timeout := timeout }, s)
  ground := g

/-- Whether a thread may make a call: it has no latch to open, and one whose lookup waits goes on
with it or gives it up. -/
def IsFair (thread : String) (w : World κ α σ) (c : Call κ α) : Prop :=
  w.taken thread = none ∧
    match c with
    | .resume k gate _ => ∃ n, w.waits thread = some ⟨k, gate, n⟩
    | _ => w.waits thread = none

/-- The thread opens the latch that it took out, if it did. -/
def openTaken (w : World κ α σ) (thread : String) : World κ α σ :=
  { w with
    state :=
      ({ w.state.1 with opened := (w.taken thread).toList ++ w.state.1.opened }, w.state.2)
    taken := Function.update w.taken thread none }

/-- The latch was taken out of the table, and is open or about to be opened. -/
def IsOut (w : World κ α σ) (n : Nat) : Prop :=
  n ∈ w.state.1.opened ∨ ∃ thread, w.taken thread = some n

/-- No thread is about to open a latch. -/
def IsQuiet (w : World κ α σ) : Prop := ∀ thread, w.taken thread = none

variable [DecidableEq κ]

/-- The record of a call on the blocking layer over `d`. -/
def record (d : Cache κ α σ) (w : World κ α σ) (m : Moment) (c : Call κ α) : Record κ α :=
  ⟨m, c, ((Gate.onto d).perform m w.state w.ground c).answer⟩

/-- The world after a call on the blocking layer over `d` whose latch, if it took one out of the
table, is still to be opened. -/
def after (d : Cache κ α σ) (w : World κ α σ) (m : Moment) (c : Call κ α) : World κ α σ :=
  let r := (Gate.onto d).perform m w.state w.ground c
  { state := ({ r.state.1 with opened := w.state.1.opened }, r.state.2)
    ground := r.ground
    waits := Function.update w.waits m.thread (waitAfter c r.answer)
    taken := Function.update w.taken m.thread (newlyOpened w.state.1 r.state.1)
    keys := keysAfter w.state.1 r.state.1 c w.keys }

/-- The world after a call whose latch, if it took one out of the table, was opened at once. -/
def complete (d : Cache κ α σ) (w : World κ α σ) (m : Moment) (c : Call κ α) : World κ α σ :=
  (w.after d m c).openTaken m.thread

end World

/-! ## What a step leaves to the threads -/

namespace World

section OpenTaken

variable (w : World κ α σ) (thread : String)

theorem mem_opened_openTaken (n : Nat) :
    n ∈ (w.openTaken thread).state.1.opened ↔ w.taken thread = some n ∨ n ∈ w.state.1.opened := by
  simp only [openTaken, List.mem_append, Option.mem_toList]

theorem taken_openTaken_self : (w.openTaken thread).taken thread = none := Function.update_self ..

theorem taken_openTaken_of_ne {thread' : String} (h : thread' ≠ thread) :
    (w.openTaken thread).taken thread' = w.taken thread' := Function.update_of_ne h ..

/-- A thread that has no latch to open gets none. -/
theorem idle_openTaken {thread' : String} (h : w.taken thread' = none) :
    (w.openTaken thread).taken thread' = none := by
  by_cases he : thread' = thread
  · rw [he, taken_openTaken_self]
  · rw [taken_openTaken_of_ne w thread he, h]

/-- A latch that is opened was out of the table before. -/
theorem isOut_openTaken (n : Nat) : (w.openTaken thread).IsOut n ↔ w.IsOut n := by
  unfold IsOut
  rw [mem_opened_openTaken]
  constructor
  · rintro ((htaken | hopened) | ⟨thread', htaken⟩)
    · exact .inr ⟨thread, htaken⟩
    · exact .inl hopened
    · by_cases he : thread' = thread
      · rw [he, taken_openTaken_self] at htaken
        cases htaken
      · rw [taken_openTaken_of_ne w thread he] at htaken
        exact .inr ⟨thread', htaken⟩
  · rintro (hopened | ⟨thread', htaken⟩)
    · exact .inl (.inr hopened)
    · by_cases he : thread' = thread
      · exact .inl (.inl (he ▸ htaken))
      · exact .inr ⟨thread', (taken_openTaken_of_ne w thread he).trans htaken⟩

end OpenTaken

section After

variable [DecidableEq κ] {d : Cache κ α σ} {w : World κ α σ} {m : Moment} {c : Call κ α}
  {thread : String}

theorem waits_after_self :
    (w.after d m c).waits m.thread = waitAfter c (w.record d m c).answer := Function.update_self ..

theorem waits_after_of_ne (h : thread ≠ m.thread) :
    (w.after d m c).waits thread = w.waits thread := Function.update_of_ne h ..

theorem taken_after_self :
    (w.after d m c).taken m.thread =
      newlyOpened w.state.1 ((Gate.onto d).perform m w.state w.ground c).state.1 :=
  Function.update_self ..

theorem taken_after_of_ne (h : thread ≠ m.thread) :
    (w.after d m c).taken thread = w.taken thread := Function.update_of_ne h ..

theorem taken_complete_self : (w.complete d m c).taken m.thread = none :=
  taken_openTaken_self ..

theorem taken_complete_of_ne (h : thread ≠ m.thread) :
    (w.complete d m c).taken thread = w.taken thread :=
  (taken_openTaken_of_ne _ _ h).trans (taken_after_of_ne h)

/-- Whole calls keep the world quiet. -/
theorem IsQuiet.complete (h : w.IsQuiet) (d : Cache κ α σ) (m : Moment) (c : Call κ α) :
    (w.complete d m c).IsQuiet := by
  intro thread
  by_cases he : thread = m.thread
  · rw [he, taken_complete_self]
  · rw [taken_complete_of_ne he, h]

theorem state_after (h : ((Gate.onto d).perform m w.state w.ground c).state = w.state) :
    (w.after d m c).state = w.state := by
  simp only [after, h]

end After

end World

/-! ## Runs -/

variable [DecidableEq κ]

/-- `Run d w₀ past w`: steps of threads on the blocking layer over `d`, calls with the records
`past` among them, lead from `w₀` to `w`. Between two of them the layer below and the ground may
change in any way. -/
inductive Run (d : Cache κ α σ) (w₀ : World κ α σ) :
    List (Record κ α) → World κ α σ → Prop where
  | start : Run d w₀ [] w₀
  | call {past : List (Record κ α)} {w : World κ α σ} (m : Moment) (c : Call κ α) :
    Run d w₀ past w → w.IsFair m.thread c → Run d w₀ (w.record d m c :: past) (w.after d m c)
  | openTaken {past : List (Record κ α)} {w : World κ α σ} (thread : String) :
    Run d w₀ past w → Run d w₀ past (w.openTaken thread)
  | elsewhere {past : List (Record κ α)} {w : World κ α σ} (s : σ) (g : Ground κ α) :
    Run d w₀ past w → Run d w₀ past { w with state := (w.state.1, s), ground := g }

/-- A call whose latch is opened at once is two steps of a run. -/
theorem Run.complete {d : Cache κ α σ} {w₀ w : World κ α σ} {past : List (Record κ α)}
    (hrun : Run d w₀ past w) (m : Moment) (c : Call κ α) (hfair : w.IsFair m.thread c) :
    Run d w₀ (w.record d m c :: past) (w.complete d m c) :=
  .openTaken m.thread (.call m c hrun hfair)

/-! ## What a call does -/

/-- What a call of a thread does to the latches, and what the thread waits for afterwards. -/
inductive Effect (t : Gate κ) (thread : String) (c : Call κ α) :
    Gate κ → Option (Wait κ) → Prop where
  /-- Nothing, unless the layer below keeps the lookup waiting. -/
  | aside {wait : Option (Wait κ)} : (∀ v ∈ wait, v.gate ≠ 0) → Effect t thread c t wait
  /-- A latch is opened if there is one. -/
  | opens (k : κ) : Effect t thread c (t.unlatch k) none
  /-- Another thread has the latch. -/
  | waits {k : κ} {l : Latch} : t.latches.find? k = some l → l.owner ≠ thread →
    Effect t thread c t (some ⟨k, 0, l.number⟩)
  /-- There is no latch, and the new one is kept. -/
  | takes {k : κ} {wait : Option (Wait κ)} : c.key? = some k → t.latches.find? k = none →
    (∀ v ∈ wait, v.gate ≠ 0) → Effect t thread c (t.latch k thread) wait
  /-- There is no latch, and the new one is opened at once. -/
  | passes {k : κ} : c.key? = some k → t.latches.find? k = none →
    Effect t thread c ((t.latch k thread).unlatch k) none

section Calls

variable {d : Cache κ α σ} {m : Moment} {c : Call κ α} {k : κ}

theorem Effect.still (t : Gate κ) (thread : String) (c : Call κ α) :
    Effect t thread c t none := .aside fun v hv => absurd hv (Option.not_mem_none v)

/-- A lookup that is finished keeps the latch of its key or opens it, and waits, if it does, further
down. -/
theorem settle_cases (t : Gate κ) (k : κ) (r : Reply κ α σ (Lookup κ α)) (c : Call κ α) :
    (t.settle k r).state.1 = t ∧
        (∀ v ∈ waitAfter c (.looked (t.settle k r).answer), v.gate ≠ 0) ∨
      (t.settle k r).state.1 = t.unlatch k ∧
        waitAfter c (.looked (t.settle k r).answer) = none := by
  unfold Gate.settle
  split
  · exact .inl ⟨rfl, nofun⟩
  · exact .inr ⟨rfl, rfl⟩
  · refine .inl ⟨rfl, fun v hv => ?_⟩
    obtain ⟨k', -, rfl⟩ := Option.map_eq_some_iff.mp hv
    exact Nat.succ_ne_zero _

/-- A lookup that finds the latch of its key free for its thread. -/
theorem effect_settle (t : Gate κ) (thread : String) (k : κ) (r : Reply κ α σ (Lookup κ α))
    (c : Call κ α) :
    Effect t thread c (t.settle k r).state.1 (waitAfter c (.looked (t.settle k r).answer)) := by
  rcases settle_cases t k r c with ⟨ht, hwait⟩ | ⟨ht, hwait⟩
  · rw [ht]
    exact .aside hwait
  · rw [ht, hwait]
    exact .opens k

theorem effect_enter (hkey : c.key? = some k) (s : Gate κ × σ) (g : Ground κ α) :
    Effect s.1 m.thread c (Gate.enter d m k s g).state.1
      (waitAfter c (.looked (Gate.enter d m k s g).answer)) := by
  unfold Gate.enter
  cases hl : s.1.latches.find? k with
  | some l =>
    by_cases howner : l.owner = m.thread
    · simp only [if_pos howner]
      exact effect_settle ..
    · simp only [if_neg howner, waitAfter, hkey, Option.map_some]
      exact .waits hl howner
  | none =>
    rcases settle_cases (s.1.latch k m.thread) k (d.get m k s.2 g) c with
      ⟨ht, hwait⟩ | ⟨ht, hwait⟩
    · simp only [ht]
      exact .takes hkey hl hwait
    · simp only [ht, hwait]
      exact .passes hkey hl

/-- What any call does, whether or not its thread may make it. -/
theorem effect (d : Cache κ α σ) (m : Moment) (s : Gate κ × σ) (g : Ground κ α) (c : Call κ α) :
    Effect s.1 m.thread c ((Gate.onto d).perform m s g c).state.1
      (waitAfter c ((Gate.onto d).perform m s g c).answer) := by
  cases c with
  | put k serial v => exact .opens k
  | get k => exact effect_enter rfl s g
  | resume k gate wake =>
    cases gate with
    | succ gate => exact effect_settle ..
    | zero =>
      cases wake with
      | opened => exact effect_enter rfl s g
      | expired =>
        simp only [Cache.perform, Gate.onto, Gate.giveUp]
        split <;> exact .still ..
  | remove k => exact .opens k
  | clear => exact .still ..
  | size => exact .still ..
  | release k => exact .opens k

section

variable {t t' : Gate κ} {thread : String} {wait : Option (Wait κ)}

/-- A call opens at most one latch, and then its thread does not wait. -/
theorem Effect.exists_opened (h : Effect t thread c t' wait) :
    ∃ o : Option Nat, t'.opened = o.toList ++ t.opened ∧ (o ≠ none → wait = none) := by
  cases h with
  | aside _ => exact ⟨none, rfl, absurd rfl⟩
  | opens k => exact ⟨_, Gate.opened_unlatch t k, fun _ => rfl⟩
  | waits _ _ => exact ⟨none, rfl, absurd rfl⟩
  | takes _ _ _ => exact ⟨none, rfl, absurd rfl⟩
  | passes _ _ => exact ⟨_, Gate.opened_unlatch _ _, fun _ => rfl⟩

theorem Effect.opened_eq (h : Effect t thread c t' wait) :
    t'.opened = (newlyOpened t t').toList ++ t.opened := by
  obtain ⟨o, ho, -⟩ := h.exists_opened
  rwa [newlyOpened_eq ho]

theorem Effect.wait_eq_none (h : Effect t thread c t' wait) {n : Nat}
    (hn : newlyOpened t t' = some n) : wait = none := by
  obtain ⟨o, ho, hwait⟩ := h.exists_opened
  rw [newlyOpened_eq ho] at hn
  exact hwait (hn ▸ Option.some_ne_none n)

end

/-- A latch that a call opens is out of the table from its first step on. -/
theorem World.isOut_after {w : World κ α σ} (hidle : w.taken m.thread = none) (n : Nat) :
    (w.after d m c).IsOut n ↔
      w.IsOut n ∨ n ∈ ((Gate.onto d).perform m w.state w.ground c).state.1.opened := by
  rw [(effect d m w.state w.ground c).opened_eq, List.mem_append, Option.mem_toList]
  unfold World.IsOut
  constructor
  · rintro (hopened | ⟨thread, htaken⟩)
    · exact .inl (.inl hopened)
    · by_cases he : thread = m.thread
      · rw [he, World.taken_after_self] at htaken
        exact .inr (.inl htaken)
      · rw [World.taken_after_of_ne he] at htaken
        exact .inl (.inr ⟨thread, htaken⟩)
  · rintro ((hopened | ⟨thread, htaken⟩) | htaken | hopened)
    · exact .inl hopened
    · have hne : thread ≠ m.thread := by
        rintro rfl
        cases hidle.symm.trans htaken
      exact .inr ⟨thread, (World.taken_after_of_ne hne).trans htaken⟩
    · exact .inr ⟨m.thread, World.taken_after_self.trans htaken⟩
    · exact .inl hopened

/-- The two steps of a call come to what the call does. -/
theorem World.state_complete (d : Cache κ α σ) (w : World κ α σ) (m : Moment) (c : Call κ α) :
    (w.complete d m c).state = ((Gate.onto d).perform m w.state w.ground c).state := by
  simp only [World.complete, World.openTaken, World.after, Function.update_self,
    ← (effect d m w.state w.ground c).opened_eq]

end Calls

end Threads

end LayeredCache
