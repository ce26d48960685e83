import LayeredCache.Layer.Basic
import LayeredCache.Proofs.Interference
import LayeredCache.Proofs.Transaction.Latches

/-!
# Which latches a thread holds while others are at work

A thread makes calls on a stack of layers, step by step, and other threads make theirs at the same
time. They take latches for themselves alone and may open any latch, so meanwhile the thread can
lose latches but gets none from them. Where its own steps take a latch, they take it for the key of
a lookup; a lookup that finds something or fails opens it again, and a write that succeeds, a
removal and a release open the latches of their key in every layer, on whatever way the call goes
through the layers above.

## Main definitions

* `Stack.holder?` — the thread that holds the latch of a key in a layer of a stack.
* `Spares` — changes by which a thread gets no latch.
* `Confined` — all latches of a thread are those of certain keys.
* `Confines` — what a process, amid changes by others, makes of that.

## Main statements

* `Stack.yields` — what the operations of a stack make of the latches of the thread that calls them.
-/

namespace LayeredCache

open Relation (ReflTransGen)

variable {Λ κ α σ β ν ρ ρ' : Type}

/-! ## Who holds which latch -/

/-- The threads that hold latches, for each layer and each key. -/
abbrev Holders (Λ κ σ : Type) := σ → Λ → κ → Option String

/-- The threads that hold latches when there is one more layer outside. -/
def Holders.above (own : β → κ → Option String) (o : Holders Nat κ σ) :
    Holders Nat κ (β × σ)
  | s, 0, k => own s.1 k
  | s, i + 1, k => o s.2 i k

/-- The thread that holds the latch of a key in a layer, if it is one with latches. -/
def Kind.holder? [DecidableEq κ] : (kind : Kind) → kind.State κ → κ → Option String
  | .latching, t => Gate.owner? t
  | _, _ => fun _ => none

/-- The thread that holds the latch of a key in the layer that has so many layers outside itself. -/
def Stack.holder? [DecidableEq κ] : (kinds : List Kind) → Holders Nat κ (Stack κ kinds)
  | [] => fun _ _ _ => none
  | kind :: kinds => Holders.above kind.holder? (holder? kinds)

/-- A change by which a thread gets no latch. -/
def Spares (o : Holders Λ κ σ) (thread : String) (t t' : σ × Ground κ α) : Prop :=
  ∀ i k, o t'.1 i k = some thread → o t.1 i k = some thread

/-- All latches that a thread holds are those of certain keys. -/
def Confined (o : Holders Λ κ σ) (thread : String) (q : Λ → κ → Prop) (t : σ × Ground κ α) : Prop :=
  ∀ i k, o t.1 i k = some thread → q i k

theorem Confined.spares {o : Holders Λ κ σ} {thread : String} {q : Λ → κ → Prop}
    {t t' : σ × Ground κ α} (h : Confined o thread q t) (hs : Spares o thread t t') :
    Confined o thread q t' :=
  fun i k hk => h i k (hs i k hk)

theorem Confined.mono {o : Holders Λ κ σ} {thread : String} {q r : Λ → κ → Prop}
    {t : σ × Ground κ α} (h : Confined o thread q t) (hq : ∀ i k, q i k → r i k) :
    Confined o thread r t :=
  fun i k hk => hq i k (h i k hk)

/-! ## What a process makes of latches -/

/-- If the latches of a thread are confined to `q` before it takes the steps of `p`, amid changes
by which it gets none, then they are confined to `r a` once it has come to the answer `a`. -/
def Confines (o : Holders Λ κ σ) (thread : String) (q : Λ → κ → Prop)
    (p : Process (σ × Ground κ α) ν Nat ρ) (r : ρ → Λ → κ → Prop) : Prop :=
  ∀ t a t', Confined o thread q t → p.Ends (Spares o thread) thread t a t' →
    Confined o thread (r a) t'

namespace Confined

variable {o : Holders Λ κ σ} {thread : String} {q : Λ → κ → Prop} {t t' : σ × Ground κ α}

theorem many (h : Confined o thread q t) (hs : ReflTransGen (Spares o thread) t t') :
    Confined o thread q t' := by
  induction hs with
  | refl => exact h
  | tail _ hlast ih => exact ih.spares hlast

end Confined

namespace Confines

variable {o : Holders Λ κ σ} {thread : String} {q : Λ → κ → Prop}

theorem done {a : ρ} {r : ρ → Λ → κ → Prop} (h : ∀ i k, q i k → r a i k) :
    Confines o thread q (.done a : Process (σ × Ground κ α) ν Nat ρ) r := by
  rintro t b t' ht ⟨rfl, hothers⟩
  exact (ht.many hothers).mono h

theorem bind {p : Process (σ × Ground κ α) ν Nat ρ} {f : ρ → Process (σ × Ground κ α) ν Nat ρ'}
    {r : ρ → Λ → κ → Prop} {r' : ρ' → Λ → κ → Prop} (hp : Confines o thread q p r)
    (hf : ∀ a, Confines o thread (r a) (f a) r') : Confines o thread q (p >>= f) r' := by
  intro t a t' ht h
  obtain ⟨b, u, hfirst, hrest⟩ := Process.Ends.bind h
  exact hf b u a t' (hp t b u ht hfirst) hrest

theorem mono {p : Process (σ × Ground κ α) ν Nat ρ} {r r' : ρ → Λ → κ → Prop}
    (h : Confines o thread q p r) (hq : ∀ a i k, r a i k → r' a i k) :
    Confines o thread q p r' :=
  fun t a t' ht hends => (h t a t' ht hends).mono (hq a)

theorem of_imp {p : Process (σ × Ground κ α) ν Nat ρ} {q' : Λ → κ → Prop} {r : ρ → Λ → κ → Prop}
    (h : Confines o thread q p r) (hq : ∀ i k, q' i k → q i k) : Confines o thread q' p r :=
  fun t a t' ht hends => h t a t' (ht.mono hq) hends

theorem act {f : Moment → σ × Ground κ α → ρ × (σ × Ground κ α)} {r : ρ → Λ → κ → Prop}
    (h : ∀ m t, m.thread = thread → Confined o thread q t →
      Confined o thread (r (f m t).1) (f m t).2) :
    Confines o thread q (.act f : Process (σ × Ground κ α) ν Nat ρ) r := by
  rintro t a t' ht ⟨m, u, hm, hu, rfl, hothers⟩
  exact (h m u hm (ht.many hu)).many hothers

/-- A step by which the thread gets no latch. -/
theorem sparing {f : Moment → σ × Ground κ α → ρ × (σ × Ground κ α)}
    (h : ∀ m t, Spares o thread t (f m t).2) :
    Confines o thread q (.act f : Process (σ × Ground κ α) ν Nat ρ) fun _ => q :=
  act fun m t _ ht => ht.spares (h m t)

theorem locked {l : ν} {p : Process (σ × Ground κ α) ν Nat ρ} {r : ρ → Λ → κ → Prop}
    (h : Confines o thread q p r) : Confines o thread q (.locked l p) r :=
  bind (f := fun a => .give l (.done a)) h fun _ => done (ν := ν) fun _ _ hq => hq

/-! ### Steps that take no latch -/

/-- A step that leaves the states of all layers as they are. -/
theorem still {f : Moment → σ × Ground κ α → ρ × (σ × Ground κ α)}
    (h : ∀ m t, (f m t).2.1 = t.1) :
    Confines o thread q (.act f : Process (σ × Ground κ α) ν Nat ρ) fun _ => q :=
  sparing fun m t _ _ hk => h m t ▸ hk

theorem note {e : Event κ} :
    Confines o thread q (Routine.note e : Routine κ α σ Unit) fun _ => q :=
  still (f := fun _ t => ((), t.1, t.2.note e)) fun _ _ => rfl

theorem issue : Confines o thread q (Routine.issue : Routine κ α σ Nat) fun _ => q :=
  still fun _ _ => rfl

theorem holding {x : Nat} :
    Confines o thread q (.holding x : Process (σ × Ground κ α) ν Nat Unit) fun _ => q :=
  done (ν := ν) fun _ _ hq => hq

theorem dropping {x : Nat} :
    Confines o thread q (.dropping x : Process (σ × Ground κ α) ν Nat Unit) fun _ => q :=
  done (ν := ν) fun _ _ hq => hq

theorem wait {ready : Moment → σ × Ground κ α → Bool} {deadline : Option Span} :
    Confines o thread q (.wait ready deadline : Process (σ × Ground κ α) ν Nat Wake)
      fun _ => q := by
  rintro t a t' ht (⟨m, u, -, hu, -, -, hothers⟩ | ⟨-, -, hothers⟩)
  · exact (ht.many hu).many hothers
  · exact ht.many hothers

theorem see {f : Moment → σ × Ground κ α → ρ} :
    Confines o thread q (.see f : Process (σ × Ground κ α) ν Nat ρ) fun _ => q :=
  still (f := fun m t => (f m t, t)) fun _ _ => rfl

/-! ### Layers -/

variable {o : Holders Nat κ σ} {q : Nat → κ → Prop}

/-- What lies below a layer ends as it would by itself, and the layer's own latches stay as they are
but for what the others do. -/
theorem ends_below {own : β → κ → Option String} {p : Routine κ α σ ρ}
    {t t' : (β × σ) × Ground κ α} {a : ρ}
    (h : (Routine.below p).Ends (Spares (Holders.above own o) thread) thread t a t') :
    p.Ends (Spares o thread) thread (t.1.2, t.2) a (t'.1.2, t'.2) ∧
      ∀ k, own t'.1.1 k = some thread → own t.1.1 k = some thread :=
  let Keeps (t t' : (β × σ) × Ground κ α) : Prop :=
    ∀ k, own t'.1.1 k = some thread → own t.1.1 k = some thread
  have hpart (t t' : (β × σ) × Ground κ α) (hs : Spares (Holders.above own o) thread t t') :
      Spares o thread (t.1.2, t.2) (t'.1.2, t'.2) := fun i => hs (i + 1)
  have hown (t t' : (β × σ) × Ground κ α) (hs : Spares (Holders.above own o) thread t t') :
      Keeps t t' := hs 0
  Process.Ends.within (fun t => (t.1.2, t.2)) (fun u t => ((t.1.1, u.1), u.2)) Keeps
    (fun _ _ => rfl) hpart (fun _ _ hk => hk) (fun _ _ _ h₁ h₂ k hk => h₁ k (h₂ k hk)) hown
    (fun _ _ _ hk => hk) h

/-- What lies below a layer without latches. -/
theorem below {p : Routine κ α σ ρ} {r : ρ → Nat → κ → Prop}
    (h : Confines o thread (fun i => q (i + 1)) p fun a i => r a (i + 1)) :
    Confines (Holders.above (fun (_ : β) _ => none) o) thread q (Routine.below p) r := by
  intro t a t' ht hends
  have hbelow := h (t.1.2, t.2) a (t'.1.2, t'.2) (fun i => ht (i + 1)) (ends_below hends).1
  rintro (_ | i) k hk
  · cases hk
  · exact hbelow i k hk

/-- What lies below a layer with latches. -/
theorem below_latches {own : β → κ → Option String} {p : Routine κ α σ ρ}
    {r : ρ → Nat → κ → Prop} (h : Confines o thread (fun i => q (i + 1)) p r) :
    Confines (Holders.above own o) thread q (Routine.below p) fun a i k =>
      match i with
      | 0 => q 0 k
      | i + 1 => r a i k := by
  intro t a t' ht hends
  have hbelow := h (t.1.2, t.2) a (t'.1.2, t'.2) (fun i => ht (i + 1)) (ends_below hends).1
  rintro (_ | i) k hk
  · exact ht 0 k ((ends_below hends).2 k hk)
  · exact hbelow i k hk

/-- A step of a layer without latches on its own state and the ground. -/
theorem handle {f : Moment → β → Ground κ α → ρ × β × Ground κ α} :
    Confines (Holders.above (fun _ _ => none) o) thread q
      (Routine.handle f : Routine κ α (β × σ) ρ) fun _ => q :=
  sparing fun _ _ i _ hk => by
    cases i with
    | zero => cases hk
    | succ i => exact hk

theorem change {f : β → β} :
    Confines (Holders.above (fun _ _ => none) o) thread q
      (Routine.change f : Routine κ α (β × σ) Unit) fun _ => q :=
  handle (f := fun _ l g => ((), f l, g))

end Confines

/-! ## The operations of a cache -/

/-- What the operations of a cache make of the latches of the thread that calls them. -/
structure Routines.Yields (o : Holders Nat κ σ) (thread : String) (d : Routines κ α σ) : Prop where
  put : ∀ k c q, Confines o thread q (d.put k c) fun a i k' => q i k' ∧ (a = .ok () → k' ≠ k)
  get : ∀ k q, Confines o thread q (d.get k) fun a i k' => q i k' ∨ a = .ok none ∧ k' = k
  remove : ∀ k q, Confines o thread q (d.remove k) fun _ i k' => q i k' ∧ k' ≠ k
  clear : ∀ q, Confines o thread q d.clear fun _ => q
  size : ∀ q, Confines o thread q d.size fun _ => q
  release : ∀ k q, Confines o thread q (d.release k) fun _ i k' => q i k' ∧ k' ≠ k

/-- The operations of a cache below a layer, as steps of the layer. -/
def Routines.lifted (β : Type) (d : Routines κ α σ) : Routines κ α (β × σ) where
  id := d.id
  base := d.base
  put k c := .below (d.put k c)
  get k := .below (d.get k)
  remove k := .below (d.remove k)
  clear := .below d.clear
  size := .below d.size
  release k := .below (d.release k)

namespace Routines.Yields

open Routine (below change handle note own issue forEach guarded)

variable {o : Holders Nat κ σ} {thread : String} {d : Routines κ α σ}

theorem lifted (h : d.Yields o thread) :
    (d.lifted β).Yields (Holders.above (fun _ _ => none) o) thread where
  put k c _ := (h.put k c _).below
  get k _ := (h.get k _).below
  remove k _ := (h.remove k _).below
  clear _ := (h.clear _).below
  size _ := (h.size _).below
  release k _ := (h.release k _).below

/-- Removing keys one after the other. -/
theorem removing (h : d.Yields o thread) (ks : List κ) (q : Nat → κ → Prop) :
    Confines o thread q (forEach d.remove ks) fun _ i k => q i k ∧ k ∉ ks := by
  induction ks generalizing q with
  | nil => exact .done fun _ _ hq => ⟨hq, List.not_mem_nil⟩
  | cons k ks ih =>
    refine (h.remove k q).bind fun _ => (ih _).mono fun _ i k' hk' => ⟨hk'.1.1, ?_⟩
    rw [List.mem_cons, not_or]
    exact ⟨hk'.1.2, hk'.2⟩

/-- Releasing keys one after the other. -/
theorem releasing (h : d.Yields o thread) (ks : List κ) (q : Nat → κ → Prop) :
    Confines o thread q (forEach d.release ks) fun _ i k => q i k ∧ k ∉ ks := by
  induction ks generalizing q with
  | nil => exact .done fun _ _ hq => ⟨hq, List.not_mem_nil⟩
  | cons k ks ih =>
    refine (h.release k q).bind fun _ => (ih _).mono fun _ i k' hk' => ⟨hk'.1.1, ?_⟩
    rw [List.mem_cons, not_or]
    exact ⟨hk'.1.2, hk'.2⟩

/-! ## Layers without latches -/

variable [DecidableEq κ]

theorem bare (id : String) (base : Nat) :
    (Routines.bare id base : Routines κ α Unit).Yields (fun _ _ _ => none) thread where
  put _ _ _ := fun _ _ _ _ _ _ _ hk => nomatch hk
  get _ _ := fun _ _ _ _ _ _ _ hk => nomatch hk
  remove _ _ := fun _ _ _ _ _ _ _ hk => nomatch hk
  clear _ := fun _ _ _ _ _ _ _ hk => nomatch hk
  size _ := fun _ _ _ _ _ _ _ hk => nomatch hk
  release _ _ := fun _ _ _ _ _ _ _ hk => nomatch hk

theorem recency (h : d.Yields o thread) :
    (Recency.routines d).Yields (Holders.above (fun _ _ => none) o) thread where
  put k c q := by
    refine (h.lifted.put k c q).bind ?_
    rintro (e | _)
    · exact .done fun _ _ hq => ⟨hq.1, nofun⟩
    · refine Confines.handle.bind ?_
      rintro (_ | eldest)
      · exact .done fun _ _ hq => ⟨hq.1, fun _ => hq.2 rfl⟩
      · refine Confines.note.bind fun _ => (h.lifted.remove eldest _).bind fun _ => ?_
        exact .done fun _ _ hq => ⟨hq.1.1, fun _ => hq.1.2 rfl⟩
  get k q := Confines.change.bind fun _ => h.lifted.get k q
  remove k q := Confines.change.bind fun _ => h.lifted.remove k q
  clear q := (h.lifted.clear q).bind fun _ => .change
  size q := h.lifted.size q
  release k q := h.lifted.release k q

omit [DecidableEq κ] in
theorem writeQueue (h : d.Yields o thread) :
    (WriteQueue.routines d).Yields (Holders.above (fun _ _ => none) o) thread where
  put k c q := by
    refine Confines.handle.bind ?_
    rintro (_ | oldest)
    · exact h.lifted.put k c q
    · refine Confines.note.bind fun _ => (h.lifted.remove oldest q).bind fun _ => ?_
      exact (h.lifted.put k c _).mono fun _ _ _ hq => ⟨hq.1.1, hq.2⟩
  get k q := h.lifted.get k q
  remove k q := h.lifted.remove k q
  clear q := (h.lifted.clear q).bind fun _ => .change
  size q := h.lifted.size q
  release k q := h.lifted.release k q

omit [DecidableEq κ] in
theorem passing (h : d.Yields o thread) :
    (Passing.routines d).Yields (Holders.above (fun _ _ => none) o) thread where
  put k c q := .locked (h.lifted.put k c q)
  get k q := .locked (h.lifted.get k q)
  remove k q := .locked (h.lifted.remove k q)
  clear q := .locked (h.lifted.clear q)
  size q := .locked (h.lifted.size q)
  release k q := .locked (h.lifted.release k q)

omit [DecidableEq κ] in
theorem hitCount (h : d.Yields o thread) :
    (HitCount.routines d).Yields (Holders.above (fun _ _ => none) o) thread where
  put k c q := h.lifted.put k c q
  get k q := by
    refine Confines.change.bind fun _ => (h.lifted.get k q).bind ?_
    rintro (e | found)
    · exact .done fun _ _ hq => hq
    · exact Confines.handle.bind fun _ => Confines.note.bind fun _ => .done fun _ _ hq => hq
  remove k q := h.lifted.remove k q
  clear q := h.lifted.clear q
  size q := h.lifted.size q
  release k q := h.lifted.release k q

omit [DecidableEq κ] in
/-- Clearing before an operation. -/
theorem flushing (h : d.Yields o thread) (q : Nat → κ → Prop) :
    Confines (Holders.above (fun _ _ => none) o) thread q (Window.flushing d) fun _ => q := by
  refine Confines.see.bind fun _ => .locked (Confines.see.bind ?_)
  rintro (_ | _)
  · exact .done fun _ _ hq => hq
  · exact Confines.note.bind fun _ => (h.lifted.clear q).bind fun _ =>
      Confines.change.bind fun _ => .done fun _ _ hq => hq

omit [DecidableEq κ] in
theorem window (h : d.Yields o thread) :
    (Window.routines d).Yields (Holders.above (fun _ _ => none) o) thread where
  put k c q := (h.flushing q).bind fun _ => h.lifted.put k c q
  get k q := by
    refine (h.flushing q).bind ?_
    rintro (_ | _)
    · exact h.lifted.get k q
    · -- A lookup that clears releases the key instead of looking it up.
      exact (h.lifted.release k q).bind fun _ => .done fun _ _ hq => .inl hq.1
  remove k q := (h.flushing q).bind fun _ => h.lifted.remove k q
  clear q := .locked (Confines.see.bind fun _ => Confines.change.bind fun _ => h.lifted.clear q)
  size q := (h.flushing q).bind fun _ => h.lifted.size q
  release k q := h.lifted.release k q

/-- Purging before an operation. -/
theorem purging (h : d.Yields o thread) (q : Nat → κ → Prop) :
    Confines (Holders.above (fun _ _ => none) o) thread q (Leasing.purging d) fun _ => q := by
  have hattending : Confines (Holders.above (fun _ _ => none) o) thread q (Leasing.attending d)
      fun _ => q := by
    refine Confines.handle.bind fun due => ?_
    split
    split
    · exact (Confines.change.bind fun _ => .locked .handle).bind fun _ => .note
    · exact .done fun _ _ hq => hq
  refine hattending.bind fun _ => .locked (Confines.handle.bind fun keys => ?_)
  have hremoving : Confines o thread (fun i => q (i + 1)) (forEach d.remove keys)
      fun _ i => q (i + 1) := (h.removing keys _).mono fun _ _ _ hq => hq.1
  exact (Confines.below (r := fun _ => q) hremoving).bind fun _ => .handle

theorem leasing (h : d.Yields o thread) :
    (Leasing.routines d).Yields (Holders.above (fun _ _ => none) o) thread where
  put k c q := by
    refine (h.purging q).bind fun _ => Confines.issue.bind fun serial =>
      Confines.holding.bind fun _ => ?_
    have hstoring : Confines (Holders.above (fun _ _ => none) o) thread q
        (Leasing.storing d k c serial) fun a i k' => q i k' ∧ (a = .ok () → k' ≠ k) := by
      refine (h.lifted.put k _ q).bind ?_
      rintro (e | _)
      · exact .done fun _ _ hq => hq
      · exact Confines.change.bind fun _ => .done fun _ _ hq => hq
    refine hstoring.locked.bind fun written => Confines.dropping.bind fun _ => ?_
    rcases written with e | _
    · exact .done fun _ _ hq => ⟨hq.1, nofun⟩
    · exact Confines.handle.mono fun _ _ _ hq => ⟨hq.1, fun _ => hq.2 rfl⟩
  get k q := by
    refine (h.purging q).bind fun _ => (h.lifted.get k q).bind ?_
    rintro (e | _ | c)
    · exact .done fun _ _ hq => hq
    · exact .done fun _ _ hq => hq
    · -- What was found is handed on, or dropped because nobody keeps it alive.
      refine Confines.handle.bind ?_
      have hfound : ∀ i k', q i k' ∨ (.ok (some c) : Found κ α) = .ok none ∧ k' = k → q i k' :=
        fun _ _ hq => hq.resolve_right fun hmiss => nomatch hmiss.1
      rintro (_ | _)
      · refine Confines.bind (r := fun _ => q) (.locked (Confines.see.bind ?_)) fun _ =>
          .done fun _ _ hq => .inl hq
        rintro (_ | _)
        · exact .done hfound
        · refine Confines.change.bind fun _ => (h.lifted.remove k _).bind fun _ => ?_
          exact .done fun i k' hq => hfound i k' hq.1
      · exact .done fun _ _ hq => hq.imp_right fun hmiss => nomatch hmiss.1
  remove k q := by
    refine (h.purging q).bind fun _ =>
      (Confines.locked (Confines.change.bind fun _ => h.lifted.remove k q)).bind ?_
    rintro (_ | c)
    · exact .done fun _ _ hq => hq
    · exact .handle
  clear q := Confines.change.bind fun _ => .locked (Confines.change.bind fun _ => h.lifted.clear q)
  size q := (h.purging q).bind fun _ => h.lifted.size q
  release k q := h.lifted.release k q

omit [DecidableEq κ] in
theorem packing [Codec α] (h : d.Yields o thread) :
    (Packing.routines d).Yields (Holders.above (fun _ _ => none) o) thread where
  put k c q := by
    unfold Packing.routines
    dsimp only
    split
    · exact Confines.dropping.bind fun _ => .done fun _ _ hq => ⟨hq, nofun⟩
    · refine Confines.issue.bind fun serial => Confines.holding.bind fun _ => ?_
      refine (h.lifted.put k _ q).bind fun _ => Confines.dropping.bind fun _ => ?_
      exact .done fun _ _ hq => hq
  get k q := by
    refine (h.lifted.get k q).bind ?_
    rintro (e | _ | c)
    · exact .done fun _ _ hq => hq
    · exact .done fun _ _ hq => hq
    · refine Confines.bind (.still fun _ _ => rfl) ?_
      rintro (e | c')
      · exact .done fun _ _ hq => hq.imp_right fun hmiss => nomatch hmiss.1
      · exact .done fun _ _ hq => hq.imp_right fun hmiss => nomatch hmiss.1
  remove k q := by
    refine (h.lifted.remove k q).bind ?_
    rintro (_ | c)
    · exact .done fun _ _ hq => hq
    · refine Confines.bind (.still fun _ _ => rfl) ?_
      rintro (e | c')
      · exact Confines.note.bind fun _ => .done fun _ _ hq => hq
      · exact .done fun _ _ hq => hq
  clear q := h.lifted.clear q
  size q := h.lifted.size q
  release k q := h.lifted.release k q

/-! ## Layers with latches -/

/-- Opening the latch of a key. -/
theorem unlatching {k : κ} {q r : Nat → κ → Prop} (hown : ∀ k', k' ≠ k → q 0 k' → r 0 k')
    (hbelow : ∀ i k', q (i + 1) k' → r (i + 1) k') :
    Confines (Holders.above Gate.owner? o) thread q
      (change (·.unlatch k) : Routine κ α (Gate κ × σ) Unit) fun _ => r := by
  refine .act (f := fun _ (t : (Gate κ × σ) × Ground κ α) =>
    ((), (t.1.1.unlatch k, t.1.2), t.2)) fun m t _ ht => ?_
  rintro (_ | i) k' hk'
  · have howner : (if k' = k then none else t.1.1.owner? k') = some thread :=
      (Gate.owner?_unlatch t.1.1 k k').symm.trans hk'
    split at howner
    · cases howner
    · next hne => exact hown k' hne (ht 0 k' howner)
  · exact hbelow i k' (ht (i + 1) k' hk')

/-- Taking the latch of a key. -/
theorem claiming {k : κ} {q r : Nat → κ → Prop} (hown : ∀ k', q 0 k' ∨ k' = k → r 0 k')
    (hbelow : ∀ i k', q (i + 1) k' → r (i + 1) k') :
    Confines (Holders.above Gate.owner? o) thread q
      (handle fun m t g => ((), t.claim k m.thread, g) : Routine κ α (Gate κ × σ) Unit)
      fun _ => r := by
  refine .act fun m t hm ht => ?_
  rintro (_ | i) k' hk'
  · refine hown k' ?_
    by_cases he : k' = k
    · exact .inr he
    · have howner : (t.1.1.claim k m.thread).owner? k' = t.1.1.owner? k' := by
        unfold Gate.claim
        split
        · rfl
        · rw [Gate.owner?_latch, if_neg he]
      exact .inl (ht 0 k' (howner.symm.trans hk'))
  · exact hbelow i k' (ht (i + 1) k' hk')

/-- A lookup that may pass or has waited for too long. -/
theorem looking (h : d.Yields o thread) (k : κ) (w : Wake) (q : Nat → κ → Prop) :
    Confines (Holders.above Gate.owner? o) thread q (Gate.looking d k w) fun a i k' =>
      q i k' ∨ a = .ok none ∧ k' = k := by
  cases w with
  | opened =>
    -- The latch is the thread's own during the lookup below.
    let taken : Nat → κ → Prop
      | 0, k' => q 0 k' ∨ k' = k
      | i + 1, k' => q (i + 1) k'
    refine (claiming (r := taken) (fun _ hk' => hk') fun _ _ hq => hq).bind fun _ => ?_
    refine (Confines.below_latches (h.get k _)).bind ?_
    have hopening : ∀ found : Found κ α, found ≠ .ok none →
        Confines (Holders.above Gate.owner? o) thread
          (fun i k' => match i with
            | 0 => taken 0 k'
            | i + 1 => taken (i + 1) k' ∨ found = .ok none ∧ k' = k)
          (do change (·.unlatch k); return found : Routine κ α (Gate κ × σ) (Found κ α))
          fun a i k' => q i k' ∨ a = .ok none ∧ k' = k := by
      intro found hfound
      refine (unlatching (r := q) (fun k' hne hq => hq.resolve_right hne) fun i k' hq =>
        hq.resolve_right fun hmiss => hfound hmiss.1).bind fun _ => ?_
      exact .done fun _ _ hq => .inl hq
    rintro (e | _ | c)
    · exact hopening (.error e) nofun
    · refine .done fun i k' hq => ?_
      cases i with
      | zero => exact hq.imp_right fun he => ⟨rfl, he⟩
      | succ i => exact hq
    · exact hopening (.ok (some c)) nofun
  | expired =>
    refine Confines.see.bind ?_
    rintro (_ | timeout)
    · exact .done fun _ _ hq => .inl hq
    · exact Confines.note.bind fun _ => .done fun _ _ hq => .inl hq

theorem gate (h : d.Yields o thread) :
    (Gate.routines d).Yields (Holders.above Gate.owner? o) thread where
  put k c q := by
    refine (Confines.below_latches (h.put k c _)).bind fun a => ?_
    exact Confines.bind (unlatching (fun _ hne hq => ⟨hq, fun _ => hne⟩) fun _ _ hq => hq)
      fun _ => .done fun _ _ hq => hq
  get k q := Confines.see.bind fun _ => Confines.wait.bind fun w => h.looking k w q
  remove k q := by
    refine (Confines.below_latches (h.remove k _)).bind fun a => ?_
    exact Confines.bind (unlatching (fun _ hne hq => ⟨hq, hne⟩) fun _ _ hq => hq)
      fun _ => .done fun _ _ hq => hq
  clear q := (Confines.below_latches (h.clear _)).mono fun _ i _ hq => by cases i <;> exact hq
  size q := (Confines.below_latches (h.size _)).mono fun _ i _ hq => by cases i <;> exact hq
  release k q := by
    let opened : Nat → κ → Prop
      | 0, k' => q 0 k' ∧ k' ≠ k
      | i + 1, k' => q (i + 1) k'
    refine (unlatching (r := opened) (fun k' hne hq => ⟨hq, hne⟩) fun _ _ hq => hq).bind fun _ => ?_
    exact (Confines.below_latches (h.release k _)).mono fun _ i _ hq => by cases i <;> exact hq

end Routines.Yields

/-- What the operations of a stack make of the latches of the thread that calls them. -/
theorem Stack.yields [DecidableEq κ] [Codec α] (thread id : String) (base : Nat)
    (kinds : List Kind) :
    (Stack.routines id base kinds : Routines κ α _).Yields (Stack.holder? kinds) thread := by
  induction kinds with
  | nil => exact .bare id base
  | cons kind kinds ih =>
    cases kind
    · exact ih.recency
    · exact ih.writeQueue
    · exact ih.leasing
    · exact ih.window
    · exact ih.packing
    · exact ih.hitCount
    · exact ih.passing
    · exact ih.gate

end LayeredCache
