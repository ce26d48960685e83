import LayeredCache.Proofs.Layer.Custody

/-!
# Which latches other threads take

Whatever a thread is at in a stack of layers, each of its steps takes latches for that thread alone:
only a lookup takes one, and it does so in the name of the thread that looks up. So the operations
of other threads, at whatever step they are, give a thread no latch.

## Main definitions

* `Modest` — changes by which no thread gets a latch but the one that makes them.

## Main statements

* `Stack.isModest` — all steps of all operations of a stack are modest.
-/

namespace LayeredCache

variable {κ α σ β ρ : Type}

/-- A change by which no thread gets a latch but the one that makes it. -/
def Modest (o : Holders Nat κ σ) (m : Moment) (t t' : σ × Ground κ α) : Prop :=
  ∀ i k thread, o t'.1 i k = some thread → thread = m.thread ∨ o t.1 i k = some thread

theorem Modest.spares {o : Holders Nat κ σ} {m : Moment} {thread : String} {t t' : σ × Ground κ α}
    (h : Modest o m t t') (hm : m.thread ≠ thread) : Spares o thread t t' :=
  fun i k hk => (h i k thread hk).resolve_left hm.symm

/-- The operations of a cache take latches for the calling thread alone. -/
structure Routines.IsModest (o : Holders Nat κ σ) (d : Routines κ α σ) : Prop where
  put : ∀ k c, (d.put k c).Heeds (Modest o)
  get : ∀ k, (d.get k).Heeds (Modest o)
  remove : ∀ k, (d.remove k).Heeds (Modest o)
  clear : d.clear.Heeds (Modest o)
  size : d.size.Heeds (Modest o)
  release : ∀ k, (d.release k).Heeds (Modest o)

namespace Routines.IsModest

open Process
open Routine (below change forEach handle issue note own)

variable {o : Holders Nat κ σ} {d : Routines κ α σ} {own : β → κ → Option String}

/-! ### Steps -/

theorem still {f : Moment → σ × Ground κ α → ρ × (σ × Ground κ α)} (h : ∀ m t, (f m t).2.1 = t.1) :
    (Process.act f : Routine κ α σ ρ).Heeds (Modest o) :=
  .act fun m t _ _ _ hk => .inr (h m t ▸ hk)

theorem noting {e : Event κ} : (note e : Routine κ α σ Unit).Heeds (Modest o) :=
  still (f := fun _ t => ((), t.1, t.2.note e)) fun _ _ => rfl

theorem seeing {f : Moment → σ × Ground κ α → ρ} :
    (Process.see f : Routine κ α σ ρ).Heeds (Modest o) :=
  .see fun _ _ _ _ _ hk => .inr hk

theorem lifting {p : Routine κ α σ ρ} (h : p.Heeds (Modest o)) :
    (below p).Heeds (Modest (Holders.above own o)) :=
  .within (fun m t x hx i k thread hk => by
    cases i with
    | zero => exact .inr hk
    | succ i => exact hx i k thread hk) h

/-- A step on the layer's own state that takes latches for nobody else. -/
theorem handling {f : Moment → β → Ground κ α → ρ × β × Ground κ α}
    (h : ∀ m l g k thread, own (f m l g).2.1 k = some thread →
      thread = m.thread ∨ own l k = some thread) :
    (handle f : Routine κ α (β × σ) ρ).Heeds (Modest (Holders.above own o)) :=
  .act fun m t i k thread hk => by
    cases i with
    | zero => exact h m t.1.1 t.2 k thread hk
    | succ i => exact .inr hk

theorem changing {f : β → β} (h : ∀ l k thread, own (f l) k = some thread → own l k = some thread) :
    (change f : Routine κ α (β × σ) Unit).Heeds (Modest (Holders.above own o)) :=
  handling (f := fun _ l g => ((), f l, g)) fun _ l _ k thread hk => .inr (h l k thread hk)

theorem repeating {p : κ → Routine κ α σ ρ} (h : ∀ k, (p k).Heeds (Modest o)) (ks : List κ) :
    (forEach p ks).Heeds (Modest o) := by
  induction ks with
  | nil => exact .done _
  | cons k ks ih => exact (h k).bind fun _ => ih

/-! ### Layers -/

variable [DecidableEq κ]

theorem recency (h : d.IsModest o) :
    (Recency.routines d).IsModest (Holders.above (fun _ _ => none) o) where
  put k c := by
    refine (lifting (h.put k c)).bind ?_
    rintro (e | _)
    · exact .done _
    · refine Heeds.bind (handling nofun) ?_
      rintro (_ | eldest)
      · exact .done _
      · exact noting.bind fun _ => (lifting (h.remove eldest)).bind fun _ => .done _
  get k := (changing nofun).bind fun _ => lifting (h.get k)
  remove k := (changing nofun).bind fun _ => lifting (h.remove k)
  clear := (lifting h.clear).bind fun _ => changing nofun
  size := lifting h.size
  release k := lifting (h.release k)

omit [DecidableEq κ] in
theorem writeQueue (h : d.IsModest o) :
    (WriteQueue.routines d).IsModest (Holders.above (fun _ _ => none) o) where
  put k c := by
    refine Heeds.bind (handling nofun) ?_
    rintro (_ | oldest)
    · exact lifting (h.put k c)
    · exact noting.bind fun _ => (lifting (h.remove oldest)).bind fun _ => lifting (h.put k c)
  get k := lifting (h.get k)
  remove k := lifting (h.remove k)
  clear := (lifting h.clear).bind fun _ => changing nofun
  size := lifting h.size
  release k := lifting (h.release k)

omit [DecidableEq κ] in
theorem passing (h : d.IsModest o) :
    (Passing.routines d).IsModest (Holders.above (fun _ _ => none) o) where
  put k c := (lifting (h.put k c)).locked
  get k := (lifting (h.get k)).locked
  remove k := (lifting (h.remove k)).locked
  clear := (lifting h.clear).locked
  size := (lifting h.size).locked
  release k := (lifting (h.release k)).locked

omit [DecidableEq κ] in
theorem hitCount (h : d.IsModest o) :
    (HitCount.routines d).IsModest (Holders.above (fun _ _ => none) o) where
  put k c := lifting (h.put k c)
  get k := by
    refine (changing nofun).bind fun _ => (lifting (h.get k)).bind ?_
    rintro (e | found)
    · exact .done _
    · exact Heeds.bind (handling nofun) fun _ => noting.bind fun _ => .done _
  remove k := lifting (h.remove k)
  clear := lifting h.clear
  size := lifting h.size
  release k := lifting (h.release k)

omit [DecidableEq κ] in
theorem window (h : d.IsModest o) :
    (Window.routines d).IsModest (Holders.above (fun _ _ => none) o) := by
  have hflushing : (Window.flushing d).Heeds (Modest (Holders.above (fun _ _ => none) o)) := by
    refine seeing.bind fun _ => Heeds.locked (seeing.bind ?_)
    rintro (_ | _)
    · exact .done _
    · exact noting.bind fun _ => (lifting h.clear).bind fun _ =>
        (changing nofun).bind fun _ => .done _
  exact {
    put := fun k c => hflushing.bind fun _ => lifting (h.put k c)
    get := by
      refine fun k => hflushing.bind ?_
      rintro (_ | _)
      · exact lifting (h.get k)
      · exact (lifting (h.release k)).bind fun _ => .done _
    remove := fun k => hflushing.bind fun _ => lifting (h.remove k)
    clear := Heeds.locked (seeing.bind fun _ => (changing nofun).bind fun _ => lifting h.clear)
    size := hflushing.bind fun _ => lifting h.size
    release := fun k => lifting (h.release k) }

theorem purging (h : d.IsModest o) :
    (Leasing.purging d).Heeds (Modest (Holders.above (fun _ _ => none) o)) := by
  have hattending : (Leasing.attending d).Heeds (Modest (Holders.above (fun _ _ => none) o)) := by
    refine Heeds.bind (handling nofun) fun due => ?_
    split
    split
    · exact Heeds.bind ((changing nofun).bind fun _ => (handling nofun).locked) fun _ => noting
    · exact .done _
  exact hattending.bind fun _ => Heeds.locked <| Heeds.bind (handling nofun) fun keys =>
    (lifting (repeating h.remove keys)).bind fun _ => handling nofun

theorem leasing (h : d.IsModest o) :
    (Leasing.routines d).IsModest (Holders.above (fun _ _ => none) o) where
  put k c := by
    have hstoring (serial : Nat) : (Leasing.storing d k c serial).Heeds
        (Modest (Holders.above (fun _ _ => none) o)) := by
      refine (lifting (h.put k _)).bind ?_
      rintro (e | _)
      · exact .done _
      · exact (changing nofun).bind fun _ => .done _
    refine h.purging.bind fun _ => Heeds.bind (still fun _ _ => rfl) fun serial =>
      Heeds.holding.bind fun _ => (hstoring serial).locked.bind fun written =>
      Heeds.dropping.bind fun _ => ?_
    rcases written with e | _
    · exact .done _
    · exact handling nofun
  get k := by
    refine h.purging.bind fun _ => (lifting (h.get k)).bind ?_
    rintro (e | _ | c)
    · exact .done _
    · exact .done _
    · refine Heeds.bind (handling nofun) ?_
      rintro (_ | _)
      · refine Heeds.bind (Heeds.locked (seeing.bind ?_)) fun _ => .done _
        rintro (_ | _)
        · exact .done _
        · exact (changing nofun).bind fun _ => (lifting (h.remove k)).bind fun _ => .done _
      · exact .done _
  remove k := by
    refine h.purging.bind fun _ =>
      (Heeds.locked ((changing nofun).bind fun _ => lifting (h.remove k))).bind ?_
    rintro (_ | c)
    · exact .done _
    · exact handling nofun
  clear := (changing nofun).bind fun _ =>
    Heeds.locked ((changing nofun).bind fun _ => lifting h.clear)
  size := h.purging.bind fun _ => lifting h.size
  release k := lifting (h.release k)

omit [DecidableEq κ] in
theorem packing [Codec α] (h : d.IsModest o) :
    (Packing.routines d).IsModest (Holders.above (fun _ _ => none) o) where
  put k c := by
    unfold Packing.routines
    dsimp only
    split
    · exact Heeds.dropping.bind fun _ => .done _
    · exact Heeds.bind (still fun _ _ => rfl) fun _ => Heeds.holding.bind fun _ =>
        (lifting (h.put k _)).bind fun _ => Heeds.dropping.bind fun _ => .done _
  get k := by
    refine (lifting (h.get k)).bind ?_
    rintro (e | _ | c)
    · exact .done _
    · exact .done _
    · refine Heeds.bind (still fun _ _ => rfl) ?_
      rintro (e | c') <;> exact .done _
  remove k := by
    refine (lifting (h.remove k)).bind ?_
    rintro (_ | c)
    · exact .done _
    · refine Heeds.bind (still fun _ _ => rfl) ?_
      rintro (e | c')
      · exact noting.bind fun _ => .done _
      · exact .done _
  clear := lifting h.clear
  size := lifting h.size
  release k := lifting (h.release k)

theorem bare (id : String) (base : Nat) :
    (Routines.bare id base : Routines κ α Unit).IsModest fun _ _ _ => none where
  put _ _ _ _ _ _ _ _ _ hk := nomatch hk
  get _ _ _ _ _ _ _ _ hk := nomatch hk
  remove _ _ _ _ _ _ _ _ hk := nomatch hk
  clear _ _ _ _ _ _ _ hk := nomatch hk
  size _ _ _ _ _ _ _ hk := nomatch hk
  release _ _ _ _ _ _ _ _ hk := nomatch hk

/-- A layer takes a latch for the thread that looks the key up. -/
theorem gate (h : d.IsModest o) : (Gate.routines d).IsModest (Holders.above Gate.owner? o) := by
  have hunlatching (k : κ) : (change (·.unlatch k) : Routine κ α (Gate κ × σ) Unit).Heeds
      (Modest (Holders.above Gate.owner? o)) := by
    refine changing fun t k' thread hk' => ?_
    rw [Gate.owner?_unlatch] at hk'
    split at hk'
    · cases hk'
    · exact hk'
  have hclaiming (k : κ) : (handle fun m t g => ((), t.claim k m.thread, g) :
      Routine κ α (Gate κ × σ) Unit).Heeds (Modest (Holders.above Gate.owner? o)) := by
    refine handling fun m t _ k' thread hk' => ?_
    dsimp only [Gate.claim] at hk'
    split at hk'
    · exact .inr hk'
    · rw [Gate.owner?_latch] at hk'
      split at hk'
      · exact .inl (Option.some.inj hk').symm
      · exact .inr hk'
  exact {
    put := fun k c => (lifting (h.put k c)).bind fun _ => (hunlatching k).bind fun _ => .done _
    get := by
      refine fun k => seeing.bind fun _ => Heeds.wait.bind ?_
      rintro (_ | _)
      · refine (hclaiming k).bind fun _ => (lifting (h.get k)).bind ?_
        rintro (e | _ | c)
        · exact (hunlatching k).bind fun _ => .done _
        · exact .done _
        · exact (hunlatching k).bind fun _ => .done _
      · refine seeing.bind ?_
        rintro (_ | timeout)
        · exact .done _
        · exact noting.bind fun _ => .done _
    remove := fun k => (lifting (h.remove k)).bind fun _ => (hunlatching k).bind fun _ => .done _
    clear := lifting h.clear
    size := lifting h.size
    release := fun k => (hunlatching k).bind fun _ => lifting (h.release k) }

end Routines.IsModest

/-- The operations of a stack take latches for the calling thread alone. -/
theorem Stack.isModest [DecidableEq κ] [Codec α] (id : String) (base : Nat) (kinds : List Kind) :
    (Stack.routines id base kinds : Routines κ α _).IsModest (Stack.holder? kinds) := by
  induction kinds with
  | nil => exact .bare id base
  | cons kind kinds ih =>
    cases kind
    · exact ih.recency
    · exact ih.writeQueue
    · exact ih.leasing
    · exact ih.window
    · exact ih.packing
    · exact ih.hitCount
    · exact ih.passing
    · exact ih.gate

end LayeredCache
