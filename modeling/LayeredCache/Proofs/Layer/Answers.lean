import LayeredCache.Proofs.Layer.Misses
import LayeredCache.Proofs.Layer.Modesty

/-!
# Calls of a thread that has all latches

A write fails only where its value cannot be kept, and a lookup fails only where what is stored
cannot be read; whatever the layers evict, flush or reclaim on the way, it leads to no failure. A
lookup waits only for a latch of another thread. So a thread that makes its calls one after the
other, and that has all latches, gets an answer to each of them, if the contents of the base store
are such as were written through the stack.

Its calls take latches for the thread alone, for the keys that it misses, and a write, a removal and
a release give those of their keys back.

## Main definitions

* `Cache.Sure` — writes and lookups fail for such reasons alone.
* `Owned` — all latches are those of one thread, for certain keys.

## Main statements

* `Stack.answers` — a lookup by the thread that has the latches of its key gets an answer.
* `Stack.owned_put`, `Stack.owned_get`, … — what a call makes of the latches of its thread.
-/

namespace LayeredCache

variable {κ α σ ρ : Type}

/-! ## Failures -/

/-- A write to `d` succeeds if `keep` says how its content is kept, and a lookup fails only for a
content that `read` does not show. -/
structure Cache.Sure [DecidableEq κ] (d : Cache κ α σ)
    (keep read : Content α → Except CodecError (Content α)) : Prop where
  put : ∀ m k c s g y, keep c.item.content = .ok y → (d.put m k c s g).answer = .ok ()
  get : ∀ m k s g e, (d.get m k s g).answer = .done (.error e) →
    ∃ y, g.content d.base k = some y ∧ ∀ x, read y ≠ .ok x

section Layers

variable [DecidableEq κ] {d : Cache κ α σ} {keep read : Content α → Except CodecError (Content α)}

theorem Cache.sure_bare (id : String) (base : Nat) :
    (Cache.bare id base : Cache κ α Unit).Sure .ok .ok where
  put _ _ _ _ _ _ _ := rfl
  get m k s g e h := by simp [bare] at h

theorem Recency.sure (H : d.Sure keep read) : (Recency.onto d).Sure keep read where
  put m k c s g y hy := by
    simp only [onto, H.put m k c s.2 g y hy]
    rcases (s.1.touch k).evictEldest with ⟨index, _ | eldest⟩ <;> rfl
  get m k s g := H.get m k s.2 g

theorem WriteQueue.sure (H : d.Sure keep read) : (WriteQueue.onto d).Sure keep read where
  put m k c s g y hy := by
    simp only [onto]
    rcases s.1.cycle k with ⟨queue, _ | oldest⟩
    · exact H.put m k c _ _ y hy
    · exact H.put m k c _ _ y hy
  get m k s g := H.get m k s.2 g

theorem Window.sure (H : d.Sure keep read) (hF : d.Faithful keep read) :
    (Window.onto d).Sure keep read where
  put m k c s g := H.put m k c _ _
  get m k s g e h := by
    simp only [onto] at h
    split at h
    · cases h
    · obtain ⟨y, hy, hread⟩ := H.get m k _ _ e h
      exact ⟨y, settle_within hF m s g k y hy, hread⟩

theorem HitCount.sure (H : d.Sure keep read) : (HitCount.onto d).Sure keep read where
  put m k c s g := H.put m k c s.2 g
  get m k s g e h := H.get m k s.2 g e ((answer_settle ..).symm.trans h)

theorem Passing.sure (H : d.Sure keep read) : (Passing.onto d).Sure keep read where
  put m k c s g := H.put m k c s.2 g
  get m k s g := H.get m k s.2 g

theorem Gate.sure (H : d.Sure keep read) : (Gate.onto d).Sure keep read where
  put m k c s g := H.put m k c s.2 g
  get m k s g e h := by
    rcases enter_cases d m k s g with ⟨latch, hwaits⟩ | ⟨t, hpasses⟩
    · cases (congrArg Reply.answer hwaits).symm.trans h
    · exact H.get m k s.2 g e
        ((answer_settle_done ..).mp ((congrArg Reply.answer hpasses).symm.trans h))

omit [DecidableEq κ] in
theorem Packing.unpack_eq_opened [Codec α] (c : Cell α) (g : Ground κ α) :
    (unpack c g).2.map (·.item.content) = opened c.item.content := by
  rcases c with ⟨⟨serial, v | bytes⟩, lease⟩
  · rfl
  · simp only [unpack, opened]
    cases Codec.decode (α := α) bytes <;> rfl

/-- A layer that keeps bytes fails where the layers below it do, and where bytes say nothing. -/
theorem Packing.sure [Codec α] (H : d.Sure keep read) (hF : d.Faithful keep read) :
    (Packing.onto d).Sure (fun x => (pack x).bind fun bytes => keep (.packed bytes))
      (fun y => (read y).bind opened) where
  put m k c s g y hy := by
    simp only [onto]
    cases hpack : pack c.item.content with
    | error e =>
      rw [hpack] at hy
      cases hy
    | ok bytes =>
      rw [hpack] at hy
      exact H.put m k { item := ⟨g.issued, .packed bytes⟩ } s.2 g.issue y hy
  get m k s g e h := by
    simp only [onto, settle] at h
    split at h
    · next c hc =>
      obtain ⟨y, hy, hread⟩ := hF.get_some m k s.2 g c hc
      refine ⟨y, hy, fun x hx => ?_⟩
      have hopened := unpack_eq_opened c (d.get m k s.2 g).ground
      rw [hread] at hx
      split at h
      · cases h
      · next he =>
        rw [he, show opened c.item.content = .ok x from hx] at hopened
        cases hopened
    · obtain ⟨y, hy, hread⟩ := H.get m k s.2 g e h
      refine ⟨y, hy, fun x hx => ?_⟩
      cases hy' : read y with
      | error e' =>
        rw [hy'] at hx
        cases hx
      | ok x' => exact hread x' hy'

theorem Leasing.sure (H : d.Sure keep read) (hF : d.Faithful keep read) :
    (Leasing.onto d).Sure keep read where
  put m k c s g y hy := by
    simp only [onto]
    have hput := H.put m k { c with lease := some ⟨(purge d m s g).ground.issued, true⟩ }
      (purge d m s g).state.2 (purge d m s g).ground.issue y hy
    rw [hput]
  get m k s g e h := by
    simp only [onto, settle] at h
    split at h
    · split at h
      · cases h
      · split at h <;> cases h
    · obtain ⟨y, hy, hread⟩ := H.get m k _ _ e h
      exact ⟨y, purge_within hF m s g k y hy, hread⟩

end Layers

section Stacks

variable [DecidableEq κ] [Codec α]

theorem Stack.sure (id : String) (base : Nat) (kinds : List Kind) :
    (Stack.cache id base kinds : Cache κ α _).Sure (keep kinds) (read kinds) := by
  induction kinds with
  | nil => exact Cache.sure_bare id base
  | cons kind kinds ih =>
    have hF := faithful (κ := κ) (α := α) id base kinds
    cases kind
    case lru => exact Recency.sure ih
    case fifo => exact WriteQueue.sure ih
    case leasing => exact Leasing.sure ih hF
    case window => exact Window.sure ih hF
    case packing => exact Packing.sure ih hF
    case counting => exact HitCount.sure ih
    case passing => exact Passing.sure ih
    case latching => exact Gate.sure ih

/-! ## Waiting -/

/-- A lookup does not wait if no other thread has a latch of its key. -/
theorem Stack.decides_of_holder (id : String) (base : Nat) (kinds : List Kind)
    (hleasing : .leasing ∉ kinds.dropLast) (m : Moment) (k : κ) (s : Stack κ kinds)
    (g : Ground κ α) (h : ∀ i thread, holder? kinds s i k = some thread → thread = m.thread) :
    ∃ found, ((Stack.cache id base kinds).get m k s g).answer = .done found := by
  induction kinds generalizing g with
  | nil => exact ⟨_, rfl⟩
  | cons kind kinds ih =>
    rcases Kind.leasing_cons hleasing with ⟨rfl, rfl⟩ | ⟨hkind, hbelow⟩
    · exact decides id base [.leasing] (by decide) m k s g
    · have ih := fun g => ih hbelow s.2 g fun i => h (i + 1)
      simp only [cache]
      cases kind
      case leasing => exact absurd rfl hkind
      case lru => exact ih g
      case fifo => exact ih g
      case passing => exact ih g
      case window =>
        simp only [Kind.onto, Window.onto, Window.settle]
        split
        · exact ⟨_, rfl⟩
        · exact ih g
      case packing =>
        obtain ⟨found, hfound⟩ := ih g
        simp only [Kind.onto, Packing.onto, Packing.settle, hfound]
        split
        · split <;> exact ⟨_, rfl⟩
        · exact ⟨found, rfl⟩
      case counting =>
        obtain ⟨found, hfound⟩ := ih g
        exact ⟨found, (HitCount.answer_settle ..).trans hfound⟩
      case latching =>
        obtain ⟨found, hfound⟩ := ih g
        obtain ⟨t, -, hget⟩ := Gate.get_passes (d := cache id base kinds) (s := s) (g := g)
          (h 0)
        exact ⟨found, (congrArg Reply.answer hget).trans ((Gate.answer_settle_done ..).mpr hfound)⟩

/-- A lookup gets an answer if no other thread has a latch of its key and what is stored under it
can be read. -/
theorem Stack.answers (id : String) (base : Nat) (kinds : List Kind)
    (hleasing : .leasing ∉ kinds.dropLast) {m : Moment} {k : κ} {s : Stack κ kinds}
    {g : Ground κ α} (h : ∀ i thread, holder? kinds s i k = some thread → thread = m.thread)
    (hread : ∀ y, g.content base k = some y → ∃ x, read kinds y = .ok x) :
    ∃ found, ((Stack.cache id base kinds).get m k s g).answer = .done (.ok found) := by
  obtain ⟨found, hfound⟩ := decides_of_holder id base kinds hleasing m k s g h
  cases found with
  | ok found => exact ⟨found, hfound⟩
  | error e =>
    obtain ⟨y, hy, hnot⟩ := (sure id base kinds).get m k s g e hfound
    rw [base_cache] at hy
    obtain ⟨x, hx⟩ := hread y hy
    exact absurd hx (hnot x)

end Stacks

/-! ## Latches of one thread -/

/-- All latches are those of one thread, for keys with the property `q`. -/
def Owned (o : Holders Nat κ σ) (thread : String) (q : κ → Prop) (s : σ) : Prop :=
  ∀ i k other, o s i k = some other → other = thread ∧ q k

theorem Owned.mono {o : Holders Nat κ σ} {thread : String} {q q' : κ → Prop} {s : σ}
    (h : Owned o thread q s) (hq : ∀ k, q k → q' k) : Owned o thread q' s :=
  fun i k other hk => ⟨(h i k other hk).1, hq k (h i k other hk).2⟩

/-- The steps of a thread, taken at one moment, take latches for no other thread. -/
theorem Modest.of_run {o : Holders Nat κ σ} {p : Routine κ α σ ρ} (hp : p.Heeds (Modest o))
    {m : Moment} {t t' : σ × Ground κ α} {a : ρ} (hrun : p.run m t = some (t', a)) :
    Modest o m t t' := by
  induction p generalizing t with
  | done b =>
    cases hrun
    exact fun _ _ _ hk => .inr hk
  | step change next ih =>
    intro i k thread hk
    have hrest := ih m t (fun m' u u' h => hp m' u u' (.inr ⟨m, t, h⟩)) hrun i k thread hk
    exact hrest.elim .inl fun hk' => hp m t _ (.inl rfl) i k thread hk'
  | take l next ih => exact ih hp hrun
  | give l next ih => exact ih hp hrun
  | grasp x next ih => exact ih hp hrun
  | drop x next ih => exact ih hp hrun
  | await ready deadline next ih =>
    rw [Process.run] at hrun
    split at hrun
    · exact ih .opened (fun m' u u' h => hp m' u u' ⟨.opened, h⟩) hrun
    · cases hrun

/-- What the steps of a thread make of its own latches, they make of all latches where all are its
own. -/
theorem Owned.of_run {o : Holders Nat κ σ} {m : Moment} {q : κ → Prop} {r : ρ → Nat → κ → Prop}
    {p : Routine κ α σ ρ} (hmodest : p.Heeds (Modest o))
    (hconfines : Confines o m.thread (fun _ => q) p r) {t t' : σ × Ground κ α} {a : ρ}
    (hrun : p.run m t = some (t', a)) (h : Owned o m.thread q t.1) (i : Nat) (k : κ)
    (other : String) (hk : o t'.1 i k = some other) : other = m.thread ∧ r a i k := by
  have hown : other = m.thread :=
    (Modest.of_run hmodest hrun i k other hk).elim id fun hk => (h i k other hk).1
  have hconfined : Confined o m.thread (fun _ => q) t := fun i k hk => (h i k _ hk).2
  exact ⟨hown, hconfines t a t' hconfined (Process.ends_of_run _ hrun) i k (hown ▸ hk)⟩

namespace Stack

variable [DecidableEq κ] [Codec α] (id : String) (base : Nat) {kinds : List Kind} {m : Moment}
  {q : κ → Prop} {s : Stack κ kinds} (h : Owned (holder? kinds) m.thread q s) (k : κ)
  (g : Ground κ α)

include h

theorem owned_put (c : Cell α) (hok : ((Stack.cache id base kinds).put m k c s g).answer = .ok ()) :
    Owned (holder? kinds) m.thread (fun k' => q k' ∧ k' ≠ k)
      ((Stack.cache id base kinds).put m k c s g).state := by
  have hrun := (routines_follow id base kinds).put m k c s g
  intro i k' other hk'
  obtain ⟨hown, hq, hopened⟩ := Owned.of_run ((isModest id base kinds).put k c)
    ((yields m.thread id base kinds).put k c fun _ => q) hrun h i k' other hk'
  exact ⟨hown, hq, hopened hok⟩

/-- A lookup takes a latch only if it finds nothing. -/
theorem owned_get {found : Found κ α}
    (hfound : ((Stack.cache id base kinds).get m k s g).answer = .done found) :
    Owned (holder? kinds) m.thread (fun k' => q k' ∨ found = .ok none ∧ k' = k)
      ((Stack.cache id base kinds).get m k s g).state := by
  have hrun := (routines_follow id base kinds).get m k s g
  rw [Reply.finished?, hfound] at hrun
  intro i k' other hk'
  exact Owned.of_run ((isModest id base kinds).get k)
    ((yields m.thread id base kinds).get k fun _ => q) hrun h i k' other hk'

theorem owned_remove :
    Owned (holder? kinds) m.thread (fun k' => q k' ∧ k' ≠ k)
      ((Stack.cache id base kinds : Cache κ α _).remove m k s g).state := by
  have hrun := (routines_follow id base kinds).remove m k s g
  intro i k' other hk'
  exact Owned.of_run ((isModest id base kinds).remove k)
    ((yields m.thread id base kinds).remove k fun _ => q) hrun h i k' other hk'

theorem owned_release :
    Owned (holder? kinds) m.thread (fun k' => q k' ∧ k' ≠ k)
      ((Stack.cache id base kinds : Cache κ α _).release m k s g).state := by
  have hrun := (routines_follow id base kinds).release m k s g
  intro i k' other hk'
  exact Owned.of_run ((isModest id base kinds).release k)
    ((yields m.thread id base kinds).release k fun _ => q) hrun h i k' other hk'

omit k in
theorem owned_size :
    Owned (holder? kinds) m.thread q
      ((Stack.cache id base kinds : Cache κ α _).size m s g).state := by
  have hrun := (routines_follow id base kinds).size m s g
  intro i k' other hk'
  exact Owned.of_run (isModest id base kinds).size
    ((yields m.thread id base kinds).size fun _ => q) hrun h i k' other hk'

end Stack

end LayeredCache
