import LayeredCache.Proofs.Layer.Answers
import LayeredCache.Proofs.Layer.Mirror
import LayeredCache.Proofs.Transaction.Sole

/-!
# Chains that serve units of work

A chain whose counting layer lies outside everything but exclusion and latches serves the units of
work of a thread, as long as all latches are those of the thread and what is stored can be read: its
calls get an answer, and the counting layer counts what they are told. Writes of values that become
bytes and come back from them leave it so.

Whatever else the operations of the chain keep is kept too, and so is what is known of the keys that
may be stored.

## Main definitions

* `Chain.Tended` — the states of a chain in which it serves the units of work of a thread.
* `Chain.Leaves` — whatever is looked up next leaves certain keys alone stored.

## Main statements

* `Chain.serves` — the law of a chain that serves units of work.
-/

namespace LayeredCache

variable {κ α : Type}

/-- Only keys with the property `p` are stored. -/
def Ground.Among [DecidableEq κ] (base : Nat) (p : κ → Prop) (g : Ground κ α) : Prop :=
  ∀ k y, g.content base k = some y → p k

theorem Ground.Among.within [DecidableEq κ] {base : Nat} {p : κ → Prop} {g g' : Ground κ α}
    (h : g.Among base p) (hg : g'.Within base g) : g'.Among base p :=
  fun k y hk => h k y (hg k y hk)

/-- After a write only the written key is new. -/
theorem Ground.Among.wrote [DecidableEq κ] {base : Nat} {p : κ → Prop} {g g' : Ground κ α}
    (h : g.Among base p) {k : κ} {y : Content α} (hg : g'.Wrote base k y g) (hk : p k) :
    g'.Among base p := by
  intro k' y' hy'
  have hold := hg k' y' hy'
  split at hold
  · next he => exact he ▸ hk
  · exact h k' y' hold

/-! ## Chains serve units of work -/

/-- A value that becomes bytes and comes back from them is kept by every stack. -/
theorem Stack.exists_keep [Codec α] (kinds : List Kind) {v : α} (hv : Packable v) :
    ∃ y, keep kinds (.plain v) = .ok y := by
  obtain ⟨bytes, hencode, -⟩ := hv
  by_cases h : .packing ∈ kinds
  · exact ⟨.packed bytes, by rw [keep_of_packing h, Packing.pack, hencode]; rfl⟩
  · exact ⟨_, keep_of_not_packing h _⟩

namespace Chain

variable [DecidableEq κ] [Codec α]

/-- The counts of the counting layers are `n`, all latches are those of one thread, for keys with
the property `q`, what is stored can be read, and `J` is so. -/
structure Tended (c : Chain κ) (J : Stack κ c.kinds → Ground κ α → Prop) (thread : String)
    (n : List HitCount) (q : κ → Prop) (s : Stack κ c.kinds) (g : Ground κ α) : Prop where
  counts : Stack.hitCounts c.kinds s = n
  owned : Owned (Stack.holder? c.kinds) thread q s
  legible : ∀ k y, g.content c.base k = some y → ∃ x, Stack.read c.kinds y = .ok x
  kept : J s g

/-- Whatever is looked up or counted next, at a moment with the property `M`, only keys with the
property `p` are stored afterwards. -/
structure Leaves (c : Chain κ) (M : Moment → Prop) (p : κ → Prop) (s : Stack κ c.kinds)
    (g : Ground κ α) : Prop where
  get : ∀ m k found, M m → (c.cache.get m k s g).answer = .done found →
    (c.cache.get m k s g).ground.Among c.base p
  size : ∀ m, M m → (c.cache.size m s g).ground.Among c.base p

theorem leaves_of_among {c : Chain κ} {p : κ → Prop} {g : Ground κ α} (h : g.Among c.base p)
    (M : Moment → Prop) (s : Stack κ c.kinds) : c.Leaves M p s g := by
  have hfaithful : (c.cache : Cache κ α _).Faithful (Stack.keep c.kinds) (Stack.read c.kinds) :=
    Stack.faithful c.id c.base c.kinds
  rw [← base_cache (α := α) c] at h
  refine ⟨fun m k _ _ _ => ?_, fun m _ => ?_⟩
  · exact base_cache (α := α) c ▸ h.within (hfaithful.get m k s g)
  · exact base_cache (α := α) c ▸ h.within (hfaithful.size m s g)

variable {c : Chain κ} {J : Stack κ c.kinds → Ground κ α → Prop} {thread : String}
  {n : List HitCount} {q : κ → Prop} {s : Stack κ c.kinds} {g : Ground κ α}

theorem Tended.mono (h : c.Tended J thread n q s g) {q' : κ → Prop} (hq : ∀ k, q k → q' k) :
    c.Tended J thread n q' s g := ⟨h.counts, h.owned.mono hq, h.legible, h.kept⟩

/-- After a call that has stored nothing. -/
theorem Tended.after (h : c.Tended J thread n q s g) {n' : List HitCount} {q' : κ → Prop}
    {s' : Stack κ c.kinds} {g' : Ground κ α} (hcounts : Stack.hitCounts c.kinds s' = n')
    (howned : Owned (Stack.holder? c.kinds) thread q' s') (hg : g'.Within c.base g)
    (hJ : J s' g') : c.Tended J thread n' q' s' g' :=
  ⟨hcounts, howned, fun k y hy => h.legible k y (hg k y hy), hJ⟩

/-- What is written in a chain that is tended stands there so that it can be read. -/
theorem legible_of_wrote {g' : Ground κ α} {k : κ} {v : α} {y : Content α} (hv : Packable v)
    (hkeep : Stack.keep c.kinds (.plain v) = .ok y) (hwrote : g'.Wrote c.base k y g)
    (h : ∀ k y, g.content c.base k = some y → ∃ x, Stack.read c.kinds y = .ok x) (k' : κ)
    (y' : Content α) (hy' : g'.content c.base k' = some y') :
    ∃ x, Stack.read c.kinds y' = .ok x := by
  have hold := hwrote k' y' hy'
  split at hold
  · obtain ⟨bytes, hencode, hdecode⟩ := hv
    have htrips : RoundTrips v := by
      intro bytes' hbytes'
      obtain rfl := Except.ok.inj (hencode.symm.trans hbytes')
      exact hdecode
    exact ⟨_, hold ▸ Stack.read_keep c.kinds (fun _ => htrips) hkeep⟩
  · exact h k' y' hold

section Calls

variable (hcounts : (c.cache : Cache κ α _).Counts (Stack.hitCounts c.kinds))
  (hJ : c.cache.Upholds J) {m : Moment}

include hcounts hJ

/-- A write succeeds if its value has bytes. -/
theorem Tended.put (h : c.Tended J m.thread n q s g) (k : κ) (cell : Cell α) {v : α}
    (hcell : cell.item.content = .plain v) (hv : Packable v) :
    let r := c.cache.put m k cell s g
    r.answer = .ok () ∧ c.Tended J m.thread n (fun k' => q k' ∧ k' ≠ k) r.state r.ground ∧
      ∃ y, r.ground.Wrote c.base k y g := by
  have hbase : (c.cache : Cache κ α _).base = c.base := base_cache c
  obtain ⟨y, hkeep⟩ := Stack.exists_keep c.kinds hv
  rw [← hcell] at hkeep
  have hanswer : (c.cache.put m k cell s g).answer = .ok () :=
    (Stack.sure c.id c.base c.kinds).put m k cell s g y hkeep
  obtain ⟨y', hkeep', hwrote⟩ :=
    (Stack.faithful c.id c.base c.kinds).put_ok m k cell s g hanswer
  rw [hcell] at hkeep'
  refine ⟨hanswer, ⟨?_, ?_, ?_, hJ.put m k cell s g h.kept⟩, y', hbase ▸ hwrote⟩
  · exact (hcounts.put m k cell s g).trans h.counts
  · exact Stack.owned_put c.id c.base h.owned k g cell hanswer
  · exact legible_of_wrote hv hkeep' (hbase ▸ hwrote) h.legible

/-- A lookup gets an answer, and it is counted. -/
theorem Tended.get (hleasing : .leasing ∉ c.kinds.dropLast) (h : c.Tended J m.thread n q s g)
    (k : κ) :
    let r := c.cache.get m k s g
    ∃ found, r.answer = .done (.ok found) ∧
      c.Tended J m.thread (n.map (·.looked found)) (fun k' => q k' ∨ k' = k ∧ found = none)
        r.state r.ground := by
  have hbase : (c.cache : Cache κ α _).base = c.base := base_cache c
  obtain ⟨found, hfound⟩ := Stack.answers c.id c.base c.kinds hleasing (m := m) (k := k)
    (fun i other hk => (h.owned i k other hk).1) (h.legible k)
  have howned := Stack.owned_get c.id c.base h.owned k g hfound
  refine ⟨found, hfound, h.after ?_ ?_ ?_ (hJ.get m k s g h.kept)⟩
  · exact (hcounts.get m k s g found hfound).trans (congrArg _ h.counts)
  · refine howned.mono fun k' hk' => hk'.imp (fun hq => hq) fun hnone => ⟨hnone.2, ?_⟩
    exact Except.ok.inj hnone.1
  · exact hbase ▸ (Stack.faithful c.id c.base c.kinds).get m k s g

end Calls

/-- Chains whose counting layer lies outside everything but exclusion and latches serve the units of
work of a thread, if what these write has bytes. -/
theorem serves {outer inner : List Kind} (hkinds : c.kinds = outer ++ .counting :: inner)
    (houter : ∀ kind ∈ outer, kind = .passing ∨ kind = .latching) (hinner : .counting ∉ inner)
    (hleasing : .leasing ∉ c.kinds.dropLast) (hJ : c.cache.Upholds J) {M : Moment → Prop}
    (hthread : ∀ m, M m → m.thread = thread) (hholding : ∀ m serials, M m → M (m.holding serials))
    (p : κ → Prop) :
    c.cache.Serves M (fun n q s g => c.Tended J thread n q s g ∧ c.Leaves M p s g)
      (fun n q s g => c.Tended J thread n q s g ∧ g.Among c.base p)
      fun k x => p k ∧ ∃ v, x = .plain v ∧ Packable v := by
  have hbase : (c.cache : Cache κ α _).base = c.base := base_cache c
  have hcounts : (c.cache : Cache κ α _).Counts (Stack.hitCounts c.kinds) := by
    obtain ⟨id, base, kinds, stack⟩ := c
    obtain rfl : kinds = outer ++ .counting :: inner := hkinds
    exact Stack.counts id base houter hinner
  have hfaithful : (c.cache : Cache κ α _).Faithful (Stack.keep c.kinds) (Stack.read c.kinds) :=
    Stack.faithful c.id c.base c.kinds
  exact {
    holding := fun serials => hholding _ serials
    ready := fun h => ⟨h.1, leaves_of_among h.2 M _⟩
    mono := fun hq h => ⟨h.1.mono hq, h.2⟩
    elsewhere := by
      intro n q s g g' h hg
      have hwithin : g'.Within c.base g := .of_eq (Ground.content_congr (hbase ▸ hg))
      exact ⟨h.1.after h.1.counts h.1.owned hwithin (hJ.elsewhere h.1.kept hg),
        h.2.within hwithin⟩
    get := by
      intro m n q s g k hm h
      obtain rfl := hthread m hm
      obtain ⟨found, hfound, hdone⟩ := h.1.get hcounts hJ hleasing k
      exact ⟨found, hfound, hdone, h.2.get m k _ hm hfound⟩
    put := by
      rintro m n q s g k cell hm ⟨hk, v, hcell, hv⟩ h
      obtain rfl := hthread m hm
      obtain ⟨hanswer, hdone, y, hwrote⟩ := h.1.put hcounts hJ k cell hcell hv
      exact ⟨hanswer, hdone, h.2.wrote hwrote hk⟩
    remove := by
      intro m n q s g k hm h
      obtain rfl := hthread m hm
      have hwithin : (c.cache.remove m k s g).ground.Within c.base g :=
        hbase ▸ hfaithful.remove m k s g
      exact ⟨h.1.after ((hcounts.remove m k s g).trans h.1.counts)
        (Stack.owned_remove c.id c.base h.1.owned k g) hwithin (hJ.remove m k s g h.1.kept),
        h.2.within hwithin⟩
    release := by
      intro m n q s g k hm h
      obtain rfl := hthread m hm
      have hwithin : (c.cache.release m k s g).ground.Within c.base g :=
        hbase ▸ hfaithful.release m k s g
      exact ⟨h.1.after ((hcounts.release m k s g).trans h.1.counts)
        (Stack.owned_release c.id c.base h.1.owned k g) hwithin (hJ.release m k s g h.1.kept),
        h.2.within hwithin⟩
    size := by
      intro m n q s g hm h
      obtain rfl := hthread m hm
      exact ⟨h.1.after ((hcounts.size m s g).trans h.1.counts)
        (Stack.owned_size c.id c.base h.1.owned g) (hbase ▸ hfaithful.size m s g)
        (hJ.size m s g h.1.kept), h.2.size m hm⟩ }

theorem Tended.of_unlatched (h : c.Tended J thread n (fun _ => False) s g) (other : String) :
    c.Tended J other n (fun _ => False) s g :=
  ⟨h.counts, fun i k holder hk => (h.owned i k holder hk).2.elim, h.legible, h.kept⟩

end Chain

end LayeredCache
