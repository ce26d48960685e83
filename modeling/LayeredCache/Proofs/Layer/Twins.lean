import LayeredCache.Proofs.Layer.Contents
import LayeredCache.Proofs.Recency

/-!
# States that cannot be told apart

Two states of a cache are twins if the same calls lead to the same answers and to twins again, and
tell the journal the same, except that the layers may have put off a different number of sweeps. The
calls are those that take up no instance of those that are gone: one that nobody holds any more is
neither written again nor held outside. The grounds give the same serial numbers next.

A layer over a cache with twins has twins: two states of its own that it treats alike, beside twins
below. Indices by recency may keep the same order in different slots, and gates may have opened the
same latches in another order; the other layers are treated alike only if they are equal.

## Main definitions

* `Ground.told` — the journal without sweeps.
* `Ground.Level` — grounds with the same serial numbers to give and the same journal.
* `Cache.Twins` — the law above for a relation of states and grounds.
* `Recency.Twin`, `Gate.Twin` — states of a layer that are treated alike.
-/

namespace LayeredCache

variable {κ α σ τ ρ : Type}

/-! ## Grounds and replies -/

/-- Whether an event counts the cells that a sweep has removed. -/
def Event.isPurge : Event κ → Bool
  | .purged .. => true
  | _ => false

/-- The events that were told, the latest first, without those that count swept cells. -/
def Ground.told (g : Ground κ α) : List (Event κ) := g.journal.filter fun e => !e.isPurge

/-- Two grounds that give the same serial numbers next, none of an instance that is gone, and were
told the same. -/
structure Ground.Level (gone : Nat → Bool) (g g' : Ground κ α) : Prop where
  issued : g'.issued = g.issued
  told : g'.told = g.told
  fresh : ∀ n, gone n = true → n < g.issued

namespace Ground.Level

variable {gone : Nat → Bool} {g g' : Ground κ α}

theorem note (h : Level gone g g') (e : Event κ) : Level gone (g.note e) (g'.note e) := by
  refine ⟨h.issued, ?_, h.fresh⟩
  rw [Ground.told, Ground.told, Ground.note, Ground.note, List.filter_cons, List.filter_cons]
  split
  · exact congrArg _ h.told
  · exact h.told

theorem issue (h : Level gone g g') : Level gone g.issue g'.issue :=
  ⟨congrArg (· + 1) h.issued, h.told, fun n hn => Nat.lt_succ_of_lt (h.fresh n hn)⟩

theorem congr (h : Level gone g g') {g₁ g₁' : Ground κ α} (hissued : g₁.issued = g.issued)
    (hissued' : g₁'.issued = g'.issued) (hjournal : g₁.journal = g.journal)
    (hjournal' : g₁'.journal = g'.journal) : Level gone g₁ g₁' := by
  refine ⟨by rw [hissued, hissued', h.issued], ?_, fun n hn => hissued ▸ h.fresh n hn⟩
  have htold := h.told
  rw [Ground.told, Ground.told] at htold ⊢
  rw [hjournal, hjournal', htold]

theorem not_gone (h : Level gone g g') : gone g.issued = false :=
  Bool.eq_false_iff.mpr fun hgone => Nat.lt_irrefl _ (h.fresh _ hgone)

end Ground.Level

/-- Replies with the same answer, level grounds, and related states and grounds. -/
structure Reply.Twin (gone : Nat → Bool) (R : σ → Ground κ α → σ → Ground κ α → Prop)
    (r r' : Reply κ α σ ρ) : Prop where
  answer : r'.answer = r.answer
  level : r.ground.Level gone r'.ground
  related : R r.state r.ground r'.state r'.ground

/-- A relation of states and grounds beside a relation of own states. -/
def Beside (E : τ → τ → Prop) (R : σ → Ground κ α → σ → Ground κ α → Prop) (s : τ × σ)
    (g : Ground κ α) (s' : τ × σ) (g' : Ground κ α) : Prop :=
  E s.1 s'.1 ∧ R s.2 g s'.2 g'

theorem Reply.Twin.beside {gone : Nat → Bool} {R : σ → Ground κ α → σ → Ground κ α → Prop}
    {E : τ → τ → Prop} {r r' : Reply κ α σ ρ} (h : r.Twin gone R r') {t t' : τ} (ht : E t t') :
    Reply.Twin gone (Beside E R) ⟨(t, r.state), r.ground, r.answer⟩
      ⟨(t', r'.state), r'.ground, r'.answer⟩ :=
  ⟨h.answer, h.level, ht, h.related⟩

/-- At a moment nobody outside holds an instance that is gone. -/
def Moment.Spares (gone : Nat → Bool) (m : Moment) : Prop := ∀ n, gone n = true → m.held n = false

/-- Calls on `d` that take up no instance that is gone do the same in related states and level
grounds. The relation looks at the base stores only. -/
structure Cache.Twins (d : Cache κ α σ) (gone : Nat → Bool)
    (R : σ → Ground κ α → σ → Ground κ α → Prop) : Prop where
  stores : ∀ {s g s' g' g₁ g₁'}, R s g s' g' → g₁.stores = g.stores → g₁'.stores = g'.stores →
    R s g₁ s' g₁'
  put : ∀ {m k c s g s' g'}, m.Spares gone → gone c.item.serial = false → R s g s' g' →
    g.Level gone g' → (d.put m k c s g).Twin gone R (d.put m k c s' g')
  get : ∀ {m k s g s' g'}, m.Spares gone → R s g s' g' → g.Level gone g' →
    (d.get m k s g).Twin gone R (d.get m k s' g')
  resume : ∀ {m k gate w s g s' g'}, m.Spares gone → R s g s' g' → g.Level gone g' →
    (d.resume m k gate w s g).Twin gone R (d.resume m k gate w s' g')
  remove : ∀ {m k s g s' g'}, m.Spares gone → R s g s' g' → g.Level gone g' →
    (d.remove m k s g).Twin gone R (d.remove m k s' g')
  clear : ∀ {m s g s' g'}, m.Spares gone → R s g s' g' → g.Level gone g' →
    (d.clear m s g).Twin gone R (d.clear m s' g')
  size : ∀ {m s g s' g'}, m.Spares gone → R s g s' g' → g.Level gone g' →
    (d.size m s g).Twin gone R (d.size m s' g')
  release : ∀ {m k s g s' g'}, m.Spares gone → R s g s' g' → g.Level gone g' →
    (d.release m k s g).Twin gone R (d.release m k s' g')

variable {d : Cache κ α σ} {gone : Nat → Bool} {R : σ → Ground κ α → σ → Ground κ α → Prop}

theorem Cache.Twins.note (H : d.Twins gone R) {s s' : σ} {g g' : Ground κ α} (h : R s g s' g')
    (e : Event κ) : R s (g.note e) s' (g'.note e) := H.stores h rfl rfl

theorem Cache.Twins.issue (H : d.Twins gone R) {s s' : σ} {g g' : Ground κ α} (h : R s g s' g') :
    R s g.issue s' g'.issue := H.stores h rfl rfl

variable [DecidableEq κ]

/-! ## The base store -/

/-- Grounds with the same cells in a base store. -/
def Ground.SameStore (base : Nat) (g g' : Ground κ α) : Prop := g'.store base = g.store base

theorem Cache.twins_bare (id : String) (base : Nat) (gone : Nat → Bool) :
    (Cache.bare id base : Cache κ α Unit).Twins gone fun _ g _ g' => g.SameStore base g' where
  stores := by
    intro _ g _ g' g₁ g₁' h hg hg'
    rw [Ground.SameStore, Ground.store, Ground.store, hg, hg']
    exact h
  put := by
    intro m k c _ g _ g' _ _ h hlevel
    refine ⟨rfl, ⟨hlevel.issued, hlevel.told, hlevel.fresh⟩, ?_⟩
    simp only [bare, Ground.SameStore, Ground.store_setStore_self]
    rw [show g'.store base = g.store base from h]
  get := by
    intro m k _ g _ g' _ h hlevel
    refine ⟨?_, hlevel, h⟩
    simp only [bare]
    rw [show g'.store base = g.store base from h]
  resume := fun _ h hlevel => ⟨rfl, hlevel, h⟩
  remove := by
    intro m k _ g _ g' _ h hlevel
    simp only [bare]
    rw [show g'.store base = g.store base from h]
    cases (g.store base).find? k with
    | none => exact ⟨rfl, hlevel, h⟩
    | some c =>
      refine ⟨rfl, ⟨hlevel.issued, hlevel.told, hlevel.fresh⟩, ?_⟩
      rw [Ground.SameStore, Ground.store_setStore_self, Ground.store_setStore_self]
  clear := by
    intro m _ g _ g' _ h hlevel
    refine ⟨rfl, ⟨hlevel.issued, hlevel.told, hlevel.fresh⟩, ?_⟩
    simp only [bare, Ground.SameStore, Ground.store_setStore_self]
  size := by
    intro m _ g _ g' _ h hlevel
    refine ⟨?_, hlevel, h⟩
    simp only [bare]
    rw [show g'.store base = g.store base from h]
  release := fun _ h hlevel => ⟨rfl, hlevel, h⟩

/-! ## Layers with a bound -/

/-- Two indices with the same order and the same room. -/
structure Recency.Twin (r r' : Recency κ) : Prop where
  valid : r.Valid
  valid' : r'.Valid
  order : r'.order = r.order
  capacity : r'.capacity = r.capacity

namespace Recency.Twin

variable {r r' r'' : Recency κ}

omit [DecidableEq κ] in
theorem symm (h : Twin r r') : Twin r' r := ⟨h.valid', h.valid, h.order.symm, h.capacity.symm⟩

omit [DecidableEq κ] in
theorem trans (h : Twin r r') (h' : Twin r' r'') : Twin r r'' :=
  ⟨h.valid, h'.valid', h'.order.trans h.order, h'.capacity.trans h.capacity⟩

theorem touch (h : Twin r r') (k : κ) : Twin (r.touch k) (r'.touch k) := by
  obtain ⟨hvalid, horder, hcapacity⟩ := h.valid.touch k
  obtain ⟨hvalid', horder', hcapacity'⟩ := h.valid'.touch k
  exact ⟨hvalid, hvalid', by rw [horder, horder', h.order],
    by rw [hcapacity, hcapacity', h.capacity]⟩

theorem refresh (h : Twin r r') (k : κ) : Twin (r.refresh k) (r'.refresh k) := by
  obtain ⟨hvalid, horder, hcapacity⟩ := h.valid.refresh k
  obtain ⟨hvalid', horder', hcapacity'⟩ := h.valid'.refresh k
  exact ⟨hvalid, hvalid', by rw [horder, horder', h.order],
    by rw [hcapacity, hcapacity', h.capacity]⟩

theorem forget (h : Twin r r') (k : κ) : Twin (r.forget k) (r'.forget k) := by
  obtain ⟨hvalid, horder, hcapacity⟩ := h.valid.forget k
  obtain ⟨hvalid', horder', hcapacity'⟩ := h.valid'.forget k
  exact ⟨hvalid, hvalid', by rw [horder, horder', h.order],
    by rw [hcapacity, hcapacity', h.capacity]⟩

omit [DecidableEq κ] in
theorem clear (h : Twin r r') : Twin r.clear r'.clear :=
  ⟨valid_clear r, valid_clear r', rfl, h.capacity⟩

/-- Both give up the same key. -/
theorem evictEldest (h : Twin r r') :
    Twin r.evictEldest.1 r'.evictEldest.1 ∧ r'.evictEldest.2 = r.evictEldest.2 := by
  obtain ⟨hvalid, hcapacity, heldest, horder⟩ := h.valid.evictEldest
  obtain ⟨hvalid', hcapacity', heldest', horder'⟩ := h.valid'.evictEldest
  rw [h.order, h.capacity] at heldest' horder'
  exact ⟨⟨hvalid, hvalid', horder'.trans horder.symm, by rw [hcapacity, hcapacity', h.capacity]⟩,
    heldest'.trans heldest.symm⟩

end Recency.Twin

theorem Recency.twins (H : d.Twins gone R) : (Recency.onto d).Twins gone (Beside Twin R) where
  stores h hg hg' := ⟨h.1, H.stores h.2 hg hg'⟩
  put := by
    intro m k c s g s' g' hm hc h hlevel
    have hput := H.put (k := k) hm hc h.2 hlevel
    simp only [onto, hput.answer]
    cases (d.put m k c s.2 g).answer with
    | error e => exact ⟨rfl, hput.level, h.1, hput.related⟩
    | ok _ =>
      obtain ⟨hindex, heldest⟩ := (h.1.touch k).evictEldest
      generalize (s.1.touch k).evictEldest = p at hindex heldest
      generalize (s'.1.touch k).evictEldest = p' at hindex heldest
      obtain ⟨index, eldest⟩ := p
      obtain ⟨index', eldest'⟩ := p'
      obtain rfl : eldest' = eldest := heldest
      cases eldest' with
      | none => exact ⟨rfl, hput.level, hindex, hput.related⟩
      | some eldest =>
        have hremove := H.remove (k := eldest) hm
          (H.note hput.related (.evicting .lru d.id eldest)) (hput.level.note _)
        exact ⟨rfl, hremove.level, hindex, hremove.related⟩
  get hm h hlevel := (H.get hm h.2 hlevel).beside (h.1.refresh _)
  resume hm h hlevel := (H.resume hm h.2 hlevel).beside h.1
  remove hm h hlevel := (H.remove hm h.2 hlevel).beside (h.1.forget _)
  clear hm h hlevel := (H.clear hm h.2 hlevel).beside h.1.clear
  size hm h hlevel := (H.size hm h.2 hlevel).beside h.1
  release hm h hlevel := (H.release hm h.2 hlevel).beside h.1

omit [DecidableEq κ] in
theorem WriteQueue.twins (H : d.Twins gone R) : (WriteQueue.onto d).Twins gone (Beside Eq R) where
  stores h hg hg' := ⟨h.1, H.stores h.2 hg hg'⟩
  put := by
    rintro m k c ⟨q, s⟩ g ⟨_, s'⟩ g' hm hc ⟨rfl, h⟩ hlevel
    simp only [onto]
    rcases q.cycle k with ⟨queue, _ | oldest⟩
    · exact (H.put hm hc h hlevel).beside rfl
    · have hremove := H.remove (k := oldest) hm (H.note h (.evicting .fifo d.id oldest))
        (hlevel.note _)
      exact (H.put hm hc hremove.related hremove.level).beside rfl
  get hm h hlevel := (H.get hm h.2 hlevel).beside h.1
  resume hm h hlevel := (H.resume hm h.2 hlevel).beside h.1
  remove hm h hlevel := (H.remove hm h.2 hlevel).beside h.1
  clear := by
    rintro m ⟨q, s⟩ g ⟨_, s'⟩ g' hm ⟨rfl, h⟩ hlevel
    exact (H.clear hm h hlevel).beside rfl
  size hm h hlevel := (H.size hm h.2 hlevel).beside h.1
  release hm h hlevel := (H.release hm h.2 hlevel).beside h.1

/-! ## Layers that flush -/

omit [DecidableEq κ] in
theorem Window.settle_twin (H : d.Twins gone R) {m : Moment} (hm : m.Spares gone)
    {s s' : Window × σ} {g g' : Ground κ α} (h : Beside Eq R s g s' g') (hlevel : g.Level gone g') :
    (settle d m s g).Twin gone (Beside Eq R) (settle d m s' g') := by
  obtain ⟨w, s⟩ := s
  obtain ⟨_, s'⟩ := s'
  obtain ⟨rfl, h⟩ := h
  unfold settle
  simp only
  split
  · have hclear := H.clear hm (H.note h (.flushing d.id)) (hlevel.note _)
    exact ⟨rfl, hclear.level, rfl, hclear.related⟩
  · exact ⟨rfl, hlevel, rfl, h⟩

omit [DecidableEq κ] in
theorem Window.twins (H : d.Twins gone R) : (Window.onto d).Twins gone (Beside Eq R) where
  stores h hg hg' := ⟨h.1, H.stores h.2 hg hg'⟩
  put hm hc h hlevel := by
    have hsettle := settle_twin H hm h hlevel
    exact (H.put hm hc hsettle.related.2 hsettle.level).beside hsettle.related.1
  get := by
    intro m k s g s' g' hm h hlevel
    have hsettle := settle_twin H hm h hlevel
    simp only [onto, hsettle.answer]
    split
    · have hrelease := H.release (k := k) hm hsettle.related.2 hsettle.level
      exact ⟨rfl, hrelease.level, hsettle.related.1, hrelease.related⟩
    · exact (H.get hm hsettle.related.2 hsettle.level).beside hsettle.related.1
  resume hm h hlevel := (H.resume hm h.2 hlevel).beside h.1
  remove hm h hlevel := by
    have hsettle := settle_twin H hm h hlevel
    exact (H.remove hm hsettle.related.2 hsettle.level).beside hsettle.related.1
  clear := by
    rintro m ⟨w, s⟩ g ⟨_, s'⟩ g' hm ⟨rfl, h⟩ hlevel
    exact (H.clear hm h hlevel).beside rfl
  size hm h hlevel := by
    have hsettle := settle_twin H hm h hlevel
    exact (H.size hm hsettle.related.2 hsettle.level).beside hsettle.related.1
  release hm h hlevel := (H.release hm h.2 hlevel).beside h.1

/-! ## Layers that count, exclude and latch -/

omit [DecidableEq κ] in
theorem HitCount.settle_twin (H : d.Twins gone R) (id : String) (count : HitCount)
    {r r' : Reply κ α σ (Lookup κ α)} (h : r.Twin gone R r') :
    (settle id count r).Twin gone (Beside Eq R) (settle id count r') := by
  unfold settle
  rw [h.answer]
  split
  · exact ⟨rfl, h.level.note _, rfl, H.note h.related _⟩
  · exact ⟨rfl, h.level, rfl, h.related⟩

omit [DecidableEq κ] in
theorem HitCount.twins (H : d.Twins gone R) : (HitCount.onto d).Twins gone (Beside Eq R) where
  stores h hg hg' := ⟨h.1, H.stores h.2 hg hg'⟩
  put hm hc h hlevel := (H.put hm hc h.2 hlevel).beside h.1
  get := by
    rintro m k ⟨count, s⟩ g ⟨_, s'⟩ g' hm ⟨rfl, h⟩ hlevel
    exact settle_twin H d.id count.request (H.get hm h hlevel)
  resume := by
    rintro m k gate w ⟨count, s⟩ g ⟨_, s'⟩ g' hm ⟨rfl, h⟩ hlevel
    exact settle_twin H d.id count (H.resume hm h hlevel)
  remove hm h hlevel := (H.remove hm h.2 hlevel).beside h.1
  clear hm h hlevel := (H.clear hm h.2 hlevel).beside h.1
  size hm h hlevel := (H.size hm h.2 hlevel).beside h.1
  release hm h hlevel := (H.release hm h.2 hlevel).beside h.1

omit [DecidableEq κ] in
theorem Passing.twins (H : d.Twins gone R) : (Passing.onto d).Twins gone (Beside Eq R) where
  stores h hg hg' := ⟨h.1, H.stores h.2 hg hg'⟩
  put hm hc h hlevel := (H.put hm hc h.2 hlevel).beside h.1
  get hm h hlevel := (H.get hm h.2 hlevel).beside h.1
  resume hm h hlevel := (H.resume hm h.2 hlevel).beside h.1
  remove hm h hlevel := (H.remove hm h.2 hlevel).beside h.1
  clear hm h hlevel := (H.clear hm h.2 hlevel).beside h.1
  size hm h hlevel := (H.size hm h.2 hlevel).beside h.1
  release hm h hlevel := (H.release hm h.2 hlevel).beside h.1

omit [DecidableEq κ] in
/-- Two gates with the same latches, which have opened the same ones in any order. -/
structure Gate.Twin (t t' : Gate κ) : Prop where
  timeout : t'.timeout = t.timeout
  latches : t'.latches = t.latches
  issued : t'.issued = t.issued
  opened : ∀ n, n ∈ t'.opened ↔ n ∈ t.opened

namespace Gate.Twin

variable {t t' t'' : Gate κ}

omit [DecidableEq κ] in
theorem refl (t : Gate κ) : Twin t t := ⟨rfl, rfl, rfl, fun _ => Iff.rfl⟩

omit [DecidableEq κ] in
theorem symm (h : Twin t t') : Twin t' t :=
  ⟨h.timeout.symm, h.latches.symm, h.issued.symm, fun n => (h.opened n).symm⟩

omit [DecidableEq κ] in
theorem trans (h : Twin t t') (h' : Twin t' t'') : Twin t t'' :=
  ⟨h'.timeout.trans h.timeout, h'.latches.trans h.latches, h'.issued.trans h.issued,
    fun n => (h'.opened n).trans (h.opened n)⟩

theorem latch (h : Twin t t') (k : κ) (owner : String) :
    Twin (t.latch k owner) (t'.latch k owner) := by
  refine ⟨h.timeout, ?_, congrArg (· + 1) h.issued, h.opened⟩
  simp only [Gate.latch, h.latches, h.issued]

theorem unlatch (h : Twin t t') (k : κ) : Twin (t.unlatch k) (t'.unlatch k) := by
  unfold Gate.unlatch
  rw [h.latches]
  split
  · exact h
  · refine ⟨h.timeout, rfl, h.issued, fun n => ?_⟩
    simp only [List.mem_cons, h.opened]

theorem settle (h : Twin t t') (k : κ) {r r' : Reply κ α σ (Lookup κ α)} (hr : r.Twin gone R r') :
    (t.settle k r).Twin gone (Beside Twin R) (t'.settle k r') := by
  unfold Gate.settle
  rw [hr.answer]
  split
  · exact ⟨rfl, hr.level, h, hr.related⟩
  · exact ⟨rfl, hr.level, h.unlatch k, hr.related⟩
  · exact ⟨rfl, hr.level, h, hr.related⟩

end Gate.Twin

theorem Gate.enter_twin (H : d.Twins gone R) {m : Moment} (hm : m.Spares gone) (k : κ)
    {s s' : Gate κ × σ} {g g' : Ground κ α} (h : Beside Twin R s g s' g')
    (hlevel : g.Level gone g') :
    (enter d m k s g).Twin gone (Beside Twin R) (enter d m k s' g') := by
  have hget := H.get (k := k) hm h.2 hlevel
  unfold enter
  rw [h.1.latches]
  split
  · split
    · exact h.1.settle k hget
    · exact ⟨rfl, hlevel, h⟩
  · exact (h.1.latch k m.thread).settle k hget

omit [DecidableEq κ] in
theorem Gate.giveUp_twin (H : d.Twins gone R) (k : κ) {s s' : Gate κ × σ} {g g' : Ground κ α}
    (h : Beside Twin R s g s' g') (hlevel : g.Level gone g') :
    (giveUp d k s g).Twin gone (Beside Twin R) (giveUp d k s' g') := by
  unfold giveUp
  rw [h.1.timeout]
  split
  · exact ⟨rfl, hlevel.note _, h.1, H.note h.2 _⟩
  · exact ⟨rfl, hlevel, h⟩

theorem Gate.twins (H : d.Twins gone R) : (Gate.onto d).Twins gone (Beside Twin R) where
  stores h hg hg' := ⟨h.1, H.stores h.2 hg hg'⟩
  put hm hc h hlevel := (H.put hm hc h.2 hlevel).beside (h.1.unlatch _)
  get hm h hlevel := enter_twin H hm _ h hlevel
  resume := by
    intro m k gate w s g s' g' hm h hlevel
    cases gate with
    | zero =>
      cases w with
      | opened => exact enter_twin H hm k h hlevel
      | expired => exact giveUp_twin H k h hlevel
    | succ gate => exact h.1.settle k (H.resume hm h.2 hlevel)
  remove hm h hlevel := (H.remove hm h.2 hlevel).beside (h.1.unlatch _)
  clear hm h hlevel := (H.clear hm h.2 hlevel).beside h.1
  size hm h hlevel := (H.size hm h.2 hlevel).beside h.1
  release hm h hlevel := (H.release hm h.2 hlevel).beside (h.1.unlatch _)

/-! ## Layers that keep bytes -/

section Packing

variable [Codec α]

omit [DecidableEq κ] in
theorem Packing.stores_unpack (c : Cell α) (g : Ground κ α) : (unpack c g).1.stores = g.stores := by
  unfold unpack
  split
  · rfl
  · split <;> rfl

omit [DecidableEq κ] in
/-- Level grounds give the same number to a decoded instance. -/
theorem Packing.unpack_level (c : Cell α) {g g' : Ground κ α} (h : g.Level gone g') :
    (unpack c g').2 = (unpack c g).2 ∧ (unpack c g).1.Level gone (unpack c g').1 := by
  unfold unpack
  split
  · exact ⟨rfl, h⟩
  · split
    · exact ⟨rfl, h⟩
    · exact ⟨by rw [h.issued], h.issue⟩

omit [DecidableEq κ] in
theorem Packing.settle_twin (H : d.Twins gone R) {r r' : Reply κ α σ (Lookup κ α)}
    (h : r.Twin gone R r') : (settle r).Twin gone (Beside Eq R) (settle r') := by
  unfold settle
  rw [h.answer]
  split
  · next c _ =>
    obtain ⟨hsame, hlevel⟩ := unpack_level c h.level
    have hrelated := H.stores h.related (stores_unpack c _) (stores_unpack c _)
    generalize unpack c r.ground = u at hsame hlevel hrelated
    generalize unpack c r'.ground = u' at hsame hlevel hrelated
    obtain ⟨g, found⟩ := u
    obtain ⟨g', found'⟩ := u'
    obtain rfl : found' = found := hsame
    cases found' with
    | error e => exact ⟨rfl, hlevel, rfl, hrelated⟩
    | ok c => exact ⟨rfl, hlevel, rfl, hrelated⟩
  · exact ⟨rfl, h.level, rfl, h.related⟩

omit [DecidableEq κ] in
theorem Packing.twins (H : d.Twins gone R) : (Packing.onto d).Twins gone (Beside Eq R) where
  stores h hg hg' := ⟨h.1, H.stores h.2 hg hg'⟩
  put := by
    intro m k c s g s' g' hm hc h hlevel
    simp only [onto]
    cases pack c.item.content with
    | error e => exact ⟨rfl, hlevel, h⟩
    | ok bytes =>
      simp only [hlevel.issued]
      exact (H.put hm hlevel.not_gone (H.issue h.2) hlevel.issue).beside rfl
  get hm h hlevel := settle_twin H (H.get hm h.2 hlevel)
  resume hm h hlevel := settle_twin H (H.resume hm h.2 hlevel)
  remove := by
    intro m k s g s' g' hm h hlevel
    have hremove := H.remove (k := k) hm h.2 hlevel
    simp only [onto, hremove.answer]
    cases (d.remove m k s.2 g).answer with
    | none => exact ⟨rfl, hremove.level, rfl, hremove.related⟩
    | some c =>
      obtain ⟨hsame, hlevel⟩ := unpack_level c hremove.level
      have hrelated := H.stores hremove.related (stores_unpack c _) (stores_unpack c _)
      simp only
      generalize unpack c (d.remove m k s.2 g).ground = u at hsame hlevel hrelated
      generalize unpack c (d.remove m k s'.2 g').ground = u' at hsame hlevel hrelated
      obtain ⟨g, found⟩ := u
      obtain ⟨g', found'⟩ := u'
      obtain rfl : found' = found := hsame
      cases found' with
      | error e => exact ⟨rfl, hlevel.note _, rfl, H.note hrelated _⟩
      | ok c => exact ⟨rfl, hlevel, rfl, hrelated⟩
  clear hm h hlevel := (H.clear hm h.2 hlevel).beside rfl
  size hm h hlevel := (H.size hm h.2 hlevel).beside rfl
  release hm h hlevel := (H.release hm h.2 hlevel).beside rfl

end Packing

end LayeredCache
