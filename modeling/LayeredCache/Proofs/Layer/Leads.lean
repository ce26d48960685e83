import LayeredCache.Proofs.Layer.Contents
import LayeredCache.Proofs.Run

/-!
# What a layer asks of the cache below it

A layer that reclaims nothing changes the state and the cells below it through operations alone; in
between it tells the journal and takes serial numbers. So what the operations below it lead to, its
own lead to, and a law about the cells and the serial numbers that those keep, a whole stack keeps.

## Main definitions

* `Cache.Leads` — operations of a cache lead from one state and ground to another.
* `Cache.Rests` — the operations of a cache come to operations of another one.
* `Cache.Sustains` — the operations of a cache keep a law of its states and the ground.

## Main statements

* `Kind.rests` — a layer that reclaims nothing rests on the cache below it.
* `Cache.Rests.upholds`, `Cache.Rests.sustains` — so it keeps the properties and the laws of that
  cache.
-/

namespace LayeredCache

variable {κ α σ τ υ : Type}

/-- Operations of `d`, events and serial numbers lead from a state and a ground to another. -/
inductive Cache.Leads (d : Cache κ α σ) (s : σ) (g : Ground κ α) : σ → Ground κ α → Prop where
  | refl : Leads d s g s g
  | note {s' : σ} {g' : Ground κ α} (e : Event κ) : Leads d s g s' g' → Leads d s g s' (g'.note e)
  | issue {s' : σ} {g' : Ground κ α} : Leads d s g s' g' → Leads d s g s' g'.issue
  | put {s' : σ} {g' : Ground κ α} (m : Moment) (k : κ) (c : Cell α) : Leads d s g s' g' →
    Leads d s g (d.put m k c s' g').state (d.put m k c s' g').ground
  | get {s' : σ} {g' : Ground κ α} (m : Moment) (k : κ) : Leads d s g s' g' →
    Leads d s g (d.get m k s' g').state (d.get m k s' g').ground
  | resume {s' : σ} {g' : Ground κ α} (m : Moment) (k : κ) (gate : Nat) (w : Wake) :
    Leads d s g s' g' →
      Leads d s g (d.resume m k gate w s' g').state (d.resume m k gate w s' g').ground
  | remove {s' : σ} {g' : Ground κ α} (m : Moment) (k : κ) : Leads d s g s' g' →
    Leads d s g (d.remove m k s' g').state (d.remove m k s' g').ground
  | clear {s' : σ} {g' : Ground κ α} (m : Moment) : Leads d s g s' g' →
    Leads d s g (d.clear m s' g').state (d.clear m s' g').ground
  | size {s' : σ} {g' : Ground κ α} (m : Moment) : Leads d s g s' g' →
    Leads d s g (d.size m s' g').state (d.size m s' g').ground
  | release {s' : σ} {g' : Ground κ α} (m : Moment) (k : κ) : Leads d s g s' g' →
    Leads d s g (d.release m k s' g').state (d.release m k s' g').ground

/-- The operations of `e` come to operations of `d` on a part of the state. -/
structure Cache.Rests (e : Cache κ α τ) (d : Cache κ α σ) (part : τ → σ) : Prop where
  put : ∀ m k c t g, let r := e.put m k c t g
    d.Leads (part t) g (part r.state) r.ground
  get : ∀ m k t g, let r := e.get m k t g
    d.Leads (part t) g (part r.state) r.ground
  resume : ∀ m k gate w t g, let r := e.resume m k gate w t g
    d.Leads (part t) g (part r.state) r.ground
  remove : ∀ m k t g, let r := e.remove m k t g
    d.Leads (part t) g (part r.state) r.ground
  clear : ∀ m t g, let r := e.clear m t g
    d.Leads (part t) g (part r.state) r.ground
  size : ∀ m t g, let r := e.size m t g
    d.Leads (part t) g (part r.state) r.ground
  release : ∀ m k t g, let r := e.release m k t g
    d.Leads (part t) g (part r.state) r.ground

/-- The operations of `d` keep a law of its states and the ground, and so does everything that
leaves the cells of its base store as they are and takes serial numbers at most. -/
structure Cache.Sustains (d : Cache κ α σ) (I : σ → Ground κ α → Prop) : Prop where
  elsewhere : ∀ s g g', g'.store d.base = g.store d.base → g.issued ≤ g'.issued → I s g → I s g'
  put : ∀ m k c s g, I s g → I (d.put m k c s g).state (d.put m k c s g).ground
  get : ∀ m k s g, I s g → I (d.get m k s g).state (d.get m k s g).ground
  resume : ∀ m k gate w s g, I s g →
    I (d.resume m k gate w s g).state (d.resume m k gate w s g).ground
  remove : ∀ m k s g, I s g → I (d.remove m k s g).state (d.remove m k s g).ground
  clear : ∀ m s g, I s g → I (d.clear m s g).state (d.clear m s g).ground
  size : ∀ m s g, I s g → I (d.size m s g).state (d.size m s g).ground
  release : ∀ m k s g, I s g → I (d.release m k s g).state (d.release m k s g).ground

namespace Cache

variable {d : Cache κ α σ} {s s' : σ} {g g' : Ground κ α}

theorem Sustains.note {I : σ → Ground κ α → Prop} (H : d.Sustains I) (h : I s g) (e : Event κ) :
    I s (g.note e) := H.elsewhere s g _ rfl (Nat.le_refl _) h

theorem Sustains.issue {I : σ → Ground κ α → Prop} (H : d.Sustains I) (h : I s g) : I s g.issue :=
  H.elsewhere s g _ rfl (Nat.le_succ _) h

theorem Sustains.leads {I : σ → Ground κ α → Prop} (H : d.Sustains I) (h : d.Leads s g s' g')
    (hI : I s g) : I s' g' := by
  induction h with
  | refl => exact hI
  | note e _ ih => exact H.note ih e
  | issue _ ih => exact H.issue ih
  | put m k c _ ih => exact H.put m k c _ _ ih
  | get m k _ ih => exact H.get m k _ _ ih
  | resume m k gate w _ ih => exact H.resume m k gate w _ _ ih
  | remove m k _ ih => exact H.remove m k _ _ ih
  | clear m _ ih => exact H.clear m _ _ ih
  | size m _ ih => exact H.size m _ _ ih
  | release m k _ ih => exact H.release m k _ _ ih

theorem Sustains.congr {I J : σ → Ground κ α → Prop} (H : d.Sustains I) (h : ∀ s g, J s g ↔ I s g) :
    d.Sustains J := by
  obtain rfl : J = I := funext fun s => funext fun g => propext (h s g)
  exact H

theorem Sustains.and {I J : σ → Ground κ α → Prop} (H : d.Sustains I) (H' : d.Sustains J) :
    d.Sustains fun s g => I s g ∧ J s g where
  elsewhere s g g' hs hi h := ⟨H.elsewhere s g g' hs hi h.1, H'.elsewhere s g g' hs hi h.2⟩
  put m k c s g h := ⟨H.put m k c s g h.1, H'.put m k c s g h.2⟩
  get m k s g h := ⟨H.get m k s g h.1, H'.get m k s g h.2⟩
  resume m k gate w s g h := ⟨H.resume m k gate w s g h.1, H'.resume m k gate w s g h.2⟩
  remove m k s g h := ⟨H.remove m k s g h.1, H'.remove m k s g h.2⟩
  clear m s g h := ⟨H.clear m s g h.1, H'.clear m s g h.2⟩
  size m s g h := ⟨H.size m s g h.1, H'.size m s g h.2⟩
  release m k s g h := ⟨H.release m k s g h.1, H'.release m k s g h.2⟩

/-- A property that every change elsewhere keeps is a law. -/
theorem Upholds.sustains {I : σ → Ground κ α → Prop} (H : d.Upholds I) : d.Sustains I where
  elsewhere _ _ _ hstore _ h := H.elsewhere h hstore
  put := H.put
  get := H.get
  resume := H.resume
  remove := H.remove
  clear := H.clear
  size := H.size
  release := H.release

theorem Upholds.leads {I : σ → Ground κ α → Prop} (H : d.Upholds I) (h : d.Leads s g s' g')
    (hI : I s g) : I s' g' := H.sustains.leads h hI

/-- What rests on a cache keeps its properties. -/
theorem Rests.upholds {e : Cache κ α τ} {part : τ → σ} (h : e.Rests d part)
    (hbase : e.base = d.base) {I : σ → Ground κ α → Prop} (H : d.Upholds I) :
    e.Upholds fun t g => I (part t) g where
  put m k c t g := H.leads (h.put m k c t g)
  get m k t g := H.leads (h.get m k t g)
  resume m k gate w t g := H.leads (h.resume m k gate w t g)
  remove m k t g := H.leads (h.remove m k t g)
  clear m t g := H.leads (h.clear m t g)
  size m t g := H.leads (h.size m t g)
  release m k t g := H.leads (h.release m k t g)
  elsewhere hI hg := H.elsewhere hI (hbase ▸ hg)

/-- What rests on a cache keeps its laws. -/
theorem Rests.sustains {e : Cache κ α τ} {part : τ → σ} (h : e.Rests d part)
    (hbase : e.base = d.base) {I : σ → Ground κ α → Prop} (H : d.Sustains I) :
    e.Sustains fun t g => I (part t) g where
  elsewhere _ g g' hstore hissued := H.elsewhere _ g g' (hbase ▸ hstore) hissued
  put m k c t g := H.leads (h.put m k c t g)
  get m k t g := H.leads (h.get m k t g)
  resume m k gate w t g := H.leads (h.resume m k gate w t g)
  remove m k t g := H.leads (h.remove m k t g)
  clear m t g := H.leads (h.clear m t g)
  size m t g := H.leads (h.size m t g)
  release m k t g := H.leads (h.release m k t g)

end Cache

section Layers

variable [DecidableEq κ] (d : Cache κ α σ)

open Cache (Rests)

theorem Recency.rests : (Recency.onto d).Rests d Prod.snd where
  put m k c s g := by
    have hput := Cache.Leads.refl.put m k c (d := d) (s := s.2) (g := g)
    simp only [onto]
    cases (d.put m k c s.2 g).answer with
    | error e => exact hput
    | ok _ =>
      rcases (s.1.touch k).evictEldest with ⟨index, _ | eldest⟩
      · exact hput
      · exact (hput.note _).remove m eldest
  get m k _ _ := .get m k .refl
  resume m k gate w _ _ := .resume m k gate w .refl
  remove m k _ _ := .remove m k .refl
  clear m _ _ := .clear m .refl
  size m _ _ := .size m .refl
  release m k _ _ := .release m k .refl

omit [DecidableEq κ] in
theorem WriteQueue.rests : (WriteQueue.onto d).Rests d Prod.snd where
  put m k c s g := by
    simp only [onto]
    rcases s.1.cycle k with ⟨queue, _ | oldest⟩
    · exact .put m k c .refl
    · exact .put m k c (.remove m oldest (.note _ .refl))
  get m k _ _ := .get m k .refl
  resume m k gate w _ _ := .resume m k gate w .refl
  remove m k _ _ := .remove m k .refl
  clear m _ _ := .clear m .refl
  size m _ _ := .size m .refl
  release m k _ _ := .release m k .refl

omit [DecidableEq κ] in
theorem Window.settle_leads (m : Moment) (s : Window × σ) (g : Ground κ α) :
    d.Leads s.2 g (settle d m s g).state.2 (settle d m s g).ground := by
  unfold settle
  split
  · exact .clear m (.note _ .refl)
  · exact .refl

omit [DecidableEq κ] in
theorem Window.rests : (Window.onto d).Rests d Prod.snd where
  put m k c s g := .put m k c (settle_leads d m s g)
  get m k s g := by
    have hsettle := settle_leads d m s g
    simp only [onto]
    split
    · exact .release m k hsettle
    · exact .get m k hsettle
  resume m k gate w _ _ := .resume m k gate w .refl
  remove m k s g := .remove m k (settle_leads d m s g)
  clear m _ _ := .clear m .refl
  size m s g := .size m (settle_leads d m s g)
  release m k _ _ := .release m k .refl

omit [DecidableEq κ] in
theorem HitCount.state_settle (id : String) (count : HitCount) (r : Reply κ α σ (Lookup κ α)) :
    (settle id count r).state.2 = r.state := by
  unfold settle
  split <;> rfl

omit [DecidableEq κ] in
theorem HitCount.rests : (HitCount.onto d).Rests d Prod.snd where
  put m k c _ _ := .put m k c .refl
  get m k s g := by
    have hget := Cache.Leads.refl.get m k (d := d) (s := s.2) (g := g)
    simp only [onto, settle]
    split
    · exact hget.note _
    · exact hget
  resume m k gate w s g := by
    have hresume := Cache.Leads.refl.resume m k gate w (d := d) (s := s.2) (g := g)
    simp only [onto, settle]
    split
    · exact hresume.note _
    · exact hresume
  remove m k _ _ := .remove m k .refl
  clear m _ _ := .clear m .refl
  size m _ _ := .size m .refl
  release m k _ _ := .release m k .refl

omit [DecidableEq κ] in
theorem Passing.rests : (Passing.onto d).Rests d Prod.snd where
  put m k c _ _ := .put m k c .refl
  get m k _ _ := .get m k .refl
  resume m k gate w _ _ := .resume m k gate w .refl
  remove m k _ _ := .remove m k .refl
  clear m _ _ := .clear m .refl
  size m _ _ := .size m .refl
  release m k _ _ := .release m k .refl

theorem Gate.state_settle (t : Gate κ) (k : κ) (r : Reply κ α σ (Lookup κ α)) :
    (t.settle k r).state.2 = r.state := by
  unfold settle
  split <;> rfl

theorem Gate.enter_leads (m : Moment) (k : κ) (s : Gate κ × σ) (g : Ground κ α) :
    d.Leads s.2 g (enter d m k s g).state.2 (enter d m k s g).ground := by
  rcases enter_cases d m k s g with ⟨latch, he⟩ | ⟨t, he⟩
  · rw [he]
    exact .refl
  · rw [he, state_settle, ground_settle]
    exact .get m k .refl

theorem Gate.rests : (Gate.onto d).Rests d Prod.snd where
  put m k c _ _ := .put m k c .refl
  get m k s g := enter_leads d m k s g
  resume m k gate w s g := by
    cases gate with
    | zero =>
      cases w with
      | opened => exact enter_leads d m k s g
      | expired =>
        simp only [onto, giveUp]
        split
        · exact .note _ .refl
        · exact .refl
    | succ gate =>
      simp only [onto, state_settle, ground_settle]
      exact .resume m k gate w .refl
  remove m k _ _ := .remove m k .refl
  clear m _ _ := .clear m .refl
  size m _ _ := .size m .refl
  release m k _ _ := .release m k .refl

section Packing

variable [Codec α]

omit [DecidableEq κ] in
theorem Packing.state_settle (r : Reply κ α σ (Lookup κ α)) : (settle r).state.2 = r.state := by
  unfold settle
  split
  · split <;> rfl
  · rfl

omit [DecidableEq κ] in
theorem Packing.state_remove (m : Moment) (k : κ) (s : Unit × σ) (g : Ground κ α) :
    ((onto d).remove m k s g).state.2 = (d.remove m k s.2 g).state := by
  simp only [onto]
  split
  · rfl
  · split <;> rfl

omit [DecidableEq κ] in
theorem Packing.unpack_leads {d : Cache κ α σ} (c : Cell α) {s s' : σ} {g g' : Ground κ α}
    (h : d.Leads s g s' g') : d.Leads s g s' (unpack c g').1 := by
  unfold unpack
  split
  · exact h
  · split
    · exact h
    · exact h.issue

omit [DecidableEq κ] in
theorem Packing.settle_leads {d : Cache κ α σ} {s : σ} {g : Ground κ α}
    {r : Reply κ α σ (Lookup κ α)} (h : d.Leads s g r.state r.ground) :
    d.Leads s g (settle r).state.2 (settle r).ground := by
  unfold settle
  split
  · next c _ =>
    have hunpacked := unpack_leads c h
    split
    · next hunpack =>
      rw [hunpack] at hunpacked
      exact hunpacked
    · next hunpack =>
      rw [hunpack] at hunpacked
      exact hunpacked
  · exact h

omit [DecidableEq κ] in
theorem Packing.rests : (Packing.onto d).Rests d Prod.snd where
  put m k c s g := by
    simp only [onto]
    cases pack c.item.content with
    | error e => exact .refl
    | ok bytes => exact .put m k _ (.issue .refl)
  get m k s g := settle_leads (.get m k .refl)
  resume m k gate w s g := settle_leads (.resume m k gate w .refl)
  remove m k s g := by
    have hremove := Cache.Leads.refl.remove m k (d := d) (s := s.2) (g := g)
    simp only [onto]
    split
    · exact hremove
    · next c _ =>
      have hunpacked := unpack_leads c hremove
      split
      · next hunpack =>
        rw [hunpack] at hunpacked
        exact hunpacked
      · next hunpack =>
        rw [hunpack] at hunpacked
        exact hunpacked.note _
  clear m _ _ := .clear m .refl
  size m _ _ := .size m .refl
  release m k _ _ := .release m k .refl

end Packing

end Layers

/-- A layer that reclaims nothing rests on the cache below it. -/
theorem Kind.rests [DecidableEq κ] [Codec α] (d : Cache κ α σ) {kind : Kind}
    (h : kind ≠ .leasing) : (kind.onto d).Rests d Prod.snd := by
  cases kind
  case lru => exact Recency.rests d
  case fifo => exact WriteQueue.rests d
  case leasing => exact absurd rfl h
  case window => exact Window.rests d
  case packing => exact Packing.rests d
  case counting => exact HitCount.rests d
  case passing => exact Passing.rests d
  case latching => exact Gate.rests d

end LayeredCache
