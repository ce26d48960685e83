import LayeredCache.Proofs.Layer.Leads
import LayeredCache.Proofs.Leasing.Shelving

/-!
# Removals and releases that change places

At one moment, two removals by way of a stack of layers may change places, and so may two releases:
they lead to states that are alike. What makes states alike is a relation that looks at the base
stores only, and which removals, releases and clears at that moment preserve. From there on every
order of the same removals leads to states that are alike.

A layer that changes its own state key by key and passes the call on hands this on from the cache
below. A layer with a window flushes before the first of several removals only. A reclaiming layer
sweeps before each of them, so two orders may leave different cells that the next sweep takes.

## Main definitions

* `Exchanges` — steps for keys, two of which may change places.
* `Cache.Swaps` — removals and releases at a moment may change places.
* `Leasing.Settled` — shelves that are the same after a sweep.

## Main statements

* `Exchanges.perm` — then so may any number of them.
* `Leasing.swaps` — a reclaiming layer over a base store lets removals change places.
-/

namespace LayeredCache

variable {κ α σ τ ρ ρ' : Type}

/-! ## Steps that change places -/

/-- A way in which states are alike that looks at the base stores only. -/
structure Likeness (R : σ → Ground κ α → σ → Ground κ α → Prop) : Prop where
  stores : ∀ {s g s' g' g₁ g₁'}, R s g s' g' → g₁.stores = g.stores → g₁'.stores = g'.stores →
    R s g₁ s' g₁'
  symm : ∀ {s g s' g'}, R s g s' g' → R s' g' s g
  trans : ∀ {s g s' g' s'' g''}, R s g s' g' → R s' g' s'' g'' → R s g s'' g''

theorem Likeness.refl {R : σ → Ground κ α → σ → Ground κ α → Prop} (H : Likeness R) {s s' : σ}
    {g g' : Ground κ α} (h : R s g s' g') : R s g s g := H.trans h (H.symm h)

theorem Likeness.beside {R : σ → Ground κ α → σ → Ground κ α → Prop} (H : Likeness R)
    {E : τ → τ → Prop} (hsymm : ∀ {t t'}, E t t' → E t' t)
    (htrans : ∀ {t t' t''}, E t t' → E t' t'' → E t t'') : Likeness (Beside E R) where
  stores h hg hg' := ⟨h.1, H.stores h.2 hg hg'⟩
  symm h := ⟨hsymm h.1, H.symm h.2⟩
  trans h h' := ⟨htrans h.1 h'.1, H.trans h.2 h'.2⟩

/-- Replies that leave states that are alike. -/
def Reply.Alike (R : σ → Ground κ α → σ → Ground κ α → Prop) (r r' : Reply κ α σ ρ) : Prop :=
  R r.state r.ground r'.state r'.ground

/-- A step for each key that leads from states that are alike to such states; two of them may
change places. -/
structure Exchanges (R : σ → Ground κ α → σ → Ground κ α → Prop)
    (act : κ → σ → Ground κ α → Reply κ α σ ρ) : Prop where
  congr : ∀ (k : κ) {s g s' g'}, R s g s' g' → (act k s g).Alike R (act k s' g')
  swap : ∀ (k k' : κ) {s g}, R s g s g →
    (act k' (act k s g).state (act k s g).ground).Alike R
      (act k (act k' s g).state (act k' s g).ground)

/-- Takes steps for keys one after the other. -/
def stepAll (act : κ → σ → Ground κ α → Reply κ α σ ρ) : List κ → σ → Ground κ α → σ × Ground κ α
  | [], s, g => (s, g)
  | k :: rest, s, g => stepAll act rest (act k s g).state (act k s g).ground

namespace Exchanges

variable {R : σ → Ground κ α → σ → Ground κ α → Prop} {act : κ → σ → Ground κ α → Reply κ α σ ρ}
  {s s' : σ} {g g' : Ground κ α}

theorem stepAll_congr (H : Exchanges R act) (ks : List κ) (h : R s g s' g') :
    R (stepAll act ks s g).1 (stepAll act ks s g).2 (stepAll act ks s' g').1
      (stepAll act ks s' g').2 := by
  induction ks generalizing s g s' g' with
  | nil => exact h
  | cons k ks ih => exact ih (H.congr k h)

/-- Steps for the same keys in any order lead to states that are alike. -/
theorem perm (H : Exchanges R act) (hR : Likeness R) {ks ks' : List κ} (hks : ks.Perm ks')
    (h : R s g s' g') :
    R (stepAll act ks s g).1 (stepAll act ks s g).2 (stepAll act ks' s' g').1
      (stepAll act ks' s' g').2 := by
  induction hks generalizing s g s' g' with
  | nil => exact h
  | cons k _ ih => exact ih (H.congr k h)
  | swap k k' ks =>
    refine H.stepAll_congr ks (hR.trans (H.swap k' k (hR.refl h)) ?_)
    exact H.congr k' (H.congr k h)
  | trans _ _ ih ih' => exact hR.trans (ih (hR.refl h)) (ih' h)

/-- A layer that changes its own state key by key and passes the step on, apart from the journal
and the serial numbers. -/
theorem beside (H : Exchanges R act) (hR : Likeness R) (E : τ → τ → Prop) (f : κ → τ → τ)
    (hcongr : ∀ k {t t'}, E t t' → E (f k t) (f k t'))
    (hswap : ∀ k k' {t}, E t t → E (f k' (f k t)) (f k (f k' t)))
    {act' : κ → τ × σ → Ground κ α → Reply κ α (τ × σ) ρ'}
    (hact : ∀ k s g, (act' k s g).state = (f k s.1, (act k s.2 g).state) ∧
      (act' k s g).ground.stores = (act k s.2 g).ground.stores) :
    Exchanges (Beside E R) act' where
  congr k := by
    intro s g s' g' h
    obtain ⟨hstate, hstores⟩ := hact k s g
    obtain ⟨hstate', hstores'⟩ := hact k s' g'
    rw [Reply.Alike, hstate, hstate']
    exact ⟨hcongr k h.1, hR.stores (H.congr k h.2) hstores hstores'⟩
  swap k k' := by
    intro s g h
    -- the second step is taken on a ground with the same stores as without the layer
    have htwo : ∀ k k', (act' k' (act' k s g).state (act' k s g).ground).state =
          (f k' (f k s.1), (act k' (act k s.2 g).state (act' k s g).ground).state) ∧
        R (act k' (act k s.2 g).state (act k s.2 g).ground).state
          (act k' (act k s.2 g).state (act k s.2 g).ground).ground
          (act k' (act k s.2 g).state (act' k s g).ground).state
          (act' k' (act' k s g).state (act' k s g).ground).ground := by
      intro k k'
      obtain ⟨hstate, hstores⟩ := hact k s g
      obtain ⟨hstate', hstores'⟩ := hact k' (act' k s g).state (act' k s g).ground
      rw [hstate] at hstate' hstores'
      have hone := hR.refl (H.congr k h.2)
      rw [hstate]
      exact ⟨hstate', hR.stores (H.congr k' (hR.stores hone rfl hstores)) rfl hstores'⟩
    obtain ⟨hstate, hone⟩ := htwo k k'
    obtain ⟨hstate', hother⟩ := htwo k' k
    rw [Reply.Alike, hstate, hstate']
    exact ⟨hswap k k' h.1, hR.trans (hR.symm hone) (hR.trans (H.swap k k' h.2) hother)⟩

end Exchanges

/-- At the moment `m`, removals, releases and clears lead from states that are alike to such states;
removals may change places, and so may releases. -/
structure Cache.Swaps (d : Cache κ α σ) (m : Moment) (R : σ → Ground κ α → σ → Ground κ α → Prop) :
    Prop where
  likeness : Likeness R
  remove : Exchanges R (d.remove m)
  release : Exchanges R (d.release m)
  clear : ∀ {s g s' g'}, R s g s' g' → (d.clear m s g).Alike R (d.clear m s' g')

namespace Cache.Swaps

variable {d : Cache κ α σ} {m : Moment} {R : σ → Ground κ α → σ → Ground κ α → Prop}
  {s s' : σ} {g g' : Ground κ α} {ks ks' : List κ}

theorem removeAll (H : d.Swaps m R) (hks : ks.Perm ks') (h : R s g s' g') :
    R (d.removeAll m ks s g).1 (d.removeAll m ks s g).2 (d.removeAll m ks' s' g').1
      (d.removeAll m ks' s' g').2 := by
  have hsteps : ∀ (ks : List κ) s g, d.removeAll m ks s g = stepAll (d.remove m) ks s g := by
    intro ks
    induction ks with
    | nil => exact fun _ _ => rfl
    | cons k ks ih => exact fun _ _ => ih _ _
  rw [hsteps, hsteps]
  exact H.remove.perm H.likeness hks h

theorem releaseAll (H : d.Swaps m R) (hks : ks.Perm ks') (h : R s g s' g') :
    R (d.releaseAll m ks s g).1 (d.releaseAll m ks s g).2 (d.releaseAll m ks' s' g').1
      (d.releaseAll m ks' s' g').2 := by
  have hsteps : ∀ (ks : List κ) s g, d.releaseAll m ks s g = stepAll (d.release m) ks s g := by
    intro ks
    induction ks with
    | nil => exact fun _ _ => rfl
    | cons k ks ih => exact fun _ _ => ih _ _
  rw [hsteps, hsteps]
  exact H.release.perm H.likeness hks h

/-- What layers with own states that are alike have to say of the operations below them. -/
theorem beside (H : d.Swaps m R) (E : τ → τ → Prop) (hsymm : ∀ {t t'}, E t t' → E t' t)
    (htrans : ∀ {t t' t''}, E t t' → E t' t'' → E t t'') {e : Cache κ α (τ × σ)}
    (hremove : Exchanges (Beside E R) (e.remove m)) (f : κ → τ → τ)
    (hcongr : ∀ k {t t'}, E t t' → E (f k t) (f k t'))
    (hswap : ∀ k k' {t}, E t t → E (f k' (f k t)) (f k (f k' t)))
    (hrelease : ∀ k s g, (e.release m k s g).state = (f k s.1, (d.release m k s.2 g).state) ∧
      (e.release m k s g).ground.stores = (d.release m k s.2 g).ground.stores)
    (z : τ → τ) (hz : ∀ {t t'}, E t t' → E (z t) (z t'))
    (hclear : ∀ s g, e.clear m s g = ⟨(z s.1, (d.clear m s.2 g).state),
      (d.clear m s.2 g).ground, ()⟩) : e.Swaps m (Beside E R) where
  likeness := H.likeness.beside hsymm htrans
  remove := hremove
  release := H.release.beside H.likeness E f hcongr hswap hrelease
  clear := by
    intro s g s' g' h
    rw [hclear, hclear]
    exact ⟨hz h.1, H.clear h.2⟩

/-- A layer that changes nothing of its own but when it is cleared. -/
theorem constant (H : d.Swaps m R) {e : Cache κ α (τ × σ)}
    (hremove : ∀ k s g, (e.remove m k s g).state = (s.1, (d.remove m k s.2 g).state) ∧
      (e.remove m k s g).ground.stores = (d.remove m k s.2 g).ground.stores)
    (hrelease : ∀ k s g, (e.release m k s g).state = (s.1, (d.release m k s.2 g).state) ∧
      (e.release m k s g).ground.stores = (d.release m k s.2 g).ground.stores)
    (z : τ → τ) (hclear : ∀ s g, e.clear m s g = ⟨(z s.1, (d.clear m s.2 g).state),
      (d.clear m s.2 g).ground, ()⟩) : e.Swaps m (Beside Eq R) :=
  H.beside Eq Eq.symm Eq.trans
    (H.remove.beside H.likeness Eq (fun _ t => t) (fun _ _ _ h => h) (fun _ _ _ h => h) hremove)
    (fun _ t => t) (fun _ _ _ h => h) (fun _ _ _ h => h) hrelease z (congrArg z) hclear

end Cache.Swaps

variable {d : Cache κ α σ} {m : Moment} {R : σ → Ground κ α → σ → Ground κ α → Prop}

/-! ## Layers that hand it on -/

section Layers

variable [DecidableEq κ]

theorem Cache.swaps_bare (id : String) (base : Nat) (m : Moment) :
    (Cache.bare id base : Cache κ α Unit).Swaps m fun _ g _ g' => g.SameStore base g' where
  likeness := {
    stores := fun {s _ s' _ _ _} h =>
      @Twins.stores _ _ _ _ _ _ (twins_bare id base fun _ => false) s _ s' _ _ _ h
    symm := Eq.symm
    trans := fun h h' => h'.trans h }
  remove := {
    congr := by
      intro k _ g _ g' h
      have hstore := (Cache.remove_bare id base m k g).2.2
      have hstore' := (Cache.remove_bare id base m k g').2.2
      rw [show g'.store base = g.store base from h] at hstore'
      exact hstore'.trans hstore.symm
    swap := by
      intro k k' _ g _
      have hstore : ∀ (k : κ) (g : Ground κ α),
          ((Cache.bare id base : Cache κ α Unit).remove m k () g).ground.store base =
            (g.store base).erase k := fun k g => (Cache.remove_bare id base m k g).2.2
      show Ground.store _ base = Ground.store _ base
      rw [hstore, hstore, hstore, hstore, Table.erase, Table.erase, Table.erase, Table.erase,
        List.filter_comm] }
  release := ⟨fun _ _ _ _ _ h => h, fun _ _ _ _ h => h⟩
  clear := by
    intro _ g _ g' h
    simp only [Reply.Alike, bare, Ground.SameStore, Ground.store_setStore_self]

theorem Recency.Twin.swap {r r' : Recency κ} (h : Twin r r') (k k' : κ) :
    Twin ((r.forget k).forget k') ((r.forget k').forget k) := by
  obtain ⟨hvalid, horder, hcapacity⟩ := h.valid.forget k
  obtain ⟨hvalid', horder', hcapacity'⟩ := h.valid.forget k'
  obtain ⟨htwo, htwoOrder, htwoCapacity⟩ := hvalid.forget k'
  obtain ⟨htwo', htwoOrder', htwoCapacity'⟩ := hvalid'.forget k
  refine ⟨htwo, htwo', ?_, ?_⟩
  · rw [htwoOrder, htwoOrder', horder, horder', List.erase_comm]
  · rw [htwoCapacity, htwoCapacity', hcapacity, hcapacity']

theorem Recency.swaps (H : d.Swaps m R) : (Recency.onto d).Swaps m (Beside Twin R) :=
  H.beside Twin Twin.symm Twin.trans
    (H.remove.beside H.likeness Twin (fun k r => r.forget k) (fun k _ _ h => h.forget k)
      (fun k k' _ h => h.swap k k') fun _ _ _ => ⟨rfl, rfl⟩)
    (fun _ r => r) (fun _ _ _ h => h) (fun _ _ _ h => h) (fun _ _ _ => ⟨rfl, rfl⟩) Recency.clear
    Twin.clear fun _ _ => rfl

omit [DecidableEq κ] in
theorem WriteQueue.swaps (H : d.Swaps m R) : (WriteQueue.onto d).Swaps m (Beside Eq R) :=
  H.constant (fun _ _ _ => ⟨rfl, rfl⟩) (fun _ _ _ => ⟨rfl, rfl⟩)
    (fun q => { capacity := q.capacity }) fun _ _ => rfl

omit [DecidableEq κ] in
theorem HitCount.swaps (H : d.Swaps m R) : (HitCount.onto d).Swaps m (Beside Eq R) :=
  H.constant (fun _ _ _ => ⟨rfl, rfl⟩) (fun _ _ _ => ⟨rfl, rfl⟩) id fun _ _ => rfl

omit [DecidableEq κ] in
theorem Passing.swaps (H : d.Swaps m R) : (Passing.onto d).Swaps m (Beside Eq R) :=
  H.constant (fun _ _ _ => ⟨rfl, rfl⟩) (fun _ _ _ => ⟨rfl, rfl⟩) id fun _ _ => rfl

omit [DecidableEq κ] in
theorem Packing.swaps [Codec α] (H : d.Swaps m R) : (Packing.onto d).Swaps m (Beside Eq R) := by
  refine H.constant (fun k s g => ?_) (fun _ _ _ => ⟨rfl, rfl⟩) id fun _ _ => rfl
  simp only [onto]
  cases (d.remove m k s.2 g).answer with
  | none => exact ⟨rfl, rfl⟩
  | some c =>
    have hstores := stores_unpack c (d.remove m k s.2 g).ground
    simp only
    generalize unpack c (d.remove m k s.2 g).ground = u at hstores
    obtain ⟨g', e | x⟩ := u
    · exact ⟨rfl, hstores⟩
    · exact ⟨rfl, hstores⟩

/-- Latches that are opened in another order leave the same latches. -/
theorem Gate.unlatch_comm (t : Gate κ) (k k' : κ) :
    Twin ((t.unlatch k).unlatch k') ((t.unlatch k').unlatch k) := by
  by_cases hk : k' = k
  · rw [hk]
    exact .refl _
  · unfold Gate.unlatch
    cases h : t.latches.find? k <;> cases h' : t.latches.find? k' <;>
      simp only [h, h', Table.find?_erase, hk, Ne.symm hk, if_false]
    · exact .refl _
    · exact .refl _
    · exact .refl _
    · refine ⟨rfl, ?_, rfl, fun n => ?_⟩
      · simp only [Table.erase, List.filter_comm]
      · simp only [List.mem_cons]
        exact or_left_comm

theorem Gate.swaps (H : d.Swaps m R) : (Gate.onto d).Swaps m (Beside Twin R) :=
  H.beside Twin Twin.symm Twin.trans
    (H.remove.beside H.likeness Twin (fun k t => t.unlatch k) (fun k _ _ h => h.unlatch k)
      (fun k k' t _ => t.unlatch_comm k k') fun _ _ _ => ⟨rfl, rfl⟩)
    (fun k t => t.unlatch k) (fun k _ _ h => h.unlatch k) (fun k k' t _ => t.unlatch_comm k k')
    (fun _ _ _ => ⟨rfl, rfl⟩) id (fun h => h) fun _ _ => rfl

/-! ## Layers that flush -/

omit [DecidableEq κ] in
theorem Window.settle_alike (H : d.Swaps m R) {s s' : Window × σ} {g g' : Ground κ α}
    (h : Beside Eq R s g s' g') : (settle d m s g).Alike (Beside Eq R) (settle d m s' g') := by
  obtain ⟨w, s⟩ := s
  obtain ⟨_, s'⟩ := s'
  obtain ⟨rfl, h⟩ := h
  unfold settle
  simp only
  split
  · exact ⟨rfl, H.clear (H.likeness.stores h rfl rfl)⟩
  · exact ⟨rfl, h⟩

omit [DecidableEq κ] in
/-- At the moment at which it has settled a layer does not flush again. -/
theorem Window.settle_settled (d : Cache κ α σ) (m : Moment) (s : Window × σ) (g : Ground κ α)
    (s' : σ) (g' : Ground κ α) :
    settle d m ((settle d m s g).state.1, s') g' = ⟨((settle d m s g).state.1, s'), g', false⟩ := by
  have hfresh : (settle d m s g).state.1.stale (m.time (settle d m s g).state.1.clock) = false := by
    unfold settle
    split
    · simp [stale, renew]
    · next h => exact Bool.eq_false_iff.mpr h
  rw [settle, if_neg (by simp [hfresh])]

omit [DecidableEq κ] in
theorem Window.swaps (H : d.Swaps m R) : (Window.onto d).Swaps m (Beside Eq R) := by
  refine H.beside Eq Eq.symm Eq.trans ?_ (fun _ w => w) (fun _ _ _ h => h) (fun _ _ _ h => h)
    (fun _ _ _ => ⟨rfl, rfl⟩) (fun w => w.renew (m.time w.clock)) (fun h => by rw [h])
    fun _ _ => rfl
  refine ⟨fun k s g s' g' h => ?_, fun k k' s g h => ?_⟩
  · have hsettle := settle_alike H h
    exact ⟨hsettle.1, H.remove.congr k hsettle.2⟩
  · have hsettle := settle_alike H h
    simp only [Reply.Alike, onto, settle_settled]
    exact ⟨rfl, H.remove.swap k k' hsettle.2⟩

/-! ## Layers that let instances go -/

namespace Leasing

variable {id : String} {base : Nat} {s s' s'' : Leasing κ × Unit} {g g' g'' : Ground κ α}

/-- Shelves that are the same after a sweep. -/
structure Settled (base : Nat) (m : Moment) (s : Leasing κ × Unit) (g : Ground κ α)
    (s' : Leasing κ × Unit) (g' : Ground κ α) : Prop where
  owned : (s.1.shelf base g).Owned
  owned' : (s'.1.shelf base g').Owned
  tidy : g.Tidy
  tidy' : g'.Tidy
  elsewhere : g'.keptElsewhere base = g.keptElsewhere base
  settles : (s.1.shelf base g).Settles (g.outside base m) (s'.1.shelf base g')

theorem Settled.outside (h : Settled base m s g s' g') : g'.outside base m = g.outside base m :=
  Ground.outside_congr h.elsewhere m

/-- A removal comes to a removal from the shelf. -/
theorem shelf_remove_onto (id : String) (howned : (s.1.shelf base g).Owned) (htidy : g.Tidy)
    (m : Moment) (k : κ) :
    let r := (Leasing.onto (Cache.bare id base) : Cache κ α _).remove m k s g
    r.state.1.shelf base r.ground = (s.1.shelf base g).remove m (g.outside base m) k ∧
      r.ground.Beside base g := by
  obtain ⟨hshelf, hbeside, -⟩ := shelf_purge id howned htidy m s.2
  have hremove := Cache.remove_bare id base m k (purge (Cache.bare id base) m s g).ground
  have herase := shelf_remove id base m k (purge (Cache.bare id base) m s g).state.1
    (purge (Cache.bare id base) m s g).state.2 (purge (Cache.bare id base) m s g).ground
  rw [Shelf.remove, ← hshelf]
  simp only [onto]
  generalize purge (Cache.bare id base) m s g = p at *
  split
  · exact ⟨herase, hremove.2.1.trans hbeside⟩
  · split
    · exact ⟨herase, hremove.2.1.trans hbeside⟩
    · exact ⟨herase, hremove.2.1.trans hbeside⟩

theorem settled_likeness (base : Nat) (m : Moment) :
    Likeness (Settled base m : Leasing κ × Unit → Ground κ α → _ → _ → Prop) where
  stores := by
    intro s g s' g' g₁ g₁' h hg hg'
    rw [Ground.eq_of_stores hg, Ground.eq_of_stores hg']
    exact ⟨h.owned, h.owned', h.tidy, h.tidy', h.elsewhere, h.settles⟩
  symm h := by
    refine ⟨h.owned', h.owned, h.tidy', h.tidy, h.elsewhere.symm, ?_⟩
    rw [h.outside]
    exact h.settles.symm
  trans h h' := by
    refine ⟨h.owned, h'.owned', h.tidy, h'.tidy', h'.elsewhere.trans h.elsewhere, ?_⟩
    have hsettles := h'.settles
    rw [h.outside] at hsettles
    exact hsettles.trans h.settles

/-- Removals from the shelf that leave shelves which are the same after a sweep. -/
theorem settled_of_shelf {r r' : Leasing κ × Unit} {g₁ g₁' : Ground κ α}
    (h : Settled base m s g s' g') (howned : (r.1.shelf base g₁).Owned)
    (howned' : (r'.1.shelf base g₁').Owned) (hbeside : g₁.Beside base g)
    (hbeside' : g₁'.Beside base g')
    (hsettles : (r.1.shelf base g₁).Settles (g.outside base m) (r'.1.shelf base g₁')) :
    Settled base m r g₁ r' g₁' where
  owned := howned
  owned' := howned'
  tidy := hbeside.tidy h.tidy
  tidy' := hbeside'.tidy h.tidy'
  elsewhere := by rw [hbeside.elsewhere, hbeside'.elsewhere, h.elsewhere]
  settles := by rwa [Ground.outside_congr hbeside.elsewhere]

/-- Over a base store, a reclaiming layer lets removals change places: the cells that one order
leaves and the other one does not are swept next. -/
theorem swaps (id : String) (base : Nat) (m : Moment) :
    (Leasing.onto (Cache.bare id base) : Cache κ α _).Swaps m (Settled base m) where
  likeness := settled_likeness base m
  remove := {
    congr := by
      intro k s g s' g' h
      obtain ⟨hshelf, hbeside⟩ := shelf_remove_onto id h.owned h.tidy m k
      obtain ⟨hshelf', hbeside'⟩ := shelf_remove_onto id h.owned' h.tidy' m k
      refine settled_of_shelf h ((upholds_owned id base).remove m k s g h.owned)
        ((upholds_owned id base).remove m k s' g' h.owned') hbeside hbeside' ?_
      rw [hshelf, hshelf', h.outside, h.settles.remove]
      exact rfl
    swap := by
      intro k k' s g h
      have htwo (a b : κ) :
          let r := (Leasing.onto (Cache.bare id base) : Cache κ α _).remove m a s g
          let r' := (Leasing.onto (Cache.bare id base) : Cache κ α _).remove m b r.state r.ground
          (r'.state.1.shelf base r'.ground).Owned ∧ r'.ground.Beside base g ∧
            r'.state.1.shelf base r'.ground =
              ((s.1.shelf base g).remove m (g.outside base m) a).remove m (g.outside base m) b := by
        obtain ⟨hshelf, hbeside⟩ := shelf_remove_onto id h.owned h.tidy m a
        have howned := (upholds_owned id base).remove m a s g h.owned
        obtain ⟨hshelf', hbeside'⟩ := shelf_remove_onto id howned (hbeside.tidy h.tidy) m b
        refine ⟨(upholds_owned id base).remove m b _ _ howned, hbeside'.trans hbeside, ?_⟩
        rw [hshelf', hshelf, Ground.outside_congr hbeside.elsewhere]
      obtain ⟨howned, hbeside, hshelf⟩ := htwo k k'
      obtain ⟨howned', hbeside', hshelf'⟩ := htwo k' k
      refine settled_of_shelf h howned howned' hbeside hbeside' ?_
      rw [hshelf, hshelf']
      exact Shelf.settles_swap k k' _ }
  release := ⟨fun _ _ _ _ _ h => h, fun _ _ _ _ h => h⟩
  clear := by
    intro s g s' g' h
    refine settled_of_shelf h ((upholds_owned id base).clear m s g h.owned)
      ((upholds_owned id base).clear m s' g' h.owned') (Ground.beside_setStore base g _)
      (Ground.beside_setStore base g' _) ?_
    have hleasing : s'.1.letGo.forgetAll = s.1.letGo.forgetAll :=
      congrArg (fun x => x.leasing.letGo.forgetAll) h.settles
    simp only [onto, shelf, Cache.bare, Ground.store_setStore_self, hleasing]
    exact rfl

/-- From then on such shelves are the same apart from instances that are gone: those below `first`
that nobody held. -/
theorem Settled.twin {m m' : Moment} (h : Settled base m' s g s' g')
    (hheld : ∀ n, m.held n = true → m'.held n = true) {first : Nat}
    (hfirst : ∀ e ∈ (g.store base).entries, e.2.item.serial < first)
    (hfirst' : ∀ e ∈ (g'.store base).entries, e.2.item.serial < first) :
    Twin base (fun n => decide (n < first) && !s.1.holds m g n) s g s' g' := by
  rw [holds_eq_alive h.tidy]
  have halive := h.settles.alive
  have hmono {n : Nat} (hn : g.keptElsewhere base n = true) : g.outside base m n = true := by
    rw [Ground.outside, hn, Bool.or_true]
  have hdead : ∀ n, (decide (n < first) && !(s.1.shelf base g).alive (g.outside base m) n) = true →
      (s.1.shelf base g).alive (g.keptElsewhere base) n = false := by
    intro n hn
    rw [Bool.eq_false_iff]
    intro hkept
    rw [Shelf.alive_mono (fun _ => hmono) hkept] at hn
    simp at hn
  -- what somebody holds at `m` is held at `m'` too, so sweeping at `m'` makes no difference
  have hswept (x : Shelf κ α) : (x.swept (g.outside base m')).restrict
      (x.alive (g.outside base m)) = x.restrict (x.alive (g.outside base m)) := by
    refine Shelf.restrict_restrict fun n hn => Shelf.alive_mono (fun n hn => ?_) hn
    simp only [Ground.outside, Bool.or_eq_true] at hn ⊢
    exact hn.imp_left (hheld n)
  refine ⟨⟨h.owned, h.tidy, hdead⟩, ⟨h.owned', h.tidy', ?_⟩, h.elsewhere, ?_⟩
  · rw [h.elsewhere, halive]
    exact hdead
  · have hserial (x : Shelf κ α) (hx : ∀ e ∈ x.cells.entries, e.2.item.serial < first) :
        x.restrict (fun n => !(decide (n < first) &&
          !(s.1.shelf base g).alive (g.outside base m) n)) =
            x.restrict ((s.1.shelf base g).alive (g.outside base m)) :=
      Shelf.restrict_congr fun e he => by simp [hx e he]
    rw [hserial _ hfirst', hserial _ hfirst, ← halive, ← hswept, h.settles, halive, hswept]

end Leasing

end Layers

end LayeredCache
