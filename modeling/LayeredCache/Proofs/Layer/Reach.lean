import LayeredCache.Proofs.Layer.Leads
import LayeredCache.Proofs.Transaction.Latches

/-!
# What a chain does to the ground

An operation of a stack of layers tells the journal, takes serial numbers and changes the cells of
its own base store, and does nothing else to the ground.

## Main definitions

* `Ground.Reaches` — a ground comes from another one by such changes.
* `Cache.Reaching` — the operations of a cache change the ground in these ways alone.

## Main statements

* `Stack.reaching` — so do the operations of a stack.
* `Stack.avoids` — they leave the other base stores as they are.
-/

namespace LayeredCache

variable {κ α σ τ : Type} [DecidableEq κ]

/-- `Reaches base g g'`: events, serial numbers and changes of one base store lead from `g` to
`g'`. -/
inductive Ground.Reaches (base : Nat) (g : Ground κ α) : Ground κ α → Prop where
  | refl : Reaches base g g
  | note {g' : Ground κ α} (e : Event κ) : Reaches base g g' → Reaches base g (g'.note e)
  | issue {g' : Ground κ α} : Reaches base g g' → Reaches base g g'.issue
  | setStore {g' : Ground κ α} (t : Table κ (Cell α)) :
    Reaches base g g' → Reaches base g (g'.setStore base t)

namespace Ground.Reaches

variable {base : Nat} {g g' g'' : Ground κ α}

omit [DecidableEq κ]

theorem trans (h : Reaches base g g') (h' : Reaches base g' g'') : Reaches base g g'' := by
  induction h' with
  | refl => exact h
  | note e _ ih => exact ih.note e
  | issue _ ih => exact ih.issue
  | setStore t _ ih => exact ih.setStore t

/-- The other base stores stay as they are. -/
theorem store (h : Reaches base g g') {other : Nat} (hother : other ≠ base) :
    g'.store other = g.store other := by
  induction h with
  | refl => rfl
  | note _ _ ih => exact ih
  | issue _ ih => exact ih
  | setStore t _ ih => rw [store_setStore, if_neg hother, ih]

/-- Every base store stays listed once. -/
theorem tidy (h : Reaches base g g') (htidy : g.Tidy) : g'.Tidy := by
  induction h with
  | refl => exact htidy
  | note _ _ ih => exact ih
  | issue _ ih => exact ih
  | setStore t _ ih => exact ih.insert base t

/-- Serial numbers are taken one after the other. -/
theorem issued (h : Reaches base g g') : g.issued ≤ g'.issued := by
  induction h with
  | refl => exact Nat.le_refl _
  | note _ _ ih => exact ih
  | issue _ ih => exact Nat.le_succ_of_le ih
  | setStore _ _ ih => exact ih

/-- Events are told on top of those told before. -/
theorem journal (h : Reaches base g g') : g.journal <:+ g'.journal := by
  induction h with
  | refl => exact List.suffix_rfl
  | note e _ ih => exact ih.trans (List.suffix_cons e _)
  | issue _ ih => exact ih
  | setStore _ _ ih => exact ih

end Ground.Reaches

/-- The operations of a cache tell the journal, take serial numbers and change the cells of its base
store, and do nothing else to the ground. -/
structure Cache.Reaching (d : Cache κ α σ) : Prop where
  put : ∀ m k c s g, Ground.Reaches d.base g (d.put m k c s g).ground
  get : ∀ m k s g, Ground.Reaches d.base g (d.get m k s g).ground
  resume : ∀ m k gate w s g, Ground.Reaches d.base g (d.resume m k gate w s g).ground
  remove : ∀ m k s g, Ground.Reaches d.base g (d.remove m k s g).ground
  clear : ∀ m s g, Ground.Reaches d.base g (d.clear m s g).ground
  size : ∀ m s g, Ground.Reaches d.base g (d.size m s g).ground
  release : ∀ m k s g, Ground.Reaches d.base g (d.release m k s g).ground

namespace Cache.Reaching

variable {d : Cache κ α σ}

theorem bare (id : String) (base : Nat) : (Cache.bare id base : Cache κ α Unit).Reaching where
  put _ _ _ _ _ := .setStore _ .refl
  get _ _ _ _ := .refl
  resume _ _ _ _ _ _ := .refl
  remove m k s g := by
    simp only [Cache.bare]
    split
    · exact .refl
    · exact .setStore _ .refl
  clear _ _ _ := .setStore _ .refl
  size _ _ _ := .refl
  release _ _ _ _ := .refl

omit [DecidableEq κ] in
theorem removeAll (h : d.Reaching) (m : Moment) (ks : List κ) (s : σ) (g : Ground κ α) :
    Ground.Reaches d.base g (d.removeAll m ks s g).2 := by
  induction ks generalizing s g with
  | nil => exact .refl
  | cons k ks ih => exact (h.remove m k s g).trans (ih _ _)

omit [DecidableEq κ] in
/-- What operations that reach one base store lead to. -/
theorem leads (h : d.Reaching) {s s' : σ} {g g' : Ground κ α} (hlead : d.Leads s g s' g') :
    Ground.Reaches d.base g g' := by
  induction hlead with
  | refl => exact .refl
  | note e _ ih => exact ih.note e
  | issue _ ih => exact ih.issue
  | put m k c _ ih => exact ih.trans (h.put m k c _ _)
  | get m k _ ih => exact ih.trans (h.get m k _ _)
  | resume m k gate w _ ih => exact ih.trans (h.resume m k gate w _ _)
  | remove m k _ ih => exact ih.trans (h.remove m k _ _)
  | clear m _ ih => exact ih.trans (h.clear m _ _)
  | size m _ ih => exact ih.trans (h.size m _ _)
  | release m k _ ih => exact ih.trans (h.release m k _ _)

omit [DecidableEq κ] in
theorem rests {e : Cache κ α τ} {part : τ → σ} (h : d.Reaching) (he : e.Rests d part)
    (hbase : e.base = d.base) : e.Reaching where
  put m k c t g := hbase ▸ h.leads (he.put m k c t g)
  get m k t g := hbase ▸ h.leads (he.get m k t g)
  resume m k gate w t g := hbase ▸ h.leads (he.resume m k gate w t g)
  remove m k t g := hbase ▸ h.leads (he.remove m k t g)
  clear m t g := hbase ▸ h.leads (he.clear m t g)
  size m t g := hbase ▸ h.leads (he.size m t g)
  release m k t g := hbase ▸ h.leads (he.release m k t g)

/-! ## Layers that let instances go -/

theorem unpin (base : Nat) (g : Ground κ α) (k : κ) (n : Nat) :
    Ground.Reaches base g (Leasing.unpin base g k n) := by
  unfold Leasing.unpin
  split
  · exact .refl
  · split
    · exact .setStore _ .refl
    · exact .refl

theorem track (base : Nat) (l : Leasing κ) (k : κ) (n : Nat) (g : Ground κ α) :
    Ground.Reaches base g (Leasing.track base l k n g).2 := by
  have hfoldl : ∀ (pins : List (κ × Nat)) (g : Ground κ α),
      Ground.Reaches base g (pins.foldl (fun g p => Leasing.unpin base g p.1 p.2) g) := by
    intro pins
    induction pins with
    | nil => exact fun _ => .refl
    | cons p pins ih => exact fun g => (unpin base g p.1 p.2).trans (ih _)
  unfold Leasing.track
  split
  · exact .refl
  · exact hfoldl _ g

theorem purge (h : d.Reaching) (m : Moment) (s : Leasing κ × σ) (g : Ground κ α) :
    Ground.Reaches d.base g (Leasing.purge d m s g).ground := by
  have hattend : Ground.Reaches d.base g (Leasing.attend d m s.1 g).2 := by
    simp only [Leasing.attend]
    split
    · exact .note _ (.setStore _ .refl)
    · exact .refl
  have hpurged : ∀ (ks : List κ) (g' : Ground κ α), Ground.Reaches d.base g g' →
      Ground.Reaches d.base g (Leasing.notePurged d.id ks g') := by
    intro ks g' hg'
    unfold Leasing.notePurged
    split
    · exact hg'
    · exact hg'.note _
  exact hpurged _ _ (hattend.trans (h.removeAll m _ _ _))

theorem leasing (h : d.Reaching) : (Leasing.onto d).Reaching := by
  have hsettle : ∀ m k l (r : Reply κ α σ (Lookup κ α)),
      Ground.Reaches d.base r.ground (Leasing.settle d m k l r).ground := by
    intro m k l r
    unfold Leasing.settle
    split
    · split
      · exact .refl
      · split
        · exact h.remove m k r.state r.ground
        · exact .refl
    · exact .refl
  exact {
    put := by
      intro m k c s g
      have hput := (h.purge m s g).issue.trans (h.put m k
        { c with lease := some ⟨(Leasing.purge d m s g).ground.issued, true⟩ }
        (Leasing.purge d m s g).state.2 (Leasing.purge d m s g).ground.issue)
      simp only [Leasing.onto]
      split
      · exact hput
      · exact hput.trans (track d.base _ k _ _)
    get := fun m k s g => ((h.purge m s g).trans (h.get m k _ _)).trans (hsettle m k _ _)
    resume := fun m k gate w s g => (h.resume m k gate w s.2 g).trans (hsettle m k _ _)
    remove := by
      intro m k s g
      have hremove := (h.purge m s g).trans (h.remove m k (Leasing.purge d m s g).state.2 _)
      simp only [Leasing.onto]
      split
      · exact hremove
      · split <;> exact hremove
    clear := fun m s g => h.clear m s.2 g
    size := fun m s g => (h.purge m s g).trans (h.size m _ _)
    release := fun m k s g => h.release m k s.2 g }

omit [DecidableEq κ] in
/-- What leaves the other base stores as they are. -/
theorem avoids (h : d.Reaching) {other : Nat} (hother : other ≠ d.base) : d.Avoids other where
  put m k x s g := (h.put m k x s g).store hother
  get m k s g := (h.get m k s g).store hother
  resume m k gate w s g := (h.resume m k gate w s g).store hother
  remove m k s g := (h.remove m k s g).store hother
  clear m s g := (h.clear m s g).store hother
  release m k s g := (h.release m k s g).store hother

end Cache.Reaching

theorem Stack.reaching [Codec α] (id : String) (base : Nat) (kinds : List Kind) :
    (Stack.cache id base kinds : Cache κ α _).Reaching := by
  induction kinds with
  | nil => exact .bare id base
  | cons kind kinds ih =>
    by_cases hkind : kind = .leasing
    · subst hkind
      exact ih.leasing
    · exact ih.rests (Kind.rests _ hkind) (base_onto kind _)

/-- A chain leaves the base stores of others as they are. -/
theorem Stack.avoids [Codec α] (id : String) {base other : Nat} (kinds : List Kind)
    (hother : other ≠ base) : (Stack.cache id base kinds : Cache κ α _).Avoids other :=
  (Stack.reaching id base kinds).avoids (by rwa [Stack.base_cache])

end LayeredCache
