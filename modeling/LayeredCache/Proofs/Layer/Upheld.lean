import LayeredCache.Proofs.Base
import LayeredCache.Proofs.Layer.Leads
import LayeredCache.Proofs.Recency

/-!
# What the operations of a stack keep

A layer reaches what lies below it through operations alone; in between it tells the journal and
takes serial numbers, which changes no base store. So a property that the operations below keep is
kept by the operations of the layer too. A reclaiming layer also unpins cells of the base store by
itself; it keeps properties of the states, and that the leases of its registry are those of the
cells.

## Main definitions

* `Stack.All` — a property that every layer of a stack has.
* `Stack.Sound` — indices have room for a key.
* `Stack.Registered` — the leases in the registry of a reclaiming layer are those of its cells.
-/

namespace LayeredCache

variable {κ α σ : Type}

/-- An index with room for a key. -/
def Recency.HasRoom [DecidableEq κ] (r : Recency κ) : Prop := r.Valid ∧ 1 ≤ r.capacity

/-- Each key has one lease at most, and a cell whose key has one is stored under it. -/
def Leasing.Registered [DecidableEq κ] (l : Leasing κ) (t : Table κ (Cell α)) : Prop :=
  l.registry.Distinct ∧ ∀ k c, t.find? k = some c → l.isCurrent k c = true

section Layers

variable [DecidableEq κ] {d : Cache κ α σ} {I : σ → Ground κ α → Prop}

/-! ## The base store -/

theorem Cache.upholds_bare (id : String) (base : Nat) :
    (Cache.bare id base : Cache κ α Unit).Upholds fun _ _ => True := by
  constructor <;> intros <;> trivial

/-! ## Layers with a bound -/

theorem Recency.HasRoom.touch {r : Recency κ} (H : r.HasRoom) (k : κ) : (r.touch k).HasRoom :=
  ⟨(H.1.touch k).1, (H.1.touch k).2.2 ▸ H.2⟩

theorem Recency.HasRoom.refresh {r : Recency κ} (H : r.HasRoom) (k : κ) : (r.refresh k).HasRoom :=
  ⟨(H.1.refresh k).1, (H.1.refresh k).2.2 ▸ H.2⟩

theorem Recency.HasRoom.forget {r : Recency κ} (H : r.HasRoom) (k : κ) : (r.forget k).HasRoom :=
  ⟨(H.1.forget k).1, (H.1.forget k).2.2 ▸ H.2⟩

theorem Recency.HasRoom.evictEldest {r : Recency κ} (H : r.HasRoom) :
    r.evictEldest.1.HasRoom := ⟨H.1.evictEldest.1, H.1.evictEldest.2.1 ▸ H.2⟩

theorem Recency.upholds_hasRoom (d : Cache κ α σ) :
    (Recency.onto d).Upholds fun s _ => s.1.HasRoom where
  put m k c s g h := by
    simp only [onto]
    cases (d.put m k c s.2 g).answer with
    | error e => exact h
    | ok _ =>
      have hroom := (h.touch k).evictEldest
      rcases he : (s.1.touch k).evictEldest with ⟨index, _ | eldest⟩ <;> rw [he] at hroom <;>
        exact hroom
  get m k s g h := h.refresh k
  resume m k gate w s g h := h
  remove m k s g h := h.forget k
  clear m s g h := ⟨valid_clear s.1, h.2⟩
  size m s g h := h
  release m k s g h := h
  elsewhere h _ := h

/-! ## Layers that let instances go -/

namespace Leasing

section States

variable {J : σ → Prop}

omit [DecidableEq κ] in
theorem removeAll_upholds (H : d.Upholds fun s _ => J s) (m : Moment) (keys : List κ) (s : σ)
    (g : Ground κ α) (h : J s) : J (d.removeAll m keys s g).1 := by
  induction keys generalizing s g with
  | nil => exact h
  | cons k keys ih => exact ih _ _ (H.remove m k s g h)

theorem purge_upholds (H : d.Upholds fun s _ => J s) (m : Moment) (s : Leasing κ × σ)
    (g : Ground κ α) (h : J s.2) : J (purge d m s g).state.2 := removeAll_upholds H m _ _ _ h

theorem settle_upholds (H : d.Upholds fun s _ => J s) (m : Moment) (k : κ) (l : Leasing κ)
    {r : Reply κ α σ (Lookup κ α)} (h : J r.state) : J (settle d m k l r).state.2 := by
  unfold settle
  split
  · split
    · exact h
    · split
      · exact H.remove m k _ _ h
      · exact h
  · exact h

theorem upholds (H : d.Upholds fun s _ => J s) : (Leasing.onto d).Upholds fun s _ => J s.2 where
  put m k c s g h := by
    have hput := H.put m k { c with lease := some ⟨(purge d m s g).ground.issued, true⟩ } _
      (purge d m s g).ground.issue (purge_upholds H m s g h)
    simp only [onto]
    split <;> exact hput
  get m k s g h := settle_upholds H m k _ (H.get m k _ _ (purge_upholds H m s g h))
  resume m k gate w s g h := settle_upholds H m k s.1 (H.resume m k gate w s.2 g h)
  remove m k s g h := by
    have hremove := H.remove m k _ (purge d m s g).ground (purge_upholds H m s g h)
    simp only [onto]
    split
    · exact hremove
    · split <;> exact hremove
  clear m s g h := H.clear m s.2 g h
  size m s g h := H.size m _ _ (purge_upholds H m s g h)
  release m k s g h := H.release m k s.2 g h
  elsewhere h _ := h

end States

section Grounds

variable {J : Ground κ α → Prop}

omit [DecidableEq κ] in
theorem removeAll_upholds_ground (H : d.Upholds fun _ g => J g) (m : Moment) (keys : List κ)
    (s : σ) (g : Ground κ α) (h : J g) : J (d.removeAll m keys s g).2 := by
  induction keys generalizing s g with
  | nil => exact h
  | cons k keys ih => exact ih _ _ (H.remove m k s g h)

variable {base : Nat} (hnote : ∀ g e, J g → J (g.note e))
  (hunpinAll : ∀ l g, J g → J (unpinAll base l g).1) (hunpin : ∀ g k n, J g → J (unpin base g k n))

omit [DecidableEq κ] in
include hnote in
theorem notePurged_upholds_ground (id : String) (keys : List κ) (g : Ground κ α) (h : J g) :
    J (notePurged id keys g) := by
  unfold notePurged
  split
  · exact h
  · exact hnote _ _ h

include hunpin in
theorem track_upholds_ground (l : Leasing κ) (k : κ) (n : Nat) (g : Ground κ α) (h : J g) :
    J (track base l k n g).2 := by
  have hfoldl : ∀ (pins : List (κ × Nat)) g, J g →
      J (pins.foldl (fun g p => unpin base g p.1 p.2) g) := by
    intro pins
    induction pins with
    | nil => exact fun g h => h
    | cons p pins ih => exact fun g h => ih _ (hunpin g p.1 p.2 h)
  unfold track
  split
  · exact h
  · exact hfoldl _ g h

include hnote hunpinAll in
theorem purge_upholds_ground (H : d.Upholds fun _ g => J g) (hbase : d.base = base) (m : Moment)
    (s : Leasing κ × σ) (g : Ground κ α) (h : J g) : J (purge d m s g).ground := by
  have hattend : J (attend d m s.1 g).2 := by
    simp only [attend]
    split
    · exact hnote _ _ (hbase ▸ hunpinAll _ g h)
    · exact h
  exact notePurged_upholds_ground hnote d.id _ _ (removeAll_upholds_ground H m _ s.2 _ hattend)

/-- What unpinning keeps too of the ground is kept by a layer that reclaims. -/
theorem upholds_ground (H : d.Upholds fun _ g => J g) (hbase : d.base = base)
    (hunpinAll : ∀ l g, J g → J (unpinAll base l g).1)
    (hunpin : ∀ g k n, J g → J (unpin base g k n)) :
    (Leasing.onto d).Upholds fun _ g => J g := by
  -- what a property of the ground says does not depend on the state of the layers below
  have hnote : σ → ∀ g e, J g → J (g.note e) := fun s g e h => H.elsewhere (s := s) h rfl
  have hpurge := fun m (s : Leasing κ × σ) g h =>
    purge_upholds_ground (hnote s.2) hunpinAll H hbase m s g h
  have hsettle : ∀ m k l (r : Reply κ α σ (Lookup κ α)), J r.ground →
      J (settle d m k l r).ground := by
    intro m k l r h
    unfold settle
    split
    · split
      · exact h
      · split
        · exact H.remove m k r.state r.ground h
        · exact h
    · exact h
  exact {
    put := by
      intro m k c s g h
      have hput := H.put m k { c with lease := some ⟨(purge d m s g).ground.issued, true⟩ }
        (purge d m s g).state.2 (purge d m s g).ground.issue
        (H.elsewhere (s := s.2) (hpurge m s g h) rfl)
      simp only [onto]
      split
      · exact hput
      · exact hbase ▸ track_upholds_ground hunpin _ k _ _ hput
    get := fun m k s g h => hsettle m k _ _ (H.get m k _ _ (hpurge m s g h))
    resume := fun m k gate w s g h => hsettle m k s.1 _ (H.resume m k gate w s.2 g h)
    remove := by
      intro m k s g h
      have hremove := H.remove m k (purge d m s g).state.2 (purge d m s g).ground (hpurge m s g h)
      simp only [onto]
      split
      · exact hremove
      · split <;> exact hremove
    clear := fun m s g h => H.clear m s.2 g h
    size := fun m s g h => H.size m _ _ (hpurge m s g h)
    release := fun m k s g h => H.release m k s.2 g h
    elsewhere := fun {s _ _} h hg => H.elsewhere (s := s.2) h hg }

end Grounds

section Registry

variable {l l' : Leasing κ} {t t' : Table κ (Cell α)}

theorem Registered.of_registry (h : l.Registered t) (hl : l'.registry = l.registry) :
    l'.Registered t := by
  simp only [Registered, isCurrent, hl]
  exact h

/-- Cells may go, and leases may be unpinned. -/
theorem Registered.store (h : l.Registered t)
    (ht : ∀ k c', t'.find? k = some c' → ∃ c, t.find? k = some c ∧
      (c' = c ∨ c' = c.unpin)) : l.Registered t' := by
  refine ⟨h.1, ?_⟩
  intro k c' hc'
  obtain ⟨c, hc, rfl | rfl⟩ := ht k c' hc'
  · exact h.2 k c' hc
  · have hcurrent := h.2 k c hc
    rw [isCurrent] at hcurrent ⊢
    cases hn : l.registry.find? k with
    | none => rfl
    | some n => simpa [hn] using hcurrent

theorem Registered.forget (h : l.Registered t) (k : κ) : (l.forget k).Registered t := by
  refine ⟨h.1.erase k, ?_⟩
  intro k' c hc
  have hcurrent := h.2 k' c hc
  simp only [isCurrent, Leasing.forget, Table.find?_erase] at hcurrent ⊢
  split
  · rfl
  · exact hcurrent

/-- A cell that is stored under a new lease is registered with it. -/
theorem Registered.register (h : l.Registered t) (k : κ) (item : Item α) (n : Nat) :
    (l.register k n).Registered (t.insert k ⟨item, some ⟨n, true⟩⟩) := by
  refine ⟨h.1.insert k n, ?_⟩
  intro k' c hc
  rw [Table.find?_insert] at hc
  simp only [isCurrent, Leasing.register, Table.find?_insert]
  split at hc
  · next he =>
    cases hc
    rw [if_pos he]
    simp [Cell.isUnder]
  · next he =>
    rw [if_neg he]
    exact h.2 k' c hc

theorem Registered.attend {base : Nat} {g : Ground κ α} (h : l.Registered (g.store base))
    (id : String) (m : Moment) :
    (attend (Cache.bare id base) m l g).1.Registered
      ((attend (Cache.bare id base) m l g).2.store base) := by
  have hseen := h.of_registry (registry_observe l m)
  simp only [Leasing.attend]
  split
  · exact (hseen.store fun _ _ => (unpins_unpinAll base _ g).exists_cell).of_registry rfl
  · exact hseen

/-- Leases that are forgotten are no longer looked at. -/
theorem Registered.sweep {base : Nat} {g : Ground κ α} (h : l.Registered t) (m : Moment) :
    (l.sweep base m g).2.Registered t := by
  simp only [Leasing.sweep]
  refine ⟨h.1.filter _, ?_⟩
  intro k c hc
  have hcurrent := h.2 k c hc
  simp only [isCurrent, h.1.find?_filter] at hcurrent ⊢
  cases hn : l.registry.find? k with
  | none => rfl
  | some n =>
    rw [hn] at hcurrent
    simp only [Option.filter_some]
    split
    · exact hcurrent
    · rfl

theorem Registered.track {base : Nat} {g : Ground κ α} (h : l.Registered (g.store base)) (k : κ)
    (n : Nat) :
    (track base l k n g).1.Registered ((track base l k n g).2.store base) := by
  have hstored := h.store fun _ _ => (unpins_track base l k n g).exists_cell
  apply hstored.of_registry
  unfold Leasing.track
  split <;> rfl

omit [DecidableEq κ] in
theorem store_notePurged (id : String) (keys : List κ) (g : Ground κ α) (base : Nat) :
    (notePurged id keys g).store base = g.store base := by
  unfold notePurged
  split <;> rfl

theorem Registered.purge {base : Nat} {s : Leasing κ × Unit} {g : Ground κ α}
    (h : s.1.Registered (g.store base)) (id : String) (m : Moment) :
    (purge (Cache.bare id base) m s g).state.1.Registered
      ((purge (Cache.bare id base) m s g).ground.store base) := by
  have hattended := h.attend id m
  simp only [Leasing.purge, Cache.base_bare]
  generalize Leasing.attend (Cache.bare id base) m s.1 g = p at hattended
  show (p.1.sweep base m p.2).2.Registered _
  refine (hattended.sweep m).store ?_
  intro k c hc
  rw [store_notePurged, (Cache.removeAll_bare id base m _ p.2).2,
    Table.find?_filter_fst fun k => decide (k ∉ (p.1.sweep base m p.2).1)] at hc
  split at hc
  · exact ⟨c, hc, .inl rfl⟩
  · cases hc

theorem Registered.remove {base : Nat} {g : Ground κ α} (h : l.Registered (g.store base))
    (id : String) (m : Moment) (k : κ) (u : Unit) :
    l.Registered (((Cache.bare id base).remove m k u g).ground.store base) := by
  apply h.store
  intro k' c hc
  rw [(Cache.remove_bare id base m k g).2.2, Table.find?_erase] at hc
  split at hc
  · cases hc
  · exact ⟨c, hc, .inl rfl⟩

/-- Above a base store, the registry of a reclaiming layer goes on telling the leases of the
cells. -/
theorem upholds_registered (id : String) (base : Nat) :
    (Leasing.onto (Cache.bare id base) : Cache κ α _).Upholds fun s g =>
      s.1.Registered (g.store base) where
  put m k c s g h := by
    have hpurged := h.purge id m
    simp only [onto]
    refine Registered.track ?_ k _
    simpa [Cache.bare] using hpurged.register k c.item _
  get m k s g h := by
    have hpurged := h.purge id m
    simp only [onto]
    generalize purge (Cache.bare id base) m s g = p at hpurged
    have hlooked : p.state.1.Registered
        (((Cache.bare id base).get m k p.state.2 p.ground).ground.store base) := hpurged
    generalize (Cache.bare id base).get m k p.state.2 p.ground = r at hlooked
    unfold settle
    split
    · split
      · exact hlooked.of_registry rfl
      · split
        · exact (hlooked.forget k).remove id m k r.state
        · exact hlooked
    · exact hlooked
  resume m k gate w s g h := h
  remove m k s g h := by
    have hpurged := h.purge id m
    simp only [onto]
    generalize purge (Cache.bare id base) m s g = p at hpurged
    have hremoved := (hpurged.forget k).remove id m k p.state.2
    split
    · exact hremoved
    · split <;> exact hremoved
  clear m s g h := by
    refine ⟨Table.distinct_empty, ?_⟩
    intro k c hc
    simp [onto, Cache.bare] at hc
  size m s g h := h.purge id m
  release m k s g h := h
  elsewhere {s g g'} h hg := by
    rw [show g'.store base = g.store base from hg]
    exact h

end Registry

end Leasing

end Layers

/-! ## Stacks of layers -/

/-- Every layer of a stack has the property. -/
def Stack.All (P : (kind : Kind) → kind.State κ → Prop) : (kinds : List Kind) → Stack κ kinds → Prop
  | [], _ => True
  | kind :: kinds, s => P kind s.1 ∧ Stack.All P kinds s.2

section Stacks

variable [DecidableEq κ]

/-- What is true of the state of a layer from the start on: an index has room for a key. -/
def Kind.Sound : (kind : Kind) → kind.State κ → Prop
  | .lru, r => Recency.HasRoom r
  | _, _ => True

/-- Where no layer above the first one reclaims, the outermost layer does so only if it is the first
one. -/
theorem Kind.leasing_cons {kind : Kind} {kinds : List Kind}
    (h : .leasing ∉ (kind :: kinds).dropLast) :
    kind = .leasing ∧ kinds = [] ∨ kind ≠ .leasing ∧ .leasing ∉ kinds.dropLast := by
  cases kinds with
  | nil =>
    by_cases hkind : kind = .leasing
    · exact .inl ⟨hkind, rfl⟩
    · exact .inr ⟨hkind, List.not_mem_nil⟩
  | cons kind' kinds =>
    rw [List.dropLast_cons_cons, List.mem_cons, not_or] at h
    exact .inr ⟨Ne.symm h.1, h.2⟩

/-- What is true of the states of a stack from the start on. -/
def Stack.Sound : (kinds : List Kind) → Stack κ kinds → Prop := Stack.All Kind.Sound

/-- The registry of a reclaiming layer tells the leases of the cells. -/
def Kind.Registered (t : Table κ (Cell α)) : (kind : Kind) → kind.State κ → Prop
  | .leasing, l => Leasing.Registered l t
  | _, _ => True

/-- The registries of a stack tell the leases of the cells. -/
def Stack.Registered (t : Table κ (Cell α)) : (kinds : List Kind) → Stack κ kinds → Prop :=
  Stack.All (Kind.Registered t)

variable [Codec α]

/-- Layers that reclaim nothing keep what the operations below them keep. -/
theorem Kind.upholds {d : Cache κ α σ} {I : σ → Ground κ α → Prop} (H : d.Upholds I) {kind : Kind}
    (h : kind ≠ .leasing) : (kind.onto d).Upholds fun s g => I s.2 g :=
  (Kind.rests d h).upholds (base_onto kind d) H

theorem Stack.upholds_sound (id : String) (base : Nat) (kinds : List Kind) :
    (Stack.cache id base kinds : Cache κ α _).Upholds fun s _ => Sound kinds s := by
  induction kinds with
  | nil => exact Cache.upholds_bare id base
  | cons kind kinds ih =>
    cases kind
    case lru => exact (Recency.upholds_hasRoom _).and ((Recency.rests _).upholds rfl ih)
    case leasing => exact (Leasing.upholds ih).congr fun _ _ => and_iff_right trivial
    all_goals exact (Kind.upholds ih (by decide)).congr fun _ _ => and_iff_right trivial

/-- The registries go on telling the leases if a reclaiming layer lies on the base store only. -/
theorem Stack.upholds_registered (id : String) (base : Nat) (kinds : List Kind)
    (h : .leasing ∉ kinds.dropLast) :
    (Stack.cache id base kinds : Cache κ α _).Upholds fun s g =>
      Registered (g.store base) kinds s := by
  induction kinds with
  | nil => exact Cache.upholds_bare id base
  | cons kind kinds ih =>
    rcases Kind.leasing_cons h with ⟨rfl, rfl⟩ | ⟨hkind, hbelow⟩
    · have hcache : (Stack.cache id base [.leasing] : Cache κ α (Leasing κ × Unit)) =
          Leasing.onto (Cache.bare id base) := congrArg Leasing.onto rfl
      have hbase := hcache.symm ▸ Leasing.upholds_registered (κ := κ) (α := α) id base
      exact hbase.congr fun _ _ => and_iff_left trivial
    · refine (Kind.upholds (ih hbelow) hkind).congr fun s g => and_iff_right ?_
      cases kind <;> trivial

end Stacks

end LayeredCache
