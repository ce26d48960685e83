import LayeredCache.Proofs.Layer.Twins
import LayeredCache.Proofs.Layer.Upheld
import LayeredCache.Proofs.Leasing.Shelf

/-!
# What a reclaiming layer does to its shelf

The operations of a reclaiming layer over a base store, as what they do to the shelf they work on.
All of them but a clear, a release and a resumed lookup start with a purge, so states are twins that
differ only in cells whose instance is gone: the next purge sweeps them.

## Main definitions

* `Leasing.shelf` — the shelf of a reclaiming layer over a base store.
* `Leasing.Twin` — the same shelf, apart from instances that are gone.

## Main statements

* `Leasing.shelf_purge` — what a purge does to the shelf, and what it tells.
* `Leasing.upholds_owned` — every cell stays stored under the lease of its key.
* `Leasing.twins` — the layer has twins.
-/

namespace LayeredCache

variable {κ α : Type} [DecidableEq κ]

/-- Whether an instance is held outside or by another base store. -/
def Ground.outside (base : Nat) (m : Moment) (g : Ground κ α) (n : Nat) : Bool :=
  m.held n || g.keptElsewhere base n

omit [DecidableEq κ] in
theorem Ground.outside_congr {base : Nat} {g g' : Ground κ α}
    (h : g'.keptElsewhere base = g.keptElsewhere base) (m : Moment) :
    g'.outside base m = g.outside base m := by
  funext n
  rw [Ground.outside, Ground.outside, h]

namespace Leasing

/-- The shelf of a reclaiming layer over a base store. -/
def shelf (base : Nat) (l : Leasing κ) (g : Ground κ α) : Shelf κ α := ⟨l, g.store base⟩

variable (id : String) (base : Nat)

/-! ## Purging -/

section Purge

variable {base} {l : Leasing κ} {g : Ground κ α}

theorem shelf_attend (hx : (l.shelf base g).Owned) (m : Moment) :
    let a := attend (Cache.bare id base : Cache κ α Unit) m l g
    a.1.shelf base a.2 = (l.shelf base g).attend m ∧ a.2.Beside base g ∧
      a.2.journal = (l.shelf base g).tidings id m ++ g.journal := by
  have howns : ∀ e ∈ (g.store base).entries, (l.observe m).1.owns e.1 e.2 = true := by
    intro e he
    rw [owns, registry_observe]
    exact hx.owns e he
  -- every cell is stored under a lease, and an unpinned one stays as it is
  have hpinned : ∀ e ∈ (g.store base).entries,
      (e.2.lease.any (·.pinned) && (l.observe m).1.owns e.1 e.2) = e.2.keeps := by
    intro e he
    obtain ⟨n, pinned, -, hlease⟩ := Shelf.exists_lease (howns e he)
    simp [howns e he, hlease, Cell.keeps]
  have hmap : ((g.store base).entries.map fun e =>
      if e.2.lease.any (·.pinned) && (l.observe m).1.owns e.1 e.2 then (e.1, e.2.unpin) else e) =
        (g.store base).entries.map fun e => (e.1, e.2.unpin) := by
    refine List.map_congr_left fun e he => ?_
    rw [hpinned e he]
    obtain ⟨n, pinned, -, hlease⟩ := Shelf.exists_lease (howns e he)
    obtain ⟨k, item, lease⟩ := e
    obtain rfl : lease = some ⟨n, pinned⟩ := hlease
    cases pinned <;> rfl
  have hcount : (g.store base).entries.countP (fun e =>
      e.2.lease.any (·.pinned) && (l.observe m).1.owns e.1 e.2) =
        (g.store base).entries.countP fun e => e.2.keeps :=
    List.countP_congr fun e he => by rw [hpinned e he]
  have hdue : (l.shelf base g).isDue m = ((l.observe m).2.1 || (l.observe m).2.2) := rfl
  simp only [attend, Shelf.attend, Shelf.tidings, hdue]
  cases (l.observe m).2.1 || (l.observe m).2.2 with
  | true =>
    refine ⟨?_, (Ground.beside_note base _ _).trans (Ground.beside_setStore base g _), ?_⟩
    · simp only [if_true, shelf, collect, unpinAll, Ground.store_note, Cache.base_bare,
        Ground.store_setStore_self, hmap]
      rfl
    · simp only [if_true, shelf, collect, unpinAll, Ground.note, Cache.base_bare, hcount]
      rfl
  | false => exact ⟨rfl, Ground.Beside.refl base g, rfl⟩

omit [DecidableEq κ] in
theorem leases_contains (cells : List (κ × Cell α)) (n : Nat) :
    (cells.filterMap (·.2.lease.map (·.serial))).contains n = cells.any fun e => e.2.isUnder n := by
  rw [Bool.eq_iff_iff, List.contains_iff_mem, List.mem_filterMap, List.any_eq_true]
  refine exists_congr fun e => and_congr_right fun _ => ?_
  cases hlease : e.2.lease <;> simp [Cell.isUnder, hlease]

/-- A sweep restricts the shelf to the instances that somebody holds. -/
theorem shelf_sweep (hx : (l.shelf base g).Owned) (m : Moment) :
    let w := l.sweep base m g
    (⟨w.2, ⟨(g.store base).entries.filter (·.1 ∉ w.1)⟩⟩ : Shelf κ α) =
      (l.shelf base g).restrict (l.holds m g) := by
  have habandons : ∀ e ∈ (g.store base).entries,
      l.abandons m g e.1 e.2 = !Shelf.stays (l.holds m g) e := by
    intro e he
    have howns : l.owns e.1 e.2 = true := hx.owns e he
    rw [abandons, howns, Bool.and_true, Shelf.stays, Bool.not_or]
  have hkept : ((g.store base).entries.filter fun e => !l.abandons m g e.1 e.2) =
      (g.store base).entries.filter (Shelf.stays (l.holds m g)) :=
    List.filter_congr fun e he => by rw [habandons e he, Bool.not_not]
  have hkeys : ((g.store base).entries.filter fun e => e.1 ∉
      ((g.store base).entries.filter fun e => l.abandons m g e.1 e.2).map (·.1)) =
        (g.store base).entries.filter (Shelf.stays (l.holds m g)) := by
    refine List.filter_congr fun e he => ?_
    have hmem : e.1 ∈ ((g.store base).entries.filter
        fun e => l.abandons m g e.1 e.2).map (·.1) ↔ l.abandons m g e.1 e.2 = true := by
      constructor
      · intro h
        obtain ⟨e', he', hkey⟩ := List.mem_map.mp h
        obtain ⟨hmem, hgone⟩ := List.mem_filter.mp he'
        have hsame : some e'.2 = some e.2 := by
          rw [← hx.cells.mem_entries.mp hmem, ← hx.cells.mem_entries.mp he, hkey]
        rw [Prod.ext hkey (Option.some.inj hsame)] at hgone
        exact hgone
      · exact fun h => List.mem_map_of_mem (List.mem_filter.mpr ⟨he, h⟩)
    have hdecide := Bool.eq_iff_iff.mpr (decide_eq_true_iff.trans hmem)
    rw [decide_not, hdecide, habandons e he, Bool.not_not]
  simp only [sweep, List.partition_eq_filter_filter, Shelf.restrict, Shelf.leasesOf, shelf, hkeys]
  simp only [Std.HashSet.contains_ofList, leases_contains, hkept, Function.comp_def]

omit [DecidableEq κ] in
theorem told_notePurged (keys : List κ) (g : Ground κ α) :
    (notePurged id keys g).told = g.told := by
  unfold notePurged
  split <;> rfl

omit [DecidableEq κ] in
theorem beside_notePurged (keys : List κ) (g : Ground κ α) :
    (notePurged id keys g).Beside base g := by
  unfold notePurged
  split
  · exact .refl base g
  · exact Ground.beside_note base g _

/-- A purge restricts the shelf, after a collection that is due, to the instances that somebody
holds. -/
theorem shelf_purge_holds (hx : (l.shelf base g).Owned) (m : Moment) (u : Unit) :
    let a := attend (Cache.bare id base : Cache κ α Unit) m l g
    let p := purge (Cache.bare id base : Cache κ α Unit) m (l, u) g
    p.state.1.shelf base p.ground = ((l.shelf base g).attend m).restrict (a.1.holds m a.2) ∧
      p.ground.Beside base g ∧ p.ground.told = (l.shelf base g).tidings id m ++ g.told := by
  obtain ⟨hshelf, hbeside, hjournal⟩ := shelf_attend id hx m
  have howned := hx.attend m
  rw [← hshelf] at howned
  have htold : (attend (Cache.bare id base : Cache κ α Unit) m l g).2.told =
      (l.shelf base g).tidings id m ++ g.told := by
    rw [Ground.told, hjournal, List.filter_append]
    refine congrArg (· ++ _) (List.filter_eq_self.mpr fun e he => ?_)
    unfold Shelf.tidings at he
    split at he
    · obtain rfl := List.mem_singleton.mp he
      rfl
    · cases he
  simp only [purge, Cache.base_bare]
  rw [← hshelf]
  generalize attend (Cache.bare id base) m l g = a at howned hbeside htold
  have hsweep := shelf_sweep howned m
  obtain ⟨hremoved, hstore⟩ := Cache.removeAll_bare id base m (a.1.sweep base m a.2).1 a.2
  refine ⟨?_, ((beside_notePurged id _ _).trans hremoved).trans hbeside, ?_⟩
  · rw [← hsweep, shelf, show (Cache.bare id base : Cache κ α Unit).id = id from rfl,
      store_notePurged, hstore]
  · rw [told_notePurged, Ground.told, Cache.journal_removeAll_bare]
    exact htold

omit [DecidableEq κ] in
/-- An instance is held if it is alive on the shelf or held elsewhere. -/
theorem holds_eq_alive (htidy : g.Tidy) (l : Leasing κ) (m : Moment) :
    l.holds m g = (l.shelf base g).alive (g.outside base m) := by
  funext n
  rw [holds, Shelf.alive, Ground.outside, Bool.or_assoc, Bool.or_assoc, Bool.or_assoc]
  refine congrArg (_ || ·) (congrArg (_ || ·) ?_)
  rw [Bool.eq_iff_iff, Ground.keeps_iff htidy base n]
  simp [shelf]

/-- A purge comes to a purge of the shelf. -/
theorem shelf_purge (hx : (l.shelf base g).Owned) (htidy : g.Tidy) (m : Moment) (u : Unit) :
    let p := purge (Cache.bare id base : Cache κ α Unit) m (l, u) g
    p.state.1.shelf base p.ground = (l.shelf base g).purge m (g.outside base m) ∧
      p.ground.Beside base g ∧ p.ground.told = (l.shelf base g).tidings id m ++ g.told := by
  obtain ⟨hshelf, hbeside, -⟩ := shelf_attend id hx m
  obtain ⟨hpurge, hpurged, htold⟩ := shelf_purge_holds id hx m u
  refine ⟨hpurge.trans ?_, hpurged, htold⟩
  rw [holds_eq_alive (hbeside.tidy htidy), hshelf, Shelf.purge, Shelf.swept,
    Ground.outside_congr hbeside.elsewhere]

end Purge

/-! ## Every cell is stored under the lease of its key -/

section Owned

variable {base} {l : Leasing κ} {g : Ground κ α}

theorem owned_track (hx : (l.shelf base g).Owned) (k : κ) (n : Nat) :
    ((track base l k n g).1.shelf base (track base l k n g).2).Owned := by
  have hdistinct : ((Leasing.track base l k n g).2.store base).Distinct := by
    unfold Leasing.track
    split
    · exact hx.cells
    · exact (foldl_unpin_spec base _ g).2.1 hx.cells
  refine hx.of_cells ?_ hdistinct fun e he => ?_
  · unfold Leasing.track
    split <;> rfl
  · obtain ⟨c, hc, hsame⟩ := (unpins_track base l k n g).exists_cell
      (hdistinct.mem_entries.mp (show (e.1, e.2) ∈ _ from he))
    exact ⟨c, hx.cells.mem_entries.mpr hc, hsame⟩

theorem shelf_remove (id : String) (base : Nat) (m : Moment) (k : κ) (l : Leasing κ) (u : Unit)
    (g : Ground κ α) :
    (l.forget k).shelf base ((Cache.bare id base : Cache κ α Unit).remove m k u g).ground =
      (l.shelf base g).erase k := by
  rw [shelf, (Cache.remove_bare id base m k g).2.2]
  rfl

theorem owned_purge (id : String) {s : Leasing κ × Unit} (hx : (s.1.shelf base g).Owned)
    (m : Moment) :
    ((purge (Cache.bare id base) m s g).state.1.shelf base
      (purge (Cache.bare id base) m s g).ground).Owned := by
  rw [(shelf_purge_holds id hx m s.2).1]
  exact (hx.attend m).restrict _

theorem owned_settle (id : String) (m : Moment) (k : κ) {r : Reply κ α Unit (Lookup κ α)}
    (hx : (l.shelf base r.ground).Owned) :
    let r' := settle (Cache.bare id base) m k l r
    (r'.state.1.shelf base r'.ground).Owned := by
  unfold Leasing.settle
  split
  · split
    · exact hx.of_cells rfl hx.cells fun e he => ⟨e.2, he, .inl rfl⟩
    · split
      · show Shelf.Owned (shelf base (l.forget k) _)
        rw [shelf_remove]
        exact hx.erase k
      · exact hx
  · exact hx

/-- Over a base store a reclaiming layer goes on storing every cell under the lease of its key. -/
theorem upholds_owned (id : String) (base : Nat) :
    (Leasing.onto (Cache.bare id base) : Cache κ α _).Upholds fun s g =>
      (s.1.shelf base g).Owned where
  put m k c s g h := by
    have hpurge := owned_purge id h m
    simp only [onto]
    generalize purge (Cache.bare id base) m s g = p at hpurge
    refine owned_track ?_ k _
    have hwrite := hpurge.write k c.item p.ground.issued
    simpa [shelf, Cache.bare] using hwrite
  get m k s g h := by
    exact owned_settle id m k (owned_purge id h m)
  resume m k gate w s g h := h
  remove m k s g h := by
    have herase := (owned_purge id h m).erase k
    simp only [onto]
    generalize purge (Cache.bare id base) m s g = p at herase
    rw [← shelf_remove id base m k p.state.1 p.state.2] at herase
    split
    · exact herase
    · split <;> exact herase
  clear m s g h := by
    refine ⟨Table.distinct_empty, ?_, ?_⟩ <;> simp only [onto, shelf, Cache.bare,
      Ground.store_setStore_self]
    · exact Table.distinct_empty
    · exact fun e he => absurd he List.not_mem_nil
  size m s g h := owned_purge id h m
  release m k s g h := h
  elsewhere {s g g'} h hg := by
    rw [shelf, show g'.store base = g.store base from hg]
    exact h

end Owned

/-! ## Unpinning the leases above the limit -/

section Track

variable {base}

theorem unpin_congr {g g' : Ground κ α} (h : g'.store base = g.store base) (k : κ) (n : Nat) :
    (unpin base g' k n).store base = (unpin base g k n).store base := by
  unfold unpin
  rw [h]
  split
  · exact h
  · split
    · rw [Ground.store_setStore_self, Ground.store_setStore_self]
    · exact h

theorem journal_unpin (g : Ground κ α) (k : κ) (n : Nat) :
    (unpin base g k n).journal = g.journal := by
  unfold unpin
  split
  · rfl
  · split <;> rfl

/-- What is unpinned depends on the cells alone, and the journal is not told. -/
theorem track_congr (l : Leasing κ) (k : κ) (n : Nat) {g g' : Ground κ α}
    (h : g'.store base = g.store base) :
    (track base l k n g').1 = (track base l k n g).1 ∧
      (track base l k n g').2.store base = (track base l k n g).2.store base ∧
      (track base l k n g).2.Beside base g ∧ (track base l k n g).2.journal = g.journal := by
  have hstore : ∀ (pins : List (κ × Nat)) (g g' : Ground κ α), g'.store base = g.store base →
      (pins.foldl (fun g p => unpin base g p.1 p.2) g').store base =
        (pins.foldl (fun g p => unpin base g p.1 p.2) g).store base := by
    intro pins
    induction pins with
    | nil => exact fun _ _ h => h
    | cons p pins ih => exact fun _ _ h => ih _ _ (unpin_congr h p.1 p.2)
  have hjournal : ∀ (pins : List (κ × Nat)) (g : Ground κ α),
      (pins.foldl (fun g p => unpin base g p.1 p.2) g).journal = g.journal := by
    intro pins
    induction pins with
    | nil => exact fun _ => rfl
    | cons p pins ih => exact fun g => (ih _).trans (journal_unpin g p.1 p.2)
  unfold track
  split
  · exact ⟨rfl, h, .refl base g, rfl⟩
  · exact ⟨rfl, hstore _ g g' h, (foldl_unpin_spec base _ g).1, hjournal _ g⟩

end Track

/-! ## Twins -/

section Twins

variable {base} {gone : Nat → Bool} {s s' s₁ : Leasing κ × Unit} {g g' g₁ g₁' : Ground κ α}

/-- Nobody holds an instance that is gone. -/
structure Sparing (base : Nat) (gone : Nat → Bool) (s : Leasing κ × Unit) (g : Ground κ α) :
    Prop where
  owned : (s.1.shelf base g).Owned
  tidy : g.Tidy
  dead : ∀ n, gone n = true → (s.1.shelf base g).alive (g.keptElsewhere base) n = false

/-- At a moment that spares them, what is alive is not gone. -/
theorem Sparing.alive (h : Sparing base gone s g) {m : Moment} (hm : m.Spares gone) {n : Nat}
    (hn : (s.1.shelf base g).alive (g.outside base m) n = true) : gone n = false := by
  rw [Bool.eq_false_iff]
  intro hgone
  have hdead := h.dead n hgone
  simp only [Shelf.alive, Ground.outside, hm n hgone, Bool.false_or] at hn hdead
  rw [hn] at hdead
  cases hdead

/-- At such a moment a purge sweeps what is gone. -/
theorem Sparing.purge_restrict (h : Sparing base gone s g) {m : Moment} (hm : m.Spares gone) :
    ((s.1.shelf base g).restrict fun n => !gone n).purge m (g.outside base m) =
      (s.1.shelf base g).purge m (g.outside base m) :=
  Shelf.purge_restrict fun n hn => by rw [h.alive hm hn]; rfl

/-- The same shelf, apart from instances that are gone. -/
structure Twin (base : Nat) (gone : Nat → Bool) (s : Leasing κ × Unit) (g : Ground κ α)
    (s' : Leasing κ × Unit) (g' : Ground κ α) : Prop where
  left : Sparing base gone s g
  right : Sparing base gone s' g'
  elsewhere : g'.keptElsewhere base = g.keptElsewhere base
  same : (s'.1.shelf base g').restrict (fun n => !gone n) =
    (s.1.shelf base g).restrict fun n => !gone n

/-- The same shelf, with nothing on it that is gone. -/
structure Purged (base : Nat) (gone : Nat → Bool) (s : Leasing κ × Unit) (g : Ground κ α)
    (s' : Leasing κ × Unit) (g' : Ground κ α) : Prop where
  state : s' = s
  store : g'.store base = g.store base
  elsewhere : g'.keptElsewhere base = g.keptElsewhere base
  tidy : g.Tidy
  tidy' : g'.Tidy
  owned : (s.1.shelf base g).Owned
  cells : ∀ e ∈ (g.store base).entries, gone e.2.item.serial = false
  links : ∀ n ∈ s.1.hardLinks, gone n = false
  others : ∀ n, g.keptElsewhere base n = true → gone n = false

theorem Purged.shelf (h : Purged base gone s g s' g') :
    s'.1.shelf base g' = s.1.shelf base g := by
  rw [Leasing.shelf, Leasing.shelf, h.state, h.store]

theorem Purged.twin (h : Purged base gone s g s' g') : Twin base gone s g s' g' := by
  have hdead : ∀ n, gone n = true →
      (s.1.shelf base g).alive (g.keptElsewhere base) n = false := by
    intro n hgone
    rw [Bool.eq_false_iff]
    intro halive
    simp only [Shelf.alive, Bool.or_eq_true, List.any_eq_true, Bool.and_eq_true,
      decide_eq_true_eq, List.contains_iff_mem] at halive
    have hspared : gone n = false := by
      rcases halive with (hn | hn) | ⟨e, he, rfl, -⟩
      · exact h.links n hn
      · exact h.others n hn
      · exact h.cells e he
    rw [hgone] at hspared
    cases hspared
  exact {
    left := ⟨h.owned, h.tidy, hdead⟩
    right := ⟨h.shelf ▸ h.owned, h.tidy', by rw [h.shelf, h.elsewhere]; exact hdead⟩
    elsewhere := h.elsewhere
    same := by rw [h.shelf] }

/-- A change of the shelf that both sides make. -/
theorem Purged.act (h : Purged base gone s g s' g') (hbeside : g₁.Beside base g)
    (hbeside' : g₁'.Beside base g') (hstore : g₁'.store base = g₁.store base)
    (howned : (s₁.1.shelf base g₁).Owned)
    (hcells : ∀ e ∈ (g₁.store base).entries, gone e.2.item.serial = false)
    (hlinks : ∀ n ∈ s₁.1.hardLinks, gone n = false) : Purged base gone s₁ g₁ s₁ g₁' where
  state := rfl
  store := hstore
  elsewhere := by rw [hbeside.elsewhere, hbeside'.elsewhere, h.elsewhere]
  tidy := hbeside.tidy h.tidy
  tidy' := hbeside'.tidy h.tidy'
  owned := howned
  cells := hcells
  links := hlinks
  others := by
    rw [hbeside.elsewhere]
    exact h.others

theorem Purged.stores (h : Purged base gone s g s' g') (hg : g₁.stores = g.stores)
    (hg' : g₁'.stores = g'.stores) : Purged base gone s g₁ s' g₁' := by
  rw [Ground.eq_of_stores hg, Ground.eq_of_stores hg']
  exact ⟨h.state, h.store, h.elsewhere, h.tidy, h.tidy', h.owned, h.cells, h.links, h.others⟩

/-- Whether an instance is held is the same on both sides. -/
theorem Purged.holds (h : Purged base gone s g s' g') (l : Leasing κ) (m : Moment) :
    l.holds m g' = l.holds m g := by
  rw [holds_eq_alive h.tidy, holds_eq_alive h.tidy', Ground.outside_congr h.elsewhere,
    Leasing.shelf, Leasing.shelf, h.store]

/-- Both sides purge to the same shelf. -/
theorem Twin.purge (id : String) {m : Moment} (hm : m.Spares gone) (h : Twin base gone s g s' g')
    (hlevel : g.Level gone g') :
    let p := purge (Cache.bare id base : Cache κ α Unit) m s g
    let p' := purge (Cache.bare id base : Cache κ α Unit) m s' g'
    Purged base gone p.state p.ground p'.state p'.ground ∧ p.ground.Level gone p'.ground := by
  obtain ⟨hshelf, hbeside, htold⟩ := shelf_purge id h.left.owned h.left.tidy m s.2
  obtain ⟨hshelf', hbeside', htold'⟩ := shelf_purge id h.right.owned h.right.tidy m s'.2
  have hsame : (s'.1.shelf base g').purge m (g'.outside base m) =
      (s.1.shelf base g).purge m (g.outside base m) := by
    rw [← h.left.purge_restrict hm, ← h.right.purge_restrict hm, h.same,
      Ground.outside_congr h.elsewhere]
  have htidings : (s'.1.shelf base g').tidings id m = (s.1.shelf base g).tidings id m := by
    rw [← Shelf.tidings_restrict (q := fun n => !gone n), h.same, Shelf.tidings_restrict]
  have hpurged := owned_purge id h.left.owned m
  rw [← hshelf, ← hshelf'] at hsame
  refine ⟨?_, ?_⟩
  · exact {
      state := Prod.ext (congrArg Shelf.leasing hsame) rfl
      store := congrArg Shelf.cells hsame
      elsewhere := by rw [hbeside.elsewhere, hbeside'.elsewhere, h.elsewhere]
      tidy := hbeside.tidy h.left.tidy
      tidy' := hbeside'.tidy h.right.tidy
      owned := hpurged
      cells := by
        intro e he
        refine h.left.alive hm (Shelf.alive_of_mem_purge (m := m) ?_)
        rw [← congrArg Shelf.cells hshelf]
        exact he
      links := by
        intro n hn
        have hlinks := congrArg (fun x => x.leasing.hardLinks) hshelf
        rw [Shelf.hardLinks_purge] at hlinks
        refine h.left.alive hm ?_
        simp only [Shelf.alive, Bool.or_eq_true, List.contains_iff_mem]
        exact .inl (.inl (hlinks ▸ hn))
      others := by
        intro n hn
        refine h.left.alive hm ?_
        rw [hbeside.elsewhere] at hn
        simp [Shelf.alive, Ground.outside, hn] }
  · exact ⟨by rw [hbeside.issued, hbeside'.issued, hlevel.issued],
      by rw [htold, htold', htidings, hlevel.told],
      fun n hn => hbeside.issued ▸ hlevel.fresh n hn⟩

theorem Twin.stores (h : Twin base gone s g s' g') (hg : g₁.stores = g.stores)
    (hg' : g₁'.stores = g'.stores) : Twin base gone s g₁ s' g₁' := by
  rw [Ground.eq_of_stores hg, Ground.eq_of_stores hg']
  exact ⟨⟨h.left.owned, h.left.tidy, h.left.dead⟩, ⟨h.right.owned, h.right.tidy, h.right.dead⟩,
    h.elsewhere, h.same⟩

theorem Purged.remember (h : Purged base gone s g s' g') {n : Nat} (hn : gone n = false) :
    Purged base gone (s.1.remember n, s.2) g (s'.1.remember n, s'.2) g' := by
  rw [h.state]
  refine h.act (.refl base g) (.refl base g') h.store
    (h.owned.of_cells rfl h.owned.cells fun e he => ⟨e.2, he, .inl rfl⟩) h.cells fun n' hn' => ?_
  have hmem : n' ∈ s.1.hardLinks ++ [n] := by
    simp only [Leasing.remember] at hn'
    split at hn'
    · exact List.mem_of_mem_drop hn'
    · exact hn'
  rcases List.mem_append.mp hmem with hn' | hn'
  · exact h.links n' hn'
  · rwa [List.mem_singleton.mp hn']

theorem Purged.remove (id : String) (m : Moment) (k : κ) (h : Purged base gone s g s' g') :
    let r := (Cache.bare id base : Cache κ α Unit).remove m k s.2 g
    let r' := (Cache.bare id base : Cache κ α Unit).remove m k s'.2 g'
    Purged base gone (s.1.forget k, r.state) r.ground (s'.1.forget k, r'.state) r'.ground := by
  obtain ⟨-, hbeside, hstore⟩ := Cache.remove_bare id base m k g
  obtain ⟨-, hbeside', hstore'⟩ := Cache.remove_bare id base m k g'
  have herase := h.owned.erase k
  rw [← shelf_remove id base m k s.1 s.2] at herase
  rw [h.state]
  refine h.act hbeside hbeside' (by rw [hstore, hstore', h.store]) herase (fun e he => ?_) h.links
  rw [hstore] at he
  exact h.cells e (List.mem_of_mem_filter he)

theorem Purged.remove_bare (id : String) {m : Moment} (hm : m.Spares gone) (k : κ)
    (h : Purged base gone s g s' g') (hlevel : g.Level gone g') :
    ((Cache.bare id base : Cache κ α Unit).remove m k s.2 g).Twin gone
      (fun _ g _ g' => g.SameStore base g') ((Cache.bare id base).remove m k s'.2 g') :=
  (Cache.twins_bare id base gone).remove hm h.store hlevel

/-- Both sides write the cell under the same lease. -/
theorem Purged.write (h : Purged base gone s g s' g') (k : κ) {item : Item α}
    (hitem : gone item.serial = false) (n : Nat) :
    let c : Cell α := ⟨item, some ⟨n, true⟩⟩
    Purged base gone (s.1.register k n, s.2) (g.setStore base ((g.store base).insert k c))
      (s'.1.register k n, s'.2) (g'.setStore base ((g'.store base).insert k c)) := by
  rw [h.state]
  refine h.act (Ground.beside_setStore base g _) (Ground.beside_setStore base g' _) ?_ ?_ ?_ h.links
  · rw [Ground.store_setStore_self, Ground.store_setStore_self, h.store]
  · rw [Leasing.shelf, Ground.store_setStore_self]
    exact h.owned.write k item n
  · intro e he
    rw [Ground.store_setStore_self] at he
    rcases List.mem_cons.mp he with rfl | he
    · exact hitem
    · exact h.cells e (List.mem_of_mem_filter he)

theorem Purged.track (h : Purged base gone s g s' g') (k : κ) (n : Nat) :
    Purged base gone ((track base s.1 k n g).1, s.2) (track base s.1 k n g).2
      ((track base s'.1 k n g').1, s'.2) (track base s'.1 k n g').2 := by
  obtain ⟨hstate, hstore, hbeside, -⟩ := track_congr s.1 k n h.store
  obtain ⟨-, -, hbeside', -⟩ := track_congr s.1 k n h.store.symm
  rw [h.state, hstate]
  refine h.act hbeside hbeside' hstore (owned_track h.owned k n) (fun e he => ?_) fun n' hn' => ?_
  · have hdistinct : ((Leasing.track base s.1 k n g).2.store base).Distinct :=
      (owned_track h.owned k n).cells
    obtain ⟨c, hc, hsame⟩ := (unpins_track base s.1 k n g).exists_cell
      (hdistinct.mem_entries.mp (show (e.1, e.2) ∈ _ from he))
    have hcell := h.cells _ (h.owned.cells.mem_entries.mpr hc)
    rcases hsame with hsame | hsame <;> rwa [hsame]
  · refine h.links n' ?_
    unfold Leasing.track at hn'
    split at hn' <;> exact hn'

/-- Both sides make the same of a lookup in the base store. -/
theorem Purged.settle (id : String) {m : Moment} (hm : m.Spares gone) (k : κ)
    (h : Purged base gone s g s' g') (hlevel : g.Level gone g') :
    let d : Cache κ α Unit := Cache.bare id base
    (Leasing.settle d m k s.1 ⟨s.2, g, .done (.ok ((g.store base).find? k))⟩).Twin gone
      (Twin base gone)
      (Leasing.settle d m k s'.1 ⟨s'.2, g', .done (.ok ((g'.store base).find? k))⟩) := by
  obtain ⟨l, u⟩ := s
  obtain rfl : s' = (l, u) := h.state
  have hremove := h.remove_bare id hm k hlevel
  simp only [Leasing.settle, h.store]
  cases hc : (g.store base).find? k with
  | none => exact ⟨rfl, hlevel, h.twin⟩
  | some c =>
    have hreaches : l.reaches m g' c = l.reaches m g c := by rw [reaches, reaches, h.holds]
    simp only [hreaches]
    split
    · exact ⟨rfl, hlevel, (h.remember (h.cells _ (Table.mem_of_lookup hc))).twin⟩
    · split
      · exact ⟨rfl, hremove.level, (h.remove id m k).twin⟩
      · exact ⟨rfl, hlevel, h.twin⟩

/-- Both sides hand out a removed cell, or neither does. -/
theorem Purged.hand (h : Purged base gone s g s' g') (hlevel : g.Level gone g') (m : Moment)
    (c : Cell α) :
    Reply.Twin gone (Twin base gone)
      (if s.1.reaches m g c then ⟨s, g, some (Cell.mk c.item none)⟩ else ⟨s, g, none⟩)
      (if s'.1.reaches m g' c then ⟨s', g', some (Cell.mk c.item none)⟩ else ⟨s', g', none⟩) := by
  have hreaches : s'.1.reaches m g' c = s.1.reaches m g c := by
    rw [reaches, reaches, h.holds, h.state]
  rw [hreaches]
  cases s.1.reaches m g c with
  | true => exact ⟨rfl, hlevel, h.twin⟩
  | false => exact ⟨rfl, hlevel, h.twin⟩

/-- A clear leaves nothing on the shelf. -/
theorem Twin.clear (h : Twin base gone s g s' g') :
    Purged base gone (s.1.letGo.forgetAll, s.2) (g.setStore base .empty)
      (s'.1.letGo.forgetAll, s'.2) (g'.setStore base .empty) where
  state := by
    have hsame := congrArg (fun x => x.leasing.letGo.forgetAll) h.same
    exact Prod.ext hsame rfl
  store := by rw [Ground.store_setStore_self, Ground.store_setStore_self]
  elsewhere := by
    rw [(Ground.beside_setStore base g _).elsewhere, (Ground.beside_setStore base g' _).elsewhere,
      h.elsewhere]
  tidy := (Ground.beside_setStore base g _).tidy h.left.tidy
  tidy' := (Ground.beside_setStore base g' _).tidy h.right.tidy
  owned := by
    rw [Leasing.shelf, Ground.store_setStore_self]
    exact ⟨Table.distinct_empty, Table.distinct_empty, fun e he => absurd he List.not_mem_nil⟩
  cells := by
    intro e he
    rw [Ground.store_setStore_self] at he
    exact absurd he List.not_mem_nil
  links := fun n hn => absurd hn List.not_mem_nil
  others := by
    intro n hn
    rw [(Ground.beside_setStore base g _).elsewhere] at hn
    rw [Bool.eq_false_iff]
    intro hgone
    have hdead := h.left.dead n hgone
    simp [Shelf.alive, hn] at hdead

/-- Over a base store a reclaiming layer has twins. -/
theorem twins (id : String) (base : Nat) (gone : Nat → Bool) :
    (Leasing.onto (Cache.bare id base) : Cache κ α _).Twins gone (Twin base gone) where
  stores := Twin.stores
  put := by
    intro m k c s g s' g' hm hc h hlevel
    obtain ⟨hpurged, hlevel⟩ := h.purge id hm hlevel
    simp only [onto]
    generalize purge (Cache.bare id base) m s g = p at hpurged hlevel
    generalize purge (Cache.bare id base) m s' g' = p' at hpurged hlevel
    have hissued : Purged base gone p.state p.ground.issue p'.state p'.ground.issue :=
      hpurged.stores rfl rfl
    rw [hlevel.issued]
    have hwrite := hissued.write k hc p.ground.issued
    obtain ⟨-, -, hbeside, hjournal⟩ :=
      track_congr (p.state.1.register k p.ground.issued) k p.ground.issued hwrite.store
    obtain ⟨-, -, hbeside', hjournal'⟩ :=
      track_congr (p'.state.1.register k p.ground.issued) k p.ground.issued hwrite.store.symm
    exact ⟨rfl, hlevel.issue.congr hbeside.issued hbeside'.issued hjournal hjournal',
      (hwrite.track k p.ground.issued).twin⟩
  get := by
    intro m k s g s' g' hm h hlevel
    obtain ⟨hpurged, hlevel⟩ := h.purge id hm hlevel
    simp only [onto]
    generalize purge (Cache.bare id base) m s g = p at hpurged hlevel
    generalize purge (Cache.bare id base) m s' g' = p' at hpurged hlevel
    exact hpurged.settle id hm k hlevel
  resume hm h hlevel := ⟨rfl, hlevel, h⟩
  remove := by
    intro m k s g s' g' hm h hlevel
    obtain ⟨hpurged, hlevel⟩ := h.purge id hm hlevel
    simp only [onto]
    generalize purge (Cache.bare id base) m s g = p at hpurged hlevel
    generalize purge (Cache.bare id base) m s' g' = p' at hpurged hlevel
    have hremove := hpurged.remove_bare id hm k hlevel
    have hremoved := hpurged.remove id m k
    rw [hremove.answer]
    cases ((Cache.bare id base : Cache κ α Unit).remove m k p.state.2 p.ground).answer with
    | none => exact ⟨rfl, hremove.level, hremoved.twin⟩
    | some c => exact hremoved.hand hremove.level m c
  clear := by
    intro m s g s' g' hm h hlevel
    exact ⟨rfl, hlevel.congr rfl rfl rfl rfl, h.clear.twin⟩
  size := by
    intro m s g s' g' hm h hlevel
    obtain ⟨hpurged, hlevel⟩ := h.purge id hm hlevel
    simp only [onto]
    generalize purge (Cache.bare id base) m s g = p at hpurged hlevel
    generalize purge (Cache.bare id base) m s' g' = p' at hpurged hlevel
    exact ⟨congrArg Table.size hpurged.store, hlevel, hpurged.twin⟩
  release hm h hlevel := ⟨rfl, hlevel, h⟩

end Twins

end Leasing

end LayeredCache
