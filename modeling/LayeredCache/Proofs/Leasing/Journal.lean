import LayeredCache.Proofs.Layer.Mirror

/-!
# Reclaiming layers do not read the journal

What a reclaiming layer does depends on what the base stores hold, on the serial numbers that were
given out and on who holds instances outside. Over a cache that does not read the journal either,
it makes the same cells, drops the same ones and answers the same on grounds that differ in their
journals alone. Since layers never make contents up, a property that every written content has is
one of every content that is found.

## Main definitions

* `Ground.Alike` — two grounds that differ in their journals alone.
-/

namespace LayeredCache

variable {κ α σ : Type}

/-! ## Grounds that differ in their journals -/

/-- Two grounds that differ in their journals alone. -/
structure Ground.Alike (g g' : Ground κ α) : Prop where
  stores : g'.stores = g.stores
  issued : g'.issued = g.issued

namespace Ground

variable {g g' : Ground κ α}

theorem quiet_alike : Quiet (Alike : Ground κ α → Ground κ α → Prop) where
  note_left h _ := ⟨h.stores, h.issued⟩
  note_right h _ := ⟨h.stores, h.issued⟩

theorem Alike.store_eq (h : Alike g g') (base : Nat) : g'.store base = g.store base := by
  rw [store, store, h.stores]

theorem Alike.keeps_eq (h : Alike g g') (serial : Nat) : g'.keeps serial = g.keeps serial := by
  rw [keeps, keeps, h.stores]

theorem Alike.setStore (h : Alike g g') (base : Nat) (t : Table κ (Cell α)) :
    Alike (g.setStore base t) (g'.setStore base t) := by
  refine ⟨?_, h.issued⟩
  simp only [Ground.setStore, h.stores]

theorem Alike.issue (h : Alike g g') : Alike g.issue g'.issue :=
  ⟨h.stores, congrArg (· + 1) h.issued⟩

theorem Alike.note (h : Alike g g') (e e' : Event κ) : Alike (g.note e) (g'.note e') :=
  ⟨h.stores, h.issued⟩

end Ground

variable {thread : String} {intervals : List Span} {d : Cache κ α σ} [DecidableEq κ]

/-- A base store does not read the journal. -/
theorem Cache.mirrors_bare_alike (id : String) (base : Nat) :
    (Cache.bare id base : Cache κ α Unit).Mirrors (Cache.bare id base) thread intervals Eq
      Ground.Alike fun _ => Eq where
  put := by
    rintro since m k c _ s _ g g' - rfl rfl hg
    refine ⟨⟨rfl, rfl⟩, ?_, rfl⟩
    simp only [bare, hg.store_eq]
    exact hg.setStore base _
  get := by
    rintro since m k s _ g g' - rfl hg
    refine ⟨⟨_, _, rfl, rfl, ?_⟩, hg, rfl⟩
    rw [hg.store_eq]
    cases (g.store base).find? k <;> constructor
    rfl
  remove := by
    rintro since m k s _ g g' - rfl hg
    simp only [bare, hg.store_eq]
    cases (g.store base).find? k with
    | none => exact ⟨.none, hg, rfl⟩
    | some c => exact ⟨.some rfl, hg.setStore base _, rfl⟩
  clear := by
    rintro since m s _ g g' rfl hg
    exact ⟨trivial, hg.setStore base _, rfl⟩
  size := by
    rintro since m s _ g g' - rfl hg
    refine ⟨?_, hg, rfl⟩
    simp only [bare, hg.store_eq]
  release hs hg := ⟨trivial, hg, hs⟩

namespace Leasing

variable {g g' : Ground κ α}

/-! ## What a reclaiming layer does to the ground -/

omit [DecidableEq κ] in
theorem reaches_congr (h : g.Alike g') (l : Leasing κ) (m : Moment) (c : Cell α) :
    l.reaches m g' c = l.reaches m g c := by
  rw [reaches, reaches, holds, holds, h.keeps_eq]

theorem sweep_congr (h : g.Alike g') (base : Nat) (m : Moment) (l : Leasing κ) :
    l.sweep base m g' = l.sweep base m g := by
  have habandons : ∀ k c, l.abandons m g' k c = l.abandons m g k c := by
    intro k c
    rw [abandons, abandons, holds, holds, h.keeps_eq]
  simp only [sweep, h.store_eq, habandons]

theorem attend_alike (h : g.Alike g') (d : Cache κ α σ) (m : Moment) (l : Leasing κ) :
    (attend d m l g').1 = (attend d m l g).1 ∧
      (attend d m l g).2.Alike (attend d m l g').2 := by
  simp only [attend]
  split
  · refine ⟨rfl, Ground.Alike.note ?_ _ _⟩
    simp only [collect, unpinAll, h.store_eq]
    exact h.setStore ..
  · exact ⟨rfl, h⟩

theorem unpin_alike (h : g.Alike g') (base : Nat) (k : κ) (serial : Nat) :
    (unpin base g k serial).Alike (unpin base g' k serial) := by
  simp only [unpin, h.store_eq]
  cases (g.store base).find? k with
  | none => exact h
  | some c =>
    by_cases hc : c.isUnder serial
    · simp only [hc, if_true]
      exact h.setStore ..
    · simp only [hc]
      exact h

theorem foldl_unpin_alike (base : Nat) (leases : List (κ × Nat)) (h : g.Alike g') :
    (leases.foldl (fun g p => unpin base g p.1 p.2) g).Alike
      (leases.foldl (fun g p => unpin base g p.1 p.2) g') := by
  induction leases generalizing g g' with
  | nil => exact h
  | cons p leases ih => exact ih (unpin_alike h base p.1 p.2)

theorem track_alike (h : g.Alike g') (base : Nat) (l : Leasing κ) (k : κ) (serial : Nat) :
    (track base l k serial g').1 = (track base l k serial g).1 ∧
      (track base l k serial g).2.Alike (track base l k serial g').2 := by
  unfold track
  cases l.retention with
  | soft limit => exact ⟨rfl, foldl_unpin_alike base _ h⟩
  | weak every operations => exact ⟨rfl, h⟩

omit [DecidableEq κ] in
theorem notePurged_alike (h : g.Alike g') (id : String) (keys : List κ) :
    (notePurged id keys g).Alike (notePurged id keys g') := by
  unfold notePurged
  split
  · exact h
  · exact h.note _ _

/-! ## The layer -/

section Over

variable (H : d.Mirrors d thread intervals Eq Ground.Alike fun _ => Eq)
include H

omit [DecidableEq κ] in
theorem removeAll_alike {since : Span} {m : Moment} (hm : m.Calm thread intervals since)
    (keys : List κ) (s : σ) (h : g.Alike g') :
    (d.removeAll m keys s g').1 = (d.removeAll m keys s g).1 ∧
      (d.removeAll m keys s g).2.Alike (d.removeAll m keys s g').2 := by
  induction keys generalizing s g g' with
  | nil => exact ⟨rfl, h⟩
  | cons k keys ih =>
    obtain ⟨-, hground, hstate⟩ := H.remove (k := k) hm (rfl : s = s) h
    simp only [Cache.removeAll, ← hstate]
    exact ih _ hground

theorem purge_mirrors {since : Span} {m : Moment} (hm : m.Calm thread intervals since)
    (s : Leasing κ × σ) (h : g.Alike g') :
    (purge d m s g).Mirrors Ground.Alike Eq Eq (purge d m s g') := by
  obtain ⟨hstate, hattend⟩ := attend_alike h d m s.1
  simp only [purge, hstate, sweep_congr hattend]
  obtain ⟨hinner, hremoved⟩ :=
    removeAll_alike H hm ((attend d m s.1 g).1.sweep d.base m (attend d m s.1 g).2).1 s.2 hattend
  exact ⟨rfl, notePurged_alike hremoved _ _, by rw [hinner]⟩

theorem settle_mirrors {since : Span} {m : Moment} (hm : m.Calm thread intervals since) (k : κ)
    (l : Leasing κ) {r r' : Reply κ α σ (Lookup κ α)} (h : r.Mirrors Ground.Alike Eq (Find Eq) r') :
    (settle d m k l r).Mirrors Ground.Alike Eq (Find Eq) (settle d m k l r') := by
  obtain ⟨⟨found, found', ha, ha', hfound⟩, hground, hstate⟩ := h
  rcases eq_of_rel hfound with ⟨rfl, rfl⟩ | ⟨c, _, rfl, rfl, rfl⟩
  · simp only [settle, ha, ha', hstate]
    exact ⟨⟨_, _, rfl, rfl, .none⟩, hground, rfl⟩
  · simp only [settle, ha, ha', reaches_congr hground, hstate]
    split
    · exact ⟨⟨_, _, rfl, rfl, .some rfl⟩, hground, rfl⟩
    · split
      · obtain ⟨-, hremoved, hinner⟩ := H.remove (k := k) hm (rfl : r'.state = r'.state) hground
        exact ⟨⟨_, _, rfl, rfl, .none⟩, hremoved, congrArg (Prod.mk _) hinner⟩
      · exact ⟨⟨_, _, rfl, rfl, .none⟩, hground, rfl⟩

/-- Over a cache that does not read the journal, a reclaiming layer does not either. -/
theorem mirrors_alike : (Leasing.onto d).Mirrors (Leasing.onto d) thread intervals Eq Ground.Alike
    fun _ => Eq where
  put := by
    rintro since m k c _ s _ g g' hm rfl rfl hg
    obtain ⟨-, hpurged, hstate⟩ := purge_mirrors H hm s hg
    obtain ⟨⟨ha, ha'⟩, hput, hinner⟩ :=
      H.put (k := k) (c := { c with lease := some ⟨(purge d m s g).ground.issued, true⟩ }) hm rfl
        (rfl : (purge d m s g).state.2 = (purge d m s g).state.2) hpurged.issue
    simp only [onto, ← hstate, hpurged.issued, ha, ha']
    obtain ⟨htracked, htrack⟩ := track_alike hput d.base
      ((purge d m s g).state.1.register k (purge d m s g).ground.issued) k
      (purge d m s g).ground.issued
    exact ⟨⟨rfl, rfl⟩, htrack, by rw [htracked, hinner]⟩
  get := by
    rintro since m k s _ g g' hm rfl hg
    obtain ⟨-, hpurged, hstate⟩ := purge_mirrors H hm s hg
    simp only [onto, ← hstate]
    exact settle_mirrors H hm k _ (H.get hm rfl hpurged)
  remove := by
    rintro since m k s _ g g' hm rfl hg
    obtain ⟨-, hpurged, hstate⟩ := purge_mirrors H hm s hg
    obtain ⟨hcells, hremoved, hinner⟩ := H.remove (k := k) hm
      (rfl : (purge d m s g).state.2 = (purge d m s g).state.2) hpurged
    simp only [onto, ← hstate]
    rcases eq_of_rel hcells with ⟨ha, ha'⟩ | ⟨c, _, ha, ha', rfl⟩
    · simp only [ha, ha']
      exact ⟨.none, hremoved, congrArg (Prod.mk _) hinner⟩
    · simp only [ha, ha', reaches_congr hremoved]
      split
      · exact ⟨.some rfl, hremoved, congrArg (Prod.mk _) hinner⟩
      · exact ⟨.none, hremoved, congrArg (Prod.mk _) hinner⟩
  clear := by
    rintro since m s _ g g' rfl hg
    obtain ⟨-, hground, hinner⟩ := H.clear (t := since) (m := m) (rfl : s.2 = s.2) hg
    exact ⟨trivial, hground, congrArg (Prod.mk _) hinner⟩
  size := by
    rintro since m s _ g g' hm rfl hg
    obtain ⟨-, hpurged, hstate⟩ := purge_mirrors H hm s hg
    obtain ⟨hsize, hground, hinner⟩ := H.size hm
      (rfl : (purge d m s g).state.2 = (purge d m s g).state.2) hpurged
    simp only [onto, ← hstate]
    exact ⟨hsize, hground, congrArg (Prod.mk _) hinner⟩
  release := by
    rintro since m k s _ g g' rfl hg
    obtain ⟨-, hground, hinner⟩ := H.release (t := since) (m := m) (k := k) (rfl : s.2 = s.2) hg
    exact ⟨trivial, hground, congrArg (Prod.mk _) hinner⟩

end Over

end Leasing

/-! ## Contents with a property -/

/-- Two grounds that differ in their journals alone, with contents of a property in a base store. -/
structure Ground.AlikeWith (base : Nat) (Q : Content α → Prop) (g g' : Ground κ α) : Prop where
  alike : g.Alike g'
  contents : ∀ k y, g.content base k = some y → Q y

theorem Ground.AlikeWith.within {base : Nat} {Q : Content α → Prop} {g g' g₁ g₁' : Ground κ α}
    (h : AlikeWith base Q g g') (halike : g₁.Alike g₁') (hwithin : g₁.Within base g) :
    AlikeWith base Q g₁ g₁' :=
  ⟨halike, fun k y hy => h.contents k y (hwithin k y hy)⟩

theorem Ground.quiet_alikeWith (base : Nat) (Q : Content α → Prop) :
    Quiet (AlikeWith base Q : Ground κ α → Ground κ α → Prop) where
  note_left h e := ⟨quiet_alike.note_left h.alike e, h.contents⟩
  note_right h e := ⟨quiet_alike.note_right h.alike e, h.contents⟩

theorem Ground.AlikeWith.issue {base : Nat} {Q : Content α → Prop} {g g' : Ground κ α}
    (h : AlikeWith base Q g g') :
    g'.issued = g.issued ∧ AlikeWith base Q g.issue g'.issue :=
  ⟨h.alike.issued, h.alike.issue, h.contents⟩

/-- A cache that loses contents and never makes them up finds contents of the property that all
written contents have. -/
theorem Cache.Mirrors.same (H : d.Mirrors d thread intervals Eq Ground.Alike fun _ => Eq)
    (hd : d.Faithful .ok .ok) (Q : Content α → Prop) :
    d.Mirrors d thread intervals (Cell.Same Q) (Ground.AlikeWith d.base Q) fun _ => Eq where
  put := by
    rintro since m k _ c s _ g g' hm ⟨rfl, hc⟩ rfl hg
    obtain ⟨hanswer, hground, hstate⟩ := H.put (k := k) hm rfl rfl hg.alike
    refine ⟨hanswer, ⟨hground, ?_⟩, hstate⟩
    obtain ⟨_, hkeep, hwrote⟩ := hd.put_ok m k c s g hanswer.1
    cases hkeep
    intro k' y' hy'
    have hw := hwrote k' y' hy'
    split at hw
    · exact hw ▸ hc
    · exact hg.contents k' y' hw
  get := by
    rintro since m k s _ g g' hm rfl hg
    obtain ⟨⟨found, found', ha, ha', hfound⟩, hground, hstate⟩ := H.get (k := k) hm rfl hg.alike
    refine ⟨⟨found, found', ha, ha', ?_⟩, hg.within hground (hd.get m k s g), hstate⟩
    rcases eq_of_rel hfound with ⟨rfl, rfl⟩ | ⟨c, _, rfl, rfl, rfl⟩
    · exact .none
    · obtain ⟨y, hy, hread⟩ := hd.get_some m k s g c ha
      cases hread
      exact .some ⟨rfl, hg.contents k _ hy⟩
  remove := by
    rintro since m k s _ g g' hm rfl hg
    obtain ⟨hcells, hground, hstate⟩ := H.remove (k := k) hm rfl hg.alike
    refine ⟨?_, hg.within hground (hd.remove m k s g), hstate⟩
    rcases eq_of_rel hcells with ⟨ha, ha'⟩ | ⟨c, _, ha, ha', rfl⟩
    · rw [ha, ha']
      exact .none
    · obtain ⟨y, hy, hread⟩ := hd.remove_some m k s g c ha
      cases hread
      rw [ha, ha']
      exact .some ⟨rfl, hg.contents k _ hy⟩
  clear := by
    rintro since m s _ g g' rfl hg
    obtain ⟨-, hground, hstate⟩ := H.clear (t := since) (m := m) rfl hg.alike
    exact ⟨trivial, hg.within hground (Ground.Within.of_absent (hd.clear m s g)), hstate⟩
  size := by
    rintro since m s _ g g' hm rfl hg
    obtain ⟨hsize, hground, hstate⟩ := H.size hm rfl hg.alike
    exact ⟨hsize, hg.within hground (hd.size m s g), hstate⟩
  release := by
    rintro since m k s _ g g' rfl hg
    obtain ⟨-, hground, hstate⟩ := H.release (t := since) (m := m) (k := k) rfl hg.alike
    exact ⟨trivial, hg.within hground (hd.release m k s g), hstate⟩

end LayeredCache
