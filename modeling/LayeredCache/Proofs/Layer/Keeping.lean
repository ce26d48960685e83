import LayeredCache.Proofs.Capacity
import LayeredCache.Proofs.Layer.Reach
import LayeredCache.Proofs.Layer.Readback
import LayeredCache.Proofs.Layer.Windows

/-!
# Writes that keep their entry

A write that succeeds leaves its cell in the base store, pinned if it has a lease. What follows in
the same call are evictions by layers that go by recency. They remove other keys, find no window
that has run out, and find the signals of reclaiming layers as the write has left them; so they take
the cell away only if such a layer counts its operations and a collection falls due.

## Main definitions

* `Ground.Secure` — a key whose cell keeps its instance alive.
* `Ground.Collects`, `Ground.Reclaims` — a collection by the number of operations, and one after an
  eviction.
* `Leasing.IsAble` — a reclaiming layer whose limit leaves room for the lease of a write.
* `Cache.Keeping` — the law above.

## Main statements

* `Stack.keeping` — the law for stacks.
-/

namespace LayeredCache

variable {κ α σ : Type}

/-- Events led from the journal of `g` to that of `g'`, and a collection by the number of operations
is among them. -/
def Ground.Collects (id : String) (g g' : Ground κ α) : Prop :=
  ∃ events pins, g'.journal = events ++ g.journal ∧ Event.collected id false pins ∈ events

/-- Such a collection came after an eviction by recency. -/
def Ground.Reclaims (id : String) (g g' : Ground κ α) : Prop :=
  ∃ events pins key before, g'.journal = events ++ .evicting .lru id key :: before ∧
    g.journal <:+ before ∧ Event.collected id false pins ∈ events

namespace Ground

variable {id : String} {g g' g'' : Ground κ α}

theorem Collects.later (h : Collects id g g') (hlater : g'.journal <:+ g''.journal) :
    Collects id g g'' := by
  obtain ⟨events, pins, hjournal, hmem⟩ := h
  obtain ⟨later, hlater⟩ := hlater
  exact ⟨later ++ events, pins, by rw [← hlater, hjournal, List.append_assoc],
    List.mem_append_right _ hmem⟩

theorem Reclaims.later (h : Reclaims id g g') (hlater : g'.journal <:+ g''.journal) :
    Reclaims id g g'' := by
  obtain ⟨events, pins, key, before, hjournal, hbefore, hmem⟩ := h
  obtain ⟨later, hlater⟩ := hlater
  exact ⟨later ++ events, pins, key, before, by rw [← hlater, hjournal, List.append_assoc], hbefore,
    List.mem_append_right _ hmem⟩

theorem Reclaims.earlier (h : Reclaims id g' g'') (hearlier : g.journal <:+ g'.journal) :
    Reclaims id g g'' := by
  obtain ⟨events, pins, key, before, hjournal, hbefore, hmem⟩ := h
  exact ⟨events, pins, key, before, hjournal, hearlier.trans hbefore, hmem⟩

/-- A collection in what follows an eviction. -/
theorem Collects.reclaims {key : κ} (h : Collects id (g'.note (.evicting .lru id key)) g'')
    (hearlier : g.journal <:+ g'.journal) : Reclaims id g g'' := by
  obtain ⟨events, pins, hjournal, hmem⟩ := h
  exact ⟨events, pins, key, g'.journal, hjournal, hearlier, hmem⟩

end Ground

variable [DecidableEq κ]

/-- The cell of a key keeps its instance alive. -/
def Ground.Secure (base : Nat) (k : κ) (g : Ground κ α) : Prop :=
  ∃ c, (g.store base).find? k = some c ∧ c.keeps = true

theorem Ground.Secure.congr {base : Nat} {k : κ} {g g' : Ground κ α} (h : g.Secure base k)
    (hg : g'.store base = g.store base) : g'.Secure base k := by
  rw [Ground.Secure, hg]
  exact h

/-- In states with the property `I`, a write by `d` that succeeds leaves a secure cell or a
collection has come after an eviction, and it leaves the layers calm. A removal in calm layers
leaves them calm and secure cells of other keys secure, or a collection comes. -/
structure Cache.Keeping (d : Cache κ α σ) (I : σ → Ground κ α → Prop) (C : Moment → σ → Prop) :
    Prop where
  put : ∀ m k c s g, I s g → c.keeps = true → (d.put m k c s g).answer = .ok () →
    let r := d.put m k c s g
    C m r.state ∧ (r.ground.Secure d.base k ∨ g.Reclaims d.id r.ground)
  remove : ∀ m k s g, I s g → C m s → let r := d.remove m k s g
    C m r.state ∧ ∀ k' ≠ k, g.Secure d.base k' →
      r.ground.Secure d.base k' ∨ g.Collects d.id r.ground

theorem Cache.keeping_bare (id : String) (base : Nat) :
    (Cache.bare id base : Cache κ α Unit).Keeping (fun _ _ => True) fun _ _ => True where
  put m k c s g _ hc _ := ⟨trivial, .inl ⟨c, by simp [bare, Table.find?_insert], hc⟩⟩
  remove m k s g _ _ := by
    refine ⟨trivial, ?_⟩
    rintro k' hne ⟨c, hc, hkeeps⟩
    obtain ⟨-, -, hstore⟩ := remove_bare id base m k g (α := α)
    have hfind : (((bare id base).remove m k s g).ground.store base).find? k' = some c := by
      rw [hstore, Table.find?_erase, if_neg hne]
      exact hc
    exact .inl ⟨c, hfind, hkeeps⟩

section Layers

variable {d : Cache κ α σ} {I : σ → Ground κ α → Prop} {C : Moment → σ → Prop}

theorem Recency.keeping (h : d.Keeping I C) (hI : d.Sustains I) (hd : d.Reaching) :
    (Recency.onto d).Keeping (fun s g => s.1.HasRoom ∧ I s.2 g) fun m s => C m s.2 where
  put m k c s g hs hc hok := by
    simp only [onto] at hok ⊢
    have hput := h.put m k c s.2 g hs.2 hc
    have hjournal := (hd.put m k c s.2 g).journal
    cases ha : (d.put m k c s.2 g).answer with
    | error e => simp [ha] at hok
    | ok _ =>
      obtain ⟨hcalm, hput⟩ := hput ha
      rcases he : (s.1.touch k).evictEldest with ⟨index, _ | eldest⟩
      · exact ⟨hcalm, hput⟩
      · have hne : k ≠ eldest := hs.1.ne_eldest (by rw [he])
        have hstored := hI.note (hI.put m k c s.2 g hs.2) (.evicting .lru d.id eldest)
        have hremove := h.remove m eldest _ _ hstored hcalm
        have hlater := (List.suffix_cons _ _).trans (hd.remove m eldest (d.put m k c s.2 g).state
          ((d.put m k c s.2 g).ground.note (.evicting .lru d.id eldest))).journal
        refine ⟨hremove.1, ?_⟩
        rcases hput with hsecure | hreclaims
        · exact (hremove.2 k hne hsecure).imp id fun hcollects => hcollects.reclaims hjournal
        · exact .inr (hreclaims.later hlater)
  remove m k s g hs hcalm := h.remove m k s.2 g hs.2 hcalm

theorem WriteQueue.keeping (h : d.Keeping I C) (hI : d.Sustains I) (hd : d.Reaching) :
    (WriteQueue.onto d).Keeping (fun s g => I s.2 g) fun m s => C m s.2 where
  put m k c s g hs hc hok := by
    simp only [onto] at hok ⊢
    rcases he : s.1.cycle k with ⟨queue, _ | oldest⟩
    · simp only [he] at hok ⊢
      exact h.put m k c s.2 g hs hc hok
    · simp only [he] at hok ⊢
      have hremoved := hI.remove m oldest s.2 _ (hI.note hs (.evicting .fifo d.id oldest))
      obtain ⟨hcalm, hput⟩ := h.put m k c _ _ hremoved hc hok
      have hearlier := (List.suffix_cons _ _).trans
        (hd.remove m oldest s.2 (g.note (.evicting .fifo d.id oldest))).journal
      exact ⟨hcalm, hput.imp id fun hreclaims => hreclaims.earlier hearlier⟩
  remove m k s g hs hcalm := h.remove m k s.2 g hs hcalm

theorem Window.keeping (h : d.Keeping I C) (hI : d.Sustains I) (hd : d.Reaching) :
    (Window.onto d).Keeping (fun s g => I s.2 g) fun m s => s.1.due m = false ∧ C m s.2 where
  put m k c s g hs hc hok := by
    simp only [onto] at hok ⊢
    rcases settle_cases d m s g with ⟨hdue, heq⟩ | ⟨hdue, heq⟩
    · rw [heq] at hok ⊢
      obtain ⟨hcalm, hput⟩ := h.put m k c s.2 g hs hc hok
      exact ⟨⟨hdue, hcalm⟩, hput⟩
    · rw [heq] at hok ⊢
      have hcleared := hI.clear m s.2 _ (hI.note hs (.flushing d.id))
      obtain ⟨hcalm, hput⟩ := h.put m k c _ _ hcleared hc hok
      have hearlier := (List.suffix_cons _ _).trans
        (hd.clear m s.2 (g.note (.flushing d.id))).journal
      exact ⟨⟨s.1.due_reset m, hcalm⟩, hput.imp id fun hreclaims => hreclaims.earlier hearlier⟩
  remove m k s g hs hcalm := by
    simp only [onto]
    rcases settle_cases d m s g with ⟨hdue, heq⟩ | ⟨hdue, -⟩
    · rw [heq]
      obtain ⟨hcalm', hremove⟩ := h.remove m k s.2 g hs hcalm.2
      exact ⟨⟨hdue, hcalm'⟩, hremove⟩
    · rw [hcalm.1] at hdue
      cases hdue

theorem HitCount.keeping (h : d.Keeping I C) :
    (HitCount.onto d).Keeping (fun s g => I s.2 g) fun m s => C m s.2 where
  put m k c s g := h.put m k c s.2 g
  remove m k s g := h.remove m k s.2 g

theorem Passing.keeping (h : d.Keeping I C) :
    (Passing.onto d).Keeping (fun s g => I s.2 g) fun m s => C m s.2 where
  put m k c s g := h.put m k c s.2 g
  remove m k s g := h.remove m k s.2 g

theorem Gate.keeping (h : d.Keeping I C) :
    (Gate.onto d).Keeping (fun s g => I s.2 g) fun m s => C m s.2 where
  put m k c s g := h.put m k c s.2 g
  remove m k s g := h.remove m k s.2 g

section Packing

variable [Codec α]

omit [DecidableEq κ] in
theorem Packing.journal_remove (d : Cache κ α σ) (m : Moment) (k : κ) (s : Unit × σ)
    (g : Ground κ α) :
    (d.remove m k s.2 g).ground.journal <:+ ((onto d).remove m k s g).ground.journal := by
  have hunpack (c : Cell α) (g : Ground κ α) : (unpack c g).1.journal = g.journal := by
    unfold unpack
    split
    · rfl
    · split <;> rfl
  simp only [onto]
  split
  · exact List.suffix_rfl
  · next c _ =>
    have hjournal := hunpack c (d.remove m k s.2 g).ground
    split
    · next he =>
      rw [he] at hjournal
      exact hjournal ▸ List.suffix_rfl
    · next he =>
      rw [he] at hjournal
      exact hjournal ▸ List.suffix_cons _ _

theorem Packing.keeping (h : d.Keeping I C) (hI : d.Sustains I) :
    (Packing.onto d).Keeping (fun s g => I s.2 g) fun m s => C m s.2 where
  put m k c s g hs hc hok := by
    simp only [onto] at hok ⊢
    cases hp : pack c.item.content with
    | error e => simp [hp] at hok
    | ok bytes =>
      simp only [hp] at hok ⊢
      exact h.put m k _ s.2 g.issue (hI.issue hs) rfl hok
  remove m k s g hs hcalm := by
    obtain ⟨hcalm, hremove⟩ := h.remove m k s.2 g hs hcalm
    refine ⟨by rwa [state_remove], fun k' hne hsecure => ?_⟩
    refine (hremove k' hne hsecure).imp ?_ fun hcollects => ?_
    · exact fun hkept => hkept.congr (ground_remove d m k s g)
    · exact hcollects.later (journal_remove d m k s g)

end Packing

end Layers

/-! ## Layers that let instances go -/

/-- A limit leaves room for a lease, and the leases that count against it have numbers that were
taken. -/
structure Leasing.IsAble (l : Leasing κ) (g : Ground κ α) : Prop where
  room : ∀ limit, l.retention = .soft limit → 1 ≤ limit
  pins : ∀ p ∈ l.pins, p.2 < g.issued

namespace Leasing

variable (id : String) (base : Nat)

omit [DecidableEq κ] in
/-- What a layer has after it has seen a moment. -/
theorem observe_spec (l : Leasing κ) (m : Moment) :
    let o := l.observe m
    o.1.seen = m.pressure o.1.signal ∧ o.1.signal = l.signal ∧ o.1.pins = l.pins ∧
      (∀ limit, o.1.retention = .soft limit → l.retention = .soft limit) ∧
      o.2.1 = decide (l.seen ≠ m.pressure l.signal) := by
  unfold observe
  cases hr : l.retention with
  | soft limit => simp
  | weak every operations =>
    by_cases hz : every = 0 <;> simp [hz]

theorem attend_spec (m : Moment) (l : Leasing κ) (g : Ground κ α) :
    let a := attend (Cache.bare id base) m l g
    a.1.seen = m.pressure a.1.signal ∧ a.1.signal = l.signal ∧ a.1.pins ⊆ l.pins ∧
      (∀ limit, a.1.retention = .soft limit → l.retention = .soft limit) ∧
      a.2.issued = g.issued := by
  obtain ⟨hseen, hsignal, hpins, hretention, -⟩ := observe_spec l m
  simp only [attend]
  split
  · exact ⟨hseen, hsignal, List.nil_subset _, hretention, rfl⟩
  · exact ⟨hseen, hsignal, hpins ▸ List.Subset.refl _, hretention, rfl⟩

/-- A layer that has seen the signal collects by the number of operations alone. -/
theorem attend_calm (m : Moment) {l : Leasing κ} (h : l.seen = m.pressure l.signal)
    (g : Ground κ α) :
    (attend (Cache.bare id base) m l g).2 = g ∨
      g.Collects id (attend (Cache.bare id base) m l g).2 := by
  obtain ⟨-, -, -, -, hpressured⟩ := observe_spec l m
  rw [h, decide_eq_false (by simp)] at hpressured
  simp only [attend]
  split
  · right
    rw [hpressured]
    exact ⟨[_], _, rfl, List.mem_singleton_self _⟩
  · exact .inl rfl

/-- What a purge leaves of the state, and the serial numbers. -/
theorem purge_spec (m : Moment) (s : Leasing κ × Unit) (g : Ground κ α) :
    let p := purge (Cache.bare id base) m s g
    p.state.1.seen = m.pressure p.state.1.signal ∧ p.state.1.signal = s.1.signal ∧
      p.state.1.pins ⊆ s.1.pins ∧
      (∀ limit, p.state.1.retention = .soft limit → s.1.retention = .soft limit) ∧
      p.ground.issued = g.issued := by
  obtain ⟨hseen, hsignal, hpins, hretention, hissued⟩ := attend_spec id base m s.1 g
  refine ⟨hseen, hsignal, hpins, hretention, Eq.trans ?_ hissued⟩
  have hnote (keys : List κ) (g : Ground κ α) : (notePurged id keys g).issued = g.issued := by
    unfold notePurged
    split <;> rfl
  exact (hnote _ _).trans (Cache.removeAll_bare id base m _ _).1.issued

omit [DecidableEq κ] in
theorem journal_notePurged (keys : List κ) (g : Ground κ α) :
    g.journal <:+ (notePurged id keys g).journal := by
  unfold notePurged
  split
  · exact List.suffix_rfl
  · exact List.suffix_cons _ _

/-- A sweep does not take keys whose cell keeps its instance. -/
theorem not_mem_sweep {m : Moment} {l : Leasing κ} {g : Ground κ α}
    (hdistinct : (g.store base).Distinct) {k : κ} (hsecure : g.Secure base k) :
    k ∉ (l.sweep base m g).1 := by
  obtain ⟨c, hc, hkeeps⟩ := hsecure
  simp only [sweep, List.partition_eq_filter_filter, List.mem_map, not_exists, not_and]
  rintro ⟨k', c'⟩ he rfl
  obtain ⟨hmem, habandons⟩ := List.mem_filter.mp he
  have hc' : (g.store base).find? k' = some c' := hdistinct.mem_entries.mp hmem
  rw [hc] at hc'
  cases hc'
  simp [abandons, hkeeps] at habandons

/-- What is secure survives a purge, or a collection comes. -/
theorem purge_calm {m : Moment} {s : Leasing κ × Unit} (h : s.1.seen = m.pressure s.1.signal)
    {g : Ground κ α} (hdistinct : (g.store base).Distinct) {k : κ} (hsecure : g.Secure base k) :
    (purge (Cache.bare id base) m s g).ground.Secure base k ∨
      g.Collects id (purge (Cache.bare id base) m s g).ground := by
  have hattended := attend_calm id base m h g
  simp only [purge, Cache.base_bare]
  generalize attend (Cache.bare id base) m s.1 g = a at hattended
  rcases hattended with hsame | hcollects
  · left
    have hnot : k ∉ (a.1.sweep base m a.2).1 := not_mem_sweep base (by rwa [hsame]) (by rwa [hsame])
    obtain ⟨c, hc, hkeeps⟩ := hsecure
    refine ⟨c, ?_, hkeeps⟩
    rw [store_notePurged, (Cache.removeAll_bare id base m _ a.2).2,
      Table.find?_filter_fst fun k => decide (k ∉ (a.1.sweep base m a.2).1), if_pos (by simpa),
      hsame]
    exact hc
  · exact .inr (hcollects.later (((Cache.Reaching.bare id base).removeAll m _ _ _).journal.trans
      (journal_notePurged _ _ _)))

/-- The lease of a write is not among those that its limit has unpinned. -/
theorem secure_track {l : Leasing κ} (hroom : ∀ limit, l.retention = .soft limit → 1 ≤ limit)
    {serial : Nat} (hpins : ∀ p ∈ l.pins, p.2 < serial) {k : κ} {c : Cell α} {g : Ground κ α}
    (hc : (g.store base).find? k = some c) (hlease : c.lease = some ⟨serial, true⟩) :
    (track base l k serial g).2.Secure base k := by
  unfold track
  split
  · exact ⟨c, hc, by simp [Cell.keeps, hlease]⟩
  · next limit hretention =>
    have hle := hroom limit hretention
    have hnot : (k, serial) ∉ (l.pins ++ [(k, serial)]).take
        ((l.pins ++ [(k, serial)]).length - limit) := by
      rw [List.take_append_of_le_length (by simp; omega)]
      exact fun hmem => Nat.lt_irrefl _ (hpins _ (List.mem_of_mem_take hmem))
    obtain ⟨-, -, hfind⟩ := foldl_unpin_spec base
      ((l.pins ++ [(k, serial)]).take ((l.pins ++ [(k, serial)]).length - limit)) g
    refine ⟨_, (hfind k).trans (by rw [hc, Option.map_some]), ?_⟩
    rw [Cell.keeps, lease_unpinned hlease, decide_eq_false hnot]
    rfl

omit [DecidableEq κ] in
theorem seen_track [DecidableEq κ] (l : Leasing κ) (k : κ) (serial : Nat) (g : Ground κ α) :
    (track base l k serial g).1.seen = l.seen ∧ (track base l k serial g).1.signal = l.signal := by
  unfold track
  split <;> exact ⟨rfl, rfl⟩

/-- A write leaves its lease pinned. A removal takes other keys only in a collection that is due by
the number of operations. -/
theorem keeping : (onto (Cache.bare id base : Cache κ α Unit)).Keeping
    (fun s g => s.1.IsAble g ∧ (g.store base).Distinct)
    fun m s => s.1.seen = m.pressure s.1.signal where
  put m k c s g hs _ _ := by
    obtain ⟨hseen, hsignal, hpins, hretention, hissued⟩ := purge_spec id base m s g
    simp only [onto]
    generalize purge (Cache.bare id base) m s g = p at hseen hsignal hpins hretention hissued
    simp only [Cache.bare]
    obtain ⟨hseen', hsignal'⟩ := seen_track base (p.state.1.register k p.ground.issued) k
      p.ground.issued (p.ground.issue.setStore base ((p.ground.issue.store base).insert k
        { c with lease := some ⟨p.ground.issued, true⟩ }))
    refine ⟨by rw [hseen', hsignal']; exact hseen, .inl ?_⟩
    refine secure_track base ?_ ?_ (c := { c with lease := some ⟨p.ground.issued, true⟩ }) ?_ rfl
    · exact fun limit hlimit => hs.1.room limit (hretention limit hlimit)
    · exact fun q hq => hissued ▸ hs.1.pins q (hpins hq)
    · rw [Ground.store_setStore_self, Table.find?_insert, if_pos rfl]
  remove m k s g hs hcalm := by
    obtain ⟨hseen, -⟩ := purge_spec id base m s g
    have hsurvives {k' : κ} (hsecure : g.Secure base k') := purge_calm id base hcalm hs.2 hsecure
    simp only [onto]
    generalize purge (Cache.bare id base) m s g = p at hseen hsurvives
    obtain ⟨-, -, hstore⟩ := Cache.remove_bare id base m k p.ground (α := α)
    have hjournal := ((Cache.Reaching.bare id base).remove m k p.state.2 p.ground).journal
    have hremoved (k' : κ) (hne : k' ≠ k) (hsecure : g.Secure base k') :
        ((Cache.bare id base).remove m k p.state.2 p.ground).ground.Secure base k' ∨
          g.Collects id ((Cache.bare id base).remove m k p.state.2 p.ground).ground := by
      refine (hsurvives hsecure).imp ?_ fun hcollects => hcollects.later hjournal
      rintro ⟨c, hc, hkeeps⟩
      exact ⟨c, by rw [hstore, Table.find?_erase, if_neg hne, hc], hkeeps⟩
    split
    · exact ⟨hseen, hremoved⟩
    · split <;> exact ⟨hseen, hremoved⟩

omit [DecidableEq κ] in
theorem IsAble.of_subset {l l' : Leasing κ} {g g' : Ground κ α} (h : l.IsAble g)
    (hpins : l'.pins ⊆ l.pins)
    (hretention : ∀ limit, l'.retention = .soft limit → l.retention = .soft limit)
    (hissued : g.issued ≤ g'.issued) : l'.IsAble g' :=
  ⟨fun limit hlimit => h.room limit (hretention limit hlimit),
    fun p hp => Nat.lt_of_lt_of_le (h.pins p (hpins hp)) hissued⟩

theorem IsAble.track {l : Leasing κ} {g g' : Ground κ α} (h : l.IsAble g) (k : κ)
    (hissued : g'.issued = g.issued + 1) :
    (track base l k g.issued g').1.IsAble (track base l k g.issued g').2 := by
  unfold Leasing.track
  split
  · exact h.of_subset (List.Subset.refl _) (fun _ hlimit => hlimit)
      (hissued ▸ Nat.le_succ g.issued)
  · next limit _ =>
    obtain ⟨hbeside, -⟩ := foldl_unpin_spec base ((l.pins ++ [(k, g.issued)]).take
      ((l.pins ++ [(k, g.issued)]).length - limit)) g'
    refine ⟨h.room, fun p hp => ?_⟩
    rw [hbeside.issued, hissued]
    rcases List.mem_append.mp (List.mem_of_mem_drop hp) with hp | hp
    · exact Nat.lt_succ_of_lt (h.pins p hp)
    · rw [List.mem_singleton.mp hp]
      exact Nat.lt_succ_self _

/-- What is done with a finished lookup does not change the leases that count. -/
theorem pins_settle (d : Cache κ α σ) (m : Moment) (k : κ) (l : Leasing κ)
    (r : Reply κ α σ (Lookup κ α)) :
    (settle d m k l r).state.1.pins = l.pins ∧
      (settle d m k l r).state.1.retention = l.retention := by
  unfold settle
  split
  · split
    · exact ⟨rfl, rfl⟩
    · split <;> exact ⟨rfl, rfl⟩
  · exact ⟨rfl, rfl⟩

theorem sustains_isAble : (onto (Cache.bare id base : Cache κ α Unit)).Sustains
    fun s g => s.1.IsAble g := by
  have hreach : (onto (Cache.bare id base : Cache κ α Unit)).Reaching :=
    Cache.Reaching.leasing (Cache.Reaching.bare id base)
  constructor
  case elsewhere =>
    exact fun s g g' _ hissued h => h.of_subset (List.Subset.refl _) (fun _ h => h) hissued
  case put =>
    intro m k c s g h
    obtain ⟨-, -, hpins, hretention, hissued⟩ := purge_spec id base m s g
    simp only [onto]
    generalize purge (Cache.bare id base) m s g = p at hpins hretention hissued
    have hable : (p.state.1.register k p.ground.issued).IsAble p.ground :=
      h.of_subset hpins hretention (Nat.le_of_eq hissued.symm)
    exact hable.track base k rfl
  case get =>
    intro m k s g h
    obtain ⟨-, -, hpins, hretention, -⟩ := purge_spec id base m s g
    have hissued := (hreach.get m k s g).issued
    simp only [onto] at hissued ⊢
    generalize purge (Cache.bare id base) m s g = p at hpins hretention hissued ⊢
    obtain ⟨hsame, hsame'⟩ := pins_settle (Cache.bare id base) m k p.state.1
      ((Cache.bare id base).get m k p.state.2 p.ground)
    refine h.of_subset ?_ (fun limit hlimit => hretention limit ?_) hissued
    · rw [hsame]
      exact hpins
    · rw [← hsame', hlimit]
  case resume =>
    intro m k gate w s g h
    obtain ⟨hsame, hsame'⟩ := pins_settle (Cache.bare id base) m k s.1
      ((Cache.bare id base).resume m k gate w s.2 g)
    refine h.of_subset ?_ (fun limit hlimit => ?_) (hreach.resume m k gate w s g).issued
    · exact fun p hp => hsame ▸ hp
    · exact hsame'.symm.trans hlimit
  case remove =>
    intro m k s g h
    obtain ⟨-, -, hpins, hretention, -⟩ := purge_spec id base m s g
    have hstate : ((onto (Cache.bare id base)).remove m k s g).state.1 =
        (purge (Cache.bare id base) m s g).state.1.forget k := by
      simp only [onto]
      split
      · rfl
      · split <;> rfl
    rw [hstate]
    exact h.of_subset hpins hretention (hreach.remove m k s g).issued
  case clear =>
    exact fun m s g h => h.of_subset (List.nil_subset _) (fun _ h => h) (hreach.clear m s g).issued
  case size =>
    intro m s g h
    obtain ⟨-, -, hpins, hretention, -⟩ := purge_spec id base m s g
    exact h.of_subset hpins hretention (hreach.size m s g).issued
  case release =>
    exact fun m k s g h =>
      h.of_subset (List.Subset.refl _) (fun _ h => h) (hreach.release m k s g).issued

end Leasing

/-- A layer whose room a write counts on. -/
def Kind.Able (g : Ground κ α) : (kind : Kind) → kind.State κ → Prop
  | .lru, r => Recency.HasRoom r
  | .leasing, l => Leasing.IsAble l g
  | _, _ => True

/-- A layer that a write has passed at a moment: a window has not run out, and a reclaiming layer
has seen its signal. -/
def Kind.Calm (m : Moment) : (kind : Kind) → kind.State κ → Prop
  | .window, w => w.due m = false
  | .leasing, l => l.seen = m.pressure l.signal
  | _, _ => True

theorem Cache.Keeping.congr {d : Cache κ α σ} {I I' : σ → Ground κ α → Prop}
    {C C' : Moment → σ → Prop} (h : d.Keeping I C) (hI : ∀ s g, I' s g → I s g)
    (hC : ∀ m s, C' m s ↔ C m s) : d.Keeping I' C' where
  put m k c s g hs hc hok := by
    obtain ⟨hcalm, hput⟩ := h.put m k c s g (hI s g hs) hc hok
    exact ⟨(hC m _).mpr hcalm, hput⟩
  remove m k s g hs hcalm := by
    obtain ⟨hcalm, hremove⟩ := h.remove m k s g (hI s g hs) ((hC m s).mp hcalm)
    exact ⟨(hC m _).mpr hcalm, hremove⟩

section Stacks

variable [Codec α] (id : String) (base : Nat) (kinds : List Kind)

/-- Room for writes is a law of stacks. -/
theorem Stack.sustains_able (h : .leasing ∉ kinds.dropLast) :
    (Stack.cache id base kinds : Cache κ α _).Sustains fun s g =>
      All (Kind.Able g) kinds s ∧ (g.store base).Distinct := by
  refine Cache.Sustains.and ?_ (upholds_distinct id base kinds).sustains
  induction kinds with
  | nil => exact (Cache.upholds_bare id base).sustains
  | cons kind kinds ih =>
    rcases Kind.leasing_cons h with ⟨rfl, rfl⟩ | ⟨hkind, hbelow⟩
    · have hcache : (Stack.cache id base [.leasing] : Cache κ α (Leasing κ × Unit)) =
          Leasing.onto (Cache.bare id base) := congrArg Leasing.onto rfl
      exact (hcache.symm ▸ Leasing.sustains_isAble id base).congr fun _ _ => and_iff_left trivial
    · have hbelow := (Kind.rests (Stack.cache id base kinds) hkind).sustains (base_onto kind _)
        (ih hbelow)
      cases kind
      case lru => exact ((Recency.upholds_hasRoom _).sustains).and hbelow
      case leasing => exact absurd rfl hkind
      all_goals exact hbelow.congr fun _ _ => and_iff_right trivial

/-- In a stack a write that succeeds keeps its entry, unless a collection by the number of
operations has come after an eviction by recency. -/
theorem Stack.keeping (h : .leasing ∉ kinds.dropLast) :
    (Stack.cache id base kinds : Cache κ α _).Keeping
      (fun s g => All (Kind.Able g) kinds s ∧ (g.store base).Distinct)
      fun m => All (Kind.Calm m) kinds := by
  induction kinds with
  | nil => exact (Cache.keeping_bare id base).congr (fun _ _ _ => trivial) fun _ _ => Iff.rfl
  | cons kind kinds ih =>
    rcases Kind.leasing_cons h with ⟨rfl, rfl⟩ | ⟨hkind, hbelow⟩
    · have hcache : (Stack.cache id base [.leasing] : Cache κ α (Leasing κ × Unit)) =
          Leasing.onto (Cache.bare id base) := congrArg Leasing.onto rfl
      exact (hcache.symm ▸ Leasing.keeping id base).congr (fun _ _ hs => ⟨hs.1.1, hs.2⟩)
        fun _ _ => and_iff_left trivial
    · have hsustains := sustains_able (κ := κ) (α := α) id base kinds hbelow
      have hreaching := Stack.reaching (κ := κ) (α := α) id base kinds
      have ih := ih hbelow
      cases kind
      case lru =>
        exact (Recency.keeping ih hsustains hreaching).congr (fun _ _ hs => ⟨hs.1.1, hs.1.2, hs.2⟩)
          fun _ _ => and_iff_right trivial
      case fifo =>
        exact (WriteQueue.keeping ih hsustains hreaching).congr (fun _ _ hs => ⟨hs.1.2, hs.2⟩)
          fun _ _ => and_iff_right trivial
      case leasing => exact absurd rfl hkind
      case window =>
        exact (Window.keeping ih hsustains hreaching).congr (fun _ _ hs => ⟨hs.1.2, hs.2⟩)
          fun _ _ => Iff.rfl
      case packing =>
        exact (Packing.keeping ih hsustains).congr (fun _ _ hs => ⟨hs.1.2, hs.2⟩)
          fun _ _ => and_iff_right trivial
      case counting =>
        exact (HitCount.keeping ih).congr (fun _ _ hs => ⟨hs.1.2, hs.2⟩)
          fun _ _ => and_iff_right trivial
      case passing =>
        exact (Passing.keeping ih).congr (fun _ _ hs => ⟨hs.1.2, hs.2⟩)
          fun _ _ => and_iff_right trivial
      case latching =>
        exact (Gate.keeping ih).congr (fun _ _ hs => ⟨hs.1.2, hs.2⟩)
          fun _ _ => and_iff_right trivial

end Stacks

end LayeredCache
