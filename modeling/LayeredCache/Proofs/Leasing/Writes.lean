import LayeredCache.Proofs.Leasing.Account

/-!
# Writes to a reclaiming layer

A write stores a cell under a new lease and queues the lease. A soft layer then unpins the leases at
the front of its queue, as many as are above its limit, and these are the leases of the entries that
as many writes have followed. So the account of the history stays true.

## Main statements

* `Leasing.Describes.queued` — a write keeps the account true if the right leases are unpinned.
* `Leasing.Describes.store` — the right leases are unpinned.
-/

namespace LayeredCache.Leasing

variable {κ α : Type} [DecidableEq κ]

/-- The account after a write. -/
def Account.put (k : κ) (item : Item α) (a : Account κ α) : Account κ α :=
  { a with entries := fun k' =>
      if k' = k then some { item := item } else (a.entries k').map Entry.follow }

variable {base bound : Nat} {r : Retention} {a : Account κ α} {w w' : World κ α}

/-! ## Entries that are followed by a write -/

section Entries

omit [DecidableEq κ]

@[simp] theorem Entry.item_follow (e : Entry α) : e.follow.item = e.item := rfl

theorem Entry.isPinned_soft {e : Entry α} {limit : Nat} :
    e.isPinned (.soft limit) = true ↔ e.collected = false ∧ e.followed < limit := by
  simp [isPinned]

theorem Entry.isPinned_of_follow {e : Entry α} (h : e.follow.isPinned r = true) :
    e.isPinned r = true := by
  cases r with
  | soft limit =>
    obtain ⟨hcollected, hlt⟩ := isPinned_soft.mp h
    exact isPinned_soft.mpr ⟨hcollected, Nat.lt_of_succ_lt hlt⟩
  | weak every first => exact h

theorem Entry.isPinned_follow_eq_false {e : Entry α} (h : e.isPinned r = false) :
    e.follow.isPinned r = false := by
  rw [Bool.eq_false_iff] at h ⊢
  exact mt isPinned_of_follow h

end Entries

/-! ## Cells that are stored under a new lease -/

/-- The leases that are pinned when a write is queued, with the entries that they then stand for. -/
inductive Awaits (base : Nat) (a : Account κ α) (w : World κ α) (k : κ) (item : Item α) :
    κ → Nat → Entry α → Prop where
  | new : Awaits base a w k item k w.ground.issued { item := item }
  | old {k' : κ} {c : Cell α} {n : Nat} {e : Entry α} : k' ≠ k → w.cell? base k' = some c →
    c.lease = some ⟨n, true⟩ → a.entries k' = some e → Awaits base a w k item k' n e.follow

/-- The ground after a cell was stored under a new lease. -/
def World.stored (base : Nat) (w : World κ α) (k : κ) (item : Item α) : Ground κ α :=
  w.ground.issue.setStore base
    ((w.ground.store base).insert k { item := item, lease := some ⟨w.ground.issued, true⟩ })

/-- The world after a cell was stored, the leases `taken` unpinned, and `pins` left in the queue. -/
def World.queued (base : Nat) (w : World κ α) (k : κ) (item : Item α)
    (taken pins : List (κ × Nat)) : World κ α :=
  { w with
    state := ({ w.state.1.register k w.ground.issued with pins := pins }, ())
    ground := taken.foldl (fun g p => unpin base g p.1 p.2) (w.stored base k item) }

section Queued

variable {k : κ} {item : Item α} {taken pins : List (κ × Nat)}

theorem World.beside_queued :
    (w.queued base k item taken pins).ground.Beside base w.ground.issue :=
  (foldl_unpin_spec base taken _).1.trans (Ground.beside_setStore base w.ground.issue _)

theorem World.cell?_queued (k' : κ) : (w.queued base k item taken pins).cell? base k' =
    (if k' = k then some { item := item, lease := some ⟨w.ground.issued, true⟩ }
      else w.cell? base k').map fun c =>
        if ∃ p ∈ taken, p.1 = k' ∧ c.isUnder p.2 = true then c.unpin else c := by
  have hstored : (w.stored base k item).store base = (w.ground.store base).insert k
      { item := item, lease := some ⟨w.ground.issued, true⟩ } := Ground.store_setStore_self ..
  rw [cell?, queued, (foldl_unpin_spec base taken _).2.2, hstored, Table.find?_insert]
  rfl

theorem Describes.distinct_queued (H : Describes base bound r a w) :
    ((w.queued base k item taken pins).ground.store base).Distinct := by
  refine (foldl_unpin_spec base taken (w.stored base k item)).2.1 ?_
  rw [World.stored, Ground.store_setStore_self]
  exact H.distinct.insert _ _

variable (H : Describes base bound r a w) (hfair : w.moment.held item.serial = true)
  (htaken : ∀ k' n e, Awaits base a w k item k' n e → ((k', n) ∈ taken ↔ e.isPinned r = false))
include H htaken

/-- Every cell stands for its entry, and an entry that is still pinned for a lease that awaits. -/
theorem Describes.cell_queued {k' : κ} {c' : Cell α}
    (hc' : (w.queued base k item taken pins).cell? base k' = some c') : ∃ n e,
      c'.lease = some ⟨n, e.isPinned r⟩ ∧
      (w.state.1.register k w.ground.issued).registry.find? k' = some n ∧
      (a.put k item).entries k' = some e ∧ e.item = c'.item ∧
      (e.isPinned r = true → Awaits base a w k item k' n e) := by
  have hpinned : ∀ n e, Awaits base a w k item k' n e →
      (true && !decide ((k', n) ∈ taken)) = e.isPinned r := by
    intro n e hawaits
    have h := htaken k' n e hawaits
    cases he : e.isPinned r with
    | true => simpa [he] using h
    | false => simpa [he] using h
  simp only [register]
  rw [World.cell?_queued] at hc'
  by_cases hk : k' = k
  · subst hk
    rw [if_pos rfl, Option.map_some] at hc'
    cases hc'
    refine ⟨w.ground.issued, { item := item }, ?_, ?_, ?_, ?_, fun _ => Awaits.new⟩
    · rw [lease_unpinned rfl, hpinned _ _ Awaits.new]
    · rw [Table.find?_insert, if_pos rfl]
    · simp [Account.put]
    · split <;> rfl
  · rw [if_neg hk] at hc'
    obtain ⟨c, hc, rfl⟩ := Option.map_eq_some_iff.mp hc'
    obtain ⟨n, e, hlease, hregistered, he, hitem⟩ := H.cell k' c hc
    have hawaits : e.isPinned r = true → Awaits base a w k item k' n e.follow := by
      intro hpinned
      rw [hpinned] at hlease
      exact Awaits.old hk hc hlease he
    refine ⟨n, e.follow, ?_, ?_, ?_, ?_, fun h => hawaits (Entry.isPinned_of_follow h)⟩
    · rw [lease_unpinned hlease]
      cases hp : e.isPinned r with
      | false => rw [Entry.isPinned_follow_eq_false hp, Bool.false_and]
      | true => rw [hpinned _ _ (hawaits hp)]
    · rw [Table.find?_insert, if_neg hk, hregistered]
    · simp [Account.put, hk, he]
    · rw [Entry.item_follow, hitem]
      split <;> rfl

include hfair

theorem Describes.alive_of_queued {n : Nat}
    (hn : (w.queued base k item taken pins).isAlive n = true) : w.isAlive n = true := by
  have hbeside : (w.queued base k item taken pins).ground.Beside base w.ground.issue :=
    World.beside_queued
  refine World.isAlive_mono base w (w.queued base k item taken pins) (hbeside.tidy H.tidy)
    H.distinct_queued H.alive_of_links (fun n' hn' => H.alive_of_outside n' ?_)
    ?_ hn
  · exact hn'.imp_right fun h => (hbeside.keptElsewhere n') ▸ h
  · intro k' c' hc' hkeeps
    obtain ⟨n', e, hlease, -, -, hitem, hawaits⟩ := H.cell_queued htaken hc'
    rw [keeps_of_lease hlease] at hkeeps
    rw [← hitem]
    cases hawaits hkeeps with
    | new => exact H.alive_of_outside _ (.inl hfair)
    | old hk hc hlease' he =>
      obtain ⟨-, -, -, hitem'⟩ := H.cell_of_entry hc he
      rw [Entry.item_follow, hitem']
      exact H.alive_of_cell _ _ hc (keeps_of_lease hlease')

/-- A write keeps the account true, whichever way the leases above the limit are found. -/
theorem Describes.queued
    (hpins : ∀ p ∈ pins, p ∈ w.state.1.pins ∨ p = (k, w.ground.issued)) (hnodup : pins.Nodup)
    (hkept : ∀ limit, r = .soft limit → ∀ k' n e, Awaits base a w k item k' n e →
      e.isPinned r = true → ∃ before behind, pins = before ++ (k', n) :: behind ∧
        behind.length = e.followed) :
    Describes base bound r (a.put k item) (w.queued base k item taken pins) := by
  have hbeside : (w.queued base k item taken pins).ground.Beside base w.ground.issue :=
    World.beside_queued
  have hissued : (w.queued base k item taken pins).ground.issued = w.ground.issued + 1 :=
    hbeside.issued
  have hentry : ∀ k' e, (a.put k item).entries k' = some e →
      k' = k ∧ e = { item := item } ∨ k' ≠ k ∧ ∃ e', a.entries k' = some e' ∧ e = e'.follow := by
    intro k' e he
    simp only [Account.put] at he
    by_cases hk : k' = k
    · rw [if_pos hk] at he
      cases he
      exact .inl ⟨hk, rfl⟩
    · rw [if_neg hk] at he
      obtain ⟨e', he', rfl⟩ := Option.map_eq_some_iff.mp he
      exact .inr ⟨hk, e', he', rfl⟩
  exact { H with
    tidy := hbeside.tidy H.tidy
    distinct := H.distinct_queued
    registry_distinct := H.registry_distinct.insert _ _
    cell := by
      intro k' c' hc'
      obtain ⟨n, e, hlease, hregistered, he, hitem, -⟩ := H.cell_queued htaken hc'
      exact ⟨n, e, hlease, hregistered, he, hitem⟩
    registered := by
      intro k' n hn
      rw [hissued]
      simp only [World.queued, register, Table.find?_insert] at hn
      by_cases hk : k' = k
      · rw [if_pos hk] at hn
        cases hn
        omega
      · rw [if_neg hk] at hn
        have hlt := H.registered k' n hn
        omega
    pins := by
      intro p hp
      rw [hissued]
      rcases hpins p hp with hp | rfl
      · have hlt := H.pins p hp
        omega
      · exact Nat.lt_succ_self _
    pins_nodup := hnodup
    followed := by
      intro limit hlimit k' c' n e hc' hlease he
      obtain ⟨n', e', hlease', -, he', -, hawaits⟩ := H.cell_queued htaken hc'
      rw [he] at he'
      cases he'
      rw [hlease] at hlease'
      injection hlease' with hlease'
      injection hlease' with hn hpinned
      subst hn
      exact hkept limit hlimit k' n e (hawaits hpinned.symm) hpinned.symm
    gone := by
      intro k' e he hc'
      rw [World.cell?_queued, Option.map_eq_none_iff] at hc'
      rcases hentry k' e he with ⟨hk, -⟩ | ⟨hk, e', he', rfl⟩
      · rw [if_pos hk] at hc'
        cases hc'
      · rw [if_neg hk] at hc'
        obtain ⟨hdead, hunpinned⟩ := H.gone k' e' he' hc'
        exact ⟨World.dead_of_mono (H.alive_of_queued hfair htaken) hdead,
          Entry.isPinned_follow_eq_false hunpinned⟩
    known := by
      intro n hn
      rw [hissued]
      have hlt := H.known n (H.alive_of_queued hfair htaken hn)
      omega
    written := by
      intro k' e he
      rw [hissued]
      rcases hentry k' e he with ⟨-, rfl⟩ | ⟨-, e', he', rfl⟩
      · exact Nat.lt_succ_of_lt (H.known _ (H.alive_of_outside _ (.inl hfair)))
      · exact Nat.lt_succ_of_lt (H.written k' e' he') }

end Queued

/-! ## Which leases are unpinned -/

/-- The world after a cell was stored and its lease queued. -/
def World.store (base : Nat) (w : World κ α) (k : κ) (item : Item α) : World κ α :=
  let t := track base (w.state.1.register k w.ground.issued) k w.ground.issued
    (w.stored base k item)
  { w with state := (t.1, ()), ground := t.2 }

theorem World.store_eq_of_weak {k : κ} {item : Item α} {every n : Nat}
    (h : w.state.1.retention = .weak every n) :
    w.store base k item = w.queued base k item [] w.state.1.pins := by
  have hretention : (w.state.1.register k w.ground.issued).retention = .weak every n := h
  rw [store, track]
  split
  · rfl
  · next heq =>
    rw [hretention] at heq
    cases heq

theorem World.store_eq_of_soft {k : κ} {item : Item α} {limit : Nat}
    (h : w.state.1.retention = .soft limit) :
    w.store base k item =
      let queue := w.state.1.pins ++ [(k, w.ground.issued)]
      w.queued base k item (queue.take (queue.length - limit))
        (queue.drop (queue.length - limit)) := by
  have hretention : (w.state.1.register k w.ground.issued).retention = .soft limit := h
  rw [store, track]
  split
  · next heq =>
    rw [hretention] at heq
    cases heq
  · next heq =>
    rw [hretention] at heq
    cases heq
    rfl

/-- The entry of a lease that awaits was not collected. -/
theorem Describes.not_collected_of_awaits (H : Describes base bound r a w) {k k' : κ}
    {item : Item α} {n : Nat} {e : Entry α} (hawaits : Awaits base a w k item k' n e) :
    e.collected = false := by
  cases hawaits with
  | new => rfl
  | @old k' c n e _ hc hlease he =>
    obtain ⟨n', hlease', -, -⟩ := H.cell_of_entry hc he
    rw [hlease] at hlease'
    injection hlease' with hlease'
    injection hlease' with _ hpinned
    have h := hpinned.symm
    simp only [Entry.isPinned, Bool.and_eq_true, Bool.not_eq_true'] at h
    exact h.1

/-- Behind a lease that awaits stand those of the writes that have followed its entry. -/
theorem Describes.split_of_awaits {limit : Nat} (H : Describes base bound (.soft limit) a w)
    {k k' : κ} {item : Item α} {n : Nat} {e : Entry α} (hawaits : Awaits base a w k item k' n e) :
    ∃ before behind, w.state.1.pins ++ [(k, w.ground.issued)] = before ++ (k', n) :: behind ∧
      behind.length = e.followed := by
  cases hawaits with
  | new => exact ⟨w.state.1.pins, [], rfl, rfl⟩
  | old _ hc hlease he =>
    obtain ⟨before, behind, hsplit, hlength⟩ := H.followed limit rfl _ _ _ _ hc hlease he
    refine ⟨before, behind ++ [(k, w.ground.issued)], ?_, ?_⟩
    · rw [hsplit, List.append_assoc]
      rfl
    · rw [List.length_append, hlength]
      rfl

/-- No lease is queued twice: that of a write is a new one. -/
theorem Describes.nodup_queue (H : Describes base bound r a w) (k : κ) :
    (w.state.1.pins ++ [(k, w.ground.issued)]).Nodup := by
  rw [List.nodup_append]
  refine ⟨H.pins_nodup, List.nodup_singleton _, ?_⟩
  rintro p hp q hq rfl
  rw [List.mem_singleton] at hq
  have hlt := H.pins p hp
  rw [hq] at hlt
  exact Nat.lt_irrefl _ hlt

theorem Describes.store (H : Describes base bound r a w) (k : κ) (item : Item α)
    (hfair : w.moment.held item.serial = true) :
    Describes base bound r (a.put k item) (w.store base k item) := by
  have hretention := H.retention
  cases r with
  | weak every first =>
    rw [World.store_eq_of_weak hretention]
    refine H.queued hfair ?_ (fun p hp => .inl hp) H.pins_nodup ?_
    · intro k' n e hawaits
      have hpinned : e.isPinned (.weak every first) = true := by
        simp [Entry.isPinned, H.not_collected_of_awaits hawaits]
      simp [hpinned]
    · intro limit hlimit
      cases hlimit
  | soft limit =>
    rw [World.store_eq_of_soft hretention]
    have hnodup := H.nodup_queue k
    have hpinned : ∀ {k' n e}, Awaits base a w k item k' n e →
        (e.isPinned (.soft limit) = true ↔ e.followed < limit) := by
      intro k' n e hawaits
      rw [Entry.isPinned_soft, and_iff_right (H.not_collected_of_awaits hawaits)]
    refine H.queued hfair ?_ ?_ ?_ ?_
    · intro k' n e hawaits
      obtain ⟨before, behind, hsplit, hlength⟩ := H.split_of_awaits hawaits
      rw [mem_take_iff hnodup hsplit, hlength, Bool.eq_false_iff, ne_eq, hpinned hawaits,
        Nat.not_lt]
    · intro p hp
      have hmem := List.mem_of_mem_drop hp
      rwa [List.mem_append, List.mem_singleton] at hmem
    · exact (List.drop_sublist _ _).nodup hnodup
    · intro limit' hlimit k' n e hawaits hp
      cases hlimit
      obtain ⟨before, behind, hsplit, hlength⟩ := H.split_of_awaits hawaits
      have hlt : behind.length < limit := by
        rw [hlength]
        exact (hpinned hawaits).mp hp
      obtain ⟨before', hdrop⟩ := drop_eq_of_lt hsplit hlt
      exact ⟨before', behind, hdrop, hlength⟩

end LayeredCache.Leasing
