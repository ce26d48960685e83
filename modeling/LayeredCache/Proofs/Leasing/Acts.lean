import LayeredCache.Proofs.Leasing.Account

/-!
# What else is done to a reclaiming layer

Lookups remember what they have found, removals and clears take cells away, the signal is raised,
and things happen outside the layer. None of this brings back an instance that nobody holds, so the
account of the history stays true.
-/

namespace LayeredCache.Leasing

variable {κ α : Type} [DecidableEq κ]

namespace Account

/-- The account after a lookup. -/
def get (found : Option (Item α)) (a : Account κ α) : Account κ α :=
  { a with hits := found.toList.map (·.serial) ++ a.hits }

/-- The account after a removal. -/
def remove (k : κ) (a : Account κ α) : Account κ α :=
  { a with entries := fun k' => if k' = k then none else a.entries k' }

/-- The account after a clear. -/
def clear (a : Account κ α) : Account κ α := { a with entries := fun _ => none, hits := [] }

end Account

variable {base bound : Nat} {r : Retention} {a : Account κ α} {w w' : World κ α}

/-! ## Lookups and removals -/

/-- Handing out instances that are alive, and holding them in the queue, changes nothing else. -/
theorem Describes.relink (H : Describes base bound r a w) {hits links : List Nat} {m : Moment}
    (hlinks : links = (hits.take bound).reverse)
    (hpressure : m.pressure w.state.1.signal = w.moment.pressure w.state.1.signal)
    (halive : ∀ n, n ∈ links ∨ m.held n = true → w.isAlive n = true) :
    Describes base bound r { a with hits := hits }
      { w with state := ({ w.state.1 with hardLinks := links }, ()), moment := m } := by
  have hmono : ∀ n, World.isAlive
      { w with state := ({ w.state.1 with hardLinks := links }, ()), moment := m } n = true →
      w.isAlive n = true := by
    intro n
    refine World.isAlive_mono base w
      { w with state := ({ w.state.1 with hardLinks := links }, ()), moment := m }
      H.tidy H.distinct (fun n' hn' => halive n' (.inl hn')) ?_ H.alive_of_cell
    intro n' hn'
    rcases hn' with hn' | hn'
    · exact halive n' (.inr hn')
    · exact H.alive_of_outside n' (.inr hn')
  exact { H with
    seen_le := hpressure ▸ H.seen_le
    raised := H.raised.trans (by rw [hpressure])
    hardLinks := hlinks
    gone := by
      intro k e he hc
      obtain ⟨hdead, hunpinned⟩ := H.gone k e he hc
      exact ⟨World.dead_of_mono (hmono e.item.serial) hdead, hunpinned⟩
    known := fun n hn => H.known n (hmono n hn) }

/-- Handing out instances that are alive changes nothing. -/
theorem Describes.holding (H : Describes base bound r a w) {serials : List Nat}
    (hserials : ∀ n ∈ serials, w.isAlive n = true) :
    Describes base bound r a { w with moment := w.moment.holding serials } := by
  refine H.relink (m := w.moment.holding serials) H.hardLinks rfl ?_
  rintro n (hn | hn)
  · exact H.alive_of_links n hn
  · rw [Moment.held_holding, Bool.or_eq_true, List.contains_iff_mem] at hn
    rcases hn with hn | hn
    · exact hserials n hn
    · exact H.alive_of_outside n (.inl hn)

omit [DecidableEq κ] in
/-- The queue of the instances that were read last, after one more. -/
theorem hardLinks_remember {l : Leasing κ} {hits : List Nat} (hbound : l.hardBound = bound)
    (hlinks : l.hardLinks = (hits.take bound).reverse) (serial : Nat) :
    (l.remember serial).hardLinks = ((serial :: hits).take bound).reverse := by
  have hlength : (hits.take bound).length = min bound hits.length := List.length_take
  rw [remember, hbound, hlinks]
  simp only [List.length_append, List.length_reverse, hlength, List.length_singleton]
  cases bound with
  | zero => simp
  | succ bound =>
    rw [List.take_succ_cons, List.reverse_cons]
    by_cases hlong : bound + 1 ≤ hits.length
    · have hsplit : hits.take (bound + 1) = hits.take bound ++ [hits[bound]] :=
        (List.take_append_getElem (by omega)).symm
      rw [if_pos (by omega), hsplit, List.reverse_append]
      rfl
    · rw [if_neg (by omega), List.take_of_length_le (by omega), List.take_of_length_le (by omega)]

/-- An instance that is alive is remembered. -/
theorem Describes.remember (H : Describes base bound r a w) (item : Item α)
    (hitem : w.isAlive item.serial = true) :
    Describes base bound r (a.get (some item))
      { w with state := (w.state.1.remember item.serial, ()) } := by
  refine H.relink (hardLinks_remember H.hardBound H.hardLinks item.serial) rfl ?_
  rintro n (hn | hn)
  · have hmem : n ∈ w.state.1.hardLinks ++ [item.serial] := by
      split at hn
      · exact List.mem_of_mem_drop hn
      · exact hn
    rcases List.mem_append.mp hmem with hmem | hmem
    · exact H.alive_of_links n hmem
    · exact List.mem_singleton.mp hmem ▸ hitem
  · exact H.alive_of_outside n (.inl hn)

/-- The world after a cell was removed. -/
def World.drop (id : String) (base : Nat) (w : World κ α) (k : κ) : World κ α :=
  { w with
    state := (w.state.1.forget k, ())
    ground := ((Cache.bare id base : Cache κ α Unit).remove w.moment k () w.ground).ground }

theorem World.cell?_drop (id : String) (base : Nat) (w : World κ α) (k k' : κ) :
    (w.drop id base k).cell? base k' = if k' = k then none else w.cell? base k' := by
  obtain ⟨-, -, hstore⟩ := Cache.remove_bare id base w.moment k w.ground
  rw [cell?, drop, hstore]
  exact Table.find?_erase ..

theorem Describes.drop (H : Describes base bound r a w) (id : String) (k : κ) :
    Describes base bound r (a.remove k) (w.drop id base k) ∧
      ∀ n, (w.drop id base k).isAlive n = true → w.isAlive n = true := by
  obtain ⟨-, hbeside, hstore⟩ := Cache.remove_bare id base w.moment k w.ground
  have hdistinct : ((w.drop id base k).ground.store base).Distinct := by
    rw [World.drop, hstore]
    exact H.distinct.erase k
  have hfind := World.cell?_drop id base w k
  have hcell : ∀ {k' c}, (w.drop id base k).cell? base k' = some c →
      k' ≠ k ∧ w.cell? base k' = some c := by
    intro k' c hc
    rw [hfind] at hc
    by_cases hk : k' = k
    · rw [if_pos hk] at hc
      cases hc
    · rw [if_neg hk] at hc
      exact ⟨hk, hc⟩
  have hentry : ∀ {k' e}, (a.remove k).entries k' = some e → k' ≠ k ∧ a.entries k' = some e := by
    intro k' e he
    simp only [Account.remove] at he
    by_cases hk : k' = k
    · rw [if_pos hk] at he
      cases he
    · rw [if_neg hk] at he
      exact ⟨hk, he⟩
  have halive : ∀ n, (w.drop id base k).isAlive n = true → w.isAlive n = true := by
    intro n
    refine World.isAlive_mono base w (w.drop id base k)
      (hbeside.tidy H.tidy) hdistinct H.alive_of_links
      (fun n' hn' => H.alive_of_outside n' ?_)
      fun k' c hc hk => H.alive_of_cell k' c (hcell hc).2 hk
    exact hn'.imp_right fun h => (hbeside.keptElsewhere n') ▸ h
  have hissued : (w.drop id base k).ground.issued = w.ground.issued := hbeside.issued
  refine ⟨?_, halive⟩
  exact { H with
    tidy := hbeside.tidy H.tidy
    distinct := hdistinct
    registry_distinct := H.registry_distinct.erase k
    cell := by
      intro k' c hc
      obtain ⟨hk, hc⟩ := hcell hc
      obtain ⟨n, e, hlease, hregistered, he, hitem⟩ := H.cell k' c hc
      refine ⟨n, e, hlease, ?_, by simp [Account.remove, hk, he], hitem⟩
      exact (Table.find?_erase ..).trans ((if_neg hk).trans hregistered)
    registered := by
      intro k' n hn
      rw [hissued]
      have hn' : (w.state.1.registry.erase k).find? k' = some n := hn
      rw [Table.find?_erase] at hn'
      split at hn'
      · cases hn'
      · exact H.registered k' n hn'
    pins := fun p hp => hissued ▸ H.pins p hp
    followed := fun limit hlimit k' c n e hc hlease he =>
      H.followed limit hlimit k' c n e (hcell hc).2 hlease (hentry he).2
    gone := by
      intro k' e he hc
      obtain ⟨hk, he⟩ := hentry he
      have hnone : w.cell? base k' = none := by
        rw [hfind, if_neg hk] at hc
        exact hc
      obtain ⟨hdead, hunpinned⟩ := H.gone k' e he hnone
      exact ⟨World.dead_of_mono (halive e.item.serial) hdead, hunpinned⟩
    known := fun n hn => hissued ▸ H.known n (halive n hn)
    written := fun k' e he => hissued ▸ H.written k' e (hentry he).2 }

/-! ## The other acts -/

/-- The world after a clear. -/
def World.clear (base : Nat) (w : World κ α) : World κ α :=
  { w with state := (w.state.1.letGo.forgetAll, ()), ground := w.ground.setStore base .empty }

theorem Describes.clear (H : Describes base bound r a w) :
    Describes base bound r a.clear (w.clear base) := by
  have hbeside : (w.ground.setStore base .empty).Beside base w.ground :=
    Ground.beside_setStore base w.ground _
  have hdistinct : ((w.clear base).ground.store base).Distinct := by
    simp only [World.clear, Ground.store_setStore_self]
    exact Table.distinct_empty
  have hcell : ∀ k, (w.clear base).cell? base k = none := by
    intro k
    simp [World.cell?, World.clear]
  have halive : ∀ n, (w.clear base).isAlive n = true → w.isAlive n = true := by
    intro n
    refine World.isAlive_mono base w (w.clear base) (hbeside.tidy H.tidy) hdistinct
      (fun n' hn' => by cases hn') (fun n' hn' => H.alive_of_outside n' ?_) ?_
    · exact hn'.imp_right fun h => (hbeside.keptElsewhere n') ▸ h
    · intro k c hc
      rw [hcell] at hc
      cases hc
  exact { H with
    tidy := hbeside.tidy H.tidy
    distinct := hdistinct
    registry_distinct := Table.distinct_empty
    hardLinks := by simp [World.clear, letGo, forgetAll, Account.clear]
    cell := fun k c hc => by rw [hcell] at hc; cases hc
    registered := fun k n hn => by cases hn
    pins := fun p hp => by cases hp
    pins_nodup := List.nodup_nil
    followed := fun _ _ k c _ _ hc => by rw [hcell] at hc; cases hc
    gone := fun k e he => by cases he
    known := fun n hn => H.known n (halive n hn)
    written := fun k e he => by cases he }

theorem Describes.raise (H : Describes base bound r a w) (id : String) :
    Describes base bound r { a with raised := true }
      ((Call.raise : Call κ α).perform id base w).2 := by
  have hpressure : ((Call.raise : Call κ α).perform id base w).2.moment.pressure
      ((Call.raise : Call κ α).perform id base w).2.state.1.signal =
        w.moment.pressure w.state.1.signal + 1 := if_pos rfl
  exact { H with
    seen_le := by
      have hle := H.seen_le
      show w.state.1.seen ≤ _
      rw [hpressure]
      omega
    raised := by
      have hle := H.seen_le
      show true = decide (w.state.1.seen ≠ _)
      rw [hpressure]
      exact (decide_eq_true (by omega)).symm }

/-- What happens outside does not bring back an instance that nobody holds. -/
theorem Describes.outside (H : Describes base bound r a w) (h : Outside base w w') :
    Describes base bound r a w' := by
  obtain ⟨state, g, m⟩ := w'
  obtain rfl : state = w.state := h.state
  have hcell : ∀ k, World.cell? base ⟨w.state, g, m⟩ k = w.cell? base k := by
    intro k
    rw [World.cell?, World.cell?, h.store]
  have hdistinct : (g.store base).Distinct := by
    rw [h.store]
    exact H.distinct
  -- Only new instances, whose numbers were not given out before, come to life.
  have halive : ∀ n, World.isAlive ⟨w.state, g, m⟩ n = true →
      w.isAlive n = true ∨ w.ground.issued ≤ n ∧ n < g.issued := by
    intro n hn
    rcases (World.isAlive_iff h.tidy hdistinct).mp hn with hn | hn | hn | ⟨k, c, hc, rfl, hkeeps⟩
    · exact .inl (H.alive_of_links n hn)
    · exact h.held n (.inl hn)
    · exact h.held n (.inr hn)
    · rw [hcell] at hc
      exact .inl (H.alive_of_cell k c hc hkeeps)
  have hissued := h.issued
  exact { H with
    tidy := h.tidy
    distinct := hdistinct
    seen_le := h.pressure ▸ H.seen_le
    raised := H.raised.trans (by rw [h.pressure])
    cell := fun k c hc => H.cell k c (hcell k ▸ hc)
    registered := fun k n hn => Nat.lt_of_lt_of_le (H.registered k n hn) hissued
    pins := fun p hp => Nat.lt_of_lt_of_le (H.pins p hp) hissued
    followed := fun limit hlimit k c n e hc => H.followed limit hlimit k c n e (hcell k ▸ hc)
    gone := by
      intro k e he hc
      obtain ⟨hdead, hunpinned⟩ := H.gone k e he (hcell k ▸ hc)
      refine ⟨?_, hunpinned⟩
      rw [Bool.eq_false_iff]
      intro hn
      rcases halive _ hn with hn | ⟨hle, -⟩
      · rw [hn] at hdead
        cases hdead
      · have hlt := H.written k e he
        omega
    known := by
      intro n hn
      show n < g.issued
      rcases halive n hn with hn | ⟨-, hlt⟩
      · have hlt := H.known n hn
        exact Nat.lt_of_lt_of_le hlt hissued
      · exact hlt
    written := fun k e he => Nat.lt_of_lt_of_le (H.written k e he) hissued }

end LayeredCache.Leasing
