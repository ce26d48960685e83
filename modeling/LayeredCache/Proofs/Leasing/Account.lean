import LayeredCache.Proofs.Leasing.History
import LayeredCache.Proofs.Leasing.Pins

/-!
# The account of a reclaiming layer

What a history says of a layer is an account: the current entry of each key, the instances read
last, whether the signal was raised, and the number of operations. `Describes` ties the account to
the layer and its base store. A key whose entry is current may have lost its cell, but only after
its instance was let go by everybody; so an instance is held if and only if the account says so.

Each operation looks whether a collection is due, sweeps, and then does its own work; the lemmas
follow these steps.

## Main statements

* `Leasing.Describes.holds_iff` — an instance is alive if and only if the account says so.
* `Leasing.Describes.purge` — what an operation does first.
-/

namespace LayeredCache.Leasing

variable {κ α : Type}

/-- What a history says of a reclaiming layer. -/
structure Account (κ α : Type) where
  entries : κ → Option (Entry α)
  hits : List Nat
  raised : Bool
  operations : Nat

namespace Account

/-- Whether a collection is due if an operation comes next. -/
def isDue (r : Retention) (a : Account κ α) : Bool :=
  a.raised || isScheduled r (a.operations + 1)

/-- The account after a collection, if there was one. -/
def collectIf (b : Bool) (a : Account κ α) : Account κ α :=
  { a with entries := fun k => (a.entries k).map (Entry.collectIf b) }

/-- The account after the layer has looked whether a collection is due. -/
def look (a : Account κ α) : Account κ α :=
  { a with raised := false, operations := a.operations + 1 }

/-- The account after what an operation does first. -/
def observe (r : Retention) (a : Account κ α) : Account κ α := a.look.collectIf (a.isDue r)

end Account

/-- How far a layer has counted after so many operations. -/
def counted : Retention → (operations : Nat) → Retention
  | .soft limit, _ => .soft limit
  | .weak every first, n => .weak every (if every = 0 then first else first + n)

/-- The cells of a base store under a reclaiming layer. -/
def World.cell? [DecidableEq κ] (base : Nat) (w : World κ α) (k : κ) : Option (Cell α) :=
  (w.ground.store base).find? k

/-- Whether an instance is alive. -/
def World.isAlive (w : World κ α) (serial : Nat) : Bool :=
  w.state.1.holds w.moment w.ground serial

/-- The world after the layer has looked whether a collection is due. -/
def World.look (w : World κ α) : World κ α :=
  { w with state := ((w.state.1.observe w.moment).1, ()) }

variable [DecidableEq κ]

/-- The world after a collection. -/
def World.collect (base : Nat) (w : World κ α) : World κ α :=
  { w with
    state := ((Leasing.collect base w.state.1 w.ground).1, ())
    ground := (Leasing.collect base w.state.1 w.ground).2.1 }

/-- The world after the collection that is due, if one is. -/
def World.attend (id : String) (base : Nat) (w : World κ α) : World κ α :=
  let p := Leasing.attend (Cache.bare id base) w.moment w.state.1 w.ground
  { w with state := (p.1, ()), ground := p.2 }

/-- The world after the cells whose instance nobody holds were removed. -/
def World.sweep (id : String) (base : Nat) (w : World κ α) : World κ α :=
  let p := w.state.1.sweep base w.moment w.ground
  let q := (Cache.bare id base).removeAll w.moment p.1 () w.ground
  { w with state := (p.2, ()), ground := notePurged id p.1 q.2 }

/-- The world after what an operation does first. -/
def World.purge (id : String) (base : Nat) (w : World κ α) : World κ α :=
  let p := Leasing.purge (Cache.bare id base) w.moment w.state w.ground
  { w with state := p.state, ground := p.ground }

/-- The account `a` tells the truth about `w`: every cell is that of a current entry, under a lease
that is registered and pinned as the entry is; a current entry without a cell has an instance that
nobody holds. -/
structure Describes (base bound : Nat) (r : Retention) (a : Account κ α) (w : World κ α) :
    Prop where
  tidy : w.ground.Tidy
  distinct : (w.ground.store base).Distinct
  registry_distinct : w.state.1.registry.Distinct
  retention : w.state.1.retention = counted r a.operations
  seen_le : w.state.1.seen ≤ w.moment.pressure w.state.1.signal
  raised : a.raised = decide (w.state.1.seen ≠ w.moment.pressure w.state.1.signal)
  hardBound : w.state.1.hardBound = bound
  hardLinks : w.state.1.hardLinks = (a.hits.take bound).reverse
  cell : ∀ k c, w.cell? base k = some c → ∃ n e, c.lease = some ⟨n, e.isPinned r⟩ ∧
    w.state.1.registry.find? k = some n ∧ a.entries k = some e ∧ e.item = c.item
  registered : ∀ k n, w.state.1.registry.find? k = some n → n < w.ground.issued
  pins : ∀ p ∈ w.state.1.pins, p.2 < w.ground.issued
  pins_nodup : w.state.1.pins.Nodup
  /-- The leases behind a pinned one are those of the writes that followed. -/
  followed : ∀ limit, r = .soft limit → ∀ k c n e, w.cell? base k = some c →
    c.lease = some ⟨n, true⟩ → a.entries k = some e →
    ∃ before behind, w.state.1.pins = before ++ (k, n) :: behind ∧ behind.length = e.followed
  gone : ∀ k e, a.entries k = some e → w.cell? base k = none →
    w.isAlive e.item.serial = false ∧ e.isPinned r = false
  known : ∀ n, w.isAlive n = true → n < w.ground.issued
  written : ∀ k e, a.entries k = some e → e.item.serial < w.ground.issued

variable {base bound : Nat} {r : Retention} {a : Account κ α} {w w' : World κ α}

/-! ## Who is alive -/

/-- An instance is alive if the queue, somebody outside, or a cell that keeps it holds it. -/
theorem World.isAlive_iff (htidy : w.ground.Tidy) (hdistinct : (w.ground.store base).Distinct)
    {n : Nat} : w.isAlive n = true ↔ n ∈ w.state.1.hardLinks ∨ w.moment.held n = true ∨
      w.ground.keptElsewhere base n = true ∨
      ∃ k c, w.cell? base k = some c ∧ c.item.serial = n ∧ c.keeps = true := by
  rw [isAlive, holds, Bool.or_eq_true, Bool.or_eq_true, Ground.keeps_iff htidy base,
    List.contains_iff_mem, or_assoc]
  refine or_congr_right (or_congr_right (or_congr_right ?_))
  constructor
  · rintro ⟨⟨k, c⟩, he, hserial, hkeeps⟩
    exact ⟨k, c, hdistinct.mem_entries.mp he, hserial, hkeeps⟩
  · rintro ⟨k, c, hc, hserial, hkeeps⟩
    exact ⟨(k, c), hdistinct.mem_entries.mpr hc, hserial, hkeeps⟩

omit [DecidableEq κ] in
theorem keeps_of_lease {c : Cell α} {n : Nat} {pinned : Bool} (h : c.lease = some ⟨n, pinned⟩) :
    c.keeps = pinned := by rw [Cell.keeps, h]

omit [DecidableEq κ] in
theorem isUnder_of_lease {c : Cell α} {n n' : Nat} {pinned : Bool}
    (h : c.lease = some ⟨n, pinned⟩) : c.isUnder n' = decide (n = n') := by rw [Cell.isUnder, h]

/-- The cell of a key is that of its current entry. -/
theorem Describes.cell_of_entry (H : Describes base bound r a w) {k : κ} {c : Cell α} {e : Entry α}
    (hc : w.cell? base k = some c) (he : a.entries k = some e) :
    ∃ n, c.lease = some ⟨n, e.isPinned r⟩ ∧ w.state.1.registry.find? k = some n ∧
      e.item = c.item := by
  obtain ⟨n, e', hlease, hregistered, he', hitem⟩ := H.cell k c hc
  rw [he] at he'
  cases he'
  exact ⟨n, hlease, hregistered, hitem⟩

/-- An instance is alive if and only if the account says so: it is held outside, it was read last,
or a pinned entry is one of it. -/
theorem Describes.holds_iff (H : Describes base bound r a w) {n : Nat} :
    w.isAlive n = true ↔ w.moment.held n = true ∨ w.ground.keptElsewhere base n = true ∨
      n ∈ a.hits.take bound ∨
      ∃ k e, a.entries k = some e ∧ e.isPinned r = true ∧ e.item.serial = n := by
  rw [World.isAlive_iff H.tidy H.distinct, H.hardLinks, List.mem_reverse]
  constructor
  · rintro (h | h | h | ⟨k, c, hc, hserial, hkeeps⟩)
    · exact .inr (.inr (.inl h))
    · exact .inl h
    · exact .inr (.inl h)
    · obtain ⟨n', e, hlease, -, he, hitem⟩ := H.cell k c hc
      rw [keeps_of_lease hlease] at hkeeps
      exact .inr (.inr (.inr ⟨k, e, he, hkeeps, by rw [hitem, hserial]⟩))
  · rintro (h | h | h | ⟨k, e, he, hpinned, hserial⟩)
    · exact .inr (.inl h)
    · exact .inr (.inr (.inl h))
    · exact .inl h
    · cases hc : w.cell? base k with
      | none =>
        have hunpinned := (H.gone k e he hc).2
        rw [hpinned] at hunpinned
        cases hunpinned
      | some c =>
        obtain ⟨n', hlease, -, hitem⟩ := H.cell_of_entry hc he
        refine .inr (.inr (.inr ⟨k, c, hc, by rw [← hitem, hserial], ?_⟩))
        rw [keeps_of_lease hlease, hpinned]

/-- Who is alive in `w'` was alive in `w` if all the holders in `w'` held what was alive. -/
theorem World.isAlive_mono (base : Nat) (w w' : World κ α) (htidy : w'.ground.Tidy)
    (hdistinct : (w'.ground.store base).Distinct)
    (hlinks : ∀ n ∈ w'.state.1.hardLinks, w.isAlive n = true)
    (hheld : ∀ n, w'.moment.held n = true ∨ w'.ground.keptElsewhere base n = true →
      w.isAlive n = true)
    (hcell : ∀ k c, w'.cell? base k = some c → c.keeps = true → w.isAlive c.item.serial = true)
    {n : Nat} (h : w'.isAlive n = true) : w.isAlive n = true := by
  rcases (isAlive_iff htidy hdistinct).mp h with h | h | h | ⟨k, c, hc, rfl, hkeeps⟩
  · exact hlinks n h
  · exact hheld n (.inl h)
  · exact hheld n (.inr h)
  · exact hcell k c hc hkeeps

omit [DecidableEq κ] in
theorem World.dead_of_mono {n : Nat} (hmono : w'.isAlive n = true → w.isAlive n = true)
    (hdead : w.isAlive n = false) : w'.isAlive n = false := by
  rw [Bool.eq_false_iff] at hdead ⊢
  exact mt hmono hdead

theorem Describes.alive_of_links (H : Describes base bound r a w) :
    ∀ n ∈ w.state.1.hardLinks, w.isAlive n = true :=
  fun _ hn => (World.isAlive_iff H.tidy H.distinct).mpr (.inl hn)

theorem Describes.alive_of_outside (H : Describes base bound r a w) :
    ∀ n, w.moment.held n = true ∨ w.ground.keptElsewhere base n = true → w.isAlive n = true := by
  rintro n (h | h)
  · exact (World.isAlive_iff H.tidy H.distinct).mpr (.inr (.inl h))
  · exact (World.isAlive_iff H.tidy H.distinct).mpr (.inr (.inr (.inl h)))

theorem Describes.alive_of_cell (H : Describes base bound r a w) :
    ∀ k c, w.cell? base k = some c → c.keeps = true → w.isAlive c.item.serial = true :=
  fun k c hc hkeeps =>
    (World.isAlive_iff H.tidy H.distinct).mpr (.inr (.inr (.inr ⟨k, c, hc, rfl, hkeeps⟩)))

/-! ## Looking whether a collection is due -/

omit [DecidableEq κ] in
@[simp] theorem Entry.collectIf_false (e : Entry α) : e.collectIf false = e := by
  simp [collectIf]

omit [DecidableEq κ] in
@[simp] theorem Entry.isPinned_collectIf_true (r : Retention) (e : Entry α) :
    (e.collectIf true).isPinned r = false := by
  simp [collectIf, isPinned]

omit [DecidableEq κ] in
@[simp] theorem Account.collectIf_false (a : Account κ α) : a.collectIf false = a := by
  have hentries : (fun k => (a.entries k).map (Entry.collectIf false)) = a.entries := by
    funext k
    cases a.entries k <;> simp
  rw [collectIf, hentries]

theorem Describes.observe_eq (H : Describes base bound r a w) :
    w.state.1.observe w.moment =
      ({ w.state.1 with
          seen := w.moment.pressure w.state.1.signal,
          retention := counted r (a.operations + 1) },
        a.raised, isScheduled r (a.operations + 1)) := by
  have hretention := H.retention
  rw [H.raised]
  cases r with
  | soft limit =>
    simp only [counted] at hretention
    simp [observe, hretention, counted, isScheduled]
  | weak every first =>
    simp only [counted] at hretention
    by_cases hevery : every = 0
    · simp [observe, hretention, counted, isScheduled, hevery]
    · simp [observe, hretention, counted, isScheduled, hevery, Nat.add_assoc]

theorem Describes.look (H : Describes base bound r a w) :
    Describes base bound r a.look w.look := by
  rw [World.look, H.observe_eq]
  exact { H with
    retention := rfl
    seen_le := Nat.le_refl _
    raised := by simp [Account.look] }

/-- Every cell under a reclaiming layer is unpinned by a collection. -/
theorem Describes.cell?_collect (H : Describes base bound r a w) (k : κ) :
    (w.collect base).cell? base k = (w.cell? base k).map Cell.unpin := by
  refine ((unpinAll_spec base w.state.1 w.ground).2.2 k).trans ?_
  show (w.cell? base k).map _ = _
  cases hc : w.cell? base k with
  | none => rfl
  | some c =>
    obtain ⟨n, e, hlease, hregistered, -, -⟩ := H.cell k c hc
    have howns : w.state.1.owns k c = true := by
      simp [owns, hregistered, isUnder_of_lease hlease]
    cases hpinned : e.isPinned r with
    | true => simp [hlease, howns, hpinned]
    | false =>
      rw [hpinned] at hlease
      obtain ⟨item, lease⟩ := c
      simp only at hlease
      subst hlease
      simp [Cell.unpin]

/-- A collection unpins every entry. -/
theorem Describes.collect (H : Describes base bound r a w) :
    Describes base bound r (a.collectIf true) (w.collect base) := by
  obtain ⟨hbeside, hdistinct, -⟩ := unpinAll_spec base w.state.1 w.ground
  have hcell : ∀ {k c'}, (w.collect base).cell? base k = some c' →
      ∃ c, w.cell? base k = some c ∧ c' = c.unpin := by
    intro k c' hc'
    rw [H.cell?_collect] at hc'
    obtain ⟨c, hc, rfl⟩ := Option.map_eq_some_iff.mp hc'
    exact ⟨c, hc, rfl⟩
  have hkeeps : ∀ {k c'}, (w.collect base).cell? base k = some c' → c'.keeps = false := by
    intro k c' hc'
    obtain ⟨c, hc, rfl⟩ := hcell hc'
    obtain ⟨n, e, hlease, -, -, -⟩ := H.cell k c hc
    simp [Cell.keeps, Cell.unpin, hlease]
  have hentry : ∀ {k e}, (a.collectIf true).entries k = some e →
      ∃ e', a.entries k = some e' ∧ e = e'.collectIf true := by
    intro k e he
    obtain ⟨e', he', rfl⟩ := Option.map_eq_some_iff.mp he
    exact ⟨e', he', rfl⟩
  have hmono : ∀ n, (w.collect base).isAlive n = true → w.isAlive n = true := by
    intro n
    refine World.isAlive_mono base w (w.collect base) (hbeside.tidy H.tidy) (hdistinct H.distinct)
      H.alive_of_links (fun n' hn' => H.alive_of_outside n' ?_) ?_
    · exact hn'.imp_right fun h => (hbeside.keptElsewhere n') ▸ h
    · intro k c hc hk
      rw [hkeeps hc] at hk
      cases hk
  exact { H with
    tidy := hbeside.tidy H.tidy
    distinct := hdistinct H.distinct
    cell := by
      intro k c' hc'
      obtain ⟨c, hc, rfl⟩ := hcell hc'
      obtain ⟨n, e, hlease, hregistered, he, hitem⟩ := H.cell k c hc
      refine ⟨n, e.collectIf true, ?_, hregistered, ?_, hitem⟩
      · simp [Cell.unpin, hlease]
      · simp [Account.collectIf, he]
    pins := fun p hp => by cases hp
    pins_nodup := List.nodup_nil
    followed := by
      intro limit _ k c n e hc hlease _
      have hfalse := hkeeps hc
      rw [keeps_of_lease hlease] at hfalse
      cases hfalse
    gone := by
      intro k e he hc
      obtain ⟨e', he', rfl⟩ := hentry he
      have hnone : w.cell? base k = none := by
        rw [H.cell?_collect] at hc
        exact Option.map_eq_none_iff.mp hc
      exact ⟨World.dead_of_mono (hmono e'.item.serial) (H.gone k e' he' hnone).1,
        Entry.isPinned_collectIf_true r e'⟩
    known := fun n hn => H.known n (hmono n hn)
    written := by
      intro k e he
      obtain ⟨e', he', rfl⟩ := hentry he
      exact H.written k e' he' }

theorem Describes.note (H : Describes base bound r a w) (e : Event κ) :
    Describes base bound r a { w with ground := w.ground.note e } := { H with }

theorem World.attend_eq_of_due (id : String) (base : Nat)
    (h : (w.state.1.observe w.moment).2.1 = true ∨ (w.state.1.observe w.moment).2.2 = true) :
    ∃ e, w.attend id base =
      { w.look.collect base with ground := (w.look.collect base).ground.note e } := by
  simp only [attend, Leasing.attend, look]
  generalize w.state.1.observe w.moment = o at h ⊢
  obtain ⟨l, pressured, scheduled⟩ := o
  have hor : (pressured || scheduled) = true := by simpa using h
  simp only [hor, if_true]
  exact ⟨_, rfl⟩

theorem World.attend_eq_of_not_due (id : String) (h : ¬ ((w.state.1.observe w.moment).2.1 = true ∨
    (w.state.1.observe w.moment).2.2 = true)) : w.attend id base = w.look := by
  simp only [attend, Leasing.attend, look]
  generalize w.state.1.observe w.moment = o at h ⊢
  obtain ⟨l, pressured, scheduled⟩ := o
  have hor : (pressured || scheduled) = false := by simpa using h
  simp only [hor, Bool.false_eq_true, if_false]

theorem World.attend_beside (id : String) (w : World κ α) :
    (w.attend id base).ground.Beside base w.ground := by
  by_cases h : (w.state.1.observe w.moment).2.1 = true ∨ (w.state.1.observe w.moment).2.2 = true
  · obtain ⟨e, he⟩ := World.attend_eq_of_due id base h
    rw [he]
    exact (Ground.beside_note base _ e).trans (Ground.beside_setStore base w.ground _)
  · rw [World.attend_eq_of_not_due id h]
    exact Ground.Beside.refl base w.ground

theorem Describes.attend (H : Describes base bound r a w) (id : String) :
    Describes base bound r (a.observe r) (w.attend id base) := by
  have hdue : a.isDue r = true ↔ (w.state.1.observe w.moment).2.1 = true ∨
      (w.state.1.observe w.moment).2.2 = true := by
    rw [H.observe_eq, Account.isDue, Bool.or_eq_true]
  rw [Account.observe]
  by_cases h : a.isDue r = true
  · obtain ⟨e, he⟩ := World.attend_eq_of_due id base (hdue.mp h)
    rw [he, h]
    exact H.look.collect.note e
  · rw [World.attend_eq_of_not_due id fun h' => h (hdue.mpr h'), Bool.eq_false_iff.mpr h,
      Account.collectIf_false]
    exact H.look

/-! ## Sweeping -/

/-- The keys whose cells a sweep removes. -/
def World.sweptKeys (base : Nat) (w : World κ α) : List κ :=
  (w.state.1.sweep base w.moment w.ground).1

/-- The world after a sweep and before it is noted. -/
def World.swept (id : String) (base : Nat) (w : World κ α) : World κ α :=
  { w with
    state := ((w.state.1.sweep base w.moment w.ground).2, ())
    ground := ((Cache.bare id base).removeAll w.moment (w.sweptKeys base) () w.ground).2 }

theorem World.sweep_eq (id : String) (base : Nat) (w : World κ α) :
    w.sweep id base = w.swept id base ∨
    ∃ e, w.sweep id base = { w.swept id base with ground := (w.swept id base).ground.note e } := by
  simp only [sweep, notePurged]
  split
  · exact .inl rfl
  · exact .inr ⟨_, rfl⟩

theorem World.beside_swept (id : String) : (w.swept id base).ground.Beside base w.ground :=
  (Cache.removeAll_bare id base w.moment (w.sweptKeys base) w.ground).1

theorem World.store_swept (id : String) : (w.swept id base).ground.store base =
    ⟨(w.ground.store base).entries.filter (·.1 ∉ w.sweptKeys base)⟩ :=
  (Cache.removeAll_bare id base w.moment (w.sweptKeys base) w.ground).2

theorem World.cell?_swept (id : String) {k : κ} {c : Cell α} :
    (w.swept id base).cell? base k = some c ↔
      k ∉ w.sweptKeys base ∧ w.cell? base k = some c := by
  rw [cell?, store_swept, Table.find?_filter_fst fun k => decide (k ∉ w.sweptKeys base)]
  by_cases hk : k ∈ w.sweptKeys base
  · simp [hk]
  · simp [hk, cell?]

/-- The keys that are swept are those whose cell keeps nothing and whose instance nobody holds. -/
theorem Describes.mem_sweptKeys (H : Describes base bound r a w) {k : κ} :
    k ∈ w.sweptKeys base ↔
      ∃ c, w.cell? base k = some c ∧ c.keeps = false ∧ w.isAlive c.item.serial = false := by
  simp only [World.sweptKeys, Leasing.sweep, List.partition_eq_filter_filter, List.mem_map,
    List.mem_filter]
  constructor
  · rintro ⟨⟨k', c⟩, ⟨hmem, habandoned⟩, rfl⟩
    simp only [abandons, Bool.and_eq_true, Bool.not_eq_true'] at habandoned
    exact ⟨c, H.distinct.mem_entries.mp hmem, habandoned.1.1, habandoned.1.2⟩
  · rintro ⟨c, hc, hkeeps, hdead⟩
    obtain ⟨n, e, hlease, hregistered, -, -⟩ := H.cell k c hc
    refine ⟨(k, c), ⟨H.distinct.mem_entries.mpr hc, ?_⟩, rfl⟩
    rw [World.isAlive] at hdead
    simp [abandons, owns, hkeeps, hdead, hregistered, isUnder_of_lease hlease]

/-- The leases of the cells that stay are still registered. -/
theorem Describes.registry_swept (H : Describes base bound r a w) (id : String) {k : κ}
    {c : Cell α} (hc : w.cell? base k = some c) (hstays : k ∉ w.sweptKeys base) :
    (w.swept id base).state.1.registry.find? k = w.state.1.registry.find? k := by
  obtain ⟨n, e, hlease, hregistered, -, -⟩ := H.cell k c hc
  rw [hregistered]
  simp only [World.swept, Leasing.sweep, List.partition_eq_filter_filter]
  rw [H.registry_distinct.find?_filter, hregistered, Option.filter_some, if_pos]
  rw [Std.HashSet.contains_ofList, List.contains_iff_mem, List.mem_filterMap]
  refine ⟨(k, c), List.mem_filter.mpr ⟨H.distinct.mem_entries.mpr hc, ?_⟩, by simp [hlease]⟩
  simp only [World.sweptKeys, Leasing.sweep, List.partition_eq_filter_filter] at hstays
  by_contra habandoned
  refine hstays (List.mem_map.mpr ⟨(k, c), List.mem_filter.mpr ⟨?_, ?_⟩, rfl⟩)
  · exact H.distinct.mem_entries.mpr hc
  · simpa using habandoned

theorem Describes.distinct_swept (H : Describes base bound r a w) (id : String) :
    ((w.swept id base).ground.store base).Distinct := by
  rw [World.store_swept]
  exact H.distinct.filter _

/-- A sweep lets no instance go. -/
theorem Describes.isAlive_swept (H : Describes base bound r a w) (id : String) (n : Nat) :
    (w.swept id base).isAlive n = w.isAlive n := by
  have hbeside : (w.swept id base).ground.Beside base w.ground := World.beside_swept id
  have htidy := hbeside.tidy H.tidy
  have hdistinct := H.distinct_swept id
  rw [Bool.eq_iff_iff]
  constructor
  · refine World.isAlive_mono base w (w.swept id base) htidy hdistinct H.alive_of_links
      (fun n' hn' => H.alive_of_outside n' ?_)
      fun k c hc hk => H.alive_of_cell k c ((World.cell?_swept id).mp hc).2 hk
    exact hn'.imp_right fun h => (hbeside.keptElsewhere n') ▸ h
  · rw [World.isAlive_iff htidy hdistinct, World.isAlive_iff H.tidy H.distinct]
    rintro (h | h | h | ⟨k, c, hc, hserial, hkeeps⟩)
    · exact .inl h
    · exact .inr (.inl h)
    · exact .inr (.inr (.inl ((hbeside.keptElsewhere n).trans h)))
    · have hstays : k ∉ w.sweptKeys base := by
        intro hk
        obtain ⟨c', hc', hkeeps', -⟩ := H.mem_sweptKeys.mp hk
        rw [hc] at hc'
        cases hc'
        rw [hkeeps] at hkeeps'
        cases hkeeps'
      exact .inr (.inr (.inr ⟨k, c, (World.cell?_swept id).mpr ⟨hstays, hc⟩, hserial, hkeeps⟩))

/-- The cells that a sweep leaves are those of instances that are alive. -/
theorem Describes.alive_of_cell_swept (H : Describes base bound r a w) (id : String) {k : κ}
    {c : Cell α} (hc : (w.swept id base).cell? base k = some c) :
    (w.swept id base).isAlive c.item.serial = true := by
  obtain ⟨hstays, hc⟩ := (World.cell?_swept id).mp hc
  rw [H.isAlive_swept id]
  by_contra hdead
  refine hstays (H.mem_sweptKeys.mpr ⟨c, hc, ?_, Bool.eq_false_iff.mpr hdead⟩)
  rw [Bool.eq_false_iff]
  exact fun hkeeps => hdead (H.alive_of_cell k c hc hkeeps)

theorem Describes.swept (H : Describes base bound r a w) (id : String) :
    Describes base bound r a (w.swept id base) := by
  have hbeside : (w.swept id base).ground.Beside base w.ground := World.beside_swept id
  have hregistry : ∀ k n, (w.swept id base).state.1.registry.find? k = some n →
      w.state.1.registry.find? k = some n := by
    intro k n hn
    simp only [World.swept, Leasing.sweep] at hn
    rw [H.registry_distinct.find?_filter, Option.filter_eq_some_iff] at hn
    exact hn.1
  exact { H with
    tidy := hbeside.tidy H.tidy
    distinct := H.distinct_swept id
    registry_distinct := H.registry_distinct.filter _
    cell := by
      intro k c hc
      obtain ⟨hstays, hc⟩ := (World.cell?_swept id).mp hc
      obtain ⟨n, e, hlease, hregistered, he, hitem⟩ := H.cell k c hc
      exact ⟨n, e, hlease, (H.registry_swept id hc hstays).trans hregistered, he, hitem⟩
    registered := fun k n hn => hbeside.issued ▸ H.registered k n (hregistry k n hn)
    pins := fun p hp => hbeside.issued ▸ H.pins p hp
    followed := fun limit hlimit k c n e hc =>
      H.followed limit hlimit k c n e ((World.cell?_swept id).mp hc).2
    gone := by
      intro k e he hc
      rw [H.isAlive_swept id]
      cases hc' : w.cell? base k with
      | none => exact H.gone k e he hc'
      | some c =>
        have hk : k ∈ w.sweptKeys base := by
          by_contra hstays
          rw [(World.cell?_swept id).mpr ⟨hstays, hc'⟩] at hc
          cases hc
        obtain ⟨c', hc'', hkeeps, hdead⟩ := H.mem_sweptKeys.mp hk
        rw [hc'] at hc''
        cases hc''
        obtain ⟨n, hlease, -, hitem⟩ := H.cell_of_entry hc' he
        rw [keeps_of_lease hlease] at hkeeps
        exact ⟨hitem ▸ hdead, hkeeps⟩
    known := fun n hn => hbeside.issued ▸ H.known n (H.isAlive_swept id n ▸ hn)
    written := fun k e he => hbeside.issued ▸ H.written k e he }

/-- Sweeping keeps the account true, leaves the cells whose instance is alive, and lets no instance
go. -/
theorem Describes.sweep (H : Describes base bound r a w) (id : String) :
    Describes base bound r a (w.sweep id base) ∧
      (∀ k c, (w.sweep id base).cell? base k = some c →
        (w.sweep id base).isAlive c.item.serial = true) ∧
      ∀ n, (w.sweep id base).isAlive n = w.isAlive n := by
  have hcells := fun k c hc => H.alive_of_cell_swept id (k := k) (c := c) hc
  rcases World.sweep_eq id base w with he | ⟨e, he⟩
  · rw [he]
    exact ⟨H.swept id, hcells, H.isAlive_swept id⟩
  · rw [he]
    exact ⟨(H.swept id).note e, hcells, H.isAlive_swept id⟩

/-- What an operation does first: the account has looked, and every cell that is left is that of an
instance that is alive. -/
theorem Describes.purge (H : Describes base bound r a w) (id : String) :
    Describes base bound r (a.observe r) (w.purge id base) ∧
      (∀ k c, (w.purge id base).cell? base k = some c →
        (w.purge id base).isAlive c.item.serial = true) ∧
      ∀ n, (w.purge id base).isAlive n = (w.attend id base).isAlive n :=
  (H.attend id).sweep id

end LayeredCache.Leasing
