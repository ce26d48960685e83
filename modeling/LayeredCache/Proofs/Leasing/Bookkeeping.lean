import LayeredCache.Proofs.Leasing.Liveness
import Mathlib.Data.List.Perm.Basic

/-!
# The books of a reclaiming layer

A reclaiming layer keeps four books: the cells in the store below, the registry of their leases, the
queue of the instances that were read last, and the queue of leases that count against the limit of
a soft layer. Each operation writes several of them. They agree after every operation, and so every
sweep removes the cells whose instance nobody holds, and no others.

## Main definitions

* `Leasing.Tended` — the worlds that a layer comes to, its queue of read instances bounded anew at
  any time.
* `Leasing.InOrder`, `Leasing.Tallied` — the books agree; what of this is new is kept by every step.
* `Leasing.Relieves`, `Leasing.Sweeps` — what a collection and what a sweep does.

## Main statements

* `Leasing.Tended.books_agree` — the books agree after every operation, a collection unpins
  everything, and a sweep removes what nobody holds.
-/

namespace LayeredCache.Leasing

variable {κ α : Type}

/-- The number of cells whose lease is pinned. -/
def World.pinned (base : Nat) (w : World κ α) : Nat :=
  (w.ground.store base).entries.countP fun e => e.2.lease.any (·.pinned)

/-- Whether somebody holds an instance: a caller or another cache, the queue of the instances that
were read last, or a cell whose lease is pinned. -/
def World.isHeld (base : Nat) (w : World κ α) (serial : Nat) : Bool :=
  w.moment.held serial || w.ground.keptElsewhere base serial ||
    w.state.1.hardLinks.contains serial ||
    (w.ground.store base).entries.any fun e =>
      decide (e.2.item.serial = serial) && e.2.lease.any (·.pinned)

/-- Whether a collection is due: because of pressure, or by the number of operations. -/
def World.isDue (w : World κ α) : Bool :=
  (w.state.1.observe w.moment).2.1 || (w.state.1.observe w.moment).2.2

variable [DecidableEq κ]

/-- The books agree: the registry and the store have the same keys, every key with a lease of its
own under which its cell is stored; the queue of the instances that were read last is not longer
than its bound; in a soft layer the queue of leases is not longer than the limit and has all that
are pinned, so no more cells are pinned than that. -/
structure InOrder (base : Nat) (r : Retention) (w : World κ α) : Prop where
  registry : w.state.1.registry.Distinct
  store : (w.ground.store base).Distinct
  keys : ∀ k, w.state.1.registry.contains k = (w.ground.store base).contains k
  lease : ∀ k n, w.state.1.registry.find? k = some n →
    ∃ item pinned, (w.ground.store base).find? k = some ⟨item, some ⟨n, pinned⟩⟩
  unshared : ∀ k k' n, w.state.1.registry.find? k = some n →
    w.state.1.registry.find? k' = some n → k = k'
  hardLinks : w.state.1.hardLinks.length ≤ w.state.1.hardBound
  pins : ∀ limit, r = .soft limit → w.state.1.pins.length ≤ limit
  queued : ∀ limit, r = .soft limit → ∀ k item n,
    (w.ground.store base).find? k = some ⟨item, some ⟨n, true⟩⟩ → (k, n) ∈ w.state.1.pins
  pinned : ∀ limit, r = .soft limit → w.pinned base ≤ limit

/-- A collection counts the cells that are pinned, and unpins them. -/
structure Relieves (base : Nat) (w : World κ α) : Prop where
  count : (Leasing.collect base w.state.1 w.ground).2.2 = w.pinned base
  pinned : (w.collect base).pinned base = 0
  cell : ∀ k, (w.collect base).cell? base k = (w.cell? base k).map Cell.unpin

/-- Whether a call begins with a sweep. -/
def Call.sweeps : Call κ α → Bool
  | .put .. | .get _ | .remove _ | .size | .purge => true
  | .clear | .collect | .raise => false

/-- Whether a call writes or removes a key. -/
def Call.aims (k : κ) : Call κ α → Bool
  | .put k' _ | .remove k' => decide (k' = k)
  | _ => false

/-- What a sweep does: once the collection at the beginning of the operation is done, the cells
whose instance nobody holds are removed and counted, and no others. -/
structure Sweeps (id : String) (base : Nat) (w : World κ α) : Prop where
  attend : ∀ k, (w.attend id base).cell? base k =
    (w.cell? base k).map fun c => if w.isDue then c.unpin else c
  hardLinks : (w.attend id base).state.1.hardLinks = w.state.1.hardLinks
  entries : ((w.purge id base).ground.store base).entries =
    ((w.attend id base).ground.store base).entries.filter fun e =>
      (w.attend id base).isHeld base e.2.item.serial
  purge : (Leasing.purge (Cache.bare id base) w.moment w.state w.ground).answer =
    ((w.attend id base).ground.store base).entries.countP fun e =>
      !(w.attend id base).isHeld base e.2.item.serial
  size : ((onBare id base).size w.moment w.state w.ground).answer =
    ((w.attend id base).ground.store base).entries.countP fun e =>
      (w.attend id base).isHeld base e.2.item.serial
  call : ∀ c : Call κ α, c.sweeps = true → ∀ k, c.aims k = false →
    ((c.perform id base w).2.cell? base k).map (·.item) =
      (((w.attend id base).cell? base k).map (·.item)).filter fun i =>
        (w.attend id base).isHeld base i.serial

/-- `Tended id base l₀ w`: a layer `l₀ m₀` on an empty base store, made at a moment `m₀`, has come to
`w` by calls, by new bounds of the queue of the instances that were read last, and by what happened
outside. -/
inductive Tended (id : String) (base : Nat) (l₀ : Moment → Leasing κ) : World κ α → Prop where
  | start (m₀ : Moment) (g₀ : Ground κ α) : g₀.Tidy → g₀.store base = .empty →
    (∀ n, m₀.held n = true ∨ g₀.keptElsewhere base n = true → n < g₀.issued) →
    Tended id base l₀ ⟨(l₀ m₀, ()), g₀, m₀⟩
  | call {w : World κ α} (c : Call κ α) : Tended id base l₀ w → c.IsFair w →
    Tended id base l₀ (c.perform id base w).2
  | release {w : World κ α} (k : κ) : Tended id base l₀ w →
    Tended id base l₀ { w with
      state := ((onBare id base).release w.moment k w.state w.ground).state
      ground := ((onBare id base).release w.moment k w.state w.ground).ground }
  | rebound {w : World κ α} (bound : Nat) : Tended id base l₀ w →
    Tended id base l₀ { w with state := (w.state.1.setHardBound bound, ()) }
  | outside {w w' : World κ α} : Tended id base l₀ w → Outside base w w' → Tended id base l₀ w'

variable {id : String} {base bound : Nat} {r : Retention} {a : Account κ α} {w w' : World κ α}

/-! ## A new bound -/

/-- The instances at the front of the queue are let go, as many as are above the new bound. -/
theorem Describes.rebound (H : Describes base bound r a w) (n : Nat) :
    Describes base n r { a with hits := (a.hits.take bound).take n }
      { w with state := (w.state.1.setHardBound n, ()) } := by
  have hshort : ((a.hits.take bound).take n).length ≤ bound :=
    Nat.le_trans (List.length_take_le' n _) (List.length_take_le bound _)
  have hlinks : w.state.1.hardLinks.drop (w.state.1.hardLinks.length - n) =
      (((a.hits.take bound).take n).take bound).reverse := by
    rw [List.take_of_length_le hshort, List.reverse_take, H.hardLinks, List.length_reverse]
  have hrelinked := H.relink (m := w.moment) hlinks rfl fun i hi =>
    hi.elim (fun h => H.alive_of_links i (List.mem_of_mem_drop h))
      fun h => H.alive_of_outside i (.inl h)
  exact { hrelinked with
    hardBound := rfl
    hardLinks := by
      refine hlinks.trans ?_
      simp [List.take_take, Nat.min_comm] }

/-! ## A collection that is due -/

theorem Describes.books_attend (H : Describes base bound r a w) (id : String) :
    (w.attend id base).state.1.registry = w.state.1.registry ∧
      (w.attend id base).state.1.hardLinks = w.state.1.hardLinks ∧
      (w.attend id base).state.1.pins.length ≤ w.state.1.pins.length ∧
      ∀ k, (w.attend id base).cell? base k =
        (w.cell? base k).map fun c => if w.isDue then c.unpin else c := by
  have hor : w.isDue = true ↔ (w.state.1.observe w.moment).2.1 = true ∨
      (w.state.1.observe w.moment).2.2 = true := by
    rw [World.isDue, Bool.or_eq_true]
  by_cases hdue : w.isDue = true
  · obtain ⟨e, he⟩ := World.attend_eq_of_due id base (hor.mp hdue)
    rw [he]
    refine ⟨registry_observe _ _, hardLinks_observe _ _, Nat.zero_le _, fun k => ?_⟩
    simp only [hdue, if_true]
    exact H.look.cell?_collect k
  · rw [World.attend_eq_of_not_due id fun h => hdue (hor.mpr h), World.look, H.observe_eq]
    refine ⟨rfl, rfl, Nat.le_refl _, fun k => ?_⟩
    simp [hdue, World.cell?]

/-! ## Who is held -/

/-- The layer finds an instance alive if and only if somebody holds it. -/
theorem Describes.isAlive_eq (H : Describes base bound r a w) (n : Nat) :
    w.isAlive n = w.isHeld base n := by
  rw [Bool.eq_iff_iff, World.isAlive_iff H.tidy H.distinct]
  simp only [World.isHeld, Bool.or_eq_true, List.contains_iff_mem, List.any_eq_true,
    Bool.and_eq_true, decide_eq_true_eq]
  have hcells : (∃ k c, w.cell? base k = some c ∧ c.item.serial = n ∧ c.keeps = true) ↔
      ∃ e ∈ (w.ground.store base).entries, e.2.item.serial = n ∧
        e.2.lease.any (·.pinned) = true := by
    constructor
    · rintro ⟨k, c, hc, hserial, hkeeps⟩
      obtain ⟨n', e, hlease, -, -, -⟩ := H.cell k c hc
      rw [keeps_of_lease hlease] at hkeeps
      exact ⟨(k, c), H.distinct.mem_entries.mpr hc, hserial, by simp [hlease, hkeeps]⟩
    · rintro ⟨⟨k, c⟩, hmem, hserial, hpinned⟩
      have hc : w.cell? base k = some c := H.distinct.mem_entries.mp hmem
      obtain ⟨n', e, hlease, -, -, -⟩ := H.cell k c hc
      refine ⟨k, c, hc, hserial, ?_⟩
      rw [keeps_of_lease hlease]
      simpa [hlease] using hpinned
  rw [hcells]
  tauto

/-- A cell is abandoned if and only if nobody holds its instance. -/
theorem Describes.abandons_eq (H : Describes base bound r a w) {e : κ × Cell α}
    (he : e ∈ (w.ground.store base).entries) :
    w.state.1.abandons w.moment w.ground e.1 e.2 = !w.isHeld base e.2.item.serial := by
  have hc : w.cell? base e.1 = some e.2 := H.distinct.mem_entries.mp he
  obtain ⟨n, e', hlease, hregistered, -, -⟩ := H.cell e.1 e.2 hc
  have howns : w.state.1.owns e.1 e.2 = true := by
    simp [owns, hregistered, isUnder_of_lease hlease]
  have hkeeps := H.alive_of_cell e.1 e.2 hc
  rw [← H.isAlive_eq, abandons, howns, Bool.and_true]
  show (!e.2.keeps && !w.isAlive e.2.item.serial) = _
  cases hk : e.2.keeps with
  | true => simp [hkeeps hk]
  | false => simp

/-- The keys that are swept are those of the cells whose instance nobody holds. -/
theorem Describes.mem_sweptKeys_iff (H : Describes base bound r a w) {e : κ × Cell α}
    (he : e ∈ (w.ground.store base).entries) :
    e.1 ∈ w.sweptKeys base ↔ w.isHeld base e.2.item.serial = false := by
  have hc : w.cell? base e.1 = some e.2 := H.distinct.mem_entries.mp he
  rw [H.mem_sweptKeys, ← H.isAlive_eq]
  constructor
  · rintro ⟨c, hc', -, hdead⟩
    obtain rfl : e.2 = c := Option.some.inj (hc.symm.trans hc')
    exact hdead
  · intro hdead
    refine ⟨e.2, hc, ?_, hdead⟩
    rw [Bool.eq_false_iff] at hdead ⊢
    exact fun hkeeps => hdead (H.alive_of_cell e.1 e.2 hc hkeeps)

theorem Describes.length_sweptKeys (H : Describes base bound r a w) :
    (w.sweptKeys base).length =
      (w.ground.store base).entries.countP fun e => !w.isHeld base e.2.item.serial := by
  simp only [World.sweptKeys, Leasing.sweep, List.partition_eq_filter_filter, List.length_map]
  rw [← List.countP_eq_length_filter]
  exact List.countP_congr fun e he => by rw [H.abandons_eq he]

theorem Describes.entries_swept (H : Describes base bound r a w) (id : String) :
    ((w.swept id base).ground.store base).entries =
      (w.ground.store base).entries.filter fun e => w.isHeld base e.2.item.serial := by
  rw [World.store_swept]
  refine List.filter_congr fun e he => ?_
  have hiff := H.mem_sweptKeys_iff he
  cases hheld : w.isHeld base e.2.item.serial <;> simp [hiff, hheld]

/-! ## What comes after a sweep -/

theorem perform_put (id : String) (base : Nat) (w : World κ α) (k : κ) (item : Item α) :
    ((Call.put k item).perform id base w).2 = (w.purge id base).store base k item := rfl

/-- A lookup changes the queue of the instances that were read last, and who holds them. -/
theorem Describes.exists_get (H : Describes base bound r a w) (id : String) (k : κ) :
    ∃ links m, ((Call.get k).perform id base w).2 =
      { w.purge id base with
        state := ({ (w.purge id base).state.1 with hardLinks := links }, ()), moment := m } := by
  rcases H.get_eq id k with ⟨-, heq⟩ | ⟨c, -, -, heq⟩
  · simp only [Call.perform, heq]
    exact ⟨_, _, rfl⟩
  · simp only [Call.perform, heq]
    exact ⟨_, _, rfl⟩

/-! ## The registry and the cells -/

/-- A write stores its instance and leaves those of the other keys. -/
theorem World.item_store (w : World κ α) (k : κ) (item : Item α) (k' : κ) :
    ((w.store base k item).cell? base k').map (·.item) =
      if k' = k then some item else (w.cell? base k').map (·.item) := by
  obtain ⟨f, hf, hfind⟩ := unpins_track base (w.state.1.register k w.ground.issued) k
    w.ground.issued (w.stored base k item) k'
  have hitem : ∀ c, (f c).item = c.item := by
    intro c
    rcases hf c with h | h <;> rw [h]
    rfl
  have hstored : (w.stored base k item).store base = (w.ground.store base).insert k
      { item := item, lease := some ⟨w.ground.issued, true⟩ } := Ground.store_setStore_self ..
  rw [World.cell?, World.store, hfind, hstored, Option.map_map, Table.find?_insert]
  by_cases hk : k' = k
  · simp [hk, hitem]
  · simp [hk, hitem, World.cell?, Function.comp_def]

/-- Every lease in the registry is that of a cell and of one key, and the queue of leases is not
longer than the limit. -/
structure Tallied (base : Nat) (r : Retention) (w : World κ α) : Prop where
  stored : ∀ k n, w.state.1.registry.find? k = some n → (w.cell? base k).isSome = true
  unshared : ∀ k k' n, w.state.1.registry.find? k = some n →
    w.state.1.registry.find? k' = some n → k = k'
  pins : ∀ limit, r = .soft limit → w.state.1.pins.length ≤ limit

namespace Tallied

/-- What leaves the registry and the keys of the store alone. -/
theorem congr (h : Tallied base r w) (hregistry : w'.state.1.registry = w.state.1.registry)
    (hcells : ∀ k, (w'.cell? base k).isSome = (w.cell? base k).isSome)
    (hpins : w'.state.1.pins.length ≤ w.state.1.pins.length) : Tallied base r w' where
  stored k n hn := by
    rw [hcells]
    exact h.stored k n (hregistry ▸ hn)
  unshared k k' n hn hn' := h.unshared k k' n (hregistry ▸ hn) (hregistry ▸ hn')
  pins limit hlimit := Nat.le_trans hpins (h.pins limit hlimit)

/-- A sweep takes a cell and its lease away together: a lease that stays is that of a cell that
stays, and of this key alone. -/
theorem swept (h : Tallied base r w) (H : Describes base bound r a w) (id : String) :
    Tallied base r (w.swept id base) := by
  have hregistry : ∀ k n, (w.swept id base).state.1.registry.find? k = some n →
      w.state.1.registry.find? k = some n ∧ ((w.swept id base).cell? base k).isSome = true := by
    intro k n hn
    simp only [World.swept, Leasing.sweep, List.partition_eq_filter_filter] at hn
    rw [H.registry_distinct.find?_filter, Option.filter_eq_some_iff,
      Std.HashSet.contains_ofList, List.contains_iff_mem, List.mem_filterMap] at hn
    obtain ⟨hn, e, hkept, hlease⟩ := hn
    obtain ⟨he, hkept⟩ := List.mem_filter.mp hkept
    have hc : w.cell? base e.1 = some e.2 := H.distinct.mem_entries.mp he
    obtain ⟨n', _, hlease', hregistered, -, -⟩ := H.cell e.1 e.2 hc
    obtain rfl : n' = n := by simpa [hlease'] using hlease
    obtain rfl := h.unshared k e.1 n' hn hregistered
    have hstays : e.1 ∉ w.sweptKeys base := by
      rw [H.mem_sweptKeys_iff he]
      simpa [H.abandons_eq he] using hkept
    exact ⟨hn, by rw [(World.cell?_swept id).mpr ⟨hstays, hc⟩]; rfl⟩
  exact {
    stored := fun k n hn => (hregistry k n hn).2
    unshared := fun k k' n hn hn' => h.unshared k k' n (hregistry k n hn).1 (hregistry k' n hn').1
    pins := h.pins }

theorem attend (h : Tallied base r w) (H : Describes base bound r a w) (id : String) :
    Tallied base r (w.attend id base) := by
  obtain ⟨hregistry, -, hpins, hcells⟩ := H.books_attend id
  exact h.congr hregistry (fun k => by rw [hcells, Option.isSome_map]) hpins

theorem sweep (h : Tallied base r w) (H : Describes base bound r a w) (id : String) :
    Tallied base r (w.sweep id base) := by
  have hswept := h.swept H id
  rcases World.sweep_eq id base w with he | ⟨e, he⟩
  · rw [he]
    exact hswept
  · rw [he]
    exact hswept.congr rfl (fun _ => rfl) (Nat.le_refl _)

/-- What an operation does first. -/
theorem purge (h : Tallied base r w) (H : Describes base bound r a w) (id : String) :
    Tallied base r (w.purge id base) :=
  (h.attend H id).sweep (H.attend id) id

theorem store (h : Tallied base r w) (H : Describes base bound r a w) (k : κ) (item : Item α) :
    Tallied base r (w.store base k item) := by
  have hregistry : (w.store base k item).state.1.registry =
      w.state.1.registry.insert k w.ground.issued := by
    rw [World.store, track]
    split <;> rfl
  have hissued : ∀ k', w.state.1.registry.find? k' ≠ some w.ground.issued := by
    intro k' hn
    exact Nat.lt_irrefl _ (H.registered k' _ hn)
  refine ⟨?_, ?_, ?_⟩
  · intro k' n hn
    rw [hregistry, Table.find?_insert] at hn
    rw [← Option.isSome_map, World.item_store]
    by_cases hk : k' = k
    · simp [hk]
    · rw [if_neg hk] at hn
      rw [if_neg hk, Option.isSome_map]
      exact h.stored k' n hn
  · intro k' k'' n hn hn'
    rw [hregistry, Table.find?_insert] at hn hn'
    by_cases hk : k' = k <;> by_cases hk' : k'' = k
    · rw [hk, hk']
    · rw [if_pos hk] at hn
      rw [if_neg hk'] at hn'
      exact absurd (hn'.trans hn.symm) (hissued k'')
    · rw [if_neg hk] at hn
      rw [if_pos hk'] at hn'
      exact absurd (hn.trans hn'.symm) (hissued k')
    · rw [if_neg hk] at hn
      rw [if_neg hk'] at hn'
      exact h.unshared k' k'' n hn hn'
  · intro limit hlimit
    subst hlimit
    rw [World.store_eq_of_soft H.retention]
    simp [World.queued]
    omega

theorem drop (h : Tallied base r w) (id : String) (k : κ) : Tallied base r (w.drop id base k) := by
  have hregistry : ∀ k' n, (w.drop id base k).state.1.registry.find? k' = some n →
      k' ≠ k ∧ w.state.1.registry.find? k' = some n := by
    intro k' n hn
    have hn' : (w.state.1.registry.erase k).find? k' = some n := hn
    rw [Table.find?_erase] at hn'
    by_cases hk : k' = k
    · simp [hk] at hn'
    · exact ⟨hk, by simpa [hk] using hn'⟩
  refine ⟨?_, ?_, h.pins⟩
  · intro k' n hn
    obtain ⟨hk, hn⟩ := hregistry k' n hn
    rw [World.cell?_drop, if_neg hk]
    exact h.stored k' n hn
  · intro k' k'' n hn hn'
    exact h.unshared k' k'' n (hregistry k' n hn).2 (hregistry k'' n hn').2

theorem clear (w : World κ α) : Tallied base r (w.clear base) :=
  ⟨fun _ _ hn => (by cases hn), fun _ _ _ hn => (by cases hn), fun _ _ => Nat.zero_le _⟩

theorem perform (h : Tallied base r w) (H : Describes base bound r a w) (id : String)
    (c : Call κ α) : Tallied base r (c.perform id base w).2 := by
  have hpurge := h.purge H id
  cases c with
  | put k item =>
    rw [perform_put]
    exact hpurge.store (H.purge id).1 k item
  | get k =>
    obtain ⟨links, m, heq⟩ := H.exists_get id k
    rw [heq]
    exact hpurge.congr rfl (fun _ => rfl) (Nat.le_refl _)
  | remove k =>
    obtain ⟨serials, -, heq⟩ := H.remove_eq id k
    have hholding : Tallied base r
        { w.purge id base with moment := (w.purge id base).moment.holding serials } :=
      hpurge.congr rfl (fun _ => rfl) (Nat.le_refl _)
    rw [heq]
    exact hholding.drop id k
  | clear => exact clear w
  | size => exact hpurge
  | purge => exact hpurge
  | collect =>
    refine h.congr rfl (fun k => ?_) (Nat.zero_le _)
    exact (congrArg Option.isSome (H.cell?_collect k)).trans Option.isSome_map
  | raise => exact h.congr rfl (fun _ => rfl) (Nat.le_refl _)

end Tallied

/-! ## The books agree -/

/-- The cells that are pinned have their leases in the queue, each one another lease. -/
theorem Describes.pinned_le {limit : Nat} (H : Describes base bound (.soft limit) a w) :
    w.pinned base ≤ w.state.1.pins.length := by
  let p : κ × Cell α → Bool := fun e => e.2.lease.any (·.pinned)
  let lease : κ × Cell α → κ × Nat := fun e => (e.1, (e.2.lease.map (·.serial)).getD 0)
  have hnodup : (((w.ground.store base).entries.filter p).map lease).Nodup := by
    apply List.Nodup.of_map Prod.fst
    rw [List.map_map]
    exact H.distinct.filter p
  have hqueued : ((w.ground.store base).entries.filter p).map lease ⊆ w.state.1.pins := by
    intro q hq
    obtain ⟨⟨k, c⟩, he, rfl⟩ := List.mem_map.mp hq
    obtain ⟨he, hpinned⟩ := List.mem_filter.mp he
    have hc : w.cell? base k = some c := H.distinct.mem_entries.mp he
    obtain ⟨n, e, hlease, -, hentry, -⟩ := H.cell k c hc
    have hpinned : e.isPinned (.soft limit) = true := by simpa [p, hlease] using hpinned
    rw [hpinned] at hlease
    obtain ⟨before, behind, hsplit, -⟩ := H.followed limit rfl k c n e hc hlease hentry
    simp [lease, hlease, hsplit]
  calc w.pinned base = (((w.ground.store base).entries.filter p).map lease).length := by
        rw [List.length_map, ← List.countP_eq_length_filter]
        rfl
    _ ≤ w.state.1.pins.length := (List.subperm_of_subset hnodup hqueued).length_le

theorem Describes.inOrder (H : Describes base bound r a w) (h : Tallied base r w) :
    InOrder base r w := by
  have hlease : ∀ k n, w.state.1.registry.find? k = some n →
      ∃ item pinned, (w.ground.store base).find? k = some ⟨item, some ⟨n, pinned⟩⟩ := by
    intro k n hn
    obtain ⟨⟨item, lease⟩, hc⟩ := Option.isSome_iff_exists.mp (h.stored k n hn)
    obtain ⟨n', e, hlease, hregistered, -, -⟩ := H.cell k _ hc
    obtain rfl := Option.some.inj (hn.symm.trans hregistered)
    exact ⟨item, e.isPinned r, hlease ▸ hc⟩
  exact {
    registry := H.registry_distinct
    store := H.distinct
    keys := by
      intro k
      rw [Table.contains, Table.contains, Bool.eq_iff_iff, Option.isSome_iff_exists,
        Option.isSome_iff_exists]
      constructor
      · rintro ⟨n, hn⟩
        obtain ⟨item, pinned, hc⟩ := hlease k n hn
        exact ⟨_, hc⟩
      · rintro ⟨c, hc⟩
        obtain ⟨n, -, -, hregistered, -, -⟩ := H.cell k c hc
        exact ⟨n, hregistered⟩
    lease := hlease
    unshared := h.unshared
    hardLinks := by
      rw [H.hardLinks, H.hardBound, List.length_reverse]
      exact List.length_take_le ..
    pins := h.pins
    queued := by
      intro limit hlimit k item n hc
      obtain ⟨-, e, -, -, hentry, -⟩ := H.cell k _ hc
      obtain ⟨before, behind, hsplit, -⟩ := H.followed limit hlimit k _ n e hc rfl hentry
      simp [hsplit]
    pinned := by
      intro limit hlimit
      subst hlimit
      exact Nat.le_trans H.pinned_le (h.pins limit rfl) }

theorem Describes.relieves (H : Describes base bound r a w) : Relieves base w where
  count := by
    refine List.countP_congr fun e he => ?_
    have hc : w.cell? base e.1 = some e.2 := H.distinct.mem_entries.mp he
    obtain ⟨n, _, hlease, hregistered, -, -⟩ := H.cell e.1 e.2 hc
    simp [owns, hregistered, isUnder_of_lease hlease]
  pinned := by
    rw [World.pinned, List.countP_eq_zero]
    intro e he hpinned
    have hc : (w.collect base).cell? base e.1 = some e.2 := H.collect.distinct.mem_entries.mp he
    obtain ⟨n, e', hlease, -, hentry, -⟩ := H.collect.cell e.1 e.2 hc
    obtain ⟨e'', -, rfl⟩ := Option.map_eq_some_iff.mp hentry
    simp [hlease] at hpinned
  cell := H.cell?_collect

/-! ## What a sweep does -/

theorem Describes.entries_sweep (H : Describes base bound r a w) (id : String) :
    ((w.sweep id base).ground.store base).entries =
      (w.ground.store base).entries.filter fun e => w.isHeld base e.2.item.serial := by
  rcases World.sweep_eq id base w with he | ⟨e, he⟩
  · rw [he]
    exact H.entries_swept id
  · rw [he]
    exact H.entries_swept id

theorem Describes.item_sweep (H : Describes base bound r a w) (id : String) (k : κ) :
    ((w.sweep id base).cell? base k).map (·.item) =
      ((w.cell? base k).map (·.item)).filter fun i => w.isHeld base i.serial := by
  have hcells : (w.sweep id base).ground.store base =
      ⟨(w.ground.store base).entries.filter fun e => w.isHeld base e.2.item.serial⟩ :=
    congrArg Table.mk (H.entries_sweep id)
  rw [World.cell?, hcells, H.distinct.find?_filter, ← World.cell?]
  cases w.cell? base k with
  | none => rfl
  | some c => cases hheld : w.isHeld base c.item.serial <;> simp [Option.filter, hheld]

theorem Describes.sweeps (H : Describes base bound r a w) (id : String) : Sweeps id base w := by
  obtain ⟨-, hhardLinks, -, hcells⟩ := H.books_attend id
  have hattend := H.attend id
  have hentries := hattend.entries_sweep id
  have hitem := hattend.item_sweep id
  exact {
    attend := hcells
    hardLinks := hhardLinks
    entries := hentries
    purge := hattend.length_sweptKeys
    size := by
      refine (congrArg List.length hentries).trans ?_
      rw [List.countP_eq_length_filter]
    call := by
      intro c hsweeps k haims
      cases c with
      | put k' item =>
        have hk : k ≠ k' := fun h => by simp [Call.aims, h] at haims
        rw [perform_put, World.item_store, if_neg hk]
        exact hitem k
      | get k' =>
        obtain ⟨links, m, heq⟩ := H.exists_get id k'
        rw [heq]
        exact hitem k
      | remove k' =>
        have hk : k ≠ k' := fun h => by simp [Call.aims, h] at haims
        obtain ⟨serials, -, heq⟩ := H.remove_eq id k'
        rw [heq, World.cell?_drop, if_neg hk]
        exact hitem k
      | size => exact hitem k
      | purge => exact hitem k
      | clear => cases hsweeps
      | collect => cases hsweeps
      | raise => cases hsweeps }

/-! ## Runs -/

theorem Tended.describes {l₀ : Moment → Leasing κ} (hnew : ∀ m, IsNew r bound (l₀ m) m)
    (h : Tended id base l₀ w) : ∃ a n, Describes base n r a w ∧ Tallied base r w := by
  induction h with
  | start m₀ g₀ htidy hempty hknown =>
    have hrun : Run id base l₀ [] _ := .start m₀ g₀ htidy hempty hknown
    refine ⟨_, _, hrun.describes hnew, ?_, ?_, ?_⟩
    · intro k n hn
      rw [(hnew m₀).registry] at hn
      cases hn
    · intro k k' n hn
      rw [(hnew m₀).registry] at hn
      cases hn
    · intro limit _
      rw [(hnew m₀).pins]
      exact Nat.zero_le limit
  | call c _ hfair ih =>
    obtain ⟨a, n, H, h⟩ := ih
    exact ⟨_, n, H.perform id c hfair, h.perform H id c⟩
  | release k _ ih => exact ih
  | rebound n _ ih =>
    obtain ⟨a, n', H, h⟩ := ih
    exact ⟨_, n, H.rebound n, h.congr rfl (fun _ => rfl) (Nat.le_refl _)⟩
  | outside _ houtside ih =>
    obtain ⟨a, n, H, h⟩ := ih
    have hcell : ∀ k, World.cell? base _ k = World.cell? base _ k := fun k =>
      congrArg (Table.find? · k) houtside.store
    have hstate := houtside.state
    exact ⟨a, n, H.outside houtside,
      h.congr (by rw [hstate]) (fun k => by rw [hcell]) (Nat.le_of_eq (by rw [hstate]))⟩

/-- For every soft and every weak layer over a base store, made with any bounds: whatever is called,
and whatever bound the queue of the instances that were read last is given in between, after every
operation the books agree, a collection counts and unpins the cells that are pinned, and a sweep
removes the cells whose instance nobody holds, and no others. -/
theorem Tended.books_agree {n : Nat} {wiring : Wiring} {l₀ : Moment → Leasing κ}
    (hl₀ : l₀ = (fun m => Layer.initial κ wiring m (.soft bound n)) ∧ r = .soft n ∨
      l₀ = (fun m => Layer.initial κ wiring m (.weak bound n)) ∧ r = .weak n 0)
    (h : Tended id base l₀ w) : InOrder base r w ∧ Relieves base w ∧ Sweeps id base w := by
  obtain ⟨a, n', H, htallied⟩ := h.describes (isNew_initial hl₀)
  exact ⟨H.inOrder htallied, H.relieves, H.sweeps id⟩

/-- A soft layer whose caller has let go what it wrote: the lease is pinned, so a collection would
count one and a sweep would count none; when the signal was raised, a sweep counts one. -/
theorem pinned_until_raised :
    let l₀ : Moment → Leasing Nat := fun m => Layer.initial Nat {} m (.soft 1 1)
    let g : Ground Nat Nat :=
      { stores := ⟨[(0, ⟨[(1, { item := ⟨0, .plain 10⟩, lease := some ⟨1, true⟩ })]⟩)]⟩, issued := 2 }
    let l : Leasing Nat := { l₀ {} with hardBound := 0, registry := ⟨[(1, 1)]⟩, pins := [(1, 1)] }
    let w : World Nat Nat := ⟨(l, ()), g, {}⟩
    let w' := ((Call.raise : Call Nat Nat).perform "users" 0 w).2
    Tended "users" 0 l₀ w ∧ InOrder 0 (.soft 1) w ∧
      (Leasing.collect 0 w.state.1 w.ground).2.2 = 1 ∧
      (Leasing.purge (Cache.bare "users" 0) w.moment w.state w.ground).answer = 0 ∧
      (Leasing.purge (Cache.bare "users" 0) w'.moment w'.state w'.ground).answer = 1 := by
  intro l₀ g l w w'
  have hrun : Tended "users" 0 l₀ w := by
    have hstart : Tended "users" 0 l₀ (⟨(l₀ { held := fun n => decide (n = 0) }, ()),
        { issued := 1 }, { held := fun n => decide (n = 0) }⟩ : World Nat Nat) := by
      refine .start _ { issued := 1 } List.nodup_nil rfl ?_
      rintro n (hn | hn)
      · have hn : n = 0 := of_decide_eq_true hn
        exact hn ▸ Nat.one_pos
      · cases hn
    have hput := (hstart.call (.put 1 ⟨0, .plain 10⟩) rfl).rebound 0
    refine hput.outside ⟨rfl, List.nodup_singleton 0, rfl, Nat.le_refl _, rfl, ?_⟩
    rintro n (hn | hn)
    · cases hn
    · rw [show w.ground.keptElsewhere 0 n = false from rfl] at hn
      cases hn
  have hraised : Tended "users" 0 l₀ w' := hrun.call .raise trivial
  obtain ⟨horder, hrelieves, hsweeps⟩ := hrun.books_agree (.inl ⟨rfl, rfl⟩)
  obtain ⟨-, -, hsweeps'⟩ := hraised.books_agree (.inl ⟨rfl, rfl⟩)
  exact ⟨hrun, horder, hrelieves.count, hsweeps.purge, hsweeps'.purge⟩

end LayeredCache.Leasing
