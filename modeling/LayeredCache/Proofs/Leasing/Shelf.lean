import LayeredCache.Proofs.Leasing.Pins

/-!
# Shelves

A reclaiming layer over a base store works on a shelf: its own state and the cells. A cell whose
instance nobody holds stays until the next sweep, and which of them are still there depends on when
the sweeps came. So two shelves may differ in such cells and in their leases and still be the same
to every operation, since each one starts with a purge.

A shelf is restricted to instances by leaving out the other cells, as far as they keep nothing, and
their leases; a sweep restricts it to the instances that are alive. Leaving out cells before a purge
that would sweep them makes no difference to the purge, and two removals at the same moment may
change places, up to the next purge.

## Main definitions

* `Shelf.restrict` — a shelf without the cells that keep nothing and whose instance is left out.
* `Shelf.purge`, `Shelf.remove` — what the operations do to a shelf.
* `Shelf.Owned` — every cell is stored under the lease of its key.
* `Shelf.Settles` — shelves that are the same after a sweep.

## Main statements

* `Shelf.purge_restrict` — cells that would be swept make no difference to a purge.
* `Shelf.settles_swap` — removals may change places.
* `Leasing.shelf_purge`, `Leasing.shelf_remove` — what the operations of the layer do to its shelf.
-/

namespace LayeredCache

variable {κ α : Type}

/-- The state of a reclaiming layer and the cells below it. -/
structure Shelf (κ α : Type) where
  leasing : Leasing κ
  cells : Table κ (Cell α)

namespace Shelf

/-- Whether somebody holds an instance: the layer, a cell of the shelf, or somebody outside. -/
def alive (x : Shelf κ α) (outside : Nat → Bool) (n : Nat) : Bool :=
  x.leasing.hardLinks.contains n || outside n ||
    x.cells.entries.any fun e => decide (e.2.item.serial = n) && e.2.keeps

/-- Whether a cell stays when the shelf is restricted to the instances `p`. -/
def stays (p : Nat → Bool) (e : κ × Cell α) : Bool := e.2.keeps || p e.2.item.serial

/-- Forgets the leases of cells that are not among those given. -/
def leasesOf (cells : List (κ × Cell α)) (l : Leasing κ) : Leasing κ :=
  { l with registry := ⟨l.registry.entries.filter fun r => cells.any fun e => e.2.isUnder r.2⟩ }

/-- The shelf restricted to the instances `p`: without cells that keep nothing of other instances,
and without their leases. -/
def restrict (p : Nat → Bool) (x : Shelf κ α) : Shelf κ α :=
  ⟨leasesOf (x.cells.entries.filter (stays p)) x.leasing, ⟨x.cells.entries.filter (stays p)⟩⟩

/-- The shelf with every lease unpinned. -/
def unpinned (x : Shelf κ α) : Shelf κ α :=
  ⟨x.leasing.forgetPins, ⟨x.cells.entries.map fun e => (e.1, e.2.unpin)⟩⟩

/-- Whether a collection is due. -/
def isDue (m : Moment) (x : Shelf κ α) : Bool :=
  (x.leasing.observe m).2.1 || (x.leasing.observe m).2.2

/-- The shelf after a collection if one is due. -/
def attend (m : Moment) (x : Shelf κ α) : Shelf κ α :=
  if x.isDue m then unpinned ⟨(x.leasing.observe m).1, x.cells⟩
  else ⟨(x.leasing.observe m).1, x.cells⟩

/-- What a collection tells if one is due. -/
def tidings (id : String) (m : Moment) (x : Shelf κ α) : List (Event κ) :=
  if x.isDue m then
    [.collected id (x.leasing.observe m).2.1 (x.cells.entries.countP fun e => e.2.keeps)]
  else []

/-- The shelf restricted to the instances that somebody holds. -/
def swept (outside : Nat → Bool) (x : Shelf κ α) : Shelf κ α := x.restrict (x.alive outside)

/-- The shelf after a purge. -/
def purge (m : Moment) (outside : Nat → Bool) (x : Shelf κ α) : Shelf κ α :=
  (x.attend m).swept outside

/-! ## Restricting a shelf -/

section Restrict

variable {p q : Nat → Bool} {outside : Nat → Bool} {m : Moment} {x x' : Shelf κ α}

theorem stays_of_imp (h : ∀ n, p n = true → q n = true) {e : κ × Cell α}
    (he : stays p e = true) : stays q e = true := by
  simp only [stays, Bool.or_eq_true] at he ⊢
  exact he.imp_right (h _)

theorem stays_of_unpin (h : ∀ n, p n = true → q n = true) {e : κ × Cell α}
    (he : stays p (e.1, e.2.unpin) = true) : stays q e = true := by
  simp only [stays, Bool.or_eq_true] at he ⊢
  refine he.imp ?_ (h _)
  obtain ⟨_, _, _ | l⟩ := e
  · exact id
  · exact fun hpinned => (by cases hpinned)

/-- Leaving out entries that are left out anyway makes no difference. -/
theorem filter_filter_of_imp {β : Type} {l : List β} {a b : β → Bool}
    (h : ∀ e ∈ l, a e = true → b e = true) : (l.filter b).filter a = l.filter a := by
  rw [List.filter_filter]
  refine List.filter_congr fun e he => ?_
  cases ha : a e with
  | false => rfl
  | true => simp [h e he ha]

theorem leasesOf_leasesOf {cells cells' : List (κ × Cell α)} (l : Leasing κ)
    (h : ∀ n, (cells.any fun e => e.2.isUnder n) = true →
      (cells'.any fun e => e.2.isUnder n) = true) :
    leasesOf cells (leasesOf cells' l) = leasesOf cells l := by
  simp only [leasesOf]
  rw [filter_filter_of_imp fun r _ => h r.2]

theorem restrict_restrict (h : ∀ n, p n = true → q n = true) :
    (x.restrict q).restrict p = x.restrict p := by
  have hcells : (x.cells.entries.filter (stays q)).filter (stays p) =
      x.cells.entries.filter (stays p) :=
    filter_filter_of_imp fun e _ => stays_of_imp h
  have hleases (n : Nat) :
      ((x.cells.entries.filter (stays p)).any fun e => e.2.isUnder n) = true →
        ((x.cells.entries.filter (stays q)).any fun e => e.2.isUnder n) = true := by
    simp only [List.any_eq_true, List.mem_filter]
    rintro ⟨e, ⟨he, hstays⟩, hn⟩
    exact ⟨e, ⟨he, stays_of_imp h hstays⟩, hn⟩
  simp only [restrict, hcells, leasesOf_leasesOf _ hleases]

/-- A shelf is restricted by what is said of the instances of its cells. -/
theorem restrict_congr (h : ∀ e ∈ x.cells.entries, p e.2.item.serial = q e.2.item.serial) :
    x.restrict p = x.restrict q := by
  have hcells : x.cells.entries.filter (stays p) = x.cells.entries.filter (stays q) :=
    List.filter_congr fun e he => by rw [stays, stays, h e he]
  simp only [restrict, hcells]

theorem alive_mono {outside' : Nat → Bool} (h : ∀ n, outside n = true → outside' n = true) {n : Nat}
    (hn : x.alive outside n = true) : x.alive outside' n = true := by
  simp only [alive, Bool.or_eq_true] at hn ⊢
  exact hn.imp_left (Or.imp_right (h n))

/-- The cells that keep an instance stay. -/
theorem alive_restrict (q : Nat → Bool) (x : Shelf κ α) :
    (x.restrict q).alive outside = x.alive outside := by
  funext n
  simp only [alive, restrict, leasesOf, List.any_filter]
  congr 1
  refine congrArg (x.cells.entries.any ·) ?_
  funext e
  cases hkeeps : e.2.keeps <;> simp [stays, hkeeps]

end Restrict

/-! ## Collecting -/

section Collect

variable {p q : Nat → Bool} {outside : Nat → Bool} {m : Moment} {x x' : Shelf κ α}

/-- What a layer sees of a moment does not depend on its leases. -/
theorem observe_leasesOf (cells : List (κ × Cell α)) (l : Leasing κ) (m : Moment) :
    (leasesOf cells l).observe m = (leasesOf cells (l.observe m).1, (l.observe m).2) := by
  unfold Leasing.observe leasesOf
  cases l.retention with
  | soft limit => rfl
  | weak every operations =>
    simp only
    split <;> rfl

theorem isDue_restrict : (x.restrict q).isDue m = x.isDue m := by
  simp only [isDue, restrict, observe_leasesOf]

theorem tidings_restrict (id : String) : (x.restrict q).tidings id m = x.tidings id m := by
  have hcount : ((x.restrict q).cells.entries.countP fun e => e.2.keeps) =
      x.cells.entries.countP fun e => e.2.keeps := by
    simp only [restrict, List.countP_filter]
    refine congrArg (List.countP · x.cells.entries) ?_
    funext e
    cases hkeeps : e.2.keeps <;> simp [stays, hkeeps]
  simp only [tidings, isDue_restrict, hcount]
  simp only [restrict, observe_leasesOf]

/-- A collection lets instances go and makes none alive. -/
theorem alive_of_alive_attend {n : Nat} (h : (x.attend m).alive outside n = true) :
    x.alive outside n = true := by
  unfold attend at h
  split at h
  · simp only [alive, unpinned, Leasing.forgetPins, Leasing.hardLinks_observe, Bool.or_eq_true,
      List.any_map, List.any_eq_true, Function.comp, Bool.and_eq_true] at h ⊢
    refine h.imp_right ?_
    rintro ⟨⟨k, item, _ | l⟩, he, hserial, hkeeps⟩
    · exact ⟨_, he, hserial, hkeeps⟩
    · cases hkeeps
  · rw [alive, Leasing.hardLinks_observe] at h
    exact h

/-- Cells that are left out after a collection may be left out before. -/
theorem attend_restrict (h : ∀ n, p n = true → q n = true) :
    ((x.restrict q).attend m).restrict p = (x.attend m).restrict p := by
  simp only [attend, isDue_restrict]
  simp only [restrict, observe_leasesOf]
  split
  · have hcells : ((x.cells.entries.filter (stays q)).map fun e => (e.1, e.2.unpin)).filter
        (stays p) = (x.cells.entries.map fun e => (e.1, e.2.unpin)).filter (stays p) := by
      rw [List.filter_map, List.filter_map, filter_filter_of_imp]
      exact fun e _ => stays_of_unpin h
    simp only [unpinned, hcells]
    refine congrArg (Shelf.mk · _) (leasesOf_leasesOf (l := (x.leasing.observe m).1.forgetPins) ?_)
    intro n
    simp only [List.any_eq_true, List.mem_filter, List.mem_map]
    rintro ⟨_, ⟨⟨e, he, rfl⟩, hstays⟩, hn⟩
    exact ⟨e, ⟨he, stays_of_unpin h hstays⟩, by simpa using hn⟩
  · exact restrict_restrict (x := ⟨(x.leasing.observe m).1, x.cells⟩) h

theorem alive_attend_restrict (q : Nat → Bool) (x : Shelf κ α) :
    ((x.restrict q).attend m).alive outside = (x.attend m).alive outside := by
  simp only [attend, isDue_restrict]
  split
  · -- only a cell without a lease keeps its instance after a collection
    funext n
    simp only [restrict, observe_leasesOf]
    simp only [alive, unpinned, leasesOf, Leasing.forgetPins, List.any_map, List.any_filter]
    congr 1
    refine congrArg (x.cells.entries.any ·) ?_
    funext e
    obtain ⟨k, item, _ | l⟩ := e
    · simp [stays, Cell.keeps]
    · simp [Cell.keeps, Cell.unpin]
  · simp only [restrict, observe_leasesOf]
    exact alive_restrict q ⟨(x.leasing.observe m).1, x.cells⟩

/-- Cells that a purge would sweep make no difference to it. -/
theorem purge_restrict (h : ∀ n, x.alive outside n = true → q n = true) :
    (x.restrict q).purge m outside = x.purge m outside := by
  rw [purge, purge, swept, swept, alive_attend_restrict]
  exact attend_restrict fun n hn => h n (alive_of_alive_attend hn)

/-- After a purge the layer and its cells hold nothing that was not held before. -/
theorem alive_of_mem_purge {e : κ × Cell α} (he : e ∈ (x.purge m outside).cells.entries) :
    x.alive outside e.2.item.serial = true := by
  obtain ⟨hmem, hstays⟩ := List.mem_filter.mp he
  apply alive_of_alive_attend (m := m)
  simp only [stays, Bool.or_eq_true] at hstays
  refine hstays.elim (fun hkeeps => ?_) id
  simp only [alive, Bool.or_eq_true, List.any_eq_true, Bool.and_eq_true, decide_eq_true_eq]
  exact .inr ⟨e, hmem, rfl, hkeeps⟩

theorem hardLinks_purge : (x.purge m outside).leasing.hardLinks = x.leasing.hardLinks := by
  simp only [purge, swept, restrict, leasesOf, attend]
  split <;> exact Leasing.hardLinks_observe x.leasing m

/-- Shelves that are the same after a sweep. -/
def Settles (outside : Nat → Bool) (x x' : Shelf κ α) : Prop :=
  x'.swept outside = x.swept outside

theorem settles_swept (outside : Nat → Bool) (x : Shelf κ α) :
    x.Settles outside (x.swept outside) := by
  rw [Settles, swept, swept, alive_restrict, restrict_restrict fun _ h => h]

/-- What is alive is not swept, so it is the same. -/
theorem Settles.alive (h : x.Settles outside x') (outside' : Nat → Bool) :
    x'.alive outside' = x.alive outside' := by
  rw [← alive_restrict (x'.alive outside) x', ← alive_restrict (x.alive outside) x]
  exact congrArg (Shelf.alive · outside') h

/-- Shelves that are the same after a sweep are the same after a purge. -/
theorem Settles.purge (h : x.Settles outside x') :
    x'.purge m outside = x.purge m outside := by
  have hpurge (y : Shelf κ α) : (y.swept outside).purge m outside = y.purge m outside :=
    purge_restrict fun _ hn => hn
  rw [← hpurge x', h, hpurge]

end Collect

/-! ## Removing -/

section Remove

variable [DecidableEq κ] {p q : Nat → Bool} {outside : Nat → Bool} {m : Moment}
  {x x' : Shelf κ α}

/-- The shelf without a key. -/
def erase (k : κ) (x : Shelf κ α) : Shelf κ α := ⟨x.leasing.forget k, x.cells.erase k⟩

/-- The shelf after a removal. -/
def remove (m : Moment) (outside : Nat → Bool) (k : κ) (x : Shelf κ α) : Shelf κ α :=
  (x.purge m outside).erase k

theorem alive_of_alive_erase {k : κ} {n : Nat} (h : (x.erase k).alive outside n = true) :
    x.alive outside n = true := by
  simp only [alive, erase, Leasing.forget, Table.erase, Bool.or_eq_true, List.any_eq_true,
    List.mem_filter] at h ⊢
  refine h.imp_right ?_
  rintro ⟨e, he, hn⟩
  exact ⟨e, he.1, hn⟩

theorem erase_restrict (k : κ) (h : ∀ n, p n = true → q n = true) :
    ((x.restrict q).erase k).restrict p = (x.erase k).restrict p := by
  have hcells : ((x.cells.entries.filter (stays q)).filter fun e => e.1 ≠ k).filter (stays p) =
      (x.cells.entries.filter fun e => e.1 ≠ k).filter (stays p) := by
    rw [List.filter_comm _ (stays q), filter_filter_of_imp fun e _ => stays_of_imp h]
  simp only [restrict, erase, Table.erase, hcells]
  refine congrArg (Shelf.mk · _) ?_
  have hcomm (cells : List (κ × Cell α)) :
      (leasesOf cells x.leasing).forget k = leasesOf cells (x.leasing.forget k) := by
    simp only [leasesOf, Leasing.forget, Table.erase, List.filter_comm]
  rw [hcomm, leasesOf_leasesOf]
  intro n
  simp only [List.any_eq_true, List.mem_filter]
  rintro ⟨e, ⟨⟨he, -⟩, hstays⟩, hn⟩
  exact ⟨e, ⟨he, stays_of_imp h hstays⟩, hn⟩

theorem alive_erase_restrict (k : κ) (q : Nat → Bool) (x : Shelf κ α) :
    ((x.restrict q).erase k).alive outside = (x.erase k).alive outside := by
  have h : ((x.erase k).restrict q).alive outside = (x.erase k).alive outside :=
    alive_restrict q (x.erase k)
  rw [← h]
  funext n
  simp only [alive, restrict, erase, leasesOf, Leasing.forget, Table.erase, List.filter_comm]

/-- Erasing a key and collecting may change places. -/
theorem attend_erase (k : κ) (x : Shelf κ α) : (x.erase k).attend m = (x.attend m).erase k := by
  have hobserve : (x.leasing.forget k).observe m =
      ((x.leasing.observe m).1.forget k, (x.leasing.observe m).2) := by
    unfold Leasing.observe Leasing.forget
    cases x.leasing.retention with
    | soft limit => rfl
    | weak every operations =>
      simp only
      split <;> rfl
  have hdue : (x.erase k).isDue m = x.isDue m := by simp only [isDue, erase, hobserve]
  rw [attend, attend, hdue]
  cases x.isDue m with
  | true =>
    simp only [erase, hobserve, if_true, unpinned]
    simp only [Table.erase, List.filter_map]
    rfl
  | false =>
    simp only [erase, hobserve]
    rfl

theorem erase_comm (k k' : κ) (x : Shelf κ α) : (x.erase k).erase k' = (x.erase k').erase k := by
  simp only [erase, Leasing.forget, Table.erase, List.filter_comm]

theorem Settles.remove (h : x.Settles outside x') (k : κ) :
    x'.remove m outside k = x.remove m outside k := by
  rw [Shelf.remove, Shelf.remove, h.purge]

theorem Settles.erase (h : x.Settles outside x') (k : κ) :
    (x.erase k).Settles outside (x'.erase k) := by
  have hswept (y : Shelf κ α) :
      ((y.swept outside).erase k).swept outside = (y.erase k).swept outside := by
    rw [swept, swept, swept, alive_erase_restrict]
    exact erase_restrict k fun _ hn => alive_of_alive_erase hn
  rw [Settles, ← hswept x', h, hswept]

/-- A removal comes to a collection and to erasing the key, up to the next sweep. -/
theorem settles_remove (k : κ) (x : Shelf κ α) :
    ((x.attend m).erase k).Settles outside (x.remove m outside k) :=
  (settles_swept outside (x.attend m)).erase k

/-- Two removals at the same moment may change places, up to the next sweep. -/
theorem settles_swap (k k' : κ) (x : Shelf κ α) :
    ((x.remove m outside k).remove m outside k').Settles outside
      ((x.remove m outside k').remove m outside k) := by
  have htwice (a b : κ) : ((x.remove m outside a).remove m outside b).swept outside =
      ((((x.attend m).attend m).erase a).erase b).swept outside := by
    rw [(settles_remove a x).remove, ← attend_erase a (x.attend m)]
    exact settles_remove b _
  rw [Settles, htwice, htwice, erase_comm]

end Remove

/-! ## The leases of the cells -/

section Owned

variable [DecidableEq κ] {p : Nat → Bool} {outside : Nat → Bool} {m : Moment} {x : Shelf κ α}

/-- Every cell is stored under the lease of its key. -/
structure Owned (x : Shelf κ α) : Prop where
  registry : x.leasing.registry.Distinct
  cells : x.cells.Distinct
  owns : ∀ e ∈ x.cells.entries, x.leasing.owns e.1 e.2 = true

theorem exists_lease {l : Leasing κ} {k : κ} {c : Cell α} (h : l.owns k c = true) :
    ∃ n pinned, l.registry.find? k = some n ∧ c.lease = some ⟨n, pinned⟩ := by
  simp only [Leasing.owns] at h
  cases hn : l.registry.find? k with
  | none => simp [hn] at h
  | some n =>
    simp only [hn, Cell.isUnder] at h
    cases hlease : c.lease with
    | none => simp [hlease] at h
    | some lease =>
      obtain ⟨serial, pinned⟩ := lease
      simp only [hlease, decide_eq_true_eq] at h
      exact ⟨n, pinned, rfl, by rw [h]⟩

namespace Owned

/-- Cells may go, and leases may be unpinned. -/
theorem of_cells (h : x.Owned) {l : Leasing κ} {cells : Table κ (Cell α)}
    (hl : l.registry = x.leasing.registry) (hcells : cells.Distinct)
    (hmem : ∀ e ∈ cells.entries, ∃ c, (e.1, c) ∈ x.cells.entries ∧ (e.2 = c ∨ e.2 = c.unpin)) :
    Owned ⟨l, cells⟩ := by
  refine ⟨hl ▸ h.registry, hcells, fun e he => ?_⟩
  obtain ⟨c, hc, hsame⟩ := hmem e he
  have howns := h.owns _ hc
  simp only [Leasing.owns, hl] at howns ⊢
  rcases hsame with hsame | hsame <;> simpa [hsame] using howns

theorem attend (h : x.Owned) (m : Moment) : (x.attend m).Owned := by
  unfold Shelf.attend
  split
  · refine h.of_cells (Leasing.registry_observe _ m) (h.cells.map fun _ => rfl) fun e he => ?_
    obtain ⟨e, hmem, rfl⟩ := List.mem_map.mp he
    exact ⟨e.2, hmem, .inr rfl⟩
  · exact h.of_cells (Leasing.registry_observe _ m) h.cells fun e he => ⟨e.2, he, .inl rfl⟩

/-- The leases of the cells that stay are still registered. -/
theorem restrict (h : x.Owned) (p : Nat → Bool) : (x.restrict p).Owned := by
  refine ⟨h.registry.filter _, h.cells.filter _, fun e he => ?_⟩
  have howns := h.owns e (List.mem_of_mem_filter he)
  obtain ⟨n, pinned, hn, hlease⟩ := exists_lease howns
  have hunder : e.2.isUnder n = true := by simp [Cell.isUnder, hlease]
  simp only [Leasing.owns, Shelf.restrict, leasesOf]
  rw [h.registry.find?_filter, hn, Option.filter_some, if_pos]
  · exact hunder
  · exact List.any_eq_true.mpr ⟨e, he, hunder⟩

theorem erase (h : x.Owned) (k : κ) : (x.erase k).Owned := by
  refine ⟨h.registry.erase k, h.cells.erase k, fun e he => ?_⟩
  obtain ⟨hmem, hne⟩ := List.mem_filter.mp he
  have howns := h.owns e hmem
  simp only [Leasing.owns, Shelf.erase, Leasing.forget] at howns ⊢
  rwa [Table.find?_erase, if_neg (by simpa using hne)]

/-- A cell that is stored under a new lease is registered with it. -/
theorem write (h : x.Owned) (k : κ) (item : Item α) (n : Nat) :
    Owned ⟨x.leasing.register k n, x.cells.insert k ⟨item, some ⟨n, true⟩⟩⟩ := by
  refine ⟨h.registry.insert k n, h.cells.insert k _, fun e he => ?_⟩
  simp only [Leasing.owns, Leasing.register]
  rw [Table.find?_insert]
  rcases List.mem_cons.mp he with rfl | he
  · simp [Cell.isUnder]
  · obtain ⟨hmem, hne⟩ := List.mem_filter.mp he
    rw [if_neg (by simpa using hne)]
    exact h.owns e hmem

end Owned

end Owned

end Shelf

end LayeredCache
