import LayeredCache.Proofs.Recency.Accesses

/-!
# The slots of the index by recency

The index keeps its keys in slots that are linked, and uses free slots again before it makes new
ones. After any operations every slot is used or free: the links lead through the used ones, once
through each and forth and back alike, the table leads from each key to the slot that holds it, and
the free ones are listed. Since a slot is made only where none is free, there are exactly as many as
there were keys at the same time since all were dropped the last time. The keys along the links are
what plain operations on lists give.

## Main definitions

* `Recency.Act`, `Recency.after` — the operations, and the index after some of them.
* `Recency.Ranking` — a list of keys and what each operation does to it.
* `Recency.WellFormed` — what is said of the slots.
* `Recency.peak` — the greatest number of keys at the same time.

## Main statements

* `Holds.wellFormed` — an index without lost slots is well-formed.
* `Recency.after_isWellFormed` — the index after any operations is well-formed, refines the list of
  keys, accesses its slots alone, and makes no more of them than it has to.
-/

namespace LayeredCache.Recency

variable {κ : Type}

/-! ## Well-formed slots -/

/-- Following the links from a slot on visits the slots of a list, which hold its keys, and then
ends. -/
inductive Visits (r : Recency κ) : Option Nat → List (Nat × κ) → Prop where
  | done : Visits r none []
  | visit {i : Nat} {n : RecencyNode κ} {l : List (Nat × κ)} :
    r.node? i = some n → Visits r n.next l → Visits r (some i) ((i, n.key) :: l)

/-- The links lead from the head to the tail through the slots of `l`, which are the used ones. -/
structure WellFormed [DecidableEq κ] (r : Recency κ) (l : List (Nat × κ)) : Prop where
  visits : r.Visits r.head l
  tail : r.tail = l.getLast?.map (·.1)
  once : (l.map (·.1)).Nodup
  used : ∀ i, i ∈ l.map (·.1) ↔ (r.node? i).isSome
  /-- The links back are the links forth, reversed. -/
  inverse : ∀ i j n m, r.node? i = some n → r.node? j = some m →
    (n.next = some j ↔ m.prev = some i)
  /-- Only the head has no link back. -/
  front : ∀ i n, r.node? i = some n → (n.prev = none ↔ r.head = some i)
  /-- The table leads from a key to the slot that holds it, and has no other entries. -/
  table : ∀ k i, r.slots.find? k = some i ↔ (r.node? i).map (·.key) = some k
  size : r.size = l.length
  free_nodup : r.free.Nodup
  free : ∀ i, i ∈ r.free ↔ i < r.nodes.size ∧ r.node? i = none

/-- Every slot holds a tracked key or is listed as free. -/
def Full (r : Recency κ) : Prop := r.size + r.free.length = r.nodes.size

theorem Linked.visits {r : Recency κ} {p : Option Nat} {l : List (Nat × κ)}
    (h : Linked r.node? p l none) : r.Visits (l.head?.map (·.1)) l := by
  induction l generalizing p with
  | nil => exact .done
  | cons e l ih =>
    obtain ⟨hnode, hrest⟩ := h
    refine .visit hnode ?_
    rw [Option.or_none]
    exact ih hrest

section Chain

variable {r : Recency κ} {l : List (Nat × κ)} {i j : Nat} {n m : RecencyNode κ}

/-- A slot of the chain with its neighbours. -/
theorem Chained.neighbours (H : Chained r l) (hi : i ∈ l.map (·.1)) (hn : r.node? i = some n) :
    ∃ a b, l = a ++ (i, n.key) :: b ∧ n.prev = a.getLast?.map (·.1) ∧
      n.next = b.head?.map (·.1) := by
  obtain ⟨e, he, rfl⟩ := List.mem_map.mp hi
  obtain ⟨a, b, rfl⟩ := List.append_of_mem he
  obtain rfl := Option.some.inj (hn.symm.trans H.node?_eq)
  exact ⟨a, b, rfl, rfl, rfl⟩

theorem Chained.prev_of_next (H : Chained r l) (hi : i ∈ l.map (·.1)) (hn : r.node? i = some n)
    (hm : r.node? j = some m) (h : n.next = some j) : m.prev = some i := by
  obtain ⟨a, b, rfl, -, hnext⟩ := H.neighbours hi hn
  obtain ⟨e, he, rfl⟩ := Option.map_eq_some_iff.mp (hnext.symm.trans h)
  obtain ⟨b, rfl⟩ := List.head?_eq_some_iff.mp he
  rw [List.append_cons] at H
  rw [Option.some.inj (hm.symm.trans H.node?_eq)]
  simp

theorem Chained.next_of_prev (H : Chained r l) (hj : j ∈ l.map (·.1)) (hn : r.node? i = some n)
    (hm : r.node? j = some m) (h : m.prev = some i) : n.next = some j := by
  obtain ⟨a, b, rfl, hprev, -⟩ := H.neighbours hj hm
  obtain ⟨e, he, rfl⟩ := Option.map_eq_some_iff.mp (hprev.symm.trans h)
  obtain ⟨a, rfl⟩ := List.getLast?_eq_some_iff.mp he
  rw [List.append_assoc, List.singleton_append] at H
  rw [Option.some.inj (hn.symm.trans H.node?_eq)]
  rfl

theorem Chained.prev_eq_none_iff (H : Chained r l) (hi : i ∈ l.map (·.1))
    (hn : r.node? i = some n) : n.prev = none ↔ r.head = some i := by
  obtain ⟨a, b, rfl, hprev, -⟩ := H.neighbours hi hn
  rw [hprev, H.head]
  cases a with
  | nil => simp
  | cons e a =>
    have hne : e.1 ≠ i := by
      have hnodup := H.nodup
      rw [List.cons_append, List.map_cons, List.nodup_cons] at hnodup
      exact fun h => hnodup.1 (by simp [h])
    simp [List.getLast?_cons, hne]

theorem Holds.size_eq (H : Holds r l) : r.size = l.length := by
  rw [Valid.size_eq ⟨l, H⟩, H.order_eq, List.length_map]

/-- The slots of the chain and the free ones are all slots. -/
theorem Holds.perm_range (H : Holds r l) (hfull : r.Full) :
    (l.map (·.1) ++ r.free).Perm (List.range r.nodes.size) := by
  have hnodup : (l.map (·.1) ++ r.free).Nodup := by
    refine List.nodup_append.mpr ⟨H.nodup, H.free_nodup, ?_⟩
    rintro i hi _ hfree rfl
    have hused := H.isSome_node? hi
    rw [(H.free i hfree).2] at hused
    cases hused
  have hsub : l.map (·.1) ++ r.free ⊆ List.range r.nodes.size := by
    intro i hi
    rw [List.mem_range]
    exact (List.mem_append.mp hi).elim H.lt_size fun hfree => (H.free i hfree).1
  refine (List.subperm_of_subset hnodup hsub).perm_of_length_le ?_
  rw [List.length_range, List.length_append, List.length_map, ← H.size_eq]
  exact Nat.le_of_eq hfull.symm

/-- An index that stands for a list is well-formed if no slot is lost. -/
theorem Holds.wellFormed [DecidableEq κ] (H : Holds r l) (hfull : r.Full) : r.WellFormed l := by
  have hslot (i : Nat) : i ∈ l.map (·.1) ∨ i ∈ r.free ↔ i < r.nodes.size := by
    rw [← List.mem_append, (H.perm_range hfull).mem_iff, List.mem_range]
  have hused (i : Nat) : i ∈ l.map (·.1) ↔ (r.node? i).isSome := by
    refine ⟨H.isSome_node?, fun h => ?_⟩
    rcases (hslot i).mpr (lt_size_of_node? h) with hi | hfree
    · exact hi
    · rw [(H.free i hfree).2] at h
      cases h
  have hmem {i : Nat} {n : RecencyNode κ} (hn : r.node? i = some n) : i ∈ l.map (·.1) :=
    (hused i).mpr (by rw [hn]; rfl)
  refine ⟨?_, H.tail, H.nodup, hused, ?_, ?_, ?_, H.size_eq, H.free_nodup, ?_⟩
  · rw [H.head]
    exact H.linked.visits
  · intro i j n m hn hm
    exact ⟨H.prev_of_next (hmem hn) hn hm, H.next_of_prev (hmem hm) hn hm⟩
  · intro i n hn
    exact H.prev_eq_none_iff (hmem hn) hn
  · intro k i
    rw [H.find?_slots]
    refine ⟨H.key, fun h => ?_⟩
    obtain ⟨n, hn, rfl⟩ := Option.map_eq_some_iff.mp h
    obtain ⟨a, b, rfl, -⟩ := H.neighbours (hmem hn) hn
    simp
  · intro i
    refine ⟨H.free i, fun h => ?_⟩
    rcases (hslot i).mpr h.1 with hi | hfree
    · have hsome := H.isSome_node? hi
      rw [h.2] at hsome
      cases hsome
    · exact hfree

end Chain

/-! ## The number of slots -/

/-- `r'` has the slots of `r`, and new ones only for keys that are tracked in addition; all of them
are used or free. -/
structure Grows (r r' : Recency κ) : Prop where
  full : r'.Full
  slots : r'.nodes.size = max r.nodes.size r'.size

theorem Grows.of_le {r r' : Recency κ} (hfull : r'.Full) (hslots : r'.nodes.size = r.nodes.size) :
    Grows r r' := by
  refine ⟨hfull, ?_⟩
  rw [Full] at hfull
  omega

variable [DecidableEq κ] {r : Recency κ}

theorem sameKeys_touch {k : κ} {i : Nat} (hk : r.slots.find? k = some i) :
    SameKeys r (r.touch k) := by
  simp only [touch, hk]
  split
  · exact SameKeys.refl r
  · exact (sameKeys_unlink r i).trans (sameKeys_pushFront _ i)

/-- A key that was not tracked takes a free slot, or a new one if none is free. -/
theorem slots_touch {k : κ} (hk : r.slots.find? k = none) :
    (r.touch k).free = r.free.tail ∧
      (r.touch k).nodes.size = r.nodes.size + if r.free = [] then 1 else 0 := by
  have hsame := sameKeys_pushFront (r.allocate k).1 (r.allocate k).2
  simp only [touch, hk, hsame.free, hsame.size]
  cases hf : r.free <;> simp [allocate, hf]

theorem Valid.grows_touch (H : r.Valid) (hfull : r.Full) (k : κ) : Grows r (r.touch k) := by
  obtain ⟨H', horder, -⟩ := H.touch k
  have hsize := H.size_eq
  have hsize' := H'.size_eq
  have htracked := H.contains_iff (k := k)
  rw [horder, List.length_cons] at hsize'
  rw [Full] at hfull
  cases hk : r.slots.find? k with
  | some i =>
    have hmem : k ∈ r.order := htracked.mp (by rw [Table.contains, hk]; rfl)
    have hpos := List.length_pos_of_mem hmem
    have hsame := sameKeys_touch hk
    rw [List.length_erase_of_mem hmem] at hsize'
    refine Grows.of_le ?_ hsame.size
    rw [Full, hsame.free, hsame.size]
    omega
  | none =>
    have hmem : k ∉ r.order := fun h => by simpa [Table.contains, hk] using htracked.mpr h
    obtain ⟨hfree, hslots⟩ := slots_touch hk
    rw [List.erase_of_not_mem hmem] at hsize'
    cases hf : r.free with
    | nil =>
      simp only [hf, List.tail_nil, if_true] at hfree hslots
      simp only [hf, List.length_nil] at hfull
      constructor
      · rw [Full, hfree, List.length_nil]
        omega
      · omega
    | cons i free =>
      simp only [hf, List.tail_cons, reduceCtorEq, if_false] at hfree hslots
      simp only [hf, List.length_cons] at hfull
      refine Grows.of_le ?_ hslots
      rw [Full, hfree]
      omega

theorem Valid.grows_refresh (H : r.Valid) (hfull : r.Full) (k : κ) : Grows r (r.refresh k) := by
  unfold Recency.refresh
  split
  · exact H.grows_touch hfull k
  · exact Grows.of_le hfull rfl

theorem Valid.grows_forget (H : r.Valid) (hfull : r.Full) (k : κ) : Grows r (r.forget k) := by
  obtain ⟨H', horder, -⟩ := H.forget k
  have hsize := H.size_eq
  have hsize' := H'.size_eq
  have htracked := H.contains_iff (k := k)
  rw [horder] at hsize'
  cases hk : r.slots.find? k with
  | none =>
    have hsame : r.forget k = r := by simp [Recency.forget, hk]
    rw [hsame]
    exact Grows.of_le hfull rfl
  | some i =>
    have hmem : k ∈ r.order := htracked.mp (by rw [Table.contains, hk]; rfl)
    have hpos := List.length_pos_of_mem hmem
    have hsame := sameKeys_unlink { r with slots := r.slots.erase k } i
    have hfree : (r.forget k).free = i :: r.free := by simp [Recency.forget, hk, vacate, hsame.free]
    have hslots : (r.forget k).nodes.size = r.nodes.size := by
      simp [Recency.forget, hk, vacate, hsame.size]
    rw [List.length_erase_of_mem hmem] at hsize'
    rw [Full] at hfull
    refine Grows.of_le ?_ hslots
    rw [Full, hfree, hslots, List.length_cons]
    omega

/-- The slot of the key that is given up becomes free. -/
theorem slots_evictEldest (r : Recency κ) :
    r.evictEldest.1.nodes.size = r.nodes.size ∧
      r.evictEldest.1.free.length = r.free.length + r.evictEldest.2.toList.length := by
  unfold evictEldest
  split
  · simp
  · cases r.tail with
    | none => simp
    | some i =>
      have hsame := sameKeys_unlink r i
      simp only
      split <;> simp [vacate, hsame.size, hsame.free]

theorem Valid.grows_evictEldest (H : r.Valid) (hfull : r.Full) :
    Grows r r.evictEldest.1 := by
  obtain ⟨H', -, heldest, horder⟩ := H.evictEldest
  obtain ⟨hslots, hfree⟩ := slots_evictEldest r
  have hsize := H.size_eq
  have hsize' := H'.size_eq
  rw [Full] at hfull
  refine Grows.of_le ?_ hslots
  rw [Full, hfree, hslots, heldest, hsize', horder]
  by_cases hle : r.order.length ≤ r.capacity
  · simp only [if_pos hle, Option.toList_none, List.length_nil]
    omega
  · have hne : r.order ≠ [] := List.ne_nil_of_length_pos (by omega)
    have hpos := List.length_pos_iff.mpr hne
    simp only [if_neg hle, List.getLast?_eq_some_getLast hne, Option.toList_some,
      List.length_singleton, List.length_dropLast]
    omega

/-! ## Runs -/

/-- What can be done to an index. -/
inductive Act (κ : Type) where
  | touch (k : κ)
  | refresh (k : κ)
  | forget (k : κ)
  | evictEldest
  | clear
  | setCapacity (capacity : Nat)

/-- Does something to an index. -/
def step (r : Recency κ) : Act κ → Recency κ
  | .touch k => r.touch k
  | .refresh k => r.refresh k
  | .forget k => r.forget k
  | .evictEldest => r.evictEldest.1
  | .clear => r.clear
  | .setCapacity capacity => r.setCapacity capacity

/-- A new index after some operations, the latest one in front. -/
def after (capacity : Nat) : List (Act κ) → Recency κ
  | [] => ofCapacity capacity
  | act :: past => (after capacity past).step act

/-- Does something to an index with every access checked. -/
def Checked.step (r : Recency κ) : Act κ → Option (Recency κ)
  | .touch k => Checked.touch r k
  | .refresh k => Checked.refresh r k
  | .forget k => Checked.forget r k
  | .evictEldest => (Checked.evictEldest r).map (·.1)
  | .clear => some r.clear
  | .setCapacity capacity => some (r.setCapacity capacity)

/-- A new index after some operations with every access checked. -/
def Checked.after (capacity : Nat) : List (Act κ) → Option (Recency κ)
  | [] => some (ofCapacity capacity)
  | act :: past => (Checked.after capacity past).bind (Checked.step · act)

/-- Keys without repetition, the most recent one first. -/
structure Ranking (κ : Type) where
  /-- The number of keys above which the last one is given up. -/
  capacity : Nat
  keys : List κ := []

namespace Ranking

/-- The key that is given up, if there are more than the capacity. -/
def eldest? (t : Ranking κ) : Option κ :=
  if t.keys.length ≤ t.capacity then none else t.keys.getLast?

/-- What an operation does to the keys. -/
def step (t : Ranking κ) : Act κ → Ranking κ
  | .touch k => { t with keys := k :: t.keys.erase k }
  | .refresh k => if k ∈ t.keys then { t with keys := k :: t.keys.erase k } else t
  | .forget k => { t with keys := t.keys.erase k }
  | .evictEldest =>
    if t.keys.length ≤ t.capacity then t else { t with keys := t.keys.dropLast }
  | .clear => { t with keys := [] }
  | .setCapacity capacity => { t with capacity := capacity }

/-- No keys after some operations, the latest one in front. -/
def after (capacity : Nat) : List (Act κ) → Ranking κ
  | [] => { capacity := capacity }
  | act :: past => (after capacity past).step act

end Ranking

/-- The greatest number of keys that were tracked at the same time since all were dropped the last
time. -/
def peak (capacity : Nat) : List (Act κ) → Nat
  | [] => 0
  | .clear :: _ => 0
  | act :: past => max (peak capacity past) (Ranking.after capacity (act :: past)).keys.length

/-- What an operation keeps: the index stands for the keys, and no slot is lost. -/
structure Refines (r : Recency κ) (t : Ranking κ) : Prop where
  valid : r.Valid
  full : r.Full
  capacity : r.capacity = t.capacity
  order : r.order = t.keys

variable {t : Ranking κ}

omit [DecidableEq κ] in
theorem Refines.length_keys (H : Refines r t) : t.keys.length = r.size := by
  rw [← H.order, H.valid.size_eq]

/-- An operation does to the index what it does to the keys. -/
theorem Refines.step (H : Refines r t) (act : Act κ) : Refines (r.step act) (t.step act) := by
  obtain ⟨hvalid, hfull, hcapacity, horder⟩ := H
  cases act with
  | touch k =>
    obtain ⟨H', horder', hcapacity'⟩ := hvalid.touch k
    exact ⟨H', (hvalid.grows_touch hfull k).full, hcapacity'.trans hcapacity,
      by rw [Recency.step, horder', horder]; rfl⟩
  | refresh k =>
    obtain ⟨H', horder', hcapacity'⟩ := hvalid.refresh k
    refine ⟨H', (hvalid.grows_refresh hfull k).full, ?_, ?_⟩
    · simp only [Recency.step, Ranking.step, hcapacity', hcapacity]
      split <;> rfl
    · simp only [Recency.step, Ranking.step, horder', horder]
      split <;> rfl
  | forget k =>
    obtain ⟨H', horder', hcapacity'⟩ := hvalid.forget k
    exact ⟨H', (hvalid.grows_forget hfull k).full, hcapacity'.trans hcapacity,
      by rw [Recency.step, horder', horder]; rfl⟩
  | evictEldest =>
    obtain ⟨H', hcapacity', -, horder'⟩ := hvalid.evictEldest
    refine ⟨H', (hvalid.grows_evictEldest hfull).full, ?_, ?_⟩
    · simp only [Recency.step, Ranking.step, hcapacity', hcapacity]
      split <;> rfl
    · simp only [Recency.step, Ranking.step, horder', horder, hcapacity]
      split <;> rfl
  | clear => exact ⟨valid_clear r, rfl, hcapacity, rfl⟩
  | setCapacity capacity =>
    obtain ⟨H', horder'⟩ := hvalid.setCapacity capacity
    exact ⟨H', hfull, rfl, horder'.trans horder⟩

/-- No operation accesses anything but slots. -/
theorem Refines.checked_step (H : Refines r t) (act : Act κ) :
    Checked.step r act = some (r.step act) := by
  cases act with
  | touch k => exact Checked.touch_eq H.valid k
  | refresh k => exact Checked.refresh_eq H.valid k
  | forget k => exact Checked.forget_eq H.valid k
  | evictEldest => simp [Checked.step, Recency.step, Checked.evictEldest_eq H.valid]
  | clear => rfl
  | setCapacity capacity => rfl

/-- New slots are made for keys that are tracked in addition only. -/
theorem Refines.slots_step (H : Refines r t) (act : Act κ) (hact : act ≠ .clear) :
    (r.step act).nodes.size = max r.nodes.size (t.step act).keys.length := by
  rw [(H.step act).length_keys]
  obtain ⟨hvalid, hfull, -, -⟩ := H
  cases act with
  | touch k => exact (hvalid.grows_touch hfull k).slots
  | refresh k => exact (hvalid.grows_refresh hfull k).slots
  | forget k => exact (hvalid.grows_forget hfull k).slots
  | evictEldest => exact (hvalid.grows_evictEldest hfull).slots
  | clear => exact absurd rfl hact
  | setCapacity capacity =>
    have hgrows : Grows r (r.setCapacity capacity) := Grows.of_le hfull rfl
    exact hgrows.slots

theorem refines_after (capacity : Nat) (past : List (Act κ)) :
    Refines (after capacity past) (Ranking.after capacity past) := by
  induction past with
  | nil => exact ⟨valid_ofCapacity capacity, rfl, rfl, rfl⟩
  | cons act past ih => exact ih.step act

theorem checked_after (capacity : Nat) (past : List (Act κ)) :
    Checked.after capacity past = some (after capacity past) := by
  induction past with
  | nil => rfl
  | cons act past ih =>
    rw [Checked.after, ih, Option.bind_some]
    exact (refines_after capacity past).checked_step act

theorem size_nodes_after (capacity : Nat) (past : List (Act κ)) :
    (after capacity past).nodes.size = peak capacity past := by
  induction past with
  | nil => rfl
  | cons act past ih =>
    have hstep := (refines_after capacity past).slots_step act
    cases act with
    | clear => rfl
    | _ => rw [after, hstep (by simp), ih]; rfl

/-- A new index after any operations: the links lead once through each used slot and are reversed by
the links back, the table leads from the keys to the slots that hold them, and the free slots are
listed; the keys along the links are those of the list on which the same operations were done, and
the key that would be given up next is the one that the list gives up; no operation accessed
anything but slots; and there are as many slots as there were keys at the same time since all were
dropped the last time. -/
theorem after_isWellFormed (capacity : Nat) (past : List (Act κ)) :
    let r := after capacity past
    let t := Ranking.after capacity past
    (∃ l, r.WellFormed l ∧ l.map (·.2) = t.keys) ∧ r.evictEldest.2 = t.eldest? ∧
      Checked.after capacity past = some r ∧ r.nodes.size = peak capacity past := by
  intro r t
  have H : Refines r t := refines_after capacity past
  obtain ⟨l, hl⟩ := H.valid
  refine ⟨⟨l, hl.wellFormed H.full, ?_⟩, ?_, checked_after capacity past,
    size_nodes_after capacity past⟩
  · rw [← hl.order_eq, H.order]
  · rw [H.valid.evictEldest.2.2.1, H.order, H.capacity]
    rfl

-- the slot of the forgotten key is used again
example : (after 2 [.touch 3, .forget 1, .touch 2, .touch (1 : Nat)]).nodes.size = 2 := by decide

end LayeredCache.Recency
