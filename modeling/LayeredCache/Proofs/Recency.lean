import LayeredCache.Proofs.Table
import LayeredCache.Recency
import Mathlib.Data.List.Nodup
import Mathlib.Data.List.Perm.Basic

/-!
# The index of keys by recency is a list

The index keeps its order in links between numbered slots. `Holds` says that the links, the table of
slots and the free slots stand for one list of slots with their keys, the most recent one first.
Every operation of the index keeps such a list and does to its keys what its name says, so that
outside this file an index is its `order`.

## Main statements

* `Valid.touch`, `Valid.refresh`, `Valid.forget`, `Valid.evictEldest` — the operations as operations
  on `order`.
* `Valid.size_eq` — the number of tracked keys is the length of `order`.
-/

namespace LayeredCache.Recency

variable {κ : Type}

/-! ## Links between slots -/

/-- The nodes of the slots of `l` hold its keys and are linked in its order, with the slot `p`
before the first one and the slot `q` behind the last one. -/
def Linked (node : Nat → Option (RecencyNode κ)) :
    (p : Option Nat) → (l : List (Nat × κ)) → (q : Option Nat) → Prop
  | _, [], _ => True
  | p, e :: rest, q =>
    node e.1 = some ⟨e.2, p, (rest.head?.map (·.1)).or q⟩ ∧ Linked node (some e.1) rest q

theorem linked_append {node : Nat → Option (RecencyNode κ)} {p q : Option Nat}
    {a b : List (Nat × κ)} :
    Linked node p (a ++ b) q ↔
      Linked node p a ((b.head?.map (·.1)).or q) ∧
        Linked node ((a.getLast?.map (·.1)).or p) b q := by
  induction a generalizing p with
  | nil => simp [Linked]
  | cons e a ih =>
    rw [List.cons_append, Linked, Linked, ih, and_assoc]
    have hhead : ((a ++ b).head?.map (·.1)).or q =
        (a.head?.map (·.1)).or ((b.head?.map (·.1)).or q) := by
      cases a <;> simp
    have hlast : (a.getLast?.map (·.1)).or (some e.1) =
        ((e :: a).getLast?.map (·.1)).or p := by
      rw [List.getLast?_cons]
      cases a.getLast? <;> rfl
    rw [hhead, hlast]

/-- Only the nodes of the slots matter. -/
theorem Linked.congr {node node' : Nat → Option (RecencyNode κ)} {p q : Option Nat}
    {l : List (Nat × κ)} (h : Linked node p l q) (hn : ∀ e ∈ l, node' e.1 = node e.1) :
    Linked node' p l q := by
  induction l generalizing p with
  | nil => trivial
  | cons e l ih =>
    refine ⟨(hn e (by simp)).trans h.1, ih h.2 fun x hx => hn x (by simp [hx])⟩

theorem Linked.node_eq {node : Nat → Option (RecencyNode κ)} {p q : Option Nat}
    {l : List (Nat × κ)} (h : Linked node p l q) {e : Nat × κ} (he : e ∈ l) :
    (node e.1).map (·.key) = some e.2 := by
  induction l generalizing p with
  | nil => cases he
  | cons x l ih =>
    rcases List.mem_cons.mp he with rfl | he
    · rw [h.1]; rfl
    · exact ih h.2 he

/-- The last slot is led elsewhere by changing its node. -/
theorem Linked.set_next {node node' : Nat → Option (RecencyNode κ)} {p q q' : Option Nat}
    {a : List (Nat × κ)} {e : Nat × κ} (h : Linked node p (a ++ [e]) q)
    (hnodup : ((a ++ [e]).map (·.1)).Nodup)
    (he : node' e.1 = (node e.1).map fun x => { x with next := q' })
    (hn : ∀ i, i ≠ e.1 → node' i = node i) : Linked node' p (a ++ [e]) q' := by
  rw [linked_append] at h ⊢
  rw [List.map_append, List.nodup_append] at hnodup
  refine ⟨?_, ?_, trivial⟩
  · refine Linked.congr h.1 fun x hx => hn x.1 ?_
    intro hxe
    exact hnodup.2.2 x.1 (List.mem_map_of_mem hx) e.1 (by simp) hxe
  · rw [he, h.2.1]
    rfl

/-- The first slot is led elsewhere by changing its node. -/
theorem Linked.set_prev {node node' : Nat → Option (RecencyNode κ)} {p p' q : Option Nat}
    {e : Nat × κ} {b : List (Nat × κ)} (h : Linked node p (e :: b) q)
    (hnodup : ((e :: b).map (·.1)).Nodup)
    (he : node' e.1 = (node e.1).map fun x => { x with prev := p' })
    (hn : ∀ i, i ≠ e.1 → node' i = node i) : Linked node' p' (e :: b) q := by
  rw [List.map_cons, List.nodup_cons] at hnodup
  constructor
  · rw [he, h.1]
    rfl
  · refine Linked.congr h.2 fun x hx => hn x.1 ?_
    intro hxe
    exact hnodup.1 (hxe ▸ List.mem_map_of_mem hx)

/-! ## Nodes under the operations -/

theorem node?_updateNode (r : Recency κ) (i j : Nat) (f : RecencyNode κ → RecencyNode κ) :
    (r.updateNode i f).node? j = if j = i then (r.node? j).map f else r.node? j := by
  simp only [node?, updateNode, Array.getElem?_modify]
  by_cases h : i = j
  · subst h
    cases r.nodes[i]? <;> simp
  · simp [h, Ne.symm h]

theorem node?_vacate (r : Recency κ) (i j : Nat) :
    (r.vacate i).node? j = if j = i then none else r.node? j := by
  simp only [node?, vacate, Array.getElem?_setIfInBounds]
  by_cases h : i = j
  · subst h
    by_cases hi : i < r.nodes.size <;> simp [hi]
  · simp [h, Ne.symm h]

theorem lt_size_of_node? {r : Recency κ} {i : Nat} (h : (r.node? i).isSome) : i < r.nodes.size := by
  by_contra hlt
  have hnone : r.nodes[i]? = none := Array.getElem?_eq_none (by omega)
  simp [node?, hnone] at h

/-- What `unlink` and `pushFront` leave as it is: everything but the links and the ends. -/
structure SameKeys (r r' : Recency κ) : Prop where
  capacity : r'.capacity = r.capacity
  slots : r'.slots = r.slots
  free : r'.free = r.free
  size : r'.nodes.size = r.nodes.size
  key : ∀ i, (r'.node? i).map (·.key) = (r.node? i).map (·.key)

theorem SameKeys.refl (r : Recency κ) : SameKeys r r := ⟨rfl, rfl, rfl, rfl, fun _ => rfl⟩

theorem SameKeys.trans {r r' r'' : Recency κ} (h : SameKeys r r') (h' : SameKeys r' r'') :
    SameKeys r r'' :=
  ⟨h'.capacity.trans h.capacity, h'.slots.trans h.slots, h'.free.trans h.free,
    h'.size.trans h.size, fun i => (h'.key i).trans (h.key i)⟩

theorem SameKeys.ends (r : Recency κ) (head tail : Option Nat) :
    SameKeys r { r with head := head, tail := tail } := ⟨rfl, rfl, rfl, rfl, fun _ => rfl⟩

theorem SameKeys.updateNode (r : Recency κ) (i : Nat) {f : RecencyNode κ → RecencyNode κ}
    (hf : ∀ x, (f x).key = x.key) : SameKeys r (r.updateNode i f) := by
  refine ⟨rfl, rfl, rfl, by simp [Recency.updateNode], ?_⟩
  intro j
  rw [node?_updateNode]
  split
  · cases r.node? j <;> simp [hf]
  · rfl

theorem SameKeys.setNext (r : Recency κ) (i : Nat) (next : Option Nat) :
    SameKeys r (r.updateNode i fun x => { x with next := next }) :=
  SameKeys.updateNode r i fun _ => rfl

theorem SameKeys.setPrev (r : Recency κ) (i : Nat) (prev : Option Nat) :
    SameKeys r (r.updateNode i fun x => { x with prev := prev }) :=
  SameKeys.updateNode r i fun _ => rfl

theorem sameKeys_unlink (r : Recency κ) (i : Nat) : SameKeys r (r.unlink i) := by
  unfold unlink
  cases r.node? i with
  | none => exact SameKeys.refl r
  | some n =>
    obtain ⟨k, _ | p, _ | q⟩ := n
    · exact SameKeys.ends r none none
    · exact (SameKeys.ends r (some q) r.tail).trans (SameKeys.setPrev _ q none)
    · exact (SameKeys.setNext r p none).trans (SameKeys.ends _ r.head (some p))
    · exact (SameKeys.setNext r p (some q)).trans (SameKeys.setPrev _ q (some p))

theorem sameKeys_pushFront (r : Recency κ) (i : Nat) : SameKeys r (r.pushFront i) := by
  have h : SameKeys r (r.updateNode i fun x => { x with prev := none, next := r.head }) :=
    SameKeys.updateNode r i fun _ => rfl
  unfold pushFront
  cases hh : r.head with
  | none =>
    rw [hh] at h
    exact h.trans (SameKeys.ends _ _ _)
  | some j =>
    rw [hh] at h
    exact (h.trans (SameKeys.setPrev _ j (some i))).trans (SameKeys.ends _ _ _)

/-! ## The chain of slots -/

/-- The slots of `l`, from the head to the tail, are the chain of the index. -/
structure Chained (r : Recency κ) (l : List (Nat × κ)) : Prop where
  linked : Linked r.node? none l none
  head : r.head = l.head?.map (·.1)
  tail : r.tail = l.getLast?.map (·.1)
  nodup : (l.map (·.1)).Nodup

theorem Chained.key {r : Recency κ} {l : List (Nat × κ)} (H : Chained r l) {e : Nat × κ}
    (he : e ∈ l) : (r.node? e.1).map (·.key) = some e.2 := H.linked.node_eq he

/-- Taking a slot out joins its neighbours. -/
theorem Chained.unlink {r : Recency κ} {a b : List (Nat × κ)} {e : Nat × κ}
    (H : Chained r (a ++ e :: b)) : Chained (r.unlink e.1) (a ++ b) := by
  have hlinked := linked_append.mp H.linked
  have hnodup : ((a ++ b).map (·.1)).Nodup := by
    have hsub : (a ++ b).Sublist (a ++ e :: b) := (List.sublist_cons_self e b).append_left a
    exact (hsub.map _).nodup H.nodup
  have hab := hnodup
  rw [List.map_append, List.nodup_append] at hab
  obtain ⟨ha, he, hb⟩ := hlinked
  rw [Option.or_none] at he
  have hhead := H.head
  have htail := H.tail
  unfold Recency.unlink
  rcases List.eq_nil_or_concat a with rfl | ⟨a, x, rfl⟩
  · simp only [List.getLast?_nil, Option.map_none] at he
    rw [he]
    cases b with
    | nil => exact ⟨trivial, rfl, rfl, List.nodup_nil⟩
    | cons y b =>
      refine ⟨?_, rfl, ?_, hnodup⟩
      · refine hb.set_prev hnodup ?_ ?_
        · exact (node?_updateNode _ _ _ _).trans (if_pos rfl)
        · intro i hi
          exact (node?_updateNode _ _ _ _).trans (if_neg hi)
      · exact htail.trans (by simp [List.getLast?_cons])
  · simp only [List.concat_eq_append] at *
    simp only [List.getLast?_append, List.getLast?_singleton, Option.some_or, Option.map_some]
      at he
    rw [he]
    cases b with
    | nil =>
      rw [List.append_nil] at hnodup ⊢
      refine ⟨?_, ?_, by simp [List.getLast?_append], hnodup⟩
      · refine ha.set_next hnodup ?_ ?_
        · exact (node?_updateNode _ _ _ _).trans (if_pos rfl)
        · intro i hi
          exact (node?_updateNode _ _ _ _).trans (if_neg hi)
      · exact hhead.trans (by cases a <;> rfl)
    | cons y b =>
      have hxy : x.1 ≠ y.1 := hab.2.2 x.1 (by simp) y.1 (by simp)
      refine ⟨linked_append.mpr ⟨?_, ?_⟩, ?_, ?_, hnodup⟩
      · refine @Linked.congr κ (r.updateNode x.1 fun n => { n with next := some y.1 }).node? _ _ _ _
          ?_ ?_
        · refine ha.set_next hab.1 ?_ ?_
          · exact (node?_updateNode _ _ _ _).trans (if_pos rfl)
          · intro i hi
            exact (node?_updateNode _ _ _ _).trans (if_neg hi)
        · intro z hz
          refine (node?_updateNode _ _ _ _).trans (if_neg fun hzy => ?_)
          exact hab.2.2 z.1 (List.mem_map_of_mem hz) y.1 (by simp) hzy
      · have hb' : Linked (r.updateNode x.1 fun n => { n with next := some y.1 }).node?
            (some e.1) (y :: b) none := by
          apply hb.congr
          intro z hz
          refine (node?_updateNode _ _ _ _).trans (if_neg fun hzx => ?_)
          exact hab.2.2 x.1 (by simp) z.1 (List.mem_map_of_mem hz) hzx.symm
        simp only [List.getLast?_append, List.getLast?_singleton, Option.some_or, Option.map_some]
        refine hb'.set_prev hab.2.1 ?_ ?_
        · exact (node?_updateNode _ _ _ _).trans (if_pos rfl)
        · intro i hi
          exact (node?_updateNode _ _ _ _).trans (if_neg hi)
      · exact hhead.trans (by cases a <;> rfl)
      · exact htail.trans (by simp [List.getLast?_append, List.getLast?_cons])

/-- A slot that is in no chain comes to stand in front. -/
theorem Chained.pushFront {r : Recency κ} {l : List (Nat × κ)} {i : Nat} {k : κ}
    (H : Chained r l) (hk : (r.node? i).map (·.key) = some k) (hi : i ∉ l.map (·.1)) :
    Chained (r.pushFront i) ((i, k) :: l) := by
  obtain ⟨n, hn, rfl⟩ := Option.map_eq_some_iff.mp hk
  have hnodup : (((i, n.key) :: l).map (·.1)).Nodup := List.nodup_cons.mpr ⟨hi, H.nodup⟩
  have hhead := H.head
  have htail := H.tail
  unfold Recency.pushFront
  cases l with
  | nil =>
    rw [hhead]
    refine ⟨⟨?_, trivial⟩, rfl, ?_, hnodup⟩
    · exact (node?_updateNode _ _ _ _).trans (by rw [if_pos rfl, hn]; rfl)
    · simp [Recency.updateNode, htail]
  | cons e l =>
    have hei : e.1 ≠ i := fun h => hi (by simp [h])
    rw [hhead]
    refine ⟨⟨?_, ?_⟩, rfl, ?_, hnodup⟩
    · refine (node?_updateNode _ _ _ _).trans ?_
      rw [if_neg (Ne.symm hei), node?_updateNode, if_pos rfl, hn]
      rfl
    · have hfront : Linked (r.updateNode i fun x => { x with prev := none, next := some e.1 }).node?
          none (e :: l) none := by
        apply H.linked.congr
        intro z hz
        refine (node?_updateNode _ _ _ _).trans (if_neg fun hzi => ?_)
        exact hi (hzi ▸ List.mem_map_of_mem hz)
      refine hfront.set_prev H.nodup ?_ ?_
      · exact (node?_updateNode _ _ _ _).trans (if_pos rfl)
      · intro j hj
        exact (node?_updateNode _ _ _ _).trans (if_neg hj)
    · have hsome : r.tail.isNone = false := by rw [htail]; simp [List.getLast?_cons]
      show (if r.tail.isNone then some i else r.tail) = _
      rw [hsome, htail]
      simp [List.getLast?_cons]

/-- Following the links reads the keys of the chain. -/
theorem walk_eq {r : Recency κ} {l : List (Nat × κ)} {p : Option Nat} {fuel : Nat}
    (h : Linked r.node? p l none) (hfuel : l.length ≤ fuel) :
    r.walk fuel (l.head?.map (·.1)) = l.map (·.2) := by
  induction l generalizing p fuel with
  | nil => cases fuel <;> rfl
  | cons e l ih =>
    cases fuel with
    | zero => simp at hfuel
    | succ fuel =>
      rw [List.length_cons] at hfuel
      have hnext : r.walk fuel (l.head?.map (·.1)) = l.map (·.2) := ih h.2 (by omega)
      simp only [List.head?_cons, Option.map_some, walk, h.1, Option.or_none, List.map_cons, hnext]

theorem Chained.order_eq {r : Recency κ} {l : List (Nat × κ)} (H : Chained r l) :
    r.order = l.map (·.2) := by
  have hsub : l.map (·.1) ⊆ List.range r.nodes.size := by
    intro i hi
    obtain ⟨e, he, rfl⟩ := List.mem_map.mp hi
    refine List.mem_range.mpr (lt_size_of_node? ?_)
    have hkey := H.key he
    cases hn : r.node? e.1 with
    | none => simp [hn] at hkey
    | some n => rfl
  have hlen := (List.subperm_of_subset H.nodup hsub).length_le
  rw [List.length_map, List.length_range] at hlen
  rw [order, H.head]
  exact walk_eq H.linked hlen

/-! ## The operations on the order -/

/-- The index stands for the slots of `l` with their keys, the most recent one first. -/
structure Holds (r : Recency κ) (l : List (Nat × κ)) : Prop extends Chained r l where
  keys_nodup : (l.map (·.2)).Nodup
  slots : r.slots.entries.Perm (l.map fun e => (e.2, e.1))
  free_nodup : r.free.Nodup
  free : ∀ i ∈ r.free, i < r.nodes.size ∧ r.node? i = none

/-- The index stands for some list of keys, which is its order. -/
def Valid (r : Recency κ) : Prop := ∃ l, Holds r l

theorem Valid.nodup_order {r : Recency κ} (H : r.Valid) : r.order.Nodup := by
  obtain ⟨l, H⟩ := H
  rw [H.order_eq]
  exact H.keys_nodup

theorem Valid.size_eq {r : Recency κ} (H : r.Valid) : r.size = r.order.length := by
  obtain ⟨l, H⟩ := H
  rw [H.order_eq, size, Table.size, H.slots.length_eq]
  simp

theorem valid_ofCapacity (capacity : Nat) : (ofCapacity capacity : Recency κ).Valid :=
  ⟨[], ⟨trivial, rfl, rfl, List.nodup_nil⟩, List.nodup_nil, List.Perm.refl _, List.nodup_nil,
    by simp [ofCapacity]⟩

theorem valid_clear (r : Recency κ) : r.clear.Valid := valid_ofCapacity r.capacity

theorem Valid.setCapacity {r : Recency κ} (H : r.Valid) (capacity : Nat) :
    (r.setCapacity capacity).Valid ∧ (r.setCapacity capacity).order = r.order := by
  obtain ⟨l, H⟩ := H
  have H' : Holds (r.setCapacity capacity) l :=
    ⟨⟨H.linked, H.head, H.tail, H.nodup⟩, H.keys_nodup, H.slots, H.free_nodup, H.free⟩
  exact ⟨⟨l, H'⟩, by rw [H'.order_eq, H.order_eq]⟩

/-- Free slots stay free where the keys of the slots stay. -/
theorem SameKeys.free_holds {r r' : Recency κ} (h : SameKeys r r')
    (H : ∀ i ∈ r.free, i < r.nodes.size ∧ r.node? i = none) :
    ∀ i ∈ r'.free, i < r'.nodes.size ∧ r'.node? i = none := by
  intro i hi
  rw [h.free] at hi
  refine ⟨h.size ▸ (H i hi).1, ?_⟩
  have hkey := h.key i
  rw [(H i hi).2] at hkey
  exact Option.map_eq_none_iff.mp hkey

variable [DecidableEq κ]

theorem Holds.find?_slots {r : Recency κ} {l : List (Nat × κ)} (H : Holds r l) {k : κ} {i : Nat} :
    r.slots.find? k = some i ↔ (i, k) ∈ l := by
  have hnodup : (r.slots.entries.map (·.1)).Nodup := by
    rw [(H.slots.map (·.1)).nodup_iff, List.map_map]
    exact H.keys_nodup
  rw [Table.find?, Table.lookup_eq_some_iff hnodup, H.slots.mem_iff, List.mem_map]
  constructor
  · rintro ⟨e, he, heq⟩
    simp only [Prod.mk.injEq] at heq
    rw [← heq.1, ← heq.2]
    exact he
  · intro he
    exact ⟨(i, k), he, rfl⟩

theorem Holds.find?_slots_none {r : Recency κ} {l : List (Nat × κ)} (H : Holds r l) {k : κ} :
    r.slots.find? k = none ↔ k ∉ l.map (·.2) := by
  rw [Option.eq_none_iff_forall_ne_some, List.mem_map]
  constructor
  · rintro h ⟨e, he, rfl⟩
    exact h e.1 (H.find?_slots.mpr he)
  · intro h i hi
    exact h ⟨(i, k), H.find?_slots.mp hi, rfl⟩

theorem Valid.contains_iff {r : Recency κ} (H : r.Valid) {k : κ} :
    r.slots.contains k = true ↔ k ∈ r.order := by
  obtain ⟨l, H⟩ := H
  rw [H.order_eq, Table.contains, ← Option.ne_none_iff_isSome, ne_eq, H.find?_slots_none, not_not]

/-- A slot with its key splits the list, and its key stands nowhere else. -/
theorem Holds.split {r : Recency κ} {l : List (Nat × κ)} (H : Holds r l) {i : Nat} {k : κ}
    (h : (i, k) ∈ l) :
    ∃ a b, l = a ++ (i, k) :: b ∧ (l.map (·.2)).erase k = (a ++ b).map (·.2) := by
  obtain ⟨a, b, rfl⟩ := List.append_of_mem h
  refine ⟨a, b, rfl, ?_⟩
  have hk : k ∉ a.map (·.2) := by
    have hnodup := H.keys_nodup
    rw [List.map_append, List.nodup_append] at hnodup
    exact fun hm => hnodup.2.2 k hm k (by simp) rfl
  rw [List.map_append, List.erase_append_right _ hk, List.map_append]
  simp

omit [DecidableEq κ] in
theorem Chained.isSome_node? {r : Recency κ} {l : List (Nat × κ)} (H : Chained r l) {i : Nat}
    (hi : i ∈ l.map (·.1)) : (r.node? i).isSome = true := by
  obtain ⟨e, he, rfl⟩ := List.mem_map.mp hi
  rw [← Option.isSome_map, H.key he]
  rfl

omit [DecidableEq κ] in
/-- A chain does not see a slot that is not in it. -/
theorem Chained.congr {r r' : Recency κ} {l : List (Nat × κ)} (H : Chained r l)
    (hhead : r'.head = r.head) (htail : r'.tail = r.tail)
    (hnode : ∀ i ∈ l.map (·.1), r'.node? i = r.node? i) : Chained r' l :=
  ⟨H.linked.congr fun _ he => hnode _ (List.mem_map_of_mem he), hhead.trans H.head,
    htail.trans H.tail, H.nodup⟩

/-- What `allocate` makes: a slot outside the chain with the new key in it. -/
structure Allocated (r : Recency κ) (l : List (Nat × κ)) (k : κ) (r' : Recency κ) (i : Nat) :
    Prop extends Chained r' l where
  key_new : (r'.node? i).map (·.key) = some k
  new : i ∉ l.map (·.1)
  capacity : r'.capacity = r.capacity
  slots : r'.slots = r.slots
  free_nodup : r'.free.Nodup
  free : ∀ j ∈ r'.free, j < r'.nodes.size ∧ r'.node? j = none

omit [DecidableEq κ] in
theorem Holds.allocate {r : Recency κ} {l : List (Nat × κ)} (H : Holds r l) (k : κ) :
    Allocated r l k (r.allocate k).1 (r.allocate k).2 := by
  unfold Recency.allocate
  cases hf : r.free with
  | cons i free =>
    have hfree := H.free_nodup
    rw [hf, List.nodup_cons] at hfree
    obtain ⟨hi, hnone⟩ := H.free i (by simp [hf])
    have hnew : i ∉ l.map (·.1) := fun hm => by simpa [hnone] using H.isSome_node? hm
    have hnode : ∀ j, ({ r with nodes := r.nodes.setIfInBounds i (some { key := k }), free := free }
        : Recency κ).node? j = if j = i then some { key := k } else r.node? j := by
      intro j
      simp only [node?, Array.getElem?_setIfInBounds]
      by_cases h : i = j
      · subst h
        simp [hi]
      · simp [h, Ne.symm h]
    refine ⟨?_, ?_, hnew, rfl, rfl, hfree.2, ?_⟩
    · exact H.congr rfl rfl fun j hj => (hnode j).trans (if_neg fun h : j = i => hnew (h ▸ hj))
    · rw [hnode, if_pos rfl]
      rfl
    · intro j hj
      obtain ⟨hlt, hj'⟩ := H.free j (by simp [hf, hj])
      refine ⟨by simpa using hlt, ?_⟩
      rw [hnode, if_neg fun h : j = i => hfree.1 (h ▸ hj), hj']
  | nil =>
    have hnew : r.nodes.size ∉ l.map (·.1) := fun hm =>
      absurd (lt_size_of_node? (H.isSome_node? hm)) (by omega)
    have hnode : ∀ j, j ≠ r.nodes.size →
        ({ r with nodes := r.nodes.push (some { key := k }) } : Recency κ).node? j = r.node? j := by
      intro j hj
      simp [node?, Array.getElem?_push, hj]
    refine ⟨?_, ?_, hnew, rfl, rfl, by simp, by simp⟩
    · exact H.congr rfl rfl fun j hj => hnode j fun h => hnew (h ▸ hj)
    · simp [node?]

/-- Using a key makes it the most recent one. -/
theorem Valid.touch {r : Recency κ} (H : r.Valid) (k : κ) :
    (r.touch k).Valid ∧ (r.touch k).order = k :: r.order.erase k ∧
      (r.touch k).capacity = r.capacity := by
  obtain ⟨l, H⟩ := H
  suffices h : ∃ l', Holds (r.touch k) l' ∧ l'.map (·.2) = k :: (l.map (·.2)).erase k ∧
      (r.touch k).capacity = r.capacity by
    obtain ⟨l', H', hl', hc⟩ := h
    exact ⟨⟨l', H'⟩, by rw [H'.order_eq, H.order_eq, hl'], hc⟩
  unfold Recency.touch
  cases hk : r.slots.find? k with
  | some i =>
    obtain ⟨a, b, rfl, herase⟩ := H.split (H.find?_slots.mp hk)
    by_cases hhead : r.head = some i
    · -- the slot is the head already, so nothing stands before it
      have ha : a = [] := by
        cases a with
        | nil => rfl
        | cons e a =>
          have hei : e.1 = i := by simpa [hhead, eq_comm] using H.head
          have hnodup := H.nodup
          simp [hei] at hnodup
      subst ha
      refine ⟨[] ++ (i, k) :: b, by simpa [hhead] using H, ?_, by simp [hhead]⟩
      rw [herase]
      rfl
    · have hi : i ∉ (a ++ b).map (·.1) := by
        have hnodup := H.nodup
        rw [List.map_append, List.map_cons, List.nodup_middle, List.nodup_cons] at hnodup
        simpa using hnodup.1
      have hsame := (sameKeys_unlink r i).trans (sameKeys_pushFront _ i)
      have hkey : ((r.unlink i).node? i).map (·.key) = some k := by
        rw [(sameKeys_unlink r i).key i]
        exact H.key (e := (i, k)) (by simp)
      have hperm : ((i, k) :: (a ++ b)).Perm (a ++ (i, k) :: b) := List.perm_middle.symm
      simp only [hhead, if_false]
      refine ⟨(i, k) :: (a ++ b), ⟨?_, ?_, ?_, ?_, hsame.free_holds H.free⟩, ?_, hsame.capacity⟩
      · exact (H.toChained.unlink (e := (i, k))).pushFront hkey hi
      · exact (hperm.map _).nodup_iff.mpr H.keys_nodup
      · rw [hsame.slots]
        exact H.slots.trans (hperm.map _).symm
      · rw [hsame.free]
        exact H.free_nodup
      · rw [herase]
        rfl
  | none =>
    have hkl := H.find?_slots_none.mp hk
    have A := H.allocate k
    simp only
    generalize (r.allocate k).1 = r' at A
    generalize (r.allocate k).2 = i at A
    have hsame := sameKeys_pushFront r' i
    have hchain := A.toChained.pushFront A.key_new A.new
    have habsent : (r.slots.erase k).entries = r.slots.entries := by
      refine List.filter_eq_self.mpr fun e he => decide_eq_true ?_
      exact Table.lookup_eq_none_iff.mp hk e he
    refine ⟨(i, k) :: l, ⟨?_, ?_, ?_, ?_, hsame.free_holds A.free⟩, ?_, ?_⟩
    · exact ⟨hchain.linked, hchain.head, hchain.tail, hchain.nodup⟩
    · exact List.nodup_cons.mpr ⟨hkl, H.keys_nodup⟩
    · rw [hsame.slots, A.slots, Table.insert, habsent]
      exact H.slots.cons (k, i)
    · exact hsame.free ▸ A.free_nodup
    · rw [List.erase_of_not_mem hkl]
      rfl
    · exact hsame.capacity.trans A.capacity

/-- A lookup makes a tracked key the most recent one and leaves the order alone otherwise. -/
theorem Valid.refresh {r : Recency κ} (H : r.Valid) (k : κ) :
    (r.refresh k).Valid ∧
      (r.refresh k).order = (if k ∈ r.order then k :: r.order.erase k else r.order) ∧
      (r.refresh k).capacity = r.capacity := by
  unfold Recency.refresh
  by_cases hk : k ∈ r.order
  · rw [if_pos (H.contains_iff.mpr hk), if_pos hk]
    exact H.touch k
  · rw [if_neg fun h => hk (H.contains_iff.mp h), if_neg hk]
    exact ⟨H, rfl, rfl⟩

/-- A tracked slot that is taken out of the chain, out of the table and freed leaves the index
without its key. -/
theorem Holds.drop {r : Recency κ} {a b : List (Nat × κ)} {i : Nat} {k : κ}
    (H : Holds r (a ++ (i, k) :: b)) :
    Holds { (r.unlink i).vacate i with slots := r.slots.erase k } (a ++ b) := by
  have hsame := sameKeys_unlink r i
  have hchain := H.toChained.unlink (e := (i, k))
  have hi : i ∉ (a ++ b).map (·.1) := by
    have hnodup := H.nodup
    rw [List.map_append, List.map_cons, List.nodup_middle, List.nodup_cons] at hnodup
    simpa using hnodup.1
  have hperm : ((i, k) :: (a ++ b)).Perm (a ++ (i, k) :: b) := List.perm_middle.symm
  have hkeys : (((i, k) :: (a ++ b)).map (·.2)).Nodup := (hperm.map _).nodup_iff.mpr H.keys_nodup
  rw [List.map_cons, List.nodup_cons] at hkeys
  have hchain' : Chained ((r.unlink i).vacate i) (a ++ b) :=
    hchain.congr rfl rfl fun j hj =>
      (node?_vacate _ i j).trans (if_neg fun h : j = i => hi (h ▸ hj))
  have hfree := hsame.free_holds H.free
  have hif : i ∉ (r.unlink i).free := by
    intro hm
    have hkey := H.key (e := (i, k)) (by simp)
    rw [← hsame.key i, (hfree i hm).2] at hkey
    cases hkey
  refine ⟨⟨hchain'.linked, hchain'.head, hchain'.tail, hchain'.nodup⟩, hkeys.2, ?_, ?_, ?_⟩
  · have hp : r.slots.entries.Perm ((k, i) :: (a ++ b).map fun e => (e.2, e.1)) :=
      H.slots.trans (hperm.map _).symm
    have hrest : ((a ++ b).map fun e => (e.2, e.1)).filter (fun e => e.1 ≠ k) =
        (a ++ b).map fun e => (e.2, e.1) := by
      refine List.filter_eq_self.mpr fun e he => decide_eq_true fun hek => hkeys.1 ?_
      obtain ⟨x, hx, rfl⟩ := List.mem_map.mp he
      have hx' : x.2 ∈ (a ++ b).map (·.2) := List.mem_map_of_mem hx
      exact (hek : x.2 = k) ▸ hx'
    have hf := hp.filter fun e => e.1 ≠ k
    rw [List.filter_cons_of_neg (by simp), hrest] at hf
    exact hf
  · exact List.nodup_cons.mpr ⟨hif, hsame.free ▸ H.free_nodup⟩
  · intro j hj
    have hsize : ((r.unlink i).vacate i).nodes.size = (r.unlink i).nodes.size := by simp [vacate]
    rcases List.mem_cons.mp hj with rfl | hj
    · refine ⟨?_, (node?_vacate _ j j).trans (if_pos rfl)⟩
      refine lt_of_lt_of_eq ?_ (hsame.size.symm.trans hsize.symm)
      exact lt_size_of_node? (H.isSome_node? (by simp))
    · refine ⟨lt_of_lt_of_eq (hfree j hj).1 hsize.symm, ?_⟩
      exact (node?_vacate _ i j).trans (by rw [(hfree j hj).2, ite_self])

omit [DecidableEq κ] in
theorem unlink_slots (r : Recency κ) (i : Nat) (slots : Table κ Nat) :
    { r with slots := slots }.unlink i = { r.unlink i with slots := slots } := by
  have hnode : ({ r with slots := slots } : Recency κ).node? i = r.node? i := rfl
  unfold unlink
  rw [hnode]
  cases r.node? i with
  | none => rfl
  | some n => obtain ⟨k, _ | p, _ | q⟩ := n <;> rfl

/-- Forgetting a key takes it out of the order. -/
theorem Valid.forget {r : Recency κ} (H : r.Valid) (k : κ) :
    (r.forget k).Valid ∧ (r.forget k).order = r.order.erase k ∧
      (r.forget k).capacity = r.capacity := by
  obtain ⟨l, H⟩ := H
  unfold Recency.forget
  cases hk : r.slots.find? k with
  | none =>
    have hkl := H.find?_slots_none.mp hk
    exact ⟨⟨l, H⟩, by rw [H.order_eq, List.erase_of_not_mem hkl], rfl⟩
  | some i =>
    obtain ⟨a, b, rfl, herase⟩ := H.split (H.find?_slots.mp hk)
    have H' := H.drop
    simp only [unlink_slots]
    refine ⟨⟨a ++ b, H'⟩, ?_, (sameKeys_unlink r i).capacity⟩
    rw [H.order_eq, herase]
    exact H'.order_eq

/-- The eldest key is given up if more keys than the capacity are tracked. -/
theorem Valid.evictEldest {r : Recency κ} (H : r.Valid) :
    (r.evictEldest).1.Valid ∧ (r.evictEldest).1.capacity = r.capacity ∧
      (r.evictEldest).2 = (if r.order.length ≤ r.capacity then none else r.order.getLast?) ∧
      (r.evictEldest).1.order =
        (if r.order.length ≤ r.capacity then r.order else r.order.dropLast) := by
  have hsize := H.size_eq
  obtain ⟨l, H⟩ := H
  have horder := H.order_eq
  unfold Recency.evictEldest
  rw [hsize]
  by_cases hle : r.order.length ≤ r.capacity
  · simp only [if_pos hle]
    exact ⟨⟨l, H⟩, trivial, trivial, trivial⟩
  · rcases List.eq_nil_or_concat l with rfl | ⟨a, e, rfl⟩
    · rw [horder] at hle
      exact absurd (Nat.zero_le _) hle
    · rw [List.concat_eq_append] at H horder
      obtain ⟨i, k⟩ := e
      have htail : r.tail = some i := by rw [H.tail]; simp
      have hkey : ((r.unlink i).node? i).map (·.key) = some k := by
        rw [(sameKeys_unlink r i).key i]
        exact H.key (e := (i, k)) (by simp)
      obtain ⟨n, hn, rfl⟩ := Option.map_eq_some_iff.mp hkey
      have H' := H.drop (b := [])
      rw [List.append_nil] at H'
      simp only [if_neg hle, htail, hn, (sameKeys_unlink r i).slots]
      refine ⟨⟨a, H'⟩, (sameKeys_unlink r i).capacity, ?_, ?_⟩
      · simp [horder]
      · rw [horder]
        refine H'.order_eq.trans ?_
        simp

end LayeredCache.Recency
