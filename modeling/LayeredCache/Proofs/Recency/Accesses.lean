import LayeredCache.Proofs.Recency

/-!
# Every access of the index by recency is one of its slots

The operations of the index follow links and numbers of slots that they kept earlier, and outside
the slots they read nothing and write nothing. Here each operation stands once more with every
access checked: it fails where a number is not one of a slot. On an index that stands for a list of
keys no operation fails, so all of them do what they do by accesses within the slots alone.

## Main definitions

* `Recency.Checked` — the operations with every access checked.

## Main statements

* `Checked.unlink_eq`, `Checked.pushFront_eq` — the links of a chain lead to slots.
* `Checked.touch_eq`, `Checked.refresh_eq`, `Checked.forget_eq`, `Checked.evictEldest_eq` — no check
  fails.
-/

namespace LayeredCache.Recency

variable {κ : Type}

/-! ## Slots in a chain -/

/-- A node is linked with its neighbours in the chain. -/
theorem Chained.node?_eq {r : Recency κ} {a b : List (Nat × κ)} {e : Nat × κ}
    (H : Chained r (a ++ e :: b)) :
    r.node? e.1 = some ⟨e.2, a.getLast?.map (·.1), b.head?.map (·.1)⟩ := by
  have hnode := (linked_append.mp H.linked).2.1
  rwa [Option.or_none, Option.or_none] at hnode

theorem Chained.lt_size {r : Recency κ} {l : List (Nat × κ)} (H : Chained r l) {i : Nat}
    (hi : i ∈ l.map (·.1)) : i < r.nodes.size :=
  lt_size_of_node? (H.isSome_node? hi)

theorem getElem?_of_node? {r : Recency κ} {i : Nat} {n : RecencyNode κ}
    (h : r.node? i = some n) : r.nodes[i]? = some (some n) := by
  cases hi : r.nodes[i]? <;> simp_all [node?]

namespace Checked

/-! ## The operations with checks -/

/-- Changes the node of a slot. -/
def updateNode (r : Recency κ) (i : Nat) (f : RecencyNode κ → RecencyNode κ) :
    Option (Recency κ) :=
  if i < r.nodes.size then some (r.updateNode i f) else none

/-- Puts a node into a slot or takes it out. -/
def setNode (r : Recency κ) (i : Nat) (n : Option (RecencyNode κ)) : Option (Recency κ) :=
  if i < r.nodes.size then some { r with nodes := r.nodes.setIfInBounds i n } else none

/-- Takes a node out of the list; the slot keeps it. -/
def unlink (r : Recency κ) (i : Nat) : Option (Recency κ) := do
  match ← r.nodes[i]? with
  | none => return r
  | some n =>
    let r ← match n.prev with
      | some p => updateNode r p fun x => { x with next := n.next }
      | none => some { r with head := n.next }
    match n.next with
    | some q => updateNode r q fun x => { x with prev := n.prev }
    | none => some { r with tail := n.prev }

/-- Puts a node that is in no list in front. -/
def pushFront (r : Recency κ) (i : Nat) : Option (Recency κ) := do
  let front := r.head
  let r ← updateNode r i fun x => { x with prev := none, next := front }
  let r ← match front with
    | some h => updateNode r h fun x => { x with prev := some i }
    | none => some r
  return { r with head := some i, tail := if r.tail.isNone then some i else r.tail }

/-- Gives a key a slot, an unused one if there is one. -/
def allocate (r : Recency κ) (k : κ) : Option (Recency κ × Nat) :=
  match r.free with
  | i :: free => (setNode { r with free := free } i (some { key := k })).map (·, i)
  | [] => some ({ r with nodes := r.nodes.push (some { key := k }) }, r.nodes.size)

/-- Frees a slot. -/
def vacate (r : Recency κ) (i : Nat) : Option (Recency κ) :=
  (setNode r i none).map fun r => { r with free := i :: r.free }

variable [DecidableEq κ]

/-- Makes a key the most recent one and tracks it if it was not tracked. -/
def touch (r : Recency κ) (k : κ) : Option (Recency κ) :=
  match r.slots.find? k with
  | some i => if r.head = some i then some r else (unlink r i).bind (pushFront · i)
  | none => do
    let (r, i) ← allocate r k
    let r ← pushFront r i
    return { r with slots := r.slots.insert k i }

/-- Makes a key the most recent one if it is tracked. -/
def refresh (r : Recency κ) (k : κ) : Option (Recency κ) :=
  if r.slots.contains k then touch r k else some r

/-- Stops tracking a key. -/
def forget (r : Recency κ) (k : κ) : Option (Recency κ) :=
  match r.slots.find? k with
  | some i => (unlink { r with slots := r.slots.erase k } i).bind (vacate · i)
  | none => some r

/-- Gives up the eldest key if more keys than the capacity are tracked. -/
def evictEldest (r : Recency κ) : Option (Recency κ × Option κ) :=
  if r.size ≤ r.capacity then some (r, none)
  else
    match r.tail with
    | none => some (r, none)
    | some i => do
      let r ← unlink r i
      match ← r.nodes[i]? with
      | none => return (r, none)
      | some n =>
        let r ← vacate r i
        return ({ r with slots := r.slots.erase n.key }, some n.key)

/-! ## No check fails -/

section Links

variable {r : Recency κ} {l : List (Nat × κ)} {i : Nat}

omit [DecidableEq κ]

theorem updateNode_eq (h : i < r.nodes.size) (f : RecencyNode κ → RecencyNode κ) :
    updateNode r i f = some (r.updateNode i f) := if_pos h

theorem setNode_eq (h : i < r.nodes.size) (n : Option (RecencyNode κ)) :
    setNode r i n = some { r with nodes := r.nodes.setIfInBounds i n } := if_pos h

theorem size_updateNode (r : Recency κ) (i : Nat) (f : RecencyNode κ → RecencyNode κ) :
    (r.updateNode i f).nodes.size = r.nodes.size := by
  simp [Recency.updateNode]

theorem vacate_eq (h : i < r.nodes.size) : vacate r i = some (r.vacate i) := by
  rw [vacate, setNode_eq h]
  rfl

/-- The neighbours of a slot in the chain are slots. -/
theorem unlink_eq (H : Chained r l) (hi : i ∈ l.map (·.1)) :
    unlink r i = some (r.unlink i) := by
  obtain ⟨e, he, rfl⟩ := List.mem_map.mp hi
  obtain ⟨a, b, rfl⟩ := List.append_of_mem he
  have hnode := H.node?_eq
  have hprev (p : Nat) (hp : a.getLast?.map (·.1) = some p) : p < r.nodes.size := by
    obtain ⟨x, hx, rfl⟩ := Option.map_eq_some_iff.mp hp
    refine H.lt_size (List.mem_map_of_mem (List.mem_append_left _ ?_))
    exact List.mem_of_getLast? hx
  have hnext (q : Nat) (hq : b.head?.map (·.1) = some q) : q < r.nodes.size := by
    obtain ⟨x, hx, rfl⟩ := Option.map_eq_some_iff.mp hq
    refine H.lt_size (List.mem_map_of_mem (List.mem_append_right _ (List.mem_cons_of_mem _ ?_)))
    exact List.mem_of_head? hx
  simp only [unlink, Recency.unlink, getElem?_of_node? hnode, hnode]
  cases hp : a.getLast?.map (·.1) with
  | none =>
    cases hq : b.head?.map (·.1) with
    | none => rfl
    | some q =>
      have hlt : q < ({ r with head := some q } : Recency κ).nodes.size := hnext q hq
      simp [updateNode_eq hlt]
  | some p =>
    have hupdate := updateNode_eq (hprev p hp)
    cases hq : b.head?.map (·.1) with
    | none => simp [hupdate]
    | some q =>
      have hlt : q < (r.updateNode p fun x => { x with next := some q }).nodes.size := by
        rw [size_updateNode]
        exact hnext q hq
      simp [hupdate, updateNode_eq hlt]

/-- A slot comes in front of a slot. -/
theorem pushFront_eq (H : Chained r l) (hi : i < r.nodes.size) :
    pushFront r i = some (r.pushFront i) := by
  simp only [pushFront, Recency.pushFront, updateNode_eq hi]
  cases hh : r.head with
  | none => rfl
  | some h =>
    have hlt : h < (r.updateNode i fun x => { x with prev := none, next := some h }).nodes.size := by
      rw [size_updateNode]
      refine H.lt_size (List.mem_map.mpr ?_)
      obtain ⟨e, he, rfl⟩ := Option.map_eq_some_iff.mp (H.head.symm.trans hh)
      exact ⟨e, List.mem_of_head? he, rfl⟩
    simp [updateNode_eq hlt]

end Links

section Operations

variable {r : Recency κ}

omit [DecidableEq κ] in
theorem allocate_eq {l : List (Nat × κ)} (H : Holds r l) (k : κ) :
    allocate r k = some (r.allocate k) := by
  cases hf : r.free with
  | nil => simp [allocate, Recency.allocate, hf]
  | cons i free =>
    have hlt : i < ({ r with free := free } : Recency κ).nodes.size :=
      (H.free i (by simp [hf])).1
    simp [allocate, Recency.allocate, hf, setNode_eq hlt]

theorem touch_eq (H : r.Valid) (k : κ) : touch r k = some (r.touch k) := by
  obtain ⟨l, H⟩ := H
  unfold touch Recency.touch
  cases hk : r.slots.find? k with
  | some i =>
    have hmem : (i, k) ∈ l := H.find?_slots.mp hk
    have hi : i ∈ l.map (·.1) := List.mem_map_of_mem hmem
    obtain ⟨a, b, rfl⟩ := List.append_of_mem hmem
    have hlt : i < (r.unlink i).nodes.size := by
      rw [(sameKeys_unlink r i).size]
      exact H.lt_size hi
    by_cases hhead : r.head = some i
    · simp [hhead]
    · simp only [if_neg hhead, unlink_eq H.toChained hi, Option.bind_some]
      exact pushFront_eq (H.toChained.unlink (e := (i, k))) hlt
  | none =>
    have A := H.allocate k
    have hlt : (r.allocate k).2 < (r.allocate k).1.nodes.size := by
      apply lt_size_of_node?
      rw [← Option.isSome_map, A.key_new]
      rfl
    simp [allocate_eq H, pushFront_eq A.toChained hlt]

theorem refresh_eq (H : r.Valid) (k : κ) : refresh r k = some (r.refresh k) := by
  unfold refresh Recency.refresh
  split
  · exact touch_eq H k
  · rfl

theorem forget_eq (H : r.Valid) (k : κ) : forget r k = some (r.forget k) := by
  obtain ⟨l, H⟩ := H
  unfold forget Recency.forget
  cases hk : r.slots.find? k with
  | none => rfl
  | some i =>
    have hi : i ∈ l.map (·.1) := List.mem_map_of_mem (H.find?_slots.mp hk)
    have H' : Chained { r with slots := r.slots.erase k } l :=
      H.toChained.congr rfl rfl fun _ _ => rfl
    have hlt : i < (({ r with slots := r.slots.erase k } : Recency κ).unlink i).nodes.size := by
      rw [(sameKeys_unlink _ i).size]
      exact H'.lt_size hi
    simp only [unlink_eq H' hi, Option.bind_some]
    exact vacate_eq hlt

theorem evictEldest_eq (H : r.Valid) : evictEldest r = some r.evictEldest := by
  obtain ⟨l, H⟩ := H
  unfold evictEldest Recency.evictEldest
  split
  · rfl
  · cases ht : r.tail with
    | none => rfl
    | some i =>
      obtain ⟨e, he, rfl⟩ := Option.map_eq_some_iff.mp (H.tail.symm.trans ht)
      have hmem : e ∈ l := List.mem_of_getLast? he
      have hi : e.1 ∈ l.map (·.1) := List.mem_map_of_mem hmem
      have hkey : ((r.unlink e.1).node? e.1).map (·.key) = some e.2 := by
        rw [(sameKeys_unlink r e.1).key e.1]
        exact H.key hmem
      obtain ⟨n, hn, -⟩ := Option.map_eq_some_iff.mp hkey
      have hlt : e.1 < (r.unlink e.1).nodes.size := lt_size_of_node? (by simp [hn])
      have hslots : ((r.unlink e.1).vacate e.1).slots = (r.unlink e.1).slots := rfl
      simp [unlink_eq H.toChained hi, getElem?_of_node? hn, hn, vacate_eq hlt, hslots]

end Operations

end Checked

end LayeredCache.Recency
