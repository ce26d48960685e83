import LayeredCache.Proofs.Bounded.Inclusion
import LayeredCache.Proofs.Bounded.WriteOrder
import LayeredCache.Proofs.Capacity
import Mathlib.Data.List.Dedup

/-!
# A smaller capacity is reached by writes over stored keys

A bounded layer whose capacity becomes smaller than what is stored evicts nothing at once, and each
write that follows evicts one entry at most. A write of a new key adds an entry too, so the number
of entries only falls where a stored key is written again.

A layer that evicts by recency then evicts the entry of another key with every write until the
capacity is reached: each write of a stored key takes one entry off the excess. A layer that evicts
in the order of writes gives up the front of its queue with every write and queues the key of the
write, so its queue never becomes shorter; what is at the front need not be stored any more, or be
the very key that is written, and then nothing is evicted.

## Main definitions

* `Bounded.tally` — how many writes of a kind there are among calls.
* `WriteQueue.Queued` — the keys that are stored are queued.

## Main statements

* `MoveToFront.Represents.size_uses` — the number of entries of a layer that evicts by recency.
* `WriteQueue.size_uses` — the number of entries of a layer that evicts in the order of writes.
* `Bounded.shrink_is_applied_by_overwriting` — both, after any calls, and what each write evicts.
-/

namespace LayeredCache

variable {κ α β σ : Type} [DecidableEq κ]

/-! ## Sizes of tables -/

namespace Table

theorem Distinct.size_erase {t : Table κ β} (h : t.Distinct) (k : κ) :
    (t.erase k).size + (t.contains k).toNat = t.size := by
  cases hk : t.find? k with
  | none => simp [contains, hk, erase_eq_self hk]
  | some v =>
    have hlength := (MoveToFront.perm_cons_filter h (h.mem_entries.mpr hk)).length_eq
    rw [contains, hk, Option.isSome_some, Bool.toNat_true]
    exact hlength.symm

theorem Distinct.size_insert {t : Table κ β} (h : t.Distinct) (k : κ) (v : β) :
    (t.insert k v).size = t.size + (!t.contains k).toNat := by
  have herase := h.size_erase k
  have hinsert : (t.insert k v).size = (t.erase k).size + 1 := List.length_cons
  rw [hinsert]
  cases hk : t.contains k <;> simp [hk] at herase ⊢ <;> omega

end Table

/-! ## Writes among calls -/

namespace Bounded

/-- Whether a call is a write or a lookup. -/
def Call.IsUse : Call κ α → Prop
  | .put .. | .get _ => True
  | _ => False

/-- Whether a call leaves room for a key. -/
def Call.LeavesRoom : Call κ α → Prop
  | .setCapacity capacity => 1 ≤ capacity
  | _ => True

omit [DecidableEq κ] in
theorem Call.IsUse.leavesRoom {call : Call κ α} (h : call.IsUse) : call.LeavesRoom := by
  cases call with
  | setCapacity capacity => exact h.elim
  | _ => trivial

/-- The keys of the writes among calls. -/
def written (calls : List (Moment × Call κ α)) : List κ :=
  calls.filterMap fun call =>
    match call.2 with
    | .put k _ => some k
    | _ => none

/-- One for a write of a kind, which is told from the key, the state and the ground that the write
comes to. -/
def counted (kind : κ → σ → Ground κ α → Bool) (s : σ) (g : Ground κ α) : Call κ α → Nat
  | .put k _ => (kind k s g).toNat
  | _ => 0

/-- How many writes of a kind there are among calls that are made one after the other. -/
def tally (d : Cache κ α σ) (resize : Nat → σ → σ) (kind : κ → σ → Ground κ α → Bool) :
    List (Moment × Call κ α) → σ → Ground κ α → Nat
  | [], _, _ => 0
  | (m, call) :: rest, s, g =>
    let r := perform d resize m s g call
    counted kind s g call + tally d resize kind rest r.state r.ground

/-- A write of a key that is stored. -/
def overwrites (base : Nat) (k : κ) (_ : σ) (g : Ground κ α) : Bool := (g.store base).contains k

/-- A write of a key that is not stored. -/
def adds (base : Nat) (k : κ) (_ : σ) (g : Ground κ α) : Bool := !(g.store base).contains k

section Keeps

variable {d : Cache κ α σ} {resize : Nat → σ → σ} {I : σ → Ground κ α → Prop}
  {P : Call κ α → Prop} {s : σ} {g : Ground κ α} (H : d.Upholds I)
  (hresize : ∀ capacity s g, P (.setCapacity capacity) → I s g → I (resize capacity s) g)
include H hresize

omit [DecidableEq κ] in
/-- What the operations of a layer keep and the allowed capacities do, each allowed call keeps. -/
theorem perform_keeps (m : Moment) {call : Call κ α} (hcall : P call) (h : I s g) :
    I (perform d resize m s g call).state (perform d resize m s g call).ground := by
  cases call with
  | put k c => exact H.put m k c s g h
  | get k => exact H.get m k s g h
  | remove k => exact H.remove m k s g h
  | clear => exact H.clear m s g h
  | size => exact H.size m s g h
  | setCapacity capacity => exact hresize capacity s g hcall h

omit [DecidableEq κ] in
theorem after_keeps {calls : List (Moment × Call κ α)} (hcalls : ∀ call ∈ calls, P call.2)
    (h : I s g) : I (after d resize calls s g).1 (after d resize calls s g).2 := by
  induction calls generalizing s g with
  | nil => exact h
  | cons call calls ih =>
    obtain ⟨hcall, hcalls⟩ := List.forall_mem_cons.mp hcalls
    exact ih hcalls (perform_keeps H hresize call.1 hcall h)

end Keeps

end Bounded

open Bounded (Call tally overwrites adds written)

/-! ## Eviction by recency -/

/-- A write to a layer that evicts by recency over a base store: the cell is stored, then the key
that the index gives up goes. -/
theorem Recency.put_bare (id : String) (base : Nat) (m : Moment) (k : κ) (cell : Cell α)
    (r : Recency κ) (g : Ground κ α) :
    let next := (Recency.onto (Cache.bare id base)).put m k cell (r, ()) g
    let stored := (g.store base).insert k cell
    next.ground.store base = (r.touch k).evictEldest.2.elim stored stored.erase := by
  have hput : (Cache.bare id base : Cache κ α Unit).put m k cell () g =
      ⟨(), g.setStore base ((g.store base).insert k cell), .ok ()⟩ := rfl
  simp only [Recency.onto, hput]
  rcases (r.touch k).evictEldest with ⟨index, _ | eldest⟩
  · exact Ground.store_setStore_self ..
  · refine (Cache.remove_bare id base m eldest _).2.2.trans ?_
    rw [Ground.store_note, Ground.store_setStore_self]
    rfl

namespace MoveToFront.Represents

variable {base : Nat} {t : MoveToFront κ α} {r : Recency κ} {g : Ground κ α}

theorem contains_iff (H : Represents base t r g) {k : κ} :
    (g.store base).contains k = true ↔ k ∈ r.order := by
  rw [H.mem_order_iff, ← H.find?_eq, Table.contains, Option.isSome_iff_ne_none]

omit [DecidableEq κ] in
theorem length_order (H : Represents base t r g) : r.order.length = (g.store base).size := by
  rw [H.order, List.length_map, H.size_eq]

section Full

variable (H : Represents base t r g) (hroom : 1 ≤ t.capacity)
  (hfull : t.capacity ≤ (g.store base).size)
include H hroom hfull

/-- A layer that has to give up a key for a write has one beside the key of the write. -/
theorem le_length_erase {k : κ}
    (hmust : t.capacity < (g.store base).size ∨ (g.store base).contains k = false) :
    t.capacity ≤ (r.order.erase k).length ∧ r.order.erase k ≠ [] := by
  have hlength := H.length_order
  have hle : t.capacity ≤ (r.order.erase k).length := by
    by_cases hk : k ∈ r.order
    · have hlong := hmust.resolve_right (by simp [H.contains_iff.mpr hk])
      rw [List.length_erase_of_mem hk]
      omega
    · rw [List.erase_of_not_mem hk]
      omega
  exact ⟨hle, List.ne_nil_of_length_pos (by omega)⟩

/-- The index gives up the key that was used least recently before the write, if there are more keys
than the capacity already, or with the new key. -/
theorem eldest_eq (k : κ) :
    (r.touch k).evictEldest.2 =
      if t.capacity < (g.store base).size ∨ (g.store base).contains k = false then
        (r.order.erase k).getLast?
      else none := by
  obtain ⟨hvalid, horder, hcapacity⟩ := H.valid.touch k
  have hlength := H.length_order
  rw [hvalid.evictEldest.2.2.1, horder, hcapacity, H.capacity, List.length_cons]
  by_cases hmust : t.capacity < (g.store base).size ∨ (g.store base).contains k = false
  · obtain ⟨hle, hne⟩ := H.le_length_erase hroom hfull hmust
    rw [if_pos hmust, if_neg (by omega), List.getLast?_cons_of_ne_nil hne]
  · obtain ⟨hfits, hstored⟩ := not_or.mp hmust
    have hk : k ∈ r.order := H.contains_iff.mp (Bool.not_eq_false _ ▸ hstored)
    have hpos := List.length_pos_of_mem hk
    rw [if_neg hmust, List.length_erase_of_mem hk, if_pos (by omega)]

/-- A write to a layer that is full stores its cell. It evicts the key that was used least recently,
if there are more keys than the capacity already, or with the new key, and none otherwise. -/
theorem put_full (id : String) (m : Moment) (k : κ) (cell : Cell α) :
    let next := (Recency.onto (Cache.bare id base)).put m k cell (r, ()) g
    let mustEvict := t.capacity < (g.store base).size ∨ (g.store base).contains k = false
    next.answer = .ok () ∧ (next.ground.store base).find? k = some cell ∧
      (∀ x, WriteQueue.Vanishes base g next.ground x ↔
        mustEvict ∧ (r.order.erase k).getLast? = some x) ∧
      (mustEvict → ∃ x, WriteQueue.Vanishes base g next.ground x) := by
  intro next mustEvict
  have hstore := Recency.put_bare id base m k cell r g
  have heldest : (r.touch k).evictEldest.2 =
      if mustEvict then (r.order.erase k).getLast? else none := H.eldest_eq hroom hfull k
  have hanswer : next.answer = .ok () := (H.put id m k cell).2
  by_cases hmust : mustEvict
  · obtain ⟨-, hne⟩ := H.le_length_erase hroom hfull hmust
    rw [if_pos hmust, List.getLast?_eq_some_getLast hne] at heldest
    let eldest := (r.order.erase k).getLast hne
    have hmem : eldest ∈ r.order.erase k := List.getLast_mem hne
    replace hstore : next.ground.store base = ((g.store base).insert k cell).erase eldest := by
      rw [hstore, heldest]
      rfl
    have hnekey : k ≠ eldest := fun h => H.valid.nodup_order.not_mem_erase (h ▸ hmem)
    have hstored := H.contains_iff.mpr (List.mem_of_mem_erase hmem)
    have hvanishes (x : κ) : WriteQueue.Vanishes base g next.ground x ↔ eldest = x := by
      rw [WriteQueue.Vanishes, hstore, Table.contains_erase, Table.contains_insert]
      by_cases hx : x = eldest
      · simp [hx, hstored]
      · simp +contextual [hx, Ne.symm hx]
    refine ⟨hanswer, ?_, fun x => ?_, fun _ => ⟨eldest, (hvanishes eldest).mpr rfl⟩⟩
    · rw [hstore, Table.find?_erase, if_neg hnekey, Table.find?_insert, if_pos rfl]
    · rw [hvanishes, and_iff_right hmust, List.getLast?_eq_some_getLast hne, Option.some_inj]
  · rw [if_neg hmust] at heldest
    replace hstore : next.ground.store base = (g.store base).insert k cell := by
      rw [hstore, heldest]
      rfl
    refine ⟨hanswer, by rw [hstore, Table.find?_insert, if_pos rfl],
      fun x => iff_of_false ?_ fun h => hmust h.1, fun h => (hmust h).elim⟩
    rintro ⟨hbefore, hafter⟩
    rw [hstore, Table.contains_insert, hbefore] at hafter
    simp at hafter

end Full

/-- A use of a layer that is full takes one entry off the excess if it writes a stored key, and
keeps the number of entries otherwise. -/
theorem size_use (H : Represents base t r g) (id : String)
    (hfull : t.capacity ≤ (g.store base).size) (m : Moment) {call : Call κ α}
    (huse : call.IsUse) :
    let next := Bounded.perform (Recency.onto (Cache.bare id base)) Recency.resize m (r, ()) g call
    (t.step call).1.capacity = t.capacity ∧ (next.ground.store base).size =
      max t.capacity ((g.store base).size - Bounded.counted (overwrites base) (r, ()) g call) := by
  have hnext := (H.perform id m call).1.size_eq
  intro next
  rw [hnext]
  cases call with
  | put k cell =>
    have hfilter : ((g.store base).entries.filter (·.1 ≠ k)).length +
        ((g.store base).contains k).toNat = (g.store base).size := H.distinct.size_erase k
    have hlength : (t.toFront k cell).pairs.length =
        (g.store base).size + 1 - ((g.store base).contains k).toNat := by
      have hkept := (H.store.filter (·.1 ≠ k)).length_eq
      rw [MoveToFront.toFront, List.length_cons, ← hkept]
      omega
    have hcapacity : (t.toFront k cell).capacity = t.capacity := rfl
    have hbit := ((g.store base).contains k).toNat_le
    simp only [MoveToFront.step, trim, Bounded.counted, overwrites]
    by_cases hlong : (t.toFront k cell).capacity < (t.toFront k cell).pairs.length
    · rw [if_pos hlong]
      refine ⟨hcapacity, ?_⟩
      rw [List.length_dropLast]
      omega
    · rw [if_neg hlong]
      exact ⟨hcapacity, by omega⟩
  | get k =>
    have hsize : (t.step (.get k)).1.pairs.length = (g.store base).size := hnext.symm
    have hcapacity : (t.step (.get k)).1.capacity = t.capacity := by
      simp only [MoveToFront.step]
      split <;> rfl
    refine ⟨hcapacity, ?_⟩
    rw [hsize]
    exact (Nat.max_eq_right hfull).symm
  | _ => exact huse.elim

/-- Writes and lookups bring the number of entries down to the capacity, one with each write of a
stored key. -/
theorem size_uses (H : Represents base t r g) (id : String)
    (hfull : t.capacity ≤ (g.store base).size) {calls : List (Moment × Call κ α)}
    (huses : ∀ call ∈ calls, call.2.IsUse) :
    let layer : Cache κ α (Recency κ × Unit) := Recency.onto (Cache.bare id base)
    let last := Bounded.after layer Recency.resize calls (r, ()) g
    (t.after (calls.map (·.2))).capacity = t.capacity ∧
      (last.2.store base).size = max t.capacity ((g.store base).size -
        tally layer Recency.resize (overwrites base) calls (r, ()) g) := by
  induction calls generalizing t r g with
  | nil => exact ⟨rfl, (Nat.max_eq_right hfull).symm⟩
  | cons call calls ih =>
    obtain ⟨hcall, huses⟩ := List.forall_mem_cons.mp huses
    obtain ⟨hcapacity, hsize⟩ := H.size_use id hfull call.1 hcall
    have hnext := (H.perform id call.1 call.2).1
    have hfull' := hsize ▸ Nat.le_max_left t.capacity _
    obtain ⟨hkept, hlast⟩ := ih hnext (hcapacity ▸ hfull') huses
    have hmax (c n a b : Nat) : max c (max c (n - a) - b) = max c (n - (a + b)) := by omega
    refine ⟨hkept.trans hcapacity, hlast.trans ?_⟩
    rw [hcapacity, hsize]
    exact hmax _ _ _ _

end MoveToFront.Represents

/-! ## Eviction in the order of writes -/

namespace WriteQueue

/-- Changes the capacity of a layer that evicts in the order of writes. -/
def resize (capacity : Nat) (s : WriteQueue κ × σ) : WriteQueue κ × σ :=
  (s.1.setCapacity capacity, s.2)

/-- A write that evicts the entry of another key: the queue gives up a key that is stored. -/
def evicts (base : Nat) (k : κ) (s : WriteQueue κ × σ) (g : Ground κ α) : Bool :=
  (s.1.cycle k).2.any fun x => x ≠ k && (g.store base).contains x

variable {base : Nat} {q : WriteQueue κ} {g : Ground κ α} {calls : List (Moment × Call κ α)}

/-- What vanishes by a write is the entry of the key that the queue gives up. -/
theorem vanishes_put (id : String) (m : Moment) (k : κ) (cell : Cell α) (x : κ) :
    Vanishes base g ((onto (Cache.bare id base)).put m k cell (q, ()) g).ground x ↔
      (q.cycle k).2 = some x ∧ x ≠ k ∧ (g.store base).contains x = true := by
  rw [Vanishes, (put_bare id base m k cell q g).2.2, Table.contains_insert]
  cases (q.cycle k).2 with
  | none => simp +contextual
  | some oldest =>
    rw [Option.elim_some, Table.contains_erase, Option.some_inj]
    by_cases hx : x = oldest
    · subst hx
      by_cases hk : x = k <;> simp [hk]
    · simp +contextual [hx, Ne.symm hx]

theorem upholds_distinct (id : String) (base : Nat) :
    (onto (Cache.bare id base) : Cache κ α _).Upholds fun _ g => (g.store base).Distinct :=
  (rests _).upholds rfl (Cache.upholds_distinct_bare id base)

theorem distinct_perform (h : (g.store base).Distinct) (id : String) (m : Moment)
    (call : Call κ α) :
    ((Bounded.perform (onto (Cache.bare id base)) resize m (q, ()) g call).ground.store
      base).Distinct :=
  Bounded.perform_keeps (P := fun _ => True) (upholds_distinct id base) (fun _ _ _ _ h => h) m
    trivial h

theorem distinct_after (h : (g.store base).Distinct) (id : String)
    (calls : List (Moment × Call κ α)) :
    ((Bounded.after (onto (Cache.bare id base)) resize calls (q, ()) g).2.store base).Distinct :=
  Bounded.after_keeps (P := fun _ => True) (upholds_distinct id base) (fun _ _ _ _ h => h)
    (fun _ _ => trivial) h

/-- A use adds an entry if it writes a key that is not stored, and takes one away if it evicts
one. -/
theorem size_use (h : (g.store base).Distinct) (id : String) (m : Moment) {call : Call κ α}
    (huse : call.IsUse) :
    let next := Bounded.perform (onto (Cache.bare id base)) resize m (q, ()) g call
    (next.ground.store base).size + Bounded.counted (evicts base) (q, ()) g call =
      (g.store base).size + Bounded.counted (adds base) (q, ()) g call := by
  cases call with
  | put k cell =>
    simp only [Bounded.perform, Bounded.counted, evicts, adds]
    rw [(put_bare id base m k cell q g).2.2]
    cases (q.cycle k).2 with
    | none => simp [h.size_insert k cell]
    | some oldest =>
      have herase := h.size_erase oldest
      have hinsert := (h.erase oldest).size_insert k cell
      rw [Table.contains_erase] at hinsert
      rw [Option.elim_some, hinsert, Option.any_some]
      by_cases hk : oldest = k
      · subst hk
        cases hc : (g.store base).contains oldest <;> simp_all
      · have hk' : k ≠ oldest := Ne.symm hk
        simp [hk, hk']
        omega
  | get k => rfl
  | _ => exact huse.elim

/-- Writes and lookups change the number of entries by what they add and what they evict. -/
theorem size_uses (h : (g.store base).Distinct) (id : String)
    (huses : ∀ call ∈ calls, call.2.IsUse) :
    let layer : Cache κ α (WriteQueue κ × Unit) := onto (Cache.bare id base)
    ((Bounded.after layer resize calls (q, ()) g).2.store base).size +
        tally layer resize (evicts base) calls (q, ()) g =
      (g.store base).size + tally layer resize (adds base) calls (q, ()) g := by
  induction calls generalizing q g with
  | nil => rfl
  | cons call calls ih =>
    obtain ⟨hcall, huses⟩ := List.forall_mem_cons.mp huses
    have hsize := size_use (q := q) h id call.1 hcall
    let next := Bounded.perform (onto (Cache.bare id base)) resize call.1 (q, ()) g call.2
    have hlast := ih (q := next.state.1) (g := next.ground)
      (distinct_perform h id call.1 call.2) huses
    have hsum (n n' n'' a a' e e' : Nat) (h : n' + e = n + a) (h' : n'' + e' = n' + a') :
        n'' + (e + e') = n + (a + a') := by omega
    exact hsum _ _ _ _ _ _ _ hsize hlast

/-! ### The queue -/

omit [DecidableEq κ] in
/-- The queue gives up its front key for a write if it is full already. -/
theorem cycle_of_le (hfull : q.capacity ≤ q.keys.length) (k : κ) :
    (q.cycle k).1.keys = (q.keys ++ [k]).drop 1 ∧ (q.cycle k).2 = (q.keys ++ [k]).head? := by
  have hlong : q.capacity < (q.keys ++ [k]).length := by
    rw [List.length_append, List.length_singleton]
    omega
  simp only [cycle, if_pos hlong, and_self]

/-- Writes and lookups take as many keys from the front of a queue that is full as they queue at its
end. -/
theorem keys_uses (hfull : q.capacity ≤ q.keys.length) (id : String)
    (huses : ∀ call ∈ calls, call.2.IsUse) :
    let last := Bounded.after (onto (Cache.bare id base)) resize calls (q, ()) g
    last.1.1.capacity = q.capacity ∧
      last.1.1.keys = (q.keys ++ written calls).drop (written calls).length := by
  induction calls generalizing q g with
  | nil => exact ⟨rfl, (List.append_nil _).symm⟩
  | cons call calls ih =>
    obtain ⟨hcall, hrest⟩ := List.forall_mem_cons.mp huses
    obtain ⟨m, call⟩ := call
    cases call with
    | put k cell =>
      let next := (onto (Cache.bare id base)).put m k cell (q, ()) g
      have hstate : next.state.1 = (q.cycle k).1 := (put_bare id base m k cell q g).2.1
      obtain ⟨hkeys, -⟩ := cycle_of_le hfull k
      have hcapacity := capacity_cycle q k
      have hlength : (q.cycle k).1.keys.length = q.keys.length := by simp [hkeys]
      have hnext := ih (q := next.state.1) (g := next.ground)
        (by rw [hstate, hcapacity, hlength]; exact hfull) hrest
      obtain ⟨hroom, hqueue⟩ := hnext
      refine ⟨hroom.trans (hstate ▸ hcapacity), hqueue.trans ?_⟩
      rw [hstate, hkeys]
      have hwritten : written ((m, .put k cell) :: calls) = k :: written calls := rfl
      have hle : 1 ≤ (q.keys ++ [k]).length := by simp
      rw [hwritten, List.length_cons, Nat.add_comm, ← List.drop_drop,
        ← List.drop_append_of_le_length hle, List.append_assoc]
      rfl
    | get k => exact ih hfull hrest
    | _ => exact hcall.elim

/-- The stored keys are queued, each of them once in the base store, and there is room for one. -/
structure Queued (base : Nat) (q : WriteQueue κ) (g : Ground κ α) : Prop where
  distinct : (g.store base).Distinct
  room : 1 ≤ q.capacity
  mem_keys : ∀ k cell, (g.store base).find? k = some cell → k ∈ q.keys

/-- A stored key leaves the queue together with its entry. -/
theorem upholds_queued (id : String) (base : Nat) :
    (onto (Cache.bare id base) : Cache κ α _).Upholds fun s g => Queued base s.1 g where
  put m k cell s g h := by
    obtain ⟨-, hstate, hstore⟩ := put_bare id base m k cell s.1 g
    obtain ⟨hk, hmem⟩ := mem_keys_cycle h.room k
    refine ⟨(upholds_distinct id base).put m k cell s g h.distinct, ?_, fun x c hx => ?_⟩
    · rw [hstate, capacity_cycle]
      exact h.room
    · rw [hstate]
      by_cases hxk : x = k
      · exact hxk ▸ hk
      · rw [hstore, Table.find?_insert, if_neg hxk] at hx
        cases hq : (s.1.cycle k).2 with
        | none =>
          rw [hq] at hx
          exact (hmem x (h.mem_keys x c hx)).resolve_right (by simp [hq])
        | some oldest =>
          rw [hq, Option.elim_some, Table.find?_erase] at hx
          obtain ⟨hne, hx⟩ := Option.ite_none_left_eq_some.mp hx
          exact (hmem x (h.mem_keys x c hx)).resolve_right (by simpa [hq] using Ne.symm hne)
  get m k s g h := h
  resume m k gate w s g h := h
  remove m k s g h := by
    have hstore : ((onto (Cache.bare id base)).remove m k s g).ground.store base =
        (g.store base).erase k := (Cache.remove_bare id base m k g).2.2
    refine ⟨(upholds_distinct id base).remove m k s g h.distinct, h.room, fun x c hx => ?_⟩
    rw [hstore, Table.find?_erase] at hx
    exact h.mem_keys x c (Option.ite_none_left_eq_some.mp hx).2
  clear m s g h := by
    have hstore : ((onto (Cache.bare id base)).clear m s g).ground.store base = .empty :=
      Ground.store_setStore_self ..
    refine ⟨(upholds_distinct id base).clear m s g h.distinct, h.room, fun x c hx => ?_⟩
    rw [hstore, Table.find?_empty] at hx
    cases hx
  size m s g h := h
  release m k s g h := h
  elsewhere {s g g'} h hg := by
    have hstore : g'.store base = g.store base := hg
    exact ⟨hstore ▸ h.distinct, h.room, hstore ▸ h.mem_keys⟩

theorem Queued.after (H : Queued base q g) (id : String)
    (hcalls : ∀ call ∈ calls, call.2.LeavesRoom) :
    let last := Bounded.after (onto (Cache.bare id base)) resize calls (q, ()) g
    Queued base last.1.1 last.2 := by
  have hresize (capacity : Nat) (s : WriteQueue κ × Unit) (g : Ground κ α)
      (hroom : (Call.setCapacity capacity : Call κ α).LeavesRoom) (h : Queued base s.1 g) :
      Queued base (resize capacity s).1 g := ⟨h.distinct, hroom, h.mem_keys⟩
  exact Bounded.after_keeps (upholds_queued id base) hresize hcalls H

/-- There are no more entries than different keys in the queue. -/
theorem Queued.size_le (H : Queued base q g) :
    (g.store base).size ≤ q.keys.dedup.length :=
  H.distinct.size_le fun k c hk => List.mem_dedup.mpr (H.mem_keys k c hk)

end WriteQueue

/-! ## Both layers after a shrink -/

/-- A bounded layer over an empty base store gets a capacity `c` after any calls, then writes and
lookups, then one more write, which succeeds and stores its cell.

If the layer evicts by recency and held more than `c` entries, then it holds `c` when as many writes
of stored keys have come as there were entries too many, and before that one entry less for each of
them. The last write evicts an entry if there are more than `c`, or with its own key, and that is
the one of the other key that was used least recently.

If the layer evicts in the order of writes, then it holds an entry more for each write of a key that
was not stored, and an entry less for each write that evicted one. The last write evicts the entry
of the key that its queue gives up, if there is one under another key. If every capacity had room
for a key and the layer held more than `c` entries, then its queue is as long as before with the
keys of the writes at its end, gives up its front key with every write, and has the stored keys. -/
theorem Bounded.shrink_is_applied_by_overwriting (id : String) (base capacity : Nat) {c : Nat}
    (hc : 1 ≤ c) {g₀ : Ground κ α} (hempty : g₀.store base = .empty)
    (history : List (Moment × Call κ α)) {calls : List (Moment × Call κ α)}
    (huses : ∀ call ∈ calls, call.2.IsUse) :
    (let layer : Cache κ α (Recency κ × Unit) := Recency.onto (Cache.bare id base)
      let before := after layer Recency.resize history (Recency.ofCapacity capacity, ()) g₀
      let shrunk := Recency.resize c before.1
      let last := after layer Recency.resize calls shrunk before.2
      let size := (last.2.store base).size
      c < (before.2.store base).size →
        size = max c ((before.2.store base).size -
            tally layer Recency.resize (overwrites base) calls shrunk before.2) ∧
          ∀ m k cell,
            let next := layer.put m k cell last.1 last.2
            let mustEvict := c < size ∨ (last.2.store base).contains k = false
            next.answer = .ok () ∧ (next.ground.store base).find? k = some cell ∧
              (∀ x, WriteQueue.Vanishes base last.2 next.ground x ↔
                mustEvict ∧ (last.1.1.order.erase k).getLast? = some x) ∧
              (mustEvict → ∃ x, WriteQueue.Vanishes base last.2 next.ground x)) ∧
    (let layer : Cache κ α (WriteQueue κ × Unit) := WriteQueue.onto (Cache.bare id base)
      let before := after layer WriteQueue.resize history ({ capacity := capacity }, ()) g₀
      let shrunk := WriteQueue.resize c before.1
      let last := after layer WriteQueue.resize calls shrunk before.2
      let size := (last.2.store base).size
      let queue := before.1.1.keys
      size + tally layer WriteQueue.resize (WriteQueue.evicts base) calls shrunk before.2 =
          (before.2.store base).size +
            tally layer WriteQueue.resize (adds base) calls shrunk before.2 ∧
        (∀ m k cell,
          let next := layer.put m k cell last.1 last.2
          next.answer = .ok () ∧ (next.ground.store base).find? k = some cell ∧
            ∀ x, WriteQueue.Vanishes base last.2 next.ground x ↔
              (last.1.1.cycle k).2 = some x ∧ x ≠ k ∧ (last.2.store base).contains x = true) ∧
        (1 ≤ capacity → (∀ call ∈ history, call.2.LeavesRoom) → c < (before.2.store base).size →
          (before.2.store base).size ≤ queue.length ∧
            last.1.1.keys = (queue ++ written calls).drop (written calls).length ∧
            (∀ k, (last.1.1.cycle k).2 = last.1.1.keys.head?) ∧
            size ≤ last.1.1.keys.dedup.length)) := by
  refine ⟨?_, ?_⟩
  · intro layer before shrunk last size hlong
    have R := (MoveToFront.represents_ofCapacity hempty capacity).after id history
    have S := (R.perform id {} (.setCapacity c)).1
    have hfull : c ≤ (before.2.store base).size := Nat.le_of_lt hlong
    obtain ⟨hcapacity, hsize⟩ := S.size_uses id hfull huses
    have L := S.after id calls
    refine ⟨hsize, fun m k cell => ?_⟩
    have hstill := Nat.le_max_left c ((before.2.store base).size -
      tally layer Recency.resize (overwrites base) calls shrunk before.2)
    have hput := L.put_full (hcapacity ▸ hc) (hcapacity ▸ hsize ▸ hstill) id m k cell
    rwa [hcapacity] at hput
  · intro layer before shrunk last size queue
    have hnone : (g₀.store base).Distinct := hempty ▸ Table.distinct_empty
    have hdistinct := WriteQueue.distinct_after (q := { capacity := capacity }) hnone id history
    refine ⟨WriteQueue.size_uses hdistinct id huses, fun m k cell => ?_,
      fun hroom hleaves hlong => ?_⟩
    · obtain ⟨hanswer, -, hstore⟩ := WriteQueue.put_bare id base m k cell last.1.1 last.2
      refine ⟨hanswer, ?_, fun x => WriteQueue.vanishes_put id m k cell x⟩
      exact (congrArg (·.find? k) hstore).trans ((Table.find?_insert ..).trans (if_pos rfl))
    · have H : WriteQueue.Queued base { capacity := capacity } g₀ := by
        refine ⟨hnone, hroom, fun k cell hk => ?_⟩
        rw [hempty, Table.find?_empty] at hk
        cases hk
      have B := H.after id hleaves
      have S : WriteQueue.Queued base shrunk.1 before.2 := ⟨B.distinct, hc, B.mem_keys⟩
      have L := S.after id fun call hcall => (huses call hcall).leavesRoom
      have hqueue : (before.2.store base).size ≤ queue.length := B.distinct.size_le B.mem_keys
      have hfull : c ≤ queue.length := Nat.le_of_lt (Nat.lt_of_lt_of_le hlong hqueue)
      obtain ⟨hcapacity, hkeys⟩ :=
        WriteQueue.keys_uses (q := shrunk.1) (g := before.2) hfull id huses
      refine ⟨hqueue, hkeys, fun k => ?_, L.size_le⟩
      have hlength : last.1.1.keys.length = queue.length := by
        rw [hkeys, List.length_drop, List.length_append, Nat.add_sub_cancel]
        rfl
      have hpos : last.1.1.keys ≠ [] := List.ne_nil_of_length_pos (by omega)
      have hstill : last.1.1.capacity ≤ last.1.1.keys.length := by
        rw [hlength, hcapacity]
        exact hfull
      rw [(WriteQueue.cycle_of_le hstill k).2, List.head?_append_of_ne_nil _ hpos]

namespace Bounded.Shrunk

def cell (n : Nat) : Cell Nat := { item := ⟨n, .plain n⟩ }

/-- Writes of keys. -/
def puts (keys : List Nat) : List (Moment × Call Nat Nat) :=
  keys.map fun k => ({}, .put k (cell k))

/-- A layer that evicts by recency has room for four keys, then for one. -/
def byRecency (history later : List (Moment × Call Nat Nat)) :
    (Recency Nat × Unit) × Ground Nat Nat :=
  let layer := Recency.onto (Cache.bare "users" 0)
  let before := after layer Recency.resize history (Recency.ofCapacity 4, ()) {}
  after layer Recency.resize later (Recency.resize 1 before.1) before.2

/-- A layer that evicts in the order of writes has room for four keys, then for one. -/
def byOrder (history later : List (Moment × Call Nat Nat)) :
    (WriteQueue Nat × Unit) × Ground Nat Nat :=
  let layer := WriteQueue.onto (Cache.bare "users" 0)
  let before := after layer WriteQueue.resize history ({ capacity := 4 }, ()) {}
  after layer WriteQueue.resize later (WriteQueue.resize 1 before.1) before.2

/-- Two entries and then room for one: the write of a third key adds an entry and evicts one, so
there are two entries after as many writes as there was an entry too many. -/
theorem new_key_keeps_size :
    (∀ call ∈ puts [3], call.2.IsUse) ∧
      ((byRecency (puts [1, 2]) []).2.store 0).size = 2 ∧
      ((byOrder (puts [1, 2]) []).2.store 0).size = 2 ∧
      2 - 1 ≤ (written (puts [3])).length ∧
      ¬((byRecency (puts [1, 2]) (puts [3])).2.store 0).size ≤ 1 ∧
      ¬((byOrder (puts [1, 2]) (puts [3])).2.store 0).size ≤ 1 := by
  refine ⟨by simp [puts, Call.IsUse], ?_⟩
  decide

/-- Three entries and then room for one: two writes of stored keys bring the layer that evicts by
recency down to one entry. The second one finds its own key in front of the queue of the other
layer, which keeps two entries until a third key evicts one. -/
theorem overwriting_drains :
    let later := puts [3] ++ ({}, .get 2) :: puts [2]
    let last := byOrder (puts [1, 2, 3]) later
    let next := (WriteQueue.onto (Cache.bare "users" 0)).put {} 4 (cell 4) last.1 last.2
    1 ≤ 1 ∧ ({} : Ground Nat Nat).store 0 = .empty ∧ (∀ call ∈ later, call.2.IsUse) ∧
      (∀ call ∈ puts [1, 2, 3], call.2.LeavesRoom) ∧
      1 < ((byRecency (puts [1, 2, 3]) []).2.store 0).size ∧
      1 < ((byOrder (puts [1, 2, 3]) []).2.store 0).size ∧
      ((byRecency (puts [1, 2, 3]) later).2.store 0).size = 1 ∧
      (last.2.store 0).size = 2 ∧ last.1.1.keys = [3, 3, 2] ∧
      WriteQueue.Vanishes 0 last.2 next.ground 3 := by
  intro later last next
  have huses : ∀ call ∈ later, call.2.IsUse := by simp [later, puts, Call.IsUse]
  have hleaves : ∀ call ∈ puts [1, 2, 3], call.2.LeavesRoom := by simp [puts, Call.LeavesRoom]
  have hempty : ({} : Ground Nat Nat).store 0 = .empty := rfl
  obtain ⟨hrecency, horder, hnext, hqueue⟩ :=
    shrink_is_applied_by_overwriting "users" 0 4 (by decide : 1 ≤ 1) hempty (puts [1, 2, 3]) huses
  obtain ⟨hsize, -⟩ := hrecency (by decide)
  obtain ⟨-, hkeys, -, -⟩ := hqueue (by decide) hleaves (by decide)
  refine ⟨by decide, hempty, huses, hleaves, by decide, by decide, hsize.trans (by decide), ?_,
    hkeys.trans (by decide), ((hnext {} 4 (cell 4)).2.2 3).mpr (by decide)⟩
  exact Nat.add_right_cancel (horder.trans (by decide : _ = 2 + 1))

end Bounded.Shrunk

end LayeredCache
