import LayeredCache.Layer.Bounded
import LayeredCache.Proofs.Base
import LayeredCache.Proofs.Recency
import LayeredCache.Proofs.Run

/-!
# Eviction by recency is moving to the front of one list

A layer that evicts by recency keeps the order of use in its index and leaves the cells to the base
store. Seen from outside both are one list of pairs, the pair used last in front: a write or a
lookup that finds something moves a pair to the front, and a write then gives up the last pair if
there are more than the capacity. A change of the capacity gives up nothing by itself, so after a
shrink the list stays too long until enough writes have come, each of which gives up one pair.

## Main definitions

* `MoveToFront` — the list and what each call does to it.
* `MoveToFront.Represents` — an index and a base store stand for a list.

## Main statements

* `MoveToFront.Represents.perform` — a call on the layer does to the list what it should, and
  answers the same.
* `Recency.answers_eq_moveToFront` — the answers to any calls are those of the list.
-/

namespace LayeredCache

variable {κ α σ : Type}

namespace Bounded

/-- What can be asked of a bounded layer. -/
inductive Call (κ α : Type) where
  | put (k : κ) (c : Cell α)
  | get (k : κ)
  | remove (k : κ)
  | clear
  | size
  | setCapacity (capacity : Nat)

/-- Makes a call on a bounded layer; `resize` is how its capacity is changed. -/
def perform (d : Cache κ α σ) (resize : Nat → σ → σ) (m : Moment) (s : σ) (g : Ground κ α) :
    Call κ α → Reply κ α σ (Cache.Answer κ α)
  | .put k c =>
    let r := d.put m k c s g
    ⟨r.state, r.ground, .written r.answer⟩
  | .get k =>
    let r := d.get m k s g
    ⟨r.state, r.ground, .looked r.answer⟩
  | .remove k =>
    let r := d.remove m k s g
    ⟨r.state, r.ground, .removed r.answer⟩
  | .clear =>
    let r := d.clear m s g
    ⟨r.state, r.ground, .nothing⟩
  | .size =>
    let r := d.size m s g
    ⟨r.state, r.ground, .counted r.answer⟩
  | .setCapacity capacity => ⟨resize capacity s, g, .nothing⟩

/-- The answers to calls that are made one after the other. -/
def answers (d : Cache κ α σ) (resize : Nat → σ → σ) :
    List (Moment × Call κ α) → σ → Ground κ α → List (Cache.Answer κ α)
  | [], _, _ => []
  | (m, call) :: rest, s, g =>
    let r := perform d resize m s g call
    r.answer :: answers d resize rest r.state r.ground

end Bounded

/-- Changes the capacity of a layer that evicts by recency. -/
def Recency.resize (capacity : Nat) (s : Recency κ × σ) : Recency κ × σ :=
  (s.1.setCapacity capacity, s.2)

/-! ## The list -/

/-- Pairs of keys and cells, the pair used last in front. -/
structure MoveToFront (κ α : Type) where
  /-- The number of pairs above which a write gives up the last one. -/
  capacity : Nat
  pairs : List (κ × Cell α) := []

namespace MoveToFront

/-- Gives up the last pair if there are more pairs than the capacity. -/
def trim (t : MoveToFront κ α) : MoveToFront κ α :=
  if t.capacity < t.pairs.length then { t with pairs := t.pairs.dropLast } else t

variable [DecidableEq κ]

/-- Puts a pair in front, in the place of the one with its key if there is one. -/
def toFront (t : MoveToFront κ α) (k : κ) (c : Cell α) : MoveToFront κ α :=
  { t with pairs := (k, c) :: t.pairs.filter (·.1 ≠ k) }

/-- What a call does to the list, and the answer. -/
def step (t : MoveToFront κ α) : Bounded.Call κ α → MoveToFront κ α × Cache.Answer κ α
  | .put k c => ((t.toFront k c).trim, .written (.ok ()))
  | .get k =>
    match t.pairs.lookup k with
    | some c => (t.toFront k c, .looked (.done (.ok (some c))))
    | none => (t, .looked (.done (.ok none)))
  | .remove k => ({ t with pairs := t.pairs.filter (·.1 ≠ k) }, .removed (t.pairs.lookup k))
  | .clear => ({ t with pairs := [] }, .nothing)
  | .size => (t, .counted t.pairs.length)
  | .setCapacity capacity => ({ t with capacity := capacity }, .nothing)

/-- The answers to calls that are made one after the other. -/
def answers : List (Bounded.Call κ α) → MoveToFront κ α → List (Cache.Answer κ α)
  | [], _ => []
  | call :: rest, t => (t.step call).2 :: answers rest (t.step call).1

/-! ## Lists of pairs with different keys -/

section Pairs

variable {β : Type} {l : List (κ × β)} {k : κ} {v : β}

theorem lookup_eq (k : κ) (l : List (κ × β)) : Table.lookup k l = l.lookup k := by
  induction l with
  | nil => rfl
  | cons e l ih =>
    obtain ⟨k', v⟩ := e
    rw [Table.lookup, List.lookup_cons, ih]
    by_cases h : k' = k
    · simp [h]
    · simp [h, beq_eq_false_iff_ne.mpr (Ne.symm h)]

/-- Leaving out the pair of a key leaves out the key. -/
theorem map_filter_ne (h : (l.map (·.1)).Nodup) (k : κ) :
    (l.filter (·.1 ≠ k)).map (·.1) = (l.map (·.1)).erase k := by
  rw [h.erase_eq_filter, List.filter_map]
  refine congrArg _ (List.filter_congr fun e _ => ?_)
  by_cases he : e.1 = k <;> simp [he]

/-- Only the one pair of a key is left out. -/
theorem filter_ne_append {a b : List (κ × β)} (h : ((a ++ (k, v) :: b).map (·.1)).Nodup) :
    (a ++ (k, v) :: b).filter (·.1 ≠ k) = a ++ b := by
  have hne : ∀ e ∈ a ++ b, e.1 ≠ k := by
    intro e he hek
    rw [(List.perm_middle.map _).nodup_iff, List.map_cons, List.nodup_cons] at h
    exact h.1 (List.mem_map.mpr ⟨e, he, hek⟩)
  have hkept : (a ++ b).filter (·.1 ≠ k) = a ++ b :=
    List.filter_eq_self.mpr fun e he => decide_eq_true (hne e he)
  rw [← hkept, List.filter_append, List.filter_append, List.filter_cons_of_neg (by simp)]

/-- Moving a pair to the front keeps the pairs. -/
theorem perm_cons_filter (h : (l.map (·.1)).Nodup) (hv : (k, v) ∈ l) :
    l.Perm ((k, v) :: l.filter (·.1 ≠ k)) := by
  obtain ⟨a, b, rfl⟩ := List.append_of_mem hv
  rw [filter_ne_append h]
  exact List.perm_middle

end Pairs

/-! ## What stands for a list -/

/-- The index has the keys of the list in its order, and the base store has its pairs. -/
structure Represents (base : Nat) (t : MoveToFront κ α) (r : Recency κ) (g : Ground κ α) :
    Prop where
  valid : r.Valid
  capacity : r.capacity = t.capacity
  order : r.order = t.pairs.map (·.1)
  store : (g.store base).entries.Perm t.pairs

namespace Represents

variable {base : Nat} {t : MoveToFront κ α} {r : Recency κ} {g g' : Ground κ α} {k : κ}
  {c : Cell α}

omit [DecidableEq κ] in
theorem nodup (H : Represents base t r g) : (t.pairs.map (·.1)).Nodup :=
  H.order ▸ H.valid.nodup_order

omit [DecidableEq κ] in
theorem distinct (H : Represents base t r g) : (g.store base).Distinct :=
  (H.store.map _).nodup_iff.mpr H.nodup

theorem find?_eq (H : Represents base t r g) (k : κ) :
    (g.store base).find? k = t.pairs.lookup k := by
  ext c
  rw [← H.distinct.mem_entries, H.store.mem_iff, ← lookup_eq, Table.lookup_eq_some_iff H.nodup]

omit [DecidableEq κ] in
theorem size_eq (H : Represents base t r g) : (g.store base).size = t.pairs.length :=
  H.store.length_eq

theorem mem_order_iff (H : Represents base t r g) :
    k ∈ r.order ↔ t.pairs.lookup k ≠ none := by
  rw [H.order, ← lookup_eq, ne_eq, Table.lookup_eq_none_iff]
  simp

/-- A pair comes to the front when its key is used and the base store has the pair. -/
theorem toFront (H : Represents base t r g)
    (hg : (g'.store base).entries.Perm ((k, c) :: (g.store base).entries.filter (·.1 ≠ k))) :
    Represents base (t.toFront k c) (r.touch k) g' := by
  obtain ⟨hvalid, horder, hcapacity⟩ := H.valid.touch k
  refine ⟨hvalid, hcapacity.trans H.capacity, ?_, ?_⟩
  · rw [horder, H.order, MoveToFront.toFront, List.map_cons, map_filter_ne H.nodup]
  · exact hg.trans ((H.store.filter _).cons (k, c))

/-- The index gives up no key while the list fits. -/
theorem evictEldest_of_le (H : Represents base t r g) (hle : t.pairs.length ≤ t.capacity) :
    t.trim = t ∧ r.evictEldest.2 = none ∧ Represents base t r.evictEldest.1 g := by
  obtain ⟨hvalid, hcapacity, heldest, horder⟩ := H.valid.evictEldest
  have hfits : r.order.length ≤ r.capacity := by simpa [H.order, H.capacity] using hle
  rw [if_pos hfits] at heldest horder
  refine ⟨if_neg (by omega), heldest, hvalid, hcapacity.trans H.capacity, ?_, H.store⟩
  rw [horder, H.order]

/-- The index gives up the last key of a list that is too long. -/
theorem evictEldest_of_lt (H : Represents base t r g) (hlt : t.capacity < t.pairs.length) :
    ∃ eldest, r.evictEldest.2 = some eldest ∧
      ∀ g' : Ground κ α, g'.store base = (g.store base).erase eldest →
        Represents base t.trim r.evictEldest.1 g' := by
  obtain ⟨hvalid, hcapacity, heldest, horder⟩ := H.valid.evictEldest
  have hlong : ¬r.order.length ≤ r.capacity := by simpa [H.order, H.capacity] using hlt
  rw [if_neg hlong] at heldest horder
  have htrim : t.trim = { t with pairs := t.pairs.dropLast } := if_pos hlt
  rcases List.eq_nil_or_concat t.pairs with hnil | ⟨init, ⟨eldest, c⟩, hsplit⟩
  · simp [hnil] at hlt
  · rw [List.concat_eq_append] at hsplit
    have hnodup := H.nodup
    rw [hsplit] at hnodup
    refine ⟨eldest, by simp [heldest, H.order, hsplit], ?_⟩
    intro g' hg'
    rw [htrim]
    refine ⟨hvalid, hcapacity.trans H.capacity, ?_, ?_⟩
    · simp [horder, H.order, hsplit]
    · rw [hg', Table.erase]
      have hkept := H.store.filter (·.1 ≠ eldest)
      rw [hsplit, filter_ne_append hnodup] at hkept
      simpa [hsplit] using hkept

/-- What a write leaves below stands for the list with the pair in front; giving up the last pair,
if need be, is left to do. -/
theorem put (H : Represents base t r g) (id : String) (m : Moment) (k : κ) (c : Cell α) :
    let after := (Recency.onto (Cache.bare id base)).put m k c (r, ()) g
    Represents base (t.toFront k c).trim after.state.1 after.ground ∧ after.answer = .ok () := by
  have hfront : Represents base (t.toFront k c) (r.touch k)
      (g.setStore base ((g.store base).insert k c)) := by
    apply H.toFront
    rw [Ground.store_setStore_self]
    exact List.Perm.refl _
  have hput : (Cache.bare id base : Cache κ α Unit).put m k c () g =
      ⟨(), g.setStore base ((g.store base).insert k c), .ok ()⟩ := rfl
  simp only [Recency.onto, hput]
  by_cases hle : (t.toFront k c).pairs.length ≤ (t.toFront k c).capacity
  · obtain ⟨htrim, hnone, hrepresents⟩ := hfront.evictEldest_of_le hle
    rcases he : (r.touch k).evictEldest with ⟨index, eldest⟩
    rw [he] at hnone hrepresents
    obtain rfl : eldest = none := hnone
    exact ⟨htrim.symm ▸ hrepresents, rfl⟩
  · obtain ⟨eldest, hsome, hrepresents⟩ := hfront.evictEldest_of_lt (by omega)
    rcases he : (r.touch k).evictEldest with ⟨index, evicted⟩
    rw [he] at hsome hrepresents
    obtain rfl : evicted = some eldest := hsome
    exact ⟨hrepresents _ (Cache.remove_bare id base m eldest _).2.2, rfl⟩

/-- A lookup that finds a pair moves it to the front, and one that finds none changes nothing. -/
theorem get (H : Represents base t r g) (k : κ) :
    Represents base (t.step (.get k)).1 (r.refresh k) g ∧
      (t.step (.get k)).2 = .looked (.done (.ok (t.pairs.lookup k))) := by
  cases hc : t.pairs.lookup k with
  | none =>
    obtain ⟨hvalid, horder, hcapacity⟩ := H.valid.refresh k
    have hk : k ∉ r.order := fun hk => H.mem_order_iff.mp hk hc
    rw [if_neg hk] at horder
    simp only [step, hc]
    exact ⟨⟨hvalid, hcapacity.trans H.capacity, horder.trans H.order, H.store⟩, trivial⟩
  | some c =>
    have hk : r.slots.contains k = true := by
      rw [H.valid.contains_iff, H.mem_order_iff, hc]
      simp
    simp only [step, hc, Recency.refresh, hk, if_true]
    refine ⟨H.toFront (perm_cons_filter H.distinct ?_), trivial⟩
    exact H.distinct.mem_entries.mpr ((H.find?_eq k).trans hc)

theorem remove (H : Represents base t r g) (id : String) (m : Moment) (k : κ) :
    let after := (Recency.onto (Cache.bare id base)).remove m k (r, ()) g
    Represents base { t with pairs := t.pairs.filter (·.1 ≠ k) } after.state.1 after.ground ∧
      after.answer = t.pairs.lookup k := by
  obtain ⟨hanswer, -, hstore⟩ := Cache.remove_bare (α := α) id base m k g
  obtain ⟨hvalid, horder, hcapacity⟩ := H.valid.forget k
  refine ⟨⟨hvalid, hcapacity.trans H.capacity, ?_, ?_⟩, hanswer.trans (H.find?_eq k)⟩
  · show (r.forget k).order = _
    rw [horder, H.order, map_filter_ne H.nodup]
  · show (Ground.store _ base).entries.Perm _
    rw [Recency.onto, hstore]
    exact H.store.filter _

/-- A call on the layer does to the list what it should, and answers the same. -/
theorem perform (H : Represents base t r g) (id : String) (m : Moment)
    (call : Bounded.Call κ α) :
    let after := Bounded.perform (Recency.onto (Cache.bare id base)) Recency.resize m (r, ()) g call
    Represents base (t.step call).1 after.state.1 after.ground ∧
      after.answer = (t.step call).2 := by
  cases call with
  | put k c =>
    obtain ⟨hrepresents, hanswer⟩ := H.put id m k c
    exact ⟨hrepresents, congrArg Cache.Answer.written hanswer⟩
  | get k =>
    obtain ⟨hrepresents, hanswer⟩ := H.get k
    refine ⟨hrepresents, ?_⟩
    rw [hanswer, ← H.find?_eq k]
    rfl
  | remove k =>
    obtain ⟨hrepresents, hanswer⟩ := H.remove id m k
    exact ⟨hrepresents, congrArg Cache.Answer.removed hanswer⟩
  | clear =>
    refine ⟨⟨Recency.valid_clear r, H.capacity, Recency.order_clear r, ?_⟩, rfl⟩
    simp [Bounded.perform, Recency.onto, Cache.bare, step, Table.empty]
  | size => exact ⟨H, congrArg Cache.Answer.counted H.size_eq⟩
  | setCapacity capacity =>
    obtain ⟨hvalid, horder⟩ := H.valid.setCapacity capacity
    exact ⟨⟨hvalid, rfl, horder.trans H.order, H.store⟩, rfl⟩

theorem answers_eq (H : Represents base t r g) (id : String)
    (calls : List (Moment × Bounded.Call κ α)) :
    Bounded.answers (Recency.onto (Cache.bare id base)) Recency.resize calls (r, ()) g =
      answers (calls.map (·.2)) t := by
  induction calls generalizing t r g with
  | nil => rfl
  | cons call calls ih =>
    obtain ⟨hrepresents, hanswer⟩ := H.perform id call.1 call.2
    rw [Bounded.answers, List.map_cons, answers]
    exact congrArg₂ List.cons hanswer (ih hrepresents)

end Represents

omit [DecidableEq κ] in
/-- A new index over an empty base store stands for the empty list. -/
theorem represents_ofCapacity {base : Nat} {g : Ground κ α} (hempty : g.store base = .empty)
    (capacity : Nat) :
    Represents base (⟨capacity, []⟩ : MoveToFront κ α) (Recency.ofCapacity capacity) g :=
  ⟨Recency.valid_ofCapacity capacity, rfl, Recency.order_ofCapacity capacity, by
    rw [hempty]
    exact List.Perm.refl _⟩

end MoveToFront

/-- A layer that evicts by recency over an empty base store answers every sequence of calls, changes
of the capacity among them, as one list of pairs does that moves what is used to the front. -/
theorem Recency.answers_eq_moveToFront [DecidableEq κ] (id : String) (base capacity : Nat)
    {g : Ground κ α} (hempty : g.store base = .empty)
    (calls : List (Moment × Bounded.Call κ α)) :
    Bounded.answers (Recency.onto (Cache.bare id base)) Recency.resize calls
        (Recency.ofCapacity capacity, ()) g =
      MoveToFront.answers (calls.map (·.2)) ⟨capacity, []⟩ :=
  (MoveToFront.represents_ofCapacity hempty capacity).answers_eq id calls

/-- Room for two keys: the lookup saves the first one from the third, and after the capacity became
zero the next write gives up one key and no more. -/
theorem shrink_gives_up_one_pair :
    let cell (n : Nat) : Cell Nat := { item := ⟨n, .plain n⟩ }
    let calls : List (Moment × Bounded.Call Nat Nat) :=
      [.put 1 (cell 1), .put 2 (cell 2), .get 1, .put 3 (cell 3), .get 2, .setCapacity 0,
        .put 4 (cell 4), .size, .get 1, .remove 3].map fun call => ({}, call)
    ({} : Ground Nat Nat).store 0 = .empty ∧
      Bounded.answers (Recency.onto (Cache.bare "users" 0)) Recency.resize calls
          (Recency.ofCapacity 2, ()) {} =
        [.written (.ok ()), .written (.ok ()), .looked (.done (.ok (some (cell 1)))),
          .written (.ok ()), .looked (.done (.ok none)), .nothing, .written (.ok ()), .counted 2,
          .looked (.done (.ok none)), .removed (some (cell 3))] := by
  intro cell calls
  refine ⟨rfl, (Recency.answers_eq_moveToFront "users" 0 2 rfl calls).trans ?_⟩
  simp [calls, MoveToFront.answers, MoveToFront.step, MoveToFront.toFront, MoveToFront.trim,
    List.lookup_cons]

end LayeredCache
