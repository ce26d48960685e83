import LayeredCache.Proofs.Bounded.MoveToFront

/-!
# More room finds whatever less room finds

Two layers that evict by recency get the same calls, one with more room than the other. What the
smaller one has, the larger one has as well, in the same order of use. It is not that the one list
is the beginning of the other: a lookup that finds something only in the larger one moves a pair
there and leaves the smaller one as it is, and removals shorten the two by different numbers. What
carries the induction is that the pairs of the smaller one are a sublist, and that it lacks no more
pairs than it lacks room: so whenever the larger one gives up a pair, the smaller one does too.

## Main definitions

* `MoveToFront.Included` — the pairs of one list are among those of another one, which has more
  room.
* `Bounded.after` — the state and the ground after calls.

## Main statements

* `MoveToFront.Included.step` — a call on both keeps the relation.
* `Recency.inclusion` — after the same calls, what is stored and found with less room is stored and
  found with more room.
-/

namespace LayeredCache

variable {κ α σ : Type}

namespace Bounded

/-- Whether a call leaves the capacity as it is. -/
def Call.KeepsCapacity : Call κ α → Prop
  | .setCapacity _ => False
  | _ => True

/-- The state and the ground after calls that are made one after the other. -/
def after (d : Cache κ α σ) (resize : Nat → σ → σ) :
    List (Moment × Call κ α) → σ → Ground κ α → σ × Ground κ α
  | [], s, g => (s, g)
  | (m, call) :: rest, s, g =>
    let r := perform d resize m s g call
    after d resize rest r.state r.ground

end Bounded

namespace MoveToFront

/-- The list after calls that are made one after the other. -/
def after [DecidableEq κ] (calls : List (Bounded.Call κ α)) (t : MoveToFront κ α) :
    MoveToFront κ α :=
  calls.foldl (fun t call => (t.step call).1) t

/-- An index and a base store stand for a list also after calls. -/
theorem Represents.after [DecidableEq κ] {base : Nat} {t : MoveToFront κ α} {r : Recency κ}
    {g : Ground κ α} (H : Represents base t r g) (id : String)
    (calls : List (Moment × Bounded.Call κ α)) :
    let last := Bounded.after (Recency.onto (Cache.bare id base)) Recency.resize calls (r, ()) g
    Represents base (t.after (calls.map (·.2))) last.1.1 last.2 := by
  induction calls generalizing t r g with
  | nil => exact H
  | cons call calls ih => exact ih (H.perform id call.1 call.2).1

/-! ## Less room and more room -/

/-- The pairs of `t` are among those of `t'`, in the same order, and `t` lacks no more pairs than it
lacks room. -/
structure Included (t t' : MoveToFront κ α) : Prop where
  sublist : t.pairs.Sublist t'.pairs
  room : t'.pairs.length + t.capacity ≤ t.pairs.length + t'.capacity

theorem sublist_dropLast {β : Type} {l l' : List β} (h : l.Sublist l') :
    l.dropLast.Sublist l'.dropLast := by
  have hback := h.reverse.tail
  rw [List.tail_reverse, List.tail_reverse] at hback
  exact List.reverse_sublist.mp hback

namespace Included

variable {t t' : MoveToFront κ α} {k : κ} {c : Cell α}

theorem capacity_le (H : Included t t') : t.capacity ≤ t'.capacity := by
  have hlength := H.sublist.length_le
  have hroom := H.room
  omega

/-- When the larger list gives up its last pair, then the smaller one does too. -/
theorem trim (H : Included t t') : Included t.trim t'.trim := by
  have hlength := H.sublist.length_le
  have hroom := H.room
  unfold MoveToFront.trim
  by_cases hlong' : t'.capacity < t'.pairs.length
  · have hlong : t.capacity < t.pairs.length := by omega
    rw [if_pos hlong, if_pos hlong']
    refine ⟨sublist_dropLast H.sublist, ?_⟩
    simp only [List.length_dropLast]
    omega
  · rw [if_neg hlong']
    by_cases hlong : t.capacity < t.pairs.length
    · rw [if_pos hlong]
      refine ⟨(List.dropLast_sublist _).trans H.sublist, ?_⟩
      simp only [List.length_dropLast]
      omega
    · rw [if_neg hlong]
      exact H

/-- The larger list loses at least as many pairs to a condition as the smaller one. -/
theorem filter (H : Included t t') (p : κ × Cell α → Bool) :
    Included { t with pairs := t.pairs.filter p } { t' with pairs := t'.pairs.filter p } := by
  refine ⟨H.sublist.filter p, ?_⟩
  have hroom := H.room
  have hsplit := List.length_eq_length_filter_add (l := t.pairs) p
  have hsplit' := List.length_eq_length_filter_add (l := t'.pairs) p
  have hlost := (H.sublist.filter fun e => !p e).length_le
  show (t'.pairs.filter p).length + t.capacity ≤ (t.pairs.filter p).length + t'.capacity
  omega

variable [DecidableEq κ]

theorem toFront (H : Included t t') (k : κ) (c : Cell α) :
    Included (t.toFront k c) (t'.toFront k c) := by
  have hfilter := H.filter (·.1 ≠ k)
  refine ⟨hfilter.sublist.cons_cons (k, c), ?_⟩
  have hroom := hfilter.room
  simp only [MoveToFront.toFront, List.length_cons] at hroom ⊢
  omega

/-- What the smaller list has under a key, the larger one has. -/
theorem lookup_eq_some (H : Included t t') (hd : (t'.pairs.map (·.1)).Nodup)
    (h : t.pairs.lookup k = some c) : t'.pairs.lookup k = some c := by
  rw [← lookup_eq] at h ⊢
  rw [Table.lookup_eq_some_iff hd]
  rw [Table.lookup_eq_some_iff (hd.sublist (H.sublist.map _))] at h
  exact H.sublist.subset h

/-- A pair that only the larger list has comes to its front. -/
theorem toFront_right (H : Included t t') (hd : (t'.pairs.map (·.1)).Nodup)
    (hnone : t.pairs.lookup k = none) (hsome : t'.pairs.lookup k = some c) :
    Included t (t'.toFront k c) := by
  have hmem : (k, c) ∈ t'.pairs := by
    rwa [← lookup_eq, Table.lookup_eq_some_iff hd] at hsome
  have hkept : t.pairs.filter (·.1 ≠ k) = t.pairs := by
    refine List.filter_eq_self.mpr fun e he => decide_eq_true fun hek => ?_
    rw [← lookup_eq, Table.lookup_eq_none_iff] at hnone
    exact hnone e he hek
  have hfilter : (t.pairs.filter (·.1 ≠ k)).Sublist (t'.pairs.filter (·.1 ≠ k)) :=
    H.sublist.filter _
  rw [hkept] at hfilter
  refine ⟨hfilter.cons (k, c), ?_⟩
  have hlength := (perm_cons_filter hd hmem).length_eq
  have hroom := H.room
  simp only [MoveToFront.toFront]
  omega

/-- A call on both lists keeps the relation. -/
theorem step (H : Included t t') (hd : (t'.pairs.map (·.1)).Nodup) {call : Bounded.Call κ α}
    (hcall : call.KeepsCapacity) : Included (t.step call).1 (t'.step call).1 := by
  cases call with
  | put k c => exact (H.toFront k c).trim
  | get k =>
    cases h : t.pairs.lookup k with
    | some c =>
      simp only [MoveToFront.step, h, H.lookup_eq_some hd h]
      exact H.toFront k c
    | none =>
      simp only [MoveToFront.step, h]
      cases h' : t'.pairs.lookup k with
      | some c => exact H.toFront_right hd h h'
      | none => exact H
  | remove k => exact H.filter (·.1 ≠ k)
  | clear => exact ⟨List.Sublist.refl [], Nat.add_le_add_left H.capacity_le 0⟩
  | size => exact H
  | setCapacity capacity => exact hcall.elim

/-- Calls on both lists keep the relation. -/
theorem after {base : Nat} {r : Recency κ} {g : Ground κ α} {calls : List (Bounded.Call κ α)}
    (H : Included t t') (R : Represents base t' r g)
    (hcalls : ∀ call ∈ calls, call.KeepsCapacity) :
    Included (t.after calls) (t'.after calls) := by
  induction calls generalizing t t' r g with
  | nil => exact H
  | cons call calls ih =>
    obtain ⟨hcall, hcalls⟩ := List.forall_mem_cons.mp hcalls
    exact ih (H.step R.nodup hcall) (R.perform "" {} call).1 hcalls

end Included

end MoveToFront

/-- Two layers that evict by recency over empty base stores get the same calls, in whatever moments,
and the first one has no more room. What its base store has then, that of the second one has, and
the keys, which are those in the order of use, stand in the same order there. So a lookup that finds
something through the first layer finds the same through the second one. -/
theorem Recency.inclusion [DecidableEq κ] (id id' : String) (base base' : Nat)
    {capacity capacity' : Nat} (hle : capacity ≤ capacity') {g g' : Ground κ α}
    (hempty : g.store base = .empty) (hempty' : g'.store base' = .empty)
    {calls calls' : List (Moment × Bounded.Call κ α)}
    (hsame : calls.map (·.2) = calls'.map (·.2))
    (hkeeps : ∀ call ∈ calls, call.2.KeepsCapacity) :
    let layer : Cache κ α (Recency κ × Unit) := Recency.onto (Cache.bare id base)
    let layer' : Cache κ α (Recency κ × Unit) := Recency.onto (Cache.bare id' base')
    let last := Bounded.after layer Recency.resize calls (Recency.ofCapacity capacity, ()) g
    let last' := Bounded.after layer' Recency.resize calls' (Recency.ofCapacity capacity', ()) g'
    (∀ k c, (last.2.store base).find? k = some c → (last'.2.store base').find? k = some c) ∧
      (∀ k, k ∈ last.1.1.order ↔ (last.2.store base).find? k ≠ none) ∧
      (∀ k, k ∈ last'.1.1.order ↔ (last'.2.store base').find? k ≠ none) ∧
      last.1.1.order.Sublist last'.1.1.order ∧
      ∀ k c m m',
        (Bounded.perform layer Recency.resize m last.1 last.2 (.get k)).answer =
            .looked (.done (.ok (some c))) →
          (Bounded.perform layer' Recency.resize m' last'.1 last'.2 (.get k)).answer =
            .looked (.done (.ok (some c))) := by
  intro layer layer' last last'
  have hstart := MoveToFront.represents_ofCapacity hempty' capacity'
  have R := (MoveToFront.represents_ofCapacity hempty capacity).after id calls
  have R' := hstart.after id' calls'
  have H : MoveToFront.Included (κ := κ) (α := α) ⟨capacity, []⟩ ⟨capacity', []⟩ :=
    ⟨List.Sublist.refl [], Nat.add_le_add_left hle 0⟩
  have hcalls : ∀ call ∈ calls.map (·.2), call.KeepsCapacity := List.forall_mem_map.mpr hkeeps
  replace H := H.after hstart hcalls
  rw [← hsame] at R'
  have hstored (k : κ) (c : Cell α) (h : (last.2.store base).find? k = some c) :
      (last'.2.store base').find? k = some c := by
    rw [R.find?_eq] at h
    rw [R'.find?_eq]
    exact H.lookup_eq_some R'.nodup h
  refine ⟨hstored, fun k => ?_, fun k => ?_, ?_, fun k c m m' h => ?_⟩
  · rw [R.find?_eq]
    exact R.mem_order_iff
  · rw [R'.find?_eq]
    exact R'.mem_order_iff
  · rw [R.order, R'.order]
    exact H.sublist.map _
  · rw [(R.perform id m (.get k)).2, (R.get k).2, ← R.find?_eq] at h
    rw [(R'.perform id' m' (.get k)).2, (R'.get k).2, ← R'.find?_eq]
    simp only [Cache.Answer.looked.injEq, Lookup.done.injEq, Except.ok.injEq] at h ⊢
    exact hstored k c h

namespace Recency.Rooms

def cell (n : Nat) : Cell Nat := { item := ⟨n, .plain n⟩ }

/-- The first key is looked up when the second one has come. -/
def calls : List (Moment × Bounded.Call Nat Nat) :=
  [({}, .put 1 (cell 1)), ({}, .put 2 (cell 2)), ({}, .get 1), ({}, .put 3 (cell 3))]

/-- The order of use and the base store after the calls. -/
def last (capacity : Nat) : (Recency Nat × Unit) × Ground Nat Nat :=
  Bounded.after (Recency.onto (Cache.bare "users" 0)) Recency.resize calls
    (Recency.ofCapacity capacity, ()) {}

/-- With room for two keys the lookup finds something and moves it in front of the second key, which
goes when the third one comes; with room for one key it finds nothing. -/
theorem lookup_that_hits_with_more_room_only :
    1 ≤ 2 ∧ (last 1).1.1.order = [3] ∧ (last 2).1.1.order = [3, 1] ∧
      (last 1).1.1.order.Sublist (last 2).1.1.order ∧
      ((last 1).2.store 0).find? 3 = some (cell 3) ∧
      ((last 2).2.store 0).find? 3 = some (cell 3) := by
  have hkeeps : ∀ call ∈ calls, call.2.KeepsCapacity := by
    simp [calls, Bounded.Call.KeepsCapacity]
  have hempty : ({} : Ground Nat Nat).store 0 = .empty := rfl
  have hsame : calls.map (·.2) = calls.map (·.2) := rfl
  obtain ⟨hstored, -, -, horder, -⟩ :=
    Recency.inclusion "users" "users" 0 0 (by decide : 1 ≤ 2) hempty hempty hsame hkeeps
  have hthird : ((last 1).2.store 0).find? 3 = some (cell 3) := by decide
  exact ⟨by decide, by decide, by decide, horder, hthird, hstored 3 (cell 3) hthird⟩

end Recency.Rooms

end LayeredCache
