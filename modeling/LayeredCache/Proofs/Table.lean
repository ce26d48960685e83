import LayeredCache.Table
import Mathlib.Data.List.Nodup
import Mathlib.Data.List.Perm.Basic
import Mathlib.Tactic.Cases

/-!
# Tables as lists of pairs

Equations for `lookup` through the operations of lists, for developments that say which entries a
table has and in which order, not only what its keys read.
-/

namespace LayeredCache.Table

variable {κ β γ : Type} [DecidableEq κ]

theorem lookup_append (k : κ) (a b : List (κ × β)) :
    lookup k (a ++ b) = (lookup k a).or (lookup k b) := by
  induction a with
  | nil => rfl
  | cons e a ih =>
    by_cases h : e.1 = k
    · simp [lookup, h]
    · simpa [lookup, h] using ih

theorem lookup_eq_none_iff {k : κ} {l : List (κ × β)} :
    lookup k l = none ↔ ∀ e ∈ l, e.1 ≠ k := by
  induction l with
  | nil => simp [lookup]
  | cons e l ih =>
    by_cases h : e.1 = k
    · simp [lookup, h]
    · simpa [lookup, h] using ih

theorem mem_of_lookup {k : κ} {v : β} {l : List (κ × β)} (h : lookup k l = some v) :
    (k, v) ∈ l := by
  induction l with
  | nil => cases h
  | cons e l ih =>
    by_cases he : e.1 = k
    · simp only [lookup, if_pos he, Option.some.injEq] at h
      subst he
      subst h
      exact List.mem_cons_self
    · rw [lookup, if_neg he] at h
      exact List.mem_cons_of_mem e (ih h)

/-- In a list that holds each key once, the pairs are what `lookup` reads. -/
theorem lookup_eq_some_iff {k : κ} {v : β} {l : List (κ × β)} (h : (l.map (·.1)).Nodup) :
    lookup k l = some v ↔ (k, v) ∈ l := by
  refine ⟨mem_of_lookup, ?_⟩
  intro hm
  induction l with
  | nil => cases hm
  | cons e l ih =>
    rw [List.map_cons, List.nodup_cons] at h
    rcases List.mem_cons.mp hm with rfl | hm
    · simp [lookup]
    · have hne : e.1 ≠ k := by
        intro he
        exact h.1 (he ▸ List.mem_map_of_mem hm)
      rw [lookup, if_neg hne]
      exact ih h.2 hm

/-- Leaving entries out by their keys hides these keys and no others. -/
theorem lookup_filter (p : κ → Bool) (k : κ) (l : List (κ × β)) :
    lookup k (l.filter fun e => p e.1) = if p k then lookup k l else none := by
  induction l with
  | nil => simp [lookup]
  | cons e l ih =>
    by_cases he : e.1 = k
    · subst he
      cases hp : p e.1 <;> simp_all [lookup]
    · cases hp : p e.1 <;> simp_all [lookup]

theorem lookup_reverse {k : κ} {l : List (κ × β)} (h : (l.map (·.1)).Nodup) :
    lookup k l.reverse = lookup k l := by
  have hr : (l.reverse.map (·.1)).Nodup := by simpa using h
  cases hl : lookup k l with
  | some v => exact (lookup_eq_some_iff hr).mpr (List.mem_reverse.mpr (mem_of_lookup hl))
  | none =>
    rw [lookup_eq_none_iff] at hl ⊢
    intro e he
    exact hl e (List.mem_reverse.mp he)

/-- A map that keeps the keys maps what `lookup` reads. -/
theorem lookup_map_of_fst (f : κ × β → κ × γ) (hf : ∀ e, (f e).1 = e.1) (k : κ)
    (l : List (κ × β)) : lookup k (l.map f) = (lookup k l).map fun v => (f (k, v)).2 := by
  induction l with
  | nil => rfl
  | cons e l ih =>
    by_cases h : e.1 = k
    · subst h
      simp [lookup, hf]
    · simpa [lookup, hf, h] using ih

theorem lookup_map (f : β → γ) (k : κ) (l : List (κ × β)) :
    lookup k (l.map fun e => (e.1, f e.2)) = (lookup k l).map f := by
  induction l with
  | nil => rfl
  | cons e l ih => by_cases h : e.1 = k <;> simp_all [lookup]

theorem contains_eq_any (k : κ) (l : List (κ × β)) :
    (lookup k l).isSome = l.any fun e => e.1 = k := by
  induction l with
  | nil => rfl
  | cons e l ih => by_cases h : e.1 = k <;> simp_all [lookup]

theorem erase_eq_self {t : Table κ β} {k : κ} (h : t.find? k = none) : t.erase k = t := by
  have hne := lookup_eq_none_iff.mp h
  rw [erase, List.filter_eq_self.mpr fun e he => decide_eq_true (hne e he)]

theorem contains_erase (t : Table κ β) (k k' : κ) :
    (t.erase k).contains k' = (k' ≠ k && t.contains k') := by
  rw [contains, find?_erase, contains]
  by_cases h : k' = k <;> simp [h]

theorem contains_insert (t : Table κ β) (k k' : κ) (v : β) :
    (t.insert k v).contains k' = (k' = k || t.contains k') := by
  rw [contains, find?_insert, contains]
  by_cases h : k' = k <;> simp [h]

theorem find?_filter_fst (p : κ → Bool) (t : Table κ β) (k : κ) :
    find? ⟨t.entries.filter fun e => p e.1⟩ k = if p k then t.find? k else none :=
  lookup_filter p k t.entries

/-- Leaving out keys of a table without a key. -/
theorem filter_erase (t : Table κ β) (k : κ) (keys : List κ) :
    (⟨(t.erase k).entries.filter (·.1 ∉ keys)⟩ : Table κ β) =
      ⟨t.entries.filter (·.1 ∉ k :: keys)⟩ := by
  rw [erase, List.filter_filter]
  refine congrArg Table.mk (List.filter_congr fun e _ => ?_)
  by_cases he : e.1 = k <;> simp [he]

/-! ## Tables that hold each key once -/

/-- Each key has one entry at most. -/
def Distinct (t : Table κ β) : Prop := t.keys.Nodup

omit [DecidableEq κ] in
theorem distinct_empty : (empty : Table κ β).Distinct := List.nodup_nil

omit [DecidableEq κ] in
theorem Distinct.filter {t : Table κ β} (h : t.Distinct) (p : κ × β → Bool) :
    Distinct ⟨t.entries.filter p⟩ := (List.filter_sublist.map _).nodup h

omit [DecidableEq κ] in
theorem Distinct.map {t : Table κ β} (h : t.Distinct) {f : κ × β → κ × γ}
    (hf : ∀ e, (f e).1 = e.1) : Distinct ⟨t.entries.map f⟩ := by
  have hkeys : (t.entries.map f).map (·.1) = t.keys := by
    rw [List.map_map]
    exact List.map_congr_left fun e _ => hf e
  rw [Distinct, keys, hkeys]
  exact h

theorem Distinct.erase {t : Table κ β} (h : t.Distinct) (k : κ) : (t.erase k).Distinct := h.filter _

theorem Distinct.insert {t : Table κ β} (h : t.Distinct) (k : κ) (v : β) :
    (t.insert k v).Distinct := by
  refine List.nodup_cons.mpr ⟨?_, h.erase k⟩
  intro hk
  obtain ⟨e, he, hke⟩ := List.mem_map.mp hk
  have hne := (List.mem_filter.mp he).2
  simp [hke] at hne

theorem Distinct.modify {t : Table κ β} (h : t.Distinct) (k : κ) (f : β → β) :
    (t.modify k f).Distinct := by
  apply h.map
  intro e
  split <;> rfl

/-- The entries are what the keys read. -/
theorem Distinct.mem_entries {t : Table κ β} (h : t.Distinct) {k : κ} {v : β} :
    (k, v) ∈ t.entries ↔ t.find? k = some v := (lookup_eq_some_iff h).symm

theorem Distinct.find?_filter {t : Table κ β} (h : t.Distinct) (p : κ × β → Bool) (k : κ) :
    find? ⟨t.entries.filter p⟩ k = (t.find? k).filter fun v => p (k, v) := by
  ext v
  rw [← (h.filter p).mem_entries, List.mem_filter, h.mem_entries, Option.filter_eq_some_iff]

/-- A table is no larger than a list of keys that has all of its own. -/
theorem Distinct.size_le {t : Table κ β} (h : t.Distinct) {keys : List κ}
    (hkeys : ∀ k v, t.find? k = some v → k ∈ keys) : t.size ≤ keys.length := by
  have hsub : t.keys ⊆ keys := by
    intro k hk
    obtain ⟨e, he, rfl⟩ := List.mem_map.mp hk
    exact hkeys e.1 e.2 (h.mem_entries.mp he)
  have hle := (List.subperm_of_subset h hsub).length_le
  rwa [Table.keys, List.length_map] at hle

end LayeredCache.Table
