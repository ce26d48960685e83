import LayeredCache.Layer.Leasing
import LayeredCache.Proofs.Base

/-!
# Leases that are unpinned

A soft layer queues the lease of every write and unpins those at the front, as many as are above
its limit. So a lease is unpinned when as many writes as the limit have followed its own. A
collection unpins all leases of the layer at once. Nothing else changes in the base store.

## Main definitions

* `Leasing.Unpins` — the cells of a base store were unpinned at most.
-/

namespace LayeredCache.Leasing

variable {κ α : Type}

/-! ## Queues of leases -/

section Queue

variable {β : Type} {queue before behind : List β} {q : β} {limit : Nat}

/-- What is taken from a queue above its limit: that behind which stand as many as the limit. -/
theorem mem_take_iff (hnodup : queue.Nodup) (h : queue = before ++ q :: behind) :
    q ∈ queue.take (queue.length - limit) ↔ limit ≤ behind.length := by
  subst h
  rw [List.nodup_append, List.nodup_cons] at hnodup
  have hbefore : q ∉ before := fun hq => hnodup.2.2 q hq q List.mem_cons_self rfl
  have hlength : (before ++ q :: behind).length = before.length + (behind.length + 1) := by simp
  rw [hlength, List.take_append, List.mem_append]
  constructor
  · rintro (hq | hq)
    · exact absurd (List.mem_of_mem_take hq) hbefore
    · have hpos : before.length + (behind.length + 1) - limit - before.length ≠ 0 := by
        intro hzero
        rw [hzero] at hq
        cases hq
      omega
  · intro hle
    right
    have hsucc : before.length + (behind.length + 1) - limit - before.length =
        behind.length - limit + 1 := by omega
    rw [hsucc, List.take_succ_cons]
    exact List.mem_cons_self

/-- What is left in a queue keeps what stands behind it. -/
theorem drop_eq_of_lt (h : queue = before ++ q :: behind) (hlt : behind.length < limit) :
    ∃ before', queue.drop (queue.length - limit) = before' ++ q :: behind := by
  subst h
  have hlength : (before ++ q :: behind).length = before.length + (behind.length + 1) := by simp
  refine ⟨before.drop (before.length + (behind.length + 1) - limit), ?_⟩
  rw [hlength, List.drop_append_of_le_length (by omega)]

end Queue

/-! ## Seeing a moment -/

theorem registry_observe (l : Leasing κ) (m : Moment) : (l.observe m).1.registry = l.registry := by
  unfold observe
  simp only
  split
  · rfl
  · split <;> rfl

theorem hardLinks_observe (l : Leasing κ) (m : Moment) :
    (l.observe m).1.hardLinks = l.hardLinks := by
  unfold observe
  simp only
  split
  · rfl
  · split <;> rfl

/-! ## Unpinning leases -/

variable [DecidableEq κ]

theorem unpin_spec (base : Nat) (g : Ground κ α) (k : κ) (n : Nat) :
    (unpin base g k n).Beside base g ∧
      ((g.store base).Distinct → ((unpin base g k n).store base).Distinct) ∧
      ∀ k', ((unpin base g k n).store base).find? k' =
        ((g.store base).find? k').map fun c =>
          if k = k' ∧ c.isUnder n = true then c.unpin else c := by
  have hsame : ∀ k', (∀ c, (g.store base).find? k = some c → c.isUnder n = false) →
      (g.store base).find? k' = ((g.store base).find? k').map fun c =>
        if k = k' ∧ c.isUnder n = true then c.unpin else c := by
    intro k' hunder
    cases hc : (g.store base).find? k' with
    | none => rfl
    | some c =>
      rw [Option.map_some, if_neg]
      rintro ⟨rfl, h⟩
      rw [hunder c hc] at h
      cases h
  unfold unpin
  cases hc : (g.store base).find? k with
  | none =>
    refine ⟨Ground.Beside.refl base g, fun h => h, fun k' => hsame k' ?_⟩
    intro c hc'
    rw [hc] at hc'
    cases hc'
  | some c =>
    by_cases hunder : c.isUnder n = true
    · simp only [if_pos hunder]
      refine ⟨Ground.beside_setStore base g _, ?_, ?_⟩
      · intro h
        rw [Ground.store_setStore_self]
        exact h.modify k Cell.unpin
      · intro k'
        rw [Ground.store_setStore_self, Table.find?_modify]
        by_cases he : k' = k
        · subst he
          simp [hc, hunder]
        · simp [he, Ne.symm he]
    · simp only [if_neg hunder]
      refine ⟨Ground.Beside.refl base g, fun h => h, fun k' => hsame k' ?_⟩
      intro c' hc'
      rw [hc] at hc'
      cases hc'
      simpa using hunder

theorem foldl_unpin_spec (base : Nat) (leases : List (κ × Nat)) (g : Ground κ α) :
    let g' := leases.foldl (fun g p => unpin base g p.1 p.2) g
    g'.Beside base g ∧ ((g.store base).Distinct → (g'.store base).Distinct) ∧
      ∀ k, (g'.store base).find? k = ((g.store base).find? k).map fun c =>
        if ∃ p ∈ leases, p.1 = k ∧ c.isUnder p.2 = true then c.unpin else c := by
  induction leases generalizing g with
  | nil =>
    refine ⟨Ground.Beside.refl base g, fun h => h, ?_⟩
    intro k
    simp
  | cons p leases ih =>
    obtain ⟨hbeside, hdistinct, hfind⟩ := unpin_spec base g p.1 p.2
    obtain ⟨hbeside', hdistinct', hfind'⟩ := ih (unpin base g p.1 p.2)
    refine ⟨hbeside'.trans hbeside, hdistinct' ∘ hdistinct, ?_⟩
    intro k
    refine (hfind' k).trans ?_
    rw [hfind k, Option.map_map]
    refine congrArg (fun f => Option.map f ((g.store base).find? k)) ?_
    funext c
    by_cases hp : p.1 = k ∧ c.isUnder p.2 = true
    · have hunpin : c.unpin.unpin = c.unpin := by
        obtain ⟨item, lease⟩ := c
        cases lease <;> rfl
      simp [Function.comp, hp, hunpin]
    · simp only [Function.comp, List.exists_mem_cons_iff, hp, false_or, if_false]

theorem unpinAll_spec (base : Nat) (l : Leasing κ) (g : Ground κ α) :
    (unpinAll base l g).1.Beside base g ∧
      ((g.store base).Distinct → ((unpinAll base l g).1.store base).Distinct) ∧
      ∀ k, ((unpinAll base l g).1.store base).find? k = ((g.store base).find? k).map fun c =>
        if c.lease.any (·.pinned) && l.owns k c then c.unpin else c := by
  refine ⟨Ground.beside_setStore base g _, ?_, ?_⟩
  · intro h
    simp only [unpinAll, Ground.store_setStore_self]
    apply h.map
    intro e
    split <;> rfl
  · intro k
    simp only [unpinAll, Ground.store_setStore_self, Table.find?]
    rw [Table.lookup_map_of_fst]
    · refine congrArg (fun f => Option.map f (Table.lookup k (g.store base).entries)) ?_
      funext c
      split <;> rfl
    · intro e
      split <;> rfl

/-- The cells of a base store were unpinned at most. -/
def Unpins (base : Nat) (g' g : Ground κ α) : Prop :=
  ∀ k, ∃ f : Cell α → Cell α, (∀ c, f c = c ∨ f c = c.unpin) ∧
    (g'.store base).find? k = ((g.store base).find? k).map f

theorem unpins_unpinAll (base : Nat) (l : Leasing κ) (g : Ground κ α) :
    Unpins base (unpinAll base l g).1 g := by
  refine fun k => ⟨_, ?_, (unpinAll_spec base l g).2.2 k⟩
  intro c
  split
  · exact .inr rfl
  · exact .inl rfl

theorem unpins_track (base : Nat) (l : Leasing κ) (k : κ) (serial : Nat) (g : Ground κ α) :
    Unpins base (track base l k serial g).2 g := by
  unfold track
  split
  · exact fun k' => ⟨id, fun c => .inl rfl, Option.map_id.symm ▸ rfl⟩
  · refine fun k' => ⟨_, ?_, (foldl_unpin_spec base _ g).2.2 k'⟩
    intro c
    split
    · exact .inr rfl
    · exact .inl rfl

/-- A cell of afterwards was there before, pinned or not. -/
theorem Unpins.exists_cell {base : Nat} {g g' : Ground κ α} (h : Unpins base g' g) {k : κ}
    {c' : Cell α} (hc' : (g'.store base).find? k = some c') :
    ∃ c, (g.store base).find? k = some c ∧ (c' = c ∨ c' = c.unpin) := by
  obtain ⟨f, hf, hfind⟩ := h k
  rw [hfind] at hc'
  obtain ⟨c, hc, rfl⟩ := Option.map_eq_some_iff.mp hc'
  exact ⟨c, hc, hf c⟩

/-- Unpinning leases unpins a cell if its own lease is among them. -/
theorem lease_unpinned {c : Cell α} {k : κ} {n : Nat} {pinned : Bool}
    (h : c.lease = some ⟨n, pinned⟩) (leases : List (κ × Nat)) :
    (if ∃ p ∈ leases, p.1 = k ∧ c.isUnder p.2 = true then c.unpin else c).lease =
      some ⟨n, pinned && !decide ((k, n) ∈ leases)⟩ := by
  have hiff : (∃ p ∈ leases, p.1 = k ∧ c.isUnder p.2 = true) ↔ (k, n) ∈ leases := by
    constructor
    · rintro ⟨⟨k', n'⟩, hp, rfl, hunder⟩
      have hn : n = n' := by simpa [Cell.isUnder, h] using hunder
      exact hn ▸ hp
    · intro hp
      exact ⟨(k, n), hp, rfl, by simp [Cell.isUnder, h]⟩
  by_cases hp : (k, n) ∈ leases
  · rw [if_pos (hiff.mpr hp), Cell.unpin, h]
    simp [hp]
  · rw [if_neg fun h' => hp (hiff.mp h'), h]
    simp [hp]

end LayeredCache.Leasing
