import LayeredCache.Layer.Bounded
import LayeredCache.Proofs.Base
import LayeredCache.Proofs.Run
import Mathlib.Data.List.Perm.Basic

/-!
# What a queue of writes keeps

A layer that evicts in the order of writes queues the key of every write, whether or not the key is
queued already, and leaves the queue alone when a key is removed. So its queue is the keys of the
last writes, and a write gives up the key of the write that lies its capacity back, whatever has
become of that key since: an old place in the queue takes a newer value with it. Numbering the
writes since the last clear tells from the history alone which keys are stored.

## Main definitions

* `WriteQueue.writes`, `WriteQueue.IsWrite` — the writes since the last clear and their numbers.
* `WriteQueue.Survives` — the last write of a key was neither removed nor given up since.

## Main statements

* `WriteQueue.Follows.perform` — the history tells the queue and the base store, call by call.
* `WriteQueue.Run.stored_iff_survives` — the closed form, and what follows from it.
-/

namespace LayeredCache.WriteQueue

variable {κ α : Type}

/-! ## Histories -/

/-- The writes since the last clear, the first one in front. -/
def writes : (past : List (Cache.Record κ α)) → List (κ × Item α)
  | [] => []
  | r :: past =>
    match r.call with
    | .put k serial v => writes past ++ [(k, ⟨serial, .plain v⟩)]
    | .clear => []
    | _ => writes past

/-- Counted from one, the `n`th write since the last clear was one of `item` under `k`. -/
def IsWrite (past : List (Cache.Record κ α)) (n : Nat) (k : κ) (item : Item α) : Prop :=
  1 ≤ n ∧ (writes past)[n - 1]? = some (k, item)

/-- Whether a key was removed since it was written last. -/
def isRemoved [DecidableEq κ] (k : κ) : (past : List (Cache.Record κ α)) → Bool
  | [] => false
  | r :: past =>
    match r.call with
    | .put k' _ _ => k' ≠ k && isRemoved k past
    | .remove k' => k' = k || isRemoved k past
    | .clear => false
    | _ => isRemoved k past

/-- The last write of `k` is the one with the number `p` and was one of `item`. The key was not
removed since, and no write since has given up a place of the key in a queue of `capacity`
places. -/
structure Survives [DecidableEq κ] (capacity : Nat) (past : List (Cache.Record κ α)) (p : Nat)
    (k : κ) (item : Item α) : Prop where
  isWrite : IsWrite past p k item
  latest : ∀ q item', IsWrite past q k item' → q ≤ p
  not_removed : isRemoved k past = false
  not_given_up : ∀ q item', IsWrite past q k item' →
    ¬(p < q + capacity ∧ q + capacity ≤ (writes past).length)

section Histories

variable {past past' : List (Cache.Record κ α)} {c n p : Nat} {k k' : κ} {item item' : Item α}
  {m : Moment} {serial : Nat} {v : α} {answer : Cache.Answer κ α}

theorem IsWrite.le_length (h : IsWrite past n k item) : n ≤ (writes past).length := by
  have hlt := (List.getElem?_eq_some_iff.mp h.2).1
  have hpos := h.1
  omega

theorem IsWrite.eq (h : IsWrite past n k item) (h' : IsWrite past n k' item') :
    k = k' ∧ item = item' := by simpa [h.2] using h'.2

theorem IsWrite.congr (h : writes past' = writes past) :
    IsWrite past' n k item ↔ IsWrite past n k item := by rw [IsWrite, IsWrite, h]

/-- A write gets the next number. -/
theorem isWrite_put : IsWrite (⟨m, .put k serial v, answer⟩ :: past) n k' item' ↔
    IsWrite past n k' item' ∨
      n = (writes past).length + 1 ∧ k' = k ∧ item' = ⟨serial, .plain v⟩ := by
  simp only [IsWrite, writes, List.getElem?_append, List.getElem?_singleton]
  by_cases hlt : n - 1 < (writes past).length
  · simp only [hlt, if_true]
    refine ⟨.inl, fun h => h.resolve_right ?_⟩
    omega
  · have hnone : (writes past)[n - 1]? = none := List.getElem?_eq_none (by omega)
    simp only [hlt, if_false, hnone]
    by_cases hn : n = (writes past).length + 1
    · simp [hn, eq_comm]
    · have hout : 1 ≤ n → n - 1 - (writes past).length ≠ 0 := by omega
      simp +contextual [hn, hout]

variable [DecidableEq κ]

theorem Survives.congr (hwrites : writes past' = writes past)
    (hremoved : isRemoved k past' = isRemoved k past) (h : Survives c past p k item) :
    Survives c past' p k item where
  isWrite := (IsWrite.congr hwrites).mpr h.isWrite
  latest q item' hq := h.latest q item' ((IsWrite.congr hwrites).mp hq)
  not_removed := hremoved.trans h.not_removed
  not_given_up q item' hq := hwrites ▸ h.not_given_up q item' ((IsWrite.congr hwrites).mp hq)

/-- What is written survives its own write. -/
theorem survives_put_self : Survives c (⟨m, .put k serial v, answer⟩ :: past) p k item ↔
    p = (writes past).length + 1 ∧ item = ⟨serial, .plain v⟩ := by
  have hnew : IsWrite (⟨m, .put k serial v, answer⟩ :: past) ((writes past).length + 1) k
      ⟨serial, .plain v⟩ := isWrite_put.mpr (.inr ⟨rfl, rfl, rfl⟩)
  constructor
  · intro h
    have hle := h.latest _ _ hnew
    rcases isWrite_put.mp h.isWrite with hold | ⟨hp, -, hitem⟩
    · have hlast := hold.le_length
      omega
    · exact ⟨hp, hitem⟩
  · rintro ⟨rfl, rfl⟩
    refine ⟨hnew, ?_, by simp [isRemoved], ?_⟩
    · intro q item' hq
      simpa [writes] using hq.le_length
    · intro q item' hq
      simp only [writes, List.length_append, List.length_singleton]
      omega

/-- A write lets the others survive but the one of the key whose place it takes. -/
theorem survives_put_of_ne (hne : k' ≠ k) :
    Survives c (⟨m, .put k serial v, answer⟩ :: past) p k' item ↔
      Survives c past p k' item ∧
        ∀ item', ¬IsWrite past ((writes past).length + 1 - c) k' item' := by
  have hsame : ∀ q item', IsWrite (⟨m, .put k serial v, answer⟩ :: past) q k' item' ↔
      IsWrite past q k' item' := by
    intro q item'
    rw [isWrite_put]
    simp [hne]
  have hlength : (writes (⟨m, .put k serial v, answer⟩ :: past)).length =
      (writes past).length + 1 := by simp [writes]
  have hremoved : isRemoved k' (⟨m, .put k serial v, answer⟩ :: past) = isRemoved k' past := by
    simp [isRemoved, Ne.symm hne]
  constructor
  · intro h
    have hwrite := (hsame p item).mp h.isWrite
    have hle := hwrite.le_length
    refine ⟨⟨hwrite, ?_, hremoved ▸ h.not_removed, ?_⟩, ?_⟩
    · exact fun q item' hq => h.latest q item' ((hsame q item').mpr hq)
    · intro q item' hq
      have hkept := h.not_given_up q item' ((hsame q item').mpr hq)
      omega
    · intro item' hq
      have hkept := h.not_given_up _ item' ((hsame _ item').mpr hq)
      have hpos := hq.1
      omega
  · rintro ⟨h, hplace⟩
    refine ⟨(hsame p item).mpr h.isWrite, ?_, hremoved.trans h.not_removed, ?_⟩
    · exact fun q item' hq => h.latest q item' ((hsame q item').mp hq)
    · intro q item' hq
      have hold := (hsame q item').mp hq
      have hkept := h.not_given_up q item' hold
      have hq' : q ≠ (writes past).length + 1 - c := by
        rintro rfl
        exact hplace item' hold
      omega

theorem survives_remove : Survives c (⟨m, .remove k, answer⟩ :: past) p k' item ↔
    k' ≠ k ∧ Survives c past p k' item := by
  by_cases he : k' = k
  · subst he
    have hremoved : isRemoved k' (⟨m, .remove k', answer⟩ :: past) = true := by simp [isRemoved]
    refine iff_of_false (fun h => ?_) fun h => h.1 rfl
    rw [h.not_removed] at hremoved
    cases hremoved
  · have hremoved : isRemoved k' (⟨m, .remove k, answer⟩ :: past) = isRemoved k' past := by
      simp [isRemoved, Ne.symm he]
    rw [and_iff_right he]
    exact ⟨Survives.congr rfl hremoved.symm, Survives.congr rfl hremoved⟩

theorem not_survives_clear : ¬Survives c (⟨m, .clear, answer⟩ :: past) p k item := by
  intro h
  have hnone := h.isWrite.2
  simp [writes] at hnone

end Histories

/-! ## The queue and the base store -/

section Cycle

variable {q : WriteQueue κ} {l : List (κ × Item α)}
  (hkeys : q.keys = (l.drop (l.length - q.capacity)).map (·.1))
include hkeys

/-- A queue of the last writes stays one when it takes up a key. -/
theorem keys_cycle (hroom : 1 ≤ q.capacity) (k : κ) (item : Item α) :
    (q.cycle k).1.keys = ((l ++ [(k, item)]).drop (l.length + 1 - q.capacity)).map (·.1) := by
  have hlength : (q.keys ++ [k]).length = l.length - (l.length - q.capacity) + 1 := by
    simp [hkeys]
  by_cases hlt : l.length < q.capacity
  · have hfits : ¬q.capacity < (q.keys ++ [k]).length := by omega
    have hzero : l.length - q.capacity = 0 := by omega
    have hzero' : l.length + 1 - q.capacity = 0 := by omega
    simp only [cycle, hfits, if_false]
    simp [hkeys, hzero, hzero']
  · have hfull : q.capacity < (q.keys ++ [k]).length := by omega
    have hdrop : l.length + 1 - q.capacity = l.length - q.capacity + 1 := by omega
    have hle : l.length - q.capacity + 1 ≤ l.length := by omega
    have hpos : 1 ≤ q.keys.length := by
      simp [hkeys]
      omega
    simp only [cycle, hfull, if_true, hdrop]
    rw [List.drop_append_of_le_length hle, List.map_append, ← List.drop_drop, List.map_drop,
      ← hkeys, List.drop_append_of_le_length hpos]
    rfl

/-- A queue that is full gives up the key of the write its capacity back. -/
theorem snd_cycle (hroom : 1 ≤ q.capacity) (k : κ) : (q.cycle k).2 =
    if l.length < q.capacity then none else (l[l.length - q.capacity]?).map (·.1) := by
  have hlength : (q.keys ++ [k]).length = l.length - (l.length - q.capacity) + 1 := by
    simp [hkeys]
  by_cases hlt : l.length < q.capacity
  · have hfits : ¬q.capacity < (q.keys ++ [k]).length := by omega
    simp only [cycle, hfits, if_false, hlt, if_true]
  · have hfull : q.capacity < (q.keys ++ [k]).length := by omega
    have hne : q.keys ≠ [] := by
      rw [hkeys, ne_eq, List.map_eq_nil_iff, List.drop_eq_nil_iff]
      omega
    simp only [cycle, hfull, if_true, if_neg hlt]
    rw [List.head?_append_of_ne_nil _ hne, hkeys, List.head?_map, List.head?_drop]

end Cycle

variable [DecidableEq κ]

/-- A write to the layer over a base store: the key that the queue gives up goes, then the cell is
stored. -/
theorem put_bare (id : String) (base : Nat) (m : Moment) (k : κ) (cell : Cell α)
    (q : WriteQueue κ) (g : Ground κ α) :
    let after := (onto (Cache.bare id base)).put m k cell (q, ()) g
    after.answer = .ok () ∧ after.state.1 = (q.cycle k).1 ∧
      after.ground.store base =
        (((q.cycle k).2.elim (g.store base) (g.store base).erase).insert k cell) := by
  simp only [onto]
  rcases q.cycle k with ⟨queue, _ | oldest⟩
  · exact ⟨rfl, rfl, Ground.store_setStore_self ..⟩
  · refine ⟨rfl, rfl, (Ground.store_setStore_self ..).trans ?_⟩
    have hstore := (Cache.remove_bare id base m oldest
      (g.note (.evicting .fifo (Cache.bare id base : Cache κ α Unit).id oldest))).2.2
    rw [hstore]
    rfl

/-- The history tells the queue, and under which keys what is stored. -/
structure Follows (base c : Nat) (past : List (Cache.Record κ α)) (q : WriteQueue κ)
    (g : Ground κ α) : Prop where
  capacity : q.capacity = c
  keys : q.keys = ((writes past).drop ((writes past).length - c)).map (·.1)
  distinct : (g.store base).Distinct
  stored : ∀ k cell, (g.store base).find? k = some cell ↔
    ∃ p item, Survives c past p k item ∧ cell = { item := item }

section Follows

variable {base c : Nat} {past past' : List (Cache.Record κ α)} {q : WriteQueue κ}
  {g g' : Ground κ α}

/-- A call that neither writes nor takes away changes nothing. -/
theorem Follows.congr (H : Follows base c past q g) (hwrites : writes past' = writes past)
    (hremoved : ∀ k, isRemoved k past' = isRemoved k past)
    (hstore : g'.store base = g.store base) : Follows base c past' q g' where
  capacity := H.capacity
  keys := by rw [hwrites, H.keys]
  distinct := hstore ▸ H.distinct
  stored k cell := by
    rw [hstore, H.stored]
    constructor
    · rintro ⟨p, item, h, rfl⟩
      exact ⟨p, item, h.congr hwrites (hremoved k), rfl⟩
    · rintro ⟨p, item, h, rfl⟩
      exact ⟨p, item, h.congr hwrites.symm (hremoved k).symm, rfl⟩

/-- The key that the queue gives up is that of the write its capacity back. -/
theorem Follows.given_up_iff (H : Follows base c past q g) (hc : 1 ≤ c) (k k' : κ) :
    (q.cycle k).2 = some k' ↔ ∃ item, IsWrite past ((writes past).length + 1 - c) k' item := by
  have hkeys := H.keys
  obtain rfl := H.capacity
  rw [snd_cycle hkeys hc]
  by_cases hlt : (writes past).length < q.capacity
  · have hzero : (writes past).length + 1 - q.capacity = 0 := by omega
    simp [IsWrite, hlt, hzero]
  · have hpos : 1 ≤ (writes past).length + 1 - q.capacity := by omega
    have hplace : (writes past).length + 1 - q.capacity - 1 =
        (writes past).length - q.capacity := by omega
    simp [IsWrite, hlt, hpos, hplace]

/-- After a write the key that was given up is gone, unless it is the one that was written. -/
theorem Follows.find?_put (H : Follows base c past q g) (hc : 1 ≤ c) (id : String) (m : Moment)
    (k k' : κ) (cell cell' : Cell α) :
    (((onto (Cache.bare id base)).put m k cell (q, ()) g).ground.store base).find? k' =
        some cell' ↔
      if k' = k then cell' = cell
      else (g.store base).find? k' = some cell' ∧
        ∀ item, ¬IsWrite past ((writes past).length + 1 - c) k' item := by
  have hgone := H.given_up_iff hc k k'
  rw [(put_bare id base m k cell q g).2.2, Table.find?_insert]
  by_cases hk : k' = k
  · simp [hk, eq_comm]
  · rw [if_neg hk, if_neg hk, ← not_exists, ← hgone]
    cases hq : (q.cycle k).2 with
    | none => simp
    | some oldest =>
      rw [Option.elim_some, Table.find?_erase, Option.some_inj]
      by_cases ho : k' = oldest
      · simp [ho]
      · simp [ho, Ne.symm ho]

theorem Follows.put (H : Follows base c past q g) (hc : 1 ≤ c) (id : String) (m : Moment) (k : κ)
    (serial : Nat) (v : α) (answer : Cache.Answer κ α) :
    let after := (onto (Cache.bare id base)).put m k { item := ⟨serial, .plain v⟩ } (q, ()) g
    Follows base c (⟨m, .put k serial v, answer⟩ :: past) after.state.1 after.ground := by
  intro after
  obtain ⟨-, hstate, hstore⟩ := put_bare id base m k { item := ⟨serial, .plain v⟩ } q g
  refine ⟨?_, ?_, ?_, ?_⟩
  · rw [hstate, cycle]
    split <;> exact H.capacity
  · have hkeys := H.keys
    obtain rfl := H.capacity
    rw [hstate, keys_cycle hkeys hc k ⟨serial, .plain v⟩]
    simp [writes]
  · rw [hstore]
    cases (q.cycle k).2 with
    | none => exact H.distinct.insert _ _
    | some oldest => exact (H.distinct.erase oldest).insert _ _
  · intro k' cell
    rw [H.find?_put hc id m k k']
    by_cases hk : k' = k
    · subst hk
      simp [survives_put_self]
    · simp only [if_neg hk, H.stored, survives_put_of_ne hk]
      constructor
      · rintro ⟨⟨p, item, hp, hcell⟩, hplace⟩
        exact ⟨p, item, ⟨hp, hplace⟩, hcell⟩
      · rintro ⟨p, item, ⟨hp, hplace⟩, hcell⟩
        exact ⟨⟨p, item, hp, hcell⟩, hplace⟩

theorem Follows.remove (H : Follows base c past q g) (id : String) (m : Moment) (k : κ)
    (answer : Cache.Answer κ α) :
    let after := (onto (Cache.bare id base)).remove m k (q, ()) g
    Follows base c (⟨m, .remove k, answer⟩ :: past) after.state.1 after.ground := by
  intro after
  have hstore : after.ground.store base = (g.store base).erase k :=
    (Cache.remove_bare id base m k g).2.2
  refine ⟨H.capacity, H.keys, hstore ▸ H.distinct.erase k, ?_⟩
  intro k' cell
  simp only [hstore, Table.find?_erase, survives_remove]
  by_cases hk : k' = k
  · simp [hk]
  · simp [hk, H.stored]

theorem Follows.clear (H : Follows base c past q g) (id : String) (m : Moment)
    (answer : Cache.Answer κ α) :
    let after := (onto (Cache.bare id base)).clear m (q, ()) g
    Follows base c (⟨m, .clear, answer⟩ :: past) after.state.1 after.ground := by
  intro after
  have hstore : after.ground.store base = .empty := Ground.store_setStore_self ..
  have hkeys : after.state.1.keys = [] := rfl
  refine ⟨H.capacity, by simp [hkeys, writes], hstore ▸ Table.distinct_empty, ?_⟩
  intro k cell
  simp [hstore, not_survives_clear]

/-- Every call does to the queue and the base store what the history says. -/
theorem Follows.perform (H : Follows base c past q g) (hc : 1 ≤ c) (id : String) (m : Moment)
    (call : Cache.Call κ α) (answer : Cache.Answer κ α) :
    let after := (onto (Cache.bare id base)).perform m (q, ()) g call
    Follows base c (⟨m, call, answer⟩ :: past) after.state.1 after.ground := by
  cases call with
  | put k serial v => exact H.put hc id m k serial v answer
  | get k => exact H.congr rfl (fun _ => rfl) rfl
  | resume k gate w => exact H.congr rfl (fun _ => rfl) rfl
  | remove k => exact H.remove id m k answer
  | clear => exact H.clear id m answer
  | size => exact H.congr rfl (fun _ => rfl) rfl
  | release k => exact H.congr rfl (fun _ => rfl) rfl

/-- A stored key is queued: its last write is among the last ones. -/
theorem Follows.mem_keys (H : Follows base c past q g) (hc : 1 ≤ c) {k : κ} {cell : Cell α}
    (hk : (g.store base).find? k = some cell) : k ∈ q.keys := by
  obtain ⟨p, item, h, -⟩ := (H.stored k cell).mp hk
  have hle := h.isWrite.le_length
  have hplace := h.not_given_up p item h.isWrite
  obtain ⟨hpos, hget⟩ := h.isWrite
  rw [H.keys, List.mem_map]
  refine ⟨(k, item), List.mem_of_getElem? (i := p - 1 - ((writes past).length - c)) ?_, rfl⟩
  rw [List.getElem?_drop, ← hget]
  congr 1
  omega

theorem Follows.size_le (H : Follows base c past q g) (hc : 1 ≤ c) :
    (g.store base).size ≤ c := by
  have hlength : q.keys.length ≤ c := by
    simp [H.keys]
    omega
  exact Nat.le_trans (H.distinct.size_le fun _ _ => H.mem_keys hc) hlength

end Follows

/-- The history tells the queue and the base store after every run. -/
theorem Run.follows {id : String} {base c : Nat} (hc : 1 ≤ c) {g₀ g : Ground κ α}
    (hempty : g₀.store base = .empty) {past : List (Cache.Record κ α)} {s : WriteQueue κ × Unit}
    (hrun : (onto (Cache.bare id base)).Run ({ capacity := c }, ()) g₀ past s g) :
    Follows base c past s.1 g := by
  induction hrun with
  | start =>
    refine ⟨rfl, by simp [writes], hempty ▸ Table.distinct_empty, ?_⟩
    intro k cell
    rw [hempty]
    refine iff_of_false (by simp) ?_
    rintro ⟨p, item, h, -⟩
    have hnone := h.isWrite.2
    simp [writes] at hnone
  | call m call _ ih => exact ih.perform hc id m call _
  | elsewhere g' _ hg ih => exact ih.congr rfl (fun _ => rfl) hg

/-- A key was stored before and is not stored after. -/
def Vanishes (base : Nat) (before after : Ground κ α) (k : κ) : Prop :=
  (before.store base).contains k = true ∧ (after.store base).contains k = false

/-- The key that vanishes by a write is that of the write that lies the capacity back. -/
theorem Follows.isWrite_of_vanishes {base c : Nat} {past : List (Cache.Record κ α)}
    {q : WriteQueue κ} {g : Ground κ α} (H : Follows base c past q g) (hc : 1 ≤ c) (id : String)
    (m : Moment) (k : κ) (cell : Cell α) {k' : κ}
    (hvanishes : Vanishes base g ((onto (Cache.bare id base)).put m k cell (q, ()) g).ground k') :
    ∃ item, IsWrite past ((writes past).length + 1 - c) k' item := by
  obtain ⟨hbefore, hafter⟩ := hvanishes
  obtain ⟨cell', hcell'⟩ := Option.isSome_iff_exists.mp hbefore
  by_contra hkept
  have hstill : ∃ x, (((onto (Cache.bare id base)).put m k cell (q, ()) g).ground.store
      base).find? k' = some x := by
    by_cases hk : k' = k
    · exact ⟨cell, (H.find?_put hc id m k k' cell cell).mpr (by simp [hk])⟩
    · refine ⟨cell', (H.find?_put hc id m k k' cell cell').mpr ?_⟩
      rw [if_neg hk]
      exact ⟨hcell', not_exists.mp hkept⟩
  rw [Table.contains, Option.isSome_iff_exists.mpr hstill] at hafter
  cases hafter

/-- A layer of constant capacity `c` that evicts in the order of writes, over an empty base store,
after any calls: the queue is the keys of the last `c` writes; a key is stored, with the cell of its
last write, if and only if that write survives; at most `c` keys are stored; and the next write
succeeds, stores its own key, and makes no two others vanish. -/
theorem Run.stored_iff_survives {id : String} {base c : Nat} (hc : 1 ≤ c) {g₀ g : Ground κ α}
    (hempty : g₀.store base = .empty) {past : List (Cache.Record κ α)} {s : WriteQueue κ × Unit}
    (hrun : (onto (Cache.bare id base)).Run ({ capacity := c }, ()) g₀ past s g) :
    s.1.keys = ((writes past).drop ((writes past).length - c)).map (·.1) ∧
      (∀ k cell, (g.store base).find? k = some cell ↔
        ∃ p item, Survives c past p k item ∧ cell = { item := item }) ∧
      (g.store base).size ≤ c ∧
      ∀ m k cell, let after := (onto (Cache.bare id base)).put m k cell s g
        after.answer = .ok () ∧ (after.ground.store base).find? k = some cell ∧
          ∀ k₁ k₂, Vanishes base g after.ground k₁ → Vanishes base g after.ground k₂ →
            k₁ = k₂ := by
  have H := Run.follows hc hempty hrun
  refine ⟨H.keys, H.stored, H.size_le hc, ?_⟩
  intro m k cell after
  refine ⟨(put_bare id base m k cell s.1 g).1, ?_, ?_⟩
  · exact (H.find?_put hc id m k k cell cell).mpr (by simp)
  · intro k₁ k₂ h₁ h₂
    obtain ⟨item₁, hwrite₁⟩ := H.isWrite_of_vanishes hc id m k cell h₁
    obtain ⟨item₂, hwrite₂⟩ := H.isWrite_of_vanishes hc id m k cell h₂
    exact (hwrite₁.eq hwrite₂).1

/-- Two places, both taken by writes of one key: the third write gives up the first place, and the
value of the second write goes with it. -/
theorem older_place_takes_newer_value :
    let d : Cache Nat Nat (WriteQueue Nat × Unit) := onto (Cache.bare "users" 0)
    let first := d.perform {} ({ capacity := 2 }, ()) {} (.put 7 0 10)
    let second := d.perform {} first.state first.ground (.put 7 1 11)
    let third := d.perform {} second.state second.ground (.put 8 2 12)
    let past := [⟨{}, .put 8 2 12, third.answer⟩, ⟨{}, .put 7 1 11, second.answer⟩,
      ⟨{}, .put 7 0 10, first.answer⟩]
    1 ≤ 2 ∧ ({} : Ground Nat Nat).store 0 = .empty ∧
      d.Run ({ capacity := 2 }, ()) {} past third.state third.ground ∧
      third.state.1.keys = [7, 8] ∧ (third.ground.store 0).find? 7 = none ∧
      (third.ground.store 0).find? 8 = some { item := ⟨2, .plain 12⟩ } ∧
      (third.ground.store 0).size ≤ 2 := by
  intro d first second third past
  have hfirst : d.Run ({ capacity := 2 }, ()) {} [⟨{}, .put 7 0 10, first.answer⟩] first.state
      first.ground := .call {} (.put 7 0 10) .start
  have hrun : d.Run ({ capacity := 2 }, ()) {} past third.state third.ground :=
    (hfirst.call {} (.put 7 1 11)).call {} (.put 8 2 12)
  obtain ⟨hkeys, hstored, hsize, -⟩ := Run.stored_iff_survives (by decide) rfl hrun
  have hlast : Survives 2 past 3 8 ⟨2, .plain 12⟩ := survives_put_self.mpr ⟨rfl, rfl⟩
  refine ⟨by decide, rfl, hrun, hkeys.trans rfl, ?_, ?_, hsize⟩
  · -- the first write of the key has the number 1, which is 3 - 2
    rw [Option.eq_none_iff_forall_ne_some]
    intro cell hcell
    obtain ⟨p, item, h, -⟩ := (hstored 7 cell).mp hcell
    have hp := h.latest 2 ⟨1, .plain 11⟩ ⟨by decide, rfl⟩
    have hkept := h.not_given_up 1 ⟨0, .plain 10⟩ ⟨by decide, rfl⟩
    have hle := h.isWrite.le_length
    have hlength : (writes past).length = 3 := rfl
    have hp3 : p ≠ 3 := by
      rintro rfl
      have hwrite := h.isWrite.2
      simp [writes, past] at hwrite
    omega
  · exact (hstored 8 _).mpr ⟨3, _, hlast, rfl⟩

end LayeredCache.WriteQueue
