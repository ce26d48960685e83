import LayeredCache.Proofs.Chain
import LayeredCache.Session.Sample

/-!
# Bounded layers bound the base store

A bounded layer knows the base store by its own index of keys alone, and what other layers evict,
flush or reclaim happens behind its back. So its index may list keys that are stored no more, and a
queue may list a key twice; but every stored key is listed, because a key reaches the base store
only through the layer, and the layer drops a key only after the key was removed from below. The
index never has more keys than its capacity, and neither has the base store, wherever the layer
lies.

## Main definitions

* `Ground.Listed` — the keys of a base store are among some keys, of which there are only so many.
* `Stack.Any` — some layer of a stack has a property.

## Main statements

* `Stack.upholds_tracks` — a bounded layer goes on listing the keys of the base store.
* `Chain.size_le_capacity` — the base store of a chain that was built holds at most as many entries
  as each of its bounded layers may.
-/

namespace LayeredCache

variable {κ α σ : Type} [DecidableEq κ]

/-! ## Keys that are listed -/

/-- Every key of a base store is one of `keys`, and there are at most `n` of these. -/
structure Ground.Listed (base n : Nat) (keys : List κ) (g : Ground κ α) : Prop where
  length_le : keys.length ≤ n
  mem : ∀ k y, g.content base k = some y → k ∈ keys

namespace Ground

variable {base n : Nat} {keys : List κ} {g g' : Ground κ α}

theorem Listed.within (h : g.Listed base n keys) (hg : g'.Within base g) : g'.Listed base n keys :=
  ⟨h.length_le, fun k y hk => h.mem k y (hg k y hk)⟩

theorem Listed.congr (h : g.Listed base n keys) (hg : g'.store base = g.store base) :
    g'.Listed base n keys := h.within (Within.of_eq (content_congr hg))

/-- A base store that holds each key once has no more entries than keys are listed. -/
theorem Listed.size_le (h : g.Listed base n keys) (hdistinct : (g.store base).Distinct) :
    (g.store base).size ≤ n := by
  have hkeys (k : κ) (c : Cell α) (hc : (g.store base).find? k = some c) : k ∈ keys :=
    h.mem k c.item.content (by rw [content, hc]; rfl)
  exact Nat.le_trans (hdistinct.size_le hkeys) h.length_le

end Ground

/-! ## The indices of bounded layers -/

/-- An index by recency with the capacity `n` lists the keys of a base store. -/
structure Recency.Tracks (base n : Nat) (g : Ground κ α) (r : Recency κ) : Prop where
  valid : r.Valid
  capacity : r.capacity = n
  listed : g.Listed base n r.order

/-- A queue of writes with the capacity `n` lists the keys of a base store. A queue without room
would give up a key before the key is written. -/
structure WriteQueue.Tracks (base n : Nat) (g : Ground κ α) (q : WriteQueue κ) : Prop where
  room : 1 ≤ n
  capacity : q.capacity = n
  listed : g.Listed base n q.keys

/-- After a key was used and the eldest one was given up, if need be, the index is no longer than
its capacity and lists every key but the one that was given up. -/
theorem Recency.Valid.evictEldest_touch {r : Recency κ} (H : r.Valid)
    (hle : r.order.length ≤ r.capacity) (k : κ) :
    (r.touch k).evictEldest.1.Valid ∧ (r.touch k).evictEldest.1.capacity = r.capacity ∧
      (r.touch k).evictEldest.1.order.length ≤ r.capacity ∧
      ∀ k', k' = k ∨ k' ∈ r.order →
        k' ∈ (r.touch k).evictEldest.1.order ∨ (r.touch k).evictEldest.2 = some k' := by
  obtain ⟨hvalid, horder, hcapacity⟩ := H.touch k
  obtain ⟨hvalid', hcapacity', heldest, horder'⟩ := hvalid.evictEldest
  have hmem : ∀ k', k' = k ∨ k' ∈ r.order → k' ∈ (r.touch k).order := by
    intro k' hk'
    rw [horder, List.mem_cons]
    by_cases he : k' = k
    · exact .inl he
    · exact .inr ((List.mem_erase_of_ne he).mpr (hk'.resolve_left he))
  refine ⟨hvalid', hcapacity'.trans hcapacity, ?_⟩
  rw [heldest, horder', hcapacity]
  by_cases hfits : (r.touch k).order.length ≤ r.capacity
  · rw [if_pos hfits, if_pos hfits]
    exact ⟨hfits, fun k' hk' => .inl (hmem k' hk')⟩
  · rw [if_neg hfits, if_neg hfits]
    constructor
    · have hlength : (r.touch k).order.length ≤ r.order.length + 1 := by
        rw [horder, List.length_cons]
        exact Nat.succ_le_succ List.length_erase_le
      rw [List.length_dropLast]
      omega
    · intro k' hk'
      have hne : (r.touch k).order ≠ [] := by rw [horder]; exact List.cons_ne_nil _ _
      have hlast := hmem k' hk'
      rw [← List.dropLast_append_getLast hne, List.mem_append, List.mem_singleton] at hlast
      rw [List.getLast?_eq_some_getLast hne]
      exact hlast.imp id fun he => by rw [he]

omit [DecidableEq κ] in
/-- A queue with room lists every key that is queued and the key that comes to it, but the one that
it gives up. -/
theorem WriteQueue.mem_keys_cycle {q : WriteQueue κ} (hroom : 1 ≤ q.capacity) (k : κ) :
    k ∈ (q.cycle k).1.keys ∧
      ∀ k' ∈ q.keys, k' ∈ (q.cycle k).1.keys ∨ (q.cycle k).2 = some k' := by
  unfold cycle
  cases hkeys : q.keys with
  | nil =>
    have hfits : ¬q.capacity < ([] ++ [k]).length := by simp; omega
    simp only [if_neg hfits]
    exact ⟨by simp, nofun⟩
  | cons oldest rest =>
    by_cases hfull : q.capacity < (oldest :: rest ++ [k]).length
    · simp only [if_pos hfull]
      refine ⟨by simp, ?_⟩
      intro k' hk'
      rcases List.mem_cons.mp hk' with rfl | hk'
      · exact .inr rfl
      · exact .inl (by simp [hk'])
    · simp only [if_neg hfull]
      exact ⟨by simp, fun k' hk' => .inl (List.mem_append_left _ hk')⟩

omit [DecidableEq κ] in
@[simp] theorem WriteQueue.capacity_cycle (q : WriteQueue κ) (k : κ) :
    (q.cycle k).1.capacity = q.capacity := by
  simp only [cycle]
  split <;> rfl

section Layers

variable {d : Cache κ α σ} {keep read : Content α → Except CodecError (Content α)} {n : Nat}

/-- What was written under a key that is listed leaves a base store with listed keys, if the other
keys that were stored are listed. -/
theorem Ground.Listed.wrote {base : Nat} {keys : List κ} {k : κ} {y : Content α}
    {g g' : Ground κ α} (hwrote : g'.Wrote base k y g) (hlength : keys.length ≤ n)
    (hk : k ∈ keys) (hmem : ∀ k' y', g.content base k' = some y' → k' ∈ keys) :
    g'.Listed base n keys := by
  refine ⟨hlength, ?_⟩
  intro k' y' hk'
  by_cases he : k' = k
  · exact he ▸ hk
  · have hstored := hwrote k' y' hk'
    rw [if_neg he] at hstored
    exact hmem k' y' hstored

/-- An index by recency goes on listing the stored keys: a key is tracked when it is written, and
it is given up or forgotten together with its entry. -/
theorem Recency.upholds_tracks (H : d.Faithful keep read) :
    (Recency.onto d).Upholds fun s g => s.1.Tracks d.base n g where
  put m k c s g h := by
    simp only [onto]
    cases ha : (d.put m k c s.2 g).answer with
    | error e =>
      exact ⟨h.valid, h.capacity, h.listed.within (H.put_error m k c s.2 g e ha)⟩
    | ok _ =>
      obtain ⟨y, -, hwrote⟩ := H.put_ok m k c s.2 g ha
      obtain ⟨hvalid, hcapacity, hlength, hmem⟩ :=
        h.valid.evictEldest_touch (h.capacity ▸ h.listed.length_le) k
      rw [h.capacity] at hcapacity hlength
      rcases he : (s.1.touch k).evictEldest with ⟨index, _ | eldest⟩
      · rw [he] at hvalid hcapacity hlength hmem
        have hmem' : ∀ k', k' = k ∨ k' ∈ s.1.order → k' ∈ index.order :=
          fun k' hk' => (hmem k' hk').resolve_right (Option.some_ne_none k').symm
        exact ⟨hvalid, hcapacity, .wrote hwrote hlength (hmem' k (.inl rfl))
          fun k' y' hk' => hmem' k' (.inr (h.listed.mem k' y' hk'))⟩
      · rw [he] at hvalid hcapacity hlength hmem
        refine ⟨hvalid, hcapacity, hlength, ?_⟩
        intro k' y' hk'
        let written := (d.put m k c s.2 g).ground.note (.evicting .lru d.id eldest)
        have hleft : (d.remove m eldest (d.put m k c s.2 g).state written).ground.content d.base k' =
            some y' := hk'
        have hne : eldest ≠ k' := by
          rintro rfl
          rw [H.remove_absent] at hleft
          cases hleft
        have hstored := hwrote k' y' (H.remove m eldest _ written k' y' hleft)
        have hlisted : k' = k ∨ k' ∈ s.1.order := by
          by_cases hkk : k' = k
          · exact .inl hkk
          · rw [if_neg hkk] at hstored
            exact .inr (h.listed.mem k' y' hstored)
        exact (hmem k' hlisted).resolve_right fun hsome => hne (Option.some.inj hsome)
  get m k s g h := by
    obtain ⟨hvalid, horder, hcapacity⟩ := h.valid.refresh k
    have hperm : (s.1.refresh k).order.Perm s.1.order := by
      rw [horder]
      split
      · next hk => exact (List.perm_cons_erase hk).symm
      · exact List.Perm.refl _
    have hlisted := h.listed.within (H.get m k s.2 g)
    exact ⟨hvalid, hcapacity.trans h.capacity, hperm.length_eq ▸ hlisted.length_le,
      fun k' y' hk' => hperm.mem_iff.mpr (hlisted.mem k' y' hk')⟩
  resume m k gate w s g h :=
    ⟨h.valid, h.capacity, h.listed.within (H.resume m k gate w s.2 g)⟩
  remove m k s g h := by
    obtain ⟨hvalid, horder, hcapacity⟩ := h.valid.forget k
    refine ⟨hvalid, hcapacity.trans h.capacity, ?_, ?_⟩
    · show (s.1.forget k).order.length ≤ n
      rw [horder]
      exact Nat.le_trans List.length_erase_le h.listed.length_le
    · intro k' y' hk'
      have hne : k' ≠ k := by
        rintro rfl
        rw [show ((Recency.onto d).remove m k' s g).ground.content d.base k' = none from
          H.remove_absent m k' s.2 g] at hk'
        cases hk'
      show k' ∈ (s.1.forget k).order
      rw [horder]
      exact (List.mem_erase_of_ne hne).mpr (h.listed.mem k' y' (H.remove m k s.2 g k' y' hk'))
  clear m s g h := by
    refine ⟨valid_clear s.1, h.capacity, Nat.zero_le n, ?_⟩
    intro k' y' hk'
    rw [show ((Recency.onto d).clear m s g).ground.content d.base k' = none from
      H.clear m s.2 g k'] at hk'
    cases hk'
  size m s g h := ⟨h.valid, h.capacity, h.listed.within (H.size m s.2 g)⟩
  release m k s g h := ⟨h.valid, h.capacity, h.listed.within (H.release m k s.2 g)⟩
  elsewhere h hg := ⟨h.valid, h.capacity, h.listed.congr hg⟩

/-- A queue of writes goes on listing the stored keys: the key that leaves it is removed before the
next one is written. -/
theorem WriteQueue.upholds_tracks (H : d.Faithful keep read) :
    (WriteQueue.onto d).Upholds fun s g => s.1.Tracks d.base n g where
  put m k c s g h := by
    have hcapacity : (s.1.cycle k).1.capacity = n := (capacity_cycle s.1 k).trans h.capacity
    have hlength := length_keys_cycle_le s.1 k (h.capacity ▸ h.listed.length_le)
    rw [h.capacity] at hlength
    obtain ⟨hk, hmem⟩ := mem_keys_cycle (h.capacity ▸ h.room) k
    -- the keys that are stored when the write comes to the layers below
    have hput : ∀ s' (g' : Ground κ α),
        (∀ k' y', g'.content d.base k' = some y' → k' ∈ (s.1.cycle k).1.keys) →
        (d.put m k c s' g').ground.Listed d.base n (s.1.cycle k).1.keys := by
      intro s' g' hlisted
      cases ha : (d.put m k c s' g').answer with
      | error e => exact .within ⟨hlength, hlisted⟩ (H.put_error m k c s' g' e ha)
      | ok _ =>
        obtain ⟨y, -, hwrote⟩ := H.put_ok m k c s' g' ha
        exact .wrote hwrote hlength hk hlisted
    simp only [onto]
    rcases hc : s.1.cycle k with ⟨queue, _ | oldest⟩
    · rw [hc] at hcapacity hmem hput
      refine ⟨h.room, hcapacity, hput s.2 g ?_⟩
      intro k' y' hk'
      exact (hmem k' (h.listed.mem k' y' hk')).resolve_right (Option.some_ne_none k').symm
    · rw [hc] at hcapacity hmem hput
      refine ⟨h.room, hcapacity, hput _ _ ?_⟩
      intro k' y' hk'
      have hne : oldest ≠ k' := by
        rintro rfl
        rw [H.remove_absent m oldest s.2 _] at hk'
        cases hk'
      have hstored := h.listed.mem k' y'
        (H.remove m oldest s.2 (g.note (.evicting .fifo d.id oldest)) k' y' hk')
      exact (hmem k' hstored).resolve_right fun hsome => hne (Option.some.inj hsome)
  get m k s g h := ⟨h.room, h.capacity, h.listed.within (H.get m k s.2 g)⟩
  resume m k gate w s g h :=
    ⟨h.room, h.capacity, h.listed.within (H.resume m k gate w s.2 g)⟩
  remove m k s g h := ⟨h.room, h.capacity, h.listed.within (H.remove m k s.2 g)⟩
  clear m s g h := by
    refine ⟨h.room, h.capacity, Nat.zero_le n, ?_⟩
    intro k' y' hk'
    rw [show ((WriteQueue.onto d).clear m s g).ground.content d.base k' = none from
      H.clear m s.2 g k'] at hk'
    cases hk'
  size m s g h := ⟨h.room, h.capacity, h.listed.within (H.size m s.2 g)⟩
  release m k s g h := ⟨h.room, h.capacity, h.listed.within (H.release m k s.2 g)⟩
  elsewhere h hg := ⟨h.room, h.capacity, h.listed.congr hg⟩

end Layers

/-! ## Base stores hold each key once -/

theorem Cache.upholds_distinct_bare (id : String) (base : Nat) :
    (Cache.bare id base : Cache κ α Unit).Upholds fun _ g => (g.store base).Distinct where
  put m k c s g h := by simpa [bare] using h.insert k c
  get m k s g h := h
  resume m k gate w s g h := h
  remove m k s g h := by
    rw [(remove_bare id base m k g).2.2]
    exact h.erase k
  clear m s g h := by simpa [bare] using Table.distinct_empty
  size m s g h := h
  release m k s g h := h
  elsewhere h hg := by
    rw [base_bare] at hg
    rwa [hg]

section Stacks

variable [Codec α]

/-- Unpinning aside, layers reach the base store through operations alone, and each of these keeps
its keys distinct. -/
theorem Stack.upholds_distinct (id : String) (base : Nat) (kinds : List Kind) :
    (Stack.cache id base kinds : Cache κ α _).Upholds fun _ g => (g.store base).Distinct := by
  induction kinds with
  | nil => exact Cache.upholds_distinct_bare id base
  | cons kind kinds ih =>
    by_cases hkind : kind = .leasing
    · subst hkind
      exact Leasing.upholds_ground ih (base_cache id base kinds)
        (fun l g => (Leasing.unpinAll_spec base l g).2.1)
        fun g k n => (Leasing.unpin_spec base g k n).2.1
    · exact Kind.upholds ih hkind

/-- Some layer of a stack has the property. -/
def Stack.Any (P : (kind : Kind) → kind.State κ → Prop) : (kinds : List Kind) → Stack κ kinds → Prop
  | [], _ => False
  | kind :: kinds, s => P kind s.1 ∨ Stack.Any P kinds s.2

/-- A bounded layer with the capacity `n` lists the keys of a base store. -/
def Kind.Tracks (base n : Nat) (g : Ground κ α) : (kind : Kind) → kind.State κ → Prop
  | .lru, r => Recency.Tracks base n g r
  | .fifo, q => WriteQueue.Tracks base n g q
  | _, _ => False

omit [Codec α] in
theorem Stack.Any.exists_listed {base n : Nat} {g : Ground κ α} {kinds : List Kind}
    {s : Stack κ kinds} (h : Stack.Any (Kind.Tracks base n g) kinds s) :
    ∃ keys, g.Listed base n keys := by
  induction kinds with
  | nil => exact h.elim
  | cons kind kinds ih =>
    rcases h with h | h
    · cases kind
      case lru => exact ⟨_, Recency.Tracks.listed h⟩
      case fifo => exact ⟨_, WriteQueue.Tracks.listed h⟩
      all_goals exact h.elim
    · exact ih h

/-- A bounded layer anywhere in a stack goes on listing the keys of the base store. -/
theorem Stack.upholds_tracks (id : String) (base n : Nat) (kinds : List Kind)
    (h : .leasing ∉ kinds.dropLast) :
    (Stack.cache id base kinds : Cache κ α _).Upholds fun s g =>
      Any (Kind.Tracks base n g) kinds s := by
  induction kinds with
  | nil => exact Cache.upholds_false _
  | cons kind kinds ih =>
    rcases Kind.leasing_cons h with ⟨rfl, rfl⟩ | ⟨hkind, hbelow⟩
    · exact (Cache.upholds_false _).congr fun _ _ => or_self_iff
    · refine Cache.Upholds.or ?_ (Kind.upholds (ih hbelow) hkind)
      have hfaithful := faithful (κ := κ) (α := α) id base kinds
      cases kind
      case lru =>
        have hindex := Recency.upholds_tracks (n := n) hfaithful
        rwa [base_cache] at hindex
      case fifo =>
        have hqueue := WriteQueue.upholds_tracks (n := n) hfaithful
        rwa [base_cache] at hqueue
      all_goals exact Cache.upholds_false _

end Stacks

namespace Chain

omit [DecidableEq κ] in
theorem any_compose {P : (kind : Kind) → kind.State κ → Prop} {m : Moment} {c : Chain κ}
    {layers : List (Layer × Wiring)}
    (h : Stack.Any P c.kinds c.stack ∨ ∃ l ∈ layers, P l.1.kind (l.1.initial κ l.2 m)) :
    Stack.Any P (c.compose m layers).kinds (c.compose m layers).stack := by
  induction layers generalizing c with
  | nil => exact h.resolve_right (by simp)
  | cons l layers ih =>
    refine ih (c := c.wrap l.1 l.2 m) ?_
    rcases h with h | ⟨l', hl', hP⟩
    · exact .inl (.inr h)
    · rcases List.mem_cons.mp hl' with rfl | hl'
      · exact .inl (.inl hP)
      · exact .inr ⟨l', hl', hP⟩

theorem tracks_initial {base n : Nat} {g : Ground κ α} (hempty : g.store base = .empty)
    (w : Wiring) (m : Moment) {l : Layer} (hn : l = .lru n ∨ l = .fifo n)
    (hroom : l.hasZeroCapacity = false) : Kind.Tracks base n g l.kind (l.initial κ w m) := by
  have hlisted : g.Listed base n ([] : List κ) := by
    refine ⟨Nat.zero_le n, ?_⟩
    intro k y hk
    rw [Ground.content, hempty] at hk
    cases hk
  rcases hn with rfl | rfl
  · exact ⟨Recency.valid_ofCapacity n, rfl, hlisted⟩
  · have hne : n ≠ 0 := by simpa [Layer.hasZeroCapacity] using hroom
    exact ⟨Nat.one_le_iff_ne_zero.mpr hne, rfl, hlisted⟩

variable [Codec α]

section Run

variable {id : String} {base : Nat} {signal : Signal} {layers : List Layer} {m₀ : Moment}
  {g₀ g₁ g : Ground κ α} {c : Chain κ} {past : List (Cache.Record κ α)} {s : Stack κ c.kinds}

/-- After any run of a chain over a new base store each bounded layer lists the stored keys. -/
theorem tracks_of_run (hbuild : build id base signal layers m₀ g₀ = (g₁, .ok c))
    (hnew : g₀.store base = .empty) (hrun : c.cache.Run c.stack g₁ past s g) {l : Layer}
    (hl : l ∈ layers) {n : Nat} (hn : l = .lru n ∨ l = .fifo n) :
    Stack.Any (Kind.Tracks base n g) c.kinds s := by
  obtain ⟨hvalid, hcompose⟩ := eq_compose_of_build hbuild
  have hbuilt := isBuilt_of_build hbuild
  have hempty : g₁.store base = .empty := by rw [hbuilt.store_eq, hnew]
  have hinitial : Stack.Any (Kind.Tracks base n g₁) c.kinds c.stack := by
    have htracks := tracks_initial (n := n) hempty { signal := signal } m₀ hn
      (hasZeroCapacity_of_validate hvalid hl)
    have hany := any_compose (c := bare id base) (m := m₀)
      (.inr ⟨_, List.mem_map_of_mem (f := fun l => (l, ({ signal := signal } : Wiring))) hl,
        htracks⟩)
    rwa [← hcompose] at hany
  have hleasing : .leasing ∉ c.kinds.dropLast :=
    hbuilt.kinds_eq ▸ leasing_not_mem_of_validate hvalid
  rw [← hbuilt.base_eq] at hinitial ⊢
  exact hrun.upholds (Stack.upholds_tracks c.id c.base n c.kinds hleasing) hinitial

/-- After any run of a chain over a new base store it holds each key once. -/
theorem distinct_of_run (hbuild : build id base signal layers m₀ g₀ = (g₁, .ok c))
    (hnew : g₀.store base = .empty) (hrun : c.cache.Run c.stack g₁ past s g) :
    (g.store base).Distinct := by
  have hbuilt := isBuilt_of_build hbuild
  have hdistinct : (g₁.store c.base).Distinct := by
    rw [hbuilt.base_eq, hbuilt.store_eq, hnew]
    exact Table.distinct_empty
  rw [← hbuilt.base_eq]
  exact hrun.upholds (Stack.upholds_distinct c.id c.base c.kinds) hdistinct

end Run

/-- Whatever calls were made on a chain that was built over a new base store, those that failed,
flushed and reclaimed included: the base store holds at most as many entries as each bounded layer
of the chain may, wherever in the chain the layer lies. -/
theorem size_le_capacity {id : String} {base : Nat} {signal : Signal} {layers : List Layer}
    {m₀ : Moment} {g₀ g₁ : Ground κ α} {c : Chain κ}
    (hbuild : build id base signal layers m₀ g₀ = (g₁, .ok c)) (hnew : g₀.store base = .empty)
    {past : List (Cache.Record κ α)} {s : Stack κ c.kinds} {g : Ground κ α}
    (hrun : c.cache.Run c.stack g₁ past s g) :
    ∀ l ∈ layers, ∀ n, l = .lru n ∨ l = .fifo n → (g.store base).size ≤ n := by
  intro l hl n hn
  obtain ⟨keys, hlisted⟩ := (tracks_of_run hbuild hnew hrun hl hn).exists_listed
  exact hlisted.size_le (distinct_of_run hbuild hnew hrun)

/-- A queue with room for two keys below a layer that keeps bytes, and an index with room for one
key outside it: a write that fails leaves its key in neither, and the write after it pushes the
first key out. -/
theorem size_le_one_after_refused_write :
    let layers : List Layer := [.fifo 2, .serialized, .lru 1]
    let c : Chain Nat :=
      ⟨"users", 0, [.lru, .packing, .fifo], (Recency.ofCapacity 1, (), { capacity := 2 }, ())⟩
    let g₁ : Ground Nat Sample := Ground.note {} (.built "users" (Layer.describe layers))
    let first := c.cache.perform {} c.stack g₁ (.put 1 0 ⟨"a"⟩)
    let second := c.cache.perform {} first.state first.ground (.put 2 1 ⟨"!enc"⟩)
    let third := c.cache.perform {} second.state second.ground (.put 3 2 ⟨"b"⟩)
    build "users" 0 .silent layers {} {} = (g₁, .ok c) ∧
      first.answer = .written (.ok ()) ∧
      second.answer =
        .written (.error (.serialization (.refused "value refuses to be encoded"))) ∧
      (third.ground.store 0).keys = [3] ∧ (third.ground.store 0).size ≤ 1 := by
  intro layers c g₁ first second third
  have hbuild : build "users" 0 .silent layers {} {} = (g₁, .ok c) := rfl
  have hfirst : c.cache.Run c.stack g₁ [⟨{}, .put 1 0 (Sample.mk "a"), first.answer⟩] first.state
      first.ground := .call {} (.put 1 0 (Sample.mk "a")) .start
  have hrun := (hfirst.call {} (.put 2 1 (Sample.mk "!enc"))).call {} (.put 3 2 (Sample.mk "b"))
  refine ⟨hbuild, ?_, ?_, ?_, ?_⟩
  · rfl
  · rfl
  · decide +kernel
  · exact size_le_capacity hbuild rfl hrun (.lru 1) (by decide) 1 (.inl rfl)

end Chain

end LayeredCache
