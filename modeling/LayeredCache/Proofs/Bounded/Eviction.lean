import LayeredCache.Proofs.Capacity
import LayeredCache.Proofs.Layer.Misses
import LayeredCache.Proofs.Layer.Retaining
import LayeredCache.Proofs.Layer.Windows

/-!
# What an index by recency evicts

An index by recency evicts the key at its end when a write would make it longer than its capacity.
It is told of the writes, lookups and removals that pass it, and of nothing else. Where a layer
below it flushes or reclaims, the keys of the entries that are gone stay listed, they count against
the capacity, and a lookup that misses one of them counts as a use. So an entry may be evicted while
the base store holds fewer entries than the capacity, but not while fewer keys are listed, and only
a lookup of a listed key changes the order. Where no layer below flushes or reclaims, exactly the
stored keys are listed, and neither can happen.

A window outside the index that has run out clears the index before anything else.

## Main definitions

* `Stack.evictionOrder` — the listed keys at a moment, the one that is evicted next at the end.
* `Cache.Evicts` — the law of evictions, for a cache with such an order.

## Main statements

* `Stack.evicts` — the law of evictions for stacks.
* `Chain.evicts_eldest_listed` — what is evicted of a chain that was built, and when; and what a
  lookup that finds nothing changes.
-/

namespace LayeredCache

variable {κ α σ : Type}

/-- No clock shows less at the second moment than at the first one. -/
def Moment.NotAfter (m m' : Moment) : Prop := ∀ clock, m.time clock ≤ m'.time clock

/-- The order of a layer of a kind, given the one of the layers below it. -/
def Kind.evictionOrder :
    (kind : Kind) → kind.State κ → (Moment → List κ) → Moment → List κ
  | .lru, r, _ => fun _ => Recency.order r
  | .window, w, below => fun m => if Window.due m w then [] else below m
  | _, _, below => below

/-- The keys that the outermost index of a stack lists when a call comes at a moment, the one that
is evicted next at the end. -/
def Stack.evictionOrder : (kinds : List Kind) → Stack κ kinds → Moment → List κ
  | [], _ => fun _ => []
  | kind :: kinds, s => kind.evictionOrder s.1 (evictionOrder kinds s.2)

variable [DecidableEq κ]

/-- From `m` on the order `order'` after a lookup of `k` is the order before it, or `k` is listed
but not stored and has come to the front. -/
def Undisturbed (base : Nat) (m : Moment) (k : κ) (order order' : Moment → List κ)
    (g' : Ground κ α) : Prop :=
  ∀ m', m.NotAfter m' → order' m' = order m' ∨
    k ∈ order m' ∧ g'.content base k = none ∧ order' m' = k :: (order m').erase k

/-- In states with the property `I`, a write by `d` takes no other key out of the order than the
last one, and that only if there are `n`, and a lookup that finds nothing leaves the order
undisturbed. -/
structure Cache.Evicts (d : Cache κ α σ) (n : Nat) (order : σ → Moment → List κ)
    (I : σ → Ground κ α → Prop) : Prop where
  put : ∀ m k c s g, I s g → ∀ e ∈ order s m, let r := d.put m k c s g
    e ∉ order r.state m → e ≠ k ∧ (order s m).getLast? = some e ∧ (order s m).length = n ∧
      r.ground.content d.base e = none
  get : ∀ m k s g, I s g → let r := d.get m k s g
    r.answer.IsBlank → Undisturbed d.base m k (order s) (order r.state) r.ground
  resume : ∀ m k gate w s g, I s g → let r := d.resume m k gate w s g
    r.answer.IsBlank → Undisturbed d.base m k (order s) (order r.state) r.ground
  clear : ∀ m s g, order (d.clear m s g).state = fun _ => []
  release : ∀ m k s g, order (d.release m k s g).state = order s

/-! ## Indices -/

namespace Recency

variable {r : Recency κ} {k e : κ}

/-- A key that is given up after a use of another one was at the end of an index that was full. -/
theorem Valid.evicted (H : r.Valid) (hle : r.order.length ≤ r.capacity) (he : e ∈ r.order)
    (hgone : e ∉ (r.touch k).evictEldest.1.order) :
    e ≠ k ∧ r.order.getLast? = some e ∧ r.order.length = r.capacity ∧
      (r.touch k).evictEldest.2 = some e := by
  obtain ⟨hvalid, horder, hcapacity⟩ := H.touch k
  obtain ⟨-, -, heldest, hleft⟩ := hvalid.evictEldest
  rw [hcapacity, horder] at heldest hleft
  rw [hleft] at hgone
  have hused : e ∈ k :: r.order.erase k := by
    by_cases hk : e = k
    · exact hk ▸ List.mem_cons_self
    · exact List.mem_cons_of_mem k ((List.mem_erase_of_ne hk).mpr he)
  have hfull : ¬(k :: r.order.erase k).length ≤ r.capacity := by
    intro hfits
    rw [if_pos hfits] at hgone
    exact hgone hused
  have hk : k ∉ r.order := by
    intro hk
    rw [List.length_cons, List.length_erase_of_mem hk] at hfull
    have hpos := List.length_pos_of_mem hk
    omega
  rw [List.erase_of_not_mem hk] at hused hfull heldest hgone
  rw [if_neg hfull] at heldest hgone
  have hlast : (k :: r.order).getLast? = some e := by
    have hne : k :: r.order ≠ [] := List.cons_ne_nil _ _
    rw [← List.dropLast_append_getLast hne, List.mem_append, List.mem_singleton] at hused
    rw [List.getLast?_eq_some_getLast hne, hused.resolve_left hgone]
  have hlength : r.order.length = r.capacity := by
    rw [List.length_cons] at hfull
    omega
  refine ⟨fun h => hk (h ▸ he), ?_, hlength, heldest.trans hlast⟩
  rwa [List.getLast?_cons_of_ne_nil (List.ne_nil_of_mem he)] at hlast

/-- A key that is given up is no longer listed. -/
theorem Valid.mem_touch_evictEldest (H : r.Valid)
    (h : e ∈ (r.touch k).evictEldest.1.order) :
    (e = k ∨ e ∈ r.order) ∧ (r.touch k).evictEldest.2 ≠ some e := by
  obtain ⟨hvalid, horder, -⟩ := H.touch k
  obtain ⟨-, -, heldest, hleft⟩ := hvalid.evictEldest
  have hmem : ∀ e ∈ (r.touch k).order, e = k ∨ e ∈ r.order := by
    intro e he
    rw [horder, List.mem_cons] at he
    exact he.imp_right List.mem_of_mem_erase
  rw [hleft] at h
  rw [heldest]
  split at h
  · next hfits =>
    rw [if_pos hfits]
    exact ⟨hmem e h, nofun⟩
  · next hfull =>
    have hlisted := List.dropLast_subset _ h
    refine ⟨hmem e hlisted, fun hlast => ?_⟩
    rw [if_neg hfull, List.getLast?_eq_some_getLast (List.ne_nil_of_mem hlisted),
      Option.some.injEq] at hlast
    have hnodup := hvalid.nodup_order
    rw [← List.dropLast_append_getLast (List.ne_nil_of_mem hlisted), hlast,
      List.nodup_append] at hnodup
    exact hnodup.2.2 e h e (List.mem_singleton_self e) rfl

end Recency

section Layers

variable {d : Cache κ α σ} {n : Nat} {order : σ → Moment → List κ} {I : σ → Ground κ α → Prop}
  {keep read : Content α → Except CodecError (Content α)}

theorem Undisturbed.refl {base : Nat} {m : Moment} {k : κ} {order : Moment → List κ}
    {g' : Ground κ α} : Undisturbed base m k order order g' := fun _ _ => .inl rfl

theorem Undisturbed.congr {base : Nat} {m : Moment} {k : κ} {order order' : Moment → List κ}
    {g' g'' : Ground κ α} (h : Undisturbed base m k order order' g')
    (hg : g''.store base = g'.store base) : Undisturbed base m k order order' g'' :=
  fun m' hm' => (h m' hm').imp_right fun ⟨hk, habsent, horder⟩ =>
    ⟨hk, (Ground.content_congr hg k).trans habsent, horder⟩

/-! ## Evictions of layers -/

/-- A cache without an index. -/
theorem Cache.evicts_none (d : Cache κ α σ) (n : Nat) (I : σ → Ground κ α → Prop) :
    d.Evicts n (fun _ _ => []) I where
  put _ _ _ _ _ _ _ he := absurd he List.not_mem_nil
  get _ _ _ _ _ _ := .refl
  resume _ _ _ _ _ _ _ _ := .refl
  clear _ _ _ := rfl
  release _ _ _ _ := rfl

theorem Recency.evicts (H : d.Faithful keep read) (hcandid : d.Candid I) :
    (Recency.onto d).Evicts n (fun s _ => s.1.order) fun s g =>
      s.1.Tracks d.base n g ∧ I s.2 g where
  put m k c s g h e he := by
    have hle : s.1.order.length ≤ s.1.capacity := h.1.capacity ▸ h.1.listed.length_le
    have hevicted := h.1.valid.evicted (k := k) hle he
    simp only [onto]
    cases (d.put m k c s.2 g).answer with
    | error _ => exact fun hgone => absurd he hgone
    | ok _ =>
      rcases hindex : (s.1.touch k).evictEldest with ⟨index, _ | eldest⟩ <;> rw [hindex] at hevicted
      · intro hgone
        cases (hevicted hgone).2.2.2
      · intro hgone
        obtain ⟨hne, hlast, hlength, heldest⟩ := hevicted hgone
        cases heldest
        exact ⟨hne, hlast, hlength.trans h.1.capacity, H.remove_absent m e _ _⟩
  get m k s g h hblank m' _ := by
    obtain ⟨-, horder, -⟩ := h.1.valid.refresh k
    by_cases hk : k ∈ s.1.order
    · rw [if_pos hk] at horder
      exact .inr ⟨hk, hcandid.blank m k s.2 g h.2 hblank, horder⟩
    · rw [if_neg hk] at horder
      exact .inl horder
  resume _ _ _ _ _ _ _ _ := .refl
  clear _ s _ := funext fun _ => order_clear s.1
  release _ _ _ _ := rfl

/-- A window that has run out stays so until it is renewed. -/
theorem Window.due_of_notAfter {w : Window} {m m' : Moment} (h : m.NotAfter m')
    (hdue : w.due m = true) : w.due m' = true := by
  have hclock := h w.clock
  rw [due, stale, decide_eq_true_eq] at hdue ⊢
  exact Nat.lt_of_lt_of_le hdue (Nat.sub_le_sub_right hclock _)

/-- A lookup behind a window, which hides the order when it has run out. -/
theorem Undisturbed.behind {base : Nat} {m : Moment} {k : κ} {order order' : Moment → List κ}
    {g' : Ground κ α} (h : Undisturbed base m k order order' g') (w : Window) :
    Undisturbed base m k (fun m => if w.due m then [] else order m)
      (fun m => if w.due m then [] else order' m) g' := by
  intro m' hm'
  cases hdue : w.due m' with
  | true => exact .inl (by simp [hdue])
  | false => simpa [hdue] using h m' hm'

/-- A window that has run out empties the order before the call comes to it. -/
theorem Window.evicts (H : d.Evicts n order I) :
    (Window.onto d).Evicts n (fun s m => if s.1.due m then [] else order s.2 m)
      fun s g => I s.2 g where
  put m k c s g h e he := by
    rcases settle_cases d m s g with ⟨hdue, heq⟩ | ⟨hdue, -⟩
    · simp only [onto, heq, hdue, Bool.false_eq_true, if_false] at he ⊢
      exact H.put m k c s.2 g h e he
    · simp [hdue] at he
  get m k s g h := by
    rcases settle_cases d m s g with ⟨-, heq⟩ | ⟨hdue, heq⟩
    · simp only [onto, heq]
      exact fun hblank => (H.get m k s.2 g h hblank).behind s.1
    · simp only [onto, heq, if_true, H.release, H.clear, ite_self]
      exact fun _ m' hm' => .inl (if_pos (due_of_notAfter hm' hdue)).symm
  resume m k gate w s g h hblank := (H.resume m k gate w s.2 g h hblank).behind s.1
  clear m s g := by simp only [onto, H.clear, ite_self]
  release m k s g := by simp only [onto, H.release]

theorem HitCount.evicts (H : d.Evicts n order I) :
    (HitCount.onto d).Evicts n (fun s => order s.2) fun s g => I s.2 g where
  put m k c s g := H.put m k c s.2 g
  get m k s g h := by
    simp only [onto, state_settle, answer_settle]
    exact fun hblank => (H.get m k s.2 g h hblank).congr (ground_settle ..)
  resume m k gate w s g h := by
    simp only [onto, state_settle, answer_settle]
    exact fun hblank => (H.resume m k gate w s.2 g h hblank).congr (ground_settle ..)
  clear m s g := H.clear m s.2 g
  release m k s g := H.release m k s.2 g

theorem Passing.evicts (H : d.Evicts n order I) :
    (Passing.onto d).Evicts n (fun s => order s.2) fun s g => I s.2 g where
  put m k c s g := H.put m k c s.2 g
  get m k s g := H.get m k s.2 g
  resume m k gate w s g := H.resume m k gate w s.2 g
  clear m s g := H.clear m s.2 g
  release m k s g := H.release m k s.2 g

/-- A lookup that waits at a gate has not come to the index. -/
theorem Gate.undisturbed_enter (H : d.Evicts n order I) (m : Moment) (k : κ) {s : Gate κ × σ}
    {g : Ground κ α} (h : I s.2 g) (hblank : (enter d m k s g).answer.IsBlank) :
    Undisturbed d.base m k (order s.2) (order (enter d m k s g).state.2)
      (enter d m k s g).ground := by
  rcases enter_cases d m k s g with ⟨latch, he⟩ | ⟨t, he⟩
  · rw [he]
    exact .refl
  · rw [he] at hblank ⊢
    rw [state_settle, ground_settle]
    exact H.get m k s.2 g h (isBlank_of_settle hblank)

theorem Gate.evicts (H : d.Evicts n order I) :
    (Gate.onto d).Evicts n (fun s => order s.2) fun s g => I s.2 g where
  put m k c s g := H.put m k c s.2 g
  get m k s g h := undisturbed_enter H m k h
  resume m k gate w s g h := by
    cases gate with
    | zero =>
      cases w with
      | opened => exact undisturbed_enter H m k h
      | expired =>
        simp only [onto, (giveUp_fails d k s g).1]
        exact fun _ => .refl
    | succ gate =>
      simp only [onto, state_settle, ground_settle]
      exact fun hblank => H.resume m k gate w s.2 g h (isBlank_of_settle hblank)
  clear m s g := H.clear m s.2 g
  release m k s g := H.release m k s.2 g

theorem Packing.evicts [Codec α] (H : d.Evicts n order I) (hI : d.Upholds I) :
    (Packing.onto d).Evicts n (fun s => order s.2) fun s g => I s.2 g where
  put m k c s g h e he := by
    simp only [onto]
    cases pack c.item.content with
    | error _ => exact fun hgone => absurd he hgone
    | ok bytes => exact H.put m k _ s.2 g.issue (hI.elsewhere h rfl) e he
  get m k s g h := by
    simp only [onto, state_settle]
    exact fun hblank => (H.get m k s.2 g h (isBlank_of_settle hblank)).congr
      ((settle_spec _).1 _)
  resume m k gate w s g h := by
    simp only [onto, state_settle]
    exact fun hblank => (H.resume m k gate w s.2 g h (isBlank_of_settle hblank)).congr
      ((settle_spec _).1 _)
  clear m s g := H.clear m s.2 g
  release m k s g := H.release m k s.2 g

/-! ## Indices over layers that lose nothing -/

/-- An index over layers that lose nothing lists keys that are stored. -/
theorem Recency.upholds_stored (H : d.Retains) :
    (Recency.onto d).Upholds fun s g =>
      s.1.Valid ∧ ∀ k ∈ s.1.order, g.content d.base k ≠ none where
  put m k c s g h := by
    have hmem := fun e => h.1.mem_touch_evictEldest (k := k) (e := e)
    have hvalid := (h.1.touch k).1.evictEldest.1
    have hput := H.put m k c s.2 g
    simp only [onto]
    cases ha : (d.put m k c s.2 g).answer with
    | error e => exact ⟨h.1, fun k' hk' => hput k' (.inl (h.2 k' hk'))⟩
    | ok _ =>
      have hstored : ∀ k', k' = k ∨ k' ∈ s.1.order →
          (d.put m k c s.2 g).ground.content d.base k' ≠ none :=
        fun k' hk' => hput k' (hk'.symm.imp (h.2 k') fun hk => ⟨hk, ha⟩)
      rcases he : (s.1.touch k).evictEldest with ⟨index, _ | eldest⟩
      · rw [he] at hvalid hmem
        exact ⟨hvalid, fun k' hk' => hstored k' (hmem k' hk').1⟩
      · rw [he] at hvalid hmem
        refine ⟨hvalid, fun k' hk' => ?_⟩
        obtain ⟨hlisted, hne⟩ := hmem k' hk'
        exact H.remove m eldest _ _ k' (fun hk => hne (by rw [hk])) (hstored k' hlisted)
  get m k s g h := by
    obtain ⟨hvalid, horder, -⟩ := h.1.refresh k
    refine ⟨hvalid, fun k' hk' => H.get m k s.2 g k' (h.2 k' ?_)⟩
    rw [show ((Recency.onto d).get m k s g).state.1.order = (s.1.refresh k).order from rfl,
      horder] at hk'
    split at hk'
    · next hk => exact (List.perm_cons_erase hk).mem_iff.mpr hk'
    · exact hk'
  resume m k gate w s g h := ⟨h.1, fun k' hk' => H.resume m k gate w s.2 g k' (h.2 k' hk')⟩
  remove m k s g h := by
    obtain ⟨hvalid, horder, -⟩ := h.1.forget k
    refine ⟨hvalid, fun k' hk' => ?_⟩
    rw [show ((Recency.onto d).remove m k s g).state.1.order = (s.1.forget k).order from rfl,
      horder, h.1.nodup_order.mem_erase_iff] at hk'
    exact H.remove m k s.2 g k' hk'.1 (h.2 k' hk'.2)
  clear m s g _ := ⟨valid_clear s.1, fun k hk => absurd hk List.not_mem_nil⟩
  size m s g h := ⟨h.1, fun k' hk' => H.size m s.2 g k' (h.2 k' hk')⟩
  release m k s g h := ⟨h.1, fun k' hk' => H.release m k s.2 g k' (h.2 k' hk')⟩
  elsewhere h hg := ⟨h.1, fun k hk => (Ground.content_congr hg k).trans_ne (h.2 k hk)⟩

end Layers

/-! ## Stacks -/

/-- A base store that holds each key once: with the listed keys that are not stored, its entries are
as many as the listed keys. -/
theorem Ground.Listed.size_add_length {base n : Nat} {keys : List κ} {g : Ground κ α}
    (h : g.Listed base n keys) (hnodup : keys.Nodup) (hdistinct : (g.store base).Distinct) :
    (g.store base).size + (keys.filter fun k => (g.content base k).isNone).length =
      keys.length := by
  have hperm : (g.store base).keys.Perm (keys.filter fun k => !(g.content base k).isNone) := by
    refine (List.perm_ext_iff_of_nodup hdistinct (hnodup.filter _)).mpr fun k => ?_
    rw [List.mem_filter, Option.not_isNone, content, Option.isSome_map]
    constructor
    · intro hk
      obtain ⟨⟨k', c⟩, he, rfl⟩ := List.mem_map.mp hk
      have hfind := hdistinct.mem_entries.mp he
      exact ⟨h.mem k' c.item.content (by rw [content, hfind]; rfl), by rw [hfind]; rfl⟩
    · rintro ⟨-, hstored⟩
      obtain ⟨c, hfind⟩ := Option.isSome_iff_exists.mp hstored
      exact List.mem_map_of_mem (hdistinct.mem_entries.mpr hfind)
  rw [List.length_eq_length_filter_add (l := keys) fun k => (g.content base k).isNone, Nat.add_comm,
    ← hperm.length_eq, Table.keys, List.length_map]
  rfl

/-- An index lists keys that are stored. -/
def Kind.Stores (base : Nat) (g : Ground κ α) : (kind : Kind) → kind.State κ → Prop
  | .lru, r => Recency.Valid r ∧ ∀ k ∈ Recency.order r, g.content base k ≠ none
  | _, _ => True

theorem Cache.Evicts.mono {d : Cache κ α σ} {n : Nat} {order : σ → Moment → List κ}
    {I I' : σ → Ground κ α → Prop} (H : d.Evicts n order I) (h : ∀ s g, I' s g → I s g) :
    d.Evicts n order I' where
  put m k c s g hI := H.put m k c s g (h s g hI)
  get m k s g hI := H.get m k s g (h s g hI)
  resume m k gate w s g hI := H.resume m k gate w s g (h s g hI)
  clear := H.clear
  release := H.release

namespace Stack

variable {base n : Nat} {g : Ground κ α}

theorem not_any_tracks {kinds : List Kind} (hlru : .lru ∉ kinds) (hfifo : .fifo ∉ kinds)
    (s : Stack κ kinds) : ¬Any (Kind.Tracks base n g) kinds s := by
  induction kinds with
  | nil => exact id
  | cons kind kinds ih =>
    rw [List.mem_cons, not_or] at hlru hfifo
    rintro (h | h)
    · cases kind
      case lru => exact hlru.1 rfl
      case fifo => exact hfifo.1 rfl
      all_goals exact h
    · exact ih hlru.2 hfifo.2 s.2 h

theorem lru_not_mem_of_count {kinds : List Kind} (h : (Kind.lru :: kinds).count .lru ≤ 1) :
    .lru ∉ kinds := by
  rw [List.count_cons_self] at h
  exact List.count_eq_zero.mp (by omega)

/-- Where an order is not empty, it lists all stored keys. -/
theorem listed_of_mem {kinds : List Kind} (hfifo : .fifo ∉ kinds) (hlru : kinds.count .lru ≤ 1)
    {s : Stack κ kinds} (h : Any (Kind.Tracks base n g) kinds s) {m : Moment} {e : κ}
    (he : e ∈ evictionOrder kinds s m) :
    g.Listed base n (evictionOrder kinds s m) ∧ (evictionOrder kinds s m).Nodup := by
  induction kinds with
  | nil => exact h.elim
  | cons kind kinds ih =>
    rw [List.mem_cons, not_or] at hfifo
    have hbelow := ih hfifo.2 (Nat.le_trans (List.count_le_count_cons) hlru) (s := s.2)
    cases kind
    case lru =>
      have htracks : Recency.Tracks base n g s.1 :=
        h.resolve_right (not_any_tracks (lru_not_mem_of_count hlru) hfifo.2 s.2)
      exact ⟨htracks.listed, htracks.valid.nodup_order⟩
    case fifo => exact absurd rfl hfifo.1
    case window =>
      simp only [evictionOrder, Kind.evictionOrder] at he ⊢
      split at he
      · cases he
      · next hdue =>
        rw [if_neg hdue]
        exact hbelow (h.resolve_left id) he
    all_goals exact hbelow (h.resolve_left id) he

theorem stored_of_mem {kinds : List Kind} {s : Stack κ kinds}
    (h : All (Kind.Stores base g) kinds s) {m : Moment} {e : κ}
    (he : e ∈ evictionOrder kinds s m) : g.content base e ≠ none := by
  induction kinds with
  | nil => cases he
  | cons kind kinds ih =>
    cases kind
    case lru => exact h.1.2 e he
    case window =>
      simp only [evictionOrder, Kind.evictionOrder] at he
      split at he
      · cases he
      · exact ih h.2 he
    all_goals exact ih h.2 he

theorem all_stores_of_not_mem {kinds : List Kind} (h : .lru ∉ kinds) (s : Stack κ kinds) :
    All (Kind.Stores base g) kinds s := by
  induction kinds with
  | nil => trivial
  | cons kind kinds ih =>
    rw [List.mem_cons, not_or] at h
    refine ⟨?_, ih h.2 s.2⟩
    cases kind
    case lru => exact absurd rfl h.1
    all_goals trivial

variable [Codec α]

/-- The law of evictions for stacks with one index and no queue. -/
theorem evicts (id : String) (base n : Nat) (kinds : List Kind)
    (hleasing : .leasing ∉ kinds.dropLast) (hfifo : .fifo ∉ kinds)
    (hlru : kinds.count .lru ≤ 1) :
    (Stack.cache id base kinds : Cache κ α _).Evicts n (evictionOrder kinds) fun s g =>
      Any (Kind.Tracks base n g) kinds s ∧ Telling base g kinds s := by
  induction kinds with
  | nil => exact Cache.evicts_none ..
  | cons kind kinds ih =>
    rcases Kind.leasing_cons hleasing with ⟨rfl, rfl⟩ | ⟨hkind, hbelow⟩
    · exact Cache.evicts_none ..
    · rw [List.mem_cons, not_or] at hfifo
      have H := ih hbelow hfifo.2 (Nat.le_trans List.count_le_count_cons hlru)
      cases kind
      case lru =>
        have hindex := Recency.evicts (n := n) (faithful (κ := κ) (α := α) id base kinds)
          (candid id base kinds hbelow)
        rw [base_cache] at hindex
        refine hindex.mono fun s g h => ⟨?_, h.2.2⟩
        exact h.1.resolve_right (not_any_tracks (lru_not_mem_of_count hlru) hfifo.2 s.2)
      case fifo => exact absurd rfl hfifo.1
      case leasing => exact absurd rfl hkind
      case window => exact (Window.evicts H).mono fun s g h => ⟨h.1.resolve_left nofun, h.2.2⟩
      case packing =>
        have hI := (upholds_tracks (κ := κ) (α := α) id base n kinds hbelow).and
          (upholds_telling id base kinds hbelow)
        exact (Packing.evicts H hI).mono fun s g h => ⟨h.1.resolve_left nofun, h.2.2⟩
      case counting => exact (HitCount.evicts H).mono fun s g h => ⟨h.1.resolve_left nofun, h.2.2⟩
      case passing => exact (Passing.evicts H).mono fun s g h => ⟨h.1.resolve_left nofun, h.2.2⟩
      case latching => exact (Gate.evicts H).mono fun s g h => ⟨h.1.resolve_left nofun, h.2.2⟩

/-- Over layers that lose nothing, an index goes on listing stored keys. -/
theorem upholds_stores (id : String) (base : Nat) {kinds outer inner : List Kind}
    (hkinds : kinds = outer ++ .lru :: inner)
    (hinner : ∀ kind ∈ inner, kind = .packing ∨ kind = .counting ∨ kind = .passing ∨
      kind = .latching)
    (houter : ∀ kind ∈ outer, kind ≠ .lru ∧ kind ≠ .leasing) :
    (Stack.cache id base kinds : Cache κ α _).Upholds fun s g =>
      All (Kind.Stores base g) kinds s := by
  subst hkinds
  induction outer with
  | nil =>
    have hindex := Recency.upholds_stored (retains (κ := κ) (α := α) id base hinner)
    rw [base_cache] at hindex
    refine hindex.congr fun s g => and_iff_left (all_stores_of_not_mem (fun hlru => ?_) s.2)
    rcases hinner .lru hlru with h | h | h | h <;> cases h
  | cons kind outer ih =>
    obtain ⟨⟨hlru, hleasing⟩, hrest⟩ := List.forall_mem_cons.mp houter
    refine (Kind.upholds (ih hrest) hleasing).congr fun s g => and_iff_right ?_
    cases kind
    case lru => exact absurd rfl hlru
    all_goals trivial

end Stack

namespace Cache

/-- The call looks a key up, or goes on with such a lookup. -/
def Call.LooksUp (k : κ) : Call κ α → Prop
  | .get k' => k' = k
  | .resume k' _ _ => k' = k
  | _ => False

/-- The answer of a lookup that finds nothing or waits. -/
def Answer.IsBlank : Cache.Answer κ α → Prop
  | .looked found => found.IsBlank
  | _ => False

theorem Evicts.looksUp {d : Cache κ α σ} {n : Nat} {order : σ → Moment → List κ}
    {I : σ → Ground κ α → Prop} (H : d.Evicts n order I) {m : Moment} {k : κ} {s : σ}
    {g : Ground κ α} (h : I s g) {call : Call κ α} (hcall : call.LooksUp k)
    (hblank : (d.perform m s g call).answer.IsBlank) :
    Undisturbed d.base m k (order s) (order (d.perform m s g call).state)
      (d.perform m s g call).ground := by
  cases call with
  | get k' =>
    obtain rfl := hcall
    exact H.get m k' s g h hblank
  | resume k' gate w =>
    obtain rfl := hcall
    exact H.resume m k' gate w s g h hblank
  | _ => exact hcall.elim

end Cache

namespace Chain

section Initial

variable (base : Nat) (g : Ground κ α) (w : Wiring) (m : Moment) (l : Layer)

theorem telling_initial : l.kind.Telling base g (l.initial κ w m) := by
  cases l with
  | soft hardBound retention => exact ⟨Table.distinct_empty, fun _ _ _ => rfl⟩
  | weak hardBound every => exact ⟨Table.distinct_empty, fun _ _ _ => rfl⟩
  | blocking timeout => exact fun k l hl => by simp [Layer.initial] at hl
  | _ => trivial

theorem stores_initial : l.kind.Stores base g (l.initial κ w m) := by
  cases l with
  | lru capacity =>
    exact ⟨Recency.valid_ofCapacity capacity, fun k hk => absurd hk List.not_mem_nil⟩
  | _ => trivial

end Initial

omit [DecidableEq κ] in
theorem kind_of_inert {l : Layer} (hsole : l.kind ≠ .lru ∧ l.kind ≠ .fifo)
    (hinert : l.isReclaiming = false ∧ l.interval? = none) :
    l.kind = .packing ∨ l.kind = .counting ∨ l.kind = .passing ∨ l.kind = .latching := by
  cases l <;> simp_all [Layer.kind, Layer.isReclaiming, Layer.interval?]

variable {id : String} {base n : Nat} {signal : Signal} {inner outer : List Layer} {m₀ : Moment}
  {g₀ g₁ g : Ground κ α} {c : Chain κ} {past : List (Cache.Record κ α)} {s : Stack κ c.kinds}

section Sole

variable (hbuilt : IsBuilt base (inner ++ .lru n :: outer) g₀ g₁ c)
  (hsole : ∀ l ∈ inner ++ outer, l.kind ≠ .lru ∧ l.kind ≠ .fifo)
include hbuilt

omit [DecidableEq κ] in
theorem IsBuilt.kinds_of_lru :
    c.kinds = (outer.map Layer.kind).reverse ++ .lru :: (inner.map Layer.kind).reverse := by
  simp [hbuilt.kinds_eq, Layer.kind]

include hsole

omit [DecidableEq κ] in
theorem IsBuilt.sole_index : .fifo ∉ c.kinds ∧ c.kinds.count .lru ≤ 1 := by
  have hnone : ∀ layers ⊆ inner ++ outer,
      .lru ∉ (layers.map Layer.kind).reverse ∧ .fifo ∉ (layers.map Layer.kind).reverse := by
    intro layers hsub
    simp only [List.mem_reverse, List.mem_map, not_exists, not_and]
    exact ⟨fun l hl => (hsole l (hsub hl)).1, fun l hl => (hsole l (hsub hl)).2⟩
  obtain ⟨hlruIn, hfifoIn⟩ := hnone inner (List.subset_append_left inner outer)
  obtain ⟨hlruOut, hfifoOut⟩ := hnone outer (List.subset_append_right inner outer)
  rw [hbuilt.kinds_of_lru, List.mem_append, List.mem_cons, not_or, not_or, List.count_append,
    List.count_cons_self, List.count_eq_zero.mpr hlruOut, List.count_eq_zero.mpr hlruIn]
  exact ⟨⟨hfifoOut, nofun, hfifoIn⟩, Nat.le_refl 1⟩

/-- If no layer below the index flushes or reclaims, all listed keys are stored. -/
theorem IsBuilt.stored_of_listed [Codec α] (hleasing : .leasing ∉ c.kinds.dropLast)
    (hinert : ∀ l ∈ inner, l.isReclaiming = false ∧ l.interval? = none)
    (hrun : c.cache.Run c.stack g₁ past s g) {m : Moment} {e : κ}
    (he : e ∈ Stack.evictionOrder c.kinds s m) : g.content base e ≠ none := by
  have hkinds := hbuilt.kinds_of_lru
  obtain rfl := hbuilt.base_eq
  refine Stack.stored_of_mem (hrun.upholds (Stack.upholds_stores c.id c.base hkinds ?_ ?_)
    (hbuilt.all _ fun l _ _ w m => stores_initial c.base g₁ w m l)) he
  · intro kind hkind
    obtain ⟨l, hl, rfl⟩ := List.mem_map.mp (List.mem_reverse.mp hkind)
    exact kind_of_inert (hsole l (List.mem_append_left outer hl)) (hinert l hl)
  · intro kind hkind
    constructor
    · obtain ⟨l, hl, rfl⟩ := List.mem_map.mp (List.mem_reverse.mp hkind)
      exact (hsole l (List.mem_append_right inner hl)).1
    · rintro rfl
      rw [hkinds, List.dropLast_append_cons] at hleasing
      exact hleasing (List.mem_append_left _ hkind)

end Sole

/-- In any chain that was built with one index by recency, with room for `n` keys, and no queue of
writes, after any run: a write of `k` evicts no other key than the one at the end of the order, and
that only if the entries that are stored and the listed keys without one are `n` together. A lookup
that finds nothing changes the order only if its key is listed but not stored; then this key comes
to the front. If no layer below the index flushes or reclaims, all listed keys are stored, and such
a lookup does not change the order at all. -/
theorem evicts_eldest_listed [Codec α]
    (hbuild : build id base signal (inner ++ .lru n :: outer) m₀ g₀ = (g₁, .ok c))
    (hsole : ∀ l ∈ inner ++ outer, l.kind ≠ .lru ∧ l.kind ≠ .fifo)
    (hnew : g₀.store base = .empty) (hrun : c.cache.Run c.stack g₁ past s g) (m : Moment) (k : κ) :
    let order := Stack.evictionOrder c.kinds
    let lost := (order s m).filter fun e => (g.content base e).isNone
    (∀ x, let r := c.cache.put m k x s g
      ∀ e ∈ order s m, e ∉ order r.state m → e ≠ k ∧ (order s m).getLast? = some e ∧
        (g.store base).size + lost.length = n ∧ r.ground.content base e = none) ∧
    (∀ call, call.LooksUp k → let r := c.cache.perform m s g call
      r.answer.IsBlank → Undisturbed base m k (order s) (order r.state) r.ground) ∧
    ((∀ l ∈ inner, l.isReclaiming = false ∧ l.interval? = none) → lost = [] ∧
      ∀ call, call.LooksUp k → let r := c.cache.perform m s g call
        r.answer.IsBlank → ∀ m', m.NotAfter m' → order r.state m' = order s m') := by
  intro order lost
  have hbuilt := isBuilt_of_build hbuild
  obtain ⟨hvalid, -⟩ := eq_compose_of_build hbuild
  have hleasing : .leasing ∉ c.kinds.dropLast :=
    hbuilt.kinds_eq ▸ leasing_not_mem_of_validate hvalid
  obtain ⟨hfifo, hlru⟩ := hbuilt.sole_index hsole
  have hdistinct := distinct_of_run hbuild hnew hrun
  have htracks := tracks_of_run (l := .lru n) hbuild hnew hrun (by simp) (.inl rfl)
  have htelling : Stack.Telling base g c.kinds s := by
    have htelling := hrun.upholds (Stack.upholds_telling c.id c.base c.kinds hleasing)
      (hbuilt.all _ fun l _ _ w m => telling_initial c.base g₁ w m l)
    rwa [hbuilt.base_eq] at htelling
  have H : (c.cache : Cache κ α _).Evicts n order fun s g =>
      Stack.Any (Kind.Tracks base n g) c.kinds s ∧ Stack.Telling base g c.kinds s := by
    rw [← hbuilt.base_eq]
    exact Stack.evicts c.id c.base n c.kinds hleasing hfifo hlru
  have hlooked : ∀ call, call.LooksUp k → (c.cache.perform m s g call).answer.IsBlank →
      Undisturbed base m k (order s) (order (c.cache.perform m s g call).state)
        (c.cache.perform m s g call).ground := by
    intro call hcall hblank
    have hundisturbed := H.looksUp ⟨htracks, htelling⟩ hcall hblank
    rwa [base_cache, hbuilt.base_eq] at hundisturbed
  refine ⟨?_, hlooked, fun hinert => ⟨?_, ?_⟩⟩
  · intro x r e he hgone
    obtain ⟨hne, hlast, hlength, habsent⟩ := H.put m k x s g ⟨htracks, htelling⟩ e he hgone
    obtain ⟨hlisted, hnodup⟩ := Stack.listed_of_mem hfifo hlru htracks he
    rw [base_cache, hbuilt.base_eq] at habsent
    exact ⟨hne, hlast, (hlisted.size_add_length hnodup hdistinct).trans hlength, habsent⟩
  · refine List.filter_eq_nil_iff.mpr fun e he hlost => ?_
    exact hbuilt.stored_of_listed hsole hleasing hinert hrun he (Option.isNone_iff_eq_none.mp hlost)
  · -- What is listed after the lookup is stored then, so the missed key is not.
    intro call hcall r hblank m' hm'
    refine (hlooked call hcall hblank m' hm').resolve_right fun ⟨_, habsent, horder⟩ => ?_
    exact hbuilt.stored_of_listed hsole hleasing hinert (hrun.call m call)
      (horder ▸ List.mem_cons_self) habsent

/-! ## An entry that is lost below the index -/

namespace Flushed

def layers : List Layer := [.scheduled 1000, .lru 2]

def chain : Chain Nat :=
  ⟨"users", 0, [.lru, .window], (Recency.ofCapacity 2, ⟨1000, .system, 0⟩, ())⟩

def start : Ground Nat Sample := Ground.note {} (.built "users" (Layer.describe layers))

/-- What a call on the chain leaves. -/
abbrev Made : Type := Reply Nat Sample (Stack Nat chain.kinds) (Cache.Answer Nat Sample)

def moment (time : Span) : Moment := { time := fun _ => time }

/-- The first key is written. -/
def written : Made :=
  chain.cache.perform (moment 0) chain.stack start (.put 2 0 ⟨"b"⟩)

/-- The window has run out, so the second write flushes the first key. -/
def flushed : Made :=
  chain.cache.perform (moment 1001) written.state written.ground (.put 1 1 ⟨"a"⟩)

/-- The first key is looked up and missed. -/
def missed : Made :=
  chain.cache.perform (moment 1001) flushed.state flushed.ground (.get 2)

/-- A third key is written. -/
def evicted : Made :=
  chain.cache.perform (moment 1001) missed.state missed.ground (.put 3 2 ⟨"c"⟩)

def order : Stack Nat chain.kinds → Moment → List Nat := Stack.evictionOrder chain.kinds

/-- The lookup that misses the flushed key brings it to the front, and the next write evicts the one
entry that is stored, though there is room for two. -/
theorem missed_key_displaces_only_entry :
    build "users" 0 .silent layers {} {} = (start, .ok chain) ∧
      missed.answer = .looked (.done (.ok none)) ∧
      order flushed.state (moment 1001) = [1, 2] ∧ order missed.state (moment 1001) = [2, 1] ∧
      missed.ground.content 0 1 = some (.plain ⟨"a"⟩) ∧ (missed.ground.store 0).size < 2 ∧
      evicted.answer = .written (.ok ()) ∧ evicted.ground.content 0 1 = none := by
  refine ⟨rfl, rfl, rfl, rfl, rfl, ?_, rfl, rfl⟩
  decide +kernel

/-- The two listed keys fill the index, and the evicted one was at the end of the order. -/
theorem evicted_key_was_eldest_of_two :
    build "users" 0 .silent ([.scheduled 1000] ++ .lru 2 :: []) {} {} = (start, .ok chain) ∧
      (order missed.state (moment 1001)).getLast? = some 1 ∧
      (missed.ground.store 0).size + [2].length = 2 ∧ evicted.ground.content 0 1 = none ∧
      Undisturbed 0 (moment 1001) 2 (order flushed.state) (order missed.state) missed.ground := by
  have hbuild : build "users" 0 .silent ([.scheduled 1000] ++ .lru 2 :: []) {} {} =
      (start, .ok chain) := rfl
  have hsole : ∀ l ∈ ([.scheduled 1000] ++ [] : List Layer), l.kind ≠ .lru ∧ l.kind ≠ .fifo := by
    decide
  have hwritten : chain.cache.Run chain.stack start
      [⟨moment 0, .put 2 0 (Sample.mk "b"), written.answer⟩] written.state written.ground :=
    .call (moment 0) (.put 2 0 (Sample.mk "b")) .start
  have hflushed := hwritten.call (moment 1001) (.put 1 1 (Sample.mk "a"))
  have hmissed := hflushed.call (moment 1001) (.get 2)
  obtain ⟨-, hlooked, -⟩ := evicts_eldest_listed hbuild hsole rfl hflushed (moment 1001) 2
  obtain ⟨hput, -⟩ := evicts_eldest_listed hbuild hsole rfl hmissed (moment 1001) 3
  obtain ⟨-, hlast, hsize, habsent⟩ := hput { item := ⟨2, .plain ⟨"c"⟩⟩ } 1
    (by decide +kernel : 1 ∈ order missed.state (moment 1001))
    (by decide +kernel : 1 ∉ order evicted.state (moment 1001))
  have hlost : ((order missed.state (moment 1001)).filter fun e =>
      (missed.ground.content 0 e).isNone) = [2] := by decide +kernel
  exact ⟨hbuild, hlast, hlost ▸ hsize, habsent, hlooked (.get 2) rfl trivial⟩

end Flushed

end Chain

end LayeredCache
