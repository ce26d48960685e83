import LayeredCache.Proofs.Bounded.Eviction

/-!
# What is counted

A counting layer counts every lookup that it sees, and the hits among those that come to an end. In
a chain of a builder nothing but latches lies outside it, and a lookup passes those without being
changed. So of a lookup that comes to an end the layer counts what its caller is told.

A count of the stored keys looks at the windows first, as a lookup does. A window that has run out
stays so until it is looked at; without layers that reclaim, a later call therefore finds no more
keys than an earlier count would have left.

## Main definitions

* `Stack.hitCounts` — the counts of the counting layers of a stack.
* `Cache.Counts` — a cache counts lookups, and nothing else.
* `Cache.Wanes` — later calls find no more than an earlier count leaves.

## Main statements

* `Stack.counts`, `Stack.wanes` — the laws for stacks.
-/

namespace LayeredCache

variable {κ α σ : Type}

/-! ## Lookups and hits -/

namespace HitCount

/-- The count after a lookup that has found `found`. -/
def looked (found : Option (Cell α)) (c : HitCount) : HitCount :=
  if found.isSome then c.request.hit else c.request

/-- Lookups and hits of two sequences of lookups. -/
def add (a b : HitCount) : HitCount := ⟨a.requests + b.requests, a.hits + b.hits⟩

@[simp] theorem add_zero (c : HitCount) : c.add {} = c := rfl

/-- A lookup counts for the latter sequence. -/
theorem looked_add (found : Option (Cell α)) (a b : HitCount) :
    (a.add b).looked found = a.add (b.looked found) := by
  unfold looked
  split <;> rfl

end HitCount

/-- The counts of the counting layers, the outermost one first. -/
def Stack.hitCounts : (kinds : List Kind) → Stack κ kinds → List HitCount
  | [], _ => []
  | .counting :: kinds, s => (s.1 : HitCount) :: hitCounts kinds s.2
  | _ :: kinds, s => hitCounts kinds s.2

theorem Stack.hitCounts_eq_nil {kinds : List Kind} (h : .counting ∉ kinds) (s : Stack κ kinds) :
    hitCounts kinds s = [] := by
  induction kinds with
  | nil => rfl
  | cons kind kinds ih =>
    rw [List.mem_cons, not_or] at h
    cases kind
    case counting => exact absurd rfl h.1
    all_goals exact ih h.2 s.2

/-- A stack with one counting layer has one count. -/
theorem Stack.exists_hitCounts_eq {kinds outer inner : List Kind}
    (hkinds : kinds = outer ++ .counting :: inner) (houter : .counting ∉ outer)
    (hinner : .counting ∉ inner) (s : Stack κ kinds) : ∃ count, hitCounts kinds s = [count] := by
  subst hkinds
  induction outer with
  | nil => exact ⟨s.1, congrArg (s.1 :: ·) (hitCounts_eq_nil hinner s.2)⟩
  | cons kind outer ih =>
    rw [List.mem_cons, not_or] at houter
    cases kind
    case counting => exact absurd rfl houter.1
    all_goals exact ih houter.2 s.2

/-- Lookups of `d` that come to an end are counted, and nothing else is. -/
structure Cache.Counts (d : Cache κ α σ) (counts : σ → List HitCount) : Prop where
  put : ∀ m k c s g, counts (d.put m k c s g).state = counts s
  get : ∀ m k s g found, (d.get m k s g).answer = .done (.ok found) →
    counts (d.get m k s g).state = (counts s).map (·.looked found)
  remove : ∀ m k s g, counts (d.remove m k s g).state = counts s
  size : ∀ m s g, counts (d.size m s g).state = counts s
  release : ∀ m k s g, counts (d.release m k s g).state = counts s

theorem HitCount.counts (d : Cache κ α σ) : (HitCount.onto d).Counts fun s => [s.1] where
  put _ _ _ _ _ := rfl
  get m k s g found h := by
    have hfound : (d.get m k s.2 g).answer = .done (.ok found) := by
      simpa only [onto, settle] using (answer_settle ..).symm.trans h
    simp only [onto, settle, hfound, looked, List.map_cons, List.map_nil]
  remove _ _ _ _ := rfl
  size _ _ _ := rfl
  release _ _ _ _ := rfl

theorem Passing.counts {d : Cache κ α σ} {counts : σ → List HitCount} (H : d.Counts counts) :
    (Passing.onto d).Counts fun s => counts s.2 where
  put m k c s g := H.put m k c s.2 g
  get m k s g := H.get m k s.2 g
  remove m k s g := H.remove m k s.2 g
  size m s g := H.size m s.2 g
  release m k s g := H.release m k s.2 g

/-- A lookup that comes to an end has passed the latches. -/
theorem Gate.counts [DecidableEq κ] {d : Cache κ α σ} {counts : σ → List HitCount}
    (H : d.Counts counts) : (Gate.onto d).Counts fun s => counts s.2 where
  put m k c s g := H.put m k c s.2 g
  get m k s g found h := by
    rcases enter_cases d m k s g with ⟨latch, hwaits⟩ | ⟨t, hpasses⟩
    · cases (congrArg Reply.answer hwaits).symm.trans h
    · have hfound := (answer_settle_done ..).mp ((congrArg Reply.answer hpasses).symm.trans h)
      show counts (enter d m k s g).state.2 = _
      rw [hpasses, state_settle]
      exact H.get m k s.2 g found hfound
  remove m k s g := H.remove m k s.2 g
  size m s g := H.size m s.2 g
  release m k s g := H.release m k s.2 g

section Stacks

variable [DecidableEq κ] [Codec α]

/-- A stack counts what its lookups are told if only latches lie outside its counting layer. -/
theorem Stack.counts (id : String) (base : Nat) {outer inner : List Kind}
    (houter : ∀ kind ∈ outer, kind = .passing ∨ kind = .latching) (hinner : .counting ∉ inner) :
    (Stack.cache id base (outer ++ .counting :: inner) : Cache κ α _).Counts
      (hitCounts (outer ++ .counting :: inner)) := by
  induction outer with
  | nil =>
    have hcounts : (fun s : HitCount × Stack κ inner => [s.1]) =
        hitCounts (.counting :: inner) := by
      funext s
      exact (congrArg (s.1 :: ·) (hitCounts_eq_nil hinner s.2)).symm
    exact hcounts ▸ HitCount.counts (cache (κ := κ) (α := α) id base inner)
  | cons kind outer ih =>
    have ih := ih fun kind hkind => houter kind (List.mem_cons_of_mem _ hkind)
    rcases houter kind List.mem_cons_self with rfl | rfl
    · exact Passing.counts ih
    · exact Gate.counts ih

end Stacks

/-! ## Stored keys -/

/-- A lookup or a count at a moment that is not before `m` leaves nothing that a count at `m` would
not have left, if the lookup does not wait. -/
structure Cache.Wanes [DecidableEq κ] (d : Cache κ α σ) : Prop where
  get : ∀ m m' k s g found, m.NotAfter m' → (d.get m' k s g).answer = .done found →
    (d.get m' k s g).ground.Within d.base (d.size m s g).ground
  size : ∀ m m' s g, m.NotAfter m' →
    (d.size m' s g).ground.Within d.base (d.size m s g).ground

section Wanes

variable [DecidableEq κ] {d : Cache κ α σ} {keep read : Content α → Except CodecError (Content α)}

theorem Cache.wanes_bare (id : String) (base : Nat) :
    (Cache.bare id base : Cache κ α Unit).Wanes where
  get _ _ _ _ g _ _ _ := .refl base g
  size _ _ _ g _ := .refl base g

theorem Recency.wanes (H : d.Wanes) : (Recency.onto d).Wanes where
  get m m' k s g := H.get m m' k s.2 g
  size m m' s g := H.size m m' s.2 g

theorem WriteQueue.wanes (H : d.Wanes) : (WriteQueue.onto d).Wanes where
  get m m' k s g := H.get m m' k s.2 g
  size m m' s g := H.size m m' s.2 g

/-- A window that has run out leaves nothing, and one that has not is left alone. -/
theorem Window.wanes (H : d.Wanes) (hF : d.Faithful keep read) : (Window.onto d).Wanes where
  get m m' k s g found hm hfound := by
    simp only [onto] at hfound ⊢
    split
    · next hcleared =>
      refine .of_absent fun k' => (hF.release m' k _ _).absent ?_
      unfold settle at hcleared ⊢
      split
      · exact hF.clear m' s.2 _ k'
      · next hstale => simp [hstale] at hcleared
    · next hkept =>
      rw [if_neg hkept] at hfound
      unfold settle at hkept hfound ⊢
      split at hkept
      · simp at hkept
      · next hstale' =>
        rw [if_neg hstale'] at hfound ⊢
        have hstale : ¬s.1.stale (m.time s.1.clock) = true :=
          fun hdue => hstale' (due_of_notAfter hm hdue)
        rw [if_neg hstale]
        exact H.get m m' k s.2 g found hm hfound
  size m m' s g hm := by
    simp only [onto]
    unfold settle
    split
    · refine .of_absent fun k' => (hF.size m' _ _).absent (hF.clear m' s.2 _ k')
    · next hstale' =>
      have hstale : ¬s.1.stale (m.time s.1.clock) = true :=
        fun hdue => hstale' (due_of_notAfter hm hdue)
      rw [if_neg hstale]
      exact H.size m m' s.2 g hm

theorem Packing.wanes [Codec α] (H : d.Wanes) : (Packing.onto d).Wanes where
  get m m' k s g found hm hfound := by
    have hdone : ∃ found, (d.get m' k s.2 g).answer = .done found := by
      cases h : (d.get m' k s.2 g).answer with
      | done found => exact ⟨found, rfl⟩
      | waiting gate n => cases ((settle_spec _).2.2.2 gate n h).symm.trans hfound
    obtain ⟨found', hfound'⟩ := hdone
    exact (Ground.Within.of_eq (Ground.content_congr ((settle_spec _).1 _))).trans
      (H.get m m' k s.2 g found' hm hfound')
  size m m' s g := H.size m m' s.2 g

theorem HitCount.wanes (H : d.Wanes) : (HitCount.onto d).Wanes where
  get m m' k s g found hm hfound :=
    (Ground.Within.of_eq (Ground.content_congr (ground_settle ..))).trans
      (H.get m m' k s.2 g found hm ((answer_settle ..).symm.trans hfound))
  size m m' s g := H.size m m' s.2 g

theorem Passing.wanes (H : d.Wanes) : (Passing.onto d).Wanes where
  get m m' k s g := H.get m m' k s.2 g
  size m m' s g := H.size m m' s.2 g

theorem Gate.wanes (H : d.Wanes) : (Gate.onto d).Wanes where
  get m m' k s g found hm hfound := by
    rcases enter_cases d m' k s g with ⟨latch, hwaits⟩ | ⟨t, hpasses⟩
    · cases (congrArg Reply.answer hwaits).symm.trans hfound
    · have hfound := (answer_settle_done ..).mp ((congrArg Reply.answer hpasses).symm.trans hfound)
      show (enter d m' k s g).ground.Within d.base _
      rw [hpasses, ground_settle]
      exact H.get m m' k s.2 g found hm hfound
  size m m' s g := H.size m m' s.2 g

/-- Without layers that reclaim, keys only get fewer while nothing is written. -/
theorem Stack.wanes [Codec α] (id : String) (base : Nat) {kinds : List Kind}
    (h : .leasing ∉ kinds) : (Stack.cache id base kinds : Cache κ α _).Wanes := by
  induction kinds with
  | nil => exact Cache.wanes_bare id base
  | cons kind kinds ih =>
    rw [List.mem_cons, not_or] at h
    have ih := ih h.2
    cases kind
    case leasing => exact absurd rfl h.1
    case lru => exact Recency.wanes ih
    case fifo => exact WriteQueue.wanes ih
    case window => exact Window.wanes ih (faithful id base kinds)
    case packing => exact Packing.wanes ih
    case counting => exact HitCount.wanes ih
    case passing => exact Passing.wanes ih
    case latching => exact Gate.wanes ih

end Wanes

end LayeredCache
