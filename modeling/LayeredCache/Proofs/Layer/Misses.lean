import LayeredCache.Proofs.Layer.Upheld

/-!
# What a lookup that finds nothing tells

A lookup that finds nothing leaves nothing under its key: a window that has run out clears, and a
reclaiming layer removes the cell of an instance that is gone, because the lease in its registry is
the one of the cell. The same is true of a lookup that waits, because a key is latched only while it
is not stored: a write opens its latch.

Below the latches no lookup waits.

## Main definitions

* `Cache.Candid` — the law above.
* `Stack.Telling` — the states in which a stack obeys it.
* `Cache.Thorough` — the law for a cache in which no lookup waits.

## Main statements

* `Stack.candid`, `Stack.thorough` — the laws for stacks.
-/

namespace LayeredCache

variable {κ α σ : Type}

/-- The lookup has found nothing, or it waits. -/
def Lookup.IsBlank : Lookup κ α → Prop
  | .done (.ok none) => True
  | .waiting .. => True
  | _ => False

/-- A lookup of `d` that finds nothing or waits leaves nothing under its key, in states with the
property `I`. -/
structure Cache.Candid [DecidableEq κ] (d : Cache κ α σ) (I : σ → Ground κ α → Prop) : Prop where
  blank : ∀ m k s g, I s g → (d.get m k s g).answer.IsBlank →
    (d.get m k s g).ground.content d.base k = none

/-- Lookups of `d` come to an end, and one that finds nothing leaves nothing under its key, in
states with the property `I`. -/
structure Cache.Thorough [DecidableEq κ] (d : Cache κ α σ) (I : σ → Ground κ α → Prop) : Prop where
  decides : ∀ m k s g, ∃ found, (d.get m k s g).answer = .done found
  missed : ∀ m k s g, I s g → (d.get m k s g).answer = .done (.ok none) →
    (d.get m k s g).ground.content d.base k = none

/-- Every latched key is absent from a base store. -/
def Gate.Guards [DecidableEq κ] (base : Nat) (g : Ground κ α) (t : Gate κ) : Prop :=
  ∀ k l, t.latches.find? k = some l → g.content base k = none

/-- The leases in the registry of a reclaiming layer are those of its cells, and what a layer has
latched is not stored. -/
def Kind.Telling [DecidableEq κ] (base : Nat) (g : Ground κ α) : (kind : Kind) → kind.State κ → Prop
  | .leasing, l => Leasing.Registered l (g.store base)
  | .latching, t => Gate.Guards base g t
  | _, _ => True

/-- What the layers of a stack know of the base store is so. -/
def Stack.Telling [DecidableEq κ] (base : Nat) (g : Ground κ α) :
    (kinds : List Kind) → Stack κ kinds → Prop := Stack.All (Kind.Telling base g)

section Layers

variable [DecidableEq κ] {d : Cache κ α σ} {I : σ → Ground κ α → Prop}
  {keep read : Content α → Except CodecError (Content α)}

theorem Cache.Candid.congr {I' : σ → Ground κ α → Prop} (H : d.Candid I)
    (h : ∀ s g, I' s g ↔ I s g) : d.Candid I' := by
  obtain rfl : I' = I := funext fun s => funext fun g => propext (h s g)
  exact H

theorem Cache.candid_bare (id : String) (base : Nat) :
    (Cache.bare id base : Cache κ α Unit).Candid fun _ _ => True where
  blank m k s g _ h := by
    cases hfind : (g.store base).find? k with
    | none => simp [bare, Ground.content, hfind]
    | some c =>
      simp only [bare, hfind] at h
      exact h.elim

theorem Window.candid (H : d.Candid I) (hI : d.Upholds I) (hF : d.Faithful keep read) :
    (Window.onto d).Candid fun s g => I s.2 g where
  blank m k s g h := by
    simp only [onto]
    split
    · next hcleared =>
      intro _
      refine (hF.release m k _ _).absent ?_
      unfold settle at hcleared ⊢
      split
      · exact hF.clear m s.2 _ k
      · next hstale => simp [hstale] at hcleared
    · exact H.blank m k _ _ (hI.leads (settle_leads d m s g) h)

theorem HitCount.candid (H : d.Candid I) : (HitCount.onto d).Candid fun s g => I s.2 g where
  blank m k s g h hblank := by
    refine (Ground.content_congr (ground_settle ..) k).trans ?_
    have hanswer : ((HitCount.onto d).get m k s g).answer = (d.get m k s.2 g).answer :=
      answer_settle ..
    exact H.blank m k s.2 g h (hanswer ▸ hblank)

omit [DecidableEq κ] in
theorem Packing.isBlank_of_settle [Codec α] {r : Reply κ α σ (Lookup κ α)}
    (h : (settle r).answer.IsBlank) : r.answer.IsBlank := by
  unfold settle at h
  split at h
  · split at h <;> exact h.elim
  · exact h

theorem Packing.candid [Codec α] (H : d.Candid I) :
    (Packing.onto d).Candid fun s g => I s.2 g where
  blank m k s g h hblank :=
    (Ground.content_congr ((settle_spec _).1 _) k).trans
      (H.blank m k s.2 g h (isBlank_of_settle hblank))

theorem Gate.isBlank_of_settle {t : Gate κ} {k : κ} {r : Reply κ α σ (Lookup κ α)}
    (h : (t.settle k r).answer.IsBlank) : r.answer.IsBlank := by
  unfold settle at h
  split at h
  · next hr => rw [hr]; trivial
  · next hr => rwa [hr]
  · next hr => rw [hr]; trivial

/-- A lookup that waits at a gate waits for a key that is not stored. -/
theorem Gate.candid (H : d.Candid I) :
    (Gate.onto d).Candid fun s g => Guards d.base g s.1 ∧ I s.2 g where
  blank m k s g h := by
    have hlooked : ∀ t : Gate κ, (t.settle k (d.get m k s.2 g)).answer.IsBlank →
        (t.settle k (d.get m k s.2 g)).ground.content d.base k = none := by
      intro t hblank
      rw [ground_settle]
      exact H.blank m k s.2 g h.2 (isBlank_of_settle hblank)
    show (enter d m k s g).answer.IsBlank → (enter d m k s g).ground.content d.base k = none
    unfold enter
    split
    · next l hl =>
      split
      · exact hlooked s.1
      · exact fun _ => h.1 k l hl
    · exact hlooked _

/-- A cell whose instance is gone is removed by the lookup that finds it: the registry tells its
lease. -/
theorem Leasing.candid (id : String) (base : Nat) :
    (Leasing.onto (Cache.bare id base) : Cache κ α _).Candid fun s g =>
      s.1.Registered (g.store base) where
  blank m k s g h := by
    have hregistered := (h.purge id m).2 k
    simp only [onto, settle]
    generalize purge (Cache.bare id base) m s g = p at hregistered
    split
    · next c hc =>
      have hfind : (p.ground.store base).find? k = some c := by simpa [Cache.bare] using hc
      split
      · exact fun hblank => hblank.elim
      · rw [if_pos (hregistered c hfind)]
        intro _
        exact (Cache.faithful_bare id base).remove_absent m k _ _
    · exact (Cache.candid_bare id base).blank m k p.state.2 p.ground trivial

/-! ## Latched keys -/

namespace Gate

variable {base : Nat} {g g' : Ground κ α} {t : Gate κ}

theorem Guards.within (h : t.Guards base g) (hg : g'.Within base g) : t.Guards base g' :=
  fun k l hl => hg.absent (h k l hl)

theorem Guards.unlatch (h : t.Guards base g) (k : κ)
    (hg : ∀ k', k' ≠ k → g.content base k' = none → g'.content base k' = none) :
    (t.unlatch k).Guards base g' := by
  intro k' l hl
  rw [find?_latches_unlatch] at hl
  split at hl
  · cases hl
  · next hk => exact hg k' hk (h k' l hl)

/-- A lookup that finds nothing or waits keeps the latch of its key, any other one opens it. -/
theorem Guards.settle {k : κ} {r : Reply κ α σ (Lookup κ α)}
    (hrest : ∀ k' l, k' ≠ k → t.latches.find? k' = some l → r.ground.content base k' = none)
    (hblank : r.answer.IsBlank → t.Guards base r.ground) :
    (t.settle k r).state.1.Guards base (t.settle k r).ground := by
  unfold Gate.settle
  split
  · next hr => exact hblank (by rw [hr]; trivial)
  · intro k' l hl
    rw [find?_latches_unlatch] at hl
    split at hl
    · cases hl
    · next he => exact hrest k' l he hl
  · next hr => exact hblank (by rw [hr]; trivial)

theorem guards_enter (H : d.Candid I) (hF : d.Faithful keep read) (m : Moment) (k : κ)
    {s : Gate κ × σ} (h : s.1.Guards d.base g) (hI : I s.2 g) :
    (enter d m k s g).state.1.Guards d.base (enter d m k s g).ground := by
  have hwithin := h.within (hF.get m k s.2 g)
  unfold enter
  split
  · split
    · exact .settle (fun k' l _ => hwithin k' l) fun _ => hwithin
    · exact h
  · refine .settle (fun k' l hk' hl => hwithin k' l ?_) fun hblank k' l hl => ?_
    · rwa [find?_latches_latch, if_neg hk'] at hl
    · rw [find?_latches_latch] at hl
      split at hl
      · next hk => exact hk ▸ H.blank m k s.2 g hI hblank
      · exact hwithin k' l hl

/-- What is latched stays absent until its latch is opened: only a write of the key stores it. -/
theorem upholds_guards (H : d.Candid I) (hI : d.Upholds I) (hF : d.Faithful keep read) :
    (Gate.onto d).Upholds fun s g => s.1.Guards d.base g ∧ I s.2 g where
  put m k c s g h := by
    refine ⟨h.1.unlatch k fun k' hk' habsent => ?_, hI.put m k c s.2 g h.2⟩
    simp only [onto]
    cases ha : (d.put m k c s.2 g).answer with
    | error e => exact (hF.put_error m k c s.2 g e ha).absent habsent
    | ok _ =>
      obtain ⟨y, -, hwrote⟩ := hF.put_ok m k c s.2 g ha
      cases hcontent : (d.put m k c s.2 g).ground.content d.base k' with
      | none => rfl
      | some y' =>
        have hold := hwrote k' y' hcontent
        rw [if_neg hk', habsent] at hold
        cases hold
  get m k s g h :=
    ⟨guards_enter H hF m k h.1 h.2, hI.leads (enter_leads d m k s g) h.2⟩
  resume m k gate w s g h := by
    refine ⟨?_, ((rests d).upholds rfl hI).resume m k gate w s g h.2⟩
    cases gate with
    | zero =>
      cases w with
      | opened => exact guards_enter H hF m k h.1 h.2
      | expired =>
        simp only [onto, giveUp]
        split <;> exact h.1
    | succ gate =>
      have hwithin := h.1.within (hF.resume m k gate w s.2 g)
      exact .settle (fun k' l _ => hwithin k' l) fun _ => hwithin
  remove m k s g h :=
    ⟨h.1.unlatch k fun _ _ => (hF.remove m k s.2 g).absent, hI.remove m k s.2 g h.2⟩
  clear m s g h := ⟨fun k _ _ => hF.clear m s.2 g k, hI.clear m s.2 g h.2⟩
  size m s g h := ⟨h.1.within (hF.size m s.2 g), hI.size m s.2 g h.2⟩
  release m k s g h :=
    ⟨h.1.unlatch k fun _ _ => (hF.release m k s.2 g).absent, hI.release m k s.2 g h.2⟩
  elsewhere h hg := ⟨h.1.within (.of_eq (Ground.content_congr hg)), hI.elsewhere h.2 hg⟩

end Gate

end Layers

section Stacks

variable [DecidableEq κ] [Codec α]

/-- What the layers of a stack know stays so, and lookups of the stack are candid, if reclaiming
layers lie on the base store only. -/
theorem Stack.upholds_telling_and_candid (id : String) (base : Nat) (kinds : List Kind)
    (hleasing : .leasing ∉ kinds.dropLast) :
    ((Stack.cache id base kinds : Cache κ α _).Upholds fun s g => Telling base g kinds s) ∧
      (Stack.cache id base kinds : Cache κ α _).Candid fun s g => Telling base g kinds s := by
  induction kinds with
  | nil => exact ⟨Cache.upholds_bare id base, Cache.candid_bare id base⟩
  | cons kind kinds ih =>
    rcases Kind.leasing_cons hleasing with ⟨rfl, rfl⟩ | ⟨hkind, hbelow⟩
    · exact ⟨(Leasing.upholds_registered id base).congr fun _ _ => and_iff_left trivial,
        (Leasing.candid id base).congr fun _ _ => and_iff_left trivial⟩
    · obtain ⟨hI, H⟩ := ih hbelow
      have hF := faithful (κ := κ) (α := α) id base kinds
      have hbase := base_cache (κ := κ) (α := α) id base kinds
      have hrest := Kind.upholds hI hkind
      cases kind
      case leasing => exact absurd rfl hkind
      case latching =>
        have hguards := Gate.upholds_guards H hI hF
        have hcandid := Gate.candid H
        rw [hbase] at hguards hcandid
        exact ⟨hguards, hcandid⟩
      case window =>
        exact ⟨hrest.congr fun _ _ => and_iff_right trivial,
          (Window.candid H hI hF).congr fun _ _ => and_iff_right trivial⟩
      case packing =>
        exact ⟨hrest.congr fun _ _ => and_iff_right trivial,
          (Packing.candid H).congr fun _ _ => and_iff_right trivial⟩
      case counting =>
        exact ⟨hrest.congr fun _ _ => and_iff_right trivial,
          (HitCount.candid H).congr fun _ _ => and_iff_right trivial⟩
      -- The others hand a lookup on as it is.
      all_goals
        exact ⟨hrest.congr fun _ _ => and_iff_right trivial,
          ⟨fun m k s g h => H.blank m k s.2 g h.2⟩⟩

theorem Stack.upholds_telling (id : String) (base : Nat) (kinds : List Kind)
    (hleasing : .leasing ∉ kinds.dropLast) :
    (Stack.cache id base kinds : Cache κ α _).Upholds fun s g => Telling base g kinds s :=
  (upholds_telling_and_candid id base kinds hleasing).1

theorem Stack.candid (id : String) (base : Nat) (kinds : List Kind)
    (hleasing : .leasing ∉ kinds.dropLast) :
    (Stack.cache id base kinds : Cache κ α _).Candid fun s g => Telling base g kinds s :=
  (upholds_telling_and_candid id base kinds hleasing).2

/-- Without latches no lookup waits. -/
theorem Stack.decides (id : String) (base : Nat) (kinds : List Kind)
    (hlatching : .latching ∉ kinds) (m : Moment) (k : κ) (s : Stack κ kinds) (g : Ground κ α) :
    ∃ found, ((Stack.cache id base kinds).get m k s g).answer = .done found := by
  induction kinds generalizing g with
  | nil => exact ⟨_, rfl⟩
  | cons kind kinds ih =>
    have hbelow := ih fun hm => hlatching (List.mem_cons_of_mem kind hm)
    simp only [cache]
    cases kind
    case latching => exact absurd List.mem_cons_self hlatching
    case lru => exact hbelow s.2 g
    case fifo => exact hbelow s.2 g
    case passing => exact hbelow s.2 g
    case leasing =>
      obtain ⟨found, hfound⟩ := hbelow _ (Leasing.purge (cache id base kinds) m s g).ground
      simp only [Kind.onto, Leasing.onto, Leasing.settle]
      split
      · split
        · exact ⟨_, rfl⟩
        · split <;> exact ⟨_, rfl⟩
      · exact ⟨found, hfound⟩
    case window =>
      simp only [Kind.onto, Window.onto]
      split
      · exact ⟨_, rfl⟩
      · exact hbelow _ _
    case packing =>
      obtain ⟨found, hfound⟩ := hbelow s.2 g
      simp only [Kind.onto, Packing.onto, Packing.settle, hfound]
      split
      · split <;> exact ⟨_, rfl⟩
      · exact ⟨found, rfl⟩
    case counting =>
      obtain ⟨found, hfound⟩ := hbelow s.2 g
      exact ⟨found, (HitCount.answer_settle ..).trans hfound⟩

omit [Codec α] in
theorem Stack.telling_of_registered {base : Nat} {g : Ground κ α} {kinds : List Kind}
    (hlatching : .latching ∉ kinds) {s : Stack κ kinds}
    (h : Registered (g.store base) kinds s) : Telling base g kinds s := by
  induction kinds with
  | nil => trivial
  | cons kind kinds ih =>
    refine ⟨?_, ih (fun hm => hlatching (List.mem_cons_of_mem kind hm)) h.2⟩
    cases kind
    case latching => exact absurd List.mem_cons_self hlatching
    case leasing => exact h.1
    all_goals trivial

/-- Stacks without latches are thorough if reclaiming layers lie on the base store only. -/
theorem Stack.thorough (id : String) (base : Nat) (kinds : List Kind)
    (hleasing : .leasing ∉ kinds.dropLast) (hlatching : .latching ∉ kinds) :
    (Stack.cache id base kinds : Cache κ α _).Thorough fun s g =>
      Registered (g.store base) kinds s where
  decides := decides id base kinds hlatching
  missed m k s g h hanswer :=
    (candid id base kinds hleasing).blank m k s g (telling_of_registered hlatching h)
      (by rw [hanswer]; trivial)

end Stacks

end LayeredCache
