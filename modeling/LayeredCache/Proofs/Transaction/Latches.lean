import LayeredCache.Proofs.Layer.Misses
import LayeredCache.Transaction.Buffer

/-!
# What calls do to latches

Over a blocking layer a lookup either waits for the thread that holds the latch of its key, or it
passes and, if it finds nothing, holds the latch afterwards. A write, a removal and a release open
the latch of their key, whoever holds it. So a commit opens the latches of the keys that it writes
or removes, a rollback those of the keys that were missed, and both open no others.

The blocking layer is one of several caches that share a state: the other ones do not reach it.

## Main definitions

* `Gate.owner?` — the thread that holds the latch of a key.
* `Gate.Opened` — the latches of some keys were opened, nothing was stored under the others.
* `Buffer.touched` — the keys that a commit writes or removes.
-/

namespace LayeredCache

variable {κ α σ τ : Type}

/-! ## Parts of a state -/

/-- The cache on the first of two states. -/
def Cache.left (c : Cache κ α σ) : Cache κ α (σ × τ) where
  id := c.id
  base := c.base
  put m k x u g := let r := c.put m k x u.1 g; ⟨(r.state, u.2), r.ground, r.answer⟩
  get m k u g := let r := c.get m k u.1 g; ⟨(r.state, u.2), r.ground, r.answer⟩
  resume m k gate w u g :=
    let r := c.resume m k gate w u.1 g; ⟨(r.state, u.2), r.ground, r.answer⟩
  remove m k u g := let r := c.remove m k u.1 g; ⟨(r.state, u.2), r.ground, r.answer⟩
  clear m u g := let r := c.clear m u.1 g; ⟨(r.state, u.2), r.ground, r.answer⟩
  size m u g := let r := c.size m u.1 g; ⟨(r.state, u.2), r.ground, r.answer⟩
  release m k u g := let r := c.release m k u.1 g; ⟨(r.state, u.2), r.ground, r.answer⟩

/-- The cache on the second of two states. -/
def Cache.right (c : Cache κ α τ) : Cache κ α (σ × τ) where
  id := c.id
  base := c.base
  put m k x u g := let r := c.put m k x u.2 g; ⟨(u.1, r.state), r.ground, r.answer⟩
  get m k u g := let r := c.get m k u.2 g; ⟨(u.1, r.state), r.ground, r.answer⟩
  resume m k gate w u g :=
    let r := c.resume m k gate w u.2 g; ⟨(u.1, r.state), r.ground, r.answer⟩
  remove m k u g := let r := c.remove m k u.2 g; ⟨(u.1, r.state), r.ground, r.answer⟩
  clear m u g := let r := c.clear m u.2 g; ⟨(u.1, r.state), r.ground, r.answer⟩
  size m u g := let r := c.size m u.2 g; ⟨(u.1, r.state), r.ground, r.answer⟩
  release m k u g := let r := c.release m k u.2 g; ⟨(u.1, r.state), r.ground, r.answer⟩

/-- The calls of a transaction on `e` leave the cells of a base store as they are. -/
structure Cache.Avoids (e : Cache κ α τ) (base : Nat) : Prop where
  put : ∀ m k x t g, (e.put m k x t g).ground.store base = g.store base
  get : ∀ m k t g, (e.get m k t g).ground.store base = g.store base
  resume : ∀ m k gate w t g, (e.resume m k gate w t g).ground.store base = g.store base
  remove : ∀ m k t g, (e.remove m k t g).ground.store base = g.store base
  clear : ∀ m t g, (e.clear m t g).ground.store base = g.store base
  release : ∀ m k t g, (e.release m k t g).ground.store base = g.store base

variable [DecidableEq κ]

/-- A base store leaves the others alone. -/
theorem Cache.avoids_bare (id : String) {base other : Nat} (h : other ≠ base) :
    (Cache.bare id base : Cache κ α Unit).Avoids other where
  put m k x t g := by simp [bare, Ground.store_setStore, h]
  get m k t g := rfl
  resume m k gate w t g := rfl
  remove m k t g := by
    simp only [bare]
    split
    · rfl
    · simp [Ground.store_setStore, h]
  clear m t g := by simp [bare, Ground.store_setStore, h]
  release m k t g := rfl

/-! ## Lookups over a blocking layer -/

/-- The thread that holds the latch of a key. -/
def Gate.owner? (t : Gate κ) (k : κ) : Option String := (t.latches.find? k).map (·.owner)

/-- No latch is held in a layer, if it is one with latches. -/
def Kind.Unlatched : (kind : Kind) → kind.State κ → Prop
  | .latching, t => ∀ k, Gate.owner? t k = none
  | _, _ => True

namespace Gate

@[simp] theorem owner?_unlatch (t : Gate κ) (k k' : κ) :
    (t.unlatch k).owner? k' = if k' = k then none else t.owner? k' := by
  rw [owner?, find?_latches_unlatch]
  split <;> rfl

@[simp] theorem owner?_latch (t : Gate κ) (k k' : κ) (thread : String) :
    (t.latch k thread).owner? k' = if k' = k then some thread else t.owner? k' := by
  rw [owner?, find?_latches_latch]
  split <;> rfl

variable {d : Cache κ α σ} {I : σ → Ground κ α → Prop}
  {keep read : Content α → Except CodecError (Content α)} {s : Gate κ × σ} {g : Ground κ α}
  {m : Moment} {k : κ}

/-- A lookup waits for another thread that holds the latch, and changes nothing. -/
theorem get_waits {thread : String} (h : s.1.owner? k = some thread) (hne : thread ≠ m.thread) :
    ∃ n, (onto d).get m k s g = ⟨s, g, .waiting 0 n⟩ := by
  obtain ⟨l, hl, rfl⟩ := Option.map_eq_some_iff.mp h
  refine ⟨l.number, ?_⟩
  simp only [onto, enter, hl]
  exact if_neg hne

/-- A lookup passes if no other thread holds the latch. -/
theorem get_passes (h : ∀ thread, s.1.owner? k = some thread → thread = m.thread) :
    ∃ t : Gate κ, (∀ k', t.owner? k' = if k' = k then some m.thread else s.1.owner? k') ∧
      (onto d).get m k s g = t.settle k (d.get m k s.2 g) := by
  simp only [onto, enter]
  cases hl : s.1.latches.find? k with
  | none => exact ⟨s.1.latch k m.thread, fun k' => owner?_latch s.1 k k' m.thread, rfl⟩
  | some l =>
    have howner : s.1.owner? k = some l.owner := congrArg (Option.map _) hl
    have hown := h l.owner howner
    refine ⟨s.1, ?_, by simp [hown]⟩
    intro k'
    split
    · next he => rw [he, howner, hown]
    · rfl

/-- A lookup that waits does so for a latch of this layer. -/
theorem gate_eq_zero (H : d.Thorough I) {gate n : Nat}
    (h : ((onto d).get m k s g).answer = .waiting gate n) : gate = 0 := by
  rcases enter_cases d m k s g with ⟨latch, he⟩ | ⟨t, he⟩
  · have hanswer : (enter d m k s g).answer = .waiting gate n := h
    rw [he] at hanswer
    injection hanswer with hgate
    exact hgate.symm
  · obtain ⟨found, hfound⟩ := H.decides m k s.2 g
    have hanswer : (enter d m k s g).answer = .done found := by
      rw [he]
      exact (answer_settle_done ..).mpr hfound
    have hwaits : (enter d m k s g).answer = .waiting gate n := h
    rw [hanswer] at hwaits
    cases hwaits

/-- What a lookup that passes leaves. -/
structure Passed (d : Cache κ α σ) (I : σ → Ground κ α → Prop) (m : Moment) (k : κ)
    (s : Gate κ × σ) (g : Ground κ α) (r : Reply κ α (Gate κ × σ) (Lookup κ α))
    (found : Found κ α) : Prop where
  answer : r.answer = .done found
  missed : found = .ok none →
    r.state.1.owner? k = some m.thread ∧ r.ground.content d.base k = none
  found : found ≠ .ok none → r.state.1.owner? k = none ∧ g.content d.base k ≠ none
  other : ∀ k', k' ≠ k → r.state.1.owner? k' = s.1.owner? k'
  within : r.ground.Within d.base g
  kept : I r.state.2 r.ground

/-- A lookup that passes finds nothing and takes the latch, or finds something and leaves none. -/
theorem passed (H : d.Thorough I) (hI : d.Upholds I) (hF : d.Faithful keep read)
    (hs : I s.2 g) (h : ∀ thread, s.1.owner? k = some thread → thread = m.thread) :
    ∃ found, Passed d I m k s g ((onto d).get m k s g) found := by
  obtain ⟨t, ht, hget⟩ := get_passes (d := d) (g := g) h
  obtain ⟨found, hfound⟩ := H.decides m k s.2 g
  refine ⟨found, ?_⟩
  rw [hget]
  refine {
    answer := (answer_settle_done ..).mpr hfound
    missed := ?_
    found := ?_
    other := ?_
    within := ?_
    kept := by
      rw [state_settle, ground_settle]
      exact hI.get m k s.2 g hs }
  · rintro rfl
    constructor
    · simp only [settle, hfound, ht k, if_true]
    · rw [ground_settle]
      exact H.missed m k s.2 g hs hfound
  · intro hne
    refine ⟨?_, fun habsent => hne ?_⟩
    · unfold settle
      split
      · next hnone => exact absurd (by injection hfound.symm.trans hnone) hne
      · simp
      · next hwaits => rw [hfound] at hwaits; cases hwaits
    · rcases hF.get_absent m k s.2 g habsent with hnone | ⟨gate, n, hwaits⟩
      · injection hfound.symm.trans hnone
      · rw [hfound] at hwaits
        cases hwaits
  · intro k' hk'
    unfold settle
    split
    · exact (ht k').trans (if_neg hk')
    · simp only [owner?_unlatch, if_neg hk', ht k']
    · exact (ht k').trans (if_neg hk')
  · rw [ground_settle]
    exact hF.get m k s.2 g

/-! ## Calls that open latches -/

/-- From the state `s` and the ground `g` to `s'` and `g'`, the latches of the keys with the
property `p` were opened; under the other keys no latch was taken or opened and nothing was
stored. -/
structure Opened (d : Cache κ α σ) (I : σ → Ground κ α → Prop) (p : κ → Prop) (s : Gate κ × σ)
    (g : Ground κ α) (s' : Gate κ × σ) (g' : Ground κ α) : Prop where
  opened : ∀ k, p k → s'.1.owner? k = none
  other : ∀ k, ¬p k → s'.1.owner? k = s.1.owner? k
  absent : ∀ k, ¬p k → g.content d.base k = none → g'.content d.base k = none
  kept : I s.2 g → I s'.2 g'

variable {p q : κ → Prop} {s' s'' : Gate κ × σ} {g' g'' : Ground κ α}

theorem Opened.congr (h : Opened d I p s g s' g') (hq : ∀ k, q k ↔ p k) :
    Opened d I q s g s' g' := by
  obtain rfl : q = p := funext fun k => propext (hq k)
  exact h

/-- What leaves the layer and the cells of its base store as they are, opens nothing. -/
theorem Opened.of_eq (hI : d.Upholds I) (hs : s' = s) (hg : g'.store d.base = g.store d.base)
    (hp : ∀ k, ¬p k) : Opened d I p s g s' g' where
  opened k hk := absurd hk (hp k)
  other k _ := by rw [hs]
  absent k _ hk := (Ground.content_congr hg k).trans hk
  kept h := hI.elsewhere (hs ▸ h) hg

theorem Opened.trans (h : Opened d I p s g s' g') (h' : Opened d I q s' g' s'' g'') :
    Opened d I (fun k => p k ∨ q k) s g s'' g'' where
  opened k hk := by
    by_cases hq : q k
    · exact h'.opened k hq
    · exact (h'.other k hq).trans (h.opened k (hk.resolve_right hq))
  other k hk := (h'.other k fun hq => hk (.inr hq)).trans (h.other k fun hp => hk (.inl hp))
  absent k hk hg := h'.absent k (fun hq => hk (.inr hq)) (h.absent k (fun hp => hk (.inl hp)) hg)
  kept hs := h'.kept (h.kept hs)

end Gate

/-- The writes, removals and releases on `c`, a cache that shares its state with a blocking layer
over `d`, open the latches of their keys if `own`, and none otherwise. -/
structure Cache.Opens (c : Cache κ α ((Gate κ × σ) × τ)) (d : Cache κ α σ)
    (I : σ → Ground κ α → Prop) (own : Prop) : Prop where
  put : ∀ m k x u g, Gate.Opened d I (fun k' => own ∧ k' = k) u.1 g (c.put m k x u g).state.1
    (c.put m k x u g).ground
  remove : ∀ m k u g, Gate.Opened d I (fun k' => own ∧ k' = k) u.1 g (c.remove m k u g).state.1
    (c.remove m k u g).ground
  clear : ∀ m u g, Gate.Opened d I (fun _ => False) u.1 g (c.clear m u g).state.1
    (c.clear m u g).ground
  release : ∀ m k u g, Gate.Opened d I (fun k' => own ∧ k' = k) u.1 g (c.release m k u g).state.1
    (c.release m k u g).ground

section Opens

variable {d : Cache κ α σ} {I : σ → Ground κ α → Prop}
  {keep read : Content α → Except CodecError (Content α)}

theorem Gate.opens (hI : d.Upholds I) (hF : d.Faithful keep read) :
    ((Gate.onto d).left (τ := τ)).Opens d I True where
  put m k x u g := by
    refine ⟨?_, ?_, ?_, hI.put m k x u.1.2 g⟩
    · intro k' hk'
      simp [Cache.left, onto, hk'.2]
    · intro k' hk'
      have hne : k' ≠ k := fun he => hk' ⟨trivial, he⟩
      simp [Cache.left, onto, hne]
    · intro k' hk' habsent
      show (d.put m k x u.1.2 g).ground.content d.base k' = none
      cases hput : (d.put m k x u.1.2 g).answer with
      | error e => exact (hF.put_error m k x _ g e hput).absent habsent
      | ok _ =>
        obtain ⟨y, -, hwrote⟩ := hF.put_ok m k x _ g hput
        cases hy : (d.put m k x u.1.2 g).ground.content d.base k' with
        | none => rfl
        | some y' =>
          have hw := hwrote k' y' hy
          rw [if_neg fun he => hk' ⟨trivial, he⟩, habsent] at hw
          cases hw
  remove m k u g := by
    refine ⟨?_, ?_, ?_, hI.remove m k u.1.2 g⟩
    · intro k' hk'
      simp [Cache.left, onto, hk'.2]
    · intro k' hk'
      have hne : k' ≠ k := fun he => hk' ⟨trivial, he⟩
      simp [Cache.left, onto, hne]
    · intro k' _ habsent
      exact (hF.remove m k u.1.2 g).absent habsent
  clear m u g :=
    ⟨fun _ hk' => hk'.elim, fun _ _ => rfl, fun k' _ _ => hF.clear m u.1.2 g k',
      hI.clear m u.1.2 g⟩
  release m k u g := by
    refine ⟨?_, ?_, ?_, hI.release m k u.1.2 g⟩
    · intro k' hk'
      simp [Cache.left, onto, hk'.2]
    · intro k' hk'
      have hne : k' ≠ k := fun he => hk' ⟨trivial, he⟩
      simp [Cache.left, onto, hne]
    · intro k' _ habsent
      exact (hF.release m k u.1.2 g).absent habsent

/-- A cache on the other part of the state opens no latches. -/
theorem Cache.Avoids.opens {e : Cache κ α τ} (h : e.Avoids d.base) (hI : d.Upholds I) :
    (e.right (σ := Gate κ × σ)).Opens d I False where
  put m k x u g := .of_eq hI rfl (h.put m k x u.2 g) fun _ hk => hk.1
  remove m k u g := .of_eq hI rfl (h.remove m k u.2 g) fun _ hk => hk.1
  clear m u g := .of_eq hI rfl (h.clear m u.2 g) fun _ hk => hk
  release m k u g := .of_eq hI rfl (h.release m k u.2 g) fun _ hk => hk.1

variable {c : Cache κ α ((Gate κ × σ) × τ)} {own : Prop}

theorem Cache.Opens.removeAll (H : c.Opens d I own) (hI : d.Upholds I) (m : Moment) (keys : List κ)
    (u : (Gate κ × σ) × τ) (g : Ground κ α) :
    Gate.Opened d I (fun k => own ∧ k ∈ keys) u.1 g (c.removeAll m keys u g).1.1
      (c.removeAll m keys u g).2 := by
  induction keys generalizing u g with
  | nil => exact .of_eq hI rfl rfl fun k hk => List.not_mem_nil hk.2
  | cons k keys ih =>
    refine ((H.remove m k u g).trans (ih _ _)).congr ?_
    intro k'
    rw [List.mem_cons, and_or_left]

theorem Cache.Opens.releaseAll (H : c.Opens d I own) (hI : d.Upholds I) (m : Moment)
    (keys : List κ) (u : (Gate κ × σ) × τ) (g : Ground κ α) :
    Gate.Opened d I (fun k => own ∧ k ∈ keys) u.1 g (c.releaseAll m keys u g).1.1
      (c.releaseAll m keys u g).2 := by
  induction keys generalizing u g with
  | nil => exact .of_eq hI rfl rfl fun k hk => List.not_mem_nil hk.2
  | cons k keys ih =>
    refine ((H.release m k u g).trans (ih _ _)).congr ?_
    intro k'
    rw [List.mem_cons, and_or_left]

end Opens

/-! ## Buffers -/

namespace Buffer

section Touched

variable {υ : Type}

omit [DecidableEq κ] in
/-- The keys of writes up to the first that fails, that one included. -/
def attempted (c : Cache κ α υ) (m : Moment) : List (κ × Item α) → υ → Ground κ α → List κ
  | [], _, _ => []
  | (k, i) :: rest, u, g =>
    let r := c.put m k { item := i } u g
    match r.answer with
    | .error _ => [k]
    | .ok _ => k :: attempted c m rest r.state r.ground

/-- The keys that a commit writes or removes. A write that fails counts. -/
def touched (c : Cache κ α υ) (m : Moment) (b : Buffer κ α) (u : υ) (g : Ground κ α) : List κ :=
  let m := m.holding b.serials
  let (u, g) := if b.clearing then let r := c.clear m u g; (r.state, r.ground) else (u, g)
  attempted c m b.writes u g ++
    match (writeAll c m b.writes u g).answer with
    | .error _ => []
    | .ok _ => b.unwritten

omit [DecidableEq κ] in
theorem exists_write_of_attempted {c : Cache κ α υ} {m : Moment} {writes : List (κ × Item α)}
    {u : υ} {g : Ground κ α} {k : κ} (h : k ∈ attempted c m writes u g) :
    ∃ w ∈ writes, w.1 = k := by
  induction writes generalizing u g with
  | nil => cases h
  | cons w writes ih =>
    simp only [attempted] at h
    split at h
    · rw [List.mem_singleton] at h
      exact ⟨w, List.mem_cons_self, h.symm⟩
    · rcases List.mem_cons.mp h with rfl | h
      · exact ⟨w, List.mem_cons_self, rfl⟩
      · obtain ⟨w', hw', he⟩ := ih h
        exact ⟨w', List.mem_cons_of_mem w hw', he⟩

/-- A commit touches missed keys alone if only missed keys were written. -/
theorem mem_misses_of_touched {c : Cache κ α υ} {m : Moment} {b : Buffer κ α} {u : υ}
    {g : Ground κ α} (hwrites : ∀ w ∈ b.writes, w.1 ∈ b.misses) {k : κ}
    (h : k ∈ b.touched c m u g) : k ∈ b.misses := by
  simp only [touched] at h
  rcases List.mem_append.mp h with h | h
  · obtain ⟨w, hw, rfl⟩ := exists_write_of_attempted h
    exact hwrites w hw
  · split at h
    · cases h
    · exact (List.mem_filter.mp h).1

/-- A commit leaves nothing of the buffer if it succeeds, and all of it if it fails. -/
theorem buffer_commit (c : Cache κ α υ) (m : Moment) (b : Buffer κ α) (u : υ) (g : Ground κ α) :
    (b.commit c m u g).state.1 =
      match (b.commit c m u g).answer with
      | .error _ => b
      | .ok _ => {} := by
  simp only [commit]
  split <;> rfl

end Touched

variable {d : Cache κ α σ} {I : σ → Ground κ α → Prop} {c : Cache κ α ((Gate κ × σ) × τ)}
  {own : Prop}

theorem opened_writeAll (H : c.Opens d I own) (hI : d.Upholds I) (m : Moment)
    (writes : List (κ × Item α)) (u : (Gate κ × σ) × τ) (g : Ground κ α) :
    Gate.Opened d I (fun k => own ∧ k ∈ attempted c m writes u g) u.1 g
      (writeAll c m writes u g).state.1 (writeAll c m writes u g).ground := by
  induction writes generalizing u g with
  | nil => exact .of_eq hI rfl rfl fun k hk => List.not_mem_nil hk.2
  | cons w writes ih =>
    have hput := H.put m w.1 { item := w.2 } u g
    simp only [writeAll, attempted]
    cases (c.put m w.1 { item := w.2 } u g).answer with
    | error e => exact hput.congr fun k => by rw [List.mem_singleton]
    | ok _ =>
      refine (hput.trans (ih _ _)).congr ?_
      intro k
      rw [List.mem_cons, and_or_left]

/-- A commit opens the latches of the keys that it writes or removes, and no others. -/
theorem opened_commit (H : c.Opens d I own) (hI : d.Upholds I) (m : Moment) (b : Buffer κ α)
    (u : (Gate κ × σ) × τ) (g : Ground κ α) :
    Gate.Opened d I (fun k => own ∧ k ∈ b.touched c m u g) u.1 g (b.commit c m u g).state.2.1
      (b.commit c m u g).ground := by
  simp only [commit, touched]
  have hclear : ∀ v : ((Gate κ × σ) × τ) × Ground κ α,
      v = (if b.clearing then
        ((c.clear (m.holding b.serials) u g).state, (c.clear (m.holding b.serials) u g).ground)
        else (u, g)) → Gate.Opened d I (fun _ => False) u.1 g v.1.1 v.2 := by
    rintro v rfl
    split
    · exact H.clear _ u g
    · exact .of_eq hI rfl rfl fun _ hk => hk
  have hcleared := hclear _ rfl
  generalize (if b.clearing then
    ((c.clear (m.holding b.serials) u g).state, (c.clear (m.holding b.serials) u g).ground)
    else (u, g)) = v at hcleared ⊢
  have hwritten := hcleared.trans (opened_writeAll H hI (m.holding b.serials) b.writes v.1 v.2)
  cases (writeAll c (m.holding b.serials) b.writes v.1 v.2).answer with
  | error e => exact hwritten.congr fun k => by simp
  | ok _ =>
    have hremoved := hwritten.trans
      (H.removeAll hI (m.holding b.serials) b.unwritten
        (writeAll c (m.holding b.serials) b.writes v.1 v.2).state
        (writeAll c (m.holding b.serials) b.writes v.1 v.2).ground)
    have hnoted := hremoved.trans (q := fun _ => False)
      (.of_eq hI rfl (Ground.store_note _ (.committed c.id b.pending b.misses.length b.clearing) _)
        fun _ hk => hk)
    exact hnoted.congr fun k => by simp [and_or_left]

/-- A rollback opens the latches of the missed keys, and no others. -/
theorem opened_rollback (H : c.Opens d I own) (hI : d.Upholds I) (m : Moment) (b : Buffer κ α)
    (u : (Gate κ × σ) × τ) (g : Ground κ α) :
    Gate.Opened d I (fun k => own ∧ k ∈ b.misses) u.1 g (b.rollback c m u g).state.2.1
      (b.rollback c m u g).ground :=
  H.releaseAll hI m b.misses u g

end Buffer

end LayeredCache
