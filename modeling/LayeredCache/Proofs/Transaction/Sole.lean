import LayeredCache.Proofs.Layer.Counts
import LayeredCache.Proofs.Transaction.Retry

/-!
# Units of work on one cache

A unit of work that touches one cache has one participant from its first call on. Its lookups note
the missed keys, and those are the only keys that its thread may have latched. A commit writes or
removes every one of them and a rollback releases it, so that either way no latch is left; and if
the cache keeps every value that the unit of work writes, the commit succeeds.

## Main definitions

* `Cache.Serves` — the calls of a unit of work all get an answer.
* `UnitOfWork.Attended` — a unit of work on one cache, and what is known of the cache.

## Main statements

* `UnitOfWork.Attended.fetch`, `UnitOfWork.Attended.put` — lookups and writes go on with it.
* `UnitOfWork.Attended.commit`, `UnitOfWork.Attended.rollback` — what its end leaves.
-/

namespace LayeredCache

variable {κ α σ : Type}

/-- The calls of a unit of work on `d`, at moments with the property `M`, get an answer. `A n q`
says of a state that the counts are `n` and that only keys with the property `q` may be latched; `R`
says the same of a state that has still to be looked at. Contents with the property `W` can be
written. -/
structure Cache.Serves (d : Cache κ α σ) (M : Moment → Prop)
    (R A : List HitCount → (κ → Prop) → σ → Ground κ α → Prop) (W : κ → Content α → Prop) :
    Prop where
  holding : ∀ {m} serials, M m → M (m.holding serials)
  ready : ∀ {n q s g}, A n q s g → R n q s g
  mono : ∀ {n q q' s g}, (∀ k, q k → q' k) → A n q s g → A n q' s g
  elsewhere : ∀ {n q s g g'}, A n q s g → g'.store d.base = g.store d.base → A n q s g'
  get : ∀ {m n q s g} k, M m → R n q s g → let r := d.get m k s g
    ∃ found, r.answer = .done (.ok found) ∧
      A (n.map (·.looked found)) (fun k' => q k' ∨ k' = k ∧ found = none) r.state r.ground
  put : ∀ {m n q s g} k c, M m → W k c.item.content → A n q s g → let r := d.put m k c s g
    r.answer = .ok () ∧ A n (fun k' => q k' ∧ k' ≠ k) r.state r.ground
  remove : ∀ {m n q s g} k, M m → A n q s g → let r := d.remove m k s g
    A n (fun k' => q k' ∧ k' ≠ k) r.state r.ground
  release : ∀ {m n q s g} k, M m → A n q s g → let r := d.release m k s g
    A n (fun k' => q k' ∧ k' ≠ k) r.state r.ground
  size : ∀ {m n q s g}, M m → R n q s g → let r := d.size m s g
    A n q r.state r.ground

variable {d : Cache κ α σ} {M : Moment → Prop}
  {R A : List HitCount → (κ → Prop) → σ → Ground κ α → Prop} {W : κ → Content α → Prop}
  {m : Moment} {n : List HitCount} {q : κ → Prop} {s : σ} {g : Ground κ α}

namespace Cache.Serves

variable (H : d.Serves M R A W) (hm : M m)

include H hm

theorem removeAll (keys : List κ) (h : A n q s g) :
    A n (fun k => q k ∧ k ∉ keys) (d.removeAll m keys s g).1 (d.removeAll m keys s g).2 := by
  induction keys generalizing q s g with
  | nil => exact H.mono (fun _ hk => ⟨hk, List.not_mem_nil⟩) h
  | cons k keys ih =>
    refine H.mono (fun k' hk' => ⟨hk'.1.1, ?_⟩) (ih (H.remove k hm h))
    rw [List.mem_cons, not_or]
    exact ⟨hk'.1.2, hk'.2⟩

theorem releaseAll (keys : List κ) (h : A n q s g) :
    A n (fun k => q k ∧ k ∉ keys) (d.releaseAll m keys s g).1 (d.releaseAll m keys s g).2 := by
  induction keys generalizing q s g with
  | nil => exact H.mono (fun _ hk => ⟨hk, List.not_mem_nil⟩) h
  | cons k keys ih =>
    refine H.mono (fun k' hk' => ⟨hk'.1.1, ?_⟩) (ih (H.release k hm h))
    rw [List.mem_cons, not_or]
    exact ⟨hk'.1.2, hk'.2⟩

theorem writeAll {writes : List (κ × Item α)} (hwrites : ∀ w ∈ writes, W w.1 w.2.content)
    (h : A n q s g) : let r := Buffer.writeAll d m writes s g
    r.answer = .ok () ∧ A n (fun k => q k ∧ ∀ w ∈ writes, w.1 ≠ k) r.state r.ground := by
  induction writes generalizing q s g with
  | nil => exact ⟨rfl, H.mono (fun _ hk => ⟨hk, nofun⟩) h⟩
  | cons w writes ih =>
    rw [List.forall_mem_cons] at hwrites
    obtain ⟨hanswer, hwritten⟩ := H.put w.1 { item := w.2 } hm hwrites.1 h
    obtain ⟨hrest, hall⟩ := ih hwrites.2 hwritten
    simp only [Buffer.writeAll, hanswer]
    refine ⟨hrest, H.mono (fun k hk => ⟨hk.1.1, ?_⟩) hall⟩
    rw [List.forall_mem_cons]
    exact ⟨hk.1.2.symm, hk.2⟩

variable [DecidableEq κ]

/-- A commit leaves no missed key latched: the key is written or removed. -/
theorem commit {b : Buffer κ α} (hclearing : b.clearing = false)
    (hwrites : ∀ w ∈ b.writes, W w.1 w.2.content) (h : A n q s g) : let r := b.commit d m s g
    r.answer = .ok () ∧ A n (fun k => q k ∧ k ∉ b.misses) r.state.2 r.ground := by
  obtain ⟨hanswer, hwritten⟩ := H.writeAll (H.holding b.serials hm) hwrites h
  have hremoved := H.removeAll (H.holding b.serials hm) b.unwritten hwritten
  simp only [Buffer.commit, hclearing, Bool.false_eq_true, if_false, hanswer]
  refine ⟨trivial, H.elsewhere (H.mono (fun k hk => ⟨hk.1.1, fun hmissed => ?_⟩) hremoved) rfl⟩
  exact hk.2 (Buffer.mem_unwritten.mpr ⟨hmissed, hk.1.2⟩)

end Cache.Serves

namespace UnitOfWork

/-- The unit of work takes part in one cache at most, that with the identifier, and `b` is what it
has not yet done there. -/
def IsOn (id : String) (b : Buffer κ α) (u : UnitOfWork Unit κ α) : Prop :=
  (u.join () id).participants = [{ cache := (), id := id, buffer := b }]

/-- The unit of work takes part in one cache at most and does not clear it. What it writes can be
written, and only keys that it has missed may be latched. -/
def Attended (A : List HitCount → (κ → Prop) → σ → Ground κ α → Prop) (W : κ → Content α → Prop)
    (id : String) (n : List HitCount) (u : UnitOfWork Unit κ α) (s : σ) (g : Ground κ α) : Prop :=
  ∃ b, u.IsOn id b ∧ b.clearing = false ∧ (∀ w ∈ b.writes, W w.1 w.2.content) ∧
    A n (· ∈ b.misses) s g

variable {id : String} {b : Buffer κ α} {u : UnitOfWork Unit κ α}

theorem isOn_of_participants (h : u.participants = [{ cache := (), id := id, buffer := b }]) :
    u.IsOn id b := by
  have hjoin : u.join () id = u := by simp [join, participant?, h]
  rw [IsOn, hjoin, h]

theorem isOn_empty : ({} : UnitOfWork Unit κ α).IsOn id {} := rfl

/-- A unit of work on a cache has touched it, or it has nothing to do there. -/
theorem IsOn.participants (h : u.IsOn id b) :
    u.participants = [{ cache := (), id := id, buffer := b }] ∨ u.participants = [] ∧ b = {} := by
  unfold IsOn join at h
  split at h
  · exact .inl h
  · right
    obtain ⟨hempty, hlast⟩ := List.append_eq_singleton_iff.mp h |>.resolve_right (by simp)
    refine ⟨hempty, ?_⟩
    cases hlast
    rfl

/-- What is done to the buffer of the cache. -/
theorem IsOn.modify (h : u.IsOn id b) (f : Buffer κ α → Buffer κ α) :
    ((u.join () id).modify id f).IsOn id (f b) := by
  refine isOn_of_participants ?_
  rw [UnitOfWork.modify, h]
  simp

theorem IsOn.participant? (h : u.IsOn id b) :
    (u.join () id).participant? id = some { cache := (), id := id, buffer := b } := by
  rw [UnitOfWork.participant?, h]
  simp

theorem Attended.ready (H : d.Serves M R A W) (h : Attended A W id n u s g) :
    Attended R W id n u s g :=
  let ⟨b, hon, hclearing, hwrites, hA⟩ := h
  ⟨b, hon, hclearing, hwrites, H.ready hA⟩

theorem Attended.elsewhere (H : d.Serves M R A W) (h : Attended A W id n u s g)
    {g' : Ground κ α} (hg : g'.store d.base = g.store d.base) : Attended A W id n u s g' :=
  let ⟨b, hon, hclearing, hwrites, hA⟩ := h
  ⟨b, hon, hclearing, hwrites, H.elsewhere hA hg⟩

theorem attended_empty (h : R n (fun _ => False) s g) : Attended R W id n {} s g := by
  refine ⟨{}, isOn_empty, rfl, nofun, ?_⟩
  have hfalse : (fun k => k ∈ ({} : Buffer κ α).misses) = fun _ => False :=
    funext fun k => eq_false List.not_mem_nil
  rwa [hfalse]

variable [DecidableEq κ]

/-- A lookup is counted, and it may leave its key latched if it has missed it. -/
theorem Attended.fetch (H : d.Serves M R A W) (hm : M m) (k : κ) (h : Attended R W id n u s g) :
    let r := u.fetch (fun _ => d) m () id k s g
    ∃ found, r.answer = .ok found ∧
      Attended A W id (n.map (·.looked found)) r.state.1 r.state.2 r.ground := by
  obtain ⟨b, hon, hclearing, hwrites, hR⟩ := h
  obtain ⟨found, hfound, hA⟩ := H.get k hm hR
  obtain ⟨hstate, hground, hsame, hmisses, -⟩ := b.settle_spec k (d.get m k s g)
  have hkept : (b.settle k (d.get m k s g)).state.1.clearing = false := by
    rw [Buffer.clearing_settle, hclearing]
  have hanswer : (b.settle k (d.get m k s g)).answer = .done (.ok found) := by
    simp [Buffer.settle, hfound, Buffer.learn, hclearing]
  have hget : (u.get (fun _ => d) m () id k s g) =
      ⟨((u.join () id).modify id fun _ => (b.settle k (d.get m k s g)).state.1,
        (d.get m k s g).state), (d.get m k s g).ground, .done (.ok found)⟩ := by
    simp only [UnitOfWork.get, hon.participant?, Buffer.get, hstate, hground, hanswer]
  simp only [UnitOfWork.fetch, hget]
  refine ⟨found, rfl, _, hon.modify _, hkept, hsame.symm ▸ hwrites, H.mono ?_ hA⟩
  intro k' hk'
  rw [hmisses, hfound]
  exact hk'.imp (fun h => h) fun hnone => ⟨hnone.1, by rw [hnone.2]⟩

theorem Attended.put (h : Attended A W id n u s g) (k : κ) {i : Item α} (hW : W k i.content) :
    Attended A W id n (u.put () id k i) s g := by
  obtain ⟨b, hon, hclearing, hwrites, hA⟩ := h
  refine ⟨_, hon.modify (·.put k i), hclearing, ?_, hA⟩
  intro w hw
  rcases List.mem_append.mp hw with hw | hw
  · exact hwrites w (List.mem_filter.mp hw).1
  · obtain rfl := List.mem_singleton.mp hw
    exact hW

/-- A commit succeeds, and after it nothing waits and nothing is latched. -/
theorem Attended.commit (H : d.Serves M R A W) (hm : M m) (h : Attended A W id n u s g) :
    let r := u.commit (fun _ => d) m s g
    r.answer = .ok () ∧ r.state.1 = {} ∧ A n (fun _ => False) r.state.2 r.ground := by
  obtain ⟨b, hon, hclearing, hwrites, hA⟩ := h
  rcases hon.participants with hsole | ⟨hnone, rfl⟩
  · obtain ⟨hanswer, hdone⟩ := H.commit (H.holding [] hm) hclearing hwrites hA
    simp only [UnitOfWork.commit, hsole, commitAll, List.flatMap_nil, hanswer]
    exact ⟨trivial, trivial, H.mono (fun k hk => hk.2 hk.1) hdone⟩
  · simp only [UnitOfWork.commit, hnone, commitAll]
    exact ⟨trivial, trivial, H.mono (fun k hk => List.not_mem_nil hk) hA⟩

omit [DecidableEq κ] in
/-- After a rollback nothing waits and nothing is latched. -/
theorem Attended.rollback (H : d.Serves M R A W) (hm : M m) (h : Attended A W id n u s g) :
    let r := u.rollback (fun _ => d) m s g
    r.state.1 = {} ∧ A n (fun _ => False) r.state.2 r.ground := by
  obtain ⟨b, hon, hclearing, hwrites, hA⟩ := h
  rcases hon.participants with hsole | ⟨hnone, rfl⟩
  · have hdone := H.releaseAll hm b.misses hA
    simp only [UnitOfWork.rollback, hsole, rollbackAll, Buffer.rollback]
    exact ⟨trivial, H.mono (fun k hk => hk.2 hk.1) hdone⟩
  · simp only [UnitOfWork.rollback, hnone, rollbackAll]
    exact ⟨trivial, H.mono (fun k hk => List.not_mem_nil hk) hA⟩

end UnitOfWork

end LayeredCache
