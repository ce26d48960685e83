import LayeredCache.Layer.Basic
import LayeredCache.Proofs.Leasing.Pins

/-!
# Layers lose contents and never make them up

Whatever a layer does on its own account, be it evicting, flushing, unpinning or purging, the cells
that are left hold what they held before. `Faithful` says so of a cache operation by operation: only
a write that succeeds brings a new content under its key, a removal and a clear leave none, and what
a lookup or a removal hands out is the content of the base store as the layers show it. Every layer
turns a faithful cache into a faithful one, so every stack is one.

## Main definitions

* `Ground.content` — what a key reads in a base store, without instances and leases.
* `Cache.Faithful` — the law above; `keep` and `read` say how values stand in the base store.
* `Stack.keep`, `Stack.read` — these two for a stack: only layers that keep bytes change contents.
-/

namespace LayeredCache

variable {κ α σ : Type}

section Contents

variable [DecidableEq κ]

/-- The content that a base store holds under a key. -/
def Ground.content (g : Ground κ α) (base : Nat) (k : κ) : Option (Content α) :=
  ((g.store base).find? k).map (·.item.content)

/-- What a base store holds in `g'`, it holds in `g` too. -/
def Ground.Within (base : Nat) (g' g : Ground κ α) : Prop :=
  ∀ k y, g'.content base k = some y → g.content base k = some y

/-- What a base store holds in `g'`, it holds in `g` too, except for the key `k`, which holds `y` or
nothing. -/
def Ground.Wrote (base : Nat) (k : κ) (y : Content α) (g' g : Ground κ α) : Prop :=
  ∀ k' y', g'.content base k' = some y' → if k' = k then y' = y else g.content base k' = some y'

namespace Ground

variable {base : Nat} {g g' g'' : Ground κ α} {k : κ} {y : Content α}

theorem content_congr (h : g'.store base = g.store base) (k : κ) :
    g'.content base k = g.content base k := by rw [content, content, h]

theorem Within.refl (base : Nat) (g : Ground κ α) : Within base g g := fun _ _ h => h

theorem Within.of_eq (h : ∀ k, g'.content base k = g.content base k) : Within base g' g :=
  fun k _ hk => (h k) ▸ hk

theorem Within.trans (h : Within base g'' g') (h' : Within base g' g) : Within base g'' g :=
  fun k y hk => h' k y (h k y hk)

theorem Within.absent (h : Within base g' g) (hk : g.content base k = none) :
    g'.content base k = none := by
  cases hk' : g'.content base k with
  | none => rfl
  | some y => rw [h k y hk'] at hk; cases hk

theorem Within.of_absent (h : ∀ k, g'.content base k = none) : Within base g' g :=
  fun k y hk => by rw [h k] at hk; cases hk

theorem Wrote.after (h : Wrote base k y g'' g') (h' : Within base g' g) : Wrote base k y g'' g := by
  intro k' y' hk'
  have hw := h k' y' hk'
  split
  · next he => rwa [if_pos he] at hw
  · next he =>
    rw [if_neg he] at hw
    exact h' k' y' hw

theorem Wrote.within (h : Within base g'' g') (h' : Wrote base k y g' g) : Wrote base k y g'' g :=
  fun k' y' hk' => h' k' y' (h k' y' hk')

end Ground

end Contents

/-- `d` loses contents and never makes them up. A content `x` that callers of `d` write stands in
the base store as `keep x`, and one that stands there as `y` is shown to them as `read y`. -/
structure Cache.Faithful [DecidableEq κ] (d : Cache κ α σ)
    (keep read : Content α → Except CodecError (Content α)) : Prop where
  put_error : ∀ m k c s g e, (d.put m k c s g).answer = .error e →
    (d.put m k c s g).ground.Within d.base g
  put_ok : ∀ m k c s g, (d.put m k c s g).answer = .ok () →
    ∃ y, keep c.item.content = .ok y ∧ (d.put m k c s g).ground.Wrote d.base k y g
  get : ∀ m k s g, (d.get m k s g).ground.Within d.base g
  get_some : ∀ m k s g x, (d.get m k s g).answer = .done (.ok (some x)) →
    ∃ y, g.content d.base k = some y ∧ read y = .ok x.item.content
  get_absent : ∀ m k s g, g.content d.base k = none →
    (d.get m k s g).answer = .done (.ok none) ∨
      ∃ gate latch, (d.get m k s g).answer = .waiting gate latch
  resume : ∀ m k gate w s g, (d.resume m k gate w s g).ground.Within d.base g
  resume_some : ∀ m k gate w s g x, (d.resume m k gate w s g).answer = .done (.ok (some x)) →
    ∃ y, g.content d.base k = some y ∧ read y = .ok x.item.content
  remove : ∀ m k s g, (d.remove m k s g).ground.Within d.base g
  remove_absent : ∀ m k s g, (d.remove m k s g).ground.content d.base k = none
  remove_some : ∀ m k s g x, (d.remove m k s g).answer = some x →
    ∃ y, g.content d.base k = some y ∧ read y = .ok x.item.content
  clear : ∀ m s g k, (d.clear m s g).ground.content d.base k = none
  size : ∀ m s g, (d.size m s g).ground.Within d.base g
  release : ∀ m k s g, (d.release m k s g).ground.Within d.base g

section Layers

variable [DecidableEq κ] {d : Cache κ α σ} {keep read : Content α → Except CodecError (Content α)}

/-! ## The base store -/

@[simp] theorem Cache.base_bare (id : String) (base : Nat) :
    (Cache.bare id base : Cache κ α Unit).base = base := rfl

theorem Cache.faithful_bare (id : String) (base : Nat) :
    (Cache.bare id base : Cache κ α Unit).Faithful .ok .ok where
  put_error m k c s g e h := by simp [bare] at h
  put_ok m k c s g h := by
    refine ⟨c.item.content, rfl, ?_⟩
    intro k' y' hk'
    simp only [bare, Ground.content, Ground.store_setStore_self, Table.find?_insert] at hk'
    split
    · next he => simpa [he, eq_comm] using hk'
    · next he => simpa [he, Ground.content] using hk'
  get m k s g := Ground.Within.refl base g
  get_some m k s g x h := by
    have hx : (g.store base).find? k = some x := by simpa [bare] using h
    exact ⟨x.item.content, by simp [Ground.content, hx, bare], rfl⟩
  get_absent m k s g h := by
    left
    simpa [bare, Ground.content] using h
  resume m k gate w s g := Ground.Within.refl base g
  resume_some m k gate w s g x h := by simp [bare] at h
  remove m k s g := by
    intro k' y' hk'
    simp only [bare] at hk' ⊢
    cases hf : (g.store base).find? k with
    | none => simpa [hf] using hk'
    | some c =>
      simp only [hf, Ground.content, Ground.store_setStore_self, Table.find?_erase] at hk'
      by_cases he : k' = k
      · simp [he] at hk'
      · simpa [he, Ground.content] using hk'
  remove_absent m k s g := by
    simp only [bare]
    cases hf : (g.store base).find? k with
    | none => simp [Ground.content, hf]
    | some c => simp [Ground.content, Table.find?_erase]
  remove_some m k s g x h := by
    cases hf : (g.store base).find? k with
    | none => simp [bare, hf] at h
    | some c =>
      have hc : c = x := by simpa [bare, hf] using h
      exact ⟨c.item.content, by simp [Ground.content, hf, bare], by rw [hc]⟩
  clear m s g k := by simp [bare, Ground.content]
  size m s g := Ground.Within.refl base g
  release m k s g := Ground.Within.refl base g

/-! ## Layers with a bound -/

theorem Recency.faithful (H : d.Faithful keep read) : (Recency.onto d).Faithful keep read where
  put_error m k c s g e h := by
    simp only [onto] at h ⊢
    cases ha : (d.put m k c s.2 g).answer with
    | error e' => exact H.put_error m k c s.2 g e' ha
    | ok _ => rcases he : (s.1.touch k).evictEldest with ⟨i, _ | eldest⟩ <;> simp [ha, he] at h
  put_ok m k c s g h := by
    simp only [onto] at h ⊢
    cases ha : (d.put m k c s.2 g).answer with
    | error e => simp [ha] at h
    | ok _ =>
      obtain ⟨y, hkeep, hwrote⟩ := H.put_ok m k c s.2 g ha
      refine ⟨y, hkeep, ?_⟩
      rcases (s.1.touch k).evictEldest with ⟨i, _ | eldest⟩
      · exact hwrote
      · exact hwrote.within (H.remove m eldest _ _)
  get m k s g := H.get m k s.2 g
  get_some m k s g := H.get_some m k s.2 g
  get_absent m k s g := H.get_absent m k s.2 g
  resume m k gate w s g := H.resume m k gate w s.2 g
  resume_some m k gate w s g := H.resume_some m k gate w s.2 g
  remove m k s g := H.remove m k s.2 g
  remove_absent m k s g := H.remove_absent m k s.2 g
  remove_some m k s g := H.remove_some m k s.2 g
  clear m s g := H.clear m s.2 g
  size m s g := H.size m s.2 g
  release m k s g := H.release m k s.2 g

theorem WriteQueue.faithful (H : d.Faithful keep read) :
    (WriteQueue.onto d).Faithful keep read where
  put_error m k c s g e h := by
    simp only [onto] at h ⊢
    rcases hc : s.1.cycle k with ⟨queue, _ | oldest⟩
    · simp only [hc] at h ⊢
      exact H.put_error m k c s.2 g e h
    · simp only [hc] at h ⊢
      exact (H.put_error m k c _ _ e h).trans (H.remove m oldest s.2 _)
  put_ok m k c s g h := by
    simp only [onto] at h ⊢
    rcases hc : s.1.cycle k with ⟨queue, _ | oldest⟩
    · simp only [hc] at h ⊢
      exact H.put_ok m k c s.2 g h
    · simp only [hc] at h ⊢
      obtain ⟨y, hkeep, hwrote⟩ := H.put_ok m k c _ _ h
      exact ⟨y, hkeep, hwrote.after (H.remove m oldest s.2 _)⟩
  get m k s g := H.get m k s.2 g
  get_some m k s g := H.get_some m k s.2 g
  get_absent m k s g := H.get_absent m k s.2 g
  resume m k gate w s g := H.resume m k gate w s.2 g
  resume_some m k gate w s g := H.resume_some m k gate w s.2 g
  remove m k s g := H.remove m k s.2 g
  remove_absent m k s g := H.remove_absent m k s.2 g
  remove_some m k s g := H.remove_some m k s.2 g
  clear m s g := H.clear m s.2 g
  size m s g := H.size m s.2 g
  release m k s g := H.release m k s.2 g

/-! ## Layers that flush -/

theorem Window.settle_within (H : d.Faithful keep read) (m : Moment) (s : Window × σ)
    (g : Ground κ α) : (settle d m s g).ground.Within d.base g := by
  unfold settle
  split
  · exact Ground.Within.of_absent (H.clear m s.2 _)
  · exact Ground.Within.refl _ g

theorem Window.faithful (H : d.Faithful keep read) : (Window.onto d).Faithful keep read where
  put_error m k c s g e h := (H.put_error m k c _ _ e h).trans (settle_within H m s g)
  put_ok m k c s g h := by
    obtain ⟨y, hkeep, hwrote⟩ := H.put_ok m k c _ _ h
    exact ⟨y, hkeep, hwrote.after (settle_within H m s g)⟩
  get m k s g := by
    simp only [onto]
    split
    · exact (H.release m k _ _).trans (settle_within H m s g)
    · exact (H.get m k _ _).trans (settle_within H m s g)
  get_some m k s g x h := by
    simp only [onto] at h
    split at h
    · simp at h
    · obtain ⟨y, hy, hread⟩ := H.get_some m k _ _ x h
      exact ⟨y, settle_within H m s g k y hy, hread⟩
  get_absent m k s g h := by
    simp only [onto]
    split
    · exact .inl rfl
    · exact H.get_absent m k _ _ ((settle_within H m s g).absent h)
  resume m k gate w s g := H.resume m k gate w s.2 g
  resume_some m k gate w s g := H.resume_some m k gate w s.2 g
  remove m k s g := (H.remove m k _ _).trans (settle_within H m s g)
  remove_absent m k s g := H.remove_absent m k _ _
  remove_some m k s g x h := by
    obtain ⟨y, hy, hread⟩ := H.remove_some m k _ _ x h
    exact ⟨y, settle_within H m s g k y hy, hread⟩
  clear m s g := H.clear m s.2 g
  size m s g := (H.size m _ _).trans (settle_within H m s g)
  release m k s g := H.release m k s.2 g

/-! ## Layers that count, exclude and latch -/

omit [DecidableEq κ] in
theorem HitCount.ground_settle (id : String) (count : HitCount)
    (r : Reply κ α σ (Lookup κ α)) (base : Nat) :
    (settle id count r).ground.store base = r.ground.store base := by
  unfold settle
  split <;> rfl

omit [DecidableEq κ] in
theorem HitCount.answer_settle (id : String) (count : HitCount) (r : Reply κ α σ (Lookup κ α)) :
    (settle id count r).answer = r.answer := by
  unfold settle
  split
  · next h => exact h.symm
  · rfl

theorem HitCount.faithful (H : d.Faithful keep read) : (HitCount.onto d).Faithful keep read where
  put_error m k c s g := H.put_error m k c s.2 g
  put_ok m k c s g := H.put_ok m k c s.2 g
  get m k s g :=
    (Ground.Within.of_eq (Ground.content_congr (ground_settle ..))).trans (H.get m k s.2 g)
  get_some m k s g x h := H.get_some m k s.2 g x ((answer_settle ..).symm.trans h)
  get_absent m k s g h := by
    have ha : ((HitCount.onto d).get m k s g).answer = (d.get m k s.2 g).answer := answer_settle ..
    rw [ha]
    exact H.get_absent m k s.2 g h
  resume m k gate w s g :=
    (Ground.Within.of_eq (Ground.content_congr (ground_settle ..))).trans
      (H.resume m k gate w s.2 g)
  resume_some m k gate w s g x h :=
    H.resume_some m k gate w s.2 g x ((answer_settle ..).symm.trans h)
  remove m k s g := H.remove m k s.2 g
  remove_absent m k s g := H.remove_absent m k s.2 g
  remove_some m k s g := H.remove_some m k s.2 g
  clear m s g := H.clear m s.2 g
  size m s g := H.size m s.2 g
  release m k s g := H.release m k s.2 g

theorem Passing.faithful (H : d.Faithful keep read) : (Passing.onto d).Faithful keep read where
  put_error m k c s g := H.put_error m k c s.2 g
  put_ok m k c s g := H.put_ok m k c s.2 g
  get m k s g := H.get m k s.2 g
  get_some m k s g := H.get_some m k s.2 g
  get_absent m k s g := H.get_absent m k s.2 g
  resume m k gate w s g := H.resume m k gate w s.2 g
  resume_some m k gate w s g := H.resume_some m k gate w s.2 g
  remove m k s g := H.remove m k s.2 g
  remove_absent m k s g := H.remove_absent m k s.2 g
  remove_some m k s g := H.remove_some m k s.2 g
  clear m s g := H.clear m s.2 g
  size m s g := H.size m s.2 g
  release m k s g := H.release m k s.2 g

/-- What a gate does with a finished lookup changes its latches alone. -/
theorem Gate.ground_settle (t : Gate κ) (k : κ) (r : Reply κ α σ (Lookup κ α)) :
    (t.settle k r).ground = r.ground := by
  unfold settle
  split <;> rfl

theorem Gate.answer_settle_done (t : Gate κ) (k : κ) (r : Reply κ α σ (Lookup κ α))
    (found : Found κ α) : (t.settle k r).answer = .done found ↔ r.answer = .done found := by
  unfold settle
  split
  · next h => simp [h]
  · next h => simp [h]
  · next h => simp [h]

/-- A lookup at a gate waits and changes nothing, or is the lookup below. -/
theorem Gate.enter_cases (d : Cache κ α σ) (m : Moment) (k : κ) (s : Gate κ × σ) (g : Ground κ α) :
    (∃ latch, enter d m k s g = ⟨s, g, .waiting 0 latch⟩) ∨
      ∃ t : Gate κ, enter d m k s g = t.settle k (d.get m k s.2 g) := by
  unfold enter
  cases s.1.latches.find? k with
  | none => exact .inr ⟨_, rfl⟩
  | some l =>
    by_cases ho : l.owner = m.thread
    · exact .inr ⟨s.1, if_pos ho⟩
    · exact .inl ⟨l.number, if_neg ho⟩

omit [DecidableEq κ] in
theorem Gate.giveUp_fails (d : Cache κ α σ) (k : κ) (s : Gate κ × σ) (g : Ground κ α) :
    (giveUp d k s g).state = s ∧
      (∀ base, (giveUp d k s g).ground.store base = g.store base) ∧
      ∃ e, (giveUp d k s g).answer = .done (.error e) := by
  unfold giveUp
  cases s.1.timeout with
  | none => exact ⟨rfl, fun _ => rfl, _, rfl⟩
  | some timeout => exact ⟨rfl, fun _ => rfl, _, rfl⟩

theorem Gate.enter_within (H : d.Faithful keep read) (m : Moment) (k : κ) (s : Gate κ × σ)
    (g : Ground κ α) : (enter d m k s g).ground.Within d.base g := by
  rcases enter_cases d m k s g with ⟨latch, h⟩ | ⟨t, h⟩
  · rw [h]
    exact Ground.Within.refl _ g
  · rw [h, ground_settle]
    exact H.get m k s.2 g

theorem Gate.enter_some (H : d.Faithful keep read) {m : Moment} {k : κ} {s : Gate κ × σ}
    {g : Ground κ α} {x : Cell α} (h : (enter d m k s g).answer = .done (.ok (some x))) :
    ∃ y, g.content d.base k = some y ∧ read y = .ok x.item.content := by
  rcases enter_cases d m k s g with ⟨latch, he⟩ | ⟨t, he⟩
  · rw [he] at h
    cases h
  · rw [he, answer_settle_done] at h
    exact H.get_some m k s.2 g x h

theorem Gate.faithful (H : d.Faithful keep read) : (Gate.onto d).Faithful keep read where
  put_error m k c s g := H.put_error m k c s.2 g
  put_ok m k c s g := H.put_ok m k c s.2 g
  get m k s g := enter_within H m k s g
  get_some m k s g x h := enter_some H h
  get_absent m k s g h := by
    rcases enter_cases d m k s g with ⟨latch, he⟩ | ⟨t, he⟩
    · exact .inr ⟨0, latch, congrArg Reply.answer he⟩
    · rcases H.get_absent m k s.2 g h with ha | ⟨gate, latch, ha⟩
      · exact .inl ((congrArg Reply.answer he).trans ((answer_settle_done ..).mpr ha))
      · refine .inr ⟨gate + 1, latch, (congrArg Reply.answer he).trans ?_⟩
        simp [settle, ha]
  resume m k gate w s g := by
    cases gate with
    | zero =>
      cases w with
      | opened => exact enter_within H m k s g
      | expired => exact Ground.Within.of_eq (Ground.content_congr ((giveUp_fails d k s g).2.1 _))
    | succ gate =>
      have hg : ((Gate.onto d).resume m k (gate + 1) w s g).ground =
          (d.resume m k gate w s.2 g).ground := ground_settle ..
      rw [hg]
      exact H.resume m k gate w s.2 g
  resume_some m k gate w s g x h := by
    cases gate with
    | zero =>
      cases w with
      | opened => exact enter_some H h
      | expired =>
        obtain ⟨e, he⟩ := (giveUp_fails d k s g).2.2
        rw [show ((Gate.onto d).resume m k 0 .expired s g).answer = _ from he] at h
        cases h
    | succ gate => exact H.resume_some m k gate w s.2 g x ((answer_settle_done ..).mp h)
  remove m k s g := H.remove m k s.2 g
  remove_absent m k s g := H.remove_absent m k s.2 g
  remove_some m k s g := H.remove_some m k s.2 g
  clear m s g := H.clear m s.2 g
  size m s g := H.size m s.2 g
  release m k s g := H.release m k s.2 g

/-! ## Layers that keep bytes -/

section Packing

variable [Codec α]

/-- What a content is turned into when it is handed out: bytes are decoded. -/
def Packing.opened : Content α → Except CodecError (Content α)
  | .plain v => .ok (.plain v)
  | .packed bytes => (Codec.decode bytes).map .plain

omit [DecidableEq κ] in
theorem Packing.unpack_spec (c : Cell α) (g : Ground κ α) :
    (∀ base, (unpack c g).1.store base = g.store base) ∧
      ∀ x, (unpack c g).2 = .ok x → opened c.item.content = .ok x.item.content := by
  rcases c with ⟨⟨serial, v | bytes⟩, lease⟩
  · refine ⟨fun _ => rfl, ?_⟩
    intro x hx
    cases hx
    rfl
  · simp only [unpack, opened]
    cases Codec.decode (α := α) bytes with
    | error e => exact ⟨fun _ => rfl, fun x hx => by cases hx⟩
    | ok v =>
      refine ⟨fun _ => rfl, ?_⟩
      intro x hx
      cases hx
      rfl

omit [DecidableEq κ] in
theorem Packing.settle_spec (r : Reply κ α σ (Lookup κ α)) :
    (∀ base, (settle r).ground.store base = r.ground.store base) ∧
      (∀ x, (settle r).answer = .done (.ok (some x)) →
        ∃ c, r.answer = .done (.ok (some c)) ∧ opened c.item.content = .ok x.item.content) ∧
      (r.answer = .done (.ok none) → (settle r).answer = .done (.ok none)) ∧
      ∀ gate latch, r.answer = .waiting gate latch → (settle r).answer = .waiting gate latch := by
  unfold settle
  split
  · next c hc =>
    have hspec := unpack_spec c r.ground
    rcases hu : unpack c r.ground with ⟨g, e | x⟩
    · rw [hu] at hspec
      exact ⟨hspec.1, by simp, by simp [hc], by simp [hc]⟩
    · rw [hu] at hspec
      refine ⟨hspec.1, fun x' hx => ⟨c, hc, hspec.2 x' ?_⟩, by simp [hc], by simp [hc]⟩
      simpa using hx
  · next a ha =>
    refine ⟨fun _ => rfl, fun x hx => absurd hx (ha x), fun h => h, fun _ _ h => h⟩

omit [DecidableEq κ] in
/-- Decoding what was removed leaves the stores as the removal has left them. -/
theorem Packing.ground_remove (d : Cache κ α σ) (m : Moment) (k : κ) (s : Unit × σ)
    (g : Ground κ α) :
    ((onto d).remove m k s g).ground.store d.base = (d.remove m k s.2 g).ground.store d.base := by
  simp only [onto]
  cases (d.remove m k s.2 g).answer with
  | none => rfl
  | some c =>
    have hstore := (unpack_spec c (d.remove m k s.2 g).ground).1 d.base
    rcases hu : unpack c (d.remove m k s.2 g).ground with ⟨g', e | x⟩
    · rw [hu] at hstore
      simpa only [hu, Ground.store_note] using hstore
    · rw [hu] at hstore
      simpa only [hu] using hstore

/-- A layer that keeps bytes: contents are packed on the way in and opened on the way out. -/
theorem Packing.faithful (H : d.Faithful keep read) :
    (Packing.onto d).Faithful (fun x => (pack x).bind fun bytes => keep (.packed bytes))
      (fun y => (read y).bind opened) where
  put_error m k c s g e h := by
    simp only [onto] at h ⊢
    cases hp : pack c.item.content with
    | error e' => exact Ground.Within.refl _ g
    | ok bytes =>
      simp only [hp] at h ⊢
      exact H.put_error m k _ s.2 g.issue e h
  put_ok m k c s g h := by
    simp only [onto] at h ⊢
    cases hp : pack c.item.content with
    | error e' => simp [hp] at h
    | ok bytes =>
      simp only [hp] at h ⊢
      exact H.put_ok m k _ s.2 g.issue h
  get m k s g :=
    (Ground.Within.of_eq (Ground.content_congr ((settle_spec _).1 _))).trans (H.get m k s.2 g)
  get_some m k s g x h := by
    obtain ⟨c, hc, hopened⟩ := (settle_spec _).2.1 x h
    obtain ⟨y, hy, hread⟩ := H.get_some m k s.2 g c hc
    exact ⟨y, hy, by rw [hread]; exact hopened⟩
  get_absent m k s g h := by
    rcases H.get_absent m k s.2 g h with ha | ⟨gate, latch, ha⟩
    · exact .inl ((settle_spec _).2.2.1 ha)
    · exact .inr ⟨gate, latch, (settle_spec _).2.2.2 gate latch ha⟩
  resume m k gate w s g :=
    (Ground.Within.of_eq (Ground.content_congr ((settle_spec _).1 _))).trans
      (H.resume m k gate w s.2 g)
  resume_some m k gate w s g x h := by
    obtain ⟨c, hc, hopened⟩ := (settle_spec _).2.1 x h
    obtain ⟨y, hy, hread⟩ := H.resume_some m k gate w s.2 g c hc
    exact ⟨y, hy, by rw [hread]; exact hopened⟩
  remove m k s g :=
    (Ground.Within.of_eq (Ground.content_congr (ground_remove d m k s g))).trans
      (H.remove m k s.2 g)
  remove_absent m k s g :=
    (Ground.content_congr (ground_remove d m k s g) k).trans (H.remove_absent m k s.2 g)
  remove_some m k s g x h := by
    simp only [onto] at h
    cases ha : (d.remove m k s.2 g).answer with
    | none => simp [ha] at h
    | some c =>
      have hspec := unpack_spec c (d.remove m k s.2 g).ground
      simp only [ha] at h
      rcases hu : unpack c (d.remove m k s.2 g).ground with ⟨g', e | x'⟩
      · simp [hu] at h
      · rw [hu] at hspec h
        obtain ⟨y, hy, hread⟩ := H.remove_some m k s.2 g c ha
        refine ⟨y, hy, ?_⟩
        rw [hread]
        exact hspec.2 x (by simpa using h)
  clear m s g := H.clear m s.2 g
  size m s g := H.size m s.2 g
  release m k s g := H.release m k s.2 g

end Packing

/-! ## Layers that let instances go -/

theorem Cache.removeAll_within (H : d.Faithful keep read) (m : Moment) (keys : List κ) (s : σ)
    (g : Ground κ α) : (d.removeAll m keys s g).2.Within d.base g := by
  induction keys generalizing s g with
  | nil => exact Ground.Within.refl _ g
  | cons k keys ih => exact (ih _ _).trans (H.remove m k s g)

namespace Leasing

theorem content_of_unpins {base : Nat} {g g' : Ground κ α} (h : Unpins base g' g) (k : κ) :
    g'.content base k = g.content base k := by
  obtain ⟨f, hf, hfind⟩ := h k
  rw [Ground.content, Ground.content, hfind, Option.map_map]
  refine congrArg (fun f => Option.map f ((g.store base).find? k)) (funext ?_)
  intro c
  rcases hf c with he | he <;> simp [he]

theorem content_attend (d : Cache κ α σ) (m : Moment) (l : Leasing κ) (g : Ground κ α) (k : κ) :
    (attend d m l g).2.content d.base k = g.content d.base k := by
  simp only [attend]
  split
  · exact content_of_unpins (unpins_unpinAll d.base _ g) k
  · rfl

theorem content_notePurged (id : String) (keys : List κ) (g : Ground κ α) (base : Nat) (k : κ) :
    (notePurged id keys g).content base k = g.content base k := by
  unfold notePurged
  split <;> rfl

theorem purge_within (H : d.Faithful keep read) (m : Moment) (s : Leasing κ × σ)
    (g : Ground κ α) : (purge d m s g).ground.Within d.base g := by
  have hattend : (attend d m s.1 g).2.Within d.base g :=
    Ground.Within.of_eq (content_attend d m s.1 g)
  have hnoted : ∀ keys (g' : Ground κ α), (notePurged d.id keys g').Within d.base g' :=
    fun keys g' => Ground.Within.of_eq (content_notePurged d.id keys g' d.base)
  exact (hnoted _ _).trans ((Cache.removeAll_within H m _ _ _).trans hattend)

/-- A lookup that is settled hands out what was found below, or nothing, and lets go at most. -/
theorem settle_spec (H : d.Faithful keep read) (m : Moment) (k : κ) (l : Leasing κ)
    (r : Reply κ α σ (Lookup κ α)) :
    (settle d m k l r).ground.Within d.base r.ground ∧
      (∀ x, (settle d m k l r).answer = .done (.ok (some x)) →
        ∃ c, r.answer = .done (.ok (some c)) ∧ x.item = c.item) ∧
      (r.answer = .done (.ok none) → (settle d m k l r).answer = .done (.ok none)) ∧
      ∀ gate latch, r.answer = .waiting gate latch →
        (settle d m k l r).answer = .waiting gate latch := by
  unfold settle
  split
  · next c hc =>
    split
    · refine ⟨Ground.Within.refl _ _, fun x hx => ⟨c, hc, ?_⟩, by simp [hc], by simp [hc]⟩
      cases hx
      rfl
    · split
      · exact ⟨H.remove m k _ _, by simp, by simp [hc], by simp [hc]⟩
      · exact ⟨Ground.Within.refl _ _, by simp, by simp [hc], by simp [hc]⟩
  · next a ha =>
    exact ⟨Ground.Within.refl _ _, fun x hx => absurd hx (ha x), fun h => h, fun _ _ h => h⟩

theorem faithful (H : d.Faithful keep read) : (Leasing.onto d).Faithful keep read where
  put_error m k c s g e h := by
    simp only [onto] at h ⊢
    have hpurge := purge_within H m s g
    generalize purge d m s g = p at h hpurge ⊢
    cases ha : (d.put m k { c with lease := some ⟨p.ground.issued, true⟩ } p.state.2
        p.ground.issue).answer with
    | error e' => simpa only [ha] using (H.put_error m k _ _ _ e' ha).trans hpurge
    | ok _ => simp [ha] at h
  put_ok m k c s g h := by
    simp only [onto] at h ⊢
    have hpurge := purge_within H m s g
    generalize purge d m s g = p at h hpurge ⊢
    cases ha : (d.put m k { c with lease := some ⟨p.ground.issued, true⟩ } p.state.2
        p.ground.issue).answer with
    | error e' => simp [ha] at h
    | ok _ =>
      obtain ⟨y, hkeep, hwrote⟩ := H.put_ok m k _ _ _ ha
      refine ⟨y, hkeep, ?_⟩
      have hunpins := unpins_track d.base (p.state.1.register k p.ground.issued) k p.ground.issued
        (d.put m k { c with lease := some ⟨p.ground.issued, true⟩ } p.state.2
          p.ground.issue).ground
      exact (hwrote.after hpurge).within (Ground.Within.of_eq (content_of_unpins hunpins))
  get m k s g := (settle_spec H ..).1.trans ((H.get m k _ _).trans (purge_within H m s g))
  get_some m k s g x h := by
    obtain ⟨c, hc, hitem⟩ := (settle_spec H ..).2.1 x h
    obtain ⟨y, hy, hread⟩ := H.get_some m k _ _ c hc
    exact ⟨y, purge_within H m s g k y hy, by rw [hread, hitem]⟩
  get_absent m k s g h := by
    rcases H.get_absent m k _ _ ((purge_within H m s g).absent h) with ha | ⟨gate, latch, ha⟩
    · exact .inl ((settle_spec H ..).2.2.1 ha)
    · exact .inr ⟨gate, latch, (settle_spec H ..).2.2.2 gate latch ha⟩
  resume m k gate w s g := (settle_spec H ..).1.trans (H.resume m k gate w s.2 g)
  resume_some m k gate w s g x h := by
    obtain ⟨c, hc, hitem⟩ := (settle_spec H ..).2.1 x h
    obtain ⟨y, hy, hread⟩ := H.resume_some m k gate w s.2 g c hc
    exact ⟨y, hy, by rw [hread, hitem]⟩
  remove m k s g := by
    have hremove := (H.remove m k (purge d m s g).state.2 _).trans (purge_within H m s g)
    simp only [onto]
    split
    · exact hremove
    · split <;> exact hremove
  remove_absent m k s g := by
    have habsent := H.remove_absent m k (purge d m s g).state.2 (purge d m s g).ground
    simp only [onto]
    split
    · exact habsent
    · split <;> exact habsent
  remove_some m k s g x h := by
    simp only [onto] at h
    cases ha : (d.remove m k (purge d m s g).state.2 (purge d m s g).ground).answer with
    | none => simp [ha] at h
    | some c =>
      obtain ⟨y, hy, hread⟩ := H.remove_some m k _ _ c ha
      refine ⟨y, purge_within H m s g k y hy, ?_⟩
      simp only [ha] at h
      split at h
      · cases h
        exact hread
      · cases h
  clear m s g := H.clear m s.2 g
  size m s g := (H.size m _ _).trans (purge_within H m s g)
  release m k s g := H.release m k s.2 g

end Leasing

end Layers

/-! ## Stacks of layers -/

section Stacks

variable [Codec α]

/-- How the contents that are written through a stack stand in the base store. -/
def Stack.keep : List Kind → Content α → Except CodecError (Content α)
  | [], x => .ok x
  | .packing :: kinds, x => (Packing.pack x).bind fun bytes => keep kinds (.packed bytes)
  | _ :: kinds, x => keep kinds x

/-- How a stack shows the contents that stand in the base store. -/
def Stack.read : List Kind → Content α → Except CodecError (Content α)
  | [], y => .ok y
  | .packing :: kinds, y => (read kinds y).bind Packing.opened
  | _ :: kinds, y => read kinds y

theorem Stack.faithful [DecidableEq κ] (id : String) (base : Nat) (kinds : List Kind) :
    (Stack.cache id base kinds : Cache κ α _).Faithful (keep kinds) (read kinds) := by
  induction kinds with
  | nil => exact Cache.faithful_bare id base
  | cons kind kinds ih =>
    cases kind
    case lru => exact Recency.faithful ih
    case fifo => exact WriteQueue.faithful ih
    case leasing => exact Leasing.faithful ih
    case window => exact Window.faithful ih
    case packing => exact Packing.faithful ih
    case counting => exact HitCount.faithful ih
    case passing => exact Passing.faithful ih
    case latching => exact Gate.faithful ih

/-- A value that its codec does not garble: the bytes it is turned into, if any, are read as this
value. -/
def RoundTrips (v : α) : Prop := ∀ bytes, Codec.encode v = .ok bytes → Codec.decode bytes = .ok v

namespace Stack

theorem keep_cons {kind : Kind} (h : kind ≠ .packing) (kinds : List Kind) (x : Content α) :
    keep (kind :: kinds) x = keep kinds x := by
  cases kind <;> first | rfl | exact absurd rfl h

theorem read_cons {kind : Kind} (h : kind ≠ .packing) (kinds : List Kind) (y : Content α) :
    read (kind :: kinds) y = read kinds y := by
  cases kind <;> first | rfl | exact absurd rfl h

/-- Bytes go through a stack as they are. -/
theorem keep_packed (kinds : List Kind) (bytes : List UInt8) :
    keep kinds (.packed bytes : Content α) = .ok (.packed bytes) := by
  induction kinds with
  | nil => rfl
  | cons kind kinds ih =>
    by_cases h : kind = .packing
    · subst h
      exact ih
    · rw [keep_cons h, ih]

/-- Bytes that a stack shows are opened to what they say, were they opened before or not. -/
theorem read_packed (kinds : List Kind) (bytes : List UInt8) :
    (read kinds (.packed bytes : Content α)).bind Packing.opened =
      (Codec.decode bytes).map .plain := by
  induction kinds with
  | nil => rfl
  | cons kind kinds ih =>
    by_cases h : kind = .packing
    · subst h
      rw [read, ih]
      cases Codec.decode (α := α) bytes <;> rfl
    · rw [read_cons h, ih]

/-- A stack shows the values that were written through it. -/
theorem read_keep (kinds : List Kind) {v : α} (hv : .packing ∈ kinds → RoundTrips v)
    {y : Content α} (h : keep kinds (.plain v) = .ok y) : read kinds y = .ok (.plain v) := by
  induction kinds with
  | nil => cases h; rfl
  | cons kind kinds ih =>
    by_cases hk : kind = .packing
    · subst hk
      cases hbytes : Codec.encode v with
      | error e =>
        rw [keep, Packing.pack, hbytes] at h
        cases h
      | ok bytes =>
        rw [keep, Packing.pack, hbytes] at h
        have hy : keep kinds (.packed bytes) = .ok y := h
        rw [keep_packed] at hy
        cases hy
        rw [read, read_packed, hv List.mem_cons_self bytes hbytes]
        rfl
    · rw [keep_cons hk] at h
      rw [read_cons hk]
      exact ih (fun hm => hv (List.mem_cons_of_mem kind hm)) h

end Stack

end Stacks

end LayeredCache
