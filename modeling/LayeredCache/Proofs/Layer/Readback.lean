import LayeredCache.Proofs.Layer.Upheld

/-!
# What was just written can be read

A write that succeeded may have evicted other keys, but never its own: a bounded layer makes room
for the key, the window does not run out while the clock stands still, and no latch is left. So the
next lookup finds the value, in every stack whose layers let no instance go. Bounded layers need a
capacity for this, which is kept by every operation.

## Main definitions

* `Cache.Recalls` — a cache finds what was just written to it.
* `Stack.Ready` — what a write leaves: neither a latch nor a window that has run out.
-/

namespace LayeredCache

variable {κ α σ : Type}

/-- `d` finds what was just written to it. States are those with the property `I`; `Q time k s` says
that in the state `s` a lookup of `k` neither waits nor flushes while the clocks show `time`. -/
structure Cache.Recalls [DecidableEq κ] (d : Cache κ α σ)
    (keep read : Content α → Except CodecError (Content α)) (I : σ → Prop)
    (Q : (Clock → Span) → κ → σ → Prop) : Prop where
  put : ∀ m k c s g, I s → (d.put m k c s g).answer = .ok () →
    Q m.time k (d.put m k c s g).state ∧
      ∃ y, keep c.item.content = .ok y ∧ (d.put m k c s g).ground.content d.base k = some y
  remove : ∀ m k k' s g, k ≠ k' → Q m.time k s → Q m.time k (d.remove m k' s g).state ∧
    (d.remove m k' s g).ground.content d.base k = g.content d.base k
  get : ∀ m k s g y x, Q m.time k s → g.content d.base k = some y → read y = .ok x →
    ∃ c, (d.get m k s g).answer = .done (.ok (some c)) ∧ c.item.content = x

theorem Cache.Recalls.congr [DecidableEq κ] {d : Cache κ α σ}
    {keep read : Content α → Except CodecError (Content α)} {I I' : σ → Prop}
    {Q Q' : (Clock → Span) → κ → σ → Prop} (H : d.Recalls keep read I Q) (hI : ∀ s, I' s ↔ I s)
    (hQ : ∀ time k s, Q' time k s ↔ Q time k s) : d.Recalls keep read I' Q' := by
  obtain rfl : I' = I := funext fun s => propext (hI s)
  obtain rfl : Q' = Q := funext fun time => funext fun k => funext fun s => propext (hQ time k s)
  exact H

section Layers

variable [DecidableEq κ] {d : Cache κ α σ} {keep read : Content α → Except CodecError (Content α)}
  {I : σ → Prop} {Q : (Clock → Span) → κ → σ → Prop}

/-! ## The base store -/

theorem Cache.recalls_bare (id : String) (base : Nat) :
    (Cache.bare id base : Cache κ α Unit).Recalls .ok .ok (fun _ => True)
      (fun _ _ _ => True) where
  put m k c s g _ _ := by
    refine ⟨trivial, c.item.content, rfl, ?_⟩
    simp [bare, Ground.content, Table.find?_insert]
  remove m k k' s g h _ := by
    refine ⟨trivial, ?_⟩
    simp only [bare]
    cases hf : (g.store base).find? k' with
    | none => rfl
    | some c => simp [Ground.content, Table.find?_erase, h]
  get m k s g y x _ hy hx := by
    obtain ⟨c, hc, rfl⟩ := Option.map_eq_some_iff.mp hy
    cases hx
    exact ⟨c, by simpa [bare] using hc, rfl⟩

/-! ## Layers with a bound -/

/-- The key that was touched last is not the one that is given up. -/
theorem Recency.HasRoom.ne_eldest {r : Recency κ} (H : r.HasRoom) {k eldest : κ}
    (h : (r.touch k).evictEldest.2 = some eldest) : k ≠ eldest := by
  obtain ⟨hvalid, horder, -⟩ := H.1.touch k
  have hcapacity := (H.touch k).2
  have hnodup := hvalid.nodup_order
  rw [hvalid.evictEldest.2.2.1] at h
  by_cases hle : (r.touch k).order.length ≤ (r.touch k).capacity
  · rw [if_pos hle] at h
    cases h
  · rw [if_neg hle] at h
    rw [horder, List.length_cons] at hle
    rw [horder] at h hnodup
    have hmem : eldest ∈ r.order.erase k := by
      have hne : r.order.erase k ≠ [] := by
        intro hnil
        rw [hnil, List.length_nil] at hle
        omega
      rw [List.getLast?_cons, List.getLast?_eq_some_getLast hne, Option.getD_some] at h
      cases h
      exact List.getLast_mem hne
    intro he
    exact (List.nodup_cons.mp hnodup).1 (he ▸ hmem)

/-- Evicting by recency makes room for the key that was written. -/
theorem Recency.recalls (H : d.Recalls keep read I Q) :
    (Recency.onto d).Recalls keep read (fun s => s.1.HasRoom ∧ I s.2)
      (fun time k s => Q time k s.2) where
  put m k c s g h hok := by
    simp only [onto] at hok ⊢
    cases ha : (d.put m k c s.2 g).answer with
    | error e => simp [ha] at hok
    | ok _ =>
      obtain ⟨hQ, y, hkeep, hy⟩ := H.put m k c s.2 g h.2 ha
      rcases he : (s.1.touch k).evictEldest with ⟨index, _ | eldest⟩
      · exact ⟨hQ, y, hkeep, hy⟩
      · have hne : k ≠ eldest := h.1.ne_eldest (congrArg Prod.snd he)
        obtain ⟨hQ', hcontent⟩ := H.remove m k eldest (d.put m k c s.2 g).state
          ((d.put m k c s.2 g).ground.note (.evicting .lru d.id eldest)) hne hQ
        exact ⟨hQ', y, hkeep, hcontent.trans hy⟩
  remove m k k' s g hne hQ := H.remove m k k' s.2 g hne hQ
  get m k s g y x hQ hy hx := H.get m k s.2 g y x hQ hy hx

/-- Evicting in the order of writes comes before the write, even where it meets the same key. -/
theorem WriteQueue.recalls (hI : d.Upholds fun s _ => I s) (H : d.Recalls keep read I Q) :
    (WriteQueue.onto d).Recalls keep read (fun s => I s.2) (fun time k s => Q time k s.2) where
  put m k c s g h hok := by
    simp only [onto] at hok ⊢
    rcases hc : s.1.cycle k with ⟨queue, _ | oldest⟩
    · simp only [hc] at hok ⊢
      exact H.put m k c s.2 g h hok
    · simp only [hc] at hok ⊢
      exact H.put m k c _ _ (hI.remove m oldest s.2 _ h) hok
  remove m k k' s g hne hQ := H.remove m k k' s.2 g hne hQ
  get m k s g y x hQ hy hx := H.get m k s.2 g y x hQ hy hx

/-! ## Layers that flush -/

omit [DecidableEq κ] in
/-- A window that was looked at is not stale while the clock stands still. -/
theorem Window.stale_settle (d : Cache κ α σ) (m : Moment) (s : Window × σ) (g : Ground κ α) :
    (settle d m s g).state.1.stale (m.time (settle d m s g).state.1.clock) = false := by
  unfold settle
  split
  · exact stale_renew s.1 _
  · next h => simpa using h

theorem Window.recalls (hI : d.Upholds fun s _ => I s) (H : d.Recalls keep read I Q) :
    (Window.onto d).Recalls keep read (fun s => I s.2)
      (fun time k s => s.1.stale (time s.1.clock) = false ∧ Q time k s.2) where
  put m k c s g h hok := by
    obtain ⟨hQ, hy⟩ := H.put m k c _ _ (hI.leads (settle_leads d m s g) h) hok
    exact ⟨⟨stale_settle d m s g, hQ⟩, hy⟩
  remove m k k' s g hne hQ := by
    have hsettle : settle d m s g = ⟨s, g, false⟩ := if_neg (by simp [hQ.1])
    simp only [onto, hsettle]
    obtain ⟨hQ', hcontent⟩ := H.remove m k k' s.2 g hne hQ.2
    exact ⟨⟨hQ.1, hQ'⟩, hcontent⟩
  get m k s g y x hQ hy hx := by
    have hsettle : settle d m s g = ⟨s, g, false⟩ := if_neg (by simp [hQ.1])
    simp only [onto, hsettle]
    exact H.get m k s.2 g y x hQ.2 hy hx

/-! ## Layers that count, exclude and latch -/

theorem HitCount.recalls (H : d.Recalls keep read I Q) :
    (HitCount.onto d).Recalls keep read (fun s => I s.2) (fun time k s => Q time k s.2) where
  put m k c s g h hok := H.put m k c s.2 g h hok
  remove m k k' s g hne hQ := H.remove m k k' s.2 g hne hQ
  get m k s g y x hQ hy hx := by
    have ha : ((HitCount.onto d).get m k s g).answer = (d.get m k s.2 g).answer := answer_settle ..
    rw [ha]
    exact H.get m k s.2 g y x hQ hy hx

theorem Passing.recalls (H : d.Recalls keep read I Q) :
    (Passing.onto d).Recalls keep read (fun s => I s.2) (fun time k s => Q time k s.2) where
  put m k c s g h hok := H.put m k c s.2 g h hok
  remove m k k' s g hne hQ := H.remove m k k' s.2 g hne hQ
  get m k s g y x hQ hy hx := H.get m k s.2 g y x hQ hy hx

/-- A write opens the latch of its key, so the lookup after it does not wait. -/
theorem Gate.recalls (H : d.Recalls keep read I Q) :
    (Gate.onto d).Recalls keep read (fun s => I s.2)
      (fun time k s => s.1.latches.find? k = none ∧ Q time k s.2) where
  put m k c s g h hok := by
    obtain ⟨hQ, hy⟩ := H.put m k c s.2 g h hok
    exact ⟨⟨by simp [onto], hQ⟩, hy⟩
  remove m k k' s g hne hQ := by
    obtain ⟨hQ', hcontent⟩ := H.remove m k k' s.2 g hne hQ.2
    exact ⟨⟨by simp [onto, hne, hQ.1], hQ'⟩, hcontent⟩
  get m k s g y x hQ hy hx := by
    obtain ⟨c, hc, hcontent⟩ := H.get m k s.2 g y x hQ.2 hy hx
    refine ⟨c, ?_, hcontent⟩
    simp only [onto, enter, hQ.1]
    exact (answer_settle_done ..).mpr hc

/-! ## Layers that keep bytes -/

section Packing

variable [Codec α]

omit [DecidableEq κ] in
theorem Packing.settle_found {r : Reply κ α σ (Lookup κ α)} {c : Cell α} {x : Content α}
    (hc : r.answer = .done (.ok (some c))) (hx : opened c.item.content = .ok x) :
    ∃ c', (settle r).answer = .done (.ok (some c')) ∧ c'.item.content = x := by
  rcases c with ⟨⟨serial, v | bytes⟩, lease⟩
  · cases hx
    exact ⟨⟨⟨serial, .plain v⟩, lease⟩, by simp [settle, hc, unpack], rfl⟩
  · simp only [opened] at hx
    cases hv : Codec.decode (α := α) bytes with
    | error e =>
      rw [hv] at hx
      cases hx
    | ok v =>
      rw [hv] at hx
      cases hx
      exact ⟨⟨⟨r.ground.issued, .plain v⟩, none⟩, by simp [settle, hc, unpack, hv], rfl⟩

theorem Packing.recalls (H : d.Recalls keep read I Q) :
    (Packing.onto d).Recalls (fun x => (pack x).bind fun bytes => keep (.packed bytes))
      (fun y => (read y).bind opened) (fun s => I s.2) (fun time k s => Q time k s.2) where
  put m k c s g h hok := by
    simp only [onto] at hok ⊢
    cases hp : pack c.item.content with
    | error e => simp [hp] at hok
    | ok bytes =>
      simp only [hp] at hok ⊢
      exact H.put m k _ s.2 g.issue h hok
  remove m k k' s g hne hQ := by
    obtain ⟨hQ', hcontent⟩ := H.remove m k k' s.2 g hne hQ
    exact ⟨(state_remove d m k' s g) ▸ hQ',
      (Ground.content_congr (ground_remove d m k' s g) k).trans hcontent⟩
  get m k s g y x hQ hy hx := by
    cases hz : read y with
    | error e =>
      rw [hz] at hx
      cases hx
    | ok z =>
      rw [hz] at hx
      obtain ⟨c, hc, rfl⟩ := H.get m k s.2 g y z hQ hy hz
      exact settle_found hc hx

end Packing

end Layers

/-! ## Stacks of layers -/

section Stacks

variable [DecidableEq κ]

/-- Whether a layer lets a lookup of `k` pass, neither flushing nor keeping it waiting. -/
def Kind.Ready (time : Clock → Span) (k : κ) : (kind : Kind) → kind.State κ → Prop
  | .window, w => Window.stale w (time (Window.clock w)) = false
  | .latching, t => (Gate.latches t).find? k = none
  | _, _ => True

/-- Whether a stack lets a lookup of `k` pass. -/
def Stack.Ready (time : Clock → Span) (k : κ) : (kinds : List Kind) → Stack κ kinds → Prop :=
  Stack.All (Kind.Ready time k)

variable [Codec α]

theorem Stack.recalls (id : String) (base : Nat) (kinds : List Kind) (h : .leasing ∉ kinds) :
    (Stack.cache id base kinds : Cache κ α _).Recalls (keep kinds) (read kinds) (Sound kinds)
      (fun time k => Ready time k kinds) := by
  have htrue : ∀ {p : Prop}, True ∧ p ↔ p := and_iff_right trivial
  induction kinds with
  | nil => exact Cache.recalls_bare id base
  | cons kind kinds ih =>
    have hI := Stack.upholds_sound (κ := κ) (α := α) id base kinds
    have H := ih fun hm => h (List.mem_cons_of_mem kind hm)
    cases kind
    case lru =>
      exact (Recency.recalls H).congr (fun _ => Iff.rfl) fun _ _ _ => htrue
    case fifo =>
      exact (WriteQueue.recalls hI H).congr (fun _ => htrue) fun _ _ _ => htrue
    case leasing => exact absurd List.mem_cons_self h
    case window =>
      exact (Window.recalls hI H).congr (fun _ => htrue) fun _ _ _ => Iff.rfl
    case packing =>
      exact (Packing.recalls H).congr (fun _ => htrue) fun _ _ _ => htrue
    case counting =>
      exact (HitCount.recalls H).congr (fun _ => htrue) fun _ _ _ => htrue
    case passing =>
      exact (Passing.recalls H).congr (fun _ => htrue) fun _ _ _ => htrue
    case latching =>
      exact (Gate.recalls H).congr (fun _ => htrue) fun _ _ _ => Iff.rfl

end Stacks

end LayeredCache
