import LayeredCache.Proofs.Layer.Upheld

/-!
# When windows clear

The windows of a stack are those of its layers, the outermost one first. A clear renews them all. A
lookup, a write, a removal or a count renews none of them, or it comes to one that has run out: then
this one clears what lies below it, so the windows below are renewed with it, and the base store is
left empty but for a key that the call writes. When such a call has come through to the base store,
no window has run out.

A lookup may wait at a gate. It has come past the windows above the gate then, and does not come to
them again when it goes on.

## Main definitions

* `Stack.windows` — the windows of a stack.
* `Turn` — what a call that is no clear does to windows.
* `Lookup.behind` — the windows that a lookup has come past.
* `Cache.Paced` — the law above, for a cache with the windows `ws`.

## Main statements

* `Stack.paced` — the law for stacks.
-/

namespace LayeredCache

variable {κ α σ : Type}

/-! ## Windows and moments -/

/-- Whether a window has run out at a moment. -/
def Window.due (m : Moment) (w : Window) : Bool := w.stale (m.time w.clock)

/-- A window that was cleared at a moment. -/
def Window.reset (m : Moment) (w : Window) : Window := w.renew (m.time w.clock)

/-- The windows of a layer. -/
def Kind.windows : (kind : Kind) → kind.State κ → List Window
  | .window, w => [w]
  | _, _ => []

/-- The windows of a stack, the outermost one first. -/
def Stack.windows : (kinds : List Kind) → Stack κ kinds → List Window
  | [], _ => []
  | kind :: kinds, s => kind.windows s.1 ++ windows kinds s.2

/-- No window has run out. -/
def Settled (m : Moment) (ws : List Window) : Prop := ∀ w ∈ ws, w.due m = false

/-- What a call that is no clear does to windows: it renews none, or it renews one that has run out
and those below. -/
inductive Turn (m : Moment) (ws ws' : List Window) (emptied : Prop) : Prop where
  | kept (same : ws' = ws)
  | flushed (outer : List Window) (w : Window) (inner : List Window)
    (before : ws = outer ++ w :: inner) (due : w.due m = true)
    (after : ws' = outer ++ (w :: inner).map (·.reset m)) (empty : emptied)

@[simp] theorem Window.due_reset (m : Moment) (w : Window) : (w.reset m).due m = false :=
  Window.stale_renew w _

theorem Settled.reset (m : Moment) (ws : List Window) : Settled m (ws.map (·.reset m)) := by
  intro w hw
  obtain ⟨w, -, rfl⟩ := List.mem_map.mp hw
  exact w.due_reset m

theorem settled_nil (m : Moment) : Settled m [] := fun _ hw => absurd hw List.not_mem_nil

theorem Settled.drop {m : Moment} {ws : List Window} (h : Settled m ws) (n : Nat) :
    Settled m (ws.drop n) := fun w hw => h w (List.mem_of_mem_drop hw)

theorem settled_cons {m : Moment} {w : Window} {ws : List Window} :
    Settled m (w :: ws) ↔ w.due m = false ∧ Settled m ws := List.forall_mem_cons

namespace Turn

variable {m : Moment} {ws ws' ws'' : List Window} {p q r : Prop}

theorem imp (h : Turn m ws ws' p) (hpq : p → q) : Turn m ws ws' q := by
  cases h with
  | kept same => exact .kept same
  | flushed outer w inner before due after empty =>
    exact .flushed outer w inner before due after (hpq empty)

/-- Where no window has run out none is renewed. -/
theorem eq_of_settled (h : Turn m ws ws' p) (hws : Settled m ws) : ws' = ws := by
  cases h with
  | kept same => exact same
  | flushed outer w inner before due after empty =>
    have hw := hws w (by simp [before])
    rw [due] at hw
    cases hw

/-- A second call right after a first one. -/
theorem then_settled (h : Turn m ws ws' p) (hws : Settled m ws') (h' : Turn m ws' ws'' r)
    (hpq : p → q) : Turn m ws ws'' q := by
  rw [h'.eq_of_settled hws]
  exact h.imp hpq

theorem cons (w : Window) (h : Turn m ws ws' p) : Turn m (w :: ws) (w :: ws') p := by
  cases h with
  | kept same => exact .kept (congrArg _ same)
  | flushed outer w' inner before due after empty =>
    exact .flushed (w :: outer) w' inner (by simp [before]) due (by simp [after]) empty

end Turn

/-! ## Lookups that wait -/

/-- How many windows lie above a gate, gates counted from outside, if a layer of a kind lies on
others. -/
def Kind.above : Kind → (Nat → Nat) → Nat → Nat
  | .window, above, gate => above gate + 1
  | .latching, _, 0 => 0
  | .latching, above, gate + 1 => above gate
  | _, above, gate => above gate

/-- How many windows of a stack lie above a gate. -/
def Stack.above : List Kind → Nat → Nat
  | [] => fun _ => 0
  | kind :: kinds => kind.above (above kinds)

/-- The windows that a lookup has come past: all if it has found a cell, those above the gate if it
waits. -/
def Lookup.behind (above : Nat → Nat) (ws : List Window) : Lookup κ α → List Window
  | .done (.ok (some _)) => ws
  | .waiting gate _ => ws.take (above gate)
  | _ => []

section Behind

variable {m : Moment} {above : Nat → Nat} {ws : List Window}

theorem Settled.behind (h : Settled m ws) (answer : Lookup κ α) :
    Settled m (answer.behind above ws) := by
  unfold Lookup.behind
  split
  · exact h
  · exact fun w hw => h w (List.mem_of_mem_take hw)
  · exact settled_nil m

/-- The answer passes a window that has not run out. -/
theorem Settled.behind_cons {w : Window} (hdue : w.due m = false) {answer : Lookup κ α}
    (h : Settled m (answer.behind above ws)) :
    Settled m (answer.behind (Kind.window.above above) (w :: ws)) := by
  unfold Lookup.behind at h ⊢
  split
  · exact settled_cons.mpr ⟨hdue, h⟩
  · exact settled_cons.mpr ⟨hdue, h⟩
  · exact settled_nil m

/-- A lookup that goes on below a window does not come to it. -/
theorem Lookup.drop_behind_cons (w : Window) (gate : Nat) (answer : Lookup κ α) :
    (answer.behind (Kind.window.above above) (w :: ws)).drop (Kind.window.above above gate) =
      (answer.behind above ws).drop (above gate) := by
  unfold behind
  split
  · rfl
  · rfl
  · rw [List.drop_nil, List.drop_nil]

/-- What a gate does with a lookup below does not change what the lookup has come past. -/
theorem Gate.behind_settle [DecidableEq κ] (t : Gate κ) (k : κ) (r : Reply κ α σ (Lookup κ α)) :
    (t.settle k r).answer.behind (Kind.latching.above above) ws = r.answer.behind above ws := by
  rcases hr : r.answer with (_ | _ | _) | _ <;> simp [settle, hr, Lookup.behind, Kind.above]

theorem Packing.behind_settle [Codec α] {r : Reply κ α σ (Lookup κ α)} {n : Nat}
    (h : Settled m ((r.answer.behind above ws).drop n)) :
    Settled m (((settle r).answer.behind above ws).drop n) := by
  unfold settle
  split
  · next hr =>
    rw [hr] at h
    split
    · exact h
    · simp [Lookup.behind, Settled]
  · exact h

end Behind

/-! ## Caches with windows -/

variable [DecidableEq κ]

/-- What a base store holds, it holds under keys with a property. -/
def Ground.Only (base : Nat) (p : κ → Prop) (g : Ground κ α) : Prop :=
  ∀ k y, g.content base k = some y → p k

theorem Ground.Only.within {base : Nat} {p : κ → Prop} {g g' : Ground κ α} (h : g.Only base p)
    (hg : g'.Within base g) : g'.Only base p :=
  fun k y hy => h k y (hg k y hy)

theorem Ground.Only.wrote {base : Nat} {g g' : Ground κ α} (h : g.Only base fun _ => False)
    {k : κ} {y : Content α} (hg : g'.Wrote base k y g) : g'.Only base (· = k) := by
  intro k' y' hy'
  have hw := hg k' y' hy'
  by_contra hne
  rw [if_neg hne] at hw
  exact h k' y' hw

/-- The operations of `d` keep and renew its windows `ws` as the law of windows says; `above` counts
those above a gate. -/
structure Cache.Paced (d : Cache κ α σ) (ws : σ → List Window) (above : Nat → Nat) : Prop where
  put : ∀ m k c s g, let r := d.put m k c s g
    Turn m (ws s) (ws r.state) (r.ground.Only d.base fun k' => k' = k ∧ r.answer = .ok ()) ∧
      (r.answer = .ok () → Settled m (ws r.state))
  get : ∀ m k s g, let r := d.get m k s g
    Turn m (ws s) (ws r.state) (r.ground.Only d.base fun _ => False) ∧
      Settled m (r.answer.behind above (ws s))
  resume : ∀ m k gate w s g, let r := d.resume m k gate w s g
    Turn m (ws s) (ws r.state) (r.ground.Only d.base fun _ => False) ∧
      Settled m ((r.answer.behind above (ws s)).drop (above gate))
  remove : ∀ m k s g, let r := d.remove m k s g
    Turn m (ws s) (ws r.state) (r.ground.Only d.base fun _ => False) ∧ Settled m (ws r.state) ∧
      ∀ x, r.answer = some x → Settled m (ws s)
  size : ∀ m s g, let r := d.size m s g
    Turn m (ws s) (ws r.state) (r.ground.Only d.base fun _ => False) ∧ Settled m (ws r.state)
  clear : ∀ m s g, ws (d.clear m s g).state = (ws s).map (·.reset m)
  release : ∀ m k s g, ws (d.release m k s g).state = ws s

/-- A cache that knows of no windows. -/
theorem Cache.paced_none (d : Cache κ α σ) (above : Nat → Nat) : d.Paced (fun _ => []) above where
  put _ _ _ _ _ := ⟨.kept rfl, fun _ => settled_nil _⟩
  get _ _ _ _ := ⟨.kept rfl, (settled_nil _).behind _⟩
  resume _ _ _ _ _ _ := ⟨.kept rfl, ((settled_nil _).behind _).drop _⟩
  remove _ _ _ _ := ⟨.kept rfl, settled_nil _, fun _ _ => settled_nil _⟩
  size _ _ _ := ⟨.kept rfl, settled_nil _⟩
  clear _ _ _ := rfl
  release _ _ _ _ := rfl

section Layers

variable {d : Cache κ α σ} {ws : σ → List Window} {above : Nat → Nat}
  {keep read : Content α → Except CodecError (Content α)}

/-- The eviction comes when no window has run out any more. -/
theorem Recency.paced (h : d.Paced ws above) (H : d.Faithful keep read) :
    (Recency.onto d).Paced (fun s => ws s.2) above where
  put m k c s g := by
    obtain ⟨hput, hsettled⟩ := h.put m k c s.2 g
    simp only [onto]
    cases ha : (d.put m k c s.2 g).answer with
    | error e =>
      simp only [ha] at hput ⊢
      exact ⟨hput, fun hok => by cases hok⟩
    | ok _ =>
      have hsettled := hsettled ha
      rw [ha] at hput
      rcases (s.1.touch k).evictEldest with ⟨index, _ | eldest⟩
      · exact ⟨hput, fun _ => hsettled⟩
      · have hremove := h.remove m eldest (d.put m k c s.2 g).state
          ((d.put m k c s.2 g).ground.note (.evicting .lru d.id eldest))
        refine ⟨hput.then_settled hsettled hremove.1 ?_, fun _ => hremove.2.1⟩
        exact fun honly => honly.within (H.remove m eldest _ _)
  get m k s g := h.get m k s.2 g
  resume m k gate w s g := h.resume m k gate w s.2 g
  remove m k s g := h.remove m k s.2 g
  size m s g := h.size m s.2 g
  clear m s g := h.clear m s.2 g
  release m k s g := h.release m k s.2 g

/-- A write leaves no other key in a base store that was empty. -/
theorem Cache.Faithful.put_only (H : d.Faithful keep read) (m : Moment) (k : κ) (c : Cell α) (s : σ)
    {g : Ground κ α} (hg : g.Only d.base fun _ => False) :
    (d.put m k c s g).ground.Only d.base fun k' => k' = k ∧ (d.put m k c s g).answer = .ok () := by
  intro k' y hy
  cases ha : (d.put m k c s g).answer with
  | error e => exact (hg k' y (H.put_error m k c s g e ha k' y hy)).elim
  | ok _ =>
    obtain ⟨y, -, hwrote⟩ := H.put_ok m k c s g ha
    exact ⟨hg.wrote hwrote k' _ hy, rfl⟩

/-- When the eviction has come through, the write finds no window that has run out. -/
theorem WriteQueue.paced (h : d.Paced ws above) (H : d.Faithful keep read) :
    (WriteQueue.onto d).Paced (fun s => ws s.2) above where
  put m k c s g := by
    simp only [onto]
    rcases s.1.cycle k with ⟨queue, _ | oldest⟩
    · exact h.put m k c s.2 g
    · obtain ⟨hremove, hsettled, -⟩ := h.remove m oldest s.2 (g.note (.evicting .fifo d.id oldest))
      have hput := h.put m k c (d.remove m oldest s.2 (g.note (.evicting .fifo d.id oldest))).state
        (d.remove m oldest s.2 (g.note (.evicting .fifo d.id oldest))).ground
      exact ⟨hremove.then_settled hsettled hput.1 fun honly => H.put_only m k c _ honly, hput.2⟩
  get m k s g := h.get m k s.2 g
  resume m k gate w s g := h.resume m k gate w s.2 g
  remove m k s g := h.remove m k s.2 g
  size m s g := h.size m s.2 g
  clear m s g := h.clear m s.2 g
  release m k s g := h.release m k s.2 g

omit [DecidableEq κ] in
/-- A window that has run out clears what lies below it. -/
theorem Window.settle_cases (d : Cache κ α σ) (m : Moment) (s : Window × σ) (g : Ground κ α) :
    (s.1.due m = false ∧ settle d m s g = ⟨s, g, false⟩) ∨
      (s.1.due m = true ∧ settle d m s g =
        let r := d.clear m s.2 (g.note (.flushing d.id))
        ⟨(s.1.reset m, r.state), r.ground, true⟩) := by
  unfold settle
  cases hdue : s.1.stale (m.time s.1.clock) with
  | false => exact .inl ⟨hdue, rfl⟩
  | true => exact .inr ⟨hdue, rfl⟩

omit [DecidableEq κ] in
theorem Window.settle_of_not_due (d : Cache κ α σ) {m : Moment} {s : Window × σ} {g : Ground κ α}
    (h : s.1.due m = false) : settle d m s g = ⟨s, g, false⟩ := by
  rcases settle_cases d m s g with ⟨-, heq⟩ | ⟨hdue, -⟩
  · exact heq
  · rw [h] at hdue
    cases hdue

omit [DecidableEq κ] in
theorem Window.due_settle (d : Cache κ α σ) (m : Moment) (s : Window × σ) (g : Ground κ α) :
    (settle d m s g).state.1.due m = false := by
  rcases settle_cases d m s g with ⟨hdue, heq⟩ | ⟨-, heq⟩
  · rw [heq]
    exact hdue
  · rw [heq]
    exact s.1.due_reset m

/-- What the clearing of a window does to it and those below. -/
theorem Window.cleared (h : d.Paced ws above) (H : d.Faithful keep read) {m : Moment} {w : Window}
    (hdue : w.due m = true) (s : σ) (g : Ground κ α) :
    let r := d.clear m s g
    Turn m (w :: ws s) (w.reset m :: ws r.state) (r.ground.Only d.base fun _ => False) ∧
      Settled m (w.reset m :: ws r.state) := by
  have hall : w.reset m :: ws (d.clear m s g).state = (w :: ws s).map (·.reset m) := by
    rw [h.clear, List.map_cons]
  have hempty : (d.clear m s g).ground.Only d.base fun _ => False := by
    intro k y hy
    rw [H.clear m s g k] at hy
    cases hy
  exact ⟨.flushed [] w (ws s) rfl hdue hall hempty, hall ▸ Settled.reset m _⟩

/-- A call on the cache below, made after the window was looked at. -/
theorem Window.turn_below (h : d.Paced ws above) (H : d.Faithful keep read) {m : Moment}
    {s : Window × σ} {g : Ground κ α} {s' : σ} {p q : Prop}
    (hturn : Turn m (ws (settle d m s g).state.2) (ws s') p) (hpq : p → q)
    (hempty : (settle d m s g).ground.Only d.base (fun _ => False) → q) :
    Turn m (s.1 :: ws s.2) ((settle d m s g).state.1 :: ws s') q := by
  rcases settle_cases d m s g with ⟨-, heq⟩ | ⟨hdue, heq⟩
  · rw [heq] at hturn ⊢
    exact (hturn.cons s.1).imp hpq
  · rw [heq] at hturn hempty ⊢
    obtain ⟨hclear, hsettled⟩ := cleared h H hdue s.2 (g.note (.flushing d.id))
    exact hclear.then_settled hsettled (hturn.cons _) hempty

theorem Window.paced (h : d.Paced ws above) (H : d.Faithful keep read) :
    (Window.onto d).Paced (fun s => s.1 :: ws s.2) (Kind.window.above above) where
  put m k c s g := by
    obtain ⟨hput, hsettled⟩ := h.put m k c (settle d m s g).state.2 (settle d m s g).ground
    refine ⟨turn_below h H hput id fun honly => H.put_only m k c _ honly, fun hok => ?_⟩
    exact settled_cons.mpr ⟨due_settle d m s g, hsettled hok⟩
  get m k s g := by
    rcases settle_cases d m s g with ⟨hdue, heq⟩ | ⟨hdue, heq⟩
    · obtain ⟨hget, hbehind⟩ := h.get m k s.2 g
      simp only [onto, heq]
      exact ⟨hget.cons s.1, hbehind.behind_cons hdue⟩
    · obtain ⟨hclear, -⟩ := cleared h H hdue s.2 (g.note (.flushing d.id))
      simp only [onto, heq, if_true, h.release]
      exact ⟨hclear.imp fun honly => honly.within (H.release m k _ _), settled_nil m⟩
  resume m k gate w s g := by
    obtain ⟨hresume, hbehind⟩ := h.resume m k gate w s.2 g
    refine ⟨hresume.cons s.1, ?_⟩
    rw [Lookup.drop_behind_cons]
    exact hbehind
  remove m k s g := by
    obtain ⟨hremove, hsettled, -⟩ := h.remove m k (settle d m s g).state.2 (settle d m s g).ground
    refine ⟨turn_below h H hremove id fun honly => honly.within (H.remove m k _ _),
      settled_cons.mpr ⟨due_settle d m s g, hsettled⟩, fun x hx => ?_⟩
    rcases settle_cases d m s g with ⟨hdue, heq⟩ | ⟨hdue, heq⟩
    · simp only [onto, heq] at hx
      exact settled_cons.mpr ⟨hdue, (h.remove m k s.2 g).2.2 x hx⟩
    · simp only [onto, heq] at hx
      obtain ⟨y, hy, -⟩ := H.remove_some m k _ _ x hx
      rw [H.clear] at hy
      cases hy
  size m s g := by
    obtain ⟨hsize, hsettled⟩ := h.size m (settle d m s g).state.2 (settle d m s g).ground
    exact ⟨turn_below h H hsize id fun honly => honly.within (H.size m _ _),
      settled_cons.mpr ⟨due_settle d m s g, hsettled⟩⟩
  clear m s g := by
    simp only [onto, List.map_cons, h.clear]
    rfl
  release m k s g := congrArg _ (h.release m k s.2 g)

/-! ### Layers that pass every call on -/

/-- A change of the ground that leaves a base store as it is. -/
theorem Ground.Only.congr {base : Nat} {p : κ → Prop} {g g' : Ground κ α} (h : g.Only base p)
    (hg : g'.store base = g.store base) : g'.Only base p :=
  fun k y hy => h k y ((Ground.content_congr hg k) ▸ hy)

theorem HitCount.paced (h : d.Paced ws above) :
    (HitCount.onto d).Paced (fun s => ws s.2) above where
  put m k c s g := h.put m k c s.2 g
  get m k s g := by
    obtain ⟨hget, hbehind⟩ := h.get m k s.2 g
    simp only [onto, state_settle, answer_settle]
    exact ⟨hget.imp fun honly => honly.congr (ground_settle ..), hbehind⟩
  resume m k gate w s g := by
    obtain ⟨hresume, hbehind⟩ := h.resume m k gate w s.2 g
    simp only [onto, state_settle, answer_settle]
    exact ⟨hresume.imp fun honly => honly.congr (ground_settle ..), hbehind⟩
  remove m k s g := h.remove m k s.2 g
  size m s g := h.size m s.2 g
  clear m s g := h.clear m s.2 g
  release m k s g := h.release m k s.2 g

theorem Passing.paced (h : d.Paced ws above) : (Passing.onto d).Paced (fun s => ws s.2) above where
  put m k c s g := h.put m k c s.2 g
  get m k s g := h.get m k s.2 g
  resume m k gate w s g := h.resume m k gate w s.2 g
  remove m k s g := h.remove m k s.2 g
  size m s g := h.size m s.2 g
  clear m s g := h.clear m s.2 g
  release m k s g := h.release m k s.2 g

/-- A lookup that waits has not come to the windows below. -/
theorem Gate.enter_paced (h : d.Paced ws above) (m : Moment) (k : κ) (s : Gate κ × σ)
    (g : Ground κ α) :
    let r := enter d m k s g
    Turn m (ws s.2) (ws r.state.2) (r.ground.Only d.base fun _ => False) ∧
      Settled m (r.answer.behind (Kind.latching.above above) (ws s.2)) := by
  rcases enter_cases d m k s g with ⟨latch, he⟩ | ⟨t, he⟩
  · rw [he]
    exact ⟨.kept rfl, by simp [Lookup.behind, Kind.above, Settled]⟩
  · simp only [he, state_settle, ground_settle, behind_settle]
    exact h.get m k s.2 g

theorem Gate.paced (h : d.Paced ws above) :
    (Gate.onto d).Paced (fun s => ws s.2) (Kind.latching.above above) where
  put m k c s g := h.put m k c s.2 g
  get m k s g := enter_paced h m k s g
  resume m k gate w s g := by
    cases gate with
    | zero =>
      cases w with
      | opened =>
        obtain ⟨hget, hbehind⟩ := enter_paced h m k s g
        exact ⟨hget, hbehind.drop _⟩
      | expired =>
        obtain ⟨hstate, -, e, he⟩ := giveUp_fails d k s g
        simp only [onto, hstate, he]
        exact ⟨.kept rfl, (settled_nil m).drop _⟩
    | succ gate =>
      simp only [onto, state_settle, ground_settle, behind_settle]
      exact h.resume m k gate w s.2 g
  remove m k s g := h.remove m k s.2 g
  size m s g := h.size m s.2 g
  clear m s g := h.clear m s.2 g
  release m k s g := h.release m k s.2 g

section Packing

variable [Codec α]

theorem Packing.paced (h : d.Paced ws above) : (Packing.onto d).Paced (fun s => ws s.2) above where
  put m k c s g := by
    simp only [onto]
    cases pack c.item.content with
    | error e => exact ⟨.kept rfl, fun hok => by cases hok⟩
    | ok bytes => exact h.put m k _ s.2 g.issue
  get m k s g := by
    obtain ⟨hget, hbehind⟩ := h.get m k s.2 g
    simp only [onto, state_settle]
    refine ⟨hget.imp fun honly => honly.congr ((settle_spec _).1 _), ?_⟩
    exact behind_settle (n := 0) hbehind
  resume m k gate w s g := by
    obtain ⟨hresume, hbehind⟩ := h.resume m k gate w s.2 g
    simp only [onto, state_settle]
    exact ⟨hresume.imp fun honly => honly.congr ((settle_spec _).1 _), behind_settle hbehind⟩
  remove m k s g := by
    obtain ⟨hremove, hsettled, hsome⟩ := h.remove m k s.2 g
    simp only [state_remove]
    refine ⟨hremove.imp fun honly => honly.congr (ground_remove d m k s g), hsettled, ?_⟩
    intro x hx
    simp only [onto] at hx
    cases ha : (d.remove m k s.2 g).answer with
    | none => simp [ha] at hx
    | some c => exact hsome c ha
  size m s g := h.size m s.2 g
  clear m s g := h.clear m s.2 g
  release m k s g := h.release m k s.2 g

end Packing

end Layers

/-- The windows of a stack clear as the law of windows says, if a reclaiming layer lies on the base
store only. -/
theorem Stack.paced [Codec α] (id : String) (base : Nat) (kinds : List Kind)
    (h : .leasing ∉ kinds.dropLast) :
    (Stack.cache id base kinds : Cache κ α _).Paced (windows kinds) (above kinds) := by
  induction kinds with
  | nil => exact Cache.paced_none _ _
  | cons kind kinds ih =>
    have hfaithful := Stack.faithful (κ := κ) (α := α) id base kinds
    rcases Kind.leasing_cons h with ⟨rfl, rfl⟩ | ⟨hkind, hbelow⟩
    · exact Cache.paced_none _ _
    · have ih := ih hbelow
      cases kind
      case lru => exact Recency.paced ih hfaithful
      case fifo => exact WriteQueue.paced ih hfaithful
      case leasing => exact absurd rfl hkind
      case window => exact Window.paced ih hfaithful
      case packing => exact Packing.paced ih
      case counting => exact HitCount.paced ih
      case passing => exact Passing.paced ih
      case latching => exact Gate.paced ih

end LayeredCache
