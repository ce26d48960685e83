import LayeredCache.Proofs.Coherence
import LayeredCache.Proofs.Layer.Keeping
import Mathlib.Data.List.Forall2

/-!
# How old a value can be

A layer with a window clears what lies below it before a call that comes more than its interval
after the last time. So while the clock never goes back, what is stored was written when every
window of the stack had been cleared for the last time, or later. A lookup or a removal that finds a
value has come past every window, and so has a count; what they speak of was written an interval ago
at most.

A lookup may wait at a gate and go on much later. What it finds is as young as if it had been found
when the lookup was made.

## Main definitions

* `Cache.TimedRun` — runs during which a clock never goes back.
* `Cache.lastWrite` — the last write of a key and its moment.
* `Cache.Waits` — a lookup was made at a moment and has come to wait at a gate.
* `Chain.Punctual` — the law of windows for a run of a chain.

## Main statements

* `Chain.punctual` — the law for every chain that was built.
-/

namespace LayeredCache

variable {κ α σ : Type}

/-! ## Windows in the course of time -/

theorem Window.due_eq_false {m : Moment} {w : Window} :
    w.due m = false ↔ m.time w.clock ≤ w.lastClear + w.interval := by
  rw [due, stale, decide_eq_false_iff_not, Nat.not_lt]
  exact Nat.sub_le_iff_le_add'

theorem Window.due_eq_true {m : Moment} {w : Window} :
    w.due m = true ↔ w.lastClear + w.interval < m.time w.clock := by
  rw [due, stale, decide_eq_true_iff]
  exact Nat.lt_sub_iff_add_lt'

/-- A window at a later time: it has the same settings and was not cleared earlier. -/
structure Window.Later (w w' : Window) : Prop where
  interval : w'.interval = w.interval
  clock : w'.clock = w.clock
  lastClear : w.lastClear ≤ w'.lastClear

/-- Windows of a clock that were cleared by a time. -/
def Timely (clock : Clock) (now : Span) (ws : List Window) : Prop :=
  ∀ w ∈ ws, w.clock = clock ∧ w.lastClear ≤ now

theorem Window.Later.refl (w : Window) : w.Later w := ⟨rfl, rfl, Nat.le_refl _⟩

theorem Window.Later.trans {w w' w'' : Window} (h : w.Later w') (h' : w'.Later w'') : w.Later w'' :=
  ⟨h'.interval.trans h.interval, h'.clock.trans h.clock, Nat.le_trans h.lastClear h'.lastClear⟩

section

variable {m : Moment} {clock : Clock} {ws ws' : List Window} {p : Prop}

theorem Timely.mono {now now' : Span} (h : Timely clock now ws) (hnow : now ≤ now') :
    Timely clock now' ws := fun w hw => ⟨(h w hw).1, Nat.le_trans (h w hw).2 hnow⟩

theorem Timely.reset (h : Timely clock (m.time clock) ws) :
    Timely clock (m.time clock) (ws.map (·.reset m)) := by
  intro w hw
  obtain ⟨w, hmem, rfl⟩ := List.mem_map.mp hw
  obtain ⟨hclock, -⟩ := h w hmem
  exact ⟨hclock, Nat.le_of_eq (congrArg m.time hclock)⟩

theorem Timely.later_reset (h : Timely clock (m.time clock) ws) :
    List.Forall₂ Window.Later ws (ws.map (·.reset m)) := by
  rw [List.forall₂_map_right_iff, List.forall₂_same]
  intro w hw
  obtain ⟨hclock, hle⟩ := h w hw
  exact ⟨rfl, rfl, Nat.le_trans hle (Nat.le_of_eq (congrArg m.time hclock.symm))⟩

theorem forall₂_later_refl (ws : List Window) : List.Forall₂ Window.Later ws ws :=
  List.forall₂_same.mpr fun w _ => .refl w

theorem forall₂_later_trans {ws'' : List Window} (h : List.Forall₂ Window.Later ws ws')
    (h' : List.Forall₂ Window.Later ws' ws'') : List.Forall₂ Window.Later ws ws'' := by
  induction h generalizing ws'' with
  | nil => exact h'
  | cons hlater _ ih =>
    cases h' with
    | cons hlater' h' => exact .cons (hlater.trans hlater') (ih h')

theorem map_interval_of_later (h : List.Forall₂ Window.Later ws ws') :
    ws'.map Window.interval = ws.map Window.interval := by
  induction h with
  | nil => rfl
  | cons hlater _ ih => rw [List.map_cons, List.map_cons, ih, hlater.interval]

theorem Turn.timely (h : Turn m ws ws' p) (hws : Timely clock (m.time clock) ws) :
    Timely clock (m.time clock) ws' := by
  cases h with
  | kept same => exact same ▸ hws
  | flushed outer w inner before due after empty =>
    subst before after
    intro w' hw'
    rcases List.mem_append.mp hw' with hw' | hw'
    · exact hws w' (List.mem_append_left _ hw')
    · exact Timely.reset (fun w hw => hws w (List.mem_append_right _ hw)) w' hw'

theorem Turn.later (h : Turn m ws ws' p) (hws : Timely clock (m.time clock) ws) :
    List.Forall₂ Window.Later ws ws' := by
  cases h with
  | kept same => exact same ▸ forall₂_later_refl ws
  | flushed outer w inner before due after empty =>
    subst before after
    exact List.rel_append (forall₂_later_refl outer)
      (Timely.later_reset fun w hw => hws w (List.mem_append_right _ hw))

theorem exists_earlier (h : List.Forall₂ Window.Later ws ws') {i : Nat} {w' : Window}
    (hw' : ws'[i]? = some w') : ∃ w, ws[i]? = some w ∧ w.Later w' := by
  obtain ⟨hi', rfl⟩ := List.getElem?_eq_some_iff.mp hw'
  have hi : i < ws.length := h.length_eq ▸ hi'
  exact ⟨ws[i], List.getElem?_eq_getElem hi, h.get hi hi'⟩

/-- A moment by which no window had run out, seen at a later time. -/
theorem forall_le_of_later {now : Span} (h : List.Forall₂ Window.Later ws ws')
    (hws : ∀ w ∈ ws, now ≤ w.lastClear + w.interval) :
    ∀ w ∈ ws', now ≤ w.lastClear + w.interval := by
  induction h with
  | nil => exact fun _ hw => absurd hw List.not_mem_nil
  | cons hlater _ ih =>
    rw [List.forall_mem_cons] at hws ⊢
    obtain ⟨hinterval, -, hlast⟩ := hlater
    rw [hinterval]
    exact ⟨Nat.le_trans hws.1 (Nat.add_le_add_right hlast _), ih hws.2⟩

theorem Settled.le (h : Settled m ws) (hws : Timely clock (m.time clock) ws) :
    ∀ w ∈ ws, m.time clock ≤ w.lastClear + w.interval := by
  intro w hw
  rw [← (hws w hw).1]
  exact Window.due_eq_false.mp (h w hw)

end

variable [DecidableEq κ]

namespace Cache

/-! ## Runs and their past -/

omit [DecidableEq κ] in
/-- What a clock showed at the latest call, or at the start. -/
def latest (clock : Clock) (m₀ : Moment) : List (Record κ α) → Span
  | [] => m₀.time clock
  | r :: _ => r.moment.time clock

/-- The runs of a cache during which a clock never goes back. Others leave the cells of its base
store as they are and take serial numbers at most. -/
inductive TimedRun (d : Cache κ α σ) (clock : Clock) (m₀ : Moment) (s₀ : σ) (g₀ : Ground κ α) :
    List (Record κ α) → σ → Ground κ α → Prop where
  | start : TimedRun d clock m₀ s₀ g₀ [] s₀ g₀
  | call {past : List (Record κ α)} {s : σ} {g : Ground κ α} (m : Moment) (c : Call κ α) :
    TimedRun d clock m₀ s₀ g₀ past s g → latest clock m₀ past ≤ m.time clock →
      TimedRun d clock m₀ s₀ g₀ (⟨m, c, (d.perform m s g c).answer⟩ :: past)
        (d.perform m s g c).state (d.perform m s g c).ground
  | elsewhere {past : List (Record κ α)} {s : σ} {g : Ground κ α} (g' : Ground κ α) :
    TimedRun d clock m₀ s₀ g₀ past s g → g'.store d.base = g.store d.base → g.issued ≤ g'.issued →
      TimedRun d clock m₀ s₀ g₀ past s g'

/-- The last write of a key that succeeded and its moment, unless the key was removed or everything
was cleared since. -/
def lastWrite (k : κ) : (past : List (Record κ α)) → Option (Moment × α)
  | [] => none
  | r :: past =>
    match r.leaves k with
    | some left => left.map (r.moment, ·)
    | none => lastWrite k past

theorem map_lastWrite (k : κ) (past : List (Record κ α)) :
    (lastWrite k past).map Prod.snd = lastWritten k past := by
  induction past with
  | nil => rfl
  | cons r past ih =>
    rw [lastWrite, lastWritten]
    rcases r.leaves k with _ | _ | v
    · exact ih
    · rfl
    · rfl

theorem lastWrite_cons_of_none {k : κ} {r : Record κ α} (h : r.leaves k = none)
    (past : List (Record κ α)) : lastWrite k (r :: past) = lastWrite k past := by
  rw [lastWrite, h]

theorem lastWrite_cons_of_some {k : κ} {r : Record κ α} {v : α} (h : r.leaves k = some (some v))
    (past : List (Record κ α)) : lastWrite k (r :: past) = some (r.moment, v) := by
  rw [lastWrite, h]
  rfl

/-- The last write of a key, which nothing has undone, wrote `v`, and a time is an interval after it
at most. -/
def WrittenWithin (clock : Clock) (past : List (Record κ α)) (interval now : Span) (k : κ) (v : α) :
    Prop :=
  ∃ m, lastWrite k past = some (m, v) ∧ now ≤ m.time clock + interval

/-- A lookup of `k` that was made at the moment `m` has come to wait at a gate, as the past
tells. -/
inductive Waits (k : κ) (m : Moment) : (gate : Nat) → List (Record κ α) → Prop where
  | get {gate latch : Nat} (past : List (Record κ α)) :
    Waits k m gate (⟨m, .get k, .looked (.waiting gate latch)⟩ :: past)
  /-- It has gone on and waits at another gate. -/
  | resume {gate gate' latch : Nat} {w : Wake} {m' : Moment} {past : List (Record κ α)} :
    Waits k m gate past →
      Waits k m gate' (⟨m', .resume k gate w, .looked (.waiting gate' latch)⟩ :: past)
  | later {gate : Nat} {past : List (Record κ α)} (r : Record κ α) :
    Waits k m gate past → Waits k m gate (r :: past)

section Runs

variable {d : Cache κ α σ} {clock : Clock} {m₀ : Moment} {s₀ s : σ} {g₀ g : Ground κ α}
  {past : List (Record κ α)}

omit [DecidableEq κ] in
theorem TimedRun.run (h : d.TimedRun clock m₀ s₀ g₀ past s g) : d.Run s₀ g₀ past s g := by
  induction h with
  | start => exact .start
  | call m c _ _ ih => exact .call m c ih
  | elsewhere g' _ hstore _ ih => exact .elsewhere g' ih hstore

omit [DecidableEq κ] in
theorem Sustains.perform {I : σ → Ground κ α → Prop} (H : d.Sustains I) (m : Moment) {s : σ}
    {g : Ground κ α} (c : Call κ α) (h : I s g) :
    I (d.perform m s g c).state (d.perform m s g c).ground := by
  cases c with
  | put k serial v => exact H.put m k _ s g h
  | get k => exact H.get m k s g h
  | resume k gate w => exact H.resume m k gate w s g h
  | remove k => exact H.remove m k s g h
  | clear => exact H.clear m s g h
  | size => exact H.size m s g h
  | release k => exact H.release m k s g h

omit [DecidableEq κ] in
theorem TimedRun.sustains {I : σ → Ground κ α → Prop} (H : d.Sustains I)
    (h : d.TimedRun clock m₀ s₀ g₀ past s g) (h₀ : I s₀ g₀) : I s g := by
  induction h with
  | start => exact h₀
  | call m c _ _ ih => exact H.perform m c ih
  | elsewhere g' _ hstore hissued ih => exact H.elsewhere _ _ g' hstore hissued ih

omit [DecidableEq κ] in
/-- A lookup that waits was not made later than the latest call. -/
theorem TimedRun.le_latest (h : d.TimedRun clock m₀ s₀ g₀ past s g) {k : κ} {m : Moment}
    {gate : Nat} (hwaits : Waits k m gate past) : m.time clock ≤ latest clock m₀ past := by
  induction h generalizing gate with
  | start => cases hwaits
  | @call past s g m' c _ hlatest ih =>
    generalize (d.perform m' s g c).answer = answer at hwaits
    cases hwaits with
    | get => exact Nat.le_refl _
    | resume hwaits => exact Nat.le_trans (ih hwaits) hlatest
    | later _ hwaits => exact Nat.le_trans (ih hwaits) hlatest
  | elsewhere _ _ _ _ ih => exact ih hwaits

end Runs

/-! ## Windows in the course of a run -/

section Windows

variable {d : Cache κ α σ} {ws : σ → List Window} {above : Nat → Nat}
  {keep read : Content α → Except CodecError (Content α)} {clock : Clock} {m₀ : Moment} {s₀ s : σ}
  {g₀ g : Ground κ α} {past : List (Record κ α)}

/-- What a call does to windows: a clear renews them all; another call renews none, or one that has
run out and those below it, and then what is stored is what the call has written. -/
theorem Paced.perform (h : d.Paced ws above) (m : Moment) (s : σ) (g : Ground κ α) (c : Call κ α) :
    let r := d.perform m s g c
    c = .clear ∧ ws r.state = (ws s).map (·.reset m) ∨
      c ≠ .clear ∧ Turn m (ws s) (ws r.state) (r.ground.Only d.base fun k =>
        ∃ v, Record.leaves k (⟨m, c, r.answer⟩ : Record κ α) = some (some v)) := by
  cases c with
  | put k serial v =>
    refine .inr ⟨by simp, (h.put m k _ s g).1.imp fun honly k' y hy => ?_⟩
    obtain ⟨rfl, hok⟩ := honly k' y hy
    exact ⟨v, by simp [Record.leaves, Cache.perform, hok]⟩
  | get k => exact .inr ⟨by simp, (h.get m k s g).1.imp fun honly k y hy => (honly k y hy).elim⟩
  | resume k gate w =>
    exact .inr ⟨by simp, (h.resume m k gate w s g).1.imp fun honly k y hy => (honly k y hy).elim⟩
  | remove k =>
    exact .inr ⟨by simp, (h.remove m k s g).1.imp fun honly k y hy => (honly k y hy).elim⟩
  | clear => exact .inl ⟨rfl, h.clear m s g⟩
  | size => exact .inr ⟨by simp, (h.size m s g).1.imp fun honly k y hy => (honly k y hy).elim⟩
  | release k => exact .inr ⟨by simp, .kept (h.release m k s g)⟩

theorem Paced.timely_perform (h : d.Paced ws above) {m : Moment} {s : σ}
    (hws : Timely clock (m.time clock) (ws s)) (g : Ground κ α) (c : Call κ α) :
    Timely clock (m.time clock) (ws (d.perform m s g c).state) ∧
      List.Forall₂ Window.Later (ws s) (ws (d.perform m s g c).state) := by
  rcases h.perform m s g c with ⟨-, hreset⟩ | ⟨-, hturn⟩
  · rw [hreset]
    exact ⟨hws.reset, hws.later_reset⟩
  · exact ⟨hturn.timely hws, hturn.later hws⟩

theorem TimedRun.timely (h : d.Paced ws above) (hrun : d.TimedRun clock m₀ s₀ g₀ past s g)
    (h₀ : Timely clock (m₀.time clock) (ws s₀)) :
    Timely clock (latest clock m₀ past) (ws s) ∧ List.Forall₂ Window.Later (ws s₀) (ws s) := by
  induction hrun with
  | start => exact ⟨h₀, forall₂_later_refl _⟩
  | call m c _ hlatest ih =>
    obtain ⟨htimely, hlater⟩ := h.timely_perform (ih.1.mono hlatest) _ c
    exact ⟨htimely, forall₂_later_trans ih.2 hlater⟩
  | elsewhere _ _ _ _ ih => exact ih

/-- What is stored was written when the windows had been cleared for the last time. -/
def Dated (clock : Clock) (base : Nat) (past : List (Record κ α)) (ws : List Window)
    (g : Ground κ α) : Prop :=
  ∀ k y, g.content base k = some y →
    ∃ m v, lastWrite k past = some (m, v) ∧ ∀ w ∈ ws, w.lastClear ≤ m.time clock

/-- What is stored after a call was stored before and the call has left it, or the call has written
it. -/
theorem Faithful.stored_perform (H : d.Faithful keep read) (m : Moment) (s : σ) (g : Ground κ α)
    (c : Call κ α) {k : κ} {y : Content α}
    (hy : (d.perform m s g c).ground.content d.base k = some y) :
    let left := Record.leaves k (⟨m, c, (d.perform m s g c).answer⟩ : Record κ α)
    left = none ∧ g.content d.base k = some y ∨ ∃ v, left = some (some v) := by
  cases c with
  | put k' serial v =>
    simp only [Record.leaves, Cache.perform] at hy ⊢
    cases ha : (d.put m k' { item := ⟨serial, .plain v⟩ } s g).answer with
    | error e => exact .inl ⟨rfl, H.put_error m k' _ s g e ha k y hy⟩
    | ok _ =>
      obtain ⟨y', -, hwrote⟩ := H.put_ok m k' _ s g ha
      have hw := hwrote k y hy
      by_cases he : k = k'
      · exact .inr ⟨v, if_pos he.symm⟩
      · rw [if_neg he] at hw
        exact .inl ⟨if_neg (Ne.symm he), hw⟩
  | get k' => exact .inl ⟨rfl, H.get m k' s g k y hy⟩
  | resume k' gate w => exact .inl ⟨rfl, H.resume m k' gate w s g k y hy⟩
  | remove k' =>
    by_cases he : k' = k
    · subst he
      simp only [Cache.perform, H.remove_absent m k' s g] at hy
      cases hy
    · exact .inl ⟨if_neg he, H.remove m k' s g k y hy⟩
  | clear =>
    simp only [Cache.perform, H.clear m s g k] at hy
    cases hy
  | size => exact .inl ⟨rfl, H.size m s g k y hy⟩
  | release k' => exact .inl ⟨rfl, H.release m k' s g k y hy⟩

theorem Dated.perform (hpaced : d.Paced ws above) (H : d.Faithful keep read) {m : Moment} {s : σ}
    {g : Ground κ α} (hws : Timely clock (m.time clock) (ws s))
    (h : Dated clock d.base past (ws s) g) (c : Call κ α) :
    Dated clock d.base (⟨m, c, (d.perform m s g c).answer⟩ :: past)
      (ws (d.perform m s g c).state) (d.perform m s g c).ground := by
  intro k y hy
  have hnow : ∀ w ∈ ws (d.perform m s g c).state, w.lastClear ≤ m.time clock :=
    fun w hw => ((hpaced.timely_perform hws g c).1 w hw).2
  rcases H.stored_perform m s g c hy with ⟨hleft, hold⟩ | ⟨v, hleft⟩
  · rcases hpaced.perform m s g c with ⟨rfl, -⟩ | ⟨-, hturn⟩
    · cases hleft
    · cases hturn with
      | kept same =>
        obtain ⟨m', v, hlast, hle⟩ := h k y hold
        exact ⟨m', v, (lastWrite_cons_of_none hleft past).trans hlast, same ▸ hle⟩
      | flushed outer w inner before due after empty =>
        obtain ⟨v, hv⟩ := empty k y hy
        rw [hleft] at hv
        cases hv
  · exact ⟨m, v, lastWrite_cons_of_some hleft past, hnow⟩

theorem TimedRun.dated (hpaced : d.Paced ws above) (H : d.Faithful keep read)
    (hrun : d.TimedRun clock m₀ s₀ g₀ past s g) (h₀ : Timely clock (m₀.time clock) (ws s₀))
    (hempty : ∀ k, g₀.content d.base k = none) : Dated clock d.base past (ws s) g := by
  induction hrun with
  | start =>
    intro k y hy
    rw [hempty k] at hy
    cases hy
  | call m c hrun hlatest ih =>
    exact ih.perform hpaced H ((hrun.timely hpaced h₀).1.mono hlatest) c
  | elsewhere g' _ hstore _ ih =>
    intro k y hy
    exact ih k y ((Ground.content_congr hstore k) ▸ hy)

/-- The windows above the gate at which a lookup waits had not run out when it was made. -/
theorem TimedRun.waits (hpaced : d.Paced ws above) (hrun : d.TimedRun clock m₀ s₀ g₀ past s g)
    (h₀ : Timely clock (m₀.time clock) (ws s₀)) {k : κ} {m : Moment} {gate : Nat}
    (hwaits : Waits k m gate past) :
    ∀ w ∈ (ws s).take (above gate), m.time clock ≤ w.lastClear + w.interval := by
  induction hrun generalizing gate with
  | start => cases hwaits
  | @call past s g m' c hrun hlatest ih =>
    have htimely := (hrun.timely hpaced h₀).1.mono hlatest
    have hlater := (hpaced.timely_perform htimely g c).2
    generalize ha : (d.perform m' s g c).answer = answer at hwaits
    refine forall_le_of_later (List.forall₂_take _ hlater) ?_
    cases hwaits with
    | get =>
      have hbehind := (hpaced.get m k s g).2
      simp only [Cache.perform, Answer.looked.injEq] at ha
      rw [ha] at hbehind
      exact hbehind.le fun w hw => htimely w (List.mem_of_mem_take hw)
    | @resume gate _ _ w' _ _ hwaits =>
      have hbehind := (hpaced.resume m' k gate w' s g).2
      simp only [Cache.perform, Answer.looked.injEq] at ha
      rw [ha] at hbehind
      intro w hw
      -- The windows above the first gate were come past before, those between the two just now.
      rw [← List.take_append_drop (above gate) ((ws s).take _), List.mem_append] at hw
      rcases hw with hw | hw
      · rw [List.take_take, Nat.min_comm, ← List.take_take] at hw
        exact ih hwaits w (List.mem_of_mem_take hw)
      · have hle := hbehind.le fun w hw =>
          htimely w (List.mem_of_mem_take (List.mem_of_mem_drop hw))
        exact Nat.le_trans (Nat.le_trans (hrun.le_latest hwaits) hlatest) (hle w hw)
    | later _ hwaits => exact ih hwaits
  | elsewhere _ _ _ _ ih => exact ih hwaits

/-- What was read under a key was written an interval before a time at most. -/
def ReadsWithin (keep read : Content α → Except CodecError (Content α)) (clock : Clock)
    (past : List (Record κ α)) (interval now : Span) (k : κ) (x : Content α) : Prop :=
  ∃ v y, WrittenWithin clock past interval now k v ∧ keep (.plain v) = .ok y ∧ read y = .ok x

section Found

variable (hpaced : d.Paced ws above) (H : d.Faithful keep read)
  (h₀ : Timely clock (m₀.time clock) (ws s₀)) (hempty : ∀ k, g₀.content d.base k = none)
  (hrun : d.TimedRun clock m₀ s₀ g₀ past s g)

include hpaced H h₀ hempty hrun

/-- What is stored was written an interval before a time at most by which no window had run out. -/
theorem TimedRun.stored {now : Span} {w : Window} (hw : w ∈ ws s)
    (hnow : now ≤ w.lastClear + w.interval) {k : κ} {y : Content α}
    (hy : g.content d.base k = some y) :
    ∃ v, WrittenWithin clock past w.interval now k v ∧ keep (.plain v) = .ok y := by
  obtain ⟨m, v, hlast, hle⟩ := hrun.dated hpaced H h₀ hempty k y hy
  obtain ⟨v', hv', hkeep⟩ := hrun.run.agrees H hempty k y hy
  rw [← map_lastWrite, hlast] at hv'
  cases hv'
  exact ⟨v, ⟨m, hlast, Nat.le_trans hnow (Nat.add_le_add_right (hle w hw) _)⟩, hkeep⟩

theorem TimedRun.found {m : Moment} (hm : latest clock m₀ past ≤ m.time clock) {w : Window}
    (hw : w ∈ ws s) {k : κ} {x : Cell α}
    (hx : (d.get m k s g).answer = .done (.ok (some x)) ∨ (d.remove m k s g).answer = some x) :
    ReadsWithin keep read clock past w.interval (m.time clock) k x.item.content := by
  have htimely := (hrun.timely hpaced h₀).1.mono hm
  have hsettled : Settled m (ws s) := by
    rcases hx with hx | hx
    · have hbehind := (hpaced.get m k s g).2
      rw [hx] at hbehind
      exact hbehind
    · exact (hpaced.remove m k s g).2.2 x hx
  obtain ⟨y, hy, hread⟩ := hx.elim (H.get_some m k s g x) (H.remove_some m k s g x)
  obtain ⟨v, hwithin, hkeep⟩ := hrun.stored hpaced H h₀ hempty hw (hsettled.le htimely w hw) hy
  exact ⟨v, y, hwithin, hkeep, hread⟩

/-- A lookup that has waited comes past the windows below the gate when it goes on. It came past
those above when it was made, or when it went on before. -/
theorem TimedRun.resumed {m : Moment} (hm : latest clock m₀ past ≤ m.time clock) {w : Window}
    (hw : w ∈ ws s) {k : κ} {gate : Nat} {wake : Wake} {x : Cell α}
    (hx : (d.resume m k gate wake s g).answer = .done (.ok (some x))) {made : Moment}
    (hwaits : Waits k made gate past) :
    ReadsWithin keep read clock past w.interval (made.time clock) k x.item.content := by
  have htimely := (hrun.timely hpaced h₀).1.mono hm
  have hbehind := (hpaced.resume m k gate wake s g).2
  rw [hx] at hbehind
  have hmade : made.time clock ≤ w.lastClear + w.interval := by
    have hmem := hw
    rw [← List.take_append_drop (above gate) (ws s), List.mem_append] at hmem
    rcases hmem with hmem | hmem
    · exact hrun.waits hpaced h₀ hwaits w hmem
    · have hle := hbehind.le (fun w hw => htimely w (List.mem_of_mem_drop hw)) w hmem
      exact Nat.le_trans (Nat.le_trans (hrun.le_latest hwaits) hm) hle
  obtain ⟨y, hy, hread⟩ := H.resume_some m k gate wake s g x hx
  obtain ⟨v, hwithin, hkeep⟩ := hrun.stored hpaced H h₀ hempty hw hmade hy
  exact ⟨v, y, hwithin, hkeep, hread⟩

/-- What a count leaves was written an interval ago at most: it has come past every window. -/
theorem TimedRun.counted {m : Moment} (hm : latest clock m₀ past ≤ m.time clock) {w : Window}
    (hw : w ∈ ws s) {k : κ} {y : Content α}
    (hy : (d.size m s g).ground.content d.base k = some y) :
    ∃ v, WrittenWithin clock past w.interval (m.time clock) k v ∧ keep (.plain v) = .ok y := by
  have hrun' := hrun.call m .size hm
  have htimely := (hrun.timely hpaced h₀).1.mono hm
  obtain ⟨htimely', hlater⟩ := hpaced.timely_perform htimely g .size
  obtain ⟨i, hi, rfl⟩ := List.getElem_of_mem hw
  have hi' : i < (ws (d.size m s g).state).length := hlater.length_eq ▸ hi
  have hinterval := (hlater.get hi hi').interval
  have hmem := List.getElem_mem hi'
  have hle := (hpaced.size m s g).2.le htimely' _ hmem
  obtain ⟨v, ⟨m', hlast, hwithin⟩, hkeep⟩ := hrun'.stored hpaced H h₀ hempty hmem hle hy
  exact ⟨v, ⟨m', hlast, hinterval ▸ hwithin⟩, hkeep⟩

end Found

/-- A call flushes the layer with the window of a number: it is no clear, the window has run out,
and the call renews it. -/
def Flushes (d : Cache κ α σ) (ws : σ → List Window) (i : Nat) (m : Moment) (s : σ) (g : Ground κ α)
    (c : Call κ α) : Prop :=
  c ≠ .clear ∧ ∃ w, (ws s)[i]? = some w ∧ w.due m = true ∧
    (ws (d.perform m s g c).state)[i]? = some (w.reset m)

omit [DecidableEq κ] in
/-- A flush comes more than its interval after the window was cleared. -/
theorem Flushes.lt {w : Window} {i : Nat} {m : Moment} {c : Call κ α}
    (h : d.Flushes ws i m s g c) (hlater : List.Forall₂ Window.Later (ws s₀) (ws s))
    (hw : (ws s₀)[i]? = some w) : w.lastClear + w.interval < m.time w.clock := by
  obtain ⟨-, w', hw', hdue, -⟩ := h
  obtain ⟨w'', hw'', hearlier⟩ := exists_earlier hlater hw'
  rw [hw] at hw''
  cases hw''
  rw [Window.due_eq_true, hearlier.interval, hearlier.clock] at hdue
  exact Nat.lt_of_le_of_lt (Nat.add_le_add_right hearlier.lastClear _) hdue

/-- So it does after a call that has renewed the window. -/
theorem TimedRun.lt_of_flushes (hpaced : d.Paced ws above) {m : Moment}
    (hws : Timely clock (m.time clock) (ws s)) {c : Call κ α} {i : Nat} {w : Window}
    (hw : (ws s)[i]? = some w) (hrenewed : (ws (d.perform m s g c).state)[i]? = some (w.reset m))
    {s' : σ} {g' : Ground κ α}
    (hrun : d.TimedRun clock m (d.perform m s g c).state (d.perform m s g c).ground past s' g')
    {m' : Moment} {c' : Call κ α} (h : d.Flushes ws i m' s' g' c') :
    m.time clock + w.interval < m'.time clock := by
  have hlater := (hrun.timely hpaced (hpaced.timely_perform hws g c).1).2
  have hclock := (hws w (List.mem_of_getElem? hw)).1
  rw [← hclock]
  exact h.lt hlater hrenewed

end Windows

/-- A write that succeeds keeps its entry, unless a collection by the number of operations has come
after an eviction by recency. -/
theorem Keeping.written {d : Cache κ α σ} {keep read : Content α → Except CodecError (Content α)}
    {I : σ → Ground κ α → Prop} {C : Moment → σ → Prop} (h : d.Keeping I C)
    (H : d.Faithful keep read) {m : Moment} {k : κ} {i : Item α} {s : σ} {g : Ground κ α}
    (hs : I s g) (hok : (d.put m k { item := i } s g).answer = .ok ()) :
    (∃ y, keep i.content = .ok y ∧
        (d.put m k { item := i } s g).ground.content d.base k = some y) ∨
      g.Reclaims d.id (d.put m k { item := i } s g).ground := by
  refine (h.put m k _ s g hs rfl hok).2.imp_left ?_
  rintro ⟨x, hx, -⟩
  obtain ⟨y, hkeep, hwrote⟩ := H.put_ok m k _ s g hok
  have hcontent : (d.put m k { item := i } s g).ground.content d.base k = some x.item.content := by
    rw [Ground.content, hx, Option.map_some]
  have hsame := hwrote k _ hcontent
  rw [if_pos rfl] at hsame
  exact ⟨y, hkeep, hsame ▸ hcontent⟩

end Cache

/-! ## Chains -/

omit [DecidableEq κ] in
theorem Layer.windows_initial (w : Wiring) (m : Moment) (l : Layer) :
    l.kind.windows (l.initial κ w m) =
      (l.interval?.map fun interval => ⟨interval, w.clock, m.time w.clock⟩).toList := by
  cases l <;> rfl

theorem Layer.able_initial (w : Wiring) (m : Moment) (g : Ground κ α) {l : Layer}
    (h : l.hasZeroCapacity = false) : l.kind.Able g (l.initial κ w m) := by
  cases l with
  | lru capacity => exact sound_initial w m h
  | soft hardBound retention =>
    have hpos : retention ≠ 0 := by
      simp only [hasZeroCapacity, Bool.or_eq_false_iff, decide_eq_false_iff_not] at h
      exact h.2
    refine ⟨fun limit hlimit => ?_, fun _ hp => absurd hp List.not_mem_nil⟩
    cases hlimit
    exact Nat.one_le_iff_ne_zero.mpr hpos
  | weak hardBound every => exact ⟨fun _ h => (by cases h), fun _ hp => absurd hp List.not_mem_nil⟩
  | _ => trivial

namespace Chain

open Cache (TimedRun WrittenWithin ReadsWithin Waits latest)

omit [DecidableEq κ] in
/-- The windows of layers that were stacked are those of the layers, the outermost one first. -/
theorem windows_compose (m : Moment) (c : Chain κ) (layers : List (Layer × Wiring)) :
    Stack.windows (c.compose m layers).kinds (c.compose m layers).stack =
      (layers.reverse.filterMap fun l =>
        l.1.interval?.map fun interval => ⟨interval, l.2.clock, m.time l.2.clock⟩) ++
        Stack.windows c.kinds c.stack := by
  induction layers generalizing c with
  | nil => rfl
  | cons l layers ih =>
    have hwrap : Stack.windows (c.wrap l.1 l.2 m).kinds (c.wrap l.1 l.2 m).stack =
        l.1.kind.windows (l.1.initial κ l.2 m) ++ Stack.windows c.kinds c.stack := rfl
    have hcompose : c.compose m (l :: layers) = (c.wrap l.1 l.2 m).compose m layers := rfl
    rw [hcompose, ih, hwrap, Layer.windows_initial, List.reverse_cons, List.filterMap_append,
      List.append_assoc]
    cases hl : l.1.interval? <;> simp [hl]

omit [DecidableEq κ] in
theorem windows_of_build {id : String} {base : Nat} {signal : Signal} {layers : List Layer}
    {m : Moment} {g₀ g : Ground κ α} {c : Chain κ}
    (h : build id base signal layers m g₀ = (g, .ok c)) :
    Stack.windows c.kinds c.stack = (layers.reverse.filterMap Layer.interval?).map fun interval =>
      ⟨interval, .system, m.time .system⟩ := by
  obtain ⟨-, rfl⟩ := eq_compose_of_build h
  rw [windows_compose, List.map_filterMap, ← List.map_reverse, List.filterMap_map]
  exact List.append_nil _

variable [Codec α]

/-- The law of windows where a run of a chain has come to, if the chain was built of `layers` at the
moment `m₀`. -/
structure Punctual (c : Chain κ) (layers : List Layer) (m₀ : Moment)
    (past : List (Cache.Record κ α)) (s : Stack κ c.kinds) (g : Ground κ α) : Prop where
  /-- The windows are those of the layers that have one, the outermost one first. -/
  intervals : (Stack.windows c.kinds s).map Window.interval =
    layers.reverse.filterMap Layer.interval?
  /-- What a lookup or a removal yields was written an interval ago at most. -/
  found : ∀ d, .scheduled d ∈ layers → ∀ m, latest .system m₀ past ≤ m.time .system → ∀ k x,
    (c.cache.get m k s g).answer = .done (.ok (some x)) ∨ (c.cache.remove m k s g).answer = some x →
      ReadsWithin (Stack.keep c.kinds) (Stack.read c.kinds) .system past d (m.time .system) k
        x.item.content
  /-- What a lookup yields that has waited was written an interval before it was made at most. -/
  resumed : ∀ d, .scheduled d ∈ layers → ∀ m, latest .system m₀ past ≤ m.time .system →
    ∀ k gate w (x : Cell α), (c.cache.resume m k gate w s g).answer = .done (.ok (some x)) →
      ∀ made, Waits k made gate past →
        ReadsWithin (Stack.keep c.kinds) (Stack.read c.kinds) .system past d (made.time .system) k
          x.item.content
  /-- All that a count counts was written an interval ago at most. -/
  counted : ∀ d, .scheduled d ∈ layers → ∀ m, latest .system m₀ past ≤ m.time .system →
    let r := c.cache.size m s g
    r.answer = (r.ground.store c.base).size ∧ ∀ k y, r.ground.content c.base k = some y →
      ∃ v, WrittenWithin .system past d (m.time .system) k v ∧ Stack.keep c.kinds (.plain v) = .ok y
  /-- A clear renews all windows, a release none. Another call renews none, or one that has run out
  and those below it; then what is stored is what the call has written. -/
  turns : ∀ m call, let r := c.cache.perform m s g call
    (call = .clear → Stack.windows c.kinds r.state = (Stack.windows c.kinds s).map (·.reset m)) ∧
      (∀ k, call = .release k → Stack.windows c.kinds r.state = Stack.windows c.kinds s) ∧
      (call ≠ .clear → Turn m (Stack.windows c.kinds s) (Stack.windows c.kinds r.state)
        (r.ground.Only c.base fun k =>
          ∃ v, Cache.Record.leaves k (⟨m, call, r.answer⟩ : Cache.Record κ α) = some (some v)))
  /-- A layer flushes more than its interval after it was made. -/
  started : ∀ m call i w, (Stack.windows c.kinds s)[i]? = some w →
    c.cache.Flushes (Stack.windows c.kinds) i m s g call →
      m₀.time .system + w.interval < m.time .system
  /-- A layer flushes more than its interval after a call that has renewed its window: a clear, or a
  flush of the layer or of one above it. -/
  apart : ∀ m, latest .system m₀ past ≤ m.time .system → ∀ call i w,
    (Stack.windows c.kinds s)[i]? = some w → let r := c.cache.perform m s g call
    (Stack.windows c.kinds r.state)[i]? = some (w.reset m) →
      ∀ {past' s' g'}, c.cache.TimedRun .system m r.state r.ground past' s' g' →
        ∀ m' call', c.cache.Flushes (Stack.windows c.kinds) i m' s' g' call' →
          m.time .system + w.interval < m'.time .system
  /-- A write that succeeds keeps its entry, whether or not it has flushed, unless in the same call
  a collection by the number of operations has come after an eviction by recency. -/
  written : ∀ m k serial v, let r := c.cache.perform m s g (.put k serial v)
    r.answer = .written (.ok ()) →
      (∃ y, Stack.keep c.kinds (.plain v) = .ok y ∧ r.ground.content c.base k = some y) ∨
        g.Reclaims c.id r.ground

/-- A count gives the number of cells that it leaves. -/
theorem answer_size (id : String) (base : Nat) (kinds : List Kind) (m : Moment)
    (s : Stack κ kinds) (g : Ground κ α) :
    let r := (Stack.cache id base kinds : Cache κ α _).size m s g
    r.answer = (r.ground.store base).size := by
  induction kinds generalizing g with
  | nil => rfl
  | cons kind kinds ih => cases kind <;> exact ih _ _

/-- A chain that was built over a new base store is punctual wherever a run has come to, as long as
the clock of the machine never goes back. -/
theorem punctual {id : String} {base : Nat} {signal : Signal} {layers : List Layer} {m₀ : Moment}
    {g₀ g₁ : Ground κ α} {c : Chain κ} (hbuild : build id base signal layers m₀ g₀ = (g₁, .ok c))
    (hnew : g₀.store base = .empty) {past : List (Cache.Record κ α)} {s : Stack κ c.kinds}
    {g : Ground κ α} (hrun : c.cache.TimedRun .system m₀ c.stack g₁ past s g) :
    c.Punctual layers m₀ past s g := by
  obtain ⟨hvalid, -⟩ := eq_compose_of_build hbuild
  have hbuilt := isBuilt_of_build hbuild
  have hstart := windows_of_build hbuild
  have hleasing : .leasing ∉ c.kinds.dropLast :=
    hbuilt.kinds_eq ▸ leasing_not_mem_of_validate hvalid
  have hfaithful : (c.cache : Cache κ α _).Faithful (Stack.keep c.kinds) (Stack.read c.kinds) :=
    Stack.faithful c.id c.base c.kinds
  have hpaced : (c.cache : Cache κ α _).Paced (Stack.windows c.kinds) (Stack.above c.kinds) :=
    Stack.paced c.id c.base c.kinds hleasing
  have hbase : (c.cache : Cache κ α _).base = c.base := base_cache c
  have hempty : ∀ k, g₁.content (c.cache : Cache κ α _).base k = none := by
    intro k
    rw [hbase, hbuilt.base_eq, Ground.content, hbuilt.store_eq, hnew]
    rfl
  have htimely₀ : Timely .system (m₀.time .system) (Stack.windows c.kinds c.stack) := by
    rw [hstart]
    intro w hw
    obtain ⟨interval, -, rfl⟩ := List.mem_map.mp hw
    exact ⟨rfl, Nat.le_refl _⟩
  obtain ⟨htimely, hlater⟩ := hrun.timely hpaced htimely₀
  have hintervals : (Stack.windows c.kinds s).map Window.interval =
      layers.reverse.filterMap Layer.interval? := by
    rw [map_interval_of_later hlater, hstart, List.map_map]
    exact List.map_id _
  have hwindow : ∀ d, .scheduled d ∈ layers → ∃ w ∈ Stack.windows c.kinds s, w.interval = d := by
    intro d hd
    have hmem : d ∈ layers.reverse.filterMap Layer.interval? :=
      List.mem_filterMap.mpr ⟨_, List.mem_reverse.mpr hd, rfl⟩
    rwa [← hintervals, List.mem_map] at hmem
  have hkeeping : (c.cache : Cache κ α _).Keeping _ _ :=
    Stack.keeping c.id c.base c.kinds hleasing
  have hable := hrun.sustains (Stack.sustains_able c.id c.base c.kinds hleasing)
    ⟨hbuilt.all (Kind.Able g₁) fun l _ hl w m => Layer.able_initial w m g₁ hl, by
      rw [← hbuilt.base_eq] at hnew
      rw [hbuilt.store_eq, hnew]
      exact Table.distinct_empty⟩
  refine ⟨hintervals, ?_, ?_, ?_, ?_, ?_, ?_, ?_⟩
  · intro d hd m hm k x hx
    obtain ⟨w, hw, rfl⟩ := hwindow d hd
    exact hrun.found hpaced hfaithful htimely₀ hempty hm hw hx
  · intro d hd m hm k gate wake x hx made hwaits
    obtain ⟨w, hw, rfl⟩ := hwindow d hd
    exact hrun.resumed hpaced hfaithful htimely₀ hempty hm hw hx hwaits
  · intro d hd m hm
    obtain ⟨w, hw, rfl⟩ := hwindow d hd
    refine ⟨answer_size c.id c.base c.kinds m s g, fun k y hy => ?_⟩
    exact hrun.counted hpaced hfaithful htimely₀ hempty hm hw (hbase ▸ hy)
  · intro m call
    have hperform := hpaced.perform m s g call
    rw [hbase] at hperform
    refine ⟨fun hclear => ?_, ?_, fun hclear => ?_⟩
    · exact hperform.elim And.right fun hturn => absurd hclear hturn.1
    · rintro k rfl
      exact hpaced.release m k s g
    · exact hperform.elim (fun hreset => absurd hreset.1 hclear) And.right
  · intro m call i w hw hflush
    obtain ⟨w₀, hw₀, hearlier⟩ := exists_earlier hlater hw
    have hlt := hflush.lt hlater hw₀
    rw [hstart] at hw₀
    obtain ⟨interval, -, rfl⟩ := List.mem_map.mp (List.mem_of_getElem? hw₀)
    exact hearlier.interval ▸ hlt
  · intro m hm call i w hw _ hrenewed past' s' g' hrun' m' call' hflush
    exact hrun'.lt_of_flushes hpaced (htimely.mono hm) hw hrenewed hflush
  · intro m k serial v _ hok
    have hwritten := hkeeping.written hfaithful hable (Cache.Answer.written.inj hok)
    rw [hbase, id_cache] at hwritten
    exact hwritten

/-- An interval of ten: a write after eleven flushes what was written after five, and stays. -/
theorem write_flushes_and_stays :
    let layers : List Layer := [.scheduled 10]
    let c : Chain Nat := ⟨"users", 0, [.window], (⟨10, .system, 0⟩, ())⟩
    let g₁ : Ground Nat String := Ground.note {} (.built "users" (Layer.describe layers))
    let first := c.cache.perform { time := fun _ => 5 } c.stack g₁ (.put 1 0 "a")
    let second := c.cache.perform { time := fun _ => 11 } first.state first.ground (.put 2 1 "b")
    let past := [⟨{ time := fun _ => 11 }, .put 2 1 "b", second.answer⟩,
      ⟨{ time := fun _ => 5 }, .put 1 0 "a", first.answer⟩]
    build "users" 0 .silent layers {} {} = (g₁, .ok c) ∧
      c.cache.TimedRun .system {} c.stack g₁ past second.state second.ground ∧
      c.Punctual layers {} past second.state second.ground ∧
      first.ground.content 0 1 = some (.plain "a") ∧ second.ground.content 0 1 = none ∧
      second.ground.content 0 2 = some (.plain "b") := by
  intro layers c g₁ first second past
  have hbuild : build "users" 0 .silent layers {} {} = (g₁, .ok c) := rfl
  have hrun : c.cache.TimedRun .system {} c.stack g₁ past second.state second.ground :=
    .call { time := fun _ => 11 } (.put 2 1 "b")
      (.call { time := fun _ => 5 } (.put 1 0 "a") .start (by decide)) (by decide)
  exact ⟨hbuild, hrun, punctual hbuild rfl hrun, by decide +kernel, by decide +kernel,
    by decide +kernel⟩

/-- A reclaiming layer that collects at every third operation, a window, and room for one key: the
second write flushes and succeeds, and the eviction that it makes brings the collection that takes
its own entry. -/
theorem flushing_write_is_reclaimed :
    let layers : List Layer := [.weak 1 3, .scheduled 1000, .lru 1]
    let l : Leasing Nat := { retention := .weak 3 0, signal := .silent, seen := 0, hardBound := 1 }
    let c : Chain Nat :=
      ⟨"users", 0, [.lru, .window, .leasing], (Recency.ofCapacity 1, ⟨1000, .system, 0⟩, l, ())⟩
    let g₁ : Ground Nat String :=
      Ground.note { issued := 2 } (.built "users" (Layer.describe layers))
    let first := c.cache.perform {} c.stack g₁ (.put 1 0 "a")
    let m : Moment := { time := fun _ => 1001 }
    let second := c.cache.perform m first.state first.ground (.put 2 1 "b")
    build "users" 0 .silent layers {} { issued := 2 } = (g₁, .ok c) ∧
      c.cache.Flushes (Stack.windows c.kinds) 0 m first.state first.ground (.put 2 1 "b") ∧
      second.answer = .written (.ok ()) ∧ second.ground.content 0 2 = none ∧
      ∀ x, (c.cache.get m 2 second.state second.ground).answer ≠ .done (.ok (some x)) := by
  intro layers l c g₁ first m second
  have hbuild : build "users" 0 .silent layers {} { issued := 2 } = (g₁, .ok c) := rfl
  have hflushes :
      c.cache.Flushes (Stack.windows c.kinds) 0 m first.state first.ground (.put 2 1 "b") :=
    ⟨by simp, ⟨1000, .system, 0⟩, by decide +kernel, by decide +kernel, by decide +kernel⟩
  have hok : (c.cache.put m 2 { item := ⟨1, .plain "b"⟩ } first.state first.ground).answer =
      .ok () := by decide +kernel
  have hgone : second.ground.content 0 2 = none := by decide +kernel
  refine ⟨hbuild, hflushes, congrArg Cache.Answer.written hok, hgone, fun x hx => ?_⟩
  obtain ⟨y, hy, -⟩ := (Stack.faithful c.id c.base c.kinds).get_some m 2 _ _ x hx
  rw [Stack.base_cache, hgone] at hy
  cases hy

end Chain

end LayeredCache
