import LayeredCache.Proofs.Transaction.Sharing

/-!
# Who holds the latches of a shared cache

The history of units of work that share a blocking cache tells which thread holds which latch, and
nothing is stored under a latched key: a miss leaves nothing there, and nobody writes a key without
opening its latch. As long as no commit has failed, the keys that a thread has missed are latched by
it. Every call keeps this, and so does what happens elsewhere.

## Main statements

* `Sharing.Tells` — the invariant above.
* `Sharing.Run.tells` — it is one of all runs.
-/

namespace LayeredCache.Sharing

variable {ι κ α σ τ : Type} [DecidableEq κ]

/-! ## What a step keeps -/

/-- The history tells who holds which latch, under a latch there is nothing, and units of work are
proper. As long as no commit has failed, the keys that a thread has missed are latched by it. -/
structure Tells (d : Cache κ α σ) (I : σ → Ground κ α → Prop) (past : List (Event κ α))
    (w : World ι κ α (Gate κ × σ) τ) : Prop where
  kept : I w.state.1.2 w.ground
  owner : ∀ k, w.state.1.1.owner? k = holder? k past
  absent : ∀ k, holder? k past ≠ none → w.ground.content d.base k = none
  proper : ∀ thread, UnitOfWork.Proper d.id (w.units thread).participants
  waits : ∀ thread id k gate, w.waits thread = some (id, k, gate) →
    ((w.units thread).participant? id).isSome = true ∧ (id = d.id → gate = 0)
  exclusive : (∀ e ∈ past, ¬e.Fails) → ∀ thread k, k ∈ (w.units thread).missed d.id →
    holder? k past = some thread

theorem latched_found {found : Found κ α} (hfound : found ≠ .ok none) (thread : String) (k k' : κ)
    (before : Option String) :
    Event.latched k' ⟨thread, .looked k (.done found)⟩ before =
      if k' = k then none else before := by
  rcases found with e | _ | x
  · rfl
  · exact absurd rfl hfound
  · rfl

section Steps

variable {d : Cache κ α σ} {I : σ → Ground κ α → Prop} {past : List (Event κ α)}
  {w w' : World ι κ α (Gate κ × σ) τ}

/-- A call leaves what the other threads have as it is. So it is enough to say what becomes of the
latches, of the cells, and of the thread that makes the call. -/
theorem Tells.step (K : Tells d I past w) {thread : String} {deed : Deed κ α}
    {u' : UnitOfWork (Option ι) κ α} {x : Option (String × κ × Nat)}
    (hunits : w'.units = Function.update w.units thread u')
    (hwaits : w'.waits = Function.update w.waits thread x)
    (hu' : UnitOfWork.Proper d.id u'.participants)
    (hx : ∀ id k gate, x = some (id, k, gate) →
      (u'.participant? id).isSome = true ∧ (id = d.id → gate = 0))
    (hkept : I w'.state.1.2 w'.ground)
    (howner : ∀ k, w'.state.1.1.owner? k = holder? k (⟨thread, deed⟩ :: past))
    (habsent : ∀ k, holder? k (⟨thread, deed⟩ :: past) ≠ none →
      w'.ground.content d.base k = none)
    (hthis : (∀ e ∈ past, ¬e.Fails) → ¬Event.Fails ⟨thread, deed⟩ →
      ∀ k, k ∈ u'.missed d.id → holder? k (⟨thread, deed⟩ :: past) = some thread)
    (hother : (∀ e ∈ past, ¬e.Fails) → ∀ k other, other ≠ thread →
      holder? k past = some other → holder? k (⟨thread, deed⟩ :: past) = some other) :
    Tells d I (⟨thread, deed⟩ :: past) w' where
  kept := hkept
  owner := howner
  absent := habsent
  proper := by
    intro other
    by_cases he : other = thread
    · rw [hunits, he, Function.update_self]
      exact hu'
    · rw [hunits, Function.update_of_ne he]
      exact K.proper other
  waits := by
    intro other id k gate
    by_cases he : other = thread
    · rw [hunits, hwaits, he, Function.update_self, Function.update_self]
      exact hx id k gate
    · rw [hunits, hwaits, Function.update_of_ne he, Function.update_of_ne he]
      exact K.waits other id k gate
  exclusive := by
    intro hfails other k hk
    have hbefore : ∀ e ∈ past, ¬e.Fails := fun e he => hfails e (List.mem_cons_of_mem _ he)
    by_cases he : other = thread
    · rw [hunits, he, Function.update_self] at hk
      rw [he]
      exact hthis hbefore (hfails _ List.mem_cons_self) k hk
    · rw [hunits, Function.update_of_ne he] at hk
      exact hother hbefore k other he (K.exclusive hbefore other k hk)

/-- A step that does not reach the shared cache and misses nothing there. -/
theorem Tells.aside (K : Tells d I past w) (hI : d.Upholds I) {thread : String} {deed : Deed κ α}
    {u' : UnitOfWork (Option ι) κ α} {x : Option (String × κ × Nat)}
    (hdeed : ∀ k before, Event.latched k ⟨thread, deed⟩ before = before)
    (hstate : w'.state.1 = w.state.1) (hstore : w'.ground.store d.base = w.ground.store d.base)
    (hunits : w'.units = Function.update w.units thread u')
    (hwaits : w'.waits = Function.update w.waits thread x)
    (hu' : UnitOfWork.Proper d.id u'.participants)
    (hmissed : ∀ k, k ∈ u'.missed d.id → k ∈ (w.units thread).missed d.id)
    (hx : ∀ id k gate, x = some (id, k, gate) →
      (u'.participant? id).isSome = true ∧ (id = d.id → gate = 0)) :
    Tells d I (⟨thread, deed⟩ :: past) w' := by
  have hholder : ∀ k, holder? k (⟨thread, deed⟩ :: past) = holder? k past :=
    fun k => hdeed k (holder? k past)
  have hkept : I w'.state.1.2 w'.ground := by
    rw [hstate]
    exact hI.elsewhere K.kept hstore
  refine K.step hunits hwaits hu' hx hkept ?_ ?_ ?_ ?_
  · intro k
    rw [hstate, hholder]
    exact K.owner k
  · intro k hk
    exact (Ground.content_congr hstore k).trans (K.absent k (hholder k ▸ hk))
  · intro hbefore _ k hk
    exact (hholder k).trans (K.exclusive hbefore thread k (hmissed k hk))
  · intro _ k other _ hk
    exact (hholder k).trans hk

section Lookups

variable {m : Moment} {k : κ} {u' : UnitOfWork (Option ι) κ α} {x : Option (String × κ × Nat)}
  {r : Reply κ α (Gate κ × σ) (Lookup κ α)}
  (hstate : w'.state.1 = r.state) (hground : w'.ground = r.ground)
  (hunits : w'.units = Function.update w.units m.thread u')
  (hwaits : w'.waits = Function.update w.waits m.thread x)
  (hx : ∀ id k gate, x = some (id, k, gate) →
    (u'.participant? id).isSome = true ∧ (id = d.id → gate = 0))
include hstate hground hunits hwaits hx

/-- A lookup that misses the key: the thread holds its latch from now on. -/
theorem Tells.missed (K : Tells d I past w)
    (hfree : ∀ thread, holder? k past = some thread → thread = m.thread)
    (hpassed : Gate.Passed d I m k w.state.1 w.ground r (.ok none))
    (hu' : UnitOfWork.Learned d.id (w.units m.thread) u' k True) :
    Tells d I (⟨m.thread, .looked k (.done (.ok none))⟩ :: past) w' := by
  have hholder : ∀ k', holder? k' (⟨m.thread, .looked k (.done (.ok none))⟩ :: past) =
      if k' = k then some m.thread else holder? k' past := fun _ => rfl
  obtain ⟨howner, habsent⟩ := hpassed.missed rfl
  have hkept : I w'.state.1.2 w'.ground := by
    rw [hstate, hground]
    exact hpassed.kept
  refine K.step hunits hwaits hu'.proper hx hkept ?_ ?_ ?_ ?_
  · intro k'
    rw [hstate, hholder]
    split
    · next he => rw [he, howner]
    · next he => rw [hpassed.other k' he, K.owner]
  · intro k' hk'
    rw [hground]
    rw [hholder] at hk'
    split at hk'
    · next he => rw [he, habsent]
    · exact hpassed.within.absent (K.absent k' hk')
  · intro hbefore _ k' hk'
    rw [hholder]
    split
    · rfl
    · next he =>
      have hk' := (hu'.missed_of_mem k' hk').resolve_right fun h => he h.1
      exact K.exclusive hbefore m.thread k' hk'
  · intro _ k' other hne hk'
    rw [hholder]
    split
    · next he =>
      -- The other thread would have kept this one waiting.
      exact absurd (hfree other (he ▸ hk')) hne
    · exact hk'

/-- A lookup that finds the key or fails: no thread held its latch, and none does now. -/
theorem Tells.found (K : Tells d I past w) {found : Found κ α} (hfound : found ≠ .ok none)
    (hpassed : Gate.Passed d I m k w.state.1 w.ground r found)
    (hu' : UnitOfWork.Learned d.id (w.units m.thread) u' k False) :
    Tells d I (⟨m.thread, .looked k (.done found)⟩ :: past) w' := by
  have hholder : ∀ k', holder? k' (⟨m.thread, .looked k (.done found)⟩ :: past) =
      if k' = k then none else holder? k' past :=
    fun k' => latched_found hfound m.thread k k' _
  obtain ⟨howner, hstored⟩ := hpassed.found hfound
  have hlatched : ∀ k' thread, holder? k' past = some thread → k' ≠ k := by
    rintro k' thread hthread rfl
    exact hstored (K.absent k' (by rw [hthread]; exact Option.some_ne_none thread))
  have hkept : I w'.state.1.2 w'.ground := by
    rw [hstate, hground]
    exact hpassed.kept
  refine K.step hunits hwaits hu'.proper hx hkept ?_ ?_ ?_ ?_
  · intro k'
    rw [hstate, hholder]
    split
    · next he => rw [he, howner]
    · next he => rw [hpassed.other k' he, K.owner]
  · intro k' hk'
    rw [hground]
    rw [hholder] at hk'
    split at hk'
    · exact absurd rfl hk'
    · exact hpassed.within.absent (K.absent k' hk')
  · intro hbefore _ k' hk'
    have hthread := K.exclusive hbefore m.thread k'
      ((hu'.missed_of_mem k' hk').resolve_right fun h => h.2)
    rw [hholder, if_neg (hlatched k' _ hthread), hthread]
  · intro _ k' other _ hk'
    rw [hholder, if_neg (hlatched k' _ hk'), hk']

/-- A lookup in the shared cache, be it the first try or a later one. -/
theorem Tells.looked {keep read : Content α → Except CodecError (Content α)}
    (K : Tells d I past w) (H : d.Thorough I) (hI : d.Upholds I) (hF : d.Faithful keep read)
    (hr : r = (Gate.onto d).get m k w.state.1 w.ground)
    (hu' : UnitOfWork.Learned d.id (w.units m.thread) u' k (r.answer = .done (.ok none))) :
    Tells d I (⟨m.thread, .looked k r.answer⟩ :: past) w' := by
  by_cases hother : ∃ thread, w.state.1.1.owner? k = some thread ∧ thread ≠ m.thread
  · -- Another thread holds the latch: the lookup waits and nothing changes.
    obtain ⟨thread, hthread, hne⟩ := hother
    obtain ⟨n, hget⟩ := Gate.get_waits (d := d) (g := w.ground) hthread hne
    rw [hget] at hr
    subst hr
    refine K.aside hI (fun _ _ => rfl) hstate (by rw [hground]) hunits hwaits hu'.proper ?_ hx
    intro k' hk'
    exact (hu'.missed_of_mem k' hk').resolve_right fun h => by cases h.2
  · have hfree : ∀ thread, w.state.1.1.owner? k = some thread → thread = m.thread :=
      fun thread hthread => by_contra fun hne => hother ⟨thread, hthread, hne⟩
    obtain ⟨found, hpassed⟩ := Gate.passed H hI hF K.kept hfree
    rw [← hr] at hpassed
    rw [hpassed.answer] at hu' ⊢
    by_cases hnone : found = .ok none
    · subst hnone
      exact K.missed hstate hground hunits hwaits hx (fun thread h => hfree thread
        ((K.owner k).trans h)) hpassed ⟨hu'.proper, fun k' hk' =>
          (hu'.missed_of_mem k' hk').imp_right fun h => ⟨h.1, trivial⟩⟩
    · refine K.found hstate hground hunits hwaits hx hnone hpassed ⟨hu'.proper, ?_⟩
      intro k' hk'
      refine (hu'.missed_of_mem k' hk').imp_right fun h => ⟨h.1, ?_⟩
      injection h.2 with hanswer
      exact hnone hanswer

end Lookups

/-- A commit or a rollback, which opens the latches of some keys. -/
theorem Tells.ended (K : Tells d I past w) {thread : String} {deed : Deed κ α} {keys : List κ}
    {u' : UnitOfWork (Option ι) κ α}
    (hdeed : ∀ k before, Event.latched k ⟨thread, deed⟩ before = if k ∈ keys then none else before)
    (hopened : Gate.Opened d I (· ∈ keys) w.state.1 w.ground w'.state.1 w'.ground)
    (hunits : w'.units = Function.update w.units thread u') (hwaits : w'.waits = w.waits)
    (hfree : w.waits thread = none) (hu' : UnitOfWork.Proper d.id u'.participants)
    (hkeys : ∀ k ∈ keys, k ∈ (w.units thread).missed d.id)
    (hdone : ¬Event.Fails ⟨thread, deed⟩ → ∀ k, k ∉ u'.missed d.id) :
    Tells d I (⟨thread, deed⟩ :: past) w' := by
  have hholder : ∀ k, holder? k (⟨thread, deed⟩ :: past) =
      if k ∈ keys then none else holder? k past := fun k => hdeed k (holder? k past)
  have hwaits' : w'.waits = Function.update w.waits thread none := by
    rw [hwaits, ← hfree, Function.update_eq_self]
  refine K.step hunits hwaits' hu' (fun _ _ _ h => by cases h) (hopened.kept K.kept) ?_ ?_ ?_ ?_
  · intro k
    rw [hholder]
    split
    · next hk => exact hopened.opened k hk
    · next hk => rw [hopened.other k hk, K.owner]
  · intro k hk
    rw [hholder] at hk
    split at hk
    · exact absurd rfl hk
    · next hk' => exact hopened.absent k hk' (K.absent k hk)
  · intro _ hfails k hk
    exact absurd hk (hdone hfails k)
  · intro hbefore k other hne hk
    rw [hholder]
    split
    · next hk' =>
      -- Two threads would have latched the key.
      have hthread := K.exclusive hbefore thread k (hkeys k hk')
      rw [hk] at hthread
      injection hthread with hthread
      exact absurd hthread hne
    · exact hk

end Steps

/-! ## Runs -/

section Runs

variable {d : Cache κ α σ} {I : σ → Ground κ α → Prop}
  {keep read : Content α → Except CodecError (Content α)} {others : ι → Cache κ α τ}
  {past : List (Event κ α)} {w w' : World ι κ α (Gate κ × σ) τ}

open UnitOfWork (among)

/-- The calls through a participant of the shared cache open latches, those of the others do not. -/
theorem opens_among (hI : d.Upholds I) (hF : d.Faithful keep read)
    (hothers : ∀ i, (others i).id ≠ d.id ∧ (others i).Avoids d.base)
    {ps : List (Participant (Option ι) κ α)} (h : UnitOfWork.Proper d.id ps)
    {p : Participant (Option ι) κ α} (hp : p ∈ ps) :
    (among (Gate.onto d) others p.cache).Opens d I (p.id = d.id) := by
  have hown := h.own p hp
  cases hcache : p.cache with
  | none =>
    rw [eq_true (hown.mp hcache)]
    exact Gate.opens hI hF
  | some i =>
    have hne : ¬p.id = d.id := fun he => by
      rw [hown.mpr he] at hcache
      cases hcache
    rw [eq_false hne]
    exact (hothers i).2.opens hI

theorem id_among (hothers : ∀ i, (others i).id ≠ d.id ∧ (others i).Avoids d.base)
    (cache : Option ι) :
    cache = none ↔ (among (Gate.onto d) others cache).id = d.id := by
  cases cache with
  | none => exact iff_of_true rfl rfl
  | some i => exact iff_of_false (by simp) (hothers i).1

/-- A thread that waits has a participant to go on with. -/
theorem waits_settle {u : UnitOfWork (Option ι) κ α} {p : Participant (Option ι) κ α}
    (hp : p ∈ u.participants) {k : κ} {q : Reply κ α ((Gate κ × σ) × τ) (Lookup κ α)}
    {id : String} (hgate : ∀ gate n, q.answer = .waiting gate n → p.id = id → gate = 0)
    (id' : String) (k' : κ) (gate : Nat)
    (h : (match (p.buffer.settle k q).answer with
      | .done _ => none
      | .waiting gate _ => some (p.id, k, gate)) = some (id', k', gate)) :
    ((u.modify p.id fun _ => (p.buffer.settle k q).state.1).participant? id').isSome = true ∧
      (id' = id → gate = 0) := by
  obtain ⟨-, -, -, -, hanswer⟩ := p.buffer.settle_spec k q
  split at h
  · cases h
  · next gate' n hwaits =>
    cases h
    refine ⟨?_, fun he => hgate gate n ((hanswer gate n).mp hwaits) he⟩
    rw [UnitOfWork.participant?_modify, UnitOfWork.participant?, List.find?_isSome]
    exact ⟨p, hp, decide_eq_true rfl⟩

/-- A lookup through the participant of the shared cache. -/
theorem Tells.answered (K : Tells d I past w) (H : d.Thorough I) (hI : d.Upholds I)
    (hF : d.Faithful keep read) (m : Moment) (k : κ) {u : UnitOfWork (Option ι) κ α}
    (hu : UnitOfWork.Proper d.id u.participants)
    (hmissed : u.missed d.id = (w.units m.thread).missed d.id)
    {p : Participant (Option ι) κ α} (hp : p ∈ u.participants) (hid : p.id = d.id) :
    let q := (Gate.onto d).left.get m k w.state w.ground
    Tells d I (⟨m.thread, .looked k q.answer⟩ :: past)
      (w.answered m.thread d.id k
        ⟨(u.modify d.id fun _ => (p.buffer.settle k q).state.1, q.state), q.ground,
          (p.buffer.settle k q).answer⟩) := by
  intro q
  have hlearned := hu.learned hp hid q (k := k)
  refine K.looked rfl rfl rfl rfl ?_ H hI hF rfl ⟨hlearned.proper, ?_⟩
  · rw [← hid]
    exact waits_settle hp fun gate n hwaits _ => Gate.gate_eq_zero H hwaits
  · intro k' hk'
    have hk := hlearned.missed_of_mem k' hk'
    rw [hmissed] at hk
    exact hk.imp_right fun h => ⟨h.1, h.2.2⟩

/-- A lookup through the participant of another cache, or one that has given up. -/
theorem Tells.answered_aside (K : Tells d I past w) (hI : d.Upholds I) {thread : String}
    {deed : Deed κ α} (hdeed : ∀ k before, Event.latched k ⟨thread, deed⟩ before = before) (k : κ)
    {u : UnitOfWork (Option ι) κ α} (hu : UnitOfWork.Proper d.id u.participants)
    (hmissed : u.missed d.id = (w.units thread).missed d.id)
    {p : Participant (Option ι) κ α} (hp : p ∈ u.participants)
    {q : Reply κ α ((Gate κ × σ) × τ) (Lookup κ α)} (hstate : q.state.1 = w.state.1)
    (hstore : q.ground.store d.base = w.ground.store d.base)
    (hanswer : p.id = d.id → ∃ e, q.answer = .done (.error e)) :
    Tells d I (⟨thread, deed⟩ :: past)
      (w.answered thread p.id k
        ⟨(u.modify p.id fun _ => (p.buffer.settle k q).state.1, q.state), q.ground,
          (p.buffer.settle k q).answer⟩) := by
  have hlearned := hu.learned hp rfl q (k := k)
  refine K.aside hI hdeed hstate hstore rfl rfl hlearned.proper ?_ ?_
  · intro k' hk'
    rw [← hmissed]
    refine (hlearned.missed_of_mem k' hk').resolve_right ?_
    intro h
    obtain ⟨e, he⟩ := hanswer h.2.1
    rw [he] at h
    cases h.2.2
  · apply waits_settle hp
    intro gate n hwaits hid
    obtain ⟨e, he⟩ := hanswer hid
    rw [he] at hwaits
    cases hwaits

/-- Every call keeps what the history tells. -/
theorem Tells.perform (K : Tells d I past w) (H : d.Thorough I) (hI : d.Upholds I)
    (hF : d.Faithful keep read) (hothers : ∀ i, (others i).id ≠ d.id ∧ (others i).Avoids d.base)
    (m : Moment) {a : Call ι κ α} (ha : a.IsFair d.id m.thread w) :
    Tells d I ((a.perform (Gate.onto d) others m w).1 :: past)
      (a.perform (Gate.onto d) others m w).2 := by
  have hproper := K.proper m.thread
  cases a with
  | get cache k =>
    have hcache := id_among (d := d) hothers cache
    have hjoined := hproper.join hcache
    have hmissed := UnitOfWork.missed_join (w.units m.thread) cache d.id
      (among (Gate.onto d) others cache).id
    obtain ⟨p, hp, hid, hget⟩ := UnitOfWork.get_eq (among (Gate.onto d) others) m
      (w.units m.thread) cache (among (Gate.onto d) others cache).id k w.state w.ground
    have hown := hjoined.own p hp
    simp only [Call.perform, hget]
    cases cache with
    | none =>
      rw [hown.mpr hid]
      exact K.answered H hI hF m k hjoined hmissed hp hid
    | some i =>
      have hne : p.id ≠ d.id := hid ▸ (hothers i).1
      cases hpc : p.cache with
      | none => exact absurd (hown.mp hpc) hne
      | some j =>
        rw [← hid] at hp hjoined hmissed ⊢
        exact K.answered_aside hI (fun _ _ => rfl) k hjoined hmissed hp rfl
          ((hothers j).2.get m k _ _) fun he => absurd he hne
  | resume wake =>
    cases hwaits : w.waits m.thread with
    | none => exact absurd hwaits ha
    | some wait =>
      obtain ⟨id, k, gate⟩ := wait
      obtain ⟨hjoined, hgate⟩ := K.waits m.thread id k gate hwaits
      obtain ⟨p, hp, rfl, hresume⟩ := UnitOfWork.resume_eq (among (Gate.onto d) others) m hjoined k
        gate wake w.state w.ground
      have hown := hproper.own p hp
      simp only [Call.perform, hwaits, hresume]
      cases hpc : p.cache with
      | none =>
        have hid := hown.mp hpc
        obtain rfl := hgate hid
        rw [if_pos (show p.id = (Gate.onto d).id from hid)]
        cases wake with
        | opened =>
          rw [hid]
          exact K.answered H hI hF m k hproper rfl hp hid
        | expired =>
          obtain ⟨hstate, hstore, hfails⟩ := Gate.giveUp_fails d k w.state.1 w.ground
          exact K.answered_aside hI (fun _ _ => rfl) k hproper rfl hp hstate (hstore d.base)
            fun _ => hfails
      | some j =>
        have hne : p.id ≠ d.id := fun he => by
          rw [hown.mpr he] at hpc
          cases hpc
        rw [if_neg (show p.id ≠ (Gate.onto d).id from hne)]
        exact K.answered_aside hI (fun _ _ => rfl) k hproper rfl hp rfl
          ((hothers j).2.resume m k gate wake _ _) fun he => absurd he hne
  | put cache k item =>
    have hcache := id_among (d := d) hothers cache
    have hk : (among (Gate.onto d) others cache).id = d.id →
        w.waits m.thread = none ∧ k ∈ (w.units m.thread).missed d.id := by
      intro hid
      obtain rfl := hcache.mpr hid
      exact ha
    have hfree : w.waits m.thread = none := by cases cache <;> [exact ha.1; exact ha]
    exact K.aside hI (fun _ _ => rfl) rfl rfl rfl (x := none)
      (by rw [← hfree, Function.update_eq_self]; rfl) (hproper.put hcache fun hid => (hk hid).2)
      (fun k' => (UnitOfWork.missed_put _ cache item).mp) fun _ _ _ h => by cases h
  | clear cache =>
    have hcache := id_among (d := d) hothers cache
    have hfree : w.waits m.thread = none := ha
    exact K.aside hI (fun _ _ => rfl) rfl rfl rfl (x := none)
      (by rw [← hfree, Function.update_eq_self]; rfl) (hproper.clear hcache)
      (fun k' => (UnitOfWork.missed_clear _ cache).mp) fun _ _ _ h => by cases h
  | commit =>
    obtain ⟨hopened, hsuffix, hdone⟩ := UnitOfWork.opened_commitAll hI m
      (w.units m.thread).participants (fun p hp => opens_among hI hF hothers hproper hp) w.state
      w.ground
    refine K.ended (fun _ _ => rfl) hopened rfl rfl ha (hproper.suffix hsuffix) ?_ ?_
    · intro k hk
      exact UnitOfWork.mem_missedAll_of_touchedAll hproper.written hk
    · intro hfails k hk
      cases hanswer : (UnitOfWork.commitAll (among (Gate.onto d) others) m
          (w.units m.thread).participants w.state w.ground).answer with
      | error e => exact hfails ⟨e, _, congrArg (Deed.committed · _) hanswer⟩
      | ok _ =>
        have hnone : k ∈ UnitOfWork.missedAll d.id
            (UnitOfWork.commitAll (among (Gate.onto d) others) m (w.units m.thread).participants
              w.state w.ground).state.1 := hk
        rw [hdone hanswer] at hnone
        cases hnone
  | rollback =>
    have hopened := UnitOfWork.opened_rollbackAll hI m (w.units m.thread).participants
      (fun p hp => opens_among hI hF hothers hproper hp) w.state w.ground
    exact K.ended (fun _ _ => rfl) hopened rfl rfl ha (UnitOfWork.Proper.nil d.id)
      (fun _ hk => hk) fun _ k hk => by cases hk

theorem Tells.elsewhere (K : Tells d I past w) (hI : d.Upholds I) (h : Elsewhere d.base w w') :
    Tells d I past w' where
  kept := by rw [h.state]; exact hI.elsewhere K.kept h.store
  owner := h.state ▸ K.owner
  absent k hk := (Ground.content_congr h.store k).trans (K.absent k hk)
  proper := h.units ▸ K.proper
  waits := h.units ▸ h.waits ▸ K.waits
  exclusive := h.units ▸ K.exclusive

theorem Run.tells {w₀ : World ι κ α (Gate κ × σ) τ} (H : d.Thorough I) (hI : d.Upholds I)
    (hF : d.Faithful keep read) (hothers : ∀ i, (others i).id ≠ d.id ∧ (others i).Avoids d.base)
    (h₀ : Tells d I [] w₀) (hrun : Run (Gate.onto d) others w₀ past w) : Tells d I past w := by
  induction hrun with
  | start => exact h₀
  | call m a _ ha ih => exact ih.perform H hI hF hothers m ha
  | elsewhere w' _ h ih => exact ih.elsewhere hI h

/-! ## What an event says of the world before it -/

theorem thread_perform (c : Cache κ α σ) (others : ι → Cache κ α τ) (m : Moment)
    (w : World ι κ α σ τ) (a : Call ι κ α) : (a.perform c others m w).1.thread = m.thread := by
  cases a with
  | resume wake =>
    simp only [Call.perform]
    split <;> rfl
  | _ => rfl

/-- A lookup of the history is one that the shared cache has answered. -/
theorem Tells.answer_of_looked (K : Tells d I past w) {m : Moment} {a : Call ι κ α} {k : κ}
    {answer : Lookup κ α}
    (h : (a.perform (Gate.onto d) others m w).1.deed = .looked k answer) :
    ((Gate.onto d).get m k w.state.1 w.ground).answer = answer := by
  cases a with
  | get cache k' =>
    cases cache with
    | none =>
      injection h with hk hanswer
      exact hk ▸ hanswer
    | some i => cases h
  | resume wake =>
    cases hwaits : w.waits m.thread with
    | none => simp [Call.perform, hwaits] at h
    | some wait =>
      obtain ⟨id, k', gate⟩ := wait
      simp only [Call.perform, hwaits] at h
      split at h
      · next hid =>
        obtain rfl := (K.waits m.thread id k' gate hwaits).2 hid
        cases wake with
        | opened =>
          injection h with hk hanswer
          exact hk ▸ hanswer
        | expired => cases h
      · cases h
  | put cache k' item => cases h
  | clear cache => cases h
  | commit => cases h
  | rollback => cases h

/-- A lookup of a latched key that comes to an end is one by the holder, and a miss. -/
theorem Tells.done_of_holder (K : Tells d I past w) (H : d.Thorough I) (hI : d.Upholds I)
    (hF : d.Faithful keep read) {m : Moment} {k : κ} {found : Found κ α}
    (h : ((Gate.onto d).get m k w.state.1 w.ground).answer = .done found) {thread : String}
    (hholder : holder? k past = some thread) : thread = m.thread ∧ found = .ok none := by
  have howner := (K.owner k).trans hholder
  have hthread : thread = m.thread := by
    by_contra hne
    obtain ⟨n, hget⟩ := Gate.get_waits (d := d) (g := w.ground) howner hne
    rw [hget] at h
    cases h
  refine ⟨hthread, ?_⟩
  have hfree : ∀ thread', w.state.1.1.owner? k = some thread' → thread' = m.thread := by
    intro thread' h'
    rw [howner] at h'
    injection h' with h'
    exact h' ▸ hthread
  obtain ⟨found', hpassed⟩ := Gate.passed H hI hF K.kept hfree
  rw [hpassed.answer] at h
  injection h with h
  subst h
  by_contra hne
  exact (hpassed.found hne).2 (K.absent k (by rw [hholder]; exact Option.some_ne_none thread))

/-- A thread opens the latches of keys that it has missed. -/
theorem Tells.missed_of_opens (K : Tells d I past w) {m : Moment} {a : Call ι κ α} {k : κ}
    (h : k ∈ (a.perform (Gate.onto d) others m w).1.opens) :
    k ∈ (w.units m.thread).missed d.id := by
  cases a with
  | commit => exact UnitOfWork.mem_missedAll_of_touchedAll (K.proper m.thread).written h
  | rollback => exact h
  | get cache k' => cases cache <;> cases h
  | resume wake =>
    simp only [Call.perform] at h
    split at h
    · cases h
    · simp only [Event.opens] at h
      split at h
      · next heq => split at heq <;> [split at heq; skip] <;> cases heq
      · next heq => split at heq <;> [split at heq; skip] <;> cases heq
      · cases h
  | put cache k' item => cases h
  | clear cache => cases h

end Runs

end LayeredCache.Sharing
