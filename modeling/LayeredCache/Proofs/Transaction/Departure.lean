import LayeredCache.Chain
import LayeredCache.Proofs.Layer.Modesty
import LayeredCache.Proofs.Transaction.Family
import LayeredCache.Session.Sample

/-!
# Units of work leave no latch behind

A thread has a unit of work over any number of chains, with layers in any order, blocking ones among
them at any place. Its calls are made step by step, and between any two steps other threads take
steps of their own operations on the chains. A lookup that finds nothing leaves the thread with the
latches of its key, and the unit of work remembers the key as missed; all other latches that the
calls of the unit of work take they give back. A commit writes or removes every missed key and a
rollback releases it, so a thread that held no latch before its unit of work holds none after a
commit that succeeds or a rollback, whatever commits have failed in between.

## Main definitions

* `UnitOfWork.reading`, `UnitOfWork.committing`, `UnitOfWork.releasing` — the calls of a unit of
  work, step by step.
* `Departure.Meddles` — what other threads may do between two steps.
* `Departure.Run` — the runs of a unit of work.

## Main statements

* `Departure.Run.holds_missed` — the thread holds latches of missed keys alone.
* `Departure.Run.leaves_no_latch` — it holds none after a commit or a rollback.
-/

namespace LayeredCache

variable {ι κ α ρ : Type} [DecidableEq ι] [DecidableEq κ] [Codec α]

/-! ## Calls, step by step -/

namespace UnitOfWork

/-- The states of the layers of several chains. -/
abbrev States (c : ι → Chain κ) := (i : ι) → Stack κ (c i).kinds

/-- What a thread does to several chains. -/
abbrev Steps (α : Type) (c : ι → Chain κ) (ρ : Type) :=
  Process (States c × Ground κ α) (ι × Nat) Nat ρ

/-- Reads through the participant with the identifier of a chain. -/
def reading (c : ι → Chain κ) (u : UnitOfWork ι κ α) (i : ι) (k : κ) :
    Steps α c (UnitOfWork ι κ α × Found κ α) :=
  let u := u.join i (c i).id
  match u.participant? (c i).id with
  | none => return (u, .ok none)
  | some p => do
    match ← Routine.member p.cache ((c p.cache).routines.get k) with
    | .error e => return (u, .error e)
    | .ok found =>
      return (u.modify (c i).id fun b => (b.learn k found).1, .ok (p.buffer.learn k found).2)

/-- Commits participants in order up to the first that fails; those that are left are answered. -/
def committing (c : ι → Chain κ) :
    List (Participant ι κ α) → Steps α c (List (Participant ι κ α) × Written κ)
  | [] => return ([], .ok ())
  | p :: rest => do
    match ← Routine.member p.cache (p.buffer.committing (c p.cache).routines) with
    | .error e =>
      .alter fun _ t => (t.1, t.2.note (.commitFailed p.id e))
      return (p :: rest, .error e)
    | .ok _ => committing c rest

/-- Rolls participants back in order. -/
def releasing (c : ι → Chain κ) : List (Participant ι κ α) → Steps α c Unit
  | [] => return ()
  | p :: rest => do
    Routine.member p.cache (p.buffer.releasing (c p.cache).routines)
    releasing c rest

/-! What a call comes to at one moment is one of the ways in which its steps may come to an end. -/

variable (c : ι → Chain κ) (others : States c × Ground κ α → States c × Ground κ α → Prop)
  (m : Moment)

theorem ends_reading {u : UnitOfWork ι κ α} (hids : (u.participants.map (·.id)).Nodup) (i : ι)
    (k : κ) (s : States c) (g : Ground κ α) {found : Found κ α} :
    let r := u.get (Cache.member fun i => (c i).cache) m i (c i).id k s g
    r.answer = .done found →
      (reading c u i k).Ends others m.thread (s, g) (r.state.1, found) (r.state.2, r.ground) := by
  obtain ⟨p, hp, hid, hfind⟩ := exists_participant_join u i (c i).id
  have hjoined := nodup_join hids i (c i).id
  have hrun := (c p.cache).routines_follow.get m k (s p.cache) g
  have hends {found : Found κ α} (hanswer : ((c p.cache).cache.get m k (s p.cache) g).answer =
      .done found) :=
    Process.ends_of_run others
      ((Routine.run_member (σ := fun i => Stack κ (c i).kinds) m p.cache
        ((c p.cache).routines.get k) s g).trans (congrArg (Option.map _)
          (hrun.trans (by rw [Reply.finished?, hanswer]))))
  simp only [UnitOfWork.get, reading, hfind, Buffer.get, Cache.get_member, Reply.member]
  rw [← hid]
  rw [← hid] at hp hjoined
  cases hanswer : ((c p.cache).cache.get m k (s p.cache) g).answer with
  | waiting gate n => simp [Buffer.settle]
  | done found' =>
    cases found' with
    | error e =>
      simp only [Buffer.settle, Lookup.done.injEq]
      rintro rfl
      rw [modify_congr hjoined hp (fun b => b) rfl, modify_id]
      exact (hends hanswer).trans ⟨rfl, .refl⟩
    | ok found' =>
      simp only [Buffer.settle, Lookup.done.injEq]
      rintro rfl
      rw [modify_congr hjoined hp (fun b => (b.learn k found').1) rfl]
      exact (hends hanswer).trans ⟨rfl, .refl⟩

theorem ends_committing (ps : List (Participant ι κ α)) (s : States c) (g : Ground κ α) :
    let r := commitAll (Cache.member fun i => (c i).cache) m ps s g
    (committing c ps).Ends others m.thread (s, g) (r.state.1, r.answer) (r.state.2, r.ground) := by
  induction ps generalizing s g with
  | nil => exact ⟨rfl, .refl⟩
  | cons p rest ih =>
    -- Each participant is committed at a moment at which it holds what it writes.
    let mp := m.holding (rest.flatMap (·.buffer.serials))
    have hrun := Buffer.run_committing (c p.cache).routines_follow mp p.buffer (s p.cache) g
    have hfirst := Process.ends_of_run others
      ((Routine.run_member (σ := fun i => Stack κ (c i).kinds) (mp.holding p.buffer.serials)
        p.cache (p.buffer.committing (c p.cache).routines) s g).trans
        (congrArg (Option.map _) hrun))
    have hbuffer := Buffer.buffer_commit (c p.cache).cache mp p.buffer (s p.cache) g
    simp only [commitAll, Buffer.commit_member]
    cases hanswer : (p.buffer.commit (c p.cache).cache mp (s p.cache) g).answer with
    | error e =>
      rw [hanswer] at hbuffer hfirst
      rw [hbuffer]
      exact hfirst.trans ⟨m, _, rfl, .refl, rfl, .refl⟩
    | ok _ =>
      rw [hanswer] at hfirst
      exact hfirst.trans (ih _ _)

theorem ends_releasing (ps : List (Participant ι κ α)) (s : States c) (g : Ground κ α) :
    let r := rollbackAll (Cache.member fun i => (c i).cache) m ps s g
    (releasing c ps).Ends others m.thread (s, g) () r := by
  induction ps generalizing s g with
  | nil => exact ⟨rfl, .refl⟩
  | cons p rest ih =>
    have hrun := Buffer.run_releasing (c p.cache).routines_follow m p.buffer (s p.cache) g
    have hfirst := Process.ends_of_run others
      ((Routine.run_member (σ := fun i => Stack κ (c i).kinds) m p.cache
        (p.buffer.releasing (c p.cache).routines) s g).trans (congrArg (Option.map _) hrun))
    simp only [rollbackAll, Buffer.rollback_member]
    exact hfirst.trans (ih _ _)

end UnitOfWork

/-! ## One buffer -/

namespace Routines.Yields

variable {σ : Type} {o : Holders Nat κ σ} {thread : String} {d : Routines κ α σ}

omit [DecidableEq κ] [Codec α] in
theorem writing (h : d.Yields o thread) (writes : List (κ × Item α)) (q : Nat → κ → Prop) :
    Confines o thread q (Buffer.writing d writes) fun a i k =>
      q i k ∧ (a = .ok () → ∀ w ∈ writes, w.1 ≠ k) := by
  induction writes generalizing q with
  | nil => exact .done fun _ _ hq => ⟨hq, fun _ => nofun⟩
  | cons w rest ih =>
    refine (h.put w.1 _ q).bind ?_
    rintro (e | _)
    · exact .done fun _ _ hq => ⟨hq.1, nofun⟩
    · refine (ih _).mono fun _ _ k hk => ⟨hk.1.1, fun hok => ?_⟩
      rw [List.forall_mem_cons]
      exact ⟨(hk.1.2 rfl).symm, hk.2 hok⟩

omit [Codec α] in
/-- A commit that succeeds gives back the latches of all missed keys: it has written or removed
them. -/
theorem committing (h : d.Yields o thread) (b : Buffer κ α) (q : Nat → κ → Prop) :
    Confines o thread q (b.committing d) fun a i k => q i k ∧ (a = .ok () → k ∉ b.misses) := by
  have happlying : ∀ written : Written κ, Confines o thread
      (fun i k => q i k ∧ (written = .ok () → ∀ w ∈ b.writes, w.1 ≠ k))
      (do match written with
          | .error e => return .error e
          | .ok _ =>
            Routine.forEach d.remove b.unwritten
            Routine.note (.committed d.id b.pending b.misses.length b.clearing)
            return .ok () : Routine κ α σ (Written κ))
      fun a i k => q i k ∧ (a = .ok () → k ∉ b.misses) := by
    rintro (e | _)
    · exact .done fun _ _ hq => ⟨hq.1, nofun⟩
    · refine (h.removing b.unwritten _).bind fun _ => Confines.note.bind fun _ => ?_
      refine .done fun i k hk => ⟨hk.1.1, fun _ hmissed => hk.2 ?_⟩
      -- A missed key was written before, or it is removed now.
      have hunwritten : b.writesTo k = false := by
        rw [Buffer.writesTo, List.any_eq_false]
        exact fun w hw => by simpa using hk.1.2 rfl w hw
      exact List.mem_filter.mpr ⟨hmissed, by simp [hunwritten]⟩
  unfold Buffer.committing
  dsimp only
  split
  · exact (h.clear q).bind fun _ => (h.writing b.writes q).bind happlying
  · exact (h.writing b.writes q).bind happlying

end Routines.Yields

theorem Chain.yields (c : Chain κ) (thread : String) :
    (c.routines : Routines κ α _).Yields (Stack.holder? c.kinds) thread :=
  Stack.yields thread c.id c.base c.kinds

theorem Chain.isModest (c : Chain κ) :
    (c.routines : Routines κ α _).IsModest (Stack.holder? c.kinds) :=
  Stack.isModest c.id c.base c.kinds

/-! ## Several chains -/

namespace UnitOfWork

variable {c : ι → Chain κ} {thread : String} {q : ι × Nat → κ → Prop}

/-- The threads that hold latches in several chains: a layer is a chain with the number of layers
outside it. -/
def holder? (c : ι → Chain κ) : Holders (ι × Nat) κ (States c) :=
  fun s l => Stack.holder? (c l.1).kinds (s l.1) l.2

/-- Participants have missed the key in a chain. -/
def Missed (ps : List (Participant ι κ α)) (i : ι) (k : κ) : Prop :=
  ∃ p ∈ ps, p.cache = i ∧ k ∈ p.buffer.misses

omit [Codec α] in
/-- What is done to one chain leaves the latches in the others as they are but for what other
threads do. -/
theorem confines_member {i : ι} {p : Routine κ α (Stack κ (c i).kinds) ρ}
    {r : ρ → Nat → κ → Prop}
    (h : Confines (Stack.holder? (c i).kinds) thread (fun n => q (i, n)) p r) :
    Confines (holder? c) thread q (Routine.member (σ := fun i => Stack κ (c i).kinds) i p)
      fun a l k => if l.1 = i then r a l.2 k else q l k := by
  intro t a t' ht hends
  let Keeps (t t' : States c × Ground κ α) : Prop :=
    ∀ l, l.1 ≠ i → ∀ k, holder? c t'.1 l k = some thread → holder? c t.1 l k = some thread
  have hpart (t t' : States c × Ground κ α) (hs : Spares (holder? c) thread t t') :
      Spares (Stack.holder? (c i).kinds) thread (t.1 i, t.2) (t'.1 i, t'.2) := fun n => hs (i, n)
  have hput (u : Stack κ (c i).kinds × Ground κ α) (t : States c × Ground κ α) :
      Keeps t (Function.update t.1 i u.1, u.2) := by
    intro l hl k hk
    simpa only [holder?, Function.update_of_ne hl] using hk
  obtain ⟨hown, hkeeps⟩ : _ ∧ Keeps t t' :=
    Process.Ends.within (fun t => (t.1 i, t.2)) (fun u t => (Function.update t.1 i u.1, u.2)) Keeps
      (fun _ _ => by simp) hpart (fun _ _ _ _ hk => hk)
      (fun _ _ _ h₁ h₂ l hl k hk => h₁ l hl k (h₂ l hl k hk)) (fun _ _ hs l _ => hs l) hput hends
  rintro ⟨j, n⟩ k hk
  dsimp only
  split
  · next he =>
    subst he
    exact h (t.1 j, t.2) a (t'.1 j, t'.2) (fun n => ht (j, n)) hown n k hk
  · next hne => exact ht (j, n) k (hkeeps (j, n) hne k hk)

namespace Missed

omit [DecidableEq ι] [DecidableEq κ] [Codec α]

variable {u : UnitOfWork ι κ α} {i : ι} {k : κ}

/-- Letting a chain take part. -/
theorem join (h : Missed u.participants i k) (cache : ι) (id : String) :
    Missed (u.join cache id).participants i k := by
  obtain ⟨p, hp, hk⟩ := h
  refine ⟨p, ?_, hk⟩
  unfold UnitOfWork.join
  split
  · exact hp
  · exact List.mem_append_left _ hp

/-- A key that a later participant has missed. -/
theorem of_cons {p : Participant ι κ α} {ps : List (Participant ι κ α)}
    (h : Missed (p :: ps) i k) (hp : p.cache = i → k ∉ p.buffer.misses) : Missed ps i k := by
  obtain ⟨p', hp', hcache, hk⟩ := h
  rcases List.mem_cons.mp hp' with rfl | hp'
  · exact absurd hk (hp hcache)
  · exact ⟨p', hp', hcache, hk⟩

/-- What was missed stays missed when a buffer changes and keeps its missed keys. -/
theorem modify (h : Missed u.participants i k) (id : String) {f : Buffer κ α → Buffer κ α}
    (hf : ∀ b, k ∈ b.misses → k ∈ (f b).misses) : Missed (u.modify id f).participants i k := by
  obtain ⟨p, hp, hcache, hk⟩ := h
  refine ⟨_, mem_modify.mpr ⟨p, hp, rfl⟩, ?_⟩
  split
  · exact ⟨hcache, hf _ hk⟩
  · exact ⟨hcache, hk⟩

variable [DecidableEq κ]

/-- What was missed stays missed when something is learned. -/
theorem learn (h : Missed u.participants i k) (id : String) (k' : κ) (found : Option (Cell α)) :
    Missed (u.modify id fun b => (b.learn k' found).1).participants i k :=
  h.modify id fun b hk => by cases found <;> simp [Buffer.learn, hk]

/-- Learning that nothing was found. -/
theorem of_learn {p : Participant ι κ α} (hp : p ∈ u.participants) (hcache : p.cache = i) :
    Missed (u.modify p.id fun b => (b.learn k none).1).participants i k :=
  ⟨_, mem_modify.mpr ⟨p, hp, rfl⟩, by simp [hcache, Buffer.learn]⟩

end Missed

/-- A lookup gives the thread latches of a key that it remembers as missed. -/
theorem confines_reading (u : UnitOfWork ι κ α) (i : ι) (k : κ) :
    Confines (holder? c) thread (fun l => Missed u.participants l.1) (reading c u i k)
      fun a l => Missed a.1.participants l.1 := by
  obtain ⟨p, hp, hid, hfind⟩ := exists_participant_join u i (c i).id
  unfold reading
  simp only [hfind]
  rw [← hid] at hp ⊢
  refine (confines_member (((c p.cache).yields thread).get k _)).bind ?_
  rintro (e | found)
  · refine .done fun l k' hk' => ?_
    split at hk'
    · next hcache =>
      rw [← hcache] at hk'
      exact (hk'.resolve_right fun hmiss => nomatch hmiss.1).join i p.id
    · exact hk'.join i p.id
  · refine .done fun l k' hk' => ?_
    split at hk'
    · next hcache =>
      rw [← hcache] at hk'
      rcases hk' with hk' | ⟨hnone, rfl⟩
      · exact (hk'.join i p.id).learn p.id k found
      · cases hnone
        exact .of_learn hp hcache.symm
    · exact (hk'.join i p.id).learn p.id k found

/-- A commit that succeeds gives back the latches of all missed keys. -/
theorem confines_committing (ps : List (Participant ι κ α)) :
    Confines (holder? c) thread (fun l => Missed ps l.1) (committing c ps) fun a l k =>
      Missed a.1 l.1 k ∧ a.2 ≠ .ok () := by
  induction ps with
  | nil => exact .done fun _ _ ⟨_, hp, _⟩ => nomatch hp
  | cons p rest ih =>
    refine (confines_member (((c p.cache).yields thread).committing p.buffer _)).bind ?_
    rintro (e | _)
    · refine Confines.bind (.still (f := fun _ t => ((), t.1, t.2.note (.commitFailed p.id e)))
        fun _ _ => rfl) fun _ => .done fun l k hk => ⟨?_, nofun⟩
      split at hk
      · next he => exact he ▸ hk.1
      · exact hk
    · refine ih.of_imp fun l k hk => ?_
      split at hk
      · next he => exact (he ▸ hk.1).of_cons fun _ => hk.2 rfl
      · next hne => exact hk.of_cons fun he => absurd he.symm hne

/-- A rollback gives back the latches of all missed keys. -/
theorem confines_releasing (ps : List (Participant ι κ α)) :
    Confines (holder? c) thread (fun l => Missed ps l.1) (releasing c ps) fun _ _ _ => False := by
  induction ps with
  | nil => exact .done fun _ _ ⟨_, hp, _⟩ => nomatch hp
  | cons p rest ih =>
    refine (confines_member (((c p.cache).yields thread).releasing p.buffer.misses _)).bind fun _ =>
      ih.of_imp fun l k hk => ?_
    split at hk
    · next he => exact (he ▸ hk.1).of_cons fun _ => hk.2
    · next hne => exact hk.of_cons fun he => absurd he.symm hne

end UnitOfWork

/-! ## Runs -/

namespace Departure

open UnitOfWork

/-- A step that an operation of a chain may come to. -/
inductive MayStep (c : Chain κ) (m : Moment) (t t' : Stack κ c.kinds × Ground κ α) : Prop where
  | put (k : κ) (x : Cell α) : (c.routines.put k x).MayStep m t t' → MayStep c m t t'
  | get (k : κ) : (c.routines.get k).MayStep m t t' → MayStep c m t t'
  | remove (k : κ) : (c.routines.remove k).MayStep m t t' → MayStep c m t t'
  | clear : c.routines.clear.MayStep m t t' → MayStep c m t t'
  | size : c.routines.size.MayStep m t t' → MayStep c m t t'
  | release (k : κ) : (c.routines.release k).MayStep m t t' → MayStep c m t t'

/-- What other threads than this one may do at a time: a step of any operation of a chain, or
anything that leaves all latches as they are. -/
inductive Meddles (c : ι → Chain κ) (thread : String) :
    States c × Ground κ α → States c × Ground κ α → Prop where
  | step {t : States c × Ground κ α} (i : ι) (m : Moment) {t' : Stack κ (c i).kinds × Ground κ α} :
    m.thread ≠ thread → MayStep (c i) m (t.1 i, t.2) t' →
      Meddles c thread t (Function.update t.1 i t'.1, t'.2)
  | beside {t t' : States c × Ground κ α} :
    UnitOfWork.holder? c t'.1 = UnitOfWork.holder? c t.1 → Meddles c thread t t'

/-- What a thread can ask its unit of work for. -/
inductive Call (ι κ α : Type) where
  | get (cache : ι) (k : κ)
  | put (cache : ι) (k : κ) (item : Item α)
  | clear (cache : ι)
  | commit
  | rollback

/-- What a call answers. -/
inductive Result (κ α : Type) where
  | looked (found : Found κ α)
  | committed (written : Written κ)
  | nothing

/-- The steps of a call: the answer is the unit of work after it and what the call answers. -/
def Call.steps (c : ι → Chain κ) (u : UnitOfWork ι κ α) :
    Call ι κ α → Steps α c (UnitOfWork ι κ α × Result κ α)
  | .get i k => do
    let (u, found) ← reading c u i k
    return (u, .looked found)
  | .put i k item => return (u.put i (c i).id k item, .nothing)
  | .clear i => return (u.clear i (c i).id, .nothing)
  | .commit => do
    let (ps, written) ← committing c u.participants
    return (⟨ps⟩, .committed written)
  | .rollback => do
    releasing c u.participants
    return ({}, .nothing)

/-- `Run c thread t₀ past u t`: the thread has begun a unit of work in the state `t₀` and has made
the calls `past`, the latest one in front; now the unit of work is `u` and the state is `t`. -/
inductive Run (c : ι → Chain κ) (thread : String) (t₀ : States c × Ground κ α) :
    List (Call ι κ α × Result κ α) → UnitOfWork ι κ α → States c × Ground κ α → Prop where
  | start : Run c thread t₀ [] {} t₀
  | call {past : List (Call ι κ α × Result κ α)} {u u' : UnitOfWork ι κ α}
    {t t' : States c × Ground κ α} (a : Call ι κ α) (r : Result κ α) :
    Run c thread t₀ past u t → (a.steps c u).Ends (Meddles c thread) thread t (u', r) t' →
      Run c thread t₀ ((a, r) :: past) u' t'

/-- The call has ended the unit of work: it was a commit that has succeeded or a rollback. -/
def Call.Ends (a : Call ι κ α) (r : Result κ α) : Prop :=
  a = .commit ∧ r = .committed (.ok ()) ∨ a = .rollback

/-- The thread holds no latch in any layer of any chain. -/
def HoldsNone (c : ι → Chain κ) (thread : String) (t : States c × Ground κ α) : Prop :=
  ∀ i n k, Stack.holder? (c i).kinds (t.1 i) n k ≠ some thread

variable {c : ι → Chain κ} {thread : String} {t₀ t : States c × Ground κ α}
  {u : UnitOfWork ι κ α} {past : List (Call ι κ α × Result κ α)}

omit [DecidableEq ι] in
theorem MayStep.modest {c : Chain κ} {m : Moment} {t t' : Stack κ c.kinds × Ground κ α}
    (h : MayStep c m t t') : Modest (Stack.holder? c.kinds) m t t' := by
  have hmodest := c.isModest (α := α)
  cases h with
  | put k x h => exact hmodest.put k x m t t' h
  | get k h => exact hmodest.get k m t t' h
  | remove k h => exact hmodest.remove k m t t' h
  | clear h => exact hmodest.clear m t t' h
  | size h => exact hmodest.size m t t' h
  | release k h => exact hmodest.release k m t t' h

/-- The thread gets no latch from the others. -/
theorem Meddles.spares {t' : States c × Ground κ α} (h : Meddles c thread t t') :
    Spares (UnitOfWork.holder? c) thread t t' := by
  cases h with
  | beside hholders => exact fun l k hk => hholders ▸ hk
  | step i m hm hstep =>
    rintro ⟨j, n⟩ k hk
    by_cases he : j = i
    · subst he
      simp only [UnitOfWork.holder?, Function.update_self] at hk
      exact hstep.modest.spares hm n k hk
    · simpa only [UnitOfWork.holder?, Function.update_of_ne he] using hk

/-- A call leaves the thread with latches of missed keys alone, and with none if it ends the unit of
work. -/
theorem Call.confines (a : Call ι κ α) (u : UnitOfWork ι κ α) :
    Confines (UnitOfWork.holder? c) thread (fun l => Missed u.participants l.1) (a.steps c u)
      fun r l k => Missed r.1.participants l.1 k ∧ ¬a.Ends r.2 := by
  have hends : ∀ r, a ≠ .commit → a ≠ .rollback → ¬a.Ends r := fun r hcommit hrollback h =>
    h.elim (fun h => hcommit h.1) hrollback
  cases a with
  | get i k =>
    exact (confines_reading u i k).bind fun r => .done fun _ _ hk => ⟨hk, hends _ nofun nofun⟩
  | put i k item =>
    exact .done fun _ _ hk => ⟨(hk.join i _).modify _ fun _ hk => hk, hends _ nofun nofun⟩
  | clear i =>
    exact .done fun _ _ hk => ⟨(hk.join i _).modify _ fun _ hk => hk, hends _ nofun nofun⟩
  | commit =>
    refine (confines_committing u.participants).bind fun r => .done fun _ _ hk => ⟨hk.1, ?_⟩
    rintro (⟨-, hok⟩ | hrollback)
    · exact hk.2 (Result.committed.inj hok)
    · cases hrollback
  | rollback => exact (confines_releasing u.participants).bind fun _ => .done fun _ _ hk => hk.elim

/-- During its unit of work the thread holds latches of missed keys alone. -/
theorem Run.holds_missed (hrun : Run c thread t₀ past u t) (h₀ : HoldsNone c thread t₀) :
    Confined (UnitOfWork.holder? c) thread (fun l => Missed u.participants l.1) t := by
  induction hrun with
  | start => exact fun l k hk => absurd hk (h₀ l.1 l.2 k)
  | call a r _ hends ih =>
    have hends := hends.mono fun _ _ h => h.spares
    exact ((a.confines _ _ _ _ ih hends).mono fun _ _ hk => hk.1 :)

/-- A thread that held no latch before its unit of work holds none after a commit that has succeeded
or a rollback: whatever calls the unit of work has made before, commits that failed among them, and
whatever other threads have done in between. -/
theorem Run.leaves_no_latch {a : Call ι κ α} {r : Result κ α}
    (hrun : Run c thread t₀ ((a, r) :: past) u t) (h₀ : HoldsNone c thread t₀) (hends : a.Ends r) :
    HoldsNone c thread t := by
  cases hrun with
  | call _ _ hbefore hlast =>
    have hlast := hlast.mono fun _ _ h => h.spares
    exact fun i n k hk =>
      (a.confines _ _ _ _ (hbefore.holds_missed h₀) hlast (i, n) k hk).2 hends

/-! ## A unit of work that ends with a rollback -/

namespace RolledBack

/-- A chain that keeps bytes between two layers with latches. -/
def chain : Chain Nat :=
  ⟨"reports", 0, [.latching, .packing, .latching, .lru],
    ({ timeout := none }, (), { timeout := none }, Recency.ofCapacity 4, ())⟩

def ground : Ground Nat Sample := Ground.note {} (.built "reports" (Layer.describe
  [.lru 4, .blocking none, .serialized, .blocking none]))

/-- A unit of work over the one chain, and the state. -/
abbrev Point := UnitOfWork Unit Nat Sample × (States fun _ : Unit => chain) × Ground Nat Sample

def start : Point := ({}, fun _ => chain.stack, ground)

/-- What a call of the thread `A` comes to that nobody disturbs. -/
def outcome (a : Call Unit Nat Sample) (w : Point) : Point × Result Nat Sample :=
  match (a.steps (fun _ => chain) w.1).run { thread := "A" } w.2 with
  | some (t, u, r) => ((u, t), r)
  | none => (w, .nothing)

def missed := outcome (.get () 1) start

/-- The value refuses to become bytes. -/
def asked := outcome (.put () 1 ⟨0, .plain ⟨"!enc"⟩⟩) missed.1

def refused := outcome .commit asked.1

def left := outcome .rollback refused.1

def history : List (Call Unit Nat Sample × Result Nat Sample) :=
  [(.rollback, left.2), (.commit, refused.2), (.put () 1 ⟨0, .plain ⟨"!enc"⟩⟩, asked.2),
    (.get () 1, missed.2)]

/-- The commit is refused above the inner latch, which the thread goes on holding, and the rollback
opens it. -/
theorem refused_unit_leaves_no_latch :
    Chain.build "reports" 0 .silent [.lru 4, .blocking none, .serialized, .blocking none] {} {} =
        (ground, .ok chain) ∧
      Run (fun _ => chain) "A" start.2 history left.1.1 left.1.2 ∧
      refused.2 = .committed (.error (.serialization (.refused "value refuses to be encoded"))) ∧
      Stack.holder? chain.kinds (refused.1.2.1 ()) 2 1 = some "A" ∧
      HoldsNone (fun _ => chain) "A" left.1.2 := by
  have hmissed : Run (fun _ => chain) "A" start.2 [(.get () 1, missed.2)] missed.1.1 missed.1.2 :=
    .call _ _ .start (Process.ends_of_run _ (m := { thread := "A" }) rfl)
  have hrefused : Run (fun _ => chain) "A" start.2
      [(.commit, refused.2), (.put () 1 ⟨0, .plain ⟨"!enc"⟩⟩, asked.2), (.get () 1, missed.2)]
      refused.1.1 refused.1.2 :=
    .call _ _ (.call _ _ hmissed (Process.ends_of_run _ (m := { thread := "A" }) rfl))
      (Process.ends_of_run _ (m := { thread := "A" }) rfl)
  have hrun : Run (fun _ => chain) "A" start.2 history left.1.1 left.1.2 :=
    .call _ _ hrefused (Process.ends_of_run _ (m := { thread := "A" }) rfl)
  have hnone : HoldsNone (fun _ => chain) "A" start.2 := by
    rintro - (_ | _ | _ | _ | n) k <;> exact nofun
  exact ⟨rfl, hrun, rfl, rfl, hrun.leaves_no_latch hnone (.inr rfl)⟩

end RolledBack

end Departure

end LayeredCache
