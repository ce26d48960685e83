import LayeredCache.Proofs.Threads
import LayeredCache.Proofs.Transaction.Latches
import LayeredCache.Session.Sample

/-!
# Who holds the latches of a blocking layer

Threads call a blocking layer. Lookups and writes of the layer below may fail, but its lookups do
not wait, so a thread waits for the latches of the blocking layer alone.

Which thread holds the latch of a key is told by the last call that settled the key: a finished
lookup, a write, a removal or a release. Only a lookup that finds nothing leaves a latch behind.
That holds from the moment on when a latch is out of the table, whether or not it is opened yet.

## Main definitions

* `Cache.Record.Settles` — a call is one of those after which the latch of a key is known.
* `Threads.Acts` — what a call does to the latches.
* `Threads.IsPopulating` — the last call that settled a key was a thread's lookup that found
  nothing.
* `Threads.IsOutstanding` — of the calls of the thread alone, the last one that settled the key was
  such a lookup.

## Main statements

* `Threads.Run.latched_iff_populating` — the latched keys are those that are being populated, by the
  thread that holds the latch.
-/

namespace LayeredCache

variable {κ α σ : Type}

namespace Cache

/-- The call is a lookup of the key, a new one or one that goes on. -/
def Call.IsLookup (k : κ) : Call κ α → Prop
  | .get k' => k' = k
  | .resume k' _ .opened => k' = k
  | _ => False

/-- A lookup of the key by the thread has found nothing. -/
def Record.Misses (r : Record κ α) (thread : String) (k : κ) : Prop :=
  r.moment.thread = thread ∧ r.call.IsLookup k ∧ r.answer = .looked (.done (.ok none))

/-- A lookup of the key was finished, or the key was written, removed or released; a write that
failed counts. -/
def Record.Settles (r : Record κ α) (k : κ) : Prop :=
  r.call.Opens k ∨ r.call.IsLookup k ∧ ∃ found, r.answer = .looked (.done found)

theorem Record.Misses.settles {r : Record κ α} {thread : String} {k : κ} (h : r.Misses thread k) :
    r.Settles k := .inr ⟨h.2.1, _, h.2.2⟩

end Cache

namespace Threads

open Cache (Call Record)

/-! ## Histories -/

/-- The last call that settled the key was a lookup of the thread that found nothing. -/
def IsPopulating (thread : String) (k : κ) : (past : List (Record κ α)) → Prop
  | [] => False
  | r :: past => r.Misses thread k ∨ ¬r.Settles k ∧ IsPopulating thread k past

/-- The last call of the thread that settled the key was a lookup that found nothing. -/
def IsOutstanding (thread : String) (k : κ) : (past : List (Record κ α)) → Prop
  | [] => False
  | r :: past => r.Misses thread k ∨
    ¬(r.moment.thread = thread ∧ r.Settles k) ∧ IsOutstanding thread k past

/-- A key that a thread was populating was written, removed and released by that thread alone. -/
def IsDisciplined : (past : List (Record κ α)) → Prop
  | [] => True
  | r :: past =>
    (∀ k, r.call.Opens k → ∀ thread, IsPopulating thread k past → thread = r.moment.thread) ∧
      IsDisciplined past

variable [DecidableEq κ]

/-! ## What a call does -/

/-- What a call does to the latches: a lookup waits where another thread holds the latch of its key,
else it answers what the layer below does; only a miss keeps the latch, and a lookup that gives up
changes nothing. -/
structure Acts (d : Cache κ α σ) (w : World κ α σ) (m : Moment) (c : Call κ α) : Prop where
  missed : ∀ k, (w.record d m c).Misses m.thread k →
    (w.after d m c).state.1.owner? k = some m.thread
  settled : ∀ k, (w.record d m c).Settles k → ¬(w.record d m c).Misses m.thread k →
    (w.after d m c).state.1.owner? k = none
  other : ∀ k, ¬(w.record d m c).Settles k →
    (w.after d m c).state.1.owner? k = w.state.1.owner? k
  waits : ∀ k l, c.IsLookup k → w.state.1.latches.find? k = some l → l.owner ≠ m.thread →
    (w.record d m c).answer = .looked (.waiting 0 l.number) ∧
      (w.after d m c).state = w.state ∧ (w.after d m c).ground = w.ground
  passes : ∀ k, c.IsLookup k → (∀ thread, w.state.1.owner? k = some thread → thread = m.thread) →
    (w.record d m c).answer = .looked (d.get m k w.state.2 w.ground).answer ∧
      (w.after d m c).state.2 = (d.get m k w.state.2 w.ground).state ∧
      (w.after d m c).ground = (d.get m k w.state.2 w.ground).ground
  gaveUp : ∀ k gate, c = .resume k gate .expired →
    (∃ waited, (w.record d m c).answer = .looked (.done (.error (.lockTimeout d.id k waited)))) ∧
      (w.after d m c).state = w.state ∧
      ∀ base, (w.after d m c).ground.store base = w.ground.store base

section Calls

variable {d : Cache κ α σ} {w : World κ α σ} {m : Moment} {k : κ} {c : Call κ α}

/-- Another thread holds the latch of the key, or the thread may pass. -/
theorem exists_latch_or_free (t : Gate κ) (k : κ) (thread : String) :
    (∃ l, t.latches.find? k = some l ∧ l.owner ≠ thread) ∨
      ∀ owner, t.owner? k = some owner → owner = thread := by
  cases hl : t.latches.find? k with
  | none =>
    right
    intro owner h
    rw [Gate.owner?, hl] at h
    cases h
  | some l =>
    by_cases he : l.owner = thread
    · right
      intro owner h
      rw [Gate.owner?, hl] at h
      exact Option.some.inj h ▸ he
    · exact .inl ⟨l, rfl, he⟩

theorem perform_get_waits {l : Latch} (hl : w.state.1.latches.find? k = some l)
    (hne : l.owner ≠ m.thread) :
    (Gate.onto d).perform m w.state w.ground (.get k) =
      ⟨w.state, w.ground, .looked (.waiting 0 l.number)⟩ := by
  simp only [Cache.perform, Gate.onto, Gate.enter, hl, if_neg hne]

theorem perform_get_passes {found : Found κ α}
    (hfree : ∀ thread, w.state.1.owner? k = some thread → thread = m.thread)
    (hfound : (d.get m k w.state.2 w.ground).answer = .done found) :
    ∃ t, (Gate.onto d).perform m w.state w.ground (.get k) =
        ⟨(t, (d.get m k w.state.2 w.ground).state), (d.get m k w.state.2 w.ground).ground,
          .looked (.done found)⟩ ∧
      (∀ k', k' ≠ k → t.owner? k' = w.state.1.owner? k') ∧
      (found = .ok none → t.owner? k = some m.thread) ∧
      (found ≠ .ok none → t.owner? k = none) := by
  obtain ⟨t, ht, hget⟩ := Gate.get_passes (d := d) (g := w.ground) hfree
  have hother : ∀ k', k' ≠ k → t.owner? k' = w.state.1.owner? k' :=
    fun k' hne => (ht k').trans (if_neg hne)
  have hopened : ∀ k', k' ≠ k → (t.unlatch k).owner? k' = w.state.1.owner? k' := by
    intro k' hne
    rw [Gate.owner?_unlatch, if_neg hne, hother k' hne]
  have hgone : (t.unlatch k).owner? k = none := by rw [Gate.owner?_unlatch, if_pos rfl]
  simp only [Cache.perform, hget, Gate.settle, hfound]
  rcases found with e | _ | x
  · exact ⟨_, rfl, hopened, (fun h => by cases h), fun _ => hgone⟩
  · exact ⟨_, rfl, hother, fun _ => (ht k).trans (if_pos rfl), fun h => absurd rfl h⟩
  · exact ⟨_, rfl, hopened, (fun h => by cases h), fun _ => hgone⟩

/-- A call that opens the latch of its key and looks nothing up. -/
theorem acts_of_opens
    (howner : ∀ k', (w.after d m c).state.1.owner? k' = (w.state.1.unlatch k).owner? k')
    (hopens : ∀ k', c.Opens k' ↔ k = k') (hlooks : ∀ k', ¬c.IsLookup k')
    (hwakes : ∀ k' gate wake, c ≠ .resume k' gate wake) : Acts d w m c where
  missed k' h := absurd h.2.1 (hlooks k')
  settled k' h _ := by
    rcases h with h | h
    · obtain rfl := (hopens k').mp h
      rw [howner, Gate.owner?_unlatch, if_pos rfl]
    · exact absurd h.1 (hlooks k')
  other k' h := by
    have hne : k' ≠ k := fun he => h (.inl ((hopens k').mpr he.symm))
    rw [howner, Gate.owner?_unlatch, if_neg hne]
  waits k' _ h := absurd h (hlooks k')
  passes k' h := absurd h (hlooks k')
  gaveUp k' gate h := absurd h (hwakes k' gate .expired)

/-- A call that has to do with no latch. -/
theorem acts_of_aside (hstate : (w.after d m c).state.1 = w.state.1)
    (hopens : ∀ k', ¬c.Opens k') (hlooks : ∀ k', ¬c.IsLookup k')
    (hwakes : ∀ k' gate wake, c ≠ .resume k' gate wake) : Acts d w m c where
  missed k' h := absurd h.2.1 (hlooks k')
  settled k' h _ := absurd h (not_or.mpr ⟨hopens k', fun h => hlooks k' h.1⟩)
  other k' _ := by rw [hstate]
  waits k' _ h := absurd h (hlooks k')
  passes k' h := absurd h (hlooks k')
  gaveUp k' gate h := absurd h (hwakes k' gate .expired)

/-- A call that comes to a new lookup of the key. -/
theorem acts_of_lookup (hdecides : ∀ m k s g, ∃ found, (d.get m k s g).answer = .done found)
    (hget : (Gate.onto d).perform m w.state w.ground c =
      (Gate.onto d).perform m w.state w.ground (.get k))
    (hopens : ∀ k', ¬c.Opens k') (hlooks : ∀ k', c.IsLookup k' ↔ k = k')
    (hexpired : ∀ k' gate, c ≠ .resume k' gate .expired) : Acts d w m c := by
  rcases exists_latch_or_free w.state.1 k m.thread with ⟨l, hl, hne⟩ | hfree
  · have hwaits : (Gate.onto d).perform m w.state w.ground c =
        ⟨w.state, w.ground, .looked (.waiting 0 l.number)⟩ :=
      hget.trans (perform_get_waits hl hne)
    have hanswer : (w.record d m c).answer = .looked (.waiting 0 l.number) :=
      congrArg Reply.answer hwaits
    have hstate : (w.after d m c).state = w.state := World.state_after (congrArg Reply.state hwaits)
    exact {
      missed := fun k' h => by cases hanswer.symm.trans h.2.2
      settled := by
        rintro k' (h | ⟨-, found, h⟩) _
        · exact absurd h (hopens k')
        · cases hanswer.symm.trans h
      other := fun k' _ => by rw [hstate]
      waits := by
        intro k' l' hlook hl' _
        obtain rfl := (hlooks k').mp hlook
        cases hl.symm.trans hl'
        exact ⟨hanswer, hstate, congrArg Reply.ground hwaits⟩
      passes := by
        intro k' hlook h
        obtain rfl := (hlooks k').mp hlook
        exact absurd (h l.owner (congrArg (Option.map _) hl)) hne
      gaveUp := fun k' gate h => absurd h (hexpired k' gate) }
  · obtain ⟨found, hfound⟩ := hdecides m k w.state.2 w.ground
    obtain ⟨t, ht, hother, hmissed, hsettled⟩ := perform_get_passes hfree hfound
    have hpasses := hget.trans ht
    have hanswer : (w.record d m c).answer = .looked (.done found) :=
      congrArg Reply.answer hpasses
    have howner : ∀ k', (w.after d m c).state.1.owner? k' = t.owner? k' :=
      fun k' => congrArg (·.state.1.owner? k') hpasses
    exact {
      missed := by
        intro k' h
        obtain rfl := (hlooks k').mp h.2.1
        cases hanswer.symm.trans h.2.2
        rw [howner]
        exact hmissed rfl
      settled := by
        rintro k' (h | ⟨hlook, -⟩) hne
        · exact absurd h (hopens k')
        · obtain rfl := (hlooks k').mp hlook
          rw [howner]
          refine hsettled fun h => hne ⟨rfl, hlook, ?_⟩
          rw [hanswer, h]
      other := by
        intro k' h
        rw [howner]
        exact hother k' fun he => h (.inr ⟨(hlooks k').mpr he.symm, found, hanswer⟩)
      waits := by
        intro k' l hlook hl hne
        obtain rfl := (hlooks k').mp hlook
        exact absurd (hfree l.owner (congrArg (Option.map _) hl)) hne
      passes := by
        intro k' hlook _
        obtain rfl := (hlooks k').mp hlook
        exact ⟨hfound ▸ hanswer, congrArg (·.state.2) hpasses, congrArg Reply.ground hpasses⟩
      gaveUp := fun k' gate h => absurd h (hexpired k' gate) }

theorem state_after_expired : (w.after d m (.resume k 0 .expired)).state = w.state :=
  World.state_after (Gate.giveUp_fails d k w.state w.ground).1

theorem acts_of_expired : Acts d w m (.resume k 0 .expired) where
  missed k' h := h.2.1.elim
  settled k' h _ := h.elim False.elim fun h => h.1.elim
  other k' _ := by rw [state_after_expired]
  waits k' l h := h.elim
  passes k' h := h.elim
  gaveUp k' gate h := by
    injection h with hk
    refine ⟨?_, state_after_expired, (Gate.giveUp_fails d k w.state w.ground).2.1⟩
    subst hk
    show ∃ waited, Cache.Answer.looked (Gate.giveUp d k w.state w.ground).answer = _
    unfold Gate.giveUp
    cases w.state.1.timeout with
    | none => exact ⟨0, rfl⟩
    | some timeout => exact ⟨timeout, rfl⟩

/-- A fair call acts on the latches as it should if lookups wait in the blocking layer alone. -/
theorem acts (hdecides : ∀ m k s g, ∃ found, (d.get m k s g).answer = .done found)
    (hgate : ∀ thread v, w.waits thread = some v → v.gate = 0) (hfair : w.IsFair m.thread c) :
    Acts d w m c := by
  cases c with
  | put k serial v => exact acts_of_opens (fun _ => rfl) (fun _ => Iff.rfl) (fun _ => id) nofun
  | get k => exact acts_of_lookup hdecides rfl (fun _ => id) (fun _ => Iff.rfl) nofun
  | resume k gate wake =>
    obtain ⟨n, hwait⟩ := hfair.2
    obtain rfl : gate = 0 := hgate m.thread _ hwait
    cases wake with
    | opened => exact acts_of_lookup hdecides rfl (fun _ => id) (fun _ => Iff.rfl) nofun
    | expired => exact acts_of_expired
  | remove k => exact acts_of_opens (fun _ => rfl) (fun _ => Iff.rfl) (fun _ => id) nofun
  | clear => exact acts_of_aside rfl (fun _ => id) (fun _ => id) nofun
  | size => exact acts_of_aside rfl (fun _ => id) (fun _ => id) nofun
  | release k => exact acts_of_opens (fun _ => rfl) (fun _ => Iff.rfl) (fun _ => id) nofun

end Calls

/-! ## What runs keep -/

section Runs

variable {d : Cache κ α σ} {w₀ w : World κ α σ} {past : List (Record κ α)}

/-! Lookups of the layer below are finished at once; at first no key is latched and nobody waits. -/

section Settled

variable (hdecides : ∀ m k s g, ∃ found, (d.get m k s g).answer = .done found)
  (hfree : ∀ k, w₀.state.1.owner? k = none) (hidle : ∀ thread, w₀.waits thread = none)
include hdecides

/-- A lookup waits in the blocking layer or is finished. -/
theorem Acts.answer_of_lookup {m : Moment} {c : Call κ α} (h : Acts d w m c) {k : κ}
    (hlook : c.IsLookup k) :
    (∃ n, (w.record d m c).answer = .looked (.waiting 0 n)) ∨
      ∃ found, (w.record d m c).answer = .looked (.done found) := by
  rcases exists_latch_or_free w.state.1 k m.thread with ⟨l, hl, hne⟩ | hfree
  · exact .inl ⟨_, (h.waits k l hlook hl hne).1⟩
  · obtain ⟨found, hfound⟩ := hdecides m k w.state.2 w.ground
    exact .inr ⟨found, hfound ▸ (h.passes k hlook hfree).1⟩

theorem Acts.gate_eq_zero {m : Moment} {c : Call κ α} (h : Acts d w m c) {v : Wait κ}
    (hwaits : waitAfter c (w.record d m c).answer = some v) : v.gate = 0 := by
  cases c with
  | get k' =>
    rcases h.answer_of_lookup hdecides (k := k') rfl with ⟨n, ha⟩ | ⟨found, ha⟩ <;>
      rw [ha] at hwaits <;> cases hwaits
    rfl
  | resume k' gate' wake =>
    cases wake with
    | opened =>
      rcases h.answer_of_lookup hdecides (k := k') rfl with ⟨n, ha⟩ | ⟨found, ha⟩ <;>
        rw [ha] at hwaits <;> cases hwaits
      rfl
    | expired =>
      obtain ⟨⟨waited, ha⟩, -⟩ := h.gaveUp k' gate' rfl
      rw [ha] at hwaits
      cases hwaits
  | _ => cases hwaits

omit hdecides in
/-- The thread that holds the latch after a call that acts as it should. -/
theorem Acts.latched_iff {m : Moment} {c : Call κ α} (h : Acts d w m c) {k : κ}
    (hw : ∀ thread, w.state.1.owner? k = some thread ↔ IsPopulating thread k past)
    (thread : String) :
    (w.after d m c).state.1.owner? k = some thread ↔
      IsPopulating thread k (w.record d m c :: past) := by
  by_cases hsettles : (w.record d m c).Settles k
  · by_cases hmisses : (w.record d m c).Misses m.thread k
    · rw [h.missed k hmisses, Option.some.injEq]
      constructor
      · rintro rfl
        exact .inl hmisses
      · rintro (hthread | ⟨hnot, -⟩)
        · exact hthread.1
        · exact absurd hsettles hnot
    · rw [h.settled k hsettles hmisses]
      constructor
      · exact nofun
      · rintro (⟨hthread, hmiss⟩ | ⟨hnot, -⟩)
        · exact absurd ⟨rfl, hmiss⟩ hmisses
        · exact absurd hsettles hnot
  · rw [h.other k hsettles, hw]
    constructor
    · exact fun hpast => .inr ⟨hsettles, hpast⟩
    · rintro (hmisses | ⟨-, hpast⟩)
      · exact absurd hmisses.settles hsettles
      · exact hpast

/-- What is true of every world that threads come to. -/
structure Keeps (past : List (Record κ α)) (w : World κ α σ) : Prop where
  gate : ∀ thread v, w.waits thread = some v → v.gate = 0
  latched : ∀ k thread, w.state.1.owner? k = some thread ↔ IsPopulating thread k past

include hfree hidle

theorem Run.keeps (hrun : Run d w₀ past w) : Keeps past w := by
  induction hrun with
  | start =>
    refine ⟨fun thread v h => ?_, fun k thread => ?_⟩
    · cases (hidle thread).symm.trans h
    · rw [hfree k]
      exact ⟨nofun, False.elim⟩
  | @call past w m c _ hfair ih =>
    have hacts := acts hdecides ih.gate hfair
    refine ⟨fun thread v h => ?_, fun k => hacts.latched_iff (ih.latched k)⟩
    by_cases he : thread = m.thread
    · subst he
      rw [World.waits_after_self] at h
      exact hacts.gate_eq_zero hdecides h
    · rw [World.waits_after_of_ne he] at h
      exact ih.gate thread v h
  | openTaken thread _ ih => exact ⟨ih.gate, ih.latched⟩
  | elsewhere s g _ ih => exact ⟨ih.gate, ih.latched⟩

/-- While the others leave alone what a thread populates, no call but its own ends that. -/
theorem Run.populating_of_outstanding (hrun : Run d w₀ past w) (hdisciplined : IsDisciplined past)
    {thread : String} {k : κ} (h : IsOutstanding thread k past) : IsPopulating thread k past := by
  induction hrun with
  | start => exact h
  | @call past w m c hrun hfair ih =>
    rcases h with hmisses | ⟨hother, hpast⟩
    · exact .inl hmisses
    · have hpopulating := ih hdisciplined.2 hpast
      have hkeeps := hrun.keeps hdecides hfree hidle
      refine .inr ⟨?_, hpopulating⟩
      rintro (hopens | ⟨hlook, found, hfound⟩)
      · have hthread := hdisciplined.1 k hopens thread hpopulating
        exact hother ⟨hthread.symm, .inl hopens⟩
      · -- a lookup of another thread would wait
        obtain ⟨l, hl, rfl⟩ := Option.map_eq_some_iff.mp ((hkeeps.latched k thread).mpr hpopulating)
        have hne : l.owner ≠ m.thread := by
          intro he
          exact hother ⟨he.symm, .inr ⟨hlook, found, hfound⟩⟩
        have hwaits := ((acts hdecides hkeeps.gate hfair).waits k l hlook hl hne).1
        cases hwaits.symm.trans hfound
  | openTaken thread _ ih => exact ih hdisciplined h
  | elsewhere s g _ ih => exact ih hdisciplined h

end Settled

/-- Whatever threads did with a blocking layer, the layer below it, and the ground: a call acts on
the latches as it should, and the latched keys are those whose last finished lookup, write, removal
or release was a lookup that found nothing, each by the thread that made it. If a key that was
latched was written, removed and released by the owner of its latch alone, then no two threads have
an outstanding miss of one key. -/
theorem Run.latched_iff_populating
    (hdecides : ∀ m k s g, ∃ found, (d.get m k s g).answer = .done found)
    (hfree : ∀ k, w₀.state.1.owner? k = none) (hidle : ∀ thread, w₀.waits thread = none)
    (hrun : Run d w₀ past w) :
    (∀ m c, w.IsFair m.thread c → Acts d w m c) ∧
      (∀ k thread, w.state.1.owner? k = some thread ↔ IsPopulating thread k past) ∧
      (IsDisciplined past → ∀ k thread thread', IsOutstanding thread k past →
        IsOutstanding thread' k past → thread = thread') := by
  have hkeeps := hrun.keeps hdecides hfree hidle
  refine ⟨fun m c => acts hdecides hkeeps.gate, hkeeps.latched, ?_⟩
  intro hdisciplined k thread thread' h h'
  have hholder : ∀ {t}, IsOutstanding t k past → w.state.1.owner? k = some t := fun ht =>
    (hkeeps.latched k _).mpr (hrun.populating_of_outstanding hdecides hfree hidle hdisciplined ht)
  exact Option.some.inj ((hholder h).symm.trans (hholder h'))

end Runs

/-! ## A write that is refused -/

namespace Refused

/-- A base store below a layer that keeps bytes. -/
def below : Cache Nat Sample (Unit × Unit) := Packing.onto (Cache.bare "users" 0)

def start : World Nat Sample (Unit × Unit) := .new (some 30) ((), ()) {}

/-- The world after a call of a thread. -/
def after (w : World Nat Sample (Unit × Unit)) (thread : String) (c : Call Nat Sample) :
    World Nat Sample (Unit × Unit) := w.after below { thread := thread } c

/-- The record of a call of a thread. -/
def record (w : World Nat Sample (Unit × Unit)) (thread : String) (c : Call Nat Sample) :
    Record Nat Sample := w.record below { thread := thread } c

def missed := after start "A" (.get 1)

def waiting := after missed "B" (.get 1)

/-- A value that refuses to become bytes. -/
def value : Sample := ⟨"!enc"⟩

/-- The latch of the thread is out of the table, but not open. -/
def refused := after waiting "A" (.put 1 0 value)

def opened := refused.openTaken "A"

def missedAgain := after opened "B" (.resume 1 0 .opened)

def past : List (Record Nat Sample) :=
  [record opened "B" (.resume 1 0 .opened), record waiting "A" (.put 1 0 value),
    record missed "B" (.get 1), record start "A" (.get 1)]

/-- A thread misses a key and its write is refused: the lookup of another thread, which has waited,
goes on, misses the key in turn, and has the only outstanding miss. -/
theorem second_populator_after_refused_write :
    Run below start past missedAgain ∧
      (record missed "B" (.get 1)).answer = .looked (.waiting 0 0) ∧
      (record waiting "A" (.put 1 0 value)).answer =
        .written (.error (.serialization (.refused "value refuses to be encoded"))) ∧
      missedAgain.state.1.owner? 1 = some "B" ∧
      Acts below missedAgain { thread := "B" } (.release 1) ∧
      ∀ thread, IsOutstanding thread 1 past → thread = "B" := by
  have hdecides : ∀ m k s g, ∃ found, (below.get m k s g).answer = .done found :=
    Stack.decides "users" 0 [.packing] (by decide)
  have hmissed : Run below start [record start "A" (.get 1)] missed :=
    .call { thread := "A" } (.get 1) .start ⟨rfl, rfl⟩
  have hwaiting : Run below start [record missed "B" (.get 1), record start "A" (.get 1)] waiting :=
    .call { thread := "B" } (.get 1) hmissed ⟨rfl, rfl⟩
  have hopened : Run below start [record waiting "A" (.put 1 0 value),
      record missed "B" (.get 1), record start "A" (.get 1)] opened :=
    hwaiting.complete { thread := "A" } (.put 1 0 value) ⟨rfl, rfl⟩
  have hrun : Run below start past missedAgain :=
    .call { thread := "B" } (.resume 1 0 .opened) hopened ⟨rfl, 0, rfl⟩
  obtain ⟨hacts, hlatched, hunique⟩ :=
    hrun.latched_iff_populating hdecides (fun _ => rfl) fun _ => rfl
  have hmisses : (record opened "B" (.resume 1 0 .opened)).Misses "B" 1 := ⟨rfl, rfl, rfl⟩
  have hdisciplined : IsDisciplined past := by
    refine ⟨fun k h => h.elim, ?_, fun k h => h.elim, fun k h => h.elim, trivial⟩
    rintro k - thread (h | ⟨-, h | ⟨-, h⟩⟩)
    · cases h.2.2
    · exact h.1.symm
    · exact h.elim
  exact ⟨hrun, rfl, rfl, (hlatched 1 "B").mpr (.inl hmisses),
    hacts { thread := "B" } (.release 1) ⟨rfl, rfl⟩,
    fun thread h => hunique hdisciplined 1 thread "B" h (.inl hmisses)⟩

end Refused

end Threads

end LayeredCache
