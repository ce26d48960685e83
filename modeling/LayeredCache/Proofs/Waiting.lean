import LayeredCache.Proofs.Threads
import LayeredCache.Session.Sample

/-!
# Threads that wait for latches

A thread that waits for the latch of a key holds on to that very latch. Meanwhile the latch may be
taken out of the table and opened, and another one be registered for the key, even several times
over. The thread goes on when its own one was opened: it then takes a new latch if none is
registered, and else waits again, for the one that is.

No thread waits in vain. A latch that is out of the table is open, or the thread that took it out
opens it next, and that thread waits for nothing itself. A latch that is not out of the table is the
one registered for its key, so the next write, removal or release of the key takes it out. The layer
below may do anything: its lookups may fail, and they may wait, so that others come between the
taking of a latch and the end of the lookup that took it. A thread that is late to see its latch
opened may still give up.

## Main definitions

* `Threads.Guards` — what ties the threads that wait, the latches and the table together.
* `Threads.World.MayGoOn` — a thread waits for a latch that is open.
* `Threads.Awaited` — what is true of threads that wait while others are between two steps.

## Main statements

* `Threads.Run.no_waiter_left_behind` — a thread waits for a latch that is open, about to be opened
  by another thread, or registered.
-/

namespace LayeredCache

variable {κ α σ : Type}

namespace Threads

open Cache (Call Record)

variable [DecidableEq κ]

/-! ## What ties threads, latches and the table together -/

/-- The latches that satisfy `out` have been taken out of the table. A thread waits for a latch that
is out or registered, and never has the registered one itself, which is not older than its own one.
Of the latches that were made those that are not out are registered, each for the key that it was
made for. -/
structure Guards (t : Gate κ) (out : Nat → Prop) (waits : String → Option (Wait κ))
    (keys : Nat → Option κ) : Prop where
  waiter : ∀ thread k n, waits thread = some ⟨k, 0, n⟩ →
    out n ∨ ∃ l, t.latches.find? k = some l ∧ l.number = n
  foreign : ∀ thread k n l, waits thread = some ⟨k, 0, n⟩ → t.latches.find? k = some l →
    l.owner ≠ thread ∧ n ≤ l.number
  inside : ∀ k l, t.latches.find? k = some l → ¬out l.number
  made : ∀ k l, t.latches.find? k = some l → keys l.number = some k
  registered : ∀ n k, keys n = some k → ¬out n → ∃ l, t.latches.find? k = some l ∧ l.number = n
  issued : ∀ n, (keys n).isSome ↔ n < t.issued
  out_lt : ∀ n, out n → n < t.issued

namespace Guards

variable {t : Gate κ} {out : Nat → Prop} {waits : String → Option (Wait κ)}
  {keys : Nat → Option κ} {k : κ} {thread : String}

theorem number_lt (h : Guards t out waits keys) {l : Latch} (hl : t.latches.find? k = some l) :
    l.number < t.issued := (h.issued l.number).mp (by rw [h.made k l hl]; rfl)

theorem latch_lt (h : Guards t out waits keys) {n : Nat}
    (hwait : waits thread = some ⟨k, 0, n⟩) : n < t.issued := by
  rcases h.waiter thread k n hwait with hout | ⟨l, hl, rfl⟩
  · exact h.out_lt n hout
  · exact h.number_lt hl

theorem congr (h : Guards t out waits keys) {out' : Nat → Prop} (hout : ∀ n, out' n ↔ out n) :
    Guards t out' waits keys := by
  obtain rfl : out' = out := funext fun n => propext (hout n)
  exact h

/-- Which of the latches that are out are open does not matter. -/
theorem setOpened (h : Guards t out waits keys) (opened : List Nat) :
    Guards { t with opened := opened } out waits keys :=
  ⟨h.waiter, h.foreign, h.inside, h.made, h.registered, h.issued, h.out_lt⟩

/-- A thread begins to wait for the latch that another thread has, or stops to wait here. -/
theorem setWait (h : Guards t out waits keys) {wait : Option (Wait κ)}
    (hwait : ∀ k n, wait = some ⟨k, 0, n⟩ →
      ∃ l, t.latches.find? k = some l ∧ l.number = n ∧ l.owner ≠ thread) :
    Guards t out (Function.update waits thread wait) keys where
  waiter thread' k n hw := by
    by_cases he : thread' = thread
    · subst he
      rw [Function.update_self] at hw
      obtain ⟨l, hl, hn, -⟩ := hwait k n hw
      exact .inr ⟨l, hl, hn⟩
    · rw [Function.update_of_ne he] at hw
      exact h.waiter thread' k n hw
  foreign thread' k n l hw hl := by
    by_cases he : thread' = thread
    · subst he
      rw [Function.update_self] at hw
      obtain ⟨l', hl', rfl, hne⟩ := hwait k n hw
      cases hl.symm.trans hl'
      exact ⟨hne, Nat.le_refl _⟩
    · rw [Function.update_of_ne he] at hw
      exact h.foreign thread' k n l hw hl
  inside := h.inside
  made := h.made
  registered := h.registered
  issued := h.issued
  out_lt := h.out_lt

/-- A thread that does not wait for the key takes a new latch for it. -/
theorem latch (h : Guards t out waits keys) (hfree : t.latches.find? k = none)
    (hidle : waits thread = none) :
    Guards (t.latch k thread) out waits (Function.update keys t.issued (some k)) where
  waiter thread' k' n hw := by
    rcases h.waiter thread' k' n hw with hout | ⟨l, hl, hn⟩
    · exact .inl hout
    · have hne : k' ≠ k := by
        rintro rfl
        cases hfree.symm.trans hl
      exact .inr ⟨l, by rw [Gate.find?_latches_latch, if_neg hne, hl], hn⟩
  foreign thread' k' n l hw hl := by
    rw [Gate.find?_latches_latch] at hl
    split at hl
    · obtain rfl := Option.some.inj hl
      refine ⟨?_, Nat.le_of_lt (h.latch_lt hw)⟩
      rintro rfl
      cases hidle.symm.trans hw
    · exact h.foreign thread' k' n l hw hl
  inside k' l hl := by
    rw [Gate.find?_latches_latch] at hl
    split at hl
    · obtain rfl := Option.some.inj hl
      exact fun hout => Nat.lt_irrefl _ (h.out_lt _ hout)
    · exact h.inside k' l hl
  made k' l hl := by
    rw [Gate.find?_latches_latch] at hl
    split at hl
    · next he =>
      obtain rfl := Option.some.inj hl
      rw [Function.update_self, he]
    · rw [Function.update_of_ne (Nat.ne_of_lt (h.number_lt hl))]
      exact h.made k' l hl
  registered n k' hn hout := by
    by_cases he : n = t.issued
    · subst he
      rw [Function.update_self] at hn
      obtain rfl := Option.some.inj hn
      exact ⟨_, by rw [Gate.find?_latches_latch, if_pos rfl], rfl⟩
    · rw [Function.update_of_ne he] at hn
      obtain ⟨l, hl, hnumber⟩ := h.registered n k' hn hout
      have hne : k' ≠ k := by
        rintro rfl
        cases hfree.symm.trans hl
      exact ⟨l, by rw [Gate.find?_latches_latch, if_neg hne, hl], hnumber⟩
  issued n := by
    by_cases he : n = t.issued
    · subst he
      simp
    · rw [Function.update_of_ne he, h.issued, Gate.issued_latch]
      omega
  out_lt n hn := Nat.lt_succ_of_lt (h.out_lt n hn)

/-- The latch of a key is taken out of the table. -/
theorem unlatch (h : Guards t out waits keys) {out' : Nat → Prop}
    (hout : ∀ n, out' n ↔ out n ∨ ∃ l, t.latches.find? k = some l ∧ l.number = n) :
    Guards (t.unlatch k) out' waits keys := by
  have hrest : ∀ {k' l}, (t.unlatch k).latches.find? k' = some l →
      k' ≠ k ∧ t.latches.find? k' = some l := by
    intro k' l hl
    rw [Gate.find?_latches_unlatch] at hl
    split at hl
    · cases hl
    · next hne => exact ⟨hne, hl⟩
  -- A latch that was registered still is, or it was that of the key and is out now.
  have hstill : ∀ {k' l}, t.latches.find? k' = some l →
      out' l.number ∨ (t.unlatch k).latches.find? k' = some l := by
    intro k' l hl
    by_cases he : k' = k
    · subst he
      exact .inl ((hout _).mpr (.inr ⟨l, hl, rfl⟩))
    · exact .inr (by rw [Gate.find?_latches_unlatch, if_neg he, hl])
  refine ⟨?_, ?_, ?_, ?_, ?_, ?_, ?_⟩
  · intro thread k' n hw
    rcases h.waiter thread k' n hw with hn | ⟨l, hl, rfl⟩
    · exact .inl ((hout n).mpr (.inl hn))
    · exact (hstill hl).imp_right fun hl => ⟨l, hl, rfl⟩
  · exact fun thread k' n l hw hl => h.foreign thread k' n l hw (hrest hl).2
  · intro k' l hl hn
    obtain ⟨hne, hl⟩ := hrest hl
    rcases (hout _).mp hn with hn | ⟨l', hl', hn⟩
    · exact h.inside k' l hl hn
    · -- The two latches have one number, so they were made for one key.
      have hkey := h.made k l' hl'
      rw [hn, h.made k' l hl] at hkey
      exact hne (Option.some.inj hkey)
  · exact fun k' l hl => h.made k' l (hrest hl).2
  · intro n k' hn hinside
    obtain ⟨l, hl, rfl⟩ := h.registered n k' hn fun ho => hinside ((hout n).mpr (.inl ho))
    exact ⟨l, (hstill hl).resolve_left hinside, rfl⟩
  · intro n
    rw [h.issued, Gate.issued_unlatch]
  · intro n hn
    rw [Gate.issued_unlatch]
    rcases (hout n).mp hn with hn | ⟨l, hl, rfl⟩
    · exact h.out_lt n hn
    · exact h.number_lt hl

omit [DecidableEq κ] in
theorem keysAfter_of_latch {c : Call κ α} {t' : Gate κ} (hkey : c.key? = some k)
    (ht' : t'.issued = t.issued + 1) :
    keysAfter t t' c keys = Function.update keys t.issued (some k) := by
  rw [keysAfter, if_neg (by omega), hkey]

/-- Whatever a call does, the threads, the latches and the table stay tied together: the latches
that it opens are out. -/
theorem effect (h : Guards t out waits keys) {c : Call κ α} {t' : Gate κ} {wait : Option (Wait κ)}
    (he : Effect t thread c t' wait) (hopened : ∀ n ∈ t.opened, out n) {out' : Nat → Prop}
    (hout : ∀ n, out' n ↔ out n ∨ n ∈ t'.opened) :
    Guards t' out' (Function.update waits thread wait) (keysAfter t t' c keys) := by
  have hbelow : ∀ {t : Gate κ} {wait : Option (Wait κ)}, (∀ v ∈ wait, v.gate ≠ 0) → ∀ k n,
      wait = some ⟨k, 0, n⟩ → ∃ l, t.latches.find? k = some l ∧ l.number = n ∧ l.owner ≠ thread :=
    fun hgate k n hw => absurd rfl (hgate _ hw)
  have hidle : Guards t out (Function.update waits thread none) keys := h.setWait nofun
  have hsame : t'.opened = t.opened → ∀ n, out' n ↔ out n := by
    intro hsame n
    rw [hout, hsame]
    exact or_iff_left_of_imp (hopened n)
  have hmore : ∀ {t₁ : Gate κ} {k}, t' = t₁.unlatch k → t₁.opened = t.opened → ∀ n,
      out' n ↔ out n ∨ ∃ l, t₁.latches.find? k = some l ∧ l.number = n := by
    intro t₁ k ht' hsame n
    rw [hout, ht', Gate.mem_opened_unlatch, ← or_assoc, hsame, or_iff_left_of_imp (hopened n)]
  cases he with
  | aside hgate =>
    rw [keysAfter, if_pos rfl]
    exact (h.setWait (hbelow hgate)).congr (hsame rfl)
  | opens k =>
    rw [keysAfter, if_pos (Gate.issued_unlatch t k)]
    exact hidle.unlatch (hmore rfl rfl)
  | @waits k l hl hne =>
    rw [keysAfter, if_pos rfl]
    refine (h.setWait fun k' n hw => ?_).congr (hsame rfl)
    cases hw
    exact ⟨l, hl, rfl, hne⟩
  | takes hkey hfree hgate =>
    have hlatch := hidle.latch hfree (Function.update_self ..)
    rw [keysAfter_of_latch hkey rfl, ← Function.update_idem]
    exact (hlatch.setWait (hbelow hgate)).congr (hsame rfl)
  | @passes k hkey hfree =>
    rw [keysAfter_of_latch hkey (Gate.issued_unlatch ..)]
    exact (hidle.latch hfree (Function.update_self ..)).unlatch (hmore rfl rfl)

end Guards

/-! ## What runs keep -/

/-- The thread waits for the latch of the key, which is open: it may go on. -/
def World.MayGoOn (w : World κ α σ) (thread : String) (k : κ) : Prop :=
  w.taken thread = none ∧ ∃ n, w.waits thread = some ⟨k, 0, n⟩ ∧ n ∈ w.state.1.opened

section Runs

variable {d : Cache κ α σ} {w : World κ α σ} {timeout : Option Span} {s₀ : σ} {g₀ : Ground κ α}
  {past : List (Record κ α)}

theorem Run.guards (hrun : Run d (.new timeout s₀ g₀) past w) :
    Guards w.state.1 w.IsOut w.waits w.keys := by
  induction hrun with
  | start =>
    have hin : ∀ n, ¬(World.new timeout s₀ g₀).IsOut n := by
      rintro n (hopened | ⟨thread, htaken⟩)
      · cases hopened
      · cases htaken
    exact ⟨nofun, nofun, nofun, nofun, nofun, fun n => ⟨nofun, fun h => absurd h n.not_lt_zero⟩,
      fun n h => absurd h (hin n)⟩
  | call m c _ hfair ih =>
    exact (ih.effect (effect d m _ _ c) (fun _ => .inl) (World.isOut_after hfair.1)).setOpened _
  | @openTaken _ w thread _ ih => exact (ih.congr (w.isOut_openTaken thread)).setOpened _
  | elsewhere s g _ ih => exact ih

/-- A thread that is about to open a latch waits for nothing. -/
theorem Run.waits_of_taken (hrun : Run d (.new timeout s₀ g₀) past w) {thread : String} {n : Nat}
    (htaken : w.taken thread = some n) : w.waits thread = none := by
  induction hrun with
  | start => cases htaken
  | @call _ w m c _ _ ih =>
    by_cases he : thread = m.thread
    · rw [he, World.taken_after_self] at htaken
      rw [he, World.waits_after_self]
      exact (effect d m w.state w.ground c).wait_eq_none htaken
    · rw [World.taken_after_of_ne he] at htaken
      rw [World.waits_after_of_ne he]
      exact ih htaken
  | @openTaken _ w thread' _ ih =>
    by_cases he : thread = thread'
    · rw [he, World.taken_openTaken_self] at htaken
      cases htaken
    · rw [World.taken_openTaken_of_ne w thread' he] at htaken
      exact ih htaken
  | elsewhere s g _ ih => exact ih htaken

theorem Run.taken_of_waits (hrun : Run d (.new timeout s₀ g₀) past w) {thread : String}
    {v : Wait κ} (hwait : w.waits thread = some v) : w.taken thread = none := by
  cases htaken : w.taken thread with
  | none => rfl
  | some n => cases (hrun.waits_of_taken htaken).symm.trans hwait

section MayGoOn

variable {thread : String} {k : κ} {m : Moment} {c : Call κ α}

omit [DecidableEq κ] in
theorem World.MayGoOn.isFair (h : w.MayGoOn thread k) :
    w.IsFair thread (.resume k 0 .opened) := by
  obtain ⟨htaken, n, hwait, -⟩ := h
  exact ⟨htaken, n, hwait⟩

/-- A thread that may go on may do so after any call of another one. -/
theorem World.MayGoOn.after (h : w.MayGoOn thread k) (hne : thread ≠ m.thread) :
    (w.after d m c).MayGoOn thread k := by
  obtain ⟨htaken, n, hwait, hopened⟩ := h
  exact ⟨(World.taken_after_of_ne hne).trans htaken, n,
    (World.waits_after_of_ne hne).trans hwait, hopened⟩

omit [DecidableEq κ] in
theorem World.MayGoOn.openTaken (h : w.MayGoOn thread k) (thread' : String) :
    (w.openTaken thread').MayGoOn thread k := by
  obtain ⟨htaken, n, hwait, hopened⟩ := h
  exact ⟨w.idle_openTaken thread' htaken, n, hwait,
    (w.mem_opened_openTaken thread' n).mpr (.inr hopened)⟩

/-- A thread may go on after the step of another thread that opens its latch. -/
theorem Run.mayGoOn_of_taken (hrun : Run d (.new timeout s₀ g₀) past w) {thread' : String} {n : Nat}
    (hwait : w.waits thread = some ⟨k, 0, n⟩) (htaken : w.taken thread' = some n) :
    (w.openTaken thread').MayGoOn thread k :=
  ⟨w.idle_openTaken thread' (hrun.taken_of_waits hwait), n, hwait,
    (w.mem_opened_openTaken thread' n).mpr (.inl htaken)⟩

theorem state_of_opens (h : c.Opens k) :
    ((Gate.onto d).perform m w.state w.ground c).state.1 = w.state.1.unlatch k := by
  cases c with
  | put | remove | release =>
    obtain rfl := h
    rfl
  | _ => exact h.elim

omit [DecidableEq κ] in
theorem World.IsFair.idle_of_opens (h : w.IsFair thread c) (hopens : c.Opens k) :
    w.waits thread = none := by
  cases c with
  | put | remove | release => exact h.2
  | _ => exact hopens.elim

/-- The latch of a thread that waits for a key is out of the table once the key was written, removed
or released. -/
theorem Guards.isOut_of_opens (h : Guards w.state.1 w.IsOut w.waits w.keys)
    (hfair : w.IsFair m.thread c) (hopens : c.Opens k) {n : Nat}
    (hwait : w.waits thread = some ⟨k, 0, n⟩) : (w.after d m c).IsOut n := by
  rw [World.isOut_after hfair.1, state_of_opens hopens, Gate.mem_opened_unlatch]
  exact (h.waiter thread k n hwait).imp_right .inr

/-- A thread that waits for a key may go on once the key was written, removed or released, or
another thread took out its latch before and is about to open it. -/
theorem Run.mayGoOn_of_opens (hrun : Run d (.new timeout s₀ g₀) past w)
    (hfair : w.IsFair m.thread c) (hopens : c.Opens k) {n : Nat}
    (hwait : w.waits thread = some ⟨k, 0, n⟩) :
    (w.complete d m c).MayGoOn thread k ∨
      ∃ thread', thread' ≠ thread ∧ w.taken thread' = some n ∧
        (w.complete d m c).taken thread' = some n := by
  have hne : thread ≠ m.thread := by
    rintro rfl
    cases (hfair.idle_of_opens hopens).symm.trans hwait
  have hidle := hrun.taken_of_waits hwait
  have hgo : n ∈ (w.state.1.unlatch k).opened → (w.complete d m c).MayGoOn thread k := by
    intro hopened
    refine ⟨(World.taken_complete_of_ne hne).trans hidle, n,
      (World.waits_after_of_ne hne).trans hwait, ?_⟩
    rwa [World.state_complete, state_of_opens hopens]
  rcases hrun.guards.waiter thread k n hwait with (hopened | ⟨thread', htaken⟩) | hregistered
  · exact .inl (hgo (Gate.mem_opened_unlatch.mpr (.inl hopened)))
  · have hne' : thread' ≠ m.thread := by
      rintro rfl
      cases hfair.1.symm.trans htaken
    refine .inr ⟨thread', ?_, htaken, (World.taken_complete_of_ne hne').trans htaken⟩
    rintro rfl
    cases hidle.symm.trans htaken
  · exact .inl (hgo (Gate.mem_opened_unlatch.mpr (.inr hregistered)))

end MayGoOn

/-- A lookup that goes on takes a new latch if none is registered. -/
theorem Guards.takes_of_resume (h : Guards w.state.1 w.IsOut w.waits w.keys) {m : Moment} {k : κ}
    (hfree : w.state.1.latches.find? k = none) :
    w.keys w.state.1.issued = none ∧
      (w.after d m (.resume k 0 .opened)).keys w.state.1.issued = some k ∧
      (Gate.onto d).resume m k 0 .opened w.state w.ground =
        (w.state.1.latch k m.thread).settle k (d.get m k w.state.2 w.ground) := by
  have hresume : (Gate.onto d).resume m k 0 .opened w.state w.ground =
      (w.state.1.latch k m.thread).settle k (d.get m k w.state.2 w.ground) := by
    simp only [Gate.onto, Gate.enter, hfree]
  refine ⟨?_, ?_, hresume⟩
  · rw [← Option.not_isSome_iff_eq_none, h.issued]
    exact Nat.lt_irrefl _
  · have hissued : ((Gate.onto d).perform m w.state w.ground
        (.resume k 0 .opened)).state.1.issued = w.state.1.issued + 1 := by
      simp only [Cache.perform, hresume]
      rcases settle_cases (w.state.1.latch k m.thread) k (d.get m k w.state.2 w.ground)
        (.resume k 0 .opened) with ⟨ht, -⟩ | ⟨ht, -⟩ <;> simp [ht]
    simp only [World.after]
    rw [Guards.keysAfter_of_latch rfl hissued, Function.update_self]

/-- A lookup that goes on waits again if a latch is registered: for a newer one, of another
thread. -/
theorem Guards.waits_of_resume (h : Guards w.state.1 w.IsOut w.waits w.keys) {m : Moment} {k : κ}
    {n : Nat} (hwait : w.waits m.thread = some ⟨k, 0, n⟩) (hopened : n ∈ w.state.1.opened)
    {l : Latch} (hl : w.state.1.latches.find? k = some l) :
    n < l.number ∧ l.owner ≠ m.thread ∧
      (w.after d m (.resume k 0 .opened)).waits m.thread = some ⟨k, 0, l.number⟩ ∧
      (w.after d m (.resume k 0 .opened)).state = w.state := by
  obtain ⟨hne, hle⟩ := h.foreign m.thread k n l hwait hl
  have hnew : n ≠ l.number := by
    rintro rfl
    exact h.inside k l hl (.inl hopened)
  have hresume : (Gate.onto d).perform m w.state w.ground (.resume k 0 .opened) =
      ⟨w.state, w.ground, .looked (.waiting 0 l.number)⟩ := by
    simp only [Cache.perform, Gate.onto, Gate.enter, hl, if_neg hne]
  refine ⟨Nat.lt_of_le_of_ne hle hnew, hne, ?_, World.state_after (congrArg Reply.state hresume)⟩
  simp only [World.after, hresume, Function.update_self]
  rfl

/-- What is true of threads that wait, also while others are between the two steps of a call. -/
structure Awaited (d : Cache κ α σ) (w : World κ α σ) : Prop where
  /-- A latch that a thread waits for is open, or about to be opened by another thread, or it is
  registered for its key and another thread has it. -/
  waiter : ∀ thread k n, w.waits thread = some ⟨k, 0, n⟩ →
    n ∈ w.state.1.opened ∨ (∃ thread', thread' ≠ thread ∧ w.taken thread' = some n) ∨
      ∃ l, w.state.1.latches.find? k = some l ∧ l.number = n ∧ l.owner ≠ thread
  /-- A registered latch is neither open nor about to be opened. -/
  registered : ∀ k l, w.state.1.latches.find? k = some l →
    w.keys l.number = some k ∧ ¬w.IsOut l.number
  issued : ∀ n, n < w.state.1.issued ↔ ∃ k, w.keys n = some k
  /-- Of the latches that were made for a key at most one is neither open nor about to be opened. -/
  unique : ∀ k n n', w.keys n = some k → w.keys n' = some k → ¬w.IsOut n → ¬w.IsOut n' → n = n'
  /-- The step that opens a latch lets the threads that wait for it go on. -/
  opened : ∀ thread thread' k n, w.waits thread = some ⟨k, 0, n⟩ → w.taken thread' = some n →
    (w.openTaken thread').MayGoOn thread k
  /-- A write, a removal and a release of a key take out the latches that threads wait for. When
  they are over, these threads may go on, but for those whose latch another thread took out before
  and is about to open. -/
  opens : ∀ m c k, w.IsFair m.thread c → c.Opens k → ∀ thread n,
    w.waits thread = some ⟨k, 0, n⟩ → (w.after d m c).IsOut n ∧
      ((w.complete d m c).MayGoOn thread k ∨ ∃ thread', thread' ≠ thread ∧
        w.taken thread' = some n ∧ (w.complete d m c).taken thread' = some n)
  /-- A thread that may go on still may after any step of another one. -/
  kept : ∀ thread k, w.MayGoOn thread k →
    (∀ m c, thread ≠ m.thread → (w.after d m c).MayGoOn thread k) ∧
      ∀ thread', (w.openTaken thread').MayGoOn thread k
  /-- A lookup that goes on takes a new latch, or it waits for the registered one, which is newer
  than its own and another thread's. -/
  resumes : ∀ m k n, w.waits m.thread = some ⟨k, 0, n⟩ → n ∈ w.state.1.opened →
    (w.keys w.state.1.issued = none ∧
        (w.after d m (.resume k 0 .opened)).keys w.state.1.issued = some k ∧
        (Gate.onto d).resume m k 0 .opened w.state w.ground =
          (w.state.1.latch k m.thread).settle k (d.get m k w.state.2 w.ground)) ∨
      ∃ l, w.state.1.latches.find? k = some l ∧ n < l.number ∧ l.owner ≠ m.thread ∧
        (w.after d m (.resume k 0 .opened)).waits m.thread = some ⟨k, 0, l.number⟩ ∧
        (w.after d m (.resume k 0 .opened)).state = w.state

theorem Run.awaited (hrun : Run d (.new timeout s₀ g₀) past w) : Awaited d w where
  waiter thread k n hwait := by
    rcases hrun.guards.waiter thread k n hwait with (hopened | ⟨thread', htaken⟩) | ⟨l, hl, hn⟩
    · exact .inl hopened
    · refine .inr (.inl ⟨thread', ?_, htaken⟩)
      rintro rfl
      cases (hrun.waits_of_taken htaken).symm.trans hwait
    · exact .inr (.inr ⟨l, hl, hn, (hrun.guards.foreign thread k n l hwait hl).1⟩)
  registered k l hl := ⟨hrun.guards.made k l hl, hrun.guards.inside k l hl⟩
  issued n := by rw [← hrun.guards.issued, Option.isSome_iff_exists]
  unique k n n' hn hn' hinside hinside' := by
    obtain ⟨l, hl, rfl⟩ := hrun.guards.registered n k hn hinside
    obtain ⟨l', hl', rfl⟩ := hrun.guards.registered n' k hn' hinside'
    exact congrArg Latch.number (Option.some.inj (hl.symm.trans hl'))
  opened _ _ _ _ hwait htaken := hrun.mayGoOn_of_taken hwait htaken
  opens _ _ _ hfair hopens _ _ hwait :=
    ⟨hrun.guards.isOut_of_opens hfair hopens hwait, hrun.mayGoOn_of_opens hfair hopens hwait⟩
  kept _ _ h := ⟨fun _ _ hne => h.after hne, h.openTaken⟩
  resumes m k n hwait hopened := by
    cases hl : w.state.1.latches.find? k with
    | none => exact .inl (hrun.guards.takes_of_resume hl)
    | some l => exact .inr ⟨l, rfl, hrun.guards.waits_of_resume hwait hopened hl⟩

omit [DecidableEq κ] in
theorem World.IsQuiet.isOut_iff (h : w.IsQuiet) (n : Nat) : w.IsOut n ↔ n ∈ w.state.1.opened := by
  refine or_iff_left ?_
  rintro ⟨thread, htaken⟩
  cases (h thread).symm.trans htaken

/-- In every world that threads come to, a thread that waits does so for a latch that is open, that
another thread is about to open, or that is registered for its key and another thread has. Where no
thread is between the two steps of a call, and so in every world that whole calls lead to, the latch
is open or registered, of the latches that were made for a key at most one is not open, and every
thread that waits for a key may go on after a write, a removal or a release of it. It still may
whatever others do; when it goes on it takes a new latch, or it waits for the registered one, which
is newer than its own. -/
theorem Run.no_waiter_left_behind (hrun : Run d (.new timeout s₀ g₀) past w) :
    Awaited d w ∧ (w.IsQuiet → (∀ m c, (w.complete d m c).IsQuiet) ∧
      (∀ thread k n, w.waits thread = some ⟨k, 0, n⟩ → n ∈ w.state.1.opened ∨
        ∃ l, w.state.1.latches.find? k = some l ∧ l.number = n ∧ l.owner ≠ thread) ∧
      (∀ k l, w.state.1.latches.find? k = some l → l.number ∉ w.state.1.opened) ∧
      (∀ k n n', w.keys n = some k → w.keys n' = some k → n ∉ w.state.1.opened →
        n' ∉ w.state.1.opened → n = n') ∧
      ∀ m c k, w.IsFair m.thread c → c.Opens k → ∀ thread n,
        w.waits thread = some ⟨k, 0, n⟩ → (w.complete d m c).MayGoOn thread k) := by
  have h := hrun.awaited
  refine ⟨h, fun hquiet => ⟨hquiet.complete d, ?_, ?_, ?_, ?_⟩⟩
  · intro thread k n hwait
    rcases h.waiter thread k n hwait with hopened | ⟨thread', -, htaken⟩ | hregistered
    · exact .inl hopened
    · cases (hquiet thread').symm.trans htaken
    · exact .inr hregistered
  · exact fun k l hl hopened => (h.registered k l hl).2 (.inl hopened)
  · intro k n n' hn hn' hopened hopened'
    exact h.unique k n n' hn hn' (mt (hquiet.isOut_iff n).mp hopened)
      (mt (hquiet.isOut_iff n').mp hopened')
  · intro m c k hfair hopens thread n hwait
    rcases (h.opens m c k hfair hopens thread n hwait).2 with hgo | ⟨thread', -, htaken, -⟩
    · exact hgo
    · cases (hquiet thread').symm.trans htaken

end Runs

/-! ## A latch that is replaced while a thread waits for it -/

namespace Overtaken

def below : Cache Nat Sample Unit := Cache.bare "users" 0

def start : World Nat Sample Unit := .new (some 30) () {}

/-- The world after a call of a thread. -/
def after (w : World Nat Sample Unit) (thread : String) (c : Call Nat Sample) :
    World Nat Sample Unit := w.after below { thread := thread } c

def missed := after start "A" (.get 1)

def waiting := after missed "B" (.get 1)

/-- The latch of the first thread is out of the table, but not open. -/
def released := after waiting "A" (.release 1)

def overtaken := after released "C" (.get 1)

def opened := overtaken.openTaken "A"

def again := after opened "B" (.resume 1 0 .opened)

theorem isQuiet_again : again.IsQuiet := by
  intro thread
  by_cases ha : thread = "A"
  · subst ha
    rfl
  by_cases hb : thread = "B"
  · subst hb
    rfl
  by_cases hc : thread = "C"
  · subst hc
    rfl
  · simp only [again, opened, overtaken, released, waiting, missed, start, after, World.after,
      World.openTaken, World.new, Function.update_of_ne ha, Function.update_of_ne hb,
      Function.update_of_ne hc]

/-- A thread misses a key and gives its latch back. Before it opens the latch that it took out, a
third thread takes a new one; the second thread, which has waited for the old latch, may go on when
that is open, then waits for the new one, and may go on again once the third thread stored a
value. -/
theorem waiter_of_replaced_latch_goes_on :
    (∃ past, Run below start past overtaken) ∧ overtaken.waits "B" = some ⟨1, 0, 0⟩ ∧
      overtaken.taken "A" = some 0 ∧ overtaken.state.1.opened = [] ∧ opened.MayGoOn "B" 1 ∧
      again.waits "B" = some ⟨1, 0, 1⟩ ∧
      (again.complete below { thread := "C" } (.put 1 0 ⟨"c"⟩)).MayGoOn "B" 1 := by
  have hmissed : Run below start _ missed :=
    .call { thread := "A" } (.get 1) .start ⟨rfl, rfl⟩
  have hwaiting : Run below start _ waiting :=
    .call { thread := "B" } (.get 1) hmissed ⟨rfl, rfl⟩
  have hreleased : Run below start _ released :=
    .call { thread := "A" } (.release 1) hwaiting ⟨rfl, rfl⟩
  have hovertaken : Run below start _ overtaken :=
    .call { thread := "C" } (.get 1) hreleased ⟨rfl, rfl⟩
  have hopened : Run below start _ opened := .openTaken "A" hovertaken
  have hgo : opened.MayGoOn "B" 1 := hovertaken.no_waiter_left_behind.1.opened "B" "A" 1 0 rfl rfl
  have hagain : Run below start _ again :=
    .call { thread := "B" } (.resume 1 0 .opened) hopened hgo.isFair
  have hwait : again.waits "B" = some ⟨1, 0, 1⟩ := by
    rcases hopened.no_waiter_left_behind.1.resumes { thread := "B" } 1 0 rfl List.mem_cons_self with
      ⟨-, -, hnew⟩ | ⟨l, hl, -, -, hnewer, -⟩
    · cases hnew
    · obtain rfl := Option.some.inj hl
      exact hnewer
  obtain ⟨-, -, -, -, hopens⟩ := hagain.no_waiter_left_behind.2 isQuiet_again
  exact ⟨⟨_, hovertaken⟩, rfl, rfl, rfl, hgo, hwait,
    hopens { thread := "C" } (.put 1 0 ⟨"c"⟩) 1 ⟨rfl, rfl⟩ rfl "B" 1 hwait⟩

end Overtaken

end Threads

end LayeredCache
