import LayeredCache.Proofs.Builder
import LayeredCache.Proofs.Transaction.Holding
import LayeredCache.Session.Sample

/-!
# One populator at a time

A thread that has missed a key of a blocking cache holds its latch, so that lookups of the key by
other threads wait, until another thread opens it. A thread opens latches of keys that it has missed
itself, and as long as no commit fails these are its own. A commit that fails opens the latch of the
key that it could not write and keeps the key among the missed ones; by the time the thread tries
again or rolls back, another one may have taken the latch anew, and loses it.

## Main statements

* `Sharing.Run.waits_iff_undisturbed` — when exactly a thread is the only one to populate a key.
* `Sharing.LostLatch.rollback_opens_foreign_latch` — a run in which it is not.
-/

namespace LayeredCache.Sharing

variable {ι κ α σ τ : Type} [DecidableEq κ]

section Runs

variable {d : Cache κ α σ} {I : σ → Ground κ α → Prop}
  {keep read : Content α → Except CodecError (Content α)} {others : ι → Cache κ α τ}
  {past : List (Event κ α)} {w : World ι κ α (Gate κ × σ) τ}

/-- A thread that is not at the key goes on holding its latch unless another one opens it. -/
theorem holder?_cons_eq_iff {e : Event κ α} {thread : String} {k : κ} (hends : ¬e.Ends thread)
    (hmisses : ¬e.Misses thread k)
    (hdone : ∀ found thread', e.deed = .looked k (.done found) → holder? k past = some thread' →
      thread' = e.thread ∧ found = .ok none) :
    holder? k (e :: past) = some thread ↔
      ¬(e.thread ≠ thread ∧ k ∈ e.opens) ∧ holder? k past = some thread := by
  obtain ⟨other, deed⟩ := e
  have hkeys : ∀ keys : List κ, other ≠ thread →
      ((if k ∈ keys then none else holder? k past) = some thread ↔
        ¬(other ≠ thread ∧ k ∈ keys) ∧ holder? k past = some thread) := by
    intro keys hne
    by_cases hk : k ∈ keys <;> simp [hk, hne]
  cases deed with
  | looked k' answer =>
    have hopens : ¬(other ≠ thread ∧ k ∈ Event.opens (⟨other, .looked k' answer⟩ : Event κ α)) :=
      fun h => by cases h.2
    rw [and_iff_right hopens]
    cases answer with
    | waiting gate n => rfl
    | done found =>
      by_cases hk : k = k'
      · subst hk
        -- The other side of the equivalence would be a lookup of the holder that misses.
        have hbefore : holder? k past ≠ some thread := fun hholder => by
          obtain ⟨hthread, hfound⟩ := hdone found thread rfl hholder
          exact hmisses ⟨hthread.symm, by rw [hfound]⟩
        refine iff_of_false ?_ hbefore
        intro h
        by_cases hnone : found = .ok none
        · subst hnone
          simp only [holder?, Event.latched, if_true, Option.some.injEq] at h
          exact hmisses ⟨h, rfl⟩
        · rw [holder?, latched_found hnone, if_pos rfl] at h
          cases h
      · have hother : holder? k (⟨other, .looked k' (.done found)⟩ :: past) = holder? k past := by
          rcases found with failure | _ | x <;> simp [holder?, Event.latched, hk]
        rw [hother]
  | gaveUp k' => exact (and_iff_right fun h => by cases h.2).symm
  | nothing => exact (and_iff_right fun h => by cases h.2).symm
  | committed result keys => exact hkeys keys fun he => hends ⟨he, trivial⟩
  | rolledBack keys => exact hkeys keys fun he => hends ⟨he, trivial⟩

/-- A thread that has missed a key holds its latch until another thread opens it. -/
theorem Run.holder?_eq_iff {w₀ : World ι κ α (Gate κ × σ) τ} (H : d.Thorough I)
    (hI : d.Upholds I) (hF : d.Faithful keep read)
    (hothers : ∀ i, (others i).id ≠ d.id ∧ (others i).Avoids d.base) (h₀ : Tells d I [] w₀)
    (hrun : Run (Gate.onto d) others w₀ past w) {thread : String} {k : κ}
    (hpopulating : IsPopulating thread k past) :
    holder? k past = some thread ↔ ¬IsDisturbed thread k past := by
  induction hrun with
  | start => exact hpopulating.elim
  | elsewhere w' _ _ ih => exact ih hpopulating
  | @call past w m a hbefore ha ih =>
    have K := hbefore.tells H hI hF hothers h₀
    have hthread := thread_perform (Gate.onto d) others m w a
    have hlooked : ∀ found, (a.perform (Gate.onto d) others m w).1.deed = .looked k (.done found) →
        ((Gate.onto d).get m k w.state.1 w.ground).answer = .done found :=
      fun found => K.answer_of_looked
    generalize (a.perform (Gate.onto d) others m w).1 = e at hpopulating hthread hlooked ⊢
    by_cases hmisses : e.Misses thread k
    · -- The latch is taken now.
      refine iff_of_true ?_ fun h => h.1 hmisses
      obtain ⟨other, deed⟩ := e
      obtain ⟨rfl, rfl⟩ := hmisses
      exact if_pos rfl
    · obtain ⟨hends, hpopulating⟩ := hpopulating.resolve_left hmisses
      have hdone : ∀ found thread', e.deed = .looked k (.done found) →
          holder? k past = some thread' → thread' = e.thread ∧ found = .ok none := by
        intro found thread' hdeed hholder
        rw [hthread]
        exact K.done_of_holder H hI hF (hlooked found hdeed) hholder
      rw [holder?_cons_eq_iff hends hmisses hdone, ih hpopulating, IsDisturbed,
        and_iff_right hmisses, not_or]

/-- As long as no commit fails, nobody opens the latch of another thread. -/
theorem Run.not_isDisturbed {w₀ : World ι κ α (Gate κ × σ) τ} (H : d.Thorough I)
    (hI : d.Upholds I) (hF : d.Faithful keep read)
    (hothers : ∀ i, (others i).id ≠ d.id ∧ (others i).Avoids d.base) (h₀ : Tells d I [] w₀)
    (hrun : Run (Gate.onto d) others w₀ past w) (hfails : ∀ e ∈ past, ¬e.Fails) {thread : String}
    {k : κ} (hpopulating : IsPopulating thread k past) : ¬IsDisturbed thread k past := by
  induction hrun with
  | start => exact hpopulating.elim
  | elsewhere w' _ _ ih => exact ih hfails hpopulating
  | @call past w m a hbefore ha ih =>
    have K := hbefore.tells H hI hF hothers h₀
    have hthread := thread_perform (Gate.onto d) others m w a
    rintro ⟨hmisses, hdisturbed⟩
    obtain ⟨-, hpopulating⟩ := hpopulating.resolve_left hmisses
    have hfails' : ∀ e ∈ past, ¬e.Fails := fun e he => hfails e (List.mem_cons_of_mem _ he)
    have ih := ih hfails' hpopulating
    obtain ⟨hne, hopens⟩ := hdisturbed.resolve_right ih
    have hholder := (hbefore.holder?_eq_iff H hI hF hothers h₀ hpopulating).mpr ih
    rw [K.exclusive hfails' m.thread k (K.missed_of_opens hopens)] at hholder
    injection hholder with hholder
    exact hne (hthread.trans hholder)

/-- What a thread that has missed a key can count on, and what it cannot. -/
theorem Run.populator {w₀ : World ι κ α (Gate κ × σ) τ} (H : d.Thorough I)
    (hI : d.Upholds I) (hF : d.Faithful keep read)
    (hothers : ∀ i, (others i).id ≠ d.id ∧ (others i).Avoids d.base) (h₀ : Tells d I [] w₀)
    (hrun : Run (Gate.onto d) others w₀ past w) {thread : String} {k : κ}
    (hpopulating : IsPopulating thread k past) :
    (¬IsDisturbed thread k past ↔ ∀ m : Moment, m.thread ≠ thread →
      ∃ n, ((Gate.onto d).get m k w.state.1 w.ground).answer = .waiting 0 n) ∧
    (IsDisturbed thread k past → w.ground.content d.base k = none →
      ∃ other, other ≠ thread ∧ ∀ m : Moment, m.thread = other →
        ((Gate.onto d).get m k w.state.1 w.ground).answer = .done (.ok none)) ∧
    (∀ (m : Moment) (a : Call ι κ α), m.thread ≠ thread →
      (a.perform (Gate.onto d) others m w).1.Misses m.thread k → IsDisturbed thread k past) := by
  have K := hrun.tells H hI hF hothers h₀
  have hholder := hrun.holder?_eq_iff H hI hF hothers h₀ hpopulating
  have hwaits : ¬IsDisturbed thread k past → ∀ m : Moment, m.thread ≠ thread →
      ∃ n, ((Gate.onto d).get m k w.state.1 w.ground).answer = .waiting 0 n := by
    intro hundisturbed m hne
    obtain ⟨n, hget⟩ := Gate.get_waits (d := d) (g := w.ground)
      ((K.owner k).trans (hholder.mpr hundisturbed)) hne.symm
    exact ⟨n, by rw [hget]⟩
  have hpasses : IsDisturbed thread k past → ∃ other, other ≠ thread ∧ ∀ m : Moment,
      m.thread = other → ∃ found, Gate.Passed d I m k w.state.1 w.ground
        ((Gate.onto d).get m k w.state.1 w.ground) found := by
    intro hdisturbed
    have hne : holder? k past ≠ some thread := fun h => hholder.mp h hdisturbed
    obtain ⟨other, hother, howner⟩ : ∃ other, other ≠ thread ∧
        ∀ thread', holder? k past = some thread' → thread' = other := by
      cases h : holder? k past with
      | none => exact ⟨thread ++ "a", by simp, fun _ h => by cases h⟩
      | some other =>
        refine ⟨other, fun he => hne (he ▸ h), ?_⟩
        intro thread' h'
        injection h' with h'
        exact h'.symm
    refine ⟨other, hother, fun m hm => Gate.passed H hI hF K.kept ?_⟩
    intro thread' h'
    rw [K.owner k] at h'
    rw [howner thread' h', hm]
  refine ⟨⟨hwaits, ?_⟩, ?_, ?_⟩
  · intro hall hdisturbed
    obtain ⟨other, hother, hpassed⟩ := hpasses hdisturbed
    obtain ⟨found, hpassed⟩ := hpassed { thread := other } rfl
    obtain ⟨n, hn⟩ := hall { thread := other } hother
    rw [hpassed.answer] at hn
    cases hn
  · intro hdisturbed habsent
    obtain ⟨other, hother, hpassed⟩ := hpasses hdisturbed
    refine ⟨other, hother, ?_⟩
    intro m hm
    obtain ⟨found, hpassed⟩ := hpassed m hm
    have hfound : found = .ok none := by
      by_contra hfound
      exact (hpassed.found hfound).2 habsent
    rw [hpassed.answer, hfound]
  · intro m a hne hmisses
    by_contra hundisturbed
    obtain ⟨n, hn⟩ := hwaits hundisturbed m hne
    rw [K.answer_of_looked hmisses.2] at hn
    cases hn

end Runs

/-! ## Chains -/

theorem unlatched_initial (w : Wiring) (m : Moment) (l : Layer) :
    l.kind.Unlatched (l.initial κ w m) := by
  cases l with
  | blocking timeout => exact fun _ => rfl
  | _ => trivial

/-- Any number of threads, each with a unit of work of its own, share a chain that was built with
latches, in any order of calls; a thread has missed a key and has called neither commit nor rollback
since. Then lookups of the key by other threads wait exactly as long as no commit or rollback of
another thread has written, removed or released the key. Until then no call of another thread misses
the key. From then on, if nothing is stored under the key, there is another thread that would miss
it. It does not come to that as long as no commit has failed. -/
theorem Run.waits_iff_undisturbed [Codec α] {b : Builder} (hblocking : b.blocking = true)
    {base : Nat} {m₀ : Moment} {g₀ g₁ : Ground κ α} {c : Chain κ}
    (hbuild : b.build base m₀ g₀ = (g₁, .ok c)) {others : ι → Cache κ α τ}
    (hothers : ∀ i, (others i).id ≠ c.id ∧ (others i).Avoids c.base) {t₀ : τ}
    {past : List (Event κ α)} {w : World ι κ α (Stack κ c.kinds) τ}
    (hrun : Run c.cache others { state := (c.stack, t₀), ground := g₁ } past w) {thread : String}
    {k : κ} (hpopulating : IsPopulating thread k past) :
    (¬IsDisturbed thread k past ↔ ∀ m : Moment, m.thread ≠ thread →
      ∃ n, (c.cache.get m k w.state.1 w.ground).answer = .waiting 0 n) ∧
    (∀ (m : Moment) (a : Call ι κ α), m.thread ≠ thread →
      (a.perform c.cache others m w).1.Misses m.thread k → IsDisturbed thread k past) ∧
    (IsDisturbed thread k past → w.ground.content c.base k = none →
      ∃ other, other ≠ thread ∧ ∀ m : Moment, m.thread = other →
        (c.cache.get m k w.state.1 w.ground).answer = .done (.ok none)) ∧
    ((∀ e ∈ past, ¬e.Fails) → ¬IsDisturbed thread k past) := by
  obtain ⟨layers, hlayers, hbuilt⟩ := Builder.exists_isBuilt_of_build hbuild
  obtain ⟨kinds, hkinds, hlatching, hleasing⟩ :=
    Builder.exists_kinds_of_blocking hblocking hlayers hbuilt
  have hregistered := hbuilt.registered (g₁.store c.base)
  have hunlatched := hbuilt.all Kind.Unlatched fun l _ _ w m => unlatched_initial w m l
  obtain ⟨id, base', kinds', stack⟩ := c
  obtain rfl : kinds' = .latching :: kinds := hkinds
  have hid : (Stack.cache id base' kinds : Cache κ α _).id = id := Stack.id_cache ..
  have hbase : (Stack.cache id base' kinds : Cache κ α _).base = base' := Stack.base_cache ..
  have H := Stack.thorough (κ := κ) (α := α) id base' kinds hleasing hlatching
  have hI := Stack.upholds_registered (κ := κ) (α := α) id base' kinds hleasing
  have hF : (Stack.cache id base' kinds : Cache κ α _).Faithful _ _ :=
    Stack.faithful id base' kinds
  have hothers' : ∀ i, (others i).id ≠ (Stack.cache id base' kinds : Cache κ α _).id ∧
      (others i).Avoids (Stack.cache id base' kinds : Cache κ α _).base := by
    rw [hid, hbase]
    exact hothers
  have h₀ : Tells (ι := ι) (τ := τ) (Stack.cache id base' kinds : Cache κ α _)
      (fun s g => Stack.Registered (g.store base') kinds s) []
      { state := (stack, t₀), ground := g₁ } :=
    { kept := hregistered.2
      owner := hunlatched.1
      absent := fun _ h => absurd rfl h
      proper := fun _ => UnitOfWork.Proper.nil _
      waits := fun _ _ _ _ h => by cases h
      exclusive := fun _ _ _ h => by cases h }
  have hpopulator := Run.populator H hI hF hothers' h₀ hrun hpopulating
  rw [hbase] at hpopulator
  exact ⟨hpopulator.1, hpopulator.2.2, hpopulator.2.1,
    fun hfails => Run.not_isDisturbed H hI hF hothers' h₀ hrun hfails hpopulating⟩

/-- While a thread populates a key, the lookup of another one waits; the units of work may take part
in another cache as well. -/
theorem second_thread_waits :
    let b : Builder := { id := "users", size := some 2, readWrite := false, blocking := true }
    let c : Chain Nat := ⟨"users", 0, [.latching, .passing, .counting, .lru],
      ({ timeout := none }, (), {}, Recency.ofCapacity 2, ())⟩
    let g : Ground Nat Sample := Ground.note {}
      (.built "users" (Layer.describe [.lru 2, .logging, .synchronized, .blocking none]))
    let others : Unit → Cache Nat Sample Unit := fun _ => .bare "orders" 1
    let w₀ : World Unit Nat Sample (Stack Nat c.kinds) Unit :=
      { state := (c.stack, ()), ground := g }
    let missed := (Call.get none 1).perform c.cache others { thread := "A" } w₀
    b.build 0 {} {} = (g, .ok c) ∧ Run c.cache others w₀ [missed.1] missed.2 ∧
      IsPopulating "A" 1 [missed.1] ∧ ¬IsDisturbed "A" 1 [missed.1] ∧
      ∀ m : Moment, m.thread ≠ "A" →
        ∃ n, (c.cache.get m 1 missed.2.state.1 missed.2.ground).answer = .waiting 0 n := by
  intro b c g others w₀ missed
  have hbuild : b.build 0 {} {} = (g, .ok c) := rfl
  have hothers : ∀ i, (others i).id ≠ c.id ∧ (others i).Avoids c.base := fun _ =>
    ⟨by decide, Cache.avoids_bare "orders" (by decide)⟩
  have hrun : Run c.cache others w₀ [missed.1] missed.2 :=
    .call { thread := "A" } (.get none 1) .start rfl
  have hpopulating : IsPopulating "A" 1 [missed.1] := .inl ⟨rfl, rfl⟩
  have hfails : ∀ e ∈ [missed.1], ¬e.Fails := by
    intro e he
    obtain rfl := List.mem_singleton.mp he
    rintro ⟨failure, touched, hdeed⟩
    cases hdeed
  obtain ⟨hwaits, -, -, hkept⟩ := Run.waits_iff_undisturbed rfl hbuild hothers hrun hpopulating
  exact ⟨hbuild, hrun, hpopulating, hkept hfails, hwaits.mp (hkept hfails)⟩

/-! ## A latch that is lost -/

namespace LostLatch

/-- A chain that keeps bytes below its latches. -/
def chain : Chain Nat :=
  ⟨"reports", 0, [.latching, .passing, .counting, .packing, .lru],
    ({ timeout := some 30000000 }, (), {}, (), Recency.ofCapacity 1024, ())⟩

/-- The ground after it was built. -/
def ground : Ground Nat Sample := Ground.note {} (.built "reports" (Layer.describe
  [.lru 1024, .serialized, .logging, .synchronized, .blocking (some 30000000)]))

/-- A thread makes a call in a world in which the chain is the only cache. -/
def call (thread : String) (a : Call Empty Nat Sample)
    (w : World Empty Nat Sample (Stack Nat chain.kinds) Unit) :
    Event Nat Sample × World Empty Nat Sample (Stack Nat chain.kinds) Unit :=
  a.perform chain.cache nofun { thread := thread } w

def start : World Empty Nat Sample (Stack Nat chain.kinds) Unit :=
  { state := (chain.stack, ()), ground := ground }

def missed := call "A" (.get none 1) start

/-- The value refuses to become bytes. -/
def asked := call "A" (.put none 1 ⟨0, .plain ⟨"!enc"⟩⟩) missed.2

def refused := call "A" .commit asked.2

def taken := call "B" (.get none 1) refused.2

def opened := call "A" .rollback taken.2

def past : List (Event Nat Sample) := [opened.1, taken.1, refused.1, asked.1, missed.1]

/-- A commit of `A` is refused and opens its latch, `B` misses the key and takes the latch, and then
`A` rolls back and opens it: `C` misses the key while `B` populates it. -/
theorem rollback_opens_foreign_latch :
    Builder.build { id := "reports", blocking := true, blockingTimeout := some 30000000 } 0 {} {} =
        (ground, .ok chain) ∧
      Run chain.cache nofun start past opened.2 ∧ refused.1.Fails ∧ IsPopulating "B" 1 past ∧
      IsDisturbed "B" 1 past ∧ (call "C" (.get none 1) opened.2).1.Misses "C" 1 := by
  have hmissed : Run chain.cache nofun start [missed.1] missed.2 :=
    .call { thread := "A" } (.get none 1) .start rfl
  have hasked : Run chain.cache nofun start [asked.1, missed.1] asked.2 :=
    .call { thread := "A" } (.put none 1 _) hmissed ⟨rfl, List.mem_singleton.mpr rfl⟩
  have hrefused : Run chain.cache nofun start [refused.1, asked.1, missed.1] refused.2 :=
    .call { thread := "A" } .commit hasked rfl
  have hrun : Run chain.cache nofun start past opened.2 :=
    .call { thread := "A" } .rollback (.call { thread := "B" } (.get none 1) hrefused rfl) rfl
  have htaken : taken.1.Misses "B" 1 := ⟨rfl, rfl⟩
  have hends : ¬opened.1.Ends "B" := fun h => absurd h.1 (by decide)
  have hopened : opened.1.thread ≠ "B" := by decide
  have hdisturbed : IsDisturbed "B" 1 past :=
    ⟨fun h => hopened h.1, .inl ⟨hopened, List.mem_singleton.mpr rfl⟩⟩
  exact ⟨rfl, hrun, ⟨_, _, rfl⟩, .inr ⟨hends, .inl htaken⟩, hdisturbed, rfl, rfl⟩

end LostLatch

end LayeredCache.Sharing
