import LayeredCache.Proofs.Chain
import LayeredCache.Proofs.Layer.Readback

/-!
# Chains read what was written last

A chain may lose a value at any time: layers evict, flush and reclaim, and each keeps an index of
its own that need not agree with what lies below it. A value that it still yields is the one of the
last write of its key that succeeded, and neither a removal nor a clear came after that write. This
is an invariant of the base store, kept call by call because all layers are faithful.

Without a reclaiming layer nothing is lost between a write and the next lookup as long as the clocks
stand still.

## Main statements

* `Cache.Run.agrees` — what the base store holds goes back to the last write of its key.
* `Cache.Run.fresh` — after a write that succeeded the base store holds the value.
* `Chain.coherent` — both facts for every chain that was built.
-/

namespace LayeredCache

variable {κ α σ : Type} [DecidableEq κ]

namespace Cache

/-- What a call has left under a key: `some` of a value if it wrote one, `some none` if it took the
key away, `none` if it did neither. A write that failed did neither. -/
def Record.leaves (k : κ) (r : Record κ α) : Option (Option α) :=
  match r.call, r.answer with
  | .put k' _ v, .written (.ok ()) => if k' = k then some (some v) else none
  | .remove k', _ => if k' = k then some none else none
  | .clear, _ => some none
  | _, _ => none

/-- The value of the last write of a key that succeeded, unless the key was removed or everything
was cleared since. -/
def lastWritten (k : κ) : (past : List (Record κ α)) → Option α
  | [] => none
  | r :: past =>
    match r.leaves k with
    | some left => left
    | none => lastWritten k past

theorem lastWritten_cons_of_none {k : κ} {r : Record κ α} (h : r.leaves k = none)
    (past : List (Record κ α)) : lastWritten k (r :: past) = lastWritten k past := by
  rw [lastWritten, h]

theorem Record.call_eq_of_leaves {k : κ} {r : Record κ α} {v : α} (h : r.leaves k = some (some v)) :
    ∃ serial, r.call = .put k serial v := by
  unfold leaves at h
  split at h
  · next k' serial v' hcall _ =>
    split at h
    · next he =>
      cases h
      exact ⟨serial, by rw [hcall, he]⟩
    · cases h
  · split at h <;> cases h
  · cases h
  · cases h

theorem exists_put_of_lastWritten {k : κ} {v : α} {past : List (Record κ α)}
    (h : lastWritten k past = some v) : ∃ r ∈ past, ∃ serial, r.call = .put k serial v := by
  induction past with
  | nil => cases h
  | cons r past ih =>
    rw [lastWritten] at h
    cases hleft : r.leaves k with
    | none =>
      rw [hleft] at h
      obtain ⟨r', hr', hcall⟩ := ih h
      exact ⟨r', List.mem_cons_of_mem r hr', hcall⟩
    | some left =>
      rw [hleft] at h
      cases h
      exact ⟨r, List.mem_cons_self, Record.call_eq_of_leaves hleft⟩

/-- What the base store holds goes back to the last write of its key. -/
def Agrees (d : Cache κ α σ) (keep : Content α → Except CodecError (Content α))
    (past : List (Record κ α)) (g : Ground κ α) : Prop :=
  ∀ k y, g.content d.base k = some y → ∃ v, lastWritten k past = some v ∧ keep (.plain v) = .ok y

section

variable {d : Cache κ α σ} {keep read : Content α → Except CodecError (Content α)}

/-- A call that writes nothing and takes nothing away keeps the agreement. -/
theorem Agrees.cons {past : List (Record κ α)} {g g' : Ground κ α} (h : d.Agrees keep past g)
    {r : Record κ α} (hr : ∀ k, r.leaves k = none) (hg : g'.Within d.base g) :
    d.Agrees keep (r :: past) g' := by
  intro k y hy
  obtain ⟨v, hv, hkeep⟩ := h k y (hg k y hy)
  exact ⟨v, (lastWritten_cons_of_none (hr k) past).trans hv, hkeep⟩

theorem Faithful.agrees_perform (H : d.Faithful keep read) {past : List (Record κ α)}
    {s : σ} {g : Ground κ α} (h : d.Agrees keep past g) (m : Moment) (c : Call κ α) :
    d.Agrees keep (⟨m, c, (d.perform m s g c).answer⟩ :: past) (d.perform m s g c).ground := by
  cases c with
  | put k serial v =>
    cases ha : (d.put m k { item := ⟨serial, .plain v⟩ } s g).answer with
    | error e =>
      refine h.cons ?_ (H.put_error m k _ s g e ha)
      intro k'
      simp [Record.leaves, perform, ha]
    | ok _ =>
      obtain ⟨y, hkeep, hwrote⟩ := H.put_ok m k _ s g ha
      intro k' y' hy'
      have hw := hwrote k' y' hy'
      by_cases he : k' = k
      · rw [if_pos he] at hw
        subst he
        exact ⟨v, by simp [lastWritten, Record.leaves, perform, ha], hw ▸ hkeep⟩
      · rw [if_neg he] at hw
        obtain ⟨v', hv', hkeep'⟩ := h k' y' hw
        exact ⟨v', by simpa [lastWritten, Record.leaves, perform, ha, Ne.symm he] using hv', hkeep'⟩
  | get k => exact h.cons (fun _ => rfl) (H.get m k s g)
  | resume k gate w => exact h.cons (fun _ => rfl) (H.resume m k gate w s g)
  | remove k =>
    intro k' y' hy'
    by_cases he : k' = k
    · subst he
      have habsent := H.remove_absent m k' s g
      rw [show (d.perform m s g (.remove k')).ground = (d.remove m k' s g).ground from rfl,
        habsent] at hy'
      cases hy'
    · obtain ⟨v, hv, hkeep⟩ := h k' y' (H.remove m k s g k' y' hy')
      exact ⟨v, by simpa [lastWritten, Record.leaves, Ne.symm he] using hv, hkeep⟩
  | clear =>
    intro k' y' hy'
    have habsent := H.clear m s g k'
    rw [show (d.perform m s g .clear).ground = (d.clear m s g).ground from rfl, habsent] at hy'
    cases hy'
  | size => exact h.cons (fun _ => rfl) (H.size m s g)
  | release k => exact h.cons (fun _ => rfl) (H.release m k s g)

theorem Run.agrees (H : d.Faithful keep read) {s₀ s : σ} {g₀ g : Ground κ α}
    {past : List (Record κ α)} (hrun : d.Run s₀ g₀ past s g)
    (h₀ : ∀ k, g₀.content d.base k = none) :
    d.Agrees keep past g := by
  induction hrun with
  | start =>
    intro k y hy
    rw [h₀ k] at hy
    cases hy
  | call m c _ ih => exact H.agrees_perform ih m c
  | elsewhere g' _ hg ih =>
    intro k y hy
    exact ih k y ((Ground.content_congr hg k) ▸ hy)

/-- After a write that succeeded the base store holds the value, and a lookup passes. -/
theorem Run.fresh {I : σ → Prop} {Q : (Clock → Span) → κ → σ → Prop}
    (H : d.Recalls keep read I Q) (hI : d.Upholds fun s _ => I s) {s₀ s : σ} {g₀ g : Ground κ α}
    {past past' : List (Record κ α)} (hrun : d.Run s₀ g₀ past s g) (h₀ : I s₀) {m : Moment} {k : κ}
    {serial : Nat} {v : α} (hlast : past = ⟨m, .put k serial v, .written (.ok ())⟩ :: past') :
    Q m.time k s ∧ ∃ y, keep (.plain v) = .ok y ∧ g.content d.base k = some y := by
  induction hrun with
  | start => cases hlast
  | call m' c hrun' _ =>
    injection hlast with hrecord _
    injection hrecord with hm hc hanswer
    subst hm
    subst hc
    injection hanswer with hanswer
    exact H.put m' k _ _ _ (hrun'.upholds hI h₀) hanswer
  | elsewhere g' _ hg ih =>
    obtain ⟨hQ, y, hkeep, hy⟩ := ih hlast
    exact ⟨hQ, y, hkeep, (Ground.content_congr hg k).trans hy⟩

end

end Cache

namespace Chain

open Cache (lastWritten)

variable [Codec α]

/-- Whatever calls were made on a chain that was built over a new base store, and whatever others
did meanwhile: a value that a lookup or a removal yields is the one of the last write of the key
that succeeded, and the key was neither removed nor cleared since. Without a reclaiming layer, a
lookup right after a write that succeeded yields the value that was written, if the clocks stand
still. Values that a layer keeps as bytes must be read from their bytes as they were. -/
theorem coherent {id : String} {base : Nat} {signal : Signal} {layers : List Layer} {m₀ : Moment}
    {g₀ g₁ : Ground κ α} {c : Chain κ} (hbuild : build id base signal layers m₀ g₀ = (g₁, .ok c))
    (hnew : g₀.store base = .empty) {past : List (Cache.Record κ α)} {s : Stack κ c.kinds}
    {g : Ground κ α} (hrun : c.cache.Run c.stack g₁ past s g)
    (hcodec : .serialized ∈ layers → ∀ r ∈ past, ∀ k serial v, r.call = .put k serial v →
      RoundTrips v) :
    (∀ m k x, ((c.cache.get m k s g).answer = .done (.ok (some x)) ∨
        (∃ gate w, (c.cache.resume m k gate w s g).answer = .done (.ok (some x))) ∨
        (c.cache.remove m k s g).answer = some x) →
      ∃ v, lastWritten k past = some v ∧ x.item.content = .plain v) ∧
    ((∀ l ∈ layers, l.isReclaiming = false) → ∀ m m' k serial v past',
      past = ⟨m, .put k serial v, .written (.ok ())⟩ :: past' → m'.time = m.time →
      ∃ x, (c.cache.get m' k s g).answer = .done (.ok (some x)) ∧ x.item.content = .plain v) := by
  have hbuilt := isBuilt_of_build hbuild
  have hfaithful : (c.cache : Cache κ α _).Faithful (Stack.keep c.kinds) (Stack.read c.kinds) :=
    Stack.faithful c.id c.base c.kinds
  have hstart : ∀ k, g₁.content (c.cache : Cache κ α _).base k = none := by
    intro k
    rw [base_cache, hbuilt.base_eq, Ground.content, hbuilt.store_eq, hnew]
    rfl
  have hroundTrips : ∀ {r : Cache.Record κ α}, r ∈ past → ∀ {k serial v},
      r.call = .put k serial v → .packing ∈ c.kinds → RoundTrips v :=
    fun hr _ _ _ hcall hm => hcodec (hbuilt.packing_mem_iff.mp hm) _ hr _ _ _ hcall
  constructor
  · intro m k x hx
    have hstored : ∃ y, g.content (c.cache : Cache κ α _).base k = some y ∧
        Stack.read c.kinds y = .ok x.item.content := by
      rcases hx with hx | ⟨gate, w, hx⟩ | hx
      · exact hfaithful.get_some m k s g x hx
      · exact hfaithful.resume_some m k gate w s g x hx
      · exact hfaithful.remove_some m k s g x hx
    obtain ⟨y, hy, hread⟩ := hstored
    obtain ⟨v, hv, hkeep⟩ := hrun.agrees hfaithful hstart k y hy
    obtain ⟨r, hr, serial, hcall⟩ := Cache.exists_put_of_lastWritten hv
    have hshown := Stack.read_keep c.kinds (hroundTrips hr hcall) hkeep
    rw [hread] at hshown
    injection hshown with hcontent
    exact ⟨v, hv, hcontent⟩
  · intro hkeeping m m' k serial v past' hpast htime
    have hrecalls : (c.cache : Cache κ α _).Recalls (Stack.keep c.kinds) (Stack.read c.kinds)
        (Stack.Sound c.kinds) (fun time k => Stack.Ready time k c.kinds) :=
      Stack.recalls c.id c.base c.kinds (hbuilt.leasing_not_mem hkeeping)
    have hupholds := Stack.upholds_sound (κ := κ) (α := α) c.id c.base c.kinds
    obtain ⟨hready, y, hkeep, hy⟩ := hrun.fresh hrecalls hupholds hbuilt.sound hpast
    have hmem : ⟨m, .put k serial v, .written (.ok ())⟩ ∈ past := hpast ▸ List.mem_cons_self
    have hshown := Stack.read_keep c.kinds (hroundTrips hmem rfl) hkeep
    exact hrecalls.get m' k s g y _ (htime ▸ hready) hy hshown

/-- Two bounded layers with room for one key each, and bytes between them: the second key that is
written is read back, and the first one is gone. -/
theorem second_key_reads_back :
    let layers : List Layer := [.fifo 1, .serialized, .lru 1]
    let c : Chain Nat :=
      ⟨"users", 0, [.lru, .packing, .fifo], (Recency.ofCapacity 1, (), { capacity := 1 }, ())⟩
    let g₁ : Ground Nat String := Ground.note {} (.built "users" (Layer.describe layers))
    let first := c.cache.perform {} c.stack g₁ (.put 1 0 "a")
    let second := c.cache.perform {} first.state first.ground (.put 2 1 "b")
    let past := [⟨{}, .put 2 1 "b", second.answer⟩, ⟨{}, .put 1 0 "a", first.answer⟩]
    build "users" 0 .silent layers {} {} = (g₁, .ok c) ∧
      c.cache.Run c.stack g₁ past second.state second.ground ∧
      (∃ x, (c.cache.get {} 2 second.state second.ground).answer = .done (.ok (some x)) ∧
        x.item.content = .plain "b") ∧
      second.ground.content 0 1 = none := by
  intro layers c g₁ first second past
  have hbuild : build "users" 0 .silent layers {} {} = (g₁, .ok c) := rfl
  have hrun : c.cache.Run c.stack g₁ past second.state second.ground :=
    .call {} (.put 2 1 "b") (.call {} (.put 1 0 "a") .start)
  have hcodec : ∀ r ∈ past, ∀ k serial v, r.call = .put k serial v → RoundTrips v := by
    intro r hr k serial v hcall
    rcases List.mem_pair.mp hr with rfl | rfl
    · cases hcall
      exact fun bytes hbytes => by cases hbytes; rfl
    · cases hcall
      exact fun bytes hbytes => by cases hbytes; rfl
  -- The values of the local definitions are put in first: then both sides are closed terms.
  have hsecond : second.answer = .written (.ok ()) := by
    simp only [second, first, c, g₁, layers]
    rfl
  have hpast :
      past = [⟨{}, .put 2 1 "b", .written (.ok ())⟩, ⟨{}, .put 1 0 "a", first.answer⟩] := by
    simp only [past, hsecond]
  have hgone : second.ground.content 0 1 = none := by decide +kernel
  have hread := (coherent hbuild rfl hrun fun _ => hcodec).2 (by decide) {} {} 2 1 "b" _ hpast rfl
  exact ⟨hbuild, hrun, hread, hgone⟩

end Chain

end LayeredCache
