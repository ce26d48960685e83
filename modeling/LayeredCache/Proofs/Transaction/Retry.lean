import LayeredCache.Proofs.Transaction.Overlay
import LayeredCache.Proofs.Transaction.Refusal
import LayeredCache.Proofs.Transaction.Units

/-!
# Commits that are made again

A commit over a layer that keeps bytes fails at the first value without bytes. What it has written
by then stands, and so does the clear that it began with, so a transaction that goes on sees another
store than one that never made that commit: its lookups find the values that were written, and miss
what was cleared. The difference is confined to the keys whose writes still wait, or to a store that
is still to be cleared. The next commit that succeeds writes those keys, or clears that store, and
nothing is left of the one that failed.

## Main definitions

* `Cache.Lossless` — what is written to a cache stands until another call takes it away.
* `unfailed` — the calls of a transaction without its commits that fail.
* `contentsAfter` — what is stored after each commit that succeeds.
* `Retried` — how far two transactions, one of which made commits that failed, may differ.

## Main statements

* `failed_commits_leave_no_trace` — after a commit that succeeds nothing is left of those that
  failed before it.
-/

namespace LayeredCache

variable {κ α σ : Type} [DecidableEq κ]

/-! ## Caches that lose nothing -/

/-- What is written to `d` stands in the base store as `keep` says until it is overwritten, removed
or cleared, and a write fails only where `keep` does. -/
structure Cache.Lossless (d : Cache κ α σ) (keep : Content α → Except CodecError (Content α)) :
    Prop extends d.Strict keep where
  put : ∀ m k c s g y, keep c.item.content = .ok y → ∀ k',
    (d.put m k c s g).ground.content d.base k' = if k' = k then some y else g.content d.base k'
  get : ∀ m k s g k', (d.get m k s g).ground.content d.base k' = g.content d.base k'
  get_none : ∀ m k s g,
    (d.get m k s g).answer = .done (.ok none) ↔ g.content d.base k = none
  remove : ∀ m k s g k', (d.remove m k s g).ground.content d.base k' =
    if k' = k then none else g.content d.base k'
  clear : ∀ m s g k, (d.clear m s g).ground.content d.base k = none

theorem Cache.lossless_bare (id : String) (base : Nat) :
    (Cache.bare id base : Cache κ α Unit).Lossless .ok where
  toStrict := strict_bare id base
  put m k c s g y h k' := by
    obtain rfl := Except.ok.inj h
    simp only [bare, Ground.content, Ground.store_setStore_self, Table.find?_insert]
    split <;> rfl
  get m k s g k' := rfl
  get_none m k s g := by simp [bare, Ground.content]
  remove m k s g k' := by
    obtain ⟨-, -, hstore⟩ := remove_bare id base m k g
    simp only [base_bare, Ground.content, hstore, Table.find?_erase]
    split <;> rfl
  clear m s g k := by simp [bare, Ground.content]

theorem Packing.lossless [Codec α] {d : Cache κ α σ}
    {keep : Content α → Except CodecError (Content α)} (H : d.Lossless keep) :
    (Packing.onto d).Lossless fun x => (pack x).bind fun bytes => keep (.packed bytes) where
  toStrict := strict H.toStrict
  put m k c s g y h k' := by
    simp only [onto]
    cases hp : pack c.item.content with
    | error e =>
      rw [hp] at h
      cases h
    | ok bytes =>
      rw [hp] at h
      exact H.put m k { item := ⟨g.issued, .packed bytes⟩ } s.2 g.issue y h k'
  get m k s g k' := (Ground.content_congr ((settle_spec _).1 _) k').trans (H.get m k s.2 g k')
  get_none m k s g := by
    refine Iff.trans ⟨fun hsettled => ?_, (settle_spec _).2.2.1⟩ (H.get_none m k s.2 g)
    simp only [onto, settle] at hsettled
    split at hsettled
    · split at hsettled <;> simp at hsettled
    · exact hsettled
  remove m k s g k' :=
    (Ground.content_congr (ground_remove d m k s g) k').trans (H.remove m k s.2 g k')
  clear m s g k := H.clear m s.2 g k

namespace Buffer

/-! ## Commits to caches that lose nothing -/

omit [DecidableEq κ] in
/-- Whether waiting writes can all be made depends on their values alone. -/
theorem writeAll_eq_ok_iff {d : Cache κ α σ} {keep : Content α → Except CodecError (Content α)}
    (H : d.Strict keep) {m : Moment} {writes : List (κ × Item α)} {s : σ} {g : Ground κ α} :
    (writeAll d m writes s g).answer = .ok () ↔ ∀ w ∈ writes, ∃ y, keep w.2.content = .ok y := by
  refine ⟨writeAll_succeeds H, fun hkeep => ?_⟩
  cases h : (writeAll d m writes s g).answer with
  | ok _ => rfl
  | error e =>
    obtain ⟨front, k, i, behind, cause, rfl, -, hcause, -⟩ := writeAll_fails H h
    obtain ⟨y, hy⟩ := hkeep (k, i) (List.mem_append_cons_self)
    cases hcause.symm.trans hy

theorem commit_of_ok {d : Cache κ α σ} {m : Moment} {b : Buffer κ α} {s : σ} {g : Ground κ α}
    (h : (b.commit d m s g).answer = .ok ()) :
    let u := b.cleared d (m.holding b.serials) s g
    let r := writeAll d (m.holding b.serials) b.writes u.1 u.2
    let t := d.removeAll (m.holding b.serials) b.unwritten r.state r.ground
    b.commit d m s g =
      ⟨({}, t.1), t.2.note (.committed d.id b.pending b.misses.length b.clearing), .ok ()⟩ := by
  rw [answer_commit] at h
  simp only [commit, cleared] at h ⊢
  rw [h]

theorem clearing_settle (b : Buffer κ α) (k : κ) (r : Reply κ α σ (Lookup κ α)) :
    (b.settle k r).state.1.clearing = b.clearing := by
  unfold settle
  split
  · simp only [learn, miss]
    split <;> [split; skip] <;> rfl
  · rfl

theorem mem_unwritten {b : Buffer κ α} {k : κ} :
    k ∈ b.unwritten ↔ k ∈ b.misses ∧ ∀ w ∈ b.writes, w.1 ≠ k := by
  simp [unwritten, writesTo]

section Lossless

variable {d : Cache κ α σ} {keep : Content α → Except CodecError (Content α)} (H : d.Lossless keep)
include H

/-- Waiting writes leave other keys alone. -/
theorem content_writeAll_of_ne {m : Moment} {writes : List (κ × Item α)} {s : σ}
    {g : Ground κ α} {k : κ} (hk : ∀ w ∈ writes, w.1 ≠ k) :
    (writeAll d m writes s g).ground.content d.base k = g.content d.base k := by
  induction writes generalizing s g with
  | nil => rfl
  | cons w writes ih =>
    obtain ⟨hw, hrest⟩ := List.forall_mem_cons.mp hk
    rw [writeAll]
    cases hkeep : keep w.2.content with
    | error cause =>
      obtain ⟨hanswer, hstore⟩ := H.put_error m w.1 { item := w.2 } s g cause hkeep
      simp only [hanswer]
      exact Ground.content_congr (hstore d.base) k
    | ok y =>
      simp only [H.put_ok m w.1 { item := w.2 } s g y hkeep]
      rw [ih hrest, H.put m w.1 { item := w.2 } s g y hkeep, if_neg (Ne.symm hw)]

/-- Waiting writes that are all made leave the same contents in stores that agree on all other
keys. -/
theorem content_writeAll_eq {m : Moment} {writes : List (κ × Item α)} {s t : σ} {g g' : Ground κ α}
    (hok : ∀ w ∈ writes, ∃ y, keep w.2.content = .ok y)
    (hrest : ∀ k, (∀ w ∈ writes, w.1 ≠ k) → g.content d.base k = g'.content d.base k) (k : κ) :
    (writeAll d m writes s g).ground.content d.base k =
      (writeAll d m writes t g').ground.content d.base k := by
  induction writes generalizing s t g g' with
  | nil => exact hrest k fun w hw => absurd hw List.not_mem_nil
  | cons w writes ih =>
    obtain ⟨⟨y, hy⟩, hoks⟩ := List.forall_mem_cons.mp hok
    simp only [writeAll, H.put_ok m w.1 { item := w.2 } _ _ y hy]
    refine ih hoks fun k hk => ?_
    rw [H.put m w.1 { item := w.2 } _ _ y hy, H.put m w.1 { item := w.2 } _ _ y hy]
    by_cases hkw : k = w.1
    · rw [if_pos hkw, if_pos hkw]
    · rw [if_neg hkw, if_neg hkw]
      exact hrest k (List.forall_mem_cons.mpr ⟨Ne.symm hkw, hk⟩)

theorem content_removeAll {m : Moment} {keys : List κ} {s : σ} {g : Ground κ α} {k : κ} :
    (d.removeAll m keys s g).2.content d.base k =
      if k ∈ keys then none else g.content d.base k := by
  induction keys generalizing s g with
  | nil => simp [Cache.removeAll]
  | cons key keys ih =>
    rw [Cache.removeAll, ih, H.remove]
    by_cases hk : k = key <;> simp [hk]

theorem content_cleared {m : Moment} {b : Buffer κ α} {s : σ} {g : Ground κ α} {k : κ} :
    (b.cleared d m s g).2.content d.base k = if b.clearing then none else g.content d.base k := by
  unfold cleared
  split
  · exact H.clear m s g k
  · rfl

theorem commit_eq_ok_iff {m : Moment} {b : Buffer κ α} {s : σ} {g : Ground κ α} :
    (b.commit d m s g).answer = .ok () ↔ ∀ w ∈ b.writes, ∃ y, keep w.2.content = .ok y := by
  rw [answer_commit, writeAll_eq_ok_iff H.toStrict]

end Lossless

/-! ## Transactions that made commits that failed -/

/-- The first transaction may have made commits that failed and the second one has not, and else
they made the same calls. The stores differ only where the next commit leaves the same in both, and
so do the missed keys. -/
structure Retried (base : Nat) (b b' : Buffer κ α) (g g' : Ground κ α) : Prop where
  clearing : b'.clearing = b.clearing
  writes : b'.writes = b.writes
  agree : b.clearing = false → ∀ k, (∀ w ∈ b.writes, w.1 ≠ k) →
    g.content base k = g'.content base k ∧ (k ∈ b.misses ↔ k ∈ b'.misses)

namespace Retried

variable {d : Cache κ α σ} {keep : Content α → Except CodecError (Content α)} {b b' : Buffer κ α}
  {s t : σ} {g g' : Ground κ α}

theorem refl (base : Nat) (b : Buffer κ α) (g : Ground κ α) : Retried base b b g g :=
  ⟨rfl, rfl, fun _ _ _ => ⟨rfl, Iff.rfl⟩⟩

theorem put {base : Nat} (R : Retried base b b' g g') (k : κ) (i : Item α) :
    Retried base (b.put k i) (b'.put k i) g g' where
  clearing := R.clearing
  writes := by simp only [Buffer.put, R.writes]
  agree hclearing k' hk' := by
    refine R.agree hclearing k' fun w hw heq => ?_
    by_cases hwk : w.1 = k
    · exact hk' (k, i) (by simp [Buffer.put]) (hwk.symm.trans heq)
    · exact hk' w (by simp [Buffer.put, hw, hwk]) heq

theorem clear (base : Nat) (b b' : Buffer κ α) (g g' : Ground κ α) :
    Retried base b.clear b'.clear g g' where
  clearing := rfl
  writes := rfl
  agree h := by cases h

/-- A lookup is remembered as missed by both, or its key is one on which they may differ. -/
theorem get (H : d.Lossless keep) (R : Retried d.base b b' g g') (m : Moment) (k : κ) :
    Retried d.base (b.get d m k s g).state.1 (b'.get d m k t g').state.1
      (b.get d m k s g).ground (b'.get d m k t g').ground := by
  obtain ⟨-, hground, hwrites, hmisses, -⟩ := b.settle_spec k (d.get m k s g)
  obtain ⟨-, hground', hwrites', hmisses', -⟩ := b'.settle_spec k (d.get m k t g')
  simp only [Buffer.get]
  refine ⟨?_, ?_, fun hclearing k' hk' => ?_⟩
  · rw [clearing_settle, clearing_settle, R.clearing]
  · rw [hwrites, hwrites', R.writes]
  · rw [clearing_settle] at hclearing
    rw [hwrites] at hk'
    obtain ⟨hcontent, hmem⟩ := R.agree hclearing k' hk'
    rw [hground, hground', H.get, H.get, hmisses, hmisses', H.get_none, H.get_none, hmem]
    refine ⟨hcontent, or_congr_right (and_congr_right fun heq => ?_)⟩
    rw [← heq, hcontent]

/-- A commit that fails touches only keys whose writes wait, unless it clears. -/
theorem commit_error (H : d.Lossless keep) (R : Retried d.base b b' g g') {m : Moment}
    {e : CacheError κ} (h : (b.commit d m s g).answer = .error e) :
    Retried d.base (b.commit d m s g).state.1 b' (b.commit d m s g).ground g' := by
  rw [commit_of_error h]
  refine ⟨R.clearing, R.writes, fun hclearing k hk => ?_⟩
  obtain ⟨hcontent, hmisses⟩ := R.agree hclearing k hk
  refine ⟨?_, hmisses⟩
  rw [content_writeAll_of_ne H hk, content_cleared H, hclearing, ← hcontent]
  rfl

/-- A commit that succeeds does so in both transactions, and leaves the same contents. -/
theorem commit_ok (H : d.Lossless keep) (R : Retried d.base b b' g g') {m : Moment}
    (h : (b.commit d m s g).answer = .ok ()) :
    (b'.commit d m t g').answer = .ok () ∧ ∀ k, (b.commit d m s g).ground.content d.base k =
      (b'.commit d m t g').ground.content d.base k := by
  have hok := (commit_eq_ok_iff H).mp h
  have h' : (b'.commit d m t g').answer = .ok () :=
    (commit_eq_ok_iff H).mpr (R.writes.symm ▸ hok)
  refine ⟨h', fun k => ?_⟩
  rw [commit_of_ok h, commit_of_ok h']
  simp only [R.writes, serials, Ground.content_congr (Ground.store_note ..), content_removeAll H]
  by_cases hk : ∀ w ∈ b.writes, w.1 ≠ k
  · -- Nothing was written: the key is missed by both, or it is as it was found.
    rw [content_writeAll_of_ne H hk, content_writeAll_of_ne H hk, content_cleared H,
      content_cleared H, R.clearing]
    cases hclearing : b.clearing with
    | true => simp
    | false =>
      obtain ⟨hcontent, hmisses⟩ := R.agree hclearing k hk
      have hmem : k ∈ b.unwritten ↔ k ∈ b'.unwritten := by
        rw [mem_unwritten, mem_unwritten, R.writes, hmisses]
      simp only [hmem, hcontent]
  · have hmem : k ∉ b.unwritten ∧ k ∉ b'.unwritten := by
      rw [mem_unwritten, mem_unwritten, R.writes]
      exact ⟨fun h => hk h.2, fun h => hk h.2⟩
    rw [if_neg hmem.1, if_neg hmem.2]
    refine content_writeAll_eq H hok (fun k' hk' => ?_) k
    rw [content_cleared H, content_cleared H, R.clearing]
    split
    · rfl
    · next hclearing => exact (R.agree (Bool.eq_false_iff.mpr hclearing) k' hk').1

end Retried

/-! ## Runs -/

/-- The call was a commit, and it failed. -/
def Answer.isFailure : Answer κ α → Bool
  | .written (.error _) => true
  | _ => false

/-- The call was a commit, and it succeeded. -/
def Answer.isSuccess : Answer κ α → Bool
  | .written (.ok _) => true
  | _ => false

/-- The calls of a transaction, each at a moment of its own, without its commits that fail. -/
def unfailed (d : Cache κ α σ) :
    List (Moment × Call κ α) → Buffer κ α → σ → Ground κ α → List (Moment × Call κ α)
  | [], _, _, _ => []
  | (m, call) :: rest, b, s, g =>
    let r := call.perform d m b s g
    let later := unfailed d rest r.state.1 r.state.2 r.ground
    if r.answer.isFailure then later else (m, call) :: later

/-- For every call but the commits that fail, what is stored after it, if it is a commit. -/
def contentsAfter (d : Cache κ α σ) :
    List (Moment × Call κ α) → Buffer κ α → σ → Ground κ α → List (Option (κ → Option (Content α)))
  | [], _, _, _ => []
  | (m, call) :: rest, b, s, g =>
    let r := call.perform d m b s g
    let later := contentsAfter d rest r.state.1 r.state.2 r.ground
    if r.answer.isFailure then later
    else (if r.answer.isSuccess then some (r.ground.content d.base) else none) :: later

section Run

variable {d : Cache κ α σ} {keep : Content α → Except CodecError (Content α)} {b b' : Buffer κ α}
  {s t : σ} {g g' : Ground κ α}

/-- Of a call that only the first transaction makes, or that both make, they do not differ further,
and a commit that both make leaves the same contents. -/
theorem Retried.perform (H : d.Lossless keep) (R : Retried d.base b b' g g') (m : Moment)
    {call : Call κ α} (hcall : call ≠ .rollback) :
    let r := call.perform d m b s g
    let r' := call.perform d m b' t g'
    r.answer.isFailure = true ∧ Retried d.base r.state.1 b' r.ground g' ∨
      r.answer.isFailure = false ∧ r'.answer.isFailure = false ∧
        r'.answer.isSuccess = r.answer.isSuccess ∧
        (r.answer.isSuccess = true → r'.ground.content d.base = r.ground.content d.base) ∧
        Retried d.base r.state.1 r'.state.1 r.ground r'.ground := by
  cases call with
  | rollback => exact absurd rfl hcall
  | get k => exact .inr ⟨rfl, rfl, rfl, nofun, R.get H m k⟩
  | put k i => exact .inr ⟨rfl, rfl, rfl, nofun, R.put k i⟩
  | clear => exact .inr ⟨rfl, rfl, rfl, nofun, .clear d.base b b' g g'⟩
  | commit =>
    simp only [Call.perform]
    cases h : (b.commit d m s g).answer with
    | error e => exact .inl ⟨rfl, R.commit_error H h⟩
    | ok _ =>
      obtain ⟨h', hcontent⟩ := R.commit_ok H (t := t) h
      have hstate : (b.commit d m s g).state.1 = {} := by rw [commit_of_ok h]
      have hstate' : (b'.commit d m t g').state.1 = {} := by rw [commit_of_ok h']
      rw [h', hstate, hstate']
      exact .inr ⟨rfl, rfl, rfl, fun _ => funext fun k => (hcontent k).symm,
        ⟨rfl, rfl, fun _ k _ => ⟨hcontent k, Iff.rfl⟩⟩⟩

/-- Without the commits that fail in the first one, a transaction has none that fails, and the
contents after every commit are those of the first one. -/
theorem Retried.run (H : d.Lossless keep) {calls : List (Moment × Call κ α)}
    (hcalls : ∀ c ∈ calls, c.2 ≠ .rollback) (R : Retried d.base b b' g g') :
    unfailed d (unfailed d calls b s g) b' t g' = unfailed d calls b s g ∧
      contentsAfter d (unfailed d calls b s g) b' t g' = contentsAfter d calls b s g := by
  induction calls generalizing b b' s t g g' with
  | nil => exact ⟨rfl, rfl⟩
  | cons c calls ih =>
    obtain ⟨m, call⟩ := c
    obtain ⟨hcall, hrest⟩ := List.forall_mem_cons.mp hcalls
    rcases R.perform H (s := s) (t := t) m hcall with
      ⟨hfailed, R'⟩ | ⟨hfailed, hfailed', hsuccess, hcontents, R'⟩
    · simp only [unfailed, contentsAfter, hfailed, if_true]
      exact ih hrest R'
    · obtain ⟨hunfailed, hlater⟩ := ih (s := (call.perform d m b s g).state.2)
        (t := (call.perform d m b' t g').state.2) hrest R'
      have hcontents' : (if (call.perform d m b s g).answer.isSuccess then
          some ((call.perform d m b' t g').ground.content d.base) else none) =
            if (call.perform d m b s g).answer.isSuccess then
              some ((call.perform d m b s g).ground.content d.base) else none := by
        split
        · next h => rw [hcontents h]
        · rfl
      simp only [unfailed, contentsAfter, hfailed, hfailed', Bool.false_eq_true, if_false,
        hsuccess, hcontents', hunfailed, hlater, and_self]

end Run

variable [Codec α]

/-- A transaction over a layer that keeps bytes, on a base store that nobody else writes to, makes
any lookups, writes, clears and commits. Without its commits that failed the same calls are a
transaction in which no commit fails, and after each commit that succeeds the base store holds the
same contents as after the same commit of the first one. -/
theorem failed_commits_leave_no_trace (id : String) (base : Nat)
    (calls : List (Moment × Call κ α)) (hcalls : ∀ c ∈ calls, c.2 ≠ .rollback) (b : Buffer κ α)
    (g : Ground κ α) :
    let d : Cache κ α (Unit × Unit) := Packing.onto (.bare id base)
    let retried := unfailed d calls b ((), ()) g
    unfailed d retried b ((), ()) g = retried ∧
      contentsAfter d retried b ((), ()) g = contentsAfter d calls b ((), ()) g :=
  (Retried.refl base b g).run (Packing.lossless (Cache.lossless_bare id base)) hcalls

/-! ## A commit that fails behind a write -/

namespace Halted

def cache : Cache Nat Sample (Unit × Unit) := Packing.onto (.bare "users" 0)

/-- Two writes, of which the second has no bytes. -/
def writes : Buffer Nat Sample :=
  ({} : Buffer Nat Sample).put 1 ⟨0, .plain ⟨"a"⟩⟩ |>.put 2 ⟨1, .plain ⟨"!enc"⟩⟩

/-- A lookup of what the commit has written, and what makes the next commit succeed. -/
def rest : List (Moment × Call Nat Sample) :=
  [({}, .get 1), ({}, .put 2 ⟨2, .plain ⟨"b"⟩⟩), ({}, .commit)]

/-- The keys that the lookup after the commit has missed. -/
def missedAfter (r : Reply Nat Sample (Buffer Nat Sample × Unit × Unit) (Written Nat)) : List Nat :=
  (r.state.1.get cache {} 1 r.state.2 r.ground).state.1.misses

/-- The commit fails after the first write, so the lookup finds what the transaction without that
commit misses; after the second commit both have stored the same. -/
theorem retried_after_first_write :
    (∀ c ∈ ({}, .commit) :: rest, c.2 ≠ .rollback) ∧
      unfailed cache (({}, .commit) :: rest) writes ((), ()) {} = rest ∧
      contentsAfter cache rest writes ((), ()) {} =
        contentsAfter cache (({}, .commit) :: rest) writes ((), ()) {} ∧
      missedAfter (writes.commit cache {} ((), ()) {}) = [] ∧
      missedAfter ⟨(writes, (), ()), {}, .ok ()⟩ = [1] := by
  have hcalls : ∀ c ∈ ({}, .commit) :: rest, c.2 ≠ .rollback := by
    simp [rest]
  have hunfailed : unfailed cache (({}, .commit) :: rest) writes ((), ()) {} = rest := by
    rfl
  obtain ⟨-, hcontents⟩ := failed_commits_leave_no_trace "users" 0 (({}, .commit) :: rest) hcalls
    writes {}
  have hfirst := congrArg (contentsAfter cache · writes ((), ()) {}) hunfailed
  exact ⟨hcalls, hunfailed, hfirst.symm.trans hcontents, by rfl, by rfl⟩

end Halted

end Buffer

end LayeredCache
