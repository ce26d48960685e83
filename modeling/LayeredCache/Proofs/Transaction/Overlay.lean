import LayeredCache.Proofs.Base
import LayeredCache.Transaction.Buffer
import Mathlib.Data.List.DropRight

/-!
# What a transaction does to a base store

A transaction over a base store is followed through any calls, each made at a moment of its own and
in a ground that others may have changed since the call before. The buffer is read off the calls:
whether a clear is pending, which writes wait, and which keys were missed. With that, the effect of
the next call is given in closed form; only a commit changes what is stored, and it lays the waiting
writes over what it finds.

## Main definitions

* `Call.perform` — a call of a transaction over any cache.
* `after` — the buffer after calls that each find the ground as others have left it.
* `clearPending`, `waiting`, `missed` — the buffer in terms of the calls.
* `overlaid` — the entries that a commit leaves.
-/

namespace LayeredCache.Buffer

variable {κ α σ : Type}

/-- What a transaction can be asked for. -/
inductive Call (κ α : Type) where
  | get (k : κ)
  | put (k : κ) (i : Item α)
  | clear
  | commit
  | rollback

/-- What a call answers. -/
inductive Answer (κ α : Type) where
  | looked (found : Lookup κ α)
  | written (result : Written κ)
  | nothing

/-- A call with the moment it is made in and the ground that it finds. -/
structure Turn (κ α : Type) where
  moment : Moment
  ground : Ground κ α
  call : Call κ α

namespace Turn

/-- Whether the call ends what the transaction has collected so far. -/
def ends (t : Turn κ α) : Bool :=
  match t.call with
  | .commit | .rollback => true
  | _ => false

/-- Whether the call asks for a clear. -/
def clears (t : Turn κ α) : Bool :=
  match t.call with
  | .clear => true
  | _ => false

/-- The write that the call asks for. -/
def write? (t : Turn κ α) : Option (κ × Item α) :=
  match t.call with
  | .put k i => some (k, i)
  | _ => none

variable [DecidableEq κ]

/-- Whether the call looks for a key that the base store does not hold at that moment. -/
def misses (base : Nat) (k : κ) (t : Turn κ α) : Bool :=
  match t.call with
  | .get k' => k' = k && !(t.ground.store base).contains k
  | _ => false

end Turn

/-- The calls since the last commit or rollback. -/
def current (past : List (Turn κ α)) : List (Turn κ α) := past.rtakeWhile (!·.ends)

/-- Whether a clear was asked for since the last commit or rollback. -/
def clearPending (past : List (Turn κ α)) : Bool := (current past).any (·.clears)

/-- The writes that were asked for since the last clear, commit or rollback. -/
def writesAsked (past : List (Turn κ α)) : List (κ × Item α) :=
  ((current past).rtakeWhile (!·.clears)).filterMap (·.write?)

variable [DecidableEq κ]

/-- Of several pairs of one key only the last, each where it stands. -/
def lastOfEach {β : Type} : List (κ × β) → List (κ × β)
  | [] => []
  | w :: rest => if rest.any (·.1 = w.1) then lastOfEach rest else w :: lastOfEach rest

/-- The last write of every key that was written since the last clear, commit or rollback, in the
order of these writes. -/
def waiting (past : List (Turn κ α)) : List (κ × Item α) := lastOfEach (writesAsked past)

/-- Whether a lookup since the last commit or rollback found the base store without the key. -/
def missed (base : Nat) (past : List (Turn κ α)) (k : κ) : Bool :=
  (current past).any (·.misses base k)

/-- The entries after a commit in a base store with the entries `entries`: the waiting writes, the
last one in front, and behind them what was stored before, unless it was cleared, written or
missed. -/
def overlaid (base : Nat) (past : List (Turn κ α)) (entries : List (κ × Cell α)) :
    List (κ × Cell α) :=
  (waiting past).reverse.map (fun w => (w.1, { item := w.2 })) ++
    if clearPending past then []
    else entries.filter fun e =>
      (Table.lookup e.1 (waiting past)).isNone && !missed base past e.1

/-- Performs a call. -/
def Call.perform (d : Cache κ α σ) (m : Moment) (b : Buffer κ α) (s : σ) (g : Ground κ α) :
    Call κ α → Reply κ α (Buffer κ α × σ) (Answer κ α)
  | .get k =>
    let r := b.get d m k s g
    ⟨r.state, r.ground, .looked r.answer⟩
  | .put k i => ⟨(b.put k i, s), g, .nothing⟩
  | .clear => ⟨(b.clear, s), g, .nothing⟩
  | .commit =>
    let r := b.commit d m s g
    ⟨r.state, r.ground, .written r.answer⟩
  | .rollback =>
    let r := b.rollback d m s g
    ⟨r.state, r.ground, .nothing⟩

/-- The buffer after calls over a cache without a state of its own. Each call finds its own ground,
so nothing is said about what others did to it since the call before. -/
def after (d : Cache κ α Unit) (past : List (Turn κ α)) : Buffer κ α :=
  past.foldl (fun b t => (t.call.perform d t.moment b () t.ground).state.1) {}

/-- Whether a lookup since the last commit or rollback has answered that there is no value. -/
def ToldNone (d : Cache κ α Unit) (past : List (Turn κ α)) (k : κ) : Prop :=
  ∃ before t rest, past = before ++ t :: rest ∧ (∀ u ∈ rest, u.ends = false) ∧ t.call = .get k ∧
    (t.call.perform d t.moment (after d before) () t.ground).answer =
      .looked (.done (.ok none))

/-! ## Lists of writes -/

omit [DecidableEq κ] in
theorem mem_lastOfEach {β : Type} [DecidableEq κ] {w : κ × β} {l : List (κ × β)}
    (h : w ∈ lastOfEach l) : w ∈ l := by
  induction l with
  | nil => exact h
  | cons v l ih =>
    rw [lastOfEach] at h
    split at h
    · exact List.mem_cons_of_mem v (ih h)
    · rcases List.mem_cons.mp h with rfl | h
      · exact List.mem_cons_self
      · exact List.mem_cons_of_mem v (ih h)

/-- Each key has one pair left. -/
theorem nodup_lastOfEach {β : Type} (l : List (κ × β)) : ((lastOfEach l).map (·.1)).Nodup := by
  induction l with
  | nil => exact List.nodup_nil
  | cons w l ih =>
    rw [lastOfEach]
    split
    · exact ih
    · next hw =>
      rw [List.map_cons, List.nodup_cons]
      refine ⟨fun hm => hw ?_, ih⟩
      obtain ⟨v, hv, he⟩ := List.mem_map.mp hm
      exact List.any_eq_true.mpr ⟨v, mem_lastOfEach hv, decide_eq_true he⟩

/-- One more write replaces an earlier one of its key and comes last. -/
theorem lastOfEach_concat {β : Type} (l : List (κ × β)) (w : κ × β) :
    lastOfEach (l ++ [w]) = (lastOfEach l).filter (fun v => v.1 ≠ w.1) ++ [w] := by
  induction l with
  | nil => simp [lastOfEach]
  | cons v l ih =>
    by_cases hl : l.any (·.1 = v.1)
    · have hlw : (l ++ [w]).any (·.1 = v.1) := by simp [hl]
      rw [List.cons_append, lastOfEach, if_pos hlw, ih, lastOfEach, if_pos hl]
    · by_cases hv : w.1 = v.1
      · have hlw : (l ++ [w]).any (·.1 = v.1) := by simp [hv]
        rw [List.cons_append, lastOfEach, if_pos hlw, ih, lastOfEach, if_neg hl]
        simp [hv]
      · have hlw : ¬(l ++ [w]).any (·.1 = v.1) := by simpa [hv] using hl
        rw [List.cons_append, lastOfEach, if_neg hlw, ih, lastOfEach, if_neg hl]
        simp [Ne.symm hv]

/-! ## The buffer, read off the calls -/

omit [DecidableEq κ] in
theorem current_concat (past : List (Turn κ α)) (t : Turn κ α) :
    current (past ++ [t]) = if t.ends then [] else current past ++ [t] := by
  cases h : t.ends <;> simp [current, h]

omit [DecidableEq κ] in
/-- Calls that end nothing are collected behind what was collected before them. -/
theorem current_append {past rest : List (Turn κ α)} (h : ∀ u ∈ rest, u.ends = false) :
    current (past ++ rest) = current past ++ rest := by
  induction rest using List.reverseRecOn with
  | nil => simp
  | append_singleton rest u ih =>
    have hu : u.ends = false := h u (by simp)
    rw [← List.append_assoc, current_concat, hu, ih fun v hv => h v (by simp [hv])]
    simp

/-- The buffer after calls over a base store is what the calls say it is. -/
structure Reads (base : Nat) (past : List (Turn κ α)) (b : Buffer κ α) : Prop where
  clearing : b.clearing = clearPending past
  writes : b.writes = waiting past
  misses : ∀ k, k ∈ b.misses ↔ missed base past k = true

theorem Reads.empty (base : Nat) : Reads base [] ({} : Buffer κ α) where
  clearing := rfl
  writes := rfl
  misses k := by simp [missed, current]

section Concat

variable {past : List (Turn κ α)} {t : Turn κ α} (h : t.ends = false)
include h

omit [DecidableEq κ] in
theorem clearPending_concat : clearPending (past ++ [t]) = (clearPending past || t.clears) := by
  rw [clearPending, clearPending, current_concat, h]
  simp

omit [DecidableEq κ] in
theorem writesAsked_concat :
    writesAsked (past ++ [t]) = if t.clears then [] else writesAsked past ++ t.write?.toList := by
  rw [writesAsked, writesAsked, current_concat, h]
  cases hc : t.clears
  · cases hw : t.write? <;> simp [hc, hw]
  · simp [hc]

theorem missed_concat (base : Nat) (k : κ) :
    missed base (past ++ [t]) k = (missed base past k || t.misses base k) := by
  rw [missed, missed, current_concat, h]
  simp

end Concat

/-- A lookup adds its key to the missed ones exactly if the store does not hold it. -/
theorem Reads.get {base : Nat} {past : List (Turn κ α)} {b : Buffer κ α} (H : Reads base past b)
    (m : Moment) (g : Ground κ α) (k : κ) :
    Reads base (past ++ [⟨m, g, .get k⟩]) (b.learn k ((g.store base).find? k)).1 := by
  have hlearn : (b.learn k ((g.store base).find? k)).1.clearing = b.clearing ∧
      (b.learn k ((g.store base).find? k)).1.writes = b.writes := by
    simp only [learn, miss]
    split <;> [split; skip] <;> exact ⟨rfl, rfl⟩
  refine ⟨?_, ?_, ?_⟩
  · rw [clearPending_concat rfl, hlearn.1, H.clearing]
    simp [Turn.clears]
  · rw [waiting, writesAsked_concat rfl, hlearn.2, H.writes]
    simp [Turn.clears, Turn.write?, waiting]
  · intro k'
    rw [missed_concat rfl, Bool.or_eq_true, ← H.misses k']
    by_cases hk : k = k'
    · subst hk
      cases hf : (g.store base).find? k <;> simp [learn, Turn.misses, Table.contains, hf]
    · cases hf : (g.store base).find? k <;> simp [learn, Turn.misses, hk, Ne.symm hk]

theorem Reads.put {base : Nat} {past : List (Turn κ α)} {b : Buffer κ α} (H : Reads base past b)
    (m : Moment) (g : Ground κ α) (k : κ) (i : Item α) :
    Reads base (past ++ [⟨m, g, .put k i⟩]) (b.put k i) := by
  refine ⟨?_, ?_, ?_⟩
  · rw [clearPending_concat rfl, ← H.clearing]
    simp [Turn.clears, Buffer.put]
  · have hasked : writesAsked (past ++ [⟨m, g, .put k i⟩]) = writesAsked past ++ [(k, i)] :=
      writesAsked_concat rfl
    rw [waiting, hasked, lastOfEach_concat]
    simp [Buffer.put, H.writes, waiting]
  · intro k'
    rw [missed_concat rfl, misses_put, H.misses k']
    simp [Turn.misses]

theorem Reads.clear {base : Nat} {past : List (Turn κ α)} {b : Buffer κ α} (H : Reads base past b)
    (m : Moment) (g : Ground κ α) : Reads base (past ++ [⟨m, g, .clear⟩]) b.clear := by
  refine ⟨?_, ?_, ?_⟩
  · rw [clearPending_concat rfl]
    simp [Turn.clears]
  · rw [waiting, writesAsked_concat rfl]
    rfl
  · intro k'
    rw [missed_concat rfl]
    simpa [Turn.misses, Buffer.clear] using H.misses k'

/-- A call that ends what was collected leaves nothing of it. -/
theorem Reads.ended (base : Nat) (past : List (Turn κ α)) {t : Turn κ α} (h : t.ends = true) :
    Reads base (past ++ [t]) ({} : Buffer κ α) := by
  have hcurrent : current (past ++ [t]) = [] := by rw [current_concat, h, if_pos rfl]
  refine ⟨?_, ?_, ?_⟩
  · simp [clearPending, hcurrent]
  · simp [waiting, writesAsked, hcurrent, lastOfEach]
  · intro k
    simp [missed, hcurrent]

/-! ## Calls on a base store -/

section Bare

variable (id : String) (base : Nat)

/-- Writing to a base store never fails; the last write comes to stand in front. -/
theorem writeAll_bare (m : Moment) (writes : List (κ × Item α)) (g : Ground κ α)
    (h : (writes.map (·.1)).Nodup) :
    let r := writeAll (.bare id base) m writes () g
    r.answer = .ok () ∧ r.ground.Beside base g ∧
      (r.ground.store base).entries =
        writes.reverse.map (fun w => (w.1, { item := w.2 })) ++
          (g.store base).entries.filter fun e => (Table.lookup e.1 writes).isNone := by
  induction writes generalizing g with
  | nil => exact ⟨rfl, Ground.Beside.refl base g, by simp [writeAll, Table.lookup]⟩
  | cons w writes ih =>
    rw [List.map_cons, List.nodup_cons] at h
    obtain ⟨hanswer, hbeside, hentries⟩ :=
      ih (g.setStore base ((g.store base).insert w.1 { item := w.2 })) h.2
    have hw : Table.lookup w.1 writes = none := by
      rw [Table.lookup_eq_none_iff]
      intro e he heq
      exact h.1 (heq ▸ List.mem_map_of_mem he)
    refine ⟨hanswer, hbeside.trans (Ground.beside_setStore base g _), hentries.trans ?_⟩
    rw [Ground.store_setStore_self]
    have hrest : (Table.erase (g.store base) w.1).entries.filter
          (fun e => (Table.lookup e.1 writes).isNone) =
        (g.store base).entries.filter fun e => (Table.lookup e.1 (w :: writes)).isNone := by
      rw [Table.erase, List.filter_filter]
      apply List.filter_congr
      intro e _
      by_cases he : w.1 = e.1
      · simp [Table.lookup, he]
      · simp [Table.lookup, he, Ne.symm he]
    simp [Table.insert, hw, hrest]

theorem releaseAll_bare (m : Moment) (ks : List κ) (g : Ground κ α) :
    (Cache.bare id base : Cache κ α Unit).releaseAll m ks () g = ((), g) := by
  induction ks with
  | nil => rfl
  | cons k ks ih => exact ih

/-- A commit to a base store succeeds and overlays the store. -/
theorem Reads.commit {past : List (Turn κ α)} {b : Buffer κ α} (H : Reads base past b)
    (m : Moment) (g : Ground κ α) :
    let r := b.commit (.bare id base) m () g
    r.answer = .ok () ∧ r.state.1 = {} ∧ r.ground.Beside base g ∧
      (r.ground.store base).entries = overlaid base past (g.store base).entries := by
  let found : Ground κ α := if b.clearing then g.setStore base .empty else g
  have hfound : found.Beside base g ∧
      found.store base = if b.clearing then .empty else g.store base := by
    cases hc : b.clearing with
    | true =>
      simp only [found, hc, if_true]
      exact ⟨Ground.beside_setStore base g _, Ground.store_setStore_self ..⟩
    | false =>
      simp only [found, hc, Bool.false_eq_true, if_false]
      exact ⟨Ground.Beside.refl base g, trivial⟩
  have hnodup : (b.writes.map (·.1)).Nodup := by
    rw [H.writes]
    exact nodup_lastOfEach _
  obtain ⟨hanswer, hwritten, hentries⟩ :=
    writeAll_bare id base (m.holding b.serials) b.writes found hnodup
  let written := (writeAll (.bare id base) (m.holding b.serials) b.writes () found).ground
  obtain ⟨hremoved, hleft⟩ :=
    Cache.removeAll_bare id base (m.holding b.serials) b.unwritten written
  have hcommit : b.commit (.bare id base) m () g =
      ⟨({}, ()),
        ((Cache.bare id base).removeAll (m.holding b.serials) b.unwritten () written).2.note
          (.committed id b.pending b.misses.length b.clearing), .ok ()⟩ := by
    have hclear : (if b.clearing then
        ((), ((Cache.bare id base : Cache κ α Unit).clear (m.holding b.serials) () g).ground)
        else ((), g)) = ((), found) := by
      cases hc : b.clearing <;> simp [found, hc, Cache.bare]
    simp only [Buffer.commit]
    rw [hclear]
    simp only [hanswer]
    rfl
  rw [hcommit]
  refine ⟨rfl, rfl, ?_, ?_⟩
  · exact (Ground.beside_note base _ _).trans (hremoved.trans (hwritten.trans hfound.1))
  · refine (congrArg Table.entries hleft).trans ?_
    simp only [written, hentries, List.filter_append, overlaid, ← H.writes, ← H.clearing]
    have hunwritten : ∀ k, (Table.lookup k b.writes).isSome → k ∉ b.unwritten := by
      intro k hk hm
      rw [Table.contains_eq_any] at hk
      simp [unwritten, writesTo, hk] at hm
    have hmissed : ∀ k, Table.lookup k b.writes = none →
        (k ∈ b.unwritten ↔ missed base past k = true) := by
      intro k hk
      have hany := Table.contains_eq_any k b.writes
      rw [hk] at hany
      rw [← H.misses k, unwritten, List.mem_filter, writesTo, ← hany]
      simp
    congr 1
    · rw [List.filter_eq_self]
      intro e he
      obtain ⟨w, hw, rfl⟩ := List.mem_map.mp he
      refine decide_eq_true (hunwritten w.1 ?_)
      rw [Table.contains_eq_any]
      exact List.any_eq_true.mpr ⟨w, List.mem_reverse.mp hw, decide_eq_true rfl⟩
    · rw [hfound.2]
      cases hc : b.clearing with
      | true => simp [Table.empty]
      | false =>
        simp only [Bool.false_eq_true, if_false, List.filter_filter]
        apply List.filter_congr
        intro e _
        cases hl : Table.lookup e.1 b.writes with
        | some i => simp
        | none => simp [hmissed e.1 hl]

end Bare

/-- What a key reads in an overlaid store: its waiting write, else what was stored unless the store
was cleared or the key was missed. -/
theorem lookup_overlaid (base : Nat) (past : List (Turn κ α)) (entries : List (κ × Cell α))
    (k : κ) :
    Table.lookup k (overlaid base past entries) =
      match Table.lookup k (waiting past) with
      | some i => some { item := i }
      | none => if clearPending past || missed base past k then none
          else Table.lookup k entries := by
  have hnodup : ((waiting past).map (·.1)).Nodup := nodup_lastOfEach (writesAsked past)
  rw [overlaid, Table.lookup_append, Table.lookup_map fun i : Item α => ({ item := i } : Cell α),
    Table.lookup_reverse hnodup]
  cases hl : Table.lookup k (waiting past) with
  | some i => simp
  | none =>
    cases hc : clearPending past with
    | true => simp [Table.lookup]
    | false =>
      have h := Table.lookup_filter
        (fun k => (Table.lookup k (waiting past)).isNone && !missed base past k) k entries
      simp only [Bool.false_eq_true, if_false, Option.map_none, Option.none_or, h, hl]
      cases missed base past k <;> simp

/-- The buffer of a transaction over a base store is what its calls say it is. -/
theorem reads_after (id : String) (base : Nat) (past : List (Turn κ α)) :
    Reads base past (after (.bare id base) past) := by
  induction past using List.reverseRecOn with
  | nil => exact Reads.empty base
  | append_singleton past t ih =>
    have hstep : after (.bare id base) (past ++ [t]) =
        (t.call.perform (.bare id base) t.moment (after (.bare id base) past) ()
          t.ground).state.1 := by
      rw [after, List.foldl_append]
      rfl
    rw [hstep]
    obtain ⟨m, g, call⟩ := t
    cases call with
    | get k => exact ih.get m g k
    | put k i => exact ih.put m g k i
    | clear => exact ih.clear m g
    | commit =>
      rw [Call.perform, (ih.commit id base m g).2.1]
      exact Reads.ended base past rfl
    | rollback => exact Reads.ended base past rfl

/-- Whoever was told that a key has no value finds a clear pending or has missed the key. -/
theorem ToldNone.cleared_or_missed {id : String} {base : Nat} {past : List (Turn κ α)} {k : κ}
    (h : ToldNone (.bare id base) past k) :
    clearPending past = true ∨ missed base past k = true := by
  obtain ⟨before, t, rest, rfl, hrest, hcall, hanswer⟩ := h
  have ht : t.ends = false := by simp [Turn.ends, hcall]
  have hcurrent : current (before ++ t :: rest) = current before ++ t :: rest := by
    apply current_append
    intro u hu
    rcases List.mem_cons.mp hu with rfl | hu
    · exact ht
    · exact hrest u hu
  have hseen : (if (after (.bare id base) before).clearing then none
      else (t.ground.store base).find? k) = none := by
    simp only [hcall, Call.perform] at hanswer
    injection hanswer with h
    injection h with h
    injection h with h
  rw [(reads_after id base before).clearing] at hseen
  cases hc : clearPending before with
  | true =>
    left
    rw [clearPending, hcurrent, List.any_append, ← clearPending, hc, Bool.true_or]
  | false =>
    right
    rw [hc, if_neg Bool.false_ne_true] at hseen
    rw [missed, hcurrent, List.any_append, List.any_cons]
    simp [Turn.misses, hcall, Table.contains, hseen]

/-- A transaction over a base store, after any calls between which others did anything to the store,
lets nothing of itself be seen before it commits: no other call changes the ground, and a lookup
answers what is stored at that moment, or nothing while a clear is pending. A commit succeeds and
lays the last waiting write of each key, in the order of these writes, over what it finds (nothing
if a clear is pending), without the keys that were missed and not written; so a key that was once
reported to have no value, and has no waiting write, has none afterwards. Commit and rollback leave
a clean buffer. -/
theorem commit_overlays_what_it_finds (id : String) (base : Nat) (past : List (Turn κ α))
    (m : Moment) (g : Ground κ α) :
    let d : Cache κ α Unit := .bare id base
    let b := after d past
    let committed := Call.commit.perform d m b () g
    (∀ call : Call κ α, call ≠ .commit → (call.perform d m b () g).ground = g) ∧
    (∀ k, ((Call.get k).perform d m b () g).answer =
      .looked (.done (.ok (if clearPending past then none else (g.store base).find? k)))) ∧
    committed.answer = .written (.ok ()) ∧
    (committed.ground.store base).entries = overlaid base past (g.store base).entries ∧
    (∀ k, (committed.ground.store base).find? k =
      match Table.lookup k (waiting past) with
      | some i => some { item := i }
      | none => if clearPending past || missed base past k then none else (g.store base).find? k) ∧
    (∀ k, ToldNone d past k → Table.lookup k (waiting past) = none →
      (committed.ground.store base).find? k = none) ∧
    (∀ other, other ≠ base → committed.ground.store other = g.store other) ∧
    committed.state.1.isClean = true ∧
    (Call.rollback.perform d m b () g).state.1.isClean = true := by
  intro d b committed
  have H : Reads base past b := reads_after id base past
  obtain ⟨hanswer, hclean, hbeside, hentries⟩ := H.commit id base m g
  have hfind : ∀ k, (committed.ground.store base).find? k =
      match Table.lookup k (waiting past) with
      | some i => some { item := i }
      | none => if clearPending past || missed base past k then none
          else (g.store base).find? k := by
    intro k
    exact (congrArg (Table.lookup k) hentries).trans (lookup_overlaid base past _ k)
  refine ⟨?_, ?_, ?_, hentries, hfind, ?_, fun _ hother => hbeside.store hother, ?_, rfl⟩
  · intro call hcall
    cases call with
    | commit => exact absurd rfl hcall
    | rollback =>
      show (Cache.releaseAll d m b.misses () g).2 = g
      rw [releaseAll_bare]
    | _ => rfl
  · intro k
    rw [← H.clearing]
    rfl
  · exact congrArg Answer.written hanswer
  · intro k htold hk
    rw [hfind k, hk]
    rcases htold.cleared_or_missed with h | h <;> simp [h]
  · show (b.commit d m () g).state.1.isClean = true
    rw [hclean, isClean_empty]

/-- A key that was missed, and that somebody else stored before the commit, is not left behind; the
key that was written is. -/
theorem commit_drops_foreign_value :
    let d : Cache Nat Nat Unit := .bare "users" 0
    let stored : Ground Nat Nat := Ground.setStore {} 0 ⟨[(4, { item := ⟨9, .plain 90⟩ })]⟩
    let past : List (Turn Nat Nat) := [⟨{}, {}, .get 4⟩, ⟨{}, stored, .put 2 ⟨1, .plain 5⟩⟩]
    let b := after d past
    let committed := Call.commit.perform d {} b () stored
    ToldNone d past 4 ∧ Table.lookup 4 (waiting past) = none ∧
      ((stored.store 0).find? 4).isSome = true ∧ (committed.ground.store 0).find? 4 = none ∧
      (committed.ground.store 0).find? 2 = some { item := ⟨1, .plain 5⟩ } ∧
      committed.ground.store 1 = stored.store 1 ∧
      ((Call.rollback : Call Nat Nat).perform d {} b () stored).ground = stored := by
  intro d stored past b committed
  obtain ⟨hkept, -, -, -, hfind, hdropped, hother, -, -⟩ :=
    commit_overlays_what_it_finds "users" 0 past {} stored
  have htold : ToldNone d past 4 :=
    ⟨[], ⟨{}, {}, .get 4⟩, [⟨{}, stored, .put 2 ⟨1, .plain 5⟩⟩], rfl, by simp [Turn.ends], rfl, rfl⟩
  exact ⟨htold, rfl, rfl, hdropped 4 htold rfl, hfind 2, hother 1 (by decide),
    hkept .rollback (by simp)⟩

end LayeredCache.Buffer
