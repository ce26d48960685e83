import LayeredCache.Proofs.Transaction.Sole
import LayeredCache.Simulation

/-!
# The lookups of a workload

One lookup after the other: each is counted once, as a hit or as a miss, by the workload and by the
cache, and a miss lets a write of its key wait. Every unit of work is ended, the last one with the
last lookup, whether or not that fills it. So when the lookups are done, nothing waits and nothing
is latched, whatever numbers the generator has drawn.

Of the cache only that is assumed which a unit of work needs of it: its calls get an answer.

## Main definitions

* `Workload.endsAfter` — how many units of work have ended after so many lookups.
* `Workload.Underway` — what a workload has done so far.

## Main statements

* `Workload.Underway.lookup`, `Workload.Underway.finish` — the steps of a workload.
* `Workload.exists_last` — a workload comes to its end.
-/

namespace LayeredCache.Workload

open UnitOfWork (attended_empty)

variable {σ : Type} {c : Cache Key String σ} {M : Moment → Prop}
  {R A : List HitCount → (Key → Prop) → σ → Ground Key String → Prop}
  {W : Key → Content String → Prop} {w : Workload} {n : List HitCount}

/-! ## Lookups and ends -/

/-- How many units of work have ended when so many lookups are done. -/
def endsAfter (w : Workload) (done : Nat) : Nat :=
  if done < w.operations then done / w.batch else (w.operations + w.batch - 1) / w.batch

theorem batch_pos (w : Workload) : 0 < w.batch := Nat.le_max_right ..

theorem endsAfter_zero (w : Workload) : w.endsAfter 0 = 0 := by
  unfold endsAfter
  split
  · exact Nat.zero_div _
  · have := w.batch_pos
    exact Nat.div_eq_of_lt (by omega)

theorem endsAfter_operations (w : Workload) :
    w.endsAfter w.operations = (w.operations + w.batch - 1) / w.batch :=
  if_neg (Nat.lt_irrefl _)

/-- A lookup ends a unit of work if it fills one, or if it is the last one. -/
theorem endsAfter_succ {w : Workload} {done : Nat} (h : done < w.operations) :
    w.endsAfter (done + 1) = w.endsAfter done +
      if (done + 1) % w.batch = 0 ∨ done + 1 = w.operations then 1 else 0 := by
  have hbatch := w.batch_pos
  have hle : done + 1 ≤ w.operations := h
  rcases Nat.lt_or_eq_of_le hle with hmore | hlast
  · simp only [endsAfter, if_pos h, if_pos hmore, Nat.succ_div, Nat.dvd_iff_mod_eq_zero,
      Nat.ne_of_lt hmore, or_false]
  · have hsum : w.operations + w.batch - 1 = done + w.batch := by omega
    simp only [endsAfter, if_pos h, hlast, Nat.lt_irrefl, if_false, hsum, or_true, if_true]
    exact Nat.add_div_right done hbatch

/-- A workload has made `done` lookups and ended `ends` units of work; what it has counted, the
cache has counted too. -/
structure Underway (R : List HitCount → (Key → Prop) → σ → Ground Key String → Prop)
    (W : Key → Content String → Prop) (id : String) (n : List HitCount) (done ends : Nat)
    (r : Run σ) : Prop where
  lookups : r.report.hits + r.report.misses = done
  ended : r.report.commits + r.report.rollbacks = ends
  attended : r.work.Attended R W id (n.map (·.add r.report.hitCount)) r.state r.ground

variable {m : Moment} {done ends : Nat} {r : Run σ}

/-- A lookup counts as one, and a miss lets a write of its key wait. -/
theorem Underway.lookup (H : c.Serves M R A W) (hm : ∀ serials, M (m.holding serials))
    (hkeys : 0 < w.keys) (hW : ∀ i < w.keys, W (key i) (.plain (value i)))
    (h : Underway R W c.id n done ends r) :
    ∃ r', w.lookup c m r = .ok r' ∧ Underway A W c.id n (done + 1) ends r' := by
  have hid := r.random.below_lt hkeys
  obtain ⟨found, hfound, hattended⟩ :=
    h.attended.fetch H (hm r.work.serials) (key (r.random.below w.keys).1)
  have hcounts : (n.map (·.add r.report.hitCount)).map (·.looked found) =
      n.map (·.add (r.report.hitCount.looked found)) := by
    rw [List.map_map]
    exact List.map_congr_left fun count _ => HitCount.looked_add found count _
  have hlookups := h.lookups
  rw [hcounts] at hattended
  simp only [Workload.lookup, hfound]
  cases found with
  | some cell =>
    refine ⟨_, rfl, ⟨?_, h.ended, ?_⟩⟩
    · show r.report.hits + 1 + r.report.misses = done + 1
      omega
    · have hcount : r.report.hitCount.looked (some cell) =
          { r.report with hits := r.report.hits + 1 }.hitCount := by
        simp [HitCount.looked, HitCount.request, HitCount.hit, WorkloadReport.hitCount,
          Nat.add_right_comm]
      exact hcount ▸ hattended
  | none =>
    refine ⟨_, rfl, ⟨?_, h.ended, ?_⟩⟩
    · show r.report.hits + (r.report.misses + 1) = done + 1
      omega
    · have hcount : r.report.hitCount.looked (none : Option (Cell String)) =
          { r.report with misses := r.report.misses + 1 }.hitCount := rfl
      exact ((hcount ▸ hattended).put _ (hW _ hid)).elsewhere H rfl

/-- The end of a unit of work leaves nothing of it. -/
theorem Underway.finish (H : c.Serves M R A W) (hm : M m)
    (h : Underway A W c.id n done ends r) :
    ∃ r', Workload.finish c m r = .ok r' ∧ Underway A W c.id n done (ends + 1) r' ∧
      r'.work = {} := by
  have hended := h.ended
  simp only [Workload.finish]
  split
  · obtain ⟨hwork, hA⟩ := h.attended.rollback H hm
    refine ⟨_, rfl, ⟨h.lookups, ?_, ?_⟩, hwork⟩
    · show r.report.commits + (r.report.rollbacks + 1) = ends + 1
      omega
    · rw [hwork]
      exact attended_empty hA
  · obtain ⟨hanswer, hwork, hA⟩ := h.attended.commit H hm
    simp only [hanswer]
    refine ⟨_, rfl, ⟨h.lookups, ?_, ?_⟩, hwork⟩
    · show r.report.commits + 1 + r.report.rollbacks = ends + 1
      omega
    · rw [hwork]
      exact attended_empty hA

/-- The lookups that are left are all made, and the last unit of work ends with the last of them. -/
theorem Underway.loop (H : c.Serves M R A W) {moments : Nat → Moment} (hM : ∀ i, M (moments i))
    (hkeys : 0 < w.keys) (hW : ∀ i < w.keys, W (key i) (.plain (value i))) {left : Nat}
    (hleft : left ≤ w.operations)
    (h : Underway R W c.id n (w.operations - left) (w.endsAfter (w.operations - left)) r)
    (hwork : left = 0 → r.work = {}) :
    ∃ last, w.loop c moments left r = .ok last ∧
      Underway R W c.id n w.operations (w.endsAfter w.operations) last ∧ last.work = {} := by
  induction left generalizing r with
  | zero => exact ⟨r, rfl, h, hwork rfl⟩
  | succ left ih =>
    have hdone : w.operations - (left + 1) + 1 = w.operations - left := by omega
    have hmore : w.operations - (left + 1) < w.operations := by omega
    have hends := endsAfter_succ hmore
    rw [hdone] at hends
    have hlast : w.operations - left = w.operations ↔ left = 0 := by omega
    have hmoment := hM (2 * (w.operations - left))
    obtain ⟨r', hlookup, h'⟩ := h.lookup H (fun serials => H.holding serials hmoment) hkeys hW
    rw [hdone] at h'
    simp only [Workload.loop, hlookup]
    simp only [hlast] at hends
    split
    · next hend =>
      rw [if_pos hend] at hends
      obtain ⟨r'', hfinish, h'', hempty⟩ := h'.finish H (hM (2 * (w.operations - left) + 1))
      rw [← hends] at h''
      simp only [hfinish]
      exact ih (by omega) ⟨h''.lookups, h''.ended, h''.attended.ready H⟩ fun _ => hempty
    · next hend =>
      rw [if_neg hend, Nat.add_zero] at hends
      rw [← hends] at h'
      exact ih (by omega) ⟨h'.lookups, h'.ended, h'.attended.ready H⟩ fun hzero =>
        absurd (.inr hzero) hend

theorem runFrom_eq {moments : Nat → Moment} {random : Generator} {s : σ} {g : Ground Key String}
    (hkeys : 0 < w.keys) {last : Run σ}
    (h : w.loop c moments w.operations { random := random, work := {}, state := s, ground := g } =
      .ok last) :
    w.runFrom c moments random s g =
      let reply := c.size (moments (2 * w.operations + 2)) last.state last.ground
      ⟨reply.state, reply.ground, .ok { last.report with size := reply.answer }⟩ := by
  rw [runFrom, if_neg (Nat.ne_of_gt hkeys), h]

/-- A workload makes all its lookups and ends all its units of work, and the count of the stored
keys that comes after that leaves the cache as the lookups and the ends do. -/
theorem exists_last (H : c.Serves M R A W) {moments : Nat → Moment} (hM : ∀ i, M (moments i))
    (hkeys : 0 < w.keys) (hW : ∀ i < w.keys, W (key i) (.plain (value i))) {s : σ}
    {g : Ground Key String} (hs : R n (fun _ => False) s g) (random : Generator) :
    ∃ last, w.loop c moments w.operations
        { random := random, work := {}, state := s, ground := g } = .ok last ∧
      Underway R W c.id n w.operations (w.endsAfter w.operations) last ∧ last.work = {} ∧
      let r := w.runFrom c moments random s g
      A (n.map (·.add last.report.hitCount)) (fun _ => False) r.state r.ground := by
  have hcounts : n.map (·.add ({} : WorkloadReport).hitCount) = n := List.map_id n
  have hstart : Underway R W c.id n (w.operations - w.operations)
      (w.endsAfter (w.operations - w.operations))
      { random := random, work := {}, state := s, ground := g } := by
    rw [Nat.sub_self, endsAfter_zero]
    exact ⟨rfl, rfl, hcounts.symm ▸ attended_empty hs⟩
  obtain ⟨last, hloop, hlast, hwork⟩ := hstart.loop H hM hkeys hW (Nat.le_refl _) fun _ => rfl
  refine ⟨last, hloop, hlast, hwork, ?_⟩
  obtain ⟨b, hon, -, -, hR⟩ := hwork ▸ hlast.attended
  obtain rfl : b = {} := (hon.participants.resolve_left nofun).2
  rw [runFrom_eq hkeys hloop]
  exact H.mono (fun _ => List.not_mem_nil) (H.size (hM _) hR)

end LayeredCache.Workload
