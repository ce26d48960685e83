import LayeredCache.Proofs.Transaction.Units
import Mathlib.Logic.Function.Basic

/-!
# Several caches over one ground

Each cache has a state of its own and they share the ground. An operation of one of them, as a whole
or step by step, is one on the states of all that leaves the other states as they are.

## Main definitions

* `Cache.member` — one of several caches, on the states of all.
* `Routine.member` — a routine of one of several caches, on the states of all.
-/

namespace LayeredCache

variable {ι κ α ρ : Type} [DecidableEq ι] {σ : ι → Type}

/-- What an operation of one of several caches leaves, as what it leaves of the states of all. -/
def Reply.member (s : (i : ι) → σ i) (i : ι) (r : Reply κ α (σ i) ρ) :
    Reply κ α ((i : ι) → σ i) ρ :=
  ⟨Function.update s i r.state, r.ground, r.answer⟩

/-- One of several caches, on the states of all. -/
def Cache.member (c : (i : ι) → Cache κ α (σ i)) (i : ι) : Cache κ α ((i : ι) → σ i) where
  id := (c i).id
  base := (c i).base
  put m k x s g := ((c i).put m k x (s i) g).member s i
  get m k s g := ((c i).get m k (s i) g).member s i
  resume m k gate w s g := ((c i).resume m k gate w (s i) g).member s i
  remove m k s g := ((c i).remove m k (s i) g).member s i
  clear m s g := ((c i).clear m (s i) g).member s i
  size m s g := ((c i).size m (s i) g).member s i
  release m k s g := ((c i).release m k (s i) g).member s i

/-- A routine of one of several caches, on the states of all; the locks of each are its own. -/
def Routine.member (i : ι) (p : Routine κ α (σ i) ρ) :
    Process (((i : ι) → σ i) × Ground κ α) (ι × Nat) Nat ρ :=
  p.within (fun t => (t.1 i, t.2)) (fun u t => (Function.update t.1 i u.1, u.2)) (Prod.mk i) id

@[simp] theorem Routine.run_member (m : Moment) (i : ι) (p : Routine κ α (σ i) ρ)
    (s : (i : ι) → σ i) (g : Ground κ α) :
    (member i p).run m (s, g) =
      (p.run m (s i, g)).map fun r => ((Function.update s i r.1.1, r.1.2), r.2) :=
  Process.run_within (fun t : ((i : ι) → σ i) × Ground κ α => (t.1 i, t.2))
    (fun u t => (Function.update t.1 i u.1, u.2)) _ _ (fun _ _ => by simp) (fun _ _ _ => by simp)
    (fun _ => by simp) m p (s, g)

variable (c : (i : ι) → Cache κ α (σ i)) (m : Moment) (i : ι)

namespace Cache

variable (k : κ) (s : (i : ι) → σ i) (g : Ground κ α)

@[simp] theorem id_member : (member c i).id = (c i).id := rfl

@[simp] theorem put_member (x : Cell α) :
    (member c i).put m k x s g = ((c i).put m k x (s i) g).member s i := rfl

@[simp] theorem get_member : (member c i).get m k s g = ((c i).get m k (s i) g).member s i := rfl

@[simp] theorem resume_member (gate : Nat) (w : Wake) :
    (member c i).resume m k gate w s g = ((c i).resume m k gate w (s i) g).member s i := rfl

@[simp] theorem remove_member :
    (member c i).remove m k s g = ((c i).remove m k (s i) g).member s i := rfl

@[simp] theorem clear_member : (member c i).clear m s g = ((c i).clear m (s i) g).member s i := rfl

@[simp] theorem release_member :
    (member c i).release m k s g = ((c i).release m k (s i) g).member s i := rfl

theorem removeAll_member (ks : List κ) :
    (member c i).removeAll m ks s g =
      (Function.update s i ((c i).removeAll m ks (s i) g).1,
        ((c i).removeAll m ks (s i) g).2) := by
  induction ks generalizing s g with
  | nil => simp [removeAll]
  | cons k ks ih => simp [removeAll, ih, Reply.member]

theorem releaseAll_member (ks : List κ) :
    (member c i).releaseAll m ks s g =
      (Function.update s i ((c i).releaseAll m ks (s i) g).1,
        ((c i).releaseAll m ks (s i) g).2) := by
  induction ks generalizing s g with
  | nil => simp [releaseAll]
  | cons k ks ih => simp [releaseAll, ih, Reply.member]

end Cache

namespace Buffer

variable (b : Buffer κ α) (s : (i : ι) → σ i) (g : Ground κ α)

theorem writeAll_member (writes : List (κ × Item α)) :
    writeAll (Cache.member c i) m writes s g = (writeAll (c i) m writes (s i) g).member s i := by
  induction writes generalizing s g with
  | nil => simp [writeAll, Reply.member]
  | cons w rest ih =>
    simp only [writeAll, Cache.put_member, Reply.member]
    cases ((c i).put m w.1 { item := w.2 } (s i) g).answer with
    | error e => rfl
    | ok _ => simp [ih, Reply.member]

/-- A commit to one of several caches. -/
theorem commit_member [DecidableEq κ] :
    b.commit (Cache.member c i) m s g =
      let r := b.commit (c i) m (s i) g
      ⟨(r.state.1, Function.update s i r.state.2), r.ground, r.answer⟩ := by
  simp only [commit, Cache.clear_member, Cache.id_member, Reply.member]
  generalize m.holding b.serials = m
  cases b.clearing with
  | true =>
    simp only [if_true, writeAll_member, Cache.removeAll_member, Reply.member, Function.update_self,
      Function.update_idem]
    cases (writeAll (c i) m b.writes ((c i).clear m (s i) g).state
      ((c i).clear m (s i) g).ground).answer <;> rfl
  | false =>
    simp only [Bool.false_eq_true, if_false, writeAll_member, Cache.removeAll_member, Reply.member,
      Function.update_self, Function.update_idem]
    cases (writeAll (c i) m b.writes (s i) g).answer <;> rfl

/-- A rollback in one of several caches. -/
theorem rollback_member :
    b.rollback (Cache.member c i) m s g =
      let r := b.rollback (c i) m (s i) g
      ⟨(r.state.1, Function.update s i r.state.2), r.ground, r.answer⟩ := by
  simp only [rollback, Cache.releaseAll_member]

end Buffer

namespace UnitOfWork

variable {τ : Type} {id : String}

theorem participants_join (u : UnitOfWork τ κ α) (cache : τ) (id : String) :
    (u.join cache id).participants = u.participants ++
      if (u.participant? id).isSome then [] else [{ cache := cache, id := id }] := by
  unfold join
  split <;> simp

/-- Each identifier takes part once. -/
theorem nodup_join {u : UnitOfWork τ κ α} (h : (u.participants.map (·.id)).Nodup) (cache : τ)
    (id : String) : ((u.join cache id).participants.map (·.id)).Nodup := by
  rw [participants_join]
  split
  · simpa using h
  · next hnone =>
    have hnew : ∀ p ∈ u.participants, p.id ≠ id := by
      simpa [participant?, List.find?_eq_none] using hnone
    simp only [List.map_append, List.map_cons, List.map_nil, List.nodup_append]
    refine ⟨h, by simp, ?_⟩
    rintro a ha b hb rfl
    obtain ⟨p, hp, rfl⟩ := List.mem_map.mp ha
    exact hnew p hp (by simpa using hb)

/-- Changing the buffer of a participant that is the only one with its identifier. -/
theorem modify_congr {u : UnitOfWork τ κ α} (h : (u.participants.map (·.id)).Nodup)
    {p : Participant τ κ α} (hp : p ∈ u.participants) {f : Buffer κ α → Buffer κ α}
    (f' : Buffer κ α → Buffer κ α) (hf : f p.buffer = f' p.buffer) :
    u.modify p.id f = u.modify p.id f' := by
  simp only [modify, mk.injEq]
  refine List.map_congr_left fun q hq => ?_
  split
  · next he =>
    obtain rfl := List.inj_on_of_nodup_map h hq hp he
    rw [hf]
  · rfl

theorem modify_id (u : UnitOfWork τ κ α) (id : String) : u.modify id (fun b => b) = u := by
  simp [modify]

end UnitOfWork

end LayeredCache
