import LayeredCache.Proofs.Layer.Reach
import LayeredCache.Proofs.Transaction.Family
import LayeredCache.Proofs.Transaction.Overlay
import LayeredCache.Proofs.Transaction.Refusal

/-!
# A unit of work as a product of lone transactions

A unit of work over several caches is followed through any calls. What it does to the caches with
one identifier is what a transaction does that is alone with them: the calls for that identifier are
fed to a transaction that knows no other caches, and it comes to the same buffer, the same states
and the same stored cells. A commit reaches the lone transactions one after the other, in the order
in which their caches were first touched, up to the first that fails.

Nothing but the base store of another identifier, the journal and the serial numbers may change
between two calls for one identifier.

## Main definitions

* `Product.Call`, `Product.Run` — the calls of a unit of work, and what they come to.
* `Product.Deed` — a call as the transaction over the caches with one identifier sees it.
* `Product.Lone.Run` — a transaction that is alone.
* `Product.touched` — the caches touched first, with their identifiers.
* `Product.Stops` — a commit that may stop half-way.

## Main statements

* `Product.Run.alone` — a unit of work does what the lone transactions do.
* `Product.Run.resumes` — a commit goes on where the one before has stopped.
-/

namespace LayeredCache

variable {ι κ α τ : Type} {σ : ι → Type}

/-! ## What a transaction leaves alone -/

namespace Cache.Avoids

variable {e : Cache κ α τ} {base : Nat} (h : e.Avoids base) (m : Moment) (t : τ) (g : Ground κ α)

include h

theorem removeAll (ks : List κ) : (e.removeAll m ks t g).2.store base = g.store base := by
  induction ks generalizing t g with
  | nil => rfl
  | cons k ks ih => exact (ih _ _).trans (h.remove m k t g)

theorem releaseAll (ks : List κ) : (e.releaseAll m ks t g).2.store base = g.store base := by
  induction ks generalizing t g with
  | nil => rfl
  | cons k ks ih => exact (ih _ _).trans (h.release m k t g)

theorem writeAll (writes : List (κ × Item α)) :
    (Buffer.writeAll e m writes t g).ground.store base = g.store base := by
  induction writes generalizing t g with
  | nil => rfl
  | cons w rest ih =>
    have hput := h.put m w.1 { item := w.2 } t g
    rw [Buffer.writeAll]
    split
    · exact hput
    · exact (ih _ _).trans hput

theorem commit [DecidableEq κ] (b : Buffer κ α) :
    (b.commit e m t g).ground.store base = g.store base := by
  have hwritten (m : Moment) (t : τ) {g' : Ground κ α} (hg' : g'.store base = g.store base) :
      (Buffer.writeAll e m b.writes t g').ground.store base = g.store base :=
    (h.writeAll m t g' b.writes).trans hg'
  simp only [Buffer.commit]
  generalize m.holding b.serials = m
  cases b.clearing with
  | true =>
    have hput := hwritten m (e.clear m t g).state (h.clear m t g)
    simp only [if_true]
    split
    · exact hput
    · exact (h.removeAll m _ _ _).trans hput
  | false =>
    have hput := hwritten m t rfl
    simp only [Bool.false_eq_true, if_false]
    split
    · exact hput
    · exact (h.removeAll m _ _ _).trans hput

end Cache.Avoids

namespace Product

variable [DecidableEq ι]

/-! ## What calls through caches with one identifier leave alone -/

/-- The states of the caches with other identifiers, and what their base stores hold, are the same
before and after. -/
def Spares (d : (i : ι) → Cache κ α (σ i)) (id : String) (s : (i : ι) → σ i) (g : Ground κ α)
    (s' : (i : ι) → σ i) (g' : Ground κ α) : Prop :=
  ∀ i, (d i).id ≠ id → s' i = s i ∧ g'.store (d i).base = g.store (d i).base

/-- Caches with different identifiers do not reach each other's base stores. -/
def Apart (d : (i : ι) → Cache κ α (σ i)) : Prop :=
  ∀ i j, (d i).id ≠ (d j).id → (d j).Avoids (d i).base

namespace Spares

variable {d : (i : ι) → Cache κ α (σ i)} {id : String} {s s' : (i : ι) → σ i}
  {g g' : Ground κ α}

omit [DecidableEq ι] in
theorem refl : Spares d id s g s g := fun _ _ => ⟨rfl, rfl⟩

variable (hd : Apart d) {j : ι} (s) (g)

include hd

theorem member {s' : σ j} (h : ∀ base, (d j).Avoids base → g'.store base = g.store base) :
    Spares d (d j).id s g (Function.update s j s') g' := by
  intro i hi
  have hne : i ≠ j := by
    rintro rfl
    exact hi rfl
  exact ⟨Function.update_of_ne hne s' s, h _ (hd i j hi)⟩

variable [DecidableEq κ] (m : Moment) (b : Buffer κ α)

theorem get (k : κ) :
    let r := b.get (Cache.member d j) m k s g
    Spares d (d j).id s g r.state.2 r.ground := by
  obtain ⟨hstate, hground, -⟩ := b.settle_spec k ((Cache.member d j).get m k s g)
  dsimp only [Buffer.get]
  rw [hstate, hground]
  exact member s g hd fun _ h => h.get m k (s j) g

theorem resume (k : κ) (gate : Nat) (w : Wake) :
    let r := b.resume (Cache.member d j) m k gate w s g
    Spares d (d j).id s g r.state.2 r.ground := by
  obtain ⟨hstate, hground, -⟩ := b.settle_spec k ((Cache.member d j).resume m k gate w s g)
  dsimp only [Buffer.resume]
  rw [hstate, hground]
  exact member s g hd fun _ h => h.resume m k gate w (s j) g

theorem commit :
    let r := b.commit (Cache.member d j) m s g
    Spares d (d j).id s g r.state.2 r.ground := by
  rw [Buffer.commit_member]
  exact member s g hd fun _ h => h.commit m (s j) g b

omit [DecidableEq κ] in
theorem rollback :
    let r := b.rollback (Cache.member d j) m s g
    Spares d (d j).id s g r.state.2 r.ground := by
  rw [Buffer.rollback_member]
  exact member s g hd fun _ h => h.releaseAll m (s j) g b.misses

end Spares

/-! ## Calls -/

/-- What a unit of work is asked for, through one of several caches. -/
inductive Call (ι κ α : Type) where
  | get (cache : ι) (k : κ)
  | resume (cache : ι) (k : κ) (gate : Nat) (w : Wake)
  | put (cache : ι) (k : κ) (item : Item α)
  | clear (cache : ι)
  | commit
  | rollback

/-- A call as the transaction over the caches with one identifier sees it. -/
structure Deed (ι κ α : Type) where
  id : String
  moment : Moment
  call : Call ι κ α
  answer : Buffer.Answer κ α

/-- The cache that a call is made through. -/
def Call.cache? : Call ι κ α → Option ι
  | get i _ | resume i .. | put i .. | clear i => some i
  | commit | rollback => none

variable [DecidableEq κ] (d : (i : ι) → Cache κ α (σ i)) (m : Moment)

/-! ### A transaction that is alone -/

/-- What a lone transaction has come to: the cache that it was first asked through and its buffer,
or nothing since it was last ended. -/
abbrev Lone (ι κ α : Type) := Option (ι × Buffer κ α)

/-- Performs a call of a lone transaction. The first one chooses the cache for those that follow. -/
def Call.alone (l : Lone ι κ α) (s : (i : ι) → σ i) (g : Ground κ α) :
    Call ι κ α → Reply κ α (Lone ι κ α × ((i : ι) → σ i)) (Buffer.Answer κ α)
  | get i k =>
    let (j, b) := l.getD (i, {})
    let r := b.get (Cache.member d j) m k s g
    ⟨(some (j, r.state.1), r.state.2), r.ground, .looked r.answer⟩
  | resume _ k gate w =>
    match l with
    | none => ⟨(none, s), g, .looked (.done (.ok none))⟩
    | some (j, b) =>
      let r := b.resume (Cache.member d j) m k gate w s g
      ⟨(some (j, r.state.1), r.state.2), r.ground, .looked r.answer⟩
  | put i k item =>
    let (j, b) := l.getD (i, {})
    ⟨(some (j, b.put k item), s), g, .nothing⟩
  | clear i =>
    let (j, b) := l.getD (i, {})
    ⟨(some (j, b.clear), s), g, .nothing⟩
  | commit =>
    match l with
    | none => ⟨(none, s), g, .written (.ok ())⟩
    | some (j, b) =>
      let r := b.commit (Cache.member d j) m s g
      match r.answer with
      | .error e => ⟨(some (j, r.state.1), r.state.2), r.ground, .written (.error e)⟩
      | .ok _ => ⟨(none, r.state.2), r.ground, .written (.ok ())⟩
  | rollback =>
    match l with
    | none => ⟨(none, s), g, .nothing⟩
    | some (j, b) =>
      let r := b.rollback (Cache.member d j) m s g
      ⟨(none, r.state.2), r.ground, .nothing⟩

/-- The calls that a lone transaction over the caches with an identifier was asked for, what it has
come to, the states of the caches, and the ground. Between two of its calls everything may change
but the states of these caches and what their base stores hold. -/
inductive Lone.Run (id : String) (s₀ : (i : ι) → σ i) (g₀ : Ground κ α) :
    List (Deed ι κ α) → Lone ι κ α → ((i : ι) → σ i) → Ground κ α → Prop where
  | start : Run id s₀ g₀ [] none s₀ g₀
  | call {past : List (Deed ι κ α)} {l : Lone ι κ α} {s : (i : ι) → σ i} {g : Ground κ α}
    (m : Moment) (call : Call ι κ α) (hcall : ∀ i ∈ call.cache?, (d i).id = id) :
    Run id s₀ g₀ past l s g →
      Run id s₀ g₀ (past ++ [⟨id, m, call, (call.alone d m l s g).answer⟩])
        (call.alone d m l s g).state.1 (call.alone d m l s g).state.2 (call.alone d m l s g).ground
  | elsewhere {past : List (Deed ι κ α)} {l : Lone ι κ α} {s s' : (i : ι) → σ i}
    {g g' : Ground κ α}
    (hsame : ∀ i, (d i).id = id → s' i = s i ∧ g'.store (d i).base = g.store (d i).base) :
    Run id s₀ g₀ past l s g → Run id s₀ g₀ past l s' g'

/-! ### A unit of work -/

/-- Performs a call of a unit of work. -/
def Call.perform (u : UnitOfWork ι κ α) (s : (i : ι) → σ i) (g : Ground κ α) :
    Call ι κ α → Reply κ α (UnitOfWork ι κ α × ((i : ι) → σ i)) (Buffer.Answer κ α)
  | get i k =>
    let r := u.get (Cache.member d) m i (d i).id k s g
    ⟨r.state, r.ground, .looked r.answer⟩
  | resume i k gate w =>
    let r := u.resume (Cache.member d) m (d i).id k gate w s g
    ⟨r.state, r.ground, .looked r.answer⟩
  | put i k item => ⟨(u.put i (d i).id k item, s), g, .nothing⟩
  | clear i => ⟨(u.clear i (d i).id, s), g, .nothing⟩
  | commit =>
    let r := u.commit (Cache.member d) m s g
    ⟨r.state, r.ground, .written r.answer⟩
  | rollback =>
    let r := u.rollback (Cache.member d) m s g
    ⟨r.state, r.ground, .nothing⟩

/-- The deeds of a commit, up to the first that fails. While one participant is committed, what the
next ones are going to write is held. -/
def commitDeeds : List (Participant ι κ α) → ((i : ι) → σ i) → Ground κ α → List (Deed ι κ α)
  | [], _, _ => []
  | p :: rest, s, g =>
    let m := m.holding (rest.flatMap (·.buffer.serials))
    let r := p.buffer.commit (Cache.member d p.cache) m s g
    ⟨p.id, m, .commit, .written r.answer⟩ ::
      match r.answer with
      | .error _ => []
      | .ok _ => commitDeeds rest r.state.2 r.ground

/-- A call of a unit of work as the transactions over its caches see it. -/
def Call.deeds (u : UnitOfWork ι κ α) (s : (i : ι) → σ i) (g : Ground κ α) :
    Call ι κ α → List (Deed ι κ α)
  | commit => commitDeeds d m u.participants s g
  | rollback => u.participants.map fun p => ⟨p.id, m, .rollback, .nothing⟩
  | call => call.cache?.toList.map fun i => ⟨(d i).id, m, call, (call.perform d m u s g).answer⟩

/-- The calls that a new unit of work was asked for, as the transactions over its caches see them,
what it has come to, the states of the caches, and the ground. -/
inductive Run (s₀ : (i : ι) → σ i) (g₀ : Ground κ α) :
    List (Deed ι κ α) → UnitOfWork ι κ α → ((i : ι) → σ i) → Ground κ α → Prop where
  | start : Run s₀ g₀ [] {} s₀ g₀
  | call {past : List (Deed ι κ α)} {u : UnitOfWork ι κ α} {s : (i : ι) → σ i} {g : Ground κ α}
    (m : Moment) (call : Call ι κ α) :
    Run s₀ g₀ past u s g →
      Run s₀ g₀ (past ++ call.deeds d m u s g) (call.perform d m u s g).state.1
        (call.perform d m u s g).state.2 (call.perform d m u s g).ground

/-! ## One identifier at a time -/

/-- What participants have for an identifier, as a lone transaction has it. -/
def lone (ps : List (Participant ι κ α)) (id : String) : Lone ι κ α :=
  (ps.find? (·.id = id)).map fun p => (p.cache, p.buffer)

omit [DecidableEq ι] [DecidableEq κ] in
theorem lone_cons (p : Participant ι κ α) (ps : List (Participant ι κ α)) (id : String) :
    lone (p :: ps) id = if p.id = id then some (p.cache, p.buffer) else lone ps id := by
  simp only [lone, List.find?_cons]
  by_cases h : p.id = id <;> simp [h]

omit [DecidableEq ι] [DecidableEq κ] in
theorem lone_eq_none {ps : List (Participant ι κ α)} {id : String} :
    lone ps id = none ↔ id ∉ ps.map (·.id) := by
  simp [lone, List.find?_eq_none]

omit [DecidableEq ι] [DecidableEq κ] in
theorem lone_join (u : UnitOfWork ι κ α) (i : ι) (id id' : String) :
    lone (u.join i id).participants id' =
      if id = id' then some ((lone u.participants id).getD (i, {}))
      else lone u.participants id' := by
  rw [UnitOfWork.participants_join]
  cases hp : u.participant? id with
  | some p =>
    rw [UnitOfWork.participant?] at hp
    simp only [Option.isSome_some, if_true, List.append_nil]
    split
    · next he =>
      subst he
      simp [lone, hp]
    · rfl
  | none =>
    rw [UnitOfWork.participant?] at hp
    simp only [Option.isSome_none, Bool.false_eq_true, if_false]
    split
    · next he =>
      subst he
      simp [lone, List.find?_append, hp]
    · next hne => simp [lone, List.find?_append, hne]

omit [DecidableEq ι] [DecidableEq κ] in
theorem lone_modify (u : UnitOfWork ι κ α) (id id' : String) (f : Buffer κ α → Buffer κ α) :
    lone (u.modify id f).participants id' =
      (lone u.participants id').map fun l => if id = id' then (l.1, f l.2) else l := by
  simp only [UnitOfWork.modify]
  induction u.participants with
  | nil => rfl
  | cons p ps ih =>
    rw [List.map_cons, lone_cons, lone_cons, ih]
    by_cases hp : p.id = id'
    · subst hp
      by_cases he : p.id = id
      · simp [he]
      · simp [he, Ne.symm he]
    · have hp' : (if p.id = id then { p with buffer := f p.buffer } else p).id ≠ id' := by
        split <;> exact hp
      rw [if_neg hp, if_neg hp']

/-- A call through a cache does to a unit of work what it does to the lone transaction over the
caches with its identifier, and nothing else. -/
theorem Call.perform_alone {call : Call ι κ α} {i : ι} (hi : call.cache? = some i)
    (u : UnitOfWork ι κ α) (s : (i : ι) → σ i) (g : Ground κ α) :
    let a := call.alone d m (lone u.participants (d i).id) s g
    let r := call.perform d m u s g
    (∀ id, lone r.state.1.participants id =
      if (d i).id = id then a.state.1 else lone u.participants id) ∧
    r.state.2 = a.state.2 ∧ r.ground = a.ground ∧ r.answer = a.answer := by
  cases call with
  | get j k =>
    obtain rfl : j = i := Option.some.inj hi
    obtain ⟨p, -, -, hfind⟩ := UnitOfWork.exists_participant_join u j (d j).id
    have hlone := lone_join u j (d j).id
    have hown : (lone u.participants (d j).id).getD (j, {}) = (p.cache, p.buffer) := by
      have hjoined := hlone (d j).id
      rw [UnitOfWork.participant?] at hfind
      rw [if_pos rfl, lone, hfind] at hjoined
      exact (Option.some.inj hjoined).symm
    simp only [Call.perform, Call.alone, UnitOfWork.get, hfind, hown, and_self, and_true]
    intro id
    rw [lone_modify, hlone, hown]
    by_cases he : (d j).id = id <;> simp [he]
  | resume j k gate w =>
    obtain rfl : j = i := Option.some.inj hi
    simp only [Call.perform, Call.alone, UnitOfWork.resume]
    cases hp : u.participant? (d j).id with
    | none =>
      have hown : lone u.participants (d j).id = none := by
        rw [lone, ← UnitOfWork.participant?, hp]
        rfl
      simp only [hown, and_self, and_true]
      intro id
      split
      · next he => rw [← he, hown]
      · rfl
    | some p =>
      have hown : lone u.participants (d j).id = some (p.cache, p.buffer) := by
        rw [lone, ← UnitOfWork.participant?, hp]
        rfl
      simp only [hown, and_self, and_true]
      intro id
      rw [lone_modify]
      by_cases he : (d j).id = id
      · simp [← he, hown]
      · simp [he]
  | put j k item =>
    obtain rfl : j = i := Option.some.inj hi
    refine ⟨fun id => ?_, rfl, rfl, rfl⟩
    simp only [Call.perform, Call.alone, UnitOfWork.put]
    rw [lone_modify, lone_join]
    by_cases he : (d j).id = id <;> simp [he]
  | clear j =>
    obtain rfl : j = i := Option.some.inj hi
    refine ⟨fun id => ?_, rfl, rfl, rfl⟩
    simp only [Call.perform, Call.alone, UnitOfWork.clear]
    rw [lone_modify, lone_join]
    by_cases he : (d j).id = id <;> simp [he]
  | commit => cases hi
  | rollback => cases hi

/-- Participants are those that their caches are. -/
def Owned (ps : List (Participant ι κ α)) : Prop := ∀ p ∈ ps, (d p.cache).id = p.id

variable {d} {id : String} {s₀ : (i : ι) → σ i} {g₀ : Ground κ α}

/-- A call of a lone transaction leaves the caches with other identifiers alone. -/
theorem Call.spares_alone (hd : Apart d) {call : Call ι κ α}
    (hcall : ∀ i ∈ call.cache?, (d i).id = id) {l : Lone ι κ α} (hl : ∀ a ∈ l, (d a.1).id = id)
    (s : (i : ι) → σ i) (g : Ground κ α) :
    Spares d id s g (call.alone d m l s g).state.2 (call.alone d m l s g).ground := by
  have hfirst (i : ι) (hi : (d i).id = id) : (d (l.getD (i, {})).1).id = id := by
    cases l with
    | none => exact hi
    | some a => exact hl a rfl
  cases call with
  | get i k =>
    rw [← hfirst i (hcall i rfl)]
    exact Spares.get s g hd m _ k
  | resume i k gate w =>
    cases l with
    | none => exact .refl
    | some a =>
      rw [← hl a rfl]
      exact Spares.resume s g hd m a.2 k gate w
  | put i k item => exact .refl
  | clear i => exact .refl
  | commit =>
    cases l with
    | none => exact .refl
    | some a =>
      have hcommit := Spares.commit s g hd m a.2 (j := a.1)
      rw [← hl a rfl]
      simp only [Call.alone]
      split <;> exact hcommit
  | rollback =>
    cases l with
    | none => exact .refl
    | some a =>
      rw [← hl a rfl]
      exact Spares.rollback s g hd m a.2

omit [DecidableEq ι] [DecidableEq κ] in
theorem Owned.lone {ps : List (Participant ι κ α)} (h : Owned d ps) :
    ∀ a ∈ lone ps id, (d a.1).id = id := by
  intro a ha
  obtain ⟨p, hp, rfl⟩ := Option.map_eq_some_iff.mp ha
  exact (h p (List.mem_of_find?_eq_some hp)).trans (of_decide_eq_true (List.find?_some hp :))

theorem Lone.Run.spares {past : List (Deed ι κ α)} {l : Lone ι κ α} {s s' : (i : ι) → σ i}
    {g g' : Ground κ α} (h : Lone.Run d id s₀ g₀ past l s g) {id' : String} (hne : id ≠ id')
    (hs : Spares d id' s g s' g') : Lone.Run d id s₀ g₀ past l s' g' :=
  h.elsewhere fun i hi => hs i (hi ▸ hne)

theorem Lone.Run.note {past : List (Deed ι κ α)} {l : Lone ι κ α} {s : (i : ι) → σ i}
    {g : Ground κ α} (h : Lone.Run d id s₀ g₀ past l s g) (e : Event κ) :
    Lone.Run d id s₀ g₀ past l s (g.note e) := by
  refine h.elsewhere fun i _ => ⟨rfl, ?_⟩
  rw [Ground.store_note]

/-- A commit is a commit of the lone transactions that it comes to. -/
theorem alone_commitAll (hd : Apart d) {ps : List (Participant ι κ α)} (hown : Owned d ps)
    (hnodup : (ps.map (·.id)).Nodup) {past : List (Deed ι κ α)} {s : (i : ι) → σ i}
    {g : Ground κ α} (h : Lone.Run d id s₀ g₀ past (lone ps id) s g) :
    let r := UnitOfWork.commitAll (Cache.member d) m ps s g
    Lone.Run d id s₀ g₀ (past ++ (commitDeeds d m ps s g).filter (·.id = id)) (lone r.state.1 id)
      r.state.2 r.ground := by
  induction ps generalizing past s g with
  | nil => simpa [commitDeeds, UnitOfWork.commitAll] using h
  | cons p rest ih =>
    simp only [UnitOfWork.commitAll, commitDeeds]
    generalize m.holding (rest.flatMap (·.buffer.serials)) = mp
    have hp : (d p.cache).id = p.id := hown p List.mem_cons_self
    have hrest : Owned d rest := fun q hq => hown q (List.mem_cons_of_mem p hq)
    obtain ⟨hnew, hnodup⟩ := List.nodup_cons.mp hnodup
    rw [lone_cons] at h
    by_cases hid : p.id = id
    · subst hid
      rw [if_pos rfl] at h
      have hcommit := h.call mp .commit (by simp [Call.cache?])
      simp only [Call.alone] at hcommit
      cases hanswer : (p.buffer.commit (Cache.member d p.cache) mp s g).answer with
      | error e =>
        rw [hanswer] at hcommit
        simpa [lone_cons] using hcommit.note (.commitFailed p.id e)
      | ok _ =>
        rw [hanswer] at hcommit
        rw [← lone_eq_none.mpr hnew] at hcommit
        simpa using ih hrest hnodup hcommit
    · rw [if_neg hid] at h
      have hspares := Spares.commit s g hd mp p.buffer (j := p.cache)
      rw [hp] at hspares
      have hspared := h.spares (Ne.symm hid) hspares
      cases hanswer : (p.buffer.commit (Cache.member d p.cache) mp s g).answer with
      | error e => simpa [lone_cons, hid] using hspared.note (.commitFailed p.id e)
      | ok _ => simpa [hid] using ih hrest hnodup hspared

/-- A rollback is a rollback of the lone transactions. -/
theorem alone_rollbackAll (hd : Apart d) {ps : List (Participant ι κ α)} (hown : Owned d ps)
    (hnodup : (ps.map (·.id)).Nodup) {past : List (Deed ι κ α)} {s : (i : ι) → σ i}
    {g : Ground κ α} (h : Lone.Run d id s₀ g₀ past (lone ps id) s g) :
    let r := UnitOfWork.rollbackAll (Cache.member d) m ps s g
    Lone.Run d id s₀ g₀
      (past ++ (ps.map fun p => ⟨p.id, m, .rollback, .nothing⟩).filter (·.id = id)) none
      r.1 r.2 := by
  induction ps generalizing past s g with
  | nil => simpa [UnitOfWork.rollbackAll, lone] using h
  | cons p rest ih =>
    simp only [UnitOfWork.rollbackAll, List.map_cons]
    have hp : (d p.cache).id = p.id := hown p List.mem_cons_self
    have hrest : Owned d rest := fun q hq => hown q (List.mem_cons_of_mem p hq)
    obtain ⟨hnew, hnodup⟩ := List.nodup_cons.mp hnodup
    rw [lone_cons] at h
    by_cases hid : p.id = id
    · subst hid
      rw [if_pos rfl] at h
      have hrollback := h.call m .rollback (by simp [Call.cache?])
      simp only [Call.alone] at hrollback
      rw [← lone_eq_none.mpr hnew] at hrollback
      simpa using ih hrest hnodup hrollback
    · rw [if_neg hid] at h
      have hspares := Spares.rollback s g hd m p.buffer (j := p.cache)
      rw [hp] at hspares
      simpa [hid] using ih hrest hnodup (h.spares (Ne.symm hid) hspares)

/-! ## Commits that stop half-way -/

variable (d)

/-- A commit that stops at a participant. Those in front of it are committed and gone; it stays
first, as it was, and those behind it keep their order, their buffers, the states of their caches
and what these store. The next commit goes on from here and leaves the caches of those in front
alone. -/
structure Stops (u : UnitOfWork ι κ α) (s : (i : ι) → σ i) (g : Ground κ α)
    (front : List (Participant ι κ α)) (p : Participant ι κ α) (behind : List (Participant ι κ α))
    (e : CacheError κ) : Prop where
  participants : u.participants = front ++ p :: behind
  answer : (u.commit (Cache.member d) m s g).answer = .error e
  left : (u.commit (Cache.member d) m s g).state.1.participants = p :: behind
  deeds : (commitDeeds d m u.participants s g).map (fun e => (e.id, e.answer)) =
    front.map (fun p => (p.id, .written (.ok ()))) ++ [(p.id, .written (.error e))]
  spared : ∀ i, (d i).id ∈ behind.map (·.id) →
    let r := u.commit (Cache.member d) m s g
    r.state.2 i = s i ∧ r.ground.store (d i).base = g.store (d i).base
  resumes : ∀ m', let r := u.commit (Cache.member d) m s g
    ∃ e' later, commitDeeds d m' r.state.1.participants r.state.2 r.ground = e' :: later ∧
      e'.id = p.id ∧ ∀ i, (d i).id ∈ front.map (·.id) →
        let r' := r.state.1.commit (Cache.member d) m' r.state.2 r.ground
        r'.state.2 i = r.state.2 i ∧ r'.ground.store (d i).base = r.ground.store (d i).base

/-- A commit that takes every participant. -/
structure Completes (u : UnitOfWork ι κ α) (s : (i : ι) → σ i) (g : Ground κ α) : Prop where
  answer : (u.commit (Cache.member d) m s g).answer = .ok ()
  left : (u.commit (Cache.member d) m s g).state.1.participants = []
  deeds : (commitDeeds d m u.participants s g).map (fun e => (e.id, e.answer)) =
    u.participants.map fun p => (p.id, .written (.ok ()))

variable {d}

/-- A commit takes the participants in their order. -/
theorem commitAll_cases (ps : List (Participant ι κ α)) (s : (i : ι) → σ i) (g : Ground κ α) :
    let r := UnitOfWork.commitAll (Cache.member d) m ps s g
    let deeds := (commitDeeds d m ps s g).map fun e => (e.id, e.answer)
    (r.answer = .ok () ∧ r.state.1 = [] ∧ deeds = ps.map fun p => (p.id, .written (.ok ()))) ∨
      ∃ front p behind e, ps = front ++ p :: behind ∧ r.answer = .error e ∧
        r.state.1 = p :: behind ∧ deeds =
          front.map (fun p => (p.id, .written (.ok ()))) ++ [(p.id, .written (.error e))] := by
  induction ps generalizing s g with
  | nil => exact .inl ⟨rfl, rfl, rfl⟩
  | cons p rest ih =>
    simp only [UnitOfWork.commitAll, commitDeeds]
    generalize m.holding (rest.flatMap (·.buffer.serials)) = mp
    have hbuffer := Buffer.buffer_commit (Cache.member d p.cache) mp p.buffer s g
    cases hanswer : (p.buffer.commit (Cache.member d p.cache) mp s g).answer with
    | error e =>
      rw [hanswer] at hbuffer
      exact .inr ⟨[], p, rest, e, rfl, rfl, by rw [hbuffer], by simp⟩
    | ok _ =>
      rcases ih (p.buffer.commit (Cache.member d p.cache) mp s g).state.2
        (p.buffer.commit (Cache.member d p.cache) mp s g).ground with
        ⟨hok, hleft, hdeeds⟩ | ⟨front, q, behind, e, rfl, herror, hleft, hdeeds⟩
      · exact .inl ⟨hok, hleft, by simp [hdeeds]⟩
      · exact .inr ⟨p :: front, q, behind, e, rfl, herror, hleft, by simp [hdeeds]⟩

/-- A commit leaves the caches alone that it does not come to. -/
theorem spares_commitAll (hd : Apart d) {ps : List (Participant ι κ α)} (hown : Owned d ps)
    (s : (i : ι) → σ i) (g : Ground κ α) {i : ι}
    (hi : (d i).id ∉ (commitDeeds d m ps s g).map (·.id)) :
    let r := UnitOfWork.commitAll (Cache.member d) m ps s g
    r.state.2 i = s i ∧ r.ground.store (d i).base = g.store (d i).base := by
  induction ps generalizing s g with
  | nil => exact ⟨rfl, rfl⟩
  | cons p rest ih =>
    simp only [UnitOfWork.commitAll, commitDeeds, List.map_cons, List.mem_cons, not_or] at hi ⊢
    generalize m.holding (rest.flatMap (·.buffer.serials)) = mp at hi ⊢
    obtain ⟨hne, hi⟩ := hi
    have hp : (d p.cache).id = p.id := hown p List.mem_cons_self
    have hspares := Spares.commit s g hd mp p.buffer (j := p.cache) i (hp ▸ hne)
    cases hanswer : (p.buffer.commit (Cache.member d p.cache) mp s g).answer with
    | error e => exact hspares
    | ok _ =>
      rw [hanswer] at hi
      have hrest := ih (fun q hq => hown q (List.mem_cons_of_mem p hq)) _ _ hi
      exact ⟨hrest.1.trans hspares.1, hrest.2.trans hspares.2⟩

omit [DecidableEq ι] [DecidableEq κ] in
theorem ids_eq (es : List (Deed ι κ α)) :
    es.map (·.id) = (es.map fun e => (e.id, e.answer)).map (·.1) := by
  simp [Function.comp_def]

/-- A commit comes to the participants in front. -/
theorem ids_commitDeeds (ps : List (Participant ι κ α)) (s : (i : ι) → σ i) (g : Ground κ α) :
    (commitDeeds d m ps s g).map (·.id) <+: ps.map (·.id) := by
  rw [ids_eq]
  rcases commitAll_cases (d := d) m ps s g with
    ⟨-, -, hdeeds⟩ | ⟨front, p, behind, e, rfl, -, -, hdeeds⟩
  · rw [hdeeds, List.map_map]
    exact List.prefix_rfl
  · rw [hdeeds]
    exact ⟨behind.map (·.id), by simp⟩

theorem completes_or_stops (hd : Apart d) {u : UnitOfWork ι κ α} (hown : Owned d u.participants)
    (hnodup : (u.participants.map (·.id)).Nodup) (s : (i : ι) → σ i) (g : Ground κ α) :
    Completes d m u s g ∨ ∃ front p behind e, Stops d m u s g front p behind e := by
  rcases commitAll_cases (d := d) m u.participants s g with
    ⟨hok, hleft, hdeeds⟩ | ⟨front, p, behind, e, hps, herror, hleft, hdeeds⟩
  · exact .inl ⟨hok, hleft, hdeeds⟩
  · have hsplit : (front.map (·.id) ++ [p.id] ++ behind.map (·.id)).Nodup := by
      simpa [hps] using hnodup
    refine .inr ⟨front, p, behind, e, hps, herror, hleft, hdeeds, fun i hi => ?_, fun m' => ?_⟩
    · have hids : (commitDeeds d m u.participants s g).map (·.id) = front.map (·.id) ++ [p.id] := by
        simp [ids_eq, hdeeds, Function.comp_def]
      refine spares_commitAll m hd hown s g ?_
      rw [hids]
      exact fun hfront => (List.nodup_append.mp hsplit).2.2 _ hfront _ hi rfl
    · have hleft : (u.commit (Cache.member d) m s g).state.1.participants = p :: behind := hleft
      refine ⟨_, _, by rw [hleft, commitDeeds], rfl, fun i hi => ?_⟩
      have hown' : Owned d (u.commit (Cache.member d) m s g).state.1.participants := by
        rw [hleft]
        exact fun q hq => hown q (by rw [hps]; exact List.mem_append_right front hq)
      refine spares_commitAll m' hd hown' _ _ fun hbehind => ?_
      have hbehind := (ids_commitDeeds m' _ _ _).subset hbehind
      rw [hleft] at hbehind
      rw [List.append_assoc] at hsplit
      exact (List.nodup_append.mp hsplit).2.2 _ hi _ (by simpa using hbehind) rfl

/-! ## The order of the first touch -/

/-- The cache that a call touches, with its identifier. -/
def Deed.touch? (e : Deed ι κ α) : Option (String × ι) :=
  match e.call with
  | .get i _ | .put i .. | .clear i => some (e.id, i)
  | .resume .. | .commit | .rollback => none

/-- Whether the call ends what a transaction has collected so far. -/
def Deed.ends (e : Deed ι κ α) : Bool :=
  match e.call, e.answer with
  | .commit, .written (.ok _) => true
  | .rollback, _ => true
  | _, _ => false

/-- The calls that no later one for the same identifier has ended. -/
def current : List (Deed ι κ α) → List (Deed ι κ α)
  | [] => []
  | e :: later =>
    if later.any fun e' => e'.ends && e'.id = e.id then current later else e :: current later

/-- Of several pairs with one identifier only the first, each where it stands. -/
def firstOfEach : List (String × ι) → List (String × ι)
  | [] => []
  | w :: rest => w :: (firstOfEach rest).filter (·.1 ≠ w.1)

/-- The caches that were touched first, with their identifiers, in the order of these touches. What
came before a successful commit or a rollback of an identifier does not count for it. -/
def touched (past : List (Deed ι κ α)) : List (String × ι) :=
  firstOfEach ((current past).filterMap (·.touch?))

omit [DecidableEq ι] in
theorem firstOfEach_filter (l : List (String × ι)) (id : String) :
    firstOfEach (l.filter (·.1 ≠ id)) = (firstOfEach l).filter (·.1 ≠ id) := by
  induction l with
  | nil => rfl
  | cons w l ih =>
    by_cases hw : w.1 = id
    · subst hw
      rw [List.filter_cons_of_neg (by simp), ih, firstOfEach, List.filter_cons_of_neg (by simp),
        List.filter_filter]
      simp
    · rw [List.filter_cons_of_pos (by simpa using hw), firstOfEach, ih, firstOfEach,
        List.filter_cons_of_pos (by simpa using hw), List.filter_filter, List.filter_filter]
      simp only [Bool.and_comm]

omit [DecidableEq ι] in
theorem firstOfEach_concat (l : List (String × ι)) (w : String × ι) :
    firstOfEach (l ++ [w]) =
      firstOfEach l ++ if w.1 ∈ (firstOfEach l).map (·.1) then [] else [w] := by
  induction l with
  | nil => rfl
  | cons v l ih =>
    rw [List.cons_append, firstOfEach, ih, firstOfEach, List.filter_append, List.cons_append]
    congr 2
    by_cases hv : w.1 = v.1
    · simp only [hv]
      split <;> simp [hv]
    · have hmem : w.1 ∈ (v :: (firstOfEach l).filter (·.1 ≠ v.1)).map (·.1) ↔
          w.1 ∈ (firstOfEach l).map (·.1) := by
        simp [hv]
      simp only [hmem]
      split <;> simp [hv]

omit [DecidableEq ι] [DecidableEq κ] in
theorem current_concat (past : List (Deed ι κ α)) (e : Deed ι κ α) :
    current (past ++ [e]) =
      (if e.ends then (current past).filter (·.id ≠ e.id) else current past) ++ [e] := by
  induction past with
  | nil => cases he : e.ends <;> simp [current]
  | cons e' past ih =>
    rw [List.cons_append, current, ih, current, List.any_append]
    by_cases hlater : past.any fun e'' => e''.ends && e''.id = e'.id
    · simp [hlater]
    · cases hends : e.ends with
      | false => simp [hlater, hends]
      | true =>
        by_cases hid : e'.id = e.id
        · rw [if_neg hlater]
          simp [hends, hid]
        · simp [hlater, hends, hid, Ne.symm hid]

omit [DecidableEq ι] [DecidableEq κ] in
/-- A call that ends what was collected for its identifier. -/
theorem touched_concat_ends (past : List (Deed ι κ α)) {e : Deed ι κ α} (he : e.ends = true)
    (htouch : e.touch? = none) :
    touched (past ++ [e]) = (touched past).filter (·.1 ≠ e.id) := by
  rw [touched, current_concat, if_pos he, List.filterMap_append, List.filterMap_cons_none htouch,
    List.filterMap_nil, List.append_nil, touched, ← firstOfEach_filter, List.filterMap_filter,
    List.filter_filterMap]
  congr 2
  funext e'
  rcases e' with ⟨id', m, call, answer⟩
  cases call <;> simp [Deed.touch?, Option.filter]

omit [DecidableEq ι] [DecidableEq κ] in
/-- A call that touches no cache and ends nothing. -/
theorem touched_concat_none (past : List (Deed ι κ α)) {e : Deed ι κ α} (he : e.ends = false)
    (htouch : e.touch? = none) : touched (past ++ [e]) = touched past := by
  simp [touched, current_concat, he, htouch]

omit [DecidableEq ι] [DecidableEq κ] in
/-- A call that touches a cache. -/
theorem touched_concat_some (past : List (Deed ι κ α)) {e : Deed ι κ α} {w : String × ι}
    (he : e.ends = false) (htouch : e.touch? = some w) :
    touched (past ++ [e]) =
      touched past ++ if w.1 ∈ (touched past).map (·.1) then [] else [w] := by
  rw [touched, current_concat, if_neg (by simp [he]), List.filterMap_append,
    List.filterMap_cons_some htouch, List.filterMap_nil]
  exact firstOfEach_concat _ w

/-- Participants as touches of caches. -/
def touches (ps : List (Participant ι κ α)) : List (String × ι) := ps.map fun p => (p.id, p.cache)

omit [DecidableEq ι] [DecidableEq κ] in
theorem nodup_touched (past : List (Deed ι κ α)) : ((touched past).map (·.1)).Nodup := by
  rw [touched]
  generalize (current past).filterMap (·.touch?) = l
  induction l with
  | nil => exact List.nodup_nil
  | cons w l ih =>
    rw [firstOfEach, List.map_cons, List.nodup_cons]
    exact ⟨by simp, (List.filter_sublist.map _).nodup ih⟩

omit [DecidableEq ι] [DecidableEq κ] in
theorem map_touches (ps : List (Participant ι κ α)) :
    (touches ps).map (·.1) = ps.map (·.id) := by
  simp [touches]

omit [DecidableEq ι] [DecidableEq κ] in
/-- Without the first of several participants. -/
theorem touches_filter {p : Participant ι κ α} {rest : List (Participant ι κ α)}
    {past : List (Deed ι κ α)} (h : touches (p :: rest) = touched past) :
    (touched past).filter (·.1 ≠ p.id) = touches rest := by
  have hnodup := nodup_touched past
  rw [← h, map_touches, List.map_cons, List.nodup_cons] at hnodup
  rw [← h, touches, List.map_cons, List.filter_cons_of_neg (by simp), List.filter_eq_self.mpr]
  · rfl
  · intro w hw
    obtain ⟨q, hq, rfl⟩ := List.mem_map.mp hw
    exact decide_eq_true fun he : q.id = p.id => hnodup.1 (he ▸ List.mem_map_of_mem hq)

/-- After a commit those are left that it did not take. -/
theorem touches_commitAll {ps : List (Participant ι κ α)} {past : List (Deed ι κ α)}
    (h : touches ps = touched past) (s : (i : ι) → σ i) (g : Ground κ α) :
    touches (UnitOfWork.commitAll (Cache.member d) m ps s g).state.1 =
      touched (past ++ commitDeeds d m ps s g) := by
  induction ps generalizing past s g with
  | nil => simpa [UnitOfWork.commitAll, commitDeeds] using h
  | cons p rest ih =>
    simp only [UnitOfWork.commitAll, commitDeeds]
    generalize m.holding (rest.flatMap (·.buffer.serials)) = mp
    cases hanswer : (p.buffer.commit (Cache.member d p.cache) mp s g).answer with
    | error e =>
      rw [touched_concat_none past rfl rfl, ← h]
      rfl
    | ok _ =>
      rw [List.append_cons]
      refine ih ?_ _ _
      rw [touched_concat_ends past rfl rfl]
      exact (touches_filter h).symm

omit [DecidableEq ι] [DecidableEq κ] in
/-- After a rollback nothing is left. -/
theorem touched_rollback {ps : List (Participant ι κ α)} {past : List (Deed ι κ α)}
    (h : touches ps = touched past) :
    touched (past ++ ps.map fun p => ⟨p.id, m, .rollback, .nothing⟩) = [] := by
  induction ps generalizing past with
  | nil => simpa [touches] using h.symm
  | cons p rest ih =>
    rw [List.map_cons, List.append_cons]
    refine ih ?_
    rw [touched_concat_ends past rfl rfl]
    exact (touches_filter h).symm

omit [DecidableEq ι] [DecidableEq κ] in
theorem touches_modify (u : UnitOfWork ι κ α) (id : String) (f : Buffer κ α → Buffer κ α) :
    touches (u.modify id f).participants = touches u.participants := by
  simp only [touches, UnitOfWork.modify, List.map_map]
  refine List.map_congr_left fun p _ => ?_
  simp only [Function.comp]
  split <;> rfl

omit [DecidableEq ι] [DecidableEq κ] in
theorem touches_join (u : UnitOfWork ι κ α) (i : ι) (id : String) :
    touches (u.join i id).participants = touches u.participants ++
      if id ∈ (touches u.participants).map (·.1) then [] else [(id, i)] := by
  rw [UnitOfWork.participants_join, map_touches]
  have hsome : (u.participant? id).isSome ↔ id ∈ u.participants.map (·.id) := by
    simp [UnitOfWork.participant?]
  by_cases h : id ∈ u.participants.map (·.id)
  · rw [if_pos h, if_pos (hsome.mpr h)]
    simp
  · rw [if_neg h, if_neg (mt hsome.mp h)]
    simp [touches]

/-- A read lets the cache take part. -/
theorem touches_get (u : UnitOfWork ι κ α) (i : ι) (id : String) (k : κ) (s : (i : ι) → σ i)
    (g : Ground κ α) :
    touches (u.get (Cache.member d) m i id k s g).state.1.participants =
      touches (u.join i id).participants := by
  obtain ⟨p, -, -, hget⟩ := UnitOfWork.get_eq (Cache.member d) m u i id k s g
  rw [hget]
  exact touches_modify _ id _

theorem touches_resume (u : UnitOfWork ι κ α) (id : String) (k : κ) (gate : Nat) (w : Wake)
    (s : (i : ι) → σ i) (g : Ground κ α) :
    touches (u.resume (Cache.member d) m id k gate w s g).state.1.participants =
      touches u.participants := by
  unfold UnitOfWork.resume
  split
  · rfl
  · exact touches_modify u id _

omit [DecidableEq ι] [DecidableEq κ] in
theorem owned_iff {ps : List (Participant ι κ α)} :
    Owned d ps ↔ ∀ w ∈ touches ps, (d w.2).id = w.1 := by
  simp [Owned, touches]

omit [DecidableEq ι] [DecidableEq κ] in
theorem Owned.join {u : UnitOfWork ι κ α} (h : Owned d u.participants) (i : ι) :
    Owned d (u.join i (d i).id).participants := by
  rw [owned_iff] at h ⊢
  rw [touches_join]
  intro w hw
  rcases List.mem_append.mp hw with hw | hw
  · exact h w hw
  · split at hw
    · cases hw
    · rw [List.mem_singleton.mp hw]

omit [DecidableEq ι] [DecidableEq κ] in
/-- Participants with the same touches are owned alike. -/
theorem Owned.congr {ps ps' : List (Participant ι κ α)} (h : Owned d ps)
    (heq : touches ps' = touches ps) : Owned d ps' := by
  rw [owned_iff] at h ⊢
  rwa [heq]

namespace Run

variable {past : List (Deed ι κ α)} {u : UnitOfWork ι κ α} {s : (i : ι) → σ i} {g : Ground κ α}

/-- The participants are the caches touched first, in that order. -/
theorem touches_eq (h : Run d s₀ g₀ past u s g) : touches u.participants = touched past := by
  induction h with
  | start => rfl
  | @call past u s g m call _ ih =>
    -- A cache takes part already, or does so from now on.
    have htouched (call : Call ι κ α) (answer : Buffer.Answer κ α) (i : ι)
        (he : (Deed.mk (d i).id m call answer).ends = false)
        (htouch : (Deed.mk (d i).id m call answer).touch? = some ((d i).id, i)) :
        touches (u.join i (d i).id).participants =
          touched (past ++ [⟨(d i).id, m, call, answer⟩]) := by
      rw [touched_concat_some past he htouch, ← ih]
      exact touches_join u i (d i).id
    cases call with
    | get i k => exact (touches_get m u i _ k s g).trans (htouched (.get i k) _ i rfl rfl)
    | resume i k gate w =>
      exact (touches_resume m u _ k gate w s g).trans
        (ih.trans (touched_concat_none past rfl rfl).symm)
    | put i k item => exact (touches_modify ..).trans (htouched (.put i k item) _ i rfl rfl)
    | clear i => exact (touches_modify ..).trans (htouched (.clear i) _ i rfl rfl)
    | commit => exact touches_commitAll m ih s g
    | rollback => exact (touched_rollback m ih).symm

theorem nodup (h : Run d s₀ g₀ past u s g) : (u.participants.map (·.id)).Nodup := by
  rw [← map_touches, h.touches_eq]
  exact nodup_touched past

theorem owned (h : Run d s₀ g₀ past u s g) : Owned d u.participants := by
  induction h with
  | start => exact nofun
  | @call past u s g m call _ ih =>
    cases call with
    | get i k => exact (ih.join i).congr (touches_get m u i _ k s g)
    | resume i k gate w => exact ih.congr (touches_resume m u _ k gate w s g)
    | put i k item => exact (ih.join i).congr (touches_modify ..)
    | clear i => exact (ih.join i).congr (touches_modify ..)
    | commit =>
      have hleft : (UnitOfWork.commitAll (Cache.member d) m u.participants s g).state.1 <:+
          u.participants := by
        rcases commitAll_cases (d := d) m u.participants s g with
          ⟨-, hleft, -⟩ | ⟨front, p, behind, e, hps, -, hleft, -⟩
        · exact hleft ▸ List.nil_suffix
        · exact ⟨front, hleft ▸ hps.symm⟩
      exact fun p hp => ih p (hleft.subset hp)
    | rollback => exact nofun

/-- A unit of work does to the caches with an identifier what a transaction does that is alone with
them and is fed only the calls for that identifier. -/
theorem alone (hd : Apart d) (h : Run d s₀ g₀ past u s g) (id : String) :
    Lone.Run d id s₀ g₀ (past.filter (·.id = id)) (lone u.participants id) s g := by
  induction h with
  | start => exact .start
  | @call past u s g m call h ih =>
    rw [List.filter_append]
    cases hi : call.cache? with
    | none =>
      cases call with
      | commit => exact alone_commitAll m hd h.owned h.nodup ih
      | rollback => exact alone_rollbackAll m hd h.owned h.nodup ih
      | get i k | resume i k gate w | put i k item | clear i => cases hi
    | some i =>
      obtain ⟨hlone, hstate, hground, hanswer⟩ := Call.perform_alone m hi u s g (d := d)
      have hdeeds : call.deeds d m u s g =
          [⟨(d i).id, m, call, (call.perform d m u s g).answer⟩] := by
        cases call <;> cases hi <;> rfl
      have hown : ∀ j ∈ call.cache?, (d j).id = (d i).id := by
        rw [hi]
        rintro j ⟨⟩
        rfl
      rw [hdeeds, hlone, hstate, hground, hanswer]
      by_cases hid : (d i).id = id
      · subst hid
        rw [if_pos rfl]
        simpa using ih.call m call hown
      · rw [if_neg hid]
        have hspares := Call.spares_alone m hd hown h.owned.lone s g
        simpa [hid] using ih.spares (Ne.symm hid) hspares

end Run

/-! ## Chains -/

section Chains

variable [Codec α] {c : ι → Chain κ}

/-- The operations of several chains. -/
abbrev caches (c : ι → Chain κ) : (i : ι) → Cache κ α (Stack κ (c i).kinds) := fun i => (c i).cache

omit [DecidableEq ι] in
/-- Chains with base stores of their own. -/
theorem apart_caches (h : ∀ i j, (c i).id ≠ (c j).id → (c i).base ≠ (c j).base) :
    Apart (caches c : (i : ι) → Cache κ α _) := by
  intro i j hne
  rw [Chain.id_cache, Chain.id_cache] at hne
  rw [Chain.base_cache]
  exact Stack.avoids (c j).id (c j).kinds (h i j hne)

/-- A rollback of chains changes nothing in the ground. -/
theorem ground_rollbackAll (m : Moment) (ps : List (Participant ι κ α))
    (s : (i : ι) → Stack κ (c i).kinds) (g : Ground κ α) :
    (UnitOfWork.rollbackAll (Cache.member (caches c)) m ps s g).2 = g := by
  induction ps generalizing s g with
  | nil => rfl
  | cons p rest ih =>
    simp only [UnitOfWork.rollbackAll, Buffer.rollback_member]
    rw [ih]
    exact Stack.ground_releaseAll (c p.cache).id (c p.cache).base _ m p.buffer.misses _ g

/-- A unit of work over chains of which those with different identifiers have different base stores
is a product of lone transactions, one for each identifier touched, in the order of the first touch.
A commit takes them in this order; where it stops, the next one goes on. A rollback leaves nothing
and does not change what is stored. -/
theorem Run.is_product (hbases : ∀ i j, (c i).id ≠ (c j).id → (c i).base ≠ (c j).base)
    {s₀ s : (i : ι) → Stack κ (c i).kinds} {g₀ g : Ground κ α} {past : List (Deed ι κ α)}
    {u : UnitOfWork ι κ α} (h : Run (caches c) s₀ g₀ past u s g) :
    (∀ id, Lone.Run (caches c) id s₀ g₀ (past.filter (·.id = id)) (lone u.participants id) s g) ∧
    (u.participants.map (·.id)).Nodup ∧ touches u.participants = touched past ∧
    (∀ m, Completes (caches c) m u s g ∨
      ∃ front p behind e, Stops (caches c) m u s g front p behind e) ∧
    ∀ m, let r := u.rollback (Cache.member (caches c)) m s g
      r.state.1.participants = [] ∧ r.ground = g := by
  have hapart := apart_caches (α := α) hbases
  refine ⟨h.alone hapart, h.nodup, h.touches_eq, fun m => ?_, fun m => ⟨rfl, ?_⟩⟩
  · exact completes_or_stops m hapart h.owned h.nodup s g
  · exact ground_rollbackAll m u.participants s g

/-! ### A commit that stops at the second of three caches -/

namespace Stopped

/-- The second of three caches keeps bytes. -/
def chains : Fin 3 → Chain Nat
  | 0 => .bare "users" 0
  | 1 => ⟨"reports", 1, [.packing], ((), ())⟩
  | 2 => .bare "orders" 2

def start (i : Fin 3) : Stack Nat (chains i).kinds := (chains i).stack

abbrev Point := UnitOfWork (Fin 3) Nat Sample × ((i : Fin 3) → Stack Nat (chains i).kinds) ×
  Ground Nat Sample

def next (call : Call (Fin 3) Nat Sample) (w : Point) : Point :=
  let r := call.perform (caches chains) {} w.1 w.2.1 w.2.2
  (r.state.1, r.state.2, r.ground)

def put (i : Fin 3) (k serial : Nat) (text : String) : Call (Fin 3) Nat Sample :=
  .put i k ⟨serial, .plain ⟨text⟩⟩

/-- The value for the second cache refuses to become bytes. -/
def asked : Point :=
  next (put 2 9 2 "nine") (next (put 1 8 1 "!enc") (next (put 0 7 0 "seven") ({}, start, {})))

def stopped : Point := next .commit asked

theorem apart : ∀ i j, (chains i).id ≠ (chains j).id → (chains i).base ≠ (chains j).base := by
  decide

/-- The second and the third cache still take part, in this order, and the third as it was. -/
theorem stopped_commit_is_product :
    ∃ past, Run (caches chains) start {} past stopped.1 stopped.2.1 stopped.2.2 ∧
      touched past = [("reports", 1), ("orders", 2)] ∧
      touches stopped.1.participants = touched past ∧
      Lone.Run (caches chains) "orders" start {} (past.filter (·.id = "orders"))
        (some (2, { writes := [(9, ⟨2, .plain ⟨"nine"⟩⟩)] })) stopped.2.1 stopped.2.2 := by
  have hrun : Run (caches chains) start {} _ stopped.1 stopped.2.1 stopped.2.2 :=
    .call {} .commit (.call {} (put 2 9 2 "nine")
      (.call {} (put 1 8 1 "!enc") (.call {} (put 0 7 0 "seven") .start)))
  obtain ⟨halone, -, htouches, -⟩ := hrun.is_product apart
  exact ⟨_, hrun, rfl, htouches, halone "orders"⟩

end Stopped

end Chains

end Product

end LayeredCache
