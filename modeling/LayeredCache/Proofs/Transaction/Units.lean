import LayeredCache.Proofs.Transaction.Latches
import LayeredCache.Transaction.UnitOfWork

/-!
# Units of work on a blocking layer and other caches

A unit of work takes part in a cache with a blocking layer and in other caches, told apart by their
identifiers. What its calls do to the latches is what they do through the buffer of that one cache;
a commit that stops at another cache leaves this buffer, or has already dealt with it.

## Main definitions

* `UnitOfWork.among` — one cache and others on one state.
* `UnitOfWork.missed` — the keys that a unit of work has missed in the cache with an identifier.
* `UnitOfWork.touchedAll` — the keys that a commit writes or removes in that cache.
* `UnitOfWork.Proper` — each cache takes part once, and only missed keys were written to the one.
-/

namespace LayeredCache

/-- What a buffer makes of the answer of its cache. -/
theorem Buffer.settle_spec {κ α υ : Type} [DecidableEq κ] (b : Buffer κ α) (k : κ)
    (q : Reply κ α υ (Lookup κ α)) :
    (b.settle k q).state.2 = q.state ∧ (b.settle k q).ground = q.ground ∧
      (b.settle k q).state.1.writes = b.writes ∧
      (∀ k', k' ∈ (b.settle k q).state.1.misses ↔
        k' ∈ b.misses ∨ k' = k ∧ q.answer = .done (.ok none)) ∧
      ∀ gate n, (b.settle k q).answer = .waiting gate n ↔ q.answer = .waiting gate n := by
  unfold settle
  split
  · next found hfound =>
    refine ⟨rfl, rfl, ?_, ?_, fun gate n => by simp [hfound]⟩
    · simp only [learn, miss]
      split <;> [split; skip] <;> rfl
    · intro k'
      cases found <;> simp [learn, hfound, or_comm]
  · next hanswer =>
    refine ⟨rfl, rfl, rfl, ?_, fun gate n => Iff.rfl⟩
    intro k'
    have hne : q.answer ≠ .done (.ok none) := hanswer none
    simp [hne]

namespace UnitOfWork

variable {ρ ι κ α σ τ υ : Type}

/-- One cache, under the reference `none`, and others. -/
def among (c : Cache κ α σ) (others : ι → Cache κ α τ) : Option ι → Cache κ α (σ × τ)
  | none => c.left
  | some i => (others i).right

/-- The keys that participants have missed in the cache with an identifier. -/
def missedAll (id : String) (ps : List (Participant ρ κ α)) : List κ :=
  ps.flatMap fun p => if p.id = id then p.buffer.misses else []

/-- The keys that a unit of work has missed in the cache with an identifier. -/
def missed (u : UnitOfWork ρ κ α) (id : String) : List κ := missedAll id u.participants

/-- The keys that a commit of participants writes or removes in the cache with an identifier. -/
def touchedAll [DecidableEq κ] (find : ρ → Cache κ α υ) (m : Moment) (id : String) :
    List (Participant ρ κ α) → υ → Ground κ α → List κ
  | [], _, _ => []
  | p :: rest, u, g =>
    let m' := m.holding (rest.flatMap (·.buffer.serials))
    let own := if p.id = id then p.buffer.touched (find p.cache) m' u g else []
    let r := p.buffer.commit (find p.cache) m' u g
    match r.answer with
    | .error _ => own
    | .ok _ => own ++ touchedAll find m id rest r.state.2 r.ground

/-- Each cache takes part once, the identifier `id` is that of the cache under `none`, and only
missed keys were written to it. -/
structure Proper (id : String) (ps : List (Participant (Option ι) κ α)) : Prop where
  nodup : (ps.map (·.id)).Nodup
  own : ∀ p ∈ ps, p.cache = none ↔ p.id = id
  written : ∀ p ∈ ps, p.id = id → ∀ w ∈ p.buffer.writes, w.1 ∈ p.buffer.misses

variable {id id' : String} {k : κ}

theorem mem_missedAll {ps : List (Participant ρ κ α)} :
    k ∈ missedAll id ps ↔ ∃ p ∈ ps, p.id = id ∧ k ∈ p.buffer.misses := by
  rw [missedAll, List.mem_flatMap]
  refine exists_congr fun p => and_congr_right fun _ => ?_
  by_cases hp : p.id = id <;> simp [hp]

theorem Proper.nil (id : String) : Proper id ([] : List (Participant (Option ι) κ α)) :=
  ⟨List.nodup_nil, by simp, by simp⟩

theorem Proper.suffix {ps ps' : List (Participant (Option ι) κ α)} (h : Proper id ps)
    (hs : ps' <:+ ps) : Proper id ps' :=
  ⟨(hs.sublist.map _).nodup h.nodup, fun p hp => h.own p (hs.subset hp),
    fun p hp => h.written p (hs.subset hp)⟩

theorem missedAll_suffix {ps ps' : List (Participant ρ κ α)} (hs : ps' <:+ ps)
    (h : k ∈ missedAll id ps') : k ∈ missedAll id ps := by
  obtain ⟨p, hp, hmissed⟩ := mem_missedAll.mp h
  exact mem_missedAll.mpr ⟨p, hs.subset hp, hmissed⟩

/-! ## Taking part -/

theorem exists_participant_join (u : UnitOfWork ρ κ α) (cache : ρ) (id : String) :
    ∃ p ∈ (u.join cache id).participants, p.id = id ∧
      (u.join cache id).participant? id = some p := by
  cases hp : u.participant? id with
  | some p =>
    have hjoin : u.join cache id = u := by simp [join, hp]
    rw [hjoin]
    exact ⟨p, List.mem_of_find?_eq_some hp, of_decide_eq_true (List.find?_some hp :), hp⟩
  | none =>
    have hjoin : u.join cache id = ⟨u.participants ++ [{ cache := cache, id := id }]⟩ := by
      simp [join, hp]
    rw [hjoin]
    refine ⟨{ cache := cache, id := id }, by simp, rfl, ?_⟩
    rw [participant?] at hp ⊢
    rw [List.find?_append, hp]
    simp

theorem missed_join (u : UnitOfWork ρ κ α) (cache : ρ) (id id' : String) :
    (u.join cache id').missed id = u.missed id := by
  unfold join
  split
  · rfl
  · simp [missed, missedAll]

theorem Proper.join {u : UnitOfWork (Option ι) κ α} (h : Proper id u.participants)
    {cache : Option ι} (hcache : cache = none ↔ id' = id) :
    Proper id (u.join cache id').participants := by
  cases hp : u.participant? id' with
  | some p =>
    have hjoin : u.join cache id' = u := by simp [UnitOfWork.join, hp]
    rwa [hjoin]
  | none =>
    have hjoin : (u.join cache id').participants =
        u.participants ++ [{ cache := cache, id := id' }] := by simp [UnitOfWork.join, hp]
    have hnew : ∀ p ∈ u.participants, p.id ≠ id' := by
      simpa [participant?, List.find?_eq_none] using hp
    rw [hjoin]
    refine ⟨?_, ?_, ?_⟩
    · rw [List.map_append, List.nodup_append]
      refine ⟨h.nodup, by simp, ?_⟩
      rintro a ha b hb rfl
      obtain ⟨p, hp, rfl⟩ := List.mem_map.mp ha
      exact hnew p hp (by simpa using hb)
    · intro p hp
      rcases List.mem_append.mp hp with hp | hp
      · exact h.own p hp
      · obtain rfl := List.mem_singleton.mp hp
        exact hcache
    · intro p hp hid
      rcases List.mem_append.mp hp with hp | hp
      · exact h.written p hp hid
      · obtain rfl := List.mem_singleton.mp hp
        exact fun w hw => by cases hw

theorem mem_modify {u : UnitOfWork ρ κ α} {f : Buffer κ α → Buffer κ α} {p' : Participant ρ κ α} :
    p' ∈ (u.modify id' f).participants ↔ ∃ p ∈ u.participants,
      p' = if p.id = id' then { p with buffer := f p.buffer } else p := by
  simp only [modify, List.mem_map]
  exact exists_congr fun p => and_congr_right fun _ => eq_comm

theorem participant?_modify (u : UnitOfWork ρ κ α) (id id' : String)
    (f : Buffer κ α → Buffer κ α) :
    ((u.modify id' f).participant? id).isSome = (u.participant? id).isSome := by
  simp only [participant?, modify, List.find?_map, Option.isSome_map]
  congr 2
  funext p
  simp only [Function.comp]
  split <;> rfl

/-- Changing a buffer keeps a unit of work proper if it does so in the one cache. -/
theorem Proper.modify {u : UnitOfWork (Option ι) κ α} (h : Proper id u.participants)
    {f : Buffer κ α → Buffer κ α}
    (hf : ∀ p ∈ u.participants, p.id = id' → id' = id →
      ∀ w ∈ (f p.buffer).writes, w.1 ∈ (f p.buffer).misses) :
    Proper id (u.modify id' f).participants := by
  refine ⟨?_, ?_, ?_⟩
  · have hids : (u.modify id' f).participants.map (·.id) = u.participants.map (·.id) := by
      simp only [UnitOfWork.modify, List.map_map]
      apply List.map_congr_left
      intro p _
      simp only [Function.comp]
      split <;> rfl
    rw [hids]
    exact h.nodup
  · intro p' hp'
    obtain ⟨p, hp, rfl⟩ := mem_modify.mp hp'
    have hown := h.own p hp
    split <;> exact hown
  · intro p' hp' hid
    obtain ⟨p, hp, rfl⟩ := mem_modify.mp hp'
    by_cases hpid : p.id = id'
    · rw [if_pos hpid] at hid ⊢
      exact hf p hp hpid (hpid.symm.trans hid)
    · rw [if_neg hpid] at hid ⊢
      exact h.written p hp hid

theorem mem_missed_modify {u : UnitOfWork ρ κ α} {f : Buffer κ α → Buffer κ α} :
    k ∈ (u.modify id' f).missed id ↔
      ∃ p ∈ u.participants, p.id = id ∧
        k ∈ (if id = id' then f p.buffer else p.buffer).misses := by
  rw [missed, mem_missedAll]
  constructor
  · rintro ⟨p', hp', hid, hk⟩
    obtain ⟨p, hp, rfl⟩ := mem_modify.mp hp'
    refine ⟨p, hp, ?_⟩
    by_cases hpid : p.id = id'
    · simp only [hpid, if_true] at hid hk
      simpa [hid, hpid] using hk
    · simp only [hpid, if_false] at hid hk
      rw [hid] at hpid
      exact ⟨hid, by rwa [if_neg hpid]⟩
  · rintro ⟨p, hp, rfl, hk⟩
    refine ⟨_, mem_modify.mpr ⟨p, hp, rfl⟩, ?_⟩
    by_cases hpid : p.id = id' <;> simpa [hpid] using hk

/-- A participant of a proper unit of work is the only one with its identifier. -/
theorem Proper.eq_of_id {ps : List (Participant (Option ι) κ α)} (h : Proper id ps)
    {p p' : Participant (Option ι) κ α} (hp : p ∈ ps) (hp' : p' ∈ ps) (he : p.id = p'.id) :
    p = p' := List.inj_on_of_nodup_map h.nodup hp hp' he

variable [DecidableEq κ]

/-! ## Writes and clears -/

theorem Proper.put {u : UnitOfWork (Option ι) κ α} (h : Proper id u.participants)
    {cache : Option ι} (hcache : cache = none ↔ id' = id) {item : Item α}
    (hk : id' = id → k ∈ u.missed id) : Proper id (u.put cache id' k item).participants := by
  have hjoin : Proper id (u.join cache id').participants := h.join hcache
  apply hjoin.modify
  intro p hp hp' hid w hw
  rw [Buffer.misses_put]
  rcases List.mem_append.mp hw with hw | hw
  · exact hjoin.written p hp (hp'.trans hid) w (List.mem_filter.mp hw).1
  · obtain rfl := List.mem_singleton.mp hw
    have hmissed := hk hid
    rw [← missed_join u cache id id', missed, mem_missedAll] at hmissed
    obtain ⟨q, hq, hqid, hqk⟩ := hmissed
    rwa [hjoin.eq_of_id hp hq (by rw [hp', hid, hqid])]

theorem missed_put (u : UnitOfWork ρ κ α) (cache : ρ) (item : Item α) {k' : κ} :
    k' ∈ (u.put cache id' k item).missed id ↔ k' ∈ u.missed id := by
  rw [put, mem_missed_modify, ← missed_join u cache id id', missed, mem_missedAll]
  refine exists_congr fun p => and_congr_right fun _ => and_congr_right fun _ => ?_
  split
  · rw [Buffer.misses_put]
  · rfl

omit [DecidableEq κ] in
theorem Proper.clear {u : UnitOfWork (Option ι) κ α} (h : Proper id u.participants)
    {cache : Option ι} (hcache : cache = none ↔ id' = id) :
    Proper id (u.clear cache id').participants := by
  have hjoin : Proper id (u.join cache id').participants := h.join hcache
  exact hjoin.modify fun _ _ _ _ w hw => by cases hw

omit [DecidableEq κ] in
theorem missed_clear (u : UnitOfWork ρ κ α) (cache : ρ) :
    k ∈ (u.clear cache id').missed id ↔ k ∈ u.missed id := by
  rw [clear, mem_missed_modify, ← missed_join u cache id id', missed, mem_missedAll]
  refine exists_congr fun p => and_congr_right fun _ => and_congr_right fun _ => ?_
  split <;> rfl

/-! ## Lookups -/

/-- What a unit of work has after a lookup: at most one more missed key. -/
structure Learned (id : String) (u u' : UnitOfWork (Option ι) κ α) (k : κ) (missed : Prop) :
    Prop where
  proper : Proper id u'.participants
  missed_of_mem : ∀ k', k' ∈ u'.missed id → k' ∈ u.missed id ∨ k' = k ∧ missed

theorem Proper.learned {u : UnitOfWork (Option ι) κ α} (h : Proper id u.participants)
    {p : Participant (Option ι) κ α} (hp : p ∈ u.participants) (hid : p.id = id')
    (q : Reply κ α υ (Lookup κ α)) :
    Learned id u (u.modify id' fun _ => (p.buffer.settle k q).state.1) k
      (id' = id ∧ q.answer = .done (.ok none)) := by
  obtain ⟨-, -, hwrites, hmisses, -⟩ := p.buffer.settle_spec k q
  refine ⟨h.modify ?_, ?_⟩
  · intro _ _ _ hown w hw
    rw [hwrites] at hw
    exact (hmisses w.1).mpr (.inl (h.written p hp (hid.trans hown) w hw))
  · intro k' hk'
    obtain ⟨p', hp', hid', hk'⟩ := mem_missed_modify.mp hk'
    split at hk'
    · next hown =>
      rcases (hmisses k').mp hk' with hk' | ⟨rfl, hanswer⟩
      · exact .inl (mem_missedAll.mpr ⟨p, hp, hid.trans hown.symm, hk'⟩)
      · exact .inr ⟨rfl, hown.symm, hanswer⟩
    · exact .inl (mem_missedAll.mpr ⟨p', hp', hid', hk'⟩)

/-- A lookup goes to the cache of the participant with the identifier. -/
theorem get_eq (find : ρ → Cache κ α υ) (m : Moment) (u : UnitOfWork ρ κ α) (cache : ρ)
    (id : String) (k : κ) (t : υ) (g : Ground κ α) :
    ∃ p ∈ (u.join cache id).participants, p.id = id ∧
      u.get find m cache id k t g =
        let q := (find p.cache).get m k t g
        ⟨((u.join cache id).modify id fun _ => (p.buffer.settle k q).state.1, q.state), q.ground,
          (p.buffer.settle k q).answer⟩ := by
  obtain ⟨p, hp, hid, hfind⟩ := exists_participant_join u cache id
  refine ⟨p, hp, hid, ?_⟩
  obtain ⟨hstate, hground, -, -, -⟩ := p.buffer.settle_spec k ((find p.cache).get m k t g)
  simp only [get, hfind, Buffer.get, hstate, hground]

theorem resume_eq (find : ρ → Cache κ α υ) (m : Moment) {u : UnitOfWork ρ κ α} {id : String}
    (h : (u.participant? id).isSome) (k : κ) (gate : Nat) (w : Wake) (t : υ) (g : Ground κ α) :
    ∃ p ∈ u.participants, p.id = id ∧
      u.resume find m id k gate w t g =
        let q := (find p.cache).resume m k gate w t g
        ⟨(u.modify id fun _ => (p.buffer.settle k q).state.1, q.state), q.ground,
          (p.buffer.settle k q).answer⟩ := by
  obtain ⟨p, hfind⟩ := Option.isSome_iff_exists.mp h
  refine ⟨p, List.mem_of_find?_eq_some hfind, of_decide_eq_true (List.find?_some hfind :), ?_⟩
  obtain ⟨hstate, hground, -, -, -⟩ := p.buffer.settle_spec k ((find p.cache).resume m k gate w t g)
  simp only [resume, hfind, Buffer.resume, hstate, hground]

/-! ## Commits and rollbacks -/

section Ends

variable {d : Cache κ α σ} {I : σ → Ground κ α → Prop}
  {find : ρ → Cache κ α ((Gate κ × σ) × τ)}

/-- Participants that write missed keys alone touch missed keys alone. -/
theorem mem_missedAll_of_touchedAll {find : ρ → Cache κ α υ} {m : Moment}
    {ps : List (Participant ρ κ α)}
    (hwrites : ∀ p ∈ ps, p.id = id → ∀ w ∈ p.buffer.writes, w.1 ∈ p.buffer.misses) {u : υ}
    {g : Ground κ α} (h : k ∈ touchedAll find m id ps u g) : k ∈ missedAll id ps := by
  induction ps generalizing u g with
  | nil => cases h
  | cons p ps ih =>
    have hown : ∀ {m' : Moment},
        k ∈ (if p.id = id then p.buffer.touched (find p.cache) m' u g else []) →
          k ∈ missedAll id (p :: ps) := by
      intro m' hk
      split at hk
      · next hid =>
        exact mem_missedAll.mpr ⟨p, List.mem_cons_self, hid,
          Buffer.mem_misses_of_touched (hwrites p List.mem_cons_self hid) hk⟩
      · cases hk
    simp only [touchedAll] at h
    split at h
    · exact hown h
    · rcases List.mem_append.mp h with h | h
      · exact hown h
      · exact missedAll_suffix (List.suffix_cons p ps)
          (ih (fun p' hp' => hwrites p' (List.mem_cons_of_mem p hp')) h)

/-- A commit opens the latches of the keys that it writes or removes in the one cache. The
participants that are left are those behind the last one that was committed. -/
theorem opened_commitAll (hI : d.Upholds I) (m : Moment) (ps : List (Participant ρ κ α))
    (H : ∀ p ∈ ps, (find p.cache).Opens d I (p.id = id)) (u : (Gate κ × σ) × τ) (g : Ground κ α) :
    Gate.Opened d I (· ∈ touchedAll find m id ps u g) u.1 g (commitAll find m ps u g).state.2.1
        (commitAll find m ps u g).ground ∧
      (commitAll find m ps u g).state.1 <:+ ps ∧
      ((commitAll find m ps u g).answer = .ok () → (commitAll find m ps u g).state.1 = []) := by
  induction ps generalizing u g with
  | nil => exact ⟨.of_eq hI rfl rfl fun _ => List.not_mem_nil, List.suffix_rfl, fun _ => rfl⟩
  | cons p ps ih =>
    have hopened := Buffer.opened_commit (H p List.mem_cons_self) hI
      (m.holding (ps.flatMap (·.buffer.serials))) p.buffer u g
    have hbuffer := Buffer.buffer_commit (find p.cache)
      (m.holding (ps.flatMap (·.buffer.serials))) p.buffer u g
    have hown : ∀ l : List κ, (∀ k, k ∈ (if p.id = id then l else []) ↔ p.id = id ∧ k ∈ l) := by
      intro l k
      split
      · next hid => simp [hid]
      · next hid => simp [hid]
    simp only [commitAll, touchedAll]
    cases hanswer : (p.buffer.commit (find p.cache) (m.holding (ps.flatMap (·.buffer.serials))) u
        g).answer with
    | error e =>
      rw [hanswer] at hbuffer
      refine ⟨?_, ?_, fun h => by cases h⟩
      · have hnoted := hopened.trans (q := fun _ => False)
          (.of_eq hI rfl (Ground.store_note _ (.commitFailed p.id e) _) fun _ hk => hk)
        exact hnoted.congr fun k => by rw [hown, or_false]
      · exact hbuffer ▸ List.suffix_rfl
    | ok _ =>
      obtain ⟨hrest, hsuffix, hdone⟩ := ih (fun p' hp' => H p' (List.mem_cons_of_mem p hp'))
        (p.buffer.commit (find p.cache) (m.holding (ps.flatMap (·.buffer.serials))) u g).state.2
        (p.buffer.commit (find p.cache) (m.holding (ps.flatMap (·.buffer.serials))) u g).ground
      refine ⟨?_, hsuffix.trans (List.suffix_cons p ps), hdone⟩
      exact (hopened.trans hrest).congr fun k => by rw [List.mem_append, hown]

/-- A rollback opens the latches of the keys that were missed in the one cache. -/
theorem opened_rollbackAll (hI : d.Upholds I) (m : Moment)
    (ps : List (Participant ρ κ α)) (H : ∀ p ∈ ps, (find p.cache).Opens d I (p.id = id))
    (u : (Gate κ × σ) × τ) (g : Ground κ α) :
    Gate.Opened d I (· ∈ missedAll id ps) u.1 g (rollbackAll find m ps u g).1.1
      (rollbackAll find m ps u g).2 := by
  induction ps generalizing u g with
  | nil => exact .of_eq hI rfl rfl fun _ => List.not_mem_nil
  | cons p ps ih =>
    have hopened := Buffer.opened_rollback (H p List.mem_cons_self) hI m p.buffer u g
    have hrest := ih (fun p' hp' => H p' (List.mem_cons_of_mem p hp'))
      (p.buffer.rollback (find p.cache) m u g).state.2
      (p.buffer.rollback (find p.cache) m u g).ground
    refine (hopened.trans hrest).congr ?_
    intro k
    rw [mem_missedAll, mem_missedAll]
    simp

end Ends

end UnitOfWork

end LayeredCache
