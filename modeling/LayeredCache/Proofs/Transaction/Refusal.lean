import LayeredCache.Proofs.Builder
import LayeredCache.Proofs.Layer.Readback
import LayeredCache.Transaction.UnitOfWork
import LayeredCache.Session.Sample

/-!
# Commits that fail

In a chain without a window and without reclaiming, whose bounded layer lies on the base store, a
write fails only where a value refuses to become bytes, and then it changes nothing that is stored.
A commit goes through the waiting writes in order and ends at the first value that refuses: the
clear, if one is pending, and the writes in front of that value stand, as if they had been committed
alone. A rollback does not take them back.

So a commit that fails leaves the store as it was if the very first value refuses and no clear is
pending, and otherwise it does not in general.

## Main definitions

* `Cache.Strict` — writes of a cache fail only where values refuse to become bytes.

## Main statements

* `Builder.failed_commit_leaves_front` — what a commit that fails leaves in the base store.
-/

namespace LayeredCache

variable {κ α σ : Type}

/-! ## Writes that fail -/

/-- A write fails only where `keep` does, and then it changes nothing that is stored. -/
structure Cache.Strict (d : Cache κ α σ) (keep : Content α → Except CodecError (Content α)) :
    Prop where
  put_ok : ∀ m k c s g y, keep c.item.content = .ok y → (d.put m k c s g).answer = .ok ()
  put_error : ∀ m k c s g cause, keep c.item.content = .error cause →
    (d.put m k c s g).answer = .error (.serialization cause) ∧
      ∀ base, (d.put m k c s g).ground.store base = g.store base

section Layers

variable [DecidableEq κ] {d : Cache κ α σ} {keep : Content α → Except CodecError (Content α)}

theorem Cache.strict_bare (id : String) (base : Nat) :
    (Cache.bare id base : Cache κ α Unit).Strict .ok where
  put_ok m k c s g y _ := rfl
  put_error m k c s g cause h := by cases h

theorem Recency.strict (H : d.Strict keep) : (Recency.onto d).Strict keep where
  put_ok m k c s g y h := by
    have hput := H.put_ok m k c s.2 g y h
    simp only [onto, hput]
    split <;> rfl
  put_error m k c s g cause h := by
    obtain ⟨hanswer, hstore⟩ := H.put_error m k c s.2 g cause h
    simp only [onto, hanswer]
    exact ⟨trivial, hstore⟩

omit [DecidableEq κ] in
/-- A queue gives up its oldest key before the write, so nothing may fail below it. -/
theorem WriteQueue.strict (H : d.Strict keep) (hkeep : ∀ x, ∃ y, keep x = .ok y) :
    (WriteQueue.onto d).Strict keep where
  put_ok m k c s g y h := by
    simp only [onto]
    split
    · exact H.put_ok m k c _ _ y h
    · exact H.put_ok m k c _ _ y h
  put_error m k c s g cause h := by
    obtain ⟨y, hy⟩ := hkeep c.item.content
    cases hy.symm.trans h

omit [DecidableEq κ] in
theorem Packing.strict [Codec α] (H : d.Strict keep) :
    (Packing.onto d).Strict fun x => (pack x).bind fun bytes => keep (.packed bytes) where
  put_ok m k c s g y h := by
    simp only [onto]
    cases hp : pack c.item.content with
    | error e =>
      rw [hp] at h
      cases h
    | ok bytes =>
      rw [hp] at h
      exact H.put_ok m k _ s.2 g.issue y h
  put_error m k c s g cause h := by
    simp only [onto]
    cases hp : pack c.item.content with
    | error e =>
      rw [hp] at h
      cases h
      exact ⟨rfl, fun _ => rfl⟩
    | ok bytes =>
      rw [hp] at h
      exact H.put_error m k _ s.2 g.issue cause h

omit [DecidableEq κ] in
theorem HitCount.strict (H : d.Strict keep) : (HitCount.onto d).Strict keep where
  put_ok m k c s g y h := H.put_ok m k c s.2 g y h
  put_error m k c s g cause h := H.put_error m k c s.2 g cause h

omit [DecidableEq κ] in
theorem Passing.strict (H : d.Strict keep) : (Passing.onto d).Strict keep where
  put_ok m k c s g y h := H.put_ok m k c s.2 g y h
  put_error m k c s g cause h := H.put_error m k c s.2 g cause h

theorem Gate.strict (H : d.Strict keep) : (Gate.onto d).Strict keep where
  put_ok m k c s g y h := H.put_ok m k c s.2 g y h
  put_error m k c s g cause h := H.put_error m k c s.2 g cause h

end Layers

namespace Stack

variable [Codec α]

/-- A stack with a layer that keeps bytes keeps the bytes of a value. -/
theorem keep_of_packing {kinds : List Kind} (h : .packing ∈ kinds) (x : Content α) :
    keep kinds x = (Packing.pack x).map .packed := by
  induction kinds with
  | nil => cases h
  | cons kind kinds ih =>
    by_cases hk : kind = .packing
    · subst hk
      simp only [keep, keep_packed]
      rfl
    · rw [keep_cons hk, ih ((List.mem_cons.mp h).resolve_left (Ne.symm hk))]

/-- A stack without a layer that keeps bytes keeps values as they are. -/
theorem keep_of_not_packing {kinds : List Kind} (h : .packing ∉ kinds) (x : Content α) :
    keep kinds x = .ok x := by
  induction kinds with
  | nil => rfl
  | cons kind kinds ih =>
    rw [List.mem_cons, not_or] at h
    rw [keep_cons (Ne.symm h.1), ih h.2]

theorem pack_of_keep_ok {kinds : List Kind} (h : .packing ∈ kinds) {x y : Content α}
    (hkeep : keep kinds x = .ok y) : ∃ bytes, Packing.pack x = .ok bytes ∧ y = .packed bytes := by
  rw [keep_of_packing h] at hkeep
  cases hx : Packing.pack x with
  | error cause =>
    rw [hx] at hkeep
    cases hkeep
  | ok bytes =>
    rw [hx] at hkeep
    cases hkeep
    exact ⟨bytes, rfl, rfl⟩

/-- What a stack does not keep refuses to become bytes. -/
theorem pack_of_keep_error {kinds : List Kind} {x : Content α} {cause : CodecError}
    (hkeep : keep kinds x = .error cause) : .packing ∈ kinds ∧ Packing.pack x = .error cause := by
  by_cases h : .packing ∈ kinds
  · rw [keep_of_packing h] at hkeep
    cases hx : Packing.pack x with
    | error cause' =>
      rw [hx] at hkeep
      cases hkeep
      exact ⟨h, rfl⟩
    | ok bytes =>
      rw [hx] at hkeep
      cases hkeep
  · rw [keep_of_not_packing h] at hkeep
    cases hkeep

variable [DecidableEq κ]

/-- Stacks of layers that keep bytes, count, exclude or latch, over a bounded layer. -/
theorem strict (id : String) (base : Nat) {outer : List Kind} {inner : Kind}
    (houter : ∀ kind ∈ outer, kind = .packing ∨ kind = .counting ∨ kind = .passing ∨
      kind = .latching) (hinner : inner = .lru ∨ inner = .fifo) :
    (Stack.cache id base (outer ++ [inner]) : Cache κ α _).Strict (keep (outer ++ [inner])) := by
  induction outer with
  | nil =>
    rcases hinner with rfl | rfl
    · exact Recency.strict (Cache.strict_bare id base)
    · exact WriteQueue.strict (Cache.strict_bare id base) fun x => ⟨x, rfl⟩
  | cons kind outer ih =>
    have H := ih fun kind' hkind => houter kind' (List.mem_cons_of_mem kind hkind)
    rcases houter kind List.mem_cons_self with rfl | rfl | rfl | rfl
    · exact Packing.strict H
    · exact HitCount.strict H
    · exact Passing.strict H
    · exact Gate.strict H

/-- Releasing a key changes nothing in the ground. -/
theorem ground_release (id : String) (base : Nat) (kinds : List Kind) (m : Moment) (k : κ)
    (s : Stack κ kinds) (g : Ground κ α) :
    ((Stack.cache id base kinds).release m k s g).ground = g := by
  induction kinds with
  | nil => rfl
  | cons kind kinds ih => cases kind <;> exact ih s.2

theorem ground_releaseAll (id : String) (base : Nat) (kinds : List Kind) (m : Moment)
    (keys : List κ) (s : Stack κ kinds) (g : Ground κ α) :
    ((Stack.cache id base kinds).releaseAll m keys s g).2 = g := by
  induction keys generalizing s g with
  | nil => rfl
  | cons k keys ih =>
    refine (ih _ _).trans ?_
    exact ground_release id base kinds m k s g

end Stack

/-! ## Commits -/

namespace Buffer

section Strict

variable {d : Cache κ α σ} {keep read : Content α → Except CodecError (Content α)}

/-- Writes that end in a failure stand as far as the value that was refused. -/
theorem writeAll_fails (H : d.Strict keep) {m : Moment} {writes : List (κ × Item α)} {s : σ}
    {g : Ground κ α} {e : CacheError κ} (h : (writeAll d m writes s g).answer = .error e) :
    ∃ front k i behind cause, writes = front ++ (k, i) :: behind ∧
      (∀ w ∈ front, ∃ y, keep w.2.content = .ok y) ∧ keep i.content = .error cause ∧
      e = .serialization cause ∧ (writeAll d m front s g).answer = .ok () ∧
      ∀ base, (writeAll d m writes s g).ground.store base =
        (writeAll d m front s g).ground.store base := by
  induction writes generalizing s g with
  | nil => cases h
  | cons w writes ih =>
    obtain ⟨k, i⟩ := w
    cases hk : keep i.content with
    | error cause =>
      obtain ⟨hanswer, hstore⟩ := H.put_error m k { item := i } s g cause hk
      simp only [writeAll, hanswer] at h ⊢
      cases h
      exact ⟨[], k, i, writes, cause, rfl, List.forall_mem_nil _, hk, rfl, rfl, hstore⟩
    | ok y =>
      have hput := H.put_ok m k { item := i } s g y hk
      simp only [writeAll, hput] at h ⊢
      obtain ⟨front, k', i', behind, cause, rfl, hfront, hcause, he, hanswer, hstore⟩ := ih h
      refine ⟨(k, i) :: front, k', i', behind, cause, rfl, ?_, hcause, he, ?_, ?_⟩
      · exact List.forall_mem_cons.mpr ⟨⟨y, hk⟩, hfront⟩
      · simp only [writeAll, hput, hanswer]
      · simp only [writeAll, hput, hstore, implies_true]

/-- Writes succeed only where no value refuses. -/
theorem writeAll_succeeds (H : d.Strict keep) {m : Moment} {writes : List (κ × Item α)} {s : σ}
    {g : Ground κ α} (h : (writeAll d m writes s g).answer = .ok ()) :
    ∀ w ∈ writes, ∃ y, keep w.2.content = .ok y := by
  induction writes generalizing s g with
  | nil => exact List.forall_mem_nil _
  | cons w writes ih =>
    cases hk : keep w.2.content with
    | error cause =>
      simp only [writeAll, (H.put_error m w.1 { item := w.2 } s g cause hk).1] at h
      cases h
    | ok y =>
      simp only [writeAll, H.put_ok m w.1 { item := w.2 } s g y hk] at h
      exact List.forall_mem_cons.mpr ⟨⟨y, hk⟩, ih h⟩

/-- The last of several writes that succeed is made where the others lead to. -/
theorem writeAll_concat {m : Moment} {writes : List (κ × Item α)} {w : κ × Item α} {s : σ}
    {g : Ground κ α} (h : (writeAll d m (writes ++ [w]) s g).answer = .ok ()) :
    ∃ g', let r := d.put m w.1 { item := w.2 } (writeAll d m writes s g).state g'
      r.answer = .ok () ∧ (writeAll d m (writes ++ [w]) s g).ground = r.ground := by
  induction writes generalizing s g with
  | nil =>
    refine ⟨g, ?_⟩
    simp only [List.nil_append, writeAll] at h ⊢
    cases hanswer : (d.put m w.1 { item := w.2 } s g).answer with
    | error e => simp only [hanswer] at h; cases h
    | ok _ => exact ⟨rfl, rfl⟩
  | cons w' writes ih =>
    simp only [List.cons_append, writeAll] at h ⊢
    cases hanswer : (d.put m w'.1 { item := w'.2 } s g).answer with
    | error e => simp only [hanswer] at h; cases h
    | ok _ =>
      simp only [hanswer] at h ⊢
      exact ih h

theorem writeAll_upholds {I : σ → Prop} (hI : d.Upholds fun s _ => I s) {m : Moment}
    {writes : List (κ × Item α)} {s : σ} {g : Ground κ α} (h : I s) :
    I (writeAll d m writes s g).state := by
  induction writes generalizing s g with
  | nil => exact h
  | cons w writes ih =>
    have hput := hI.put m w.1 { item := w.2 } s g h
    simp only [writeAll]
    split
    · exact hput
    · exact ih hput

end Strict

/-- Instances that are held twice are held. -/
theorem holding_front (m : Moment) {b : Buffer κ α} {front rest : List (κ × Item α)}
    (h : b.writes = front ++ rest) (clearing : Bool) :
    (m.holding b.serials).holding (Buffer.serials { clearing := clearing, writes := front }) =
      m.holding b.serials := by
  have hheld : ∀ n, ((m.holding b.serials).holding
      (Buffer.serials { clearing := clearing, writes := front })).held n =
        (m.holding b.serials).held n := by
    intro n
    simp only [Moment.held_holding, serials, h, List.map_append, List.contains_append]
    cases (front.map (·.2.serial)).contains n <;> simp
  exact congrArg (fun held => { m with held := held }) (funext hheld)

/-- The state and the ground after the clear that a commit begins with. -/
def cleared (d : Cache κ α σ) (m : Moment) (b : Buffer κ α) (s : σ) (g : Ground κ α) :
    σ × Ground κ α :=
  if b.clearing then let r := d.clear m s g; (r.state, r.ground) else (s, g)

variable [DecidableEq κ]

/-- A commit on `d` has failed with `e`, and `front` are the writes in front of the value that was
refused. They and the clear stand as if they had been committed alone, and a rollback leaves it so:
the store is as it was if there were none, it is empty if there was a clear alone, and it holds the
value of the last write in front. -/
structure Refused [Codec α] (d : Cache κ α σ) (m : Moment) (b : Buffer κ α) (s : σ)
    (g : Ground κ α) (e : CacheError κ) (front : List (κ × Item α)) : Prop where
  refuses : ∃ k i behind cause, b.writes = front ++ (k, i) :: behind ∧
    Packing.pack i.content = .error cause ∧ e = .serialization cause
  encodes : ∀ w ∈ front, ∃ bytes, Packing.pack w.2.content = .ok bytes
  kept : (b.commit d m s g).state.1 = b
  alone : let r := commit d (m.holding b.serials) { clearing := b.clearing, writes := front } s g
    r.answer = .ok () ∧ ∀ base, (b.commit d m s g).ground.store base = r.ground.store base
  untouched : front = [] → b.clearing = false →
    ∀ base, (b.commit d m s g).ground.store base = g.store base
  emptied : front = [] → b.clearing = true →
    ∀ k, (b.commit d m s g).ground.content d.base k = none
  stored : ∀ before k i, front = before ++ [(k, i)] → ∃ bytes,
    Packing.pack i.content = .ok bytes ∧
      (b.commit d m s g).ground.content d.base k = some (.packed bytes)
  rolledBack : ∀ m', let r := b.commit d m s g
    (r.state.1.rollback d m' r.state.2 r.ground).ground = r.ground

/-- A commit answers what its writes do. -/
theorem answer_commit (d : Cache κ α σ) (m : Moment) (b : Buffer κ α) (s : σ) (g : Ground κ α) :
    (b.commit d m s g).answer = (writeAll d (m.holding b.serials) b.writes
      (b.cleared d (m.holding b.serials) s g).1
      (b.cleared d (m.holding b.serials) s g).2).answer := by
  simp only [commit, cleared]
  split
  · next h => rw [h]
  · next h => rw [h]

theorem commit_of_error {d : Cache κ α σ} {m : Moment} {b : Buffer κ α} {s : σ} {g : Ground κ α}
    {e : CacheError κ} (h : (b.commit d m s g).answer = .error e) :
    let u := b.cleared d (m.holding b.serials) s g
    let r := writeAll d (m.holding b.serials) b.writes u.1 u.2
    b.commit d m s g = ⟨(b, r.state), r.ground, .error e⟩ := by
  rw [answer_commit] at h
  simp only [commit, cleared] at h ⊢
  rw [h]

/-- Writes at the front that succeed can be committed alone. -/
theorem commit_alone {d : Cache κ α σ} {m : Moment} {b : Buffer κ α} {s : σ} {g : Ground κ α}
    {front rest : List (κ × Item α)} (hwrites : b.writes = front ++ rest)
    (h : (writeAll d (m.holding b.serials) front (b.cleared d (m.holding b.serials) s g).1
      (b.cleared d (m.holding b.serials) s g).2).answer = .ok ()) :
    let r := commit d (m.holding b.serials) { clearing := b.clearing, writes := front } s g
    r.answer = .ok () ∧ ∀ base, r.ground.store base =
      (writeAll d (m.holding b.serials) front (b.cleared d (m.holding b.serials) s g).1
        (b.cleared d (m.holding b.serials) s g).2).ground.store base := by
  simp only [cleared] at h ⊢
  simp only [commit, holding_front m hwrites, h]
  exact ⟨trivial, fun base => rfl⟩

section Stacks

variable [Codec α] {id : String} {base : Nat} {kinds : List Kind} {m : Moment} {b : Buffer κ α}
  {s : Stack κ kinds} {g : Ground κ α} {e : CacheError κ}

theorem commit_fails (hstrict : (Stack.cache id base kinds : Cache κ α _).Strict (Stack.keep kinds))
    (hleasing : .leasing ∉ kinds) (hsound : Stack.Sound kinds s)
    (h : (b.commit (Stack.cache id base kinds) m s g).answer = .error e) :
    ∃ front, Refused (Stack.cache id base kinds) m b s g e front := by
  have hcommit := commit_of_error h
  rw [answer_commit] at h
  obtain ⟨front, k, i, behind, cause, hwrites, hfront, hcause, rfl, hanswer, hstore⟩ :=
    writeAll_fails hstrict h
  obtain ⟨hpacking, hrefuses⟩ := Stack.pack_of_keep_error hcause
  have hupholds := Stack.upholds_sound (κ := κ) (α := α) id base kinds
  have hrecalls := Stack.recalls (κ := κ) (α := α) id base kinds hleasing
  have hground : ∀ base', (b.commit (Stack.cache id base kinds) m s g).ground.store base' = _ :=
    fun base' => (congrArg (·.ground.store base') hcommit).trans (hstore base')
  obtain ⟨halone, hsame⟩ := commit_alone hwrites hanswer
  refine ⟨front, {
    refuses := ⟨k, i, behind, cause, hwrites, hrefuses, rfl⟩
    encodes := ?_
    kept := by rw [hcommit]
    alone := ⟨halone, fun base' => (hground base').trans (hsame base').symm⟩
    untouched := ?_
    emptied := ?_
    stored := ?_
    rolledBack := ?_ }⟩
  · intro w hw
    obtain ⟨y, hy⟩ := hfront w hw
    obtain ⟨bytes, hbytes, -⟩ := Stack.pack_of_keep_ok hpacking hy
    exact ⟨bytes, hbytes⟩
  · rintro rfl hclearing base'
    rw [hground base']
    simp only [writeAll, cleared, hclearing]
    rfl
  · rintro rfl hclearing k'
    rw [Ground.content_congr (hground _)]
    simp only [writeAll, cleared, hclearing]
    exact (Stack.faithful id base kinds).clear _ s g k'
  · rintro before k' i' rfl
    obtain ⟨g', hput, hlast⟩ := writeAll_concat hanswer
    have hsound' : Stack.Sound kinds (b.cleared (Stack.cache id base kinds)
        (m.holding b.serials) s g).1 := by
      unfold cleared
      split
      · exact hupholds.clear _ s g hsound
      · exact hsound
    obtain ⟨-, y, hkeep, hy⟩ := hrecalls.put _ k' _ _ g' (writeAll_upholds hupholds hsound') hput
    obtain ⟨bytes, hbytes, rfl⟩ := Stack.pack_of_keep_ok hpacking hkeep
    refine ⟨bytes, hbytes, ?_⟩
    rw [Ground.content_congr (hground _), hlast]
    exact hy
  · intro m'
    exact Stack.ground_releaseAll id base kinds m' _ _ _

end Stacks

end Buffer

/-! ## Chains of a builder -/

namespace Builder

variable [DecidableEq κ] [Codec α]

omit [DecidableEq κ] [Codec α] in
/-- Without a window and with a layer that is only bounded, a builder puts nothing outside the
bounded layer but layers that keep bytes, count, exclude or latch. -/
theorem exists_kinds_of_bounded {b : Builder} (hevicts : b.eviction = .lru ∨ b.eviction = .fifo)
    (hflush : b.flushInterval = none) {base : Nat} {layers : List Layer} {g₀ g : Ground κ α}
    {c : Chain κ} (hlayers : b.layers (κ := κ) = .ok layers)
    (hbuilt : Chain.IsBuilt base layers g₀ g c) :
    ∃ outer inner, c.kinds = outer ++ [inner] ∧
      (∀ kind ∈ outer, kind = .packing ∨ kind = .counting ∨ kind = .passing ∨ kind = .latching) ∧
      (inner = .lru ∨ inner = .fifo) ∧ (.packing ∈ c.kinds ↔ b.readWrite = true) := by
  obtain ⟨p, rfl⟩ := exists_layerOf_of_layers hlayers
  have hinner : (layerOf b.eviction p).kind = .lru ∨ (layerOf b.eviction p).kind = .fifo := by
    rcases hevicts with he | he <;> rw [he]
    · exact .inl rfl
    · exact .inr rfl
  refine ⟨(b.outerLayers.map Layer.kind).reverse, (layerOf b.eviction p).kind, ?_, ?_, hinner, ?_⟩
  · rw [hbuilt.kinds_eq, List.map_cons, List.reverse_cons]
  · simp only [outerLayers, hflush]
    cases b.readWrite <;> cases b.blocking <;> simp [Layer.kind]
  · rw [hbuilt.kinds_eq, List.mem_reverse, List.map_cons, List.mem_cons]
    have hne : .packing ≠ (layerOf b.eviction p).kind := by
      rcases hinner with he | he <;> rw [he] <;> decide
    simp only [hne, false_or, outerLayers, hflush]
    cases b.readWrite <;> cases b.blocking <;> simp [Layer.kind]

/-- Over a chain of a builder with a bounded layer and without a window, whatever calls were made
on it: a commit fails exactly if the chain keeps bytes and a waiting value refuses to become bytes,
and then the clear and the writes in front of that value stand, and a rollback leaves them. -/
theorem failed_commit_leaves_front {b : Builder} (hevicts : b.eviction = .lru ∨ b.eviction = .fifo)
    (hflush : b.flushInterval = none) {base : Nat} {m₀ : Moment} {g₀ g₁ : Ground κ α} {c : Chain κ}
    (hbuild : b.build base m₀ g₀ = (g₁, .ok c)) {past : List (Cache.Record κ α)}
    {s : Stack κ c.kinds} {g : Ground κ α} (hrun : c.cache.Run c.stack g₁ past s g)
    (buffer : Buffer κ α) (m : Moment) :
    ((∃ e, (buffer.commit c.cache m s g).answer = .error e) ↔ b.readWrite = true ∧
      ∃ w ∈ buffer.writes, ∃ cause, Packing.pack w.2.content = .error cause) ∧
    ∀ e, (buffer.commit c.cache m s g).answer = .error e →
      ∃ front, buffer.Refused c.cache m s g e front := by
  obtain ⟨layers, hlayers, hbuilt⟩ := exists_isBuilt_of_build hbuild
  obtain ⟨outer, inner, hkinds, houter, hinner, hpacking⟩ :=
    exists_kinds_of_bounded hevicts hflush hlayers hbuilt
  have hstrict : (c.cache : Cache κ α _).Strict (Stack.keep c.kinds) := by
    have H := Stack.strict (κ := κ) (α := α) c.id c.base houter hinner
    rwa [← hkinds] at H
  have hleasing : .leasing ∉ c.kinds := leasing_not_mem_of_evicts hevicts hlayers hbuilt
  have hsound : Stack.Sound c.kinds s :=
    hrun.upholds (Stack.upholds_sound c.id c.base c.kinds) hbuilt.sound
  have hfails : ∀ e, (buffer.commit c.cache m s g).answer = .error e →
      ∃ front, buffer.Refused c.cache m s g e front :=
    fun e h => Buffer.commit_fails hstrict hleasing hsound h
  refine ⟨⟨?_, ?_⟩, hfails⟩
  · rintro ⟨e, he⟩
    rw [Buffer.answer_commit] at he
    obtain ⟨front, k, i, behind, cause, hwrites, -, hcause, -⟩ := Buffer.writeAll_fails hstrict he
    obtain ⟨hmem, hpack⟩ := Stack.pack_of_keep_error hcause
    exact ⟨hpacking.mp hmem, (k, i), by simp [hwrites], cause, hpack⟩
  · rintro ⟨hreadWrite, w, hw, cause, hpack⟩
    cases hanswer : (buffer.commit c.cache m s g).answer with
    | error e => exact ⟨e, rfl⟩
    | ok _ =>
      rw [Buffer.answer_commit] at hanswer
      obtain ⟨y, hy⟩ := Buffer.writeAll_succeeds hstrict hanswer w hw
      rw [Stack.keep_of_packing (hpacking.mpr hreadWrite), hpack] at hy
      cases hy

/-- The second of two values refuses to become bytes: the first one is stored, and it stays when
the buffer is rolled back. -/
theorem first_value_stands :
    let b : Builder := { id := "users", size := some 2 }
    let c : Chain Nat := ⟨"users", 0, [.passing, .counting, .packing, .lru],
      ((), {}, (), Recency.ofCapacity 2, ())⟩
    let g : Ground Nat Sample := Ground.note {}
      (.built "users" (Layer.describe [.lru 2, .serialized, .logging, .synchronized]))
    let buffer : Buffer Nat Sample :=
      { writes := [(1, ⟨0, .plain ⟨"a"⟩⟩), (2, ⟨1, .plain ⟨"!enc"⟩⟩)] }
    let e : CacheError Nat := .serialization (.refused "value refuses to be encoded")
    b.build 0 {} {} = (g, .ok c) ∧ (buffer.commit c.cache {} c.stack g).answer = .error e ∧
      ∃ front, buffer.Refused c.cache {} c.stack g e front := by
  intro b c g buffer e
  have hbuild : b.build 0 {} {} = (g, .ok c) := rfl
  have hfails : (buffer.commit c.cache {} c.stack g).answer = .error e := rfl
  exact ⟨hbuild, hfails,
    (failed_commit_leaves_front (.inl rfl) rfl hbuild .start buffer {}).2 e hfails⟩

/-- A unit of work whose commit fails and that is then rolled back does not leave the store as it
found it: the store was empty and holds the first value. -/
theorem rolled_back_value_is_stored :
    let c : Chain Nat := ⟨"users", 0, [.passing, .counting, .packing, .lru],
      ((), {}, (), Recency.ofCapacity 2, ())⟩
    let g : Ground Nat Sample := Ground.note {}
      (.built "users" (Layer.describe [.lru 2, .serialized, .logging, .synchronized]))
    let find : Unit → Cache Nat Sample (Stack Nat c.kinds) := fun _ => c.cache
    let first := UnitOfWork.put {} () "users" 1 ⟨0, .plain ⟨"a"⟩⟩
    let second := first.put () "users" 2 ⟨1, .plain ⟨"!enc"⟩⟩
    let failed := second.commit find {} c.stack g
    let back := failed.state.1.rollback find {} failed.state.2 failed.ground
    Builder.build { id := "users", size := some 2 } 0 {} {} = (g, .ok c) ∧
      failed.answer = .error (.serialization (.refused "value refuses to be encoded")) ∧
      (g.store 0).keys = [] ∧ (failed.ground.store 0).keys = [1] ∧
      (back.ground.store 0).keys = [1] := by
  refine ⟨rfl, rfl, rfl, ?_, ?_⟩ <;> decide +kernel

end Builder

end LayeredCache
