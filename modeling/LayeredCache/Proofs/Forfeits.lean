import LayeredCache.Proofs.Chain
import LayeredCache.Proofs.Layer.Admission
import LayeredCache.Proofs.Transaction.Refusal

/-!
# What a write that fails takes with it

A write fails where its value refuses to become bytes, and layers outside may have done their part
by then. A layer that goes by recency does it when the write has succeeded, and so gives up nothing.
A layer that queues the writes gives up its oldest key first. So with a queue outside the layer that
keeps bytes, a write that fails takes the entries of these keys with it, and nothing else: all other
entries stay, what could be read can be read, and the number of entries is the same if none of the
keys was stored. A write that comes when a window has run out is left out, since it clears.

## Main definitions

* `Stack.forfeits` — the keys that a write gives up before its value becomes bytes.
* `Loosened` — a change that lets every lookup through that was let through.
* `Cache.Forfeiting` — the law of writes that fail, for a cache that gives up the keys `lost`.

## Main statements

* `Stack.forfeiting` — the law for stacks.
* `Chain.failed_write_forfeits` — what is left of a chain after a write that has failed.
-/

namespace LayeredCache

variable {κ α σ : Type}

/-- The keys that a write of `k` gives up at a layer of a kind and below it, those below known,
before its value becomes bytes. -/
def Kind.forfeits (k : κ) : (kind : Kind) → kind.State κ → List κ → List κ
  | .fifo, q, below => (WriteQueue.cycle q k).2.toList ++ below
  | .packing, _, _ => []
  | _, _, below => below

/-- The keys that a write of `k` gives up before its value becomes bytes: the oldest ones of the
queues that are full and lie outside the layer that keeps bytes. -/
def Stack.forfeits (k : κ) : (kinds : List Kind) → Stack κ kinds → List κ
  | [], _ => []
  | kind :: kinds, s => kind.forfeits k s.1 (forfeits k kinds s.2)

/-- A change of the state that keeps the windows, and lets through what was let through. -/
structure Loosened (ws : σ → List Window) (A : Moment → κ → σ → Prop) (s s' : σ) : Prop where
  windows : ws s' = ws s
  admits : ∀ m k, A m k s → A m k s'

namespace Loosened

variable {ws : σ → List Window} {A : Moment → κ → σ → Prop} {s s' s'' : σ}

theorem refl (ws : σ → List Window) (A : Moment → κ → σ → Prop) (s : σ) : Loosened ws A s s :=
  ⟨rfl, fun _ _ h => h⟩

theorem trans (h : Loosened ws A s s') (h' : Loosened ws A s' s'') : Loosened ws A s s'' :=
  ⟨h'.windows.trans h.windows, fun m k ha => h'.admits m k (h.admits m k ha)⟩

/-- A change below a layer that has no windows and lets everything through. -/
theorem above {τ : Type} {s s' : τ × σ} (h : Loosened ws A s.2 s'.2) :
    Loosened (fun s => ws s.2) (fun m k s => A m k s.2) s s' := ⟨h.windows, h.admits⟩

/-- A change below a window that stays as it is. -/
theorem above_window {s s' : Window × σ} (hw : s'.1 = s.1) (h : Loosened ws A s.2 s'.2) :
    Loosened (fun s => s.1 :: ws s.2) (fun m k s => s.1.due m = false ∧ A m k s.2) s s' where
  windows := congrArg₂ List.cons hw h.windows
  admits m k hadmits := ⟨hw.symm ▸ hadmits.1, h.admits m k hadmits.2⟩

end Loosened

variable [DecidableEq κ]

/-- While no window of `ws` has run out, a write fails only where `keep` does, and then it takes the
keys `lost` out of the base store; a removal takes out its key. -/
structure Cache.Forfeiting (d : Cache κ α σ) (keep : Content α → Except CodecError (Content α))
    (ws : σ → List Window) (lost : κ → σ → List κ) (A : Moment → κ → σ → Prop) : Prop where
  put_ok : ∀ m k c s g y, keep c.item.content = .ok y → (d.put m k c s g).answer = .ok ()
  put_error : ∀ m k c s g cause, Settled m (ws s) → keep c.item.content = .error cause →
    let r := d.put m k c s g
    r.answer = .error (.serialization cause) ∧
      r.ground.store d.base = ⟨(g.store d.base).entries.filter (·.1 ∉ lost k s)⟩ ∧
      Loosened ws A s r.state
  remove : ∀ m k s g, Settled m (ws s) → let r := d.remove m k s g
    r.ground.store d.base = (g.store d.base).erase k ∧ (∀ k', lost k' r.state = lost k' s) ∧
      Loosened ws A s r.state
  size : ∀ m s g, Settled m (ws s) → (d.size m s g).answer = (g.store d.base).size

section Layers

variable {d : Cache κ α σ} {keep : Content α → Except CodecError (Content α)}
  {ws : σ → List Window} {lost : κ → σ → List κ} {A : Moment → κ → σ → Prop}

theorem Cache.forfeiting_bare (id : String) (base : Nat) :
    (Cache.bare id base : Cache κ α Unit).Forfeiting .ok (fun _ => []) (fun _ _ => [])
      fun _ _ _ => True where
  put_ok m k c s g y _ := rfl
  put_error m k c s g cause _ h := by cases h
  remove m k s g _ := ⟨(remove_bare id base m k g).2.2, fun _ => rfl, Loosened.refl _ _ s⟩
  size m s g _ := rfl

/-- Evicting by recency comes after the write, so a write that fails comes to none. -/
theorem Recency.forfeiting (H : d.Forfeiting keep ws lost A) :
    (Recency.onto d).Forfeiting keep (fun s => ws s.2) (fun k s => lost k s.2)
      fun m k s => A m k s.2 where
  put_ok m k c s g y h := by
    have hput := H.put_ok m k c s.2 g y h
    simp only [onto, hput]
    split <;> rfl
  put_error m k c s g cause hws h := by
    obtain ⟨hanswer, hstore, hloose⟩ := H.put_error m k c s.2 g cause hws h
    simp only [onto, hanswer]
    exact ⟨trivial, hstore, hloose.above⟩
  remove m k s g hws := by
    obtain ⟨hstore, hlost, hloose⟩ := H.remove m k s.2 g hws
    exact ⟨hstore, hlost, hloose.above⟩
  size m s g hws := H.size m s.2 g hws

/-- A queue that is full gives up its oldest key before the write. -/
theorem WriteQueue.forfeiting (H : d.Forfeiting keep ws lost A) :
    (WriteQueue.onto d).Forfeiting keep (fun s => ws s.2)
      (fun k s => (s.1.cycle k).2.toList ++ lost k s.2) fun m k s => A m k s.2 where
  put_ok m k c s g y h := by
    simp only [onto]
    split
    · exact H.put_ok m k c _ _ y h
    · exact H.put_ok m k c _ _ y h
  put_error m k c s g cause hws h := by
    simp only [onto]
    rcases s.1.cycle k with ⟨queue, _ | oldest⟩
    · obtain ⟨hanswer, hstore, hloose⟩ := H.put_error m k c s.2 g cause hws h
      exact ⟨hanswer, hstore, hloose.above⟩
    · obtain ⟨hremoved, hlost, hloosed⟩ :=
        H.remove m oldest s.2 (g.note (.evicting .fifo d.id oldest)) hws
      have hws' : Settled m (ws (d.remove m oldest s.2
          (g.note (.evicting .fifo d.id oldest))).state) := hloosed.windows.symm ▸ hws
      obtain ⟨hanswer, hstore, hloose⟩ := H.put_error m k c _
        (d.remove m oldest s.2 (g.note (.evicting .fifo d.id oldest))).ground cause hws' h
      refine ⟨hanswer, hstore.trans ?_, (hloosed.trans hloose).above⟩
      rw [hremoved, hlost, Table.filter_erase]
      rfl
  remove m k s g hws := by
    obtain ⟨hstore, hlost, hloose⟩ := H.remove m k s.2 g hws
    exact ⟨hstore, fun k' => congrArg _ (hlost k'), hloose.above⟩
  size m s g hws := H.size m s.2 g hws

/-- A window that has not run out does nothing. -/
theorem Window.forfeiting (H : d.Forfeiting keep ws lost A) :
    (Window.onto d).Forfeiting keep (fun s => s.1 :: ws s.2) (fun k s => lost k s.2)
      fun m k s => s.1.due m = false ∧ A m k s.2 where
  put_ok m k c s g y h := H.put_ok m k c _ _ y h
  put_error m k c s g cause hws h := by
    obtain ⟨hdue, hws⟩ := settled_cons.mp hws
    simp only [onto, settle_of_not_due d hdue]
    obtain ⟨hanswer, hstore, hloose⟩ := H.put_error m k c s.2 g cause hws h
    exact ⟨hanswer, hstore, hloose.above_window rfl⟩
  remove m k s g hws := by
    obtain ⟨hdue, hws⟩ := settled_cons.mp hws
    simp only [onto, settle_of_not_due d hdue]
    obtain ⟨hstore, hlost, hloose⟩ := H.remove m k s.2 g hws
    exact ⟨hstore, hlost, hloose.above_window rfl⟩
  size m s g hws := by
    obtain ⟨hdue, hws⟩ := settled_cons.mp hws
    simp only [onto, settle_of_not_due d hdue]
    exact H.size m s.2 g hws

theorem HitCount.forfeiting (H : d.Forfeiting keep ws lost A) :
    (HitCount.onto d).Forfeiting keep (fun s => ws s.2) (fun k s => lost k s.2)
      fun m k s => A m k s.2 where
  put_ok m k c s g y h := H.put_ok m k c s.2 g y h
  put_error m k c s g cause hws h := by
    obtain ⟨hanswer, hstore, hloose⟩ := H.put_error m k c s.2 g cause hws h
    exact ⟨hanswer, hstore, hloose.above⟩
  remove m k s g hws := by
    obtain ⟨hstore, hlost, hloose⟩ := H.remove m k s.2 g hws
    exact ⟨hstore, hlost, hloose.above⟩
  size m s g hws := H.size m s.2 g hws

theorem Passing.forfeiting (H : d.Forfeiting keep ws lost A) :
    (Passing.onto d).Forfeiting keep (fun s => ws s.2) (fun k s => lost k s.2)
      fun m k s => A m k s.2 where
  put_ok m k c s g y h := H.put_ok m k c s.2 g y h
  put_error m k c s g cause hws h := by
    obtain ⟨hanswer, hstore, hloose⟩ := H.put_error m k c s.2 g cause hws h
    exact ⟨hanswer, hstore, hloose.above⟩
  remove m k s g hws := by
    obtain ⟨hstore, hlost, hloose⟩ := H.remove m k s.2 g hws
    exact ⟨hstore, hlost, hloose.above⟩
  size m s g hws := H.size m s.2 g hws

/-- Opening a latch keeps nobody out. -/
theorem Gate.isFreeFor_unlatch {t : Gate κ} {thread : String} {k' : κ}
    (h : t.isFreeFor thread k' = true) (k : κ) : (t.unlatch k).isFreeFor thread k' = true := by
  rw [isFreeFor, find?_latches_unlatch]
  split
  · rfl
  · exact h

/-- A change below a gate at which a latch is opened. -/
theorem Loosened.above_gate {s s' : Gate κ × σ} {k : κ} (ht : s'.1 = s.1.unlatch k)
    (h : Loosened ws A s.2 s'.2) :
    Loosened (fun s => ws s.2) (fun m k s => s.1.isFreeFor m.thread k = true ∧ A m k s.2) s s' where
  windows := h.windows
  admits m k' hadmits :=
    ⟨ht.symm ▸ Gate.isFreeFor_unlatch hadmits.1 k, h.admits m k' hadmits.2⟩

/-- A write that fails opens the latch of its key, and so does a removal. -/
theorem Gate.forfeiting (H : d.Forfeiting keep ws lost A) :
    (Gate.onto d).Forfeiting keep (fun s => ws s.2) (fun k s => lost k s.2)
      fun m k s => s.1.isFreeFor m.thread k = true ∧ A m k s.2 where
  put_ok m k c s g y h := H.put_ok m k c s.2 g y h
  put_error m k c s g cause hws h := by
    obtain ⟨hanswer, hstore, hloose⟩ := H.put_error m k c s.2 g cause hws h
    exact ⟨hanswer, hstore, hloose.above_gate rfl⟩
  remove m k s g hws := by
    obtain ⟨hstore, hlost, hloose⟩ := H.remove m k s.2 g hws
    exact ⟨hstore, hlost, hloose.above_gate rfl⟩
  size m s g hws := H.size m s.2 g hws

section Packing

variable [Codec α]

/-- A value that refuses to become bytes is refused before anything below is touched. -/
theorem Packing.forfeiting (H : d.Forfeiting keep ws lost A) (hkeep : ∀ x, ∃ y, keep x = .ok y) :
    (Packing.onto d).Forfeiting (fun x => (pack x).bind fun bytes => keep (.packed bytes))
      (fun s => ws s.2) (fun _ _ => []) fun m k s => A m k s.2 where
  put_ok m k c s g y h := by
    simp only [onto]
    cases hp : pack c.item.content with
    | error e =>
      rw [hp] at h
      cases h
    | ok bytes =>
      rw [hp] at h
      exact H.put_ok m k _ s.2 g.issue y h
  put_error m k c s g cause hws h := by
    simp only [onto]
    cases hp : pack c.item.content with
    | error e =>
      rw [hp] at h
      cases h
      exact ⟨rfl, by simp, Loosened.refl _ _ s⟩
    | ok bytes =>
      rw [hp] at h
      obtain ⟨y, hy⟩ := hkeep (.packed bytes)
      cases hy.symm.trans h
  remove m k s g hws := by
    obtain ⟨hstore, -, hloose⟩ := H.remove m k s.2 g hws
    refine ⟨(ground_remove d m k s g).trans hstore, fun _ => rfl, Loosened.above ?_⟩
    rw [state_remove]
    exact hloose
  size m s g hws := H.size m s.2 g hws

end Packing

end Layers

/-! ## Stacks of layers -/

/-- A stack without layers that let instances go, with at most one layer that keeps bytes. -/
theorem Stack.forfeiting [Codec α] (id : String) (base : Nat) {kinds : List Kind}
    (hleasing : .leasing ∉ kinds) (hpacking : kinds.count .packing ≤ 1) :
    (Stack.cache id base kinds : Cache κ α _).Forfeiting (keep kinds) (windows kinds)
      (fun k => forfeits k kinds) fun m k => Admits m k kinds := by
  induction kinds with
  | nil => exact Cache.forfeiting_bare id base
  | cons kind kinds ih =>
    have hcount : kinds.count .packing ≤ (kind :: kinds).count .packing :=
      List.count_le_count_cons ..
    have H := ih (fun hm => hleasing (List.mem_cons_of_mem kind hm)) (Nat.le_trans hcount hpacking)
    cases kind
    case lru => exact Recency.forfeiting H
    case fifo => exact WriteQueue.forfeiting H
    case leasing => exact absurd List.mem_cons_self hleasing
    case window => exact Window.forfeiting H
    case packing =>
      rw [List.count_cons_self] at hpacking
      have hnone : .packing ∉ kinds := List.count_eq_zero.mp (by omega)
      exact Packing.forfeiting H fun x => ⟨x, keep_of_not_packing hnone x⟩
    case counting => exact HitCount.forfeiting H
    case passing => exact Passing.forfeiting H
    case latching => exact Gate.forfeiting H

omit [DecidableEq κ] in
/-- Without a queue outside the layer that keeps bytes nothing is given up. -/
theorem Stack.forfeits_eq_nil {kinds outer inner : List Kind}
    (hkinds : kinds = outer ++ .packing :: inner) (hfifo : .fifo ∉ outer) (k : κ)
    (s : Stack κ kinds) : forfeits k kinds s = [] := by
  subst hkinds
  induction outer with
  | nil => rfl
  | cons kind outer ih =>
    rw [List.mem_cons, not_or] at hfifo
    have hrest := ih hfifo.2 s.2
    cases kind
    case fifo => exact absurd rfl hfifo.1
    case packing => rfl
    all_goals exact hrest

/-! ## Chains -/

namespace Chain

variable [Codec α]

/-- The keys `lost` are gone from a chain, and all else is as it was: the other entries stand, what
could be read of them can be read, and their number has changed only if one of the keys was
stored. -/
structure Forfeits (c : Chain κ) (lost : List κ) (s s' : Stack κ c.kinds) (g g' : Ground κ α) :
    Prop where
  stored : ∀ k, (g'.store c.base).find? k = if k ∈ lost then none else (g.store c.base).find? k
  reads : ∀ m k x, k ∉ lost → c.cache.Reads m k x s g → c.cache.Reads m k x s' g'
  gone : ∀ m k x, k ∈ lost → ¬c.cache.Reads m k x s' g'
  size : ∀ m, Settled m (Stack.windows c.kinds s) →
    ((c.cache.size m s' g').answer = (c.cache.size m s g).answer ↔
      ∀ k ∈ lost, (g.store c.base).find? k = none)

/-- A write that the law of writes that fail is about leaves a chain that way. -/
theorem forfeits_of_error {c : Chain κ}
    (H : (c.cache : Cache κ α _).Forfeiting (Stack.keep c.kinds) (Stack.windows c.kinds)
      (fun k => Stack.forfeits k c.kinds) fun m k => Stack.Admits m k c.kinds)
    (F : (c.cache : Cache κ α _).Finds (Stack.read c.kinds) fun m k => Stack.Admits m k c.kinds)
    {m : Moment} {s : Stack κ c.kinds} (g : Ground κ α) (hws : Settled m (Stack.windows c.kinds s))
    (k : κ) {cell : Cell α} {cause : CodecError}
    (hkeep : Stack.keep c.kinds cell.item.content = .error cause) :
    let r := c.cache.put m k cell s g
    c.Forfeits (Stack.forfeits k c.kinds s) s r.state g r.ground := by
  intro r
  obtain ⟨-, hstore, hloose⟩ := H.put_error m k cell s g cause hws hkeep
  rw [base_cache] at hstore
  have hstored (k' : κ) : (r.ground.store c.base).find? k' =
      if k' ∈ Stack.forfeits k c.kinds s then none else (g.store c.base).find? k' := by
    rw [hstore, Table.find?_filter_fst (fun k' => decide (k' ∉ Stack.forfeits k c.kinds s))]
    by_cases hmem : k' ∈ Stack.forfeits k c.kinds s <;> simp [hmem]
  refine ⟨hstored, fun m' k' x hmem hreads => ?_, fun m' k' x hmem hreads => ?_, fun m' hws' => ?_⟩
  · obtain ⟨hadmits, hcontent⟩ := (F m' k' x s g).mp hreads
    refine (F m' k' x r.state r.ground).mpr ⟨hloose.admits m' k' hadmits, ?_⟩
    rw [base_cache, Ground.content] at hcontent ⊢
    rwa [hstored, if_neg hmem]
  · obtain ⟨-, y, hy, -⟩ := (F m' k' x r.state r.ground).mp hreads
    rw [base_cache, Ground.content, hstored, if_pos hmem] at hy
    cases hy
  · rw [H.size m' s g hws', H.size m' r.state r.ground (hloose.windows.symm ▸ hws'), base_cache,
      hstore, Table.size, Table.size, List.length_filter_eq_length_iff]
    constructor
    · intro h k' hmem
      refine Table.lookup_eq_none_iff.mpr fun e he hek => ?_
      exact of_decide_eq_true (h e he) (hek ▸ hmem)
    · intro h e he
      refine decide_eq_true fun hmem => ?_
      exact Table.lookup_eq_none_iff.mp (h e.1 hmem) e he rfl

/-- A write to a chain that was built without reclaiming layers fails while no window has run out.
Then the chain keeps bytes and the value refuses to become some, the oldest keys of the queues that
are full and lie outside the layer that keeps bytes are gone, and all else is as it was. Without a
queue there, everything is as it was. -/
theorem failed_write_forfeits {id : String} {base : Nat} {signal : Signal} {layers : List Layer}
    {m₀ : Moment} {g₀ g₁ : Ground κ α} {c : Chain κ}
    (hbuild : build id base signal layers m₀ g₀ = (g₁, .ok c))
    (hkeeping : ∀ l ∈ layers, l.isReclaiming = false) {m : Moment} {s : Stack κ c.kinds}
    {g : Ground κ α} (hws : Settled m (Stack.windows c.kinds s)) {k : κ} {cell : Cell α}
    {e : CacheError κ} (hfails : (c.cache.put m k cell s g).answer = .error e) :
    let r := c.cache.put m k cell s g
    (.serialized ∈ layers ∧ ∃ cause, Packing.pack cell.item.content = .error cause ∧
        e = .serialization cause) ∧
      c.Forfeits (Stack.forfeits k c.kinds s) s r.state g r.ground ∧
      ∀ inner outer, layers = inner ++ .serialized :: outer → (∀ n, .fifo n ∉ outer) →
        Stack.forfeits k c.kinds s = [] := by
  intro r
  have hbuilt := isBuilt_of_build hbuild
  have hleasing := hbuilt.leasing_not_mem hkeeping
  have hcount : c.kinds.count .packing ≤ 1 :=
    hbuilt.count_packing ▸ count_serialized_of_validate (eq_compose_of_build hbuild).1
  have H := Stack.forfeiting (κ := κ) (α := α) c.id c.base hleasing hcount
  have F := Stack.finds (κ := κ) (α := α) c.id c.base c.kinds hleasing
  cases hkeep : Stack.keep c.kinds cell.item.content with
  | ok y =>
    have hok := H.put_ok m k cell s g y hkeep
    cases hfails.symm.trans hok
  | error cause =>
    obtain ⟨hpacking, hrefuses⟩ := Stack.pack_of_keep_error hkeep
    obtain ⟨hanswer, -⟩ := H.put_error m k cell s g cause hws hkeep
    have he : e = .serialization cause := Except.error.inj (hfails.symm.trans hanswer)
    refine ⟨⟨hbuilt.packing_mem_iff.mp hpacking, cause, hrefuses, he⟩,
      forfeits_of_error H F g hws k hkeep, fun inner outer hlayers hfifo => ?_⟩
    refine Stack.forfeits_eq_nil (hbuilt.kinds_of_split hlayers) ?_ k s
    intro hm
    rw [List.mem_reverse, List.mem_map] at hm
    obtain ⟨l, hl, hkind⟩ := hm
    cases l <;> first | exact hfifo _ hl | cases hkind

namespace Refused

/-- A queue with room for two keys outside the layer that keeps bytes. -/
def layers : List Layer := [.lru 3, .serialized, .fifo 2, .blocking none, .scheduled Span.hour]

def chain : Chain Nat :=
  ⟨"users", 0, [.window, .latching, .fifo, .packing, .lru],
    (⟨Span.hour, .system, 0⟩, { timeout := none }, { capacity := 2 }, (), Recency.ofCapacity 3, ())⟩

/-- What two writes leave. -/
def twice : Reply Nat Sample (Stack Nat chain.kinds) (Cache.Answer Nat Sample) :=
  let g : Ground Nat Sample := Ground.note {} (.built "users" (Layer.describe layers))
  let first := chain.cache.perform {} chain.stack g (.put 1 0 ⟨"a"⟩)
  chain.cache.perform {} first.state first.ground (.put 2 1 ⟨"b"⟩)

/-- What the write of a value that refuses to become bytes leaves then. -/
def after : Reply Nat Sample (Stack Nat chain.kinds) (Written Nat) :=
  chain.cache.put {} 3 { item := ⟨2, .plain ⟨"!enc"⟩⟩ } twice.state twice.ground

/-- The first key goes and the second one stays. -/
theorem oldest_key_goes_with_refused_write :
    (build "users" 0 .silent layers {} {} : Ground Nat Sample × _).2 = .ok chain ∧
      after.answer = .error (.serialization (.refused "value refuses to be encoded")) ∧
      chain.Forfeits [1] twice.state after.state twice.ground after.ground ∧
      chain.cache.Reads {} 2 (.plain ⟨"b"⟩) after.state after.ground := by
  have hbuild : build "users" 0 .silent layers {} {} =
      (Ground.note ({} : Ground Nat Sample) (.built "users" (Layer.describe layers)), .ok chain) :=
    rfl
  have hfails : after.answer = .error (.serialization (.refused "value refuses to be encoded")) :=
    rfl
  have hws : Settled {} (Stack.windows chain.kinds twice.state) :=
    settled_cons.mpr ⟨rfl, settled_nil {}⟩
  have hread : chain.cache.Reads {} 2 (.plain ⟨"b"⟩) twice.state twice.ground := ⟨_, rfl, rfl⟩
  obtain ⟨-, hforfeits, -⟩ := failed_write_forfeits hbuild (by decide) hws hfails
  have hlost : Stack.forfeits 3 chain.kinds twice.state = [1] := rfl
  rw [hlost] at hforfeits
  exact ⟨congrArg Prod.snd hbuild, hfails, hforfeits, hforfeits.reads {} 2 _ (by decide) hread⟩

end Refused

/-- A write that fails is not without effect: the chain has a queue with room for one key outside
the layer that keeps bytes, and the entry that could be read before is gone. -/
theorem refused_write_loses_other_entry :
    let layers : List Layer := [.serialized, .fifo 1]
    let c : Chain Nat := ⟨"users", 0, [.fifo, .packing], ({ capacity := 1 }, (), ())⟩
    let g : Ground Nat Sample := Ground.note {} (.built "users" (Layer.describe layers))
    let first := c.cache.perform {} c.stack g (.put 1 0 ⟨"a"⟩)
    let second := c.cache.perform {} first.state first.ground (.put 2 1 ⟨"!enc"⟩)
    build "users" 0 .silent layers {} {} = (g, .ok c) ∧
      Stack.windows c.kinds first.state = [] ∧
      second.answer =
        .written (.error (.serialization (.refused "value refuses to be encoded"))) ∧
      c.cache.Reads {} 1 (.plain ⟨"a"⟩) first.state first.ground ∧
      (c.cache.get {} 1 second.state second.ground).answer = .done (.ok none) ∧
      (c.cache.size {} first.state first.ground).answer = 1 ∧
      (c.cache.size {} second.state second.ground).answer = 0 :=
  ⟨rfl, rfl, rfl, ⟨_, rfl, rfl⟩, rfl, rfl, rfl⟩

end Chain

end LayeredCache
