import LayeredCache.Proofs.Chain
import LayeredCache.Proofs.Leasing.Journal
import LayeredCache.Proofs.Run
import LayeredCache.Proofs.TextFormat

/-!
# Layers that decide nothing

Which keys are stored, and under which values, is decided by the layers that evict or reclaim. The
other layers of a chain can be left out: on one thread, while no window runs out, all calls are
answered as before. Bytes can be left out too where nothing is reclaimed; a reclaiming layer tells
instances apart, and decoding makes new ones.

The proof stacks both chains layer by layer and shows at each layer that they mirror each other.

## Main definitions

* `Layer.decides`, `Layer.deciding` — the layers that are not left out.
* `Cache.answers` — the answers to calls that are made one after the other.
* `Cache.Answer.Agrees` — both calls have succeeded, with the same content or the same size.
* `Cache.StaysOpen` — no window runs out during calls.
* `Chain.Mirrors` — two chains that mirror each other as they stand.
-/

namespace LayeredCache

variable {κ α σ τ : Type}

namespace Layer

/-- Whether a layer decides what is stored. One that keeps bytes does so where instances are told
apart, which reclaiming layers do. -/
def decides (reclaiming : Bool) : Layer → Bool
  | lru _ | fifo _ | soft .. | weak .. => true
  | serialized => reclaiming
  | scheduled _ | logging | synchronized | blocking _ => false

/-- The layers of a list that decide what is stored. -/
def deciding (layers : List Layer) : List Layer :=
  layers.filter (decides (layers.any isReclaiming))

end Layer

/-! ## Calls and their answers -/

namespace Cache

/-- The answers to calls that are made one after the other. -/
def answers (d : Cache κ α σ) : List (Moment × Call κ α) → σ → Ground κ α → List (Answer κ α)
  | [], _, _ => []
  | (m, call) :: rest, s, g =>
    let r := d.perform m s g call
    r.answer :: d.answers rest r.state r.ground

/-- Whether a call goes on with a lookup that waits. -/
def Call.isResume : Call κ α → Bool
  | .resume .. => true
  | _ => false

/-- Whether windows look at their clock when they get a call. -/
def Call.isTimed : Call κ α → Bool
  | .clear | .release _ => false
  | _ => true

/-- When windows were last cleared after a call, if they were at `t` before. -/
def Call.clearedAt (m : Moment) (t : Span) : Call κ α → Span
  | .clear => m.time .system
  | _ => t

/-- No window with one of the intervals runs out during calls, if all of them were last cleared at
`t`. -/
def StaysOpen (intervals : List Span) : Span → List (Moment × Call κ α) → Prop
  | _, [] => True
  | t, (m, call) :: rest =>
    (call.isTimed = true → ∀ i ∈ intervals, m.time .system - t ≤ i) ∧
      StaysOpen intervals (call.clearedAt m t) rest

/-- Both calls have succeeded, and what they yield has the same content or is the same number. -/
def Answer.Agrees : Answer κ α → Answer κ α → Prop
  | .written a, .written a' => Succeed a a'
  | .looked a, .looked a' => Find (fun x x' => x.item.content = x'.item.content) a a'
  | .removed x, .removed x' => Option.Rel (fun x x' => x.item.content = x'.item.content) x x'
  | .counted n, .counted n' => n = n'
  | .nothing, .nothing => True
  | _, _ => False

variable {d : Cache κ α σ} {d' : Cache κ α τ} {thread : String} {intervals : List Span}
  {P : α → Prop} {C : Cell α → Cell α → Prop} {G : Ground κ α → Ground κ α → Prop}
  {R : Span → σ → τ → Prop}

/-- A call leads related states to related ones, and the answers agree. -/
theorem Mirrors.perform (H : d.Mirrors d' thread intervals C G R)
    (hcontent : ∀ x x', C x x' → x.item.content = x'.item.content) {t : Span} {m : Moment}
    {call : Call κ α} (hthread : m.thread = thread) (hresume : call.isResume = false)
    (hfresh : call.isTimed = true → ∀ i ∈ intervals, m.time .system - t ≤ i)
    (hwritten : ∀ k serial v, call = .put k serial v →
      C { item := ⟨serial, .plain v⟩ } { item := ⟨serial, .plain v⟩ })
    {s : σ} {s' : τ} {g g' : Ground κ α} (hs : R t s s') (hg : G g g') :
    (d.perform m s g call).Mirrors G (R (call.clearedAt m t)) Answer.Agrees
      (d'.perform m s' g' call) := by
  cases call with
  | put k serial v =>
    obtain ⟨ha, hg, hs⟩ := H.put (k := k) ⟨hthread, hfresh rfl⟩ (hwritten k serial v rfl) hs hg
    exact ⟨ha, hg, hs⟩
  | get k =>
    obtain ⟨⟨found, found', ha, ha', hfound⟩, hg, hs⟩ :=
      H.get (k := k) ⟨hthread, hfresh rfl⟩ hs hg
    exact ⟨⟨found, found', ha, ha', rel_mono hcontent hfound⟩, hg, hs⟩
  | resume k gate w => cases hresume
  | remove k =>
    obtain ⟨hcells, hg, hs⟩ := H.remove (k := k) ⟨hthread, hfresh rfl⟩ hs hg
    exact ⟨rel_mono hcontent hcells, hg, hs⟩
  | clear =>
    obtain ⟨-, hg, hs⟩ := H.clear (m := m) hs hg
    exact ⟨trivial, hg, hs⟩
  | size =>
    obtain ⟨hsize, hg, hs⟩ := H.size (m := m) ⟨hthread, hfresh rfl⟩ hs hg
    exact ⟨hsize, hg, hs⟩
  | release k =>
    obtain ⟨-, hg, hs⟩ := H.release (m := m) (k := k) hs hg
    exact ⟨trivial, hg, hs⟩

/-- Caches that mirror each other answer alike to all calls. -/
theorem Mirrors.answers (H : d.Mirrors d' thread intervals C G R)
    (hcontent : ∀ x x', C x x' → x.item.content = x'.item.content)
    {calls : List (Moment × Call κ α)} (hthread : ∀ x ∈ calls, x.1.thread = thread)
    (hresume : ∀ x ∈ calls, x.2.isResume = false)
    (hwritten : ∀ x ∈ calls, ∀ k serial v, x.2 = .put k serial v →
      C { item := ⟨serial, .plain v⟩ } { item := ⟨serial, .plain v⟩ })
    {t : Span} (hopen : StaysOpen intervals t calls) {s : σ} {s' : τ} {g g' : Ground κ α}
    (hs : R t s s') (hg : G g g') :
    List.Forall₂ Answer.Agrees (d.answers calls s g) (d'.answers calls s' g') := by
  induction calls generalizing t s s' g g' with
  | nil => exact .nil
  | cons x calls ih =>
    obtain ⟨hfresh, hopen⟩ := hopen
    have hstep := H.perform hcontent (hthread x List.mem_cons_self)
      (hresume x List.mem_cons_self) hfresh (hwritten x List.mem_cons_self) hs hg
    have hrest := ih (fun y hy => hthread y (List.mem_cons_of_mem x hy))
      (fun y hy => hresume y (List.mem_cons_of_mem x hy))
      (fun y hy => hwritten y (List.mem_cons_of_mem x hy)) hopen hstep.state hstep.ground
    exact .cons hstep.answer hrest

end Cache

/-! ## Two chains, layer by layer -/

namespace Chain

variable [DecidableEq κ] [Codec α]

/-- Two chains that mirror each other as they stand, if all windows were last cleared at `t`. -/
def Mirrors (c c' : Chain κ) (thread : String) (intervals : List Span) (t : Span)
    (C : Cell α → Cell α → Prop) (G : Ground κ α → Ground κ α → Prop) : Prop :=
  ∃ R : Span → Stack κ c.kinds → Stack κ c'.kinds → Prop,
    c.cache.Mirrors c'.cache thread intervals C G R ∧ R t c.stack c'.stack

variable {c c' : Chain κ} {thread : String} {intervals : List Span} {w : Wiring} {m : Moment}
  {C low high : Cell α → Cell α → Prop} {G : Ground κ α → Ground κ α → Prop} {P : α → Prop}

/-- A layer that bounds the number of keys can be put on both chains, one that counts, excludes,
latches or flushes on one of them. -/
theorem Mirrors.wrap (hG : Ground.Quiet G) (hw : w.clock = .system)
    (h : Mirrors c c' thread intervals (m.time .system) C G) (l : Layer)
    (hinterval : ∀ i, l = .scheduled i → i ∈ intervals) (hreclaiming : l.isReclaiming = false)
    (hserialized : l ≠ .serialized) (reclaiming : Bool) :
    Mirrors (c.wrap l w m) (if l.decides reclaiming then c'.wrap l w m else c') thread intervals
      (m.time .system) C G := by
  obtain ⟨R, H, hR⟩ := h
  cases l with
  | lru capacity => exact ⟨_, Recency.mirrors hG H, rfl, hR⟩
  | fifo capacity => exact ⟨_, WriteQueue.mirrors hG H, rfl, hR⟩
  | soft hardBound retention => cases hreclaiming
  | weak hardBound every => cases hreclaiming
  | scheduled interval =>
    have hopen : (⟨interval, w.clock, m.time w.clock⟩ : Window).IsOpen intervals (m.time .system) :=
      ⟨hw, hinterval interval rfl, by rw [hw]⟩
    exact ⟨_, Window.mirrors H, hopen, hR⟩
  | serialized => exact absurd rfl hserialized
  | logging => exact ⟨_, HitCount.mirrors hG H, hR⟩
  | synchronized => exact ⟨_, Passing.mirrors H, hR⟩
  | blocking timeout =>
    refine ⟨_, Gate.mirrors H, ?_, hR⟩
    intro k owner howner
    cases howner

/-- Chains that mirror each other still do so after layers were stacked on one of them, and those
that decide what is stored on the other one. What a layer that keeps bytes makes of the cells is
left open: they are related by `low` below it and by `high` above it. -/
theorem Mirrors.compose (hG : Ground.Quiet G) (hw : w.clock = .system) {reclaiming : Bool}
    {layers : List Layer}
    (hpacking : .serialized ∈ layers → ∀ {c c' : Chain κ},
      Mirrors c c' thread intervals (m.time .system) low G →
        Mirrors (c.wrap .serialized w m) (if reclaiming then c'.wrap .serialized w m else c') thread
          intervals (m.time .system) high G)
    (hintervals : ∀ i, .scheduled i ∈ layers → i ∈ intervals)
    (hreclaiming : layers.any Layer.isReclaiming = false) (hcount : layers.count .serialized ≤ 1)
    (h : Mirrors c c' thread intervals (m.time .system)
      (if .serialized ∈ layers then low else high) G) :
    Mirrors (c.compose m (layers.map fun l => (l, w)))
      (c'.compose m ((layers.filter (Layer.decides reclaiming)).map fun l => (l, w))) thread
      intervals (m.time .system) high G := by
  induction layers generalizing c c' with
  | nil => exact h
  | cons l layers ih =>
    obtain ⟨hl, hreclaiming⟩ := Bool.or_eq_false_iff.mp (List.any_cons.symm.trans hreclaiming)
    have hpacking' := fun hm : .serialized ∈ layers => @hpacking (List.mem_cons_of_mem l hm)
    have hintervals' : ∀ i, .scheduled i ∈ layers → i ∈ intervals :=
      fun i hi => hintervals i (List.mem_cons_of_mem l hi)
    have hnext : Mirrors (c.wrap l w m) (if l.decides reclaiming then c'.wrap l w m else c')
        thread intervals (m.time .system) (if .serialized ∈ layers then low else high) G := by
      -- No layer after one that keeps bytes does so too: from there on the cells stay as they are.
      by_cases hs : l = .serialized
      · subst hs
        rw [List.count_cons_self] at hcount
        have hnone : .serialized ∉ layers := List.count_eq_zero.mp (by omega)
        rw [if_neg hnone]
        rw [if_pos List.mem_cons_self] at h
        exact hpacking List.mem_cons_self h
      · have hmem : .serialized ∈ l :: layers ↔ .serialized ∈ layers := by
          simp [List.mem_cons, Ne.symm hs]
        simp only [hmem] at h
        exact h.wrap hG hw l (fun i hi => hintervals i (hi ▸ List.mem_cons_self)) hl hs reclaiming
    have hcount' : layers.count .serialized ≤ 1 := Nat.le_trans List.count_le_count_cons hcount
    have hrest := ih hpacking' hintervals' hreclaiming hcount' hnext
    rw [List.filter_cons]
    split
    · next hd =>
      rw [if_pos hd] at hrest
      exact hrest
    · next hd =>
      rw [if_neg hd] at hrest
      exact hrest

/-! ## Leaving layers out -/

/-- Without a layer that reclaims, bytes are unpacked on the side on which they are not kept. -/
theorem mirrors_deciding_of_not_reclaiming (id : String) (base : Nat) (thread : String)
    (signal : Signal) {layers : List Layer} (m : Moment)
    (hreclaiming : layers.any Layer.isReclaiming = false) (hcount : layers.count .serialized ≤ 1)
    (hP : .serialized ∈ layers → ∀ v, P v → Packable v) :
    let low := if .serialized ∈ layers then Cell.Unpacks P else Cell.Alike P
    Mirrors ((bare id base : Chain κ).compose m (layers.map fun l => (l, { signal := signal })))
      ((bare id base).compose m
        ((Layer.deciding layers).map fun l => (l, { signal := signal }))) thread
      (layers.filterMap Layer.interval?) (m.time .system) (Cell.Alike P)
      (fun g g' => (g.store base).Matches low (g'.store base)) := by
  intro low
  have hbare : Mirrors (bare id base : Chain κ) (bare id base) thread
      (layers.filterMap Layer.interval?) (m.time .system) low
      (fun g g' => (g.store base).Matches low (g'.store base)) :=
    ⟨_, Cache.mirrors_bare id base, trivial⟩
  rw [Layer.deciding, hreclaiming]
  refine hbare.compose (Ground.quiet_matches base) rfl ?_ ?_ hreclaiming hcount
  · rintro hm c c' ⟨R, H, hR⟩
    exact ⟨_, Packing.mirrors (hP hm) (fun h => h) H, hR⟩
  · exact fun i hi => List.mem_filterMap.mpr ⟨_, hi, rfl⟩

/-- Over a layer that reclaims, both sides store the same instances. -/
theorem mirrors_deciding_of_reclaiming (id : String) (base : Nat) (thread : String)
    (signal : Signal) {l : Layer} {layers : List Layer} (m : Moment)
    (hl : l.isReclaiming = true) (hreclaiming : layers.any Layer.isReclaiming = false)
    (hcount : layers.count .serialized ≤ 1) (hP : .serialized ∈ layers → ∀ v, P v → Packable v) :
    let stored := if .serialized ∈ layers then Content.IsPacked P else Content.IsPlain P
    Mirrors
      ((bare id base : Chain κ).compose m ((l :: layers).map fun l => (l, { signal := signal })))
      ((bare id base).compose m
        ((Layer.deciding (l :: layers)).map fun l => (l, { signal := signal }))) thread
      ((l :: layers).filterMap Layer.interval?) (m.time .system) (Cell.Same (Content.IsPlain P))
      (Ground.AlikeWith base stored) := by
  intro stored
  have hfirst : Mirrors ((bare id base : Chain κ).wrap l { signal := signal } m)
      ((bare id base).wrap l { signal := signal } m) thread
      ((l :: layers).filterMap Layer.interval?) (m.time .system)
      (if .serialized ∈ layers then Cell.Same (Content.IsPacked P)
        else Cell.Same (Content.IsPlain P)) (Ground.AlikeWith base stored) := by
    have H : (Leasing.onto (Cache.bare id base) : Cache κ α _).Mirrors
        (Leasing.onto (Cache.bare id base)) thread ((l :: layers).filterMap Layer.interval?)
        (Cell.Same stored) (Ground.AlikeWith base stored) fun _ => Eq :=
      (Leasing.mirrors_alike (Cache.mirrors_bare_alike id base)).same
        (Leasing.faithful (Cache.faithful_bare id base)) stored
    rw [← apply_ite Cell.Same]
    cases l with
    | soft hardBound retention => exact ⟨_, H, rfl⟩
    | weak hardBound every => exact ⟨_, H, rfl⟩
    | _ => cases hl
  have hdeciding : Layer.deciding (l :: layers) = l :: layers.filter (Layer.decides true) := by
    have hd : l.decides true = true := by cases l <;> first | rfl | cases hl
    rw [Layer.deciding, List.any_cons, hl, Bool.true_or, List.filter_cons, if_pos hd]
  rw [hdeciding]
  refine hfirst.compose (Ground.quiet_alikeWith base stored) rfl ?_ ?_ hreclaiming hcount
  · rintro hm c c' ⟨R, H, hR⟩
    exact ⟨_, Packing.mirrors_both (hP hm) (fun h => h.issue) H, rfl, hR⟩
  · exact fun i hi => List.mem_filterMap.mpr ⟨_, List.mem_cons_of_mem l hi, rfl⟩

/-- Leaving out the layers that decide nothing changes no answer: a chain that was built over a new
base store can be built without them, and calls of one thread, none of which goes on with a lookup
that waits, succeed on both chains and agree, as long as no window runs out. Nobody waits or gives
up. Values that a layer keeps as bytes must have bytes and be read from them as they were. -/
theorem answers_deciding {id : String} {base : Nat} {signal : Signal} {layers : List Layer}
    {m₀ : Moment} {g₀ g₁ : Ground κ α} {c : Chain κ}
    (hbuild : build id base signal layers m₀ g₀ = (g₁, .ok c)) (hnew : g₀.store base = .empty)
    {thread : String} {calls : List (Moment × Cache.Call κ α)}
    (hthread : ∀ x ∈ calls, x.1.thread = thread) (hresume : ∀ x ∈ calls, x.2.isResume = false)
    (hcodec : .serialized ∈ layers → ∀ x ∈ calls, ∀ k serial v, x.2 = .put k serial v →
      Packable v)
    (hopen : Cache.StaysOpen (layers.filterMap Layer.interval?) (m₀.time .system) calls) :
    ∃ g₁' c', build id base signal (Layer.deciding layers) m₀ g₀ = (g₁', .ok c') ∧
      List.Forall₂ Cache.Answer.Agrees (c.cache.answers calls c.stack g₁)
        (c'.cache.answers calls c'.stack g₁') := by
  obtain ⟨hvalid, rfl⟩ := eq_compose_of_build hbuild
  obtain ⟨hid, rfl⟩ := ground_of_build hbuild
  refine ⟨_, _, build_of_validate hid base signal (validate_of_sublist List.filter_sublist hvalid)
    m₀ g₀, ?_⟩
  have hcount := count_serialized_of_validate hvalid
  -- The values that are written, if some layer keeps bytes.
  let P : α → Prop := fun v => .serialized ∈ layers → Packable v
  have hwritten : ∀ x ∈ calls, ∀ k serial v, x.2 = .put k serial v → P v :=
    fun x hx k serial v hput hm => hcodec hm x hx k serial v hput
  by_cases hreclaiming : layers.any Layer.isReclaiming = true
  · obtain ⟨l, layers, rfl⟩ : ∃ l layers', layers = l :: layers' := by
      cases layers with
      | nil => cases hreclaiming
      | cons l layers => exact ⟨l, layers, rfl⟩
    have hrest : layers.any Layer.isReclaiming = false := reclaiming_of_validate hvalid
    have hl : l.isReclaiming = true := by
      rwa [List.any_cons, hrest, Bool.or_false] at hreclaiming
    obtain ⟨R, H, hR⟩ := mirrors_deciding_of_reclaiming (κ := κ) (P := P) id base thread signal m₀ hl
      hrest (Nat.le_trans List.count_le_count_cons hcount)
      fun hm v hv => hv (List.mem_cons_of_mem l hm)
    refine H.answers ?_ hthread hresume ?_ hopen hR ⟨⟨rfl, rfl⟩, ?_⟩
    · rintro x x' ⟨rfl, -⟩
      rfl
    · exact fun x hx k serial v hput => ⟨rfl, v, hwritten x hx k serial v hput, rfl⟩
    · intro k y hy
      rw [Ground.content, Ground.store_note, hnew] at hy
      cases hy
  · obtain ⟨R, H, hR⟩ := mirrors_deciding_of_not_reclaiming (κ := κ) (P := P) id base thread signal m₀
      (Bool.eq_false_iff.mpr hreclaiming) hcount fun hm v hv => hv hm
    refine H.answers ?_ hthread hresume ?_ hopen hR ?_
    · rintro x x' ⟨v, -, hx, hx'⟩
      rw [hx, hx']
    · exact fun x hx k serial v hput => ⟨v, hwritten x hx k serial v hput, rfl, rfl⟩
    · simp only [Ground.store_note, hnew]
      exact .nil

/-- Texts have bytes and are read from them as they were. -/
theorem packable_text {s : String} (h : (Text.Utf8.encode s).length < Nat.pow 2 64) : Packable s :=
  ⟨TextFormat.encode s, rfl, TextFormat.decode_encode h⟩

namespace Bystanders

def layers : List Layer :=
  [.lru 2, .scheduled 5, .serialized, .logging, .synchronized, .blocking none]

def whole : Chain Nat :=
  ⟨"users", 0, [.latching, .passing, .counting, .packing, .window, .lru],
    ({ timeout := none }, (), {}, (), ⟨5, .system, 0⟩, Recency.ofCapacity 2, ())⟩

/-- The chain without the layers that decide nothing. -/
def alone : Chain Nat := ⟨"users", 0, [.lru], (Recency.ofCapacity 2, ())⟩

/-- A new base store, after a chain with these layers was built over it. -/
def ground (layers : List Layer) : Ground Nat String :=
  Ground.note {} (.built "users" (Layer.describe layers))

def late : Moment := { time := fun _ => 5 }

def calls : List (Moment × Cache.Call Nat String) :=
  [({}, .get 1), ({}, .put 1 0 "a"), ({}, .get 1), ({}, .put 2 1 "b"), (late, .put 3 2 "c"),
    (late, .get 1), (late, .get 1), (late, .clear), ({ time := fun _ => 10 }, .size)]

/-- A bounded layer with room for two keys, below a window, bytes and a latch: the key that goes
when a third one is written goes without the other layers too, and nobody waits for its latch. -/
theorem bounded_layer_answers_alone :
    build "users" 0 .silent layers {} {} = (ground layers, .ok whole) ∧
      build "users" 0 .silent [.lru 2] {} {} = (ground [.lru 2], .ok alone) ∧
      alone.cache.answers calls alone.stack (ground [.lru 2]) =
        [.looked (.done (.ok none)), .written (.ok ()),
          .looked (.done (.ok (some { item := ⟨0, .plain "a"⟩ }))), .written (.ok ()),
          .written (.ok ()), .looked (.done (.ok none)), .looked (.done (.ok none)), .nothing,
          .counted 0] ∧
      List.Forall₂ Cache.Answer.Agrees (whole.cache.answers calls whole.stack (ground layers))
        (alone.cache.answers calls alone.stack (ground [.lru 2])) := by
  have hbuild : build "users" 0 .silent layers {} {} = (ground layers, .ok whole) := rfl
  have halone : build "users" 0 .silent [.lru 2] {} {} = (ground [.lru 2], .ok alone) := rfl
  have hthread : ∀ x ∈ calls, x.1.thread = "main" := by decide
  have hresume : ∀ x ∈ calls, x.2.isResume = false := by decide
  have hcodec : ∀ x ∈ calls, ∀ k serial v, x.2 = .put k serial v → Packable v := by
    intro x hx k serial v hput
    have hv : v = "a" ∨ v = "b" ∨ v = "c" := by
      simp only [calls, List.mem_cons, List.not_mem_nil, or_false] at hx
      rcases hx with rfl | rfl | rfl | rfl | rfl | rfl | rfl | rfl | rfl <;> cases hput <;> simp
    rcases hv with rfl | rfl | rfl <;> exact packable_text (by decide)
  have hopen : Cache.StaysOpen (layers.filterMap Layer.interval?) 0 calls := by
    simp [Cache.StaysOpen, calls, layers, late, Layer.interval?, Cache.Call.isTimed,
      Cache.Call.clearedAt]
  obtain ⟨g, c, hdeciding, hagree⟩ :=
    answers_deciding hbuild rfl hthread hresume (fun _ => hcodec) hopen
  obtain ⟨rfl, rfl⟩ : ground [.lru 2] = g ∧ alone = c := by
    have hsame := halone.symm.trans hdeciding
    simpa using hsame
  exact ⟨hbuild, halone, rfl, hagree⟩

end Bystanders

end Chain

end LayeredCache
