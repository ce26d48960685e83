import LayeredCache.Proofs.Builder
import LayeredCache.Proofs.Freshness
import LayeredCache.Proofs.Transaction.Populator
import LayeredCache.Proofs.Transaction.Serving
import LayeredCache.Proofs.Transparency
import LayeredCache.Proofs.Workload.Loop
import Mathlib.Data.Nat.Digits.Defs

/-!
# What a workload accounts for

Any number of workloads are run on a chain of a builder, one after the other. Each of them leaves
the chain without latches and with its own values alone, which all have bytes, so the next one finds
a chain that answers every call. Its lookups are hits or misses, and these are what the counting
layer has counted meanwhile, however many units of work were rolled back and whatever was evicted,
flushed or reclaimed: a lookup that a window has turned into a miss counts as one on both sides.

What is stored after a run was stored before, and a window that had run out by then has left nothing
of it, or it is a key of the workload.

## Main definitions

* `Workload.Course` — runs of workloads, one after the other.
* `Workload.Expects` — the keys that may be stored after a run.
* `Workload.Accounted` — what a run accounts for.

## Main statements

* `Workload.every_lookup_is_accounted_for` — every run comes to its end and accounts for all that.
-/

namespace LayeredCache

variable {κ : Type} [DecidableEq κ]

/-- The base store holds each key once, and every bounded layer lists its keys. -/
def Chain.Lists {α : Type} (c : Chain κ) (layers : List Layer) (s : Stack κ c.kinds)
    (g : Ground κ α) : Prop :=
  (g.store c.base).Distinct ∧ ∀ n : { n // .lru n ∈ layers ∨ .fifo n ∈ layers },
    Stack.Any (Kind.Tracks c.base n.1 g) c.kinds s

theorem Chain.upholds_lists (α : Type) [Codec α] {c : Chain κ} (layers : List Layer)
    (hleasing : .leasing ∉ c.kinds.dropLast) :
    (c.cache : Cache κ α _).Upholds (c.Lists layers) :=
  (Stack.upholds_distinct c.id c.base c.kinds).and <|
    Cache.upholds_forall fun n => Stack.upholds_tracks c.id c.base n.1 c.kinds hleasing

theorem Chain.Lists.size_le {α : Type} {c : Chain κ} {layers : List Layer}
    {s : Stack κ c.kinds} {g : Ground κ α} (h : c.Lists layers s g) {n : Nat}
    (hn : .lru n ∈ layers ∨ .fifo n ∈ layers) : (g.store c.base).size ≤ n := by
  obtain ⟨keys, hlisted⟩ := (h.2 ⟨n, hn⟩).exists_listed
  exact hlisted.size_le h.1

/-- Without latches no thread holds one. -/
theorem Stack.holder?_eq_none {kinds : List Kind} {s : Stack κ kinds}
    (h : Stack.All Kind.Unlatched kinds s) (i : Nat) (k : κ) : holder? kinds s i k = none := by
  induction kinds generalizing i with
  | nil => rfl
  | cons kind kinds ih =>
    cases i with
    | succ i => exact ih h.2 i
    | zero =>
      cases kind
      case latching => exact h.1 k
      all_goals rfl

namespace Workload

/-- The states of a chain and the ground that any number of runs of workloads come to, each on a
thread of its own. Between two runs others may do what they like to the ground except to the cells
of the base store. -/
inductive Course (c : Chain Key) (g₁ : Ground Key String) :
    Stack Key c.kinds → Ground Key String → Prop where
  | start : Course c g₁ c.stack g₁
  | run {s : Stack Key c.kinds} {g : Ground Key String} (w : Workload) {moments : Nat → Moment}
    (random : Generator) {thread : String} : Course c g₁ s g → w.keys < countLimit →
      (∀ i, (moments i).thread = thread) →
      Course c g₁ (w.runFrom c.cache moments random s g).state
        (w.runFrom c.cache moments random s g).ground
  | elsewhere {s : Stack Key c.kinds} {g : Ground Key String} (g' : Ground Key String) :
    Course c g₁ s g → g'.store c.base = g.store c.base → Course c g₁ s g'

/-- What a run of a workload on a chain with such layers accounts for: `report` is what it answers,
and `count` is what the counting layer had counted before. -/
structure Accounted (c : Chain Key) (layers : List Layer) (w : Workload) (moments : Nat → Moment)
    (random : Generator) (s : Stack Key c.kinds) (g : Ground Key String) (report : WorkloadReport)
    (count : HitCount) : Prop where
  answer : (w.runFrom c.cache moments random s g).answer = .ok report
  lookups : report.hits + report.misses = w.operations
  /-- The last unit of work may have made fewer lookups than the others. -/
  ends : report.commits + report.rollbacks = (w.operations + w.batch - 1) / w.batch
  counted_before : Stack.hitCounts c.kinds s = [count]
  counted : Stack.hitCounts c.kinds (w.runFrom c.cache moments random s g).state =
    [{ requests := count.requests + w.operations, hits := count.hits + report.hits }]
  /-- When the lookups are done no unit of work is left that has something to write. -/
  ended : ∃ last, w.loop c.cache moments w.operations
      { random := random, work := {}, state := s, ground := g } = .ok last ∧
    last.work = {} ∧ { last.report with size := report.size } = report
  unlatched : ∀ i k,
    Stack.holder? c.kinds (w.runFrom c.cache moments random s g).state i k = none
  size_le_bound : ∀ bound, .lru bound ∈ layers ∨ .fifo bound ∈ layers → report.size ≤ bound
  /-- The stored keys may be counted at any moment that is not after those of the run. -/
  size_le_before : ∀ bound, .lru bound ∈ layers ∨ .fifo bound ∈ layers →
    ∀ m, (∀ i, m.NotAfter (moments i)) → report.size ≤ (c.cache.size m s g).answer + w.keys

/-- A text has at most four bytes for each character. -/
theorem length_encode_le (s : String) : (Text.Utf8.encode s).length ≤ 4 * s.length := by
  rw [Text.Utf8.encode, List.length_flatMap, ← String.length_toList]
  induction s.toList with
  | nil => exact Nat.le_refl _
  | cons c cs ih =>
    have hsize := c.utf8Size_le_four
    simp only [String.length_utf8EncodeChar] at ih
    simp only [List.map_cons, List.sum_cons, String.length_utf8EncodeChar, List.length_cons]
    omega

theorem packable_value {i : Nat} (h : i < countLimit) : Packable (value i) := by
  have hdigits : (Nat.repr i).length ≤ 20 :=
    Nat.repr_length i 20 (by decide) (Nat.lt_trans h (by decide))
  have hlength : (value i).length ≤ 26 := by
    rw [value, String.length_append]
    exact Nat.add_le_add_left hdigits 6
  have hbytes : (Text.Utf8.encode (value i)).length ≤ 4 * 26 :=
    Nat.le_trans (length_encode_le _) (Nat.mul_le_mul_left 4 hlength)
  exact Chain.packable_text (Nat.lt_of_le_of_lt hbytes (by decide))

/-- The keys that were stored and those of the workload. -/
def Expects (w : Workload) (base : Nat) (g : Ground Key String) (k : Key) : Prop :=
  g.content base k ≠ none ∨ ∃ i < w.keys, k = key i

/-- There are no more keys than those that were stored before and those of the workload. -/
theorem listed_of_among {base : Nat} {w : Workload} {g g' : Ground Key String}
    (h : g'.Among base (w.Expects base g)) :
    g'.Listed base ((g.store base).size + w.keys)
      ((g.store base).keys ++ (List.range w.keys).map key) where
  length_le := by simp [Table.keys, Table.size]
  mem k y hk := by
    rw [List.mem_append]
    rcases h k y hk with hstored | ⟨i, hi, rfl⟩
    · left
      rw [Ground.content, Ne, Option.map_eq_none_iff] at hstored
      obtain ⟨cell, hcell⟩ := Option.ne_none_iff_exists'.mp hstored
      exact List.mem_map_of_mem (f := Prod.fst) (Table.mem_of_lookup hcell)
    · exact .inr (List.mem_map_of_mem (List.mem_range.mpr hi))

section Chains

variable {c : Chain Key} {w : Workload} {moments : Nat → Moment} {random : Generator}
  {s : Stack Key c.kinds} {g : Ground Key String} {layers : List Layer} {thread : String}
  {n : List HitCount}

section Runs

variable {outer inner : List Kind} (hkinds : c.kinds = outer ++ .counting :: inner)
  (houter : ∀ kind ∈ outer, kind = .passing ∨ kind = .latching) (hinner : .counting ∉ inner)
  (hleasing : .leasing ∉ c.kinds.dropLast) (hkeys : 0 < w.keys) (hcount : w.keys < countLimit)
  (h : c.Tended (c.Lists layers) thread n (fun _ => False) s g)

include hkinds houter hinner hleasing hkeys hcount h

/-- A run on a chain that is tended comes to its end. It stores no keys but its own and those that
its calls would leave. -/
theorem exists_run (random : Generator) {M : Moment → Prop} (hM : ∀ i, M (moments i))
    (hmain : ∀ m, M m → m.thread = thread) (hholding : ∀ m serials, M m → M (m.holding serials))
    {p : Key → Prop} (hp : ∀ i < w.keys, p (key i)) (hleaves : c.Leaves M p s g) :
    ∃ last, w.loop c.cache moments w.operations
        { random := random, work := {}, state := s, ground := g } = .ok last ∧
      last.report.hits + last.report.misses = w.operations ∧
      last.report.commits + last.report.rollbacks = w.endsAfter w.operations ∧ last.work = {} ∧
      let r := w.runFrom c.cache moments random s g
      c.Tended (c.Lists layers) thread (n.map (·.add last.report.hitCount)) (fun _ => False)
        r.state r.ground ∧ r.ground.Among c.base p := by
  have H := Chain.serves hkinds houter hinner hleasing (Chain.upholds_lists String layers hleasing)
    hmain hholding p
  have hW : ∀ i < w.keys, p (key i) ∧ ∃ v, Content.plain (value i) = .plain v ∧ Packable v :=
    fun i hi => ⟨hp i hi, _, rfl, packable_value (Nat.lt_trans hi hcount)⟩
  obtain ⟨last, hloop, hlast, hwork, hdone⟩ := exists_last H hM hkeys hW ⟨h, hleaves⟩ random
  exact ⟨last, hloop, hlast.lookups, hlast.ended, hwork, hdone⟩

theorem tended_run (random : Generator) (hthread : ∀ i, (moments i).thread = thread) :
    ∃ last, w.loop c.cache moments w.operations
        { random := random, work := {}, state := s, ground := g } = .ok last ∧
      last.report.hits + last.report.misses = w.operations ∧
      last.report.commits + last.report.rollbacks = w.endsAfter w.operations ∧ last.work = {} ∧
      let r := w.runFrom c.cache moments random s g
      c.Tended (c.Lists layers) thread (n.map (·.add last.report.hitCount)) (fun _ => False)
        r.state r.ground := by
  obtain ⟨last, hloop, hlookups, hends, hwork, hdone, -⟩ := exists_run hkinds houter hinner
    hleasing hkeys hcount h random hthread (fun _ hm => hm) (fun _ _ hm => hm)
    (p := fun _ => True) (fun _ _ => trivial) (Chain.leaves_of_among (fun _ _ _ => trivial) _ s)
  exact ⟨last, hloop, hlookups, hends, hwork, hdone⟩

/-- What is stored after a run, an earlier count would have left, or it is a key of the workload. -/
theorem among_run (random : Generator) (hthread : ∀ i, (moments i).thread = thread)
    (hwaning : .leasing ∉ c.kinds) {m : Moment} (hm : ∀ i, m.NotAfter (moments i)) :
    (w.runFrom c.cache moments random s g).ground.Among c.base
      (w.Expects c.base (c.cache.size m s g).ground) := by
  have hwanes : (c.cache : Cache Key String _).Wanes := Stack.wanes c.id c.base hwaning
  have hbase : (c.cache : Cache Key String _).base = c.base := Chain.base_cache c
  have hleft : ∀ {g' : Ground Key String}, g'.Within c.base (c.cache.size m s g).ground →
      g'.Among c.base (w.Expects c.base (c.cache.size m s g).ground) := by
    intro g' hg k y hy
    exact .inl fun hnone => by cases hnone.symm.trans (hg k y hy)
  have hleaves : c.Leaves (fun m' => m'.thread = thread ∧ m.NotAfter m')
      (w.Expects c.base (c.cache.size m s g).ground) s g :=
    ⟨fun m' k found hm' hfound => hleft (hbase ▸ hwanes.get m m' k s g found hm'.2 hfound),
      fun m' hm' => hleft (hbase ▸ hwanes.size m m' s g hm'.2)⟩
  obtain ⟨-, -, -, -, -, -, hamong⟩ := exists_run hkinds houter hinner hleasing hkeys hcount h
    random (fun i => ⟨hthread i, hm i⟩) (fun _ hm' => hm'.1) (fun _ _ hm' => hm')
    (fun i hi => .inr ⟨i, hi, rfl⟩) hleaves
  exact hamong

/-- A run grows the number of stored keys by those of the workload at most. -/
theorem size_run_le (random : Generator) (hthread : ∀ i, (moments i).thread = thread)
    (hwaning : .leasing ∉ c.kinds) {m : Moment} (hm : ∀ i, m.NotAfter (moments i))
    (hdistinct : ((w.runFrom c.cache moments random s g).ground.store c.base).Distinct) :
    ((w.runFrom c.cache moments random s g).ground.store c.base).size ≤
      (c.cache.size m s g).answer + w.keys := by
  have hamong := among_run hkinds houter hinner hleasing hkeys hcount h random hthread hwaning hm
  have hanswer : (c.cache.size m s g).answer = ((c.cache.size m s g).ground.store c.base).size :=
    Chain.answer_size c.id c.base c.kinds m s g
  rw [hanswer]
  exact (listed_of_among hamong).size_le hdistinct

end Runs

section Courses

variable {b : Builder} {base : Nat} {m₀ : Moment} {g₀ g₁ : Ground Key String}
  (hbuild : b.build base m₀ g₀ = (g₁, .ok c)) (hlayers : b.layers (κ := Key) = .ok layers)
  (hnew : g₀.store base = .empty)

include hbuild hlayers hnew

/-- A chain that was built over a new base store is tended before the first call. -/
theorem tended_start (thread : String) :
    c.Tended (c.Lists layers) thread (Stack.hitCounts c.kinds c.stack) (fun _ => False) c.stack
      g₁ := by
  have hbuilt := Builder.isBuilt_of_build hbuild hlayers
  have hchain : Chain.build b.id base b.signal layers m₀ g₀ = (g₁, .ok c) := by
    rwa [Builder.build, hlayers] at hbuild
  have hunlatched := hbuilt.all Kind.Unlatched fun l _ _ w m => Sharing.unlatched_initial w m l
  refine ⟨rfl, ?_, ?_, ?_, ?_⟩
  · intro i k other hk
    rw [Stack.holder?_eq_none hunlatched] at hk
    cases hk
  · intro k y hy
    rw [Ground.content, hbuilt.base_eq, hbuilt.store_eq, hnew] at hy
    cases hy
  · exact hbuilt.base_eq ▸ Chain.distinct_of_run hchain hnew .start
  · rintro ⟨n, hn⟩
    have htracks : ∀ l ∈ layers, l = .lru n ∨ l = .fifo n →
        Stack.Any (Kind.Tracks c.base n g₁) c.kinds c.stack :=
      fun l hl hl' => hbuilt.base_eq ▸ Chain.tracks_of_run hchain hnew .start hl hl'
    rcases hn with hn | hn
    · exact htracks _ hn (.inl rfl)
    · exact htracks _ hn (.inr rfl)

/-- Runs leave a chain as they need it. -/
theorem Course.tended (hcourse : Course c g₁ s g) (thread : String) :
    c.Tended (c.Lists layers) thread (Stack.hitCounts c.kinds s) (fun _ => False) s g := by
  have hbuilt := Builder.isBuilt_of_build hbuild hlayers
  obtain ⟨outer, inner, hkinds, houter, hinner⟩ := Builder.exists_counting hlayers hbuilt
  have hleasing := Builder.leasing_not_mem hlayers hbuilt
  induction hcourse with
  | start => exact tended_start hbuild hlayers hnew thread
  | run w random _ hcount hthread ih =>
    by_cases hkeys : w.keys = 0
    · simpa only [runFrom, if_pos hkeys] using ih
    · obtain ⟨last, -, -, -, -, hdone⟩ := tended_run hkinds houter hinner hleasing
        (Nat.pos_of_ne_zero hkeys) hcount (ih.of_unlatched _) random hthread
      exact (hdone.counts ▸ hdone).of_unlatched thread
  | elsewhere g' _ hg ih =>
    have hlists := Chain.upholds_lists String layers hleasing
    exact ih.after ih.counts ih.owned (.of_eq (Ground.content_congr hg))
      (hlists.elsewhere ih.kept (Chain.base_cache (α := String) c ▸ hg))

/-- Whatever numbers the generator draws (the words it has in store are any words), and whenever the
calls are made: every run of a workload on a chain of a builder, after any number of such runs,
comes to its end. Each lookup is a hit or a miss, and the counting layer has counted the same; each
unit of work has ended, and nothing is left waiting or latched. A bounded layer keeps the number of
stored keys within its bound, and it has grown by the keys of the workload at most. -/
theorem every_lookup_is_accounted_for (hcourse : Course c g₁ s g) (hkeys : 0 < w.keys)
    (hcount : w.keys < countLimit) (hthread : ∀ i, (moments i).thread = thread)
    (random : Generator) :
    ∃ report count, w.Accounted c layers moments random s g report count := by
  have htended := hcourse.tended hbuild hlayers hnew thread
  have hbuilt := Builder.isBuilt_of_build hbuild hlayers
  obtain ⟨outer, inner, hkinds, houter, hinner⟩ := Builder.exists_counting hlayers hbuilt
  have hleasing := Builder.leasing_not_mem hlayers hbuilt
  have hcounting : .counting ∉ outer := fun hm => by rcases houter _ hm with h | h <;> cases h
  obtain ⟨count, hbefore⟩ := Stack.exists_hitCounts_eq hkinds hcounting hinner s
  obtain ⟨last, hloop, hlookups, hends, hwork, hdone⟩ := tended_run hkinds houter hinner hleasing
    hkeys hcount htended random hthread
  let r := c.cache.size (moments (2 * w.operations + 2)) last.state last.ground
  have hrun : w.runFrom c.cache moments random s g =
      ⟨r.state, r.ground, .ok { last.report with size := r.answer }⟩ := runFrom_eq hkeys hloop
  have hsize : r.answer = ((w.runFrom c.cache moments random s g).ground.store c.base).size := by
    rw [hrun]
    exact Chain.answer_size c.id c.base c.kinds _ _ _
  refine ⟨{ last.report with size := r.answer }, count, ?_⟩
  exact {
    answer := by rw [hrun]
    lookups := hlookups
    ends := hends.trans (endsAfter_operations w)
    counted_before := hbefore
    counted := by
      rw [hdone.counts, hbefore, ← hlookups]
      rfl
    ended := ⟨last, hloop, hwork, rfl⟩
    unlatched := by
      intro i k
      cases hk : Stack.holder? c.kinds (w.runFrom c.cache moments random s g).state i k with
      | none => rfl
      | some other => exact (hdone.owned i k other hk).2.elim
    size_le_bound := fun bound hbound => hsize ▸ hdone.kept.size_le hbound
    size_le_before := fun bound hbound m hm =>
      hsize ▸ size_run_le hkinds houter hinner hleasing hkeys hcount htended random hthread
        (Builder.leasing_not_mem_of_bounded hlayers hbuilt hbound) hm hdone.kept.1 }

end Courses

end Chains

namespace Rerun

def builder : Builder :=
  { id := "sim", eviction := .fifo, size := some 2, blocking := true, blockingTimeout := some 5 }

def layers : List Layer :=
  [.fifo 2, .serialized, .logging, .synchronized, .blocking (some 5)]

def chain : Chain Key :=
  ⟨"sim", 0, [.latching, .passing, .counting, .packing, .fifo],
    ({ timeout := some 5 }, (), {}, (), { capacity := 2 }, ())⟩

def ground : Ground Key String := Ground.note {} (.built "sim" (Layer.describe layers))

/-- Draws the key 0, the key 1, a commit, the key 0, and a rollback. -/
def random : Generator :=
  { key := Vector.ofFn fun _ => 0
    unread := [0, 0, 0, 0x80000000, 0, 0x80000000, 0, 0, 0, 0] }

def workload : Workload := { operations := 3, keys := 2, transactionSize := 2 }

/-- The first run, on the thread `main`. -/
def first := workload.runFrom chain.cache (fun _ => {}) random chain.stack ground

/-- The second run, on another thread. -/
def second :=
  workload.runFrom chain.cache (fun _ => { thread := "B" }) random first.state first.ground

/-- A run after another one finds what that has stored, and the counting layer has counted both. -/
theorem second_run_accounted :
    builder.build 0 {} {} = (ground, .ok chain) ∧ Course chain ground first.state first.ground ∧
      ∃ report count,
        workload.Accounted chain layers (fun _ => { thread := "B" }) random first.state first.ground
          report count ∧
        report = { hits := 3, misses := 0, commits := 1, rollbacks := 1, size := 2 } ∧
        count = { requests := 3, hits := 1 } := by
  have hbuild : builder.build 0 {} {} = (ground, .ok chain) := rfl
  have hcourse : Course chain ground first.state first.ground :=
    .run workload random .start (by decide) fun _ => rfl
  obtain ⟨report, count, haccounted⟩ := every_lookup_is_accounted_for hbuild rfl rfl hcourse
    (w := workload) (by decide) (by decide) (fun _ => rfl) random
  have hanswer : second.answer.toOption = some ⟨3, 0, 1, 1, 2⟩ := by decide +kernel
  have hcount : Stack.hitCounts chain.kinds first.state = [⟨3, 1⟩] := by decide +kernel
  refine ⟨hbuild, hcourse, report, count, haccounted, ?_, ?_⟩
  · exact Option.some.inj ((congrArg Except.toOption haccounted.answer).symm.trans hanswer)
  · exact (List.cons.inj (haccounted.counted_before.symm.trans hcount)).1

end Rerun

end Workload

end LayeredCache
