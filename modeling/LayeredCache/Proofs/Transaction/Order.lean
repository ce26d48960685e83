import LayeredCache.Layer.Survey
import LayeredCache.Proofs.Chain
import LayeredCache.Proofs.Layer.Reach
import LayeredCache.Proofs.Layer.Swaps
import LayeredCache.Proofs.Transparency
import LayeredCache.Transaction.Buffer

/-!
# The order of the missed keys

A commit removes the missed keys that it has not written, and a rollback releases the missed keys,
one after the other. The order makes a difference to a chain: to the slots of its indices and to
which cells a reclaiming layer has swept so far. It makes no difference that a later call could
show: all orders lead to states that give the same answers, evict and collect the same, and have the
same latches.

Later calls are those that can be made. An instance that nobody holds any more is gone, and no call
writes it or finds it held outside; new instances get new serial numbers, the same ones on both
sides. The journal counts swept cells, and these may have been swept earlier on one side.

## Main definitions

* `Kind.Twin`, `Stack.Alike` — states of stacks that are treated alike.
* `Stack.isGone` — whether an instance is held by nobody.
* `Chain.Indistinguishable` — states of a chain that no later calls tell apart.

## Main statements

* `Chain.order_of_misses_is_hidden` — commits and rollbacks in any order of the missed keys lead to
  states that no later calls tell apart.
-/

namespace LayeredCache

variable {κ α σ : Type}

/-! ## Calls that take up nothing that is gone -/

/-- The serial number of the instance that a call writes. -/
def Cache.Call.serial? : Cache.Call κ α → Option Nat
  | .put _ serial _ => some serial
  | _ => none

/-- Calls that write no instance that is gone, at moments at which nobody outside holds one. -/
def Cache.Spare (gone : Nat → Bool) (calls : List (Moment × Cache.Call κ α)) : Prop :=
  ∀ x ∈ calls, x.1.Spares gone ∧ ∀ n, x.2.serial? = some n → gone n = false

/-- The state and the ground that calls lead to. -/
def Cache.afterAll (d : Cache κ α σ) :
    List (Moment × Cache.Call κ α) → σ → Ground κ α → σ × Ground κ α
  | [], s, g => (s, g)
  | (m, call) :: rest, s, g =>
    let r := d.perform m s g call
    d.afterAll rest r.state r.ground

/-- What calls lead to is reached by a run. -/
theorem Cache.Run.afterAll {d : Cache κ α σ} {s₀ s : σ} {g₀ g : Ground κ α}
    {past : List (Cache.Record κ α)} (h : d.Run s₀ g₀ past s g)
    (calls : List (Moment × Cache.Call κ α)) :
    ∃ past', d.Run s₀ g₀ past' (d.afterAll calls s g).1 (d.afterAll calls s g).2 := by
  induction calls generalizing past s g with
  | nil => exact ⟨past, h⟩
  | cons x calls ih => exact ih (h.call x.1 x.2)

namespace Cache.Twins

variable {d : Cache κ α σ} {gone : Nat → Bool} {R : σ → Ground κ α → σ → Ground κ α → Prop}
  {s s' : σ} {g g' : Ground κ α}

theorem perform (H : d.Twins gone R) {m : Moment} (hm : m.Spares gone) {c : Call κ α}
    (hc : ∀ n, c.serial? = some n → gone n = false) (h : R s g s' g') (hlevel : g.Level gone g') :
    (d.perform m s g c).Twin gone R (d.perform m s' g' c) := by
  cases c with
  | put k serial v =>
    obtain ⟨ha, hlevel, hrelated⟩ := H.put (c := ⟨⟨serial, .plain v⟩, none⟩) hm (hc serial rfl) h
      hlevel
    exact ⟨congrArg Answer.written ha, hlevel, hrelated⟩
  | get k =>
    obtain ⟨ha, hlevel, hrelated⟩ := H.get hm h hlevel
    exact ⟨congrArg Answer.looked ha, hlevel, hrelated⟩
  | resume k gate w =>
    obtain ⟨ha, hlevel, hrelated⟩ := H.resume hm h hlevel
    exact ⟨congrArg Answer.looked ha, hlevel, hrelated⟩
  | remove k =>
    obtain ⟨ha, hlevel, hrelated⟩ := H.remove hm h hlevel
    exact ⟨congrArg Answer.removed ha, hlevel, hrelated⟩
  | clear =>
    obtain ⟨-, hlevel, hrelated⟩ := H.clear hm h hlevel
    exact ⟨rfl, hlevel, hrelated⟩
  | size =>
    obtain ⟨ha, hlevel, hrelated⟩ := H.size hm h hlevel
    exact ⟨congrArg Answer.counted ha, hlevel, hrelated⟩
  | release k =>
    obtain ⟨-, hlevel, hrelated⟩ := H.release hm h hlevel
    exact ⟨rfl, hlevel, hrelated⟩

/-- Twins give the same answers to any calls that take up nothing that is gone, and stay twins. -/
theorem run (H : d.Twins gone R) {calls : List (Moment × Call κ α)} (hcalls : Spare gone calls)
    (h : R s g s' g') (hlevel : g.Level gone g') :
    d.answers calls s' g' = d.answers calls s g ∧
      (d.afterAll calls s g).2.Level gone (d.afterAll calls s' g').2 ∧
      R (d.afterAll calls s g).1 (d.afterAll calls s g).2 (d.afterAll calls s' g').1
        (d.afterAll calls s' g').2 := by
  induction calls generalizing s g s' g' with
  | nil => exact ⟨rfl, hlevel, h⟩
  | cons x calls ih =>
    obtain ⟨hm, hc⟩ := hcalls x List.mem_cons_self
    obtain ⟨ha, hlevel, hrelated⟩ := H.perform hm hc h hlevel
    obtain ⟨hanswers, hafter⟩ := ih (fun y hy => hcalls y (List.mem_cons_of_mem x hy)) hrelated
      hlevel
    refine ⟨?_, hafter⟩
    rw [answers, answers, ha, hanswers]

end Cache.Twins

/-! ## Stacks of layers -/

section Stacks

variable [DecidableEq κ]

/-- States of a layer of a kind that are treated alike. -/
def Kind.Twin : (kind : Kind) → kind.State κ → kind.State κ → Prop
  | .lru, r, r' => Recency.Twin r r'
  | .latching, t, t' => Gate.Twin t t'
  | _, s, s' => s = s'

/-- States of a stack that are treated alike: the states of its layers are, those of a reclaiming
layer by `L`, and the base stores are the same where no layer reclaims. -/
def Stack.Alike (L : Leasing κ × Unit → Ground κ α → Leasing κ × Unit → Ground κ α → Prop)
    (base : Nat) : (kinds : List Kind) → Stack κ kinds → Ground κ α → Stack κ kinds →
      Ground κ α → Prop
  | [], _, g, _, g' => g.SameStore base g'
  | .leasing :: _, s, g, s', g' => L (s.1, ()) g (s'.1, ()) g'
  | kind :: kinds, s, g, s', g' =>
    kind.Twin s.1 s'.1 ∧ Stack.Alike L base kinds s.2 g s'.2 g'

/-- The layers of a stack that keep latches, the outermost one first. -/
def Stack.gates : (kinds : List Kind) → Stack κ kinds → List (Gate κ)
  | [], _ => []
  | .latching :: kinds, s => (s.1 : Gate κ) :: gates kinds s.2
  | _ :: kinds, s => gates kinds s.2

variable {L : Leasing κ × Unit → Ground κ α → Leasing κ × Unit → Ground κ α → Prop}
  {gone : Nat → Bool} {m : Moment} {σ : Type} {d : Cache κ α σ}
  {R : σ → Ground κ α → σ → Ground κ α → Prop} {base : Nat} {kinds : List Kind}

omit [DecidableEq κ] in
theorem Stack.alike_cons {kind : Kind} (h : kind ≠ .leasing) :
    Stack.Alike L base (kind :: kinds) = Beside kind.Twin (Stack.Alike L base kinds) := by
  cases kind
  case leasing => exact absurd rfl h
  all_goals rfl

variable [Codec α]

theorem Kind.twins (H : d.Twins gone R) {kind : Kind} (h : kind ≠ .leasing) :
    (kind.onto d).Twins gone (Beside kind.Twin R) := by
  cases kind
  case lru => exact Recency.twins H
  case fifo => exact WriteQueue.twins H
  case leasing => exact absurd rfl h
  case window => exact Window.twins H
  case packing => exact Packing.twins H
  case counting => exact HitCount.twins H
  case passing => exact Passing.twins H
  case latching => exact Gate.twins H

theorem Kind.swaps (H : d.Swaps m R) {kind : Kind} (h : kind ≠ .leasing) :
    (kind.onto d).Swaps m (Beside kind.Twin R) := by
  cases kind
  case lru => exact Recency.swaps H
  case fifo => exact WriteQueue.swaps H
  case leasing => exact absurd rfl h
  case window => exact Window.swaps H
  case packing => exact Packing.swaps H
  case counting => exact HitCount.swaps H
  case passing => exact Passing.swaps H
  case latching => exact Gate.swaps H

namespace Stack

theorem twins (id : String) (base : Nat) (h : .leasing ∉ kinds.dropLast) (gone : Nat → Bool) :
    (Stack.cache id base kinds : Cache κ α _).Twins gone
      (Alike (Leasing.Twin base gone) base kinds) := by
  induction kinds with
  | nil => exact Cache.twins_bare id base gone
  | cons kind kinds ih =>
    rcases Kind.leasing_cons h with ⟨rfl, rfl⟩ | ⟨hkind, hbelow⟩
    · exact Leasing.twins id base gone
    · rw [alike_cons hkind]
      exact Kind.twins (ih hbelow) hkind

theorem swaps (id : String) (base : Nat) (h : .leasing ∉ kinds.dropLast) (m : Moment) :
    (Stack.cache id base kinds : Cache κ α _).Swaps m
      (Alike (Leasing.Settled base m) base kinds) := by
  induction kinds with
  | nil => exact Cache.swaps_bare id base m
  | cons kind kinds ih =>
    rcases Kind.leasing_cons h with ⟨rfl, rfl⟩ | ⟨hkind, hbelow⟩
    · exact Leasing.swaps id base m
    · rw [alike_cons hkind]
      exact Kind.swaps (ih hbelow) hkind

end Stack

/-! ## Where states are alike to themselves -/

/-- The cells are stored under the leases of their keys, if the layer reclaims. -/
def Kind.Owned (base : Nat) (g : Ground κ α) : (kind : Kind) → kind.State κ → Prop
  | .leasing, l => (Leasing.shelf base l g).Owned
  | _, _ => True

omit [Codec α] in
/-- A new layer over an empty base store has no cells. -/
theorem Layer.owned_initial {g : Ground κ α} (h : g.store base = .empty) (w : Wiring) (m : Moment)
    (l : Layer) : Kind.Owned base g l.kind (l.initial κ w m) := by
  have hempty : ∀ l : Leasing κ, l.registry = .empty → (l.shelf base g).Owned := by
    intro l hl
    rw [Leasing.shelf, h]
    exact ⟨hl ▸ Table.distinct_empty, Table.distinct_empty, fun e he => absurd he List.not_mem_nil⟩
  cases l
  case soft => exact hempty _ rfl
  case weak => exact hempty _ rfl
  all_goals trivial

namespace Stack

/-- Over a base store the cells stay stored under the leases of their keys. -/
theorem upholds_owned (id : String) (base : Nat) (h : .leasing ∉ kinds.dropLast) :
    (Stack.cache id base kinds : Cache κ α _).Upholds fun s g =>
      All (Kind.Owned base g) kinds s := by
  induction kinds with
  | nil => exact Cache.upholds_bare id base
  | cons kind kinds ih =>
    rcases Kind.leasing_cons h with ⟨rfl, rfl⟩ | ⟨hkind, hbelow⟩
    · have hcache : (Stack.cache id base [.leasing] : Cache κ α (Leasing κ × Unit)) =
          Leasing.onto (Cache.bare id base) := congrArg Leasing.onto rfl
      have howned := hcache.symm ▸ Leasing.upholds_owned (κ := κ) (α := α) id base
      exact howned.congr fun _ _ => and_iff_left trivial
    · refine (Kind.upholds (ih hbelow) hkind).congr fun s g => and_iff_right ?_
      cases kind <;> trivial

omit [Codec α] in
theorem alike_self {s : Stack κ kinds} {g : Ground κ α} (hsound : Sound kinds s)
    (howned : All (Kind.Owned base g) kinds s) (htidy : g.Tidy) (m : Moment) :
    Alike (Leasing.Settled base m) base kinds s g s g := by
  induction kinds with
  | nil => exact rfl
  | cons kind kinds ih =>
    have hbelow := ih hsound.2 howned.2
    cases kind
    case lru => exact ⟨⟨hsound.1.1, hsound.1.1, rfl, rfl⟩, hbelow⟩
    case leasing => exact ⟨howned.1, howned.1, htidy, htidy, rfl, rfl⟩
    case latching => exact ⟨.refl _, hbelow⟩
    all_goals exact ⟨rfl, hbelow⟩

/-- Whether nobody holds an instance with a serial number below `first`: neither the layers that
reclaim, nor a cell, nor somebody outside. -/
def isGone (m : Moment) (first : Nat) (kinds : List Kind) (s : Stack κ kinds) (g : Ground κ α)
    (n : Nat) : Bool :=
  decide (n < first) && !((links kinds s).contains n || m.held n || g.keeps n)

omit [Codec α] in
/-- What is the same after a sweep is the same apart from what is gone. -/
theorem twin_of_settled {m m' : Moment} (hheld : ∀ n, m.held n = true → m'.held n = true)
    {first : Nat} {s s' : Stack κ kinds} {g g' : Ground κ α}
    (hfirst : ∀ e ∈ (g.store base).entries, e.2.item.serial < first)
    (hfirst' : ∀ e ∈ (g'.store base).entries, e.2.item.serial < first)
    (hkinds : .leasing ∉ kinds.dropLast)
    (h : Alike (Leasing.Settled base m') base kinds s g s' g') :
    Alike (Leasing.Twin base (isGone m first kinds s g)) base kinds s g s' g' := by
  induction kinds with
  | nil => exact h
  | cons kind kinds ih =>
    rcases Kind.leasing_cons hkinds with ⟨rfl, rfl⟩ | ⟨hkind, hbelow⟩
    · have hgone : isGone m first [.leasing] s g =
          fun n => decide (n < first) && !Leasing.holds s.1 m g n := by
        funext n
        simp [isGone, links, Leasing.holds]
      rw [hgone]
      exact Leasing.Settled.twin h hheld hfirst hfirst'
    · have hgone : isGone m first (kind :: kinds) s g = isGone m first kinds s.2 g := by
        cases kind
        case leasing => exact absurd rfl hkind
        all_goals rfl
      rw [alike_cons hkind] at h ⊢
      exact ⟨h.1, hgone ▸ ih hbelow h.2⟩

omit [DecidableEq κ] [Codec α] in
/-- Where states are treated alike, the layers have the same latches. -/
theorem gates_of_alike {s s' : Stack κ kinds} {g g' : Ground κ α}
    (hkinds : .leasing ∉ kinds.dropLast) (h : Alike L base kinds s g s' g') :
    List.Forall₂ Gate.Twin (gates kinds s) (gates kinds s') := by
  induction kinds with
  | nil => exact .nil
  | cons kind kinds ih =>
    rcases Kind.leasing_cons hkinds with ⟨rfl, rfl⟩ | ⟨hkind, hbelow⟩
    · exact .nil
    · rw [alike_cons hkind] at h
      have hgates := ih hbelow h.2
      cases kind
      case latching => exact .cons h.1 hgates
      all_goals exact hgates

end Stack

end Stacks

/-! ## Commits and rollbacks -/

namespace Buffer

section Orders

variable {d : Cache κ α σ} {m : Moment} {R : σ → Ground κ α → σ → Ground κ α → Prop} {s : σ}
  {g : Ground κ α}

theorem writeAll_leads (m : Moment) (writes : List (κ × Item α)) {s' : σ} {g' : Ground κ α}
    (h : d.Leads s g s' g') :
    d.Leads s g (writeAll d m writes s' g').state (writeAll d m writes s' g').ground := by
  induction writes generalizing s' g' with
  | nil => exact h
  | cons w writes ih =>
    have hput := h.put m w.1 { item := w.2 }
    simp only [writeAll]
    cases (d.put m w.1 { item := w.2 } s' g').answer with
    | error e => exact hput
    | ok _ => exact ih hput

variable [DecidableEq κ]

/-- Where removals may change places, a commit may visit the missed keys in any order. -/
theorem commit_alike {b : Buffer κ α} (H : d.Swaps (m.holding b.serials) R)
    (hself : ∀ s' g', d.Leads s g s' g' → R s' g' s' g') {misses : List κ}
    (hmisses : misses.Perm b.misses) :
    let r := b.commit d m s g
    let r' := commit d m { b with misses := misses } s g
    r'.answer = r.answer ∧ R r.state.2 r.ground r'.state.2 r'.ground := by
  have hunwritten : b.unwritten.Perm (unwritten { b with misses := misses }) :=
    (hmisses.filter _).symm
  have hcleared : ∀ p : σ × Ground κ α,
      p = (if b.clearing then
        ((d.clear (m.holding b.serials) s g).state, (d.clear (m.holding b.serials) s g).ground)
        else (s, g)) → d.Leads s g p.1 p.2 := by
    rintro p rfl
    split
    · exact .clear _ .refl
    · exact .refl
  simp only [commit, show serials { b with misses := misses } = b.serials from rfl]
  generalize hp : (if b.clearing then
    ((d.clear (m.holding b.serials) s g).state, (d.clear (m.holding b.serials) s g).ground)
    else (s, g)) = p
  have hwritten := writeAll_leads (m.holding b.serials) b.writes (hcleared p hp.symm)
  cases (writeAll d (m.holding b.serials) b.writes p.1 p.2).answer with
  | error e => exact ⟨rfl, hself _ _ hwritten⟩
  | ok _ => exact ⟨rfl, H.likeness.stores (H.removeAll hunwritten (hself _ _ hwritten)) rfl rfl⟩

omit [DecidableEq κ] in
/-- Where releases may change places, a rollback may visit the missed keys in any order. -/
theorem rollback_alike {b : Buffer κ α} (H : d.Swaps m R) (hself : R s g s g) {misses : List κ}
    (hmisses : misses.Perm b.misses) :
    let r := b.rollback d m s g
    let r' := rollback d m { b with misses := misses } s g
    R r.state.2 r.ground r'.state.2 r'.ground := H.releaseAll hmisses.symm hself

end Orders

end Buffer

/-! ## Chains -/

namespace Chain

variable [DecidableEq κ] [Codec α]

/-- Calls on the chain go the same from both points: they give the same answers, tell the same, and
leave the same latches. -/
structure SameCourse (c : Chain κ) (calls : List (Moment × Cache.Call κ α))
    (s : Stack κ c.kinds) (g : Ground κ α) (s' : Stack κ c.kinds) (g' : Ground κ α) : Prop where
  answers : c.cache.answers calls s' g' = c.cache.answers calls s g
  told : (c.cache.afterAll calls s' g').2.told = (c.cache.afterAll calls s g).2.told
  latches : List.Forall₂ Gate.Twin (Stack.gates c.kinds (c.cache.afterAll calls s g).1)
    (Stack.gates c.kinds (c.cache.afterAll calls s' g').1)

/-- The ground with an empty journal, which gives serial numbers from `first` on. -/
def anew (g : Ground κ α) (first : Nat) : Ground κ α := { g with issued := first, journal := [] }

/-- No calls made after the moment `m` tell two points of a chain apart, if they take up no instance
that is gone and new instances get numbers above those that are stored, the same ones from both
points. -/
def Indistinguishable (c : Chain κ) (m : Moment) (s : Stack κ c.kinds) (g : Ground κ α)
    (s' : Stack κ c.kinds) (g' : Ground κ α) : Prop :=
  ∀ first, (∀ e ∈ (g.store c.base).entries ++ (g'.store c.base).entries, e.2.item.serial < first) →
    ∀ calls : List (Moment × Cache.Call κ α),
      Cache.Spare (Stack.isGone m first c.kinds s g) calls →
        c.SameCourse calls s (anew g first) s' (anew g' first)

theorem indistinguishable_of_settled {c : Chain κ} (hkinds : .leasing ∉ c.kinds.dropLast)
    {m m' : Moment} (hheld : ∀ n, m.held n = true → m'.held n = true) {s s' : Stack κ c.kinds}
    {g g' : Ground κ α}
    (h : Stack.Alike (Leasing.Settled c.base m') c.base c.kinds s g s' g') :
    c.Indistinguishable m s g s' g' := by
  intro first hfirst calls hcalls
  have htwin := Stack.twin_of_settled hheld (fun e he => hfirst e (List.mem_append_left _ he))
    (fun e he => hfirst e (List.mem_append_right _ he)) hkinds h
  have H := Stack.twins (κ := κ) (α := α) c.id c.base hkinds
    (Stack.isGone m first c.kinds s g)
  have hlevel : (anew g first).Level (Stack.isGone m first c.kinds s g) (anew g' first) := by
    refine ⟨rfl, rfl, fun n hn => ?_⟩
    simp only [Stack.isGone, Bool.and_eq_true, decide_eq_true_eq] at hn
    exact hn.1
  have hanew : Stack.Alike (Leasing.Twin c.base (Stack.isGone m first c.kinds s g)) c.base c.kinds s
      (anew g first) s' (anew g' first) := H.stores htwin rfl rfl
  obtain ⟨hanswers, hafter, hrelated⟩ := H.run hcalls hanew hlevel
  exact ⟨hanswers, hafter.told, Stack.gates_of_alike hkinds hrelated⟩

/-- Commits that visit the missed keys in different orders give the same answer and lead to points
of the chain that no later calls tell apart, and so do rollbacks. -/
theorem order_of_misses_is_hidden {id : String} {base : Nat} {signal : Signal} {layers : List Layer}
    {m₀ : Moment} {g₀ g₁ : Ground κ α} {c : Chain κ}
    (hbuild : build id base signal layers m₀ g₀ = (g₁, .ok c)) (hnew : g₀.store base = .empty)
    {past : List (Cache.Record κ α)} {s : Stack κ c.kinds} {g : Ground κ α}
    (hrun : c.cache.Run c.stack g₁ past s g) (htidy : g.Tidy) (m : Moment) (b : Buffer κ α)
    {misses : List κ} (hmisses : misses.Perm b.misses) :
    let b' := { b with misses := misses }
    (b'.commit c.cache m s g).answer = (b.commit c.cache m s g).answer ∧
      c.Indistinguishable m (b.commit c.cache m s g).state.2 (b.commit c.cache m s g).ground
        (b'.commit c.cache m s g).state.2 (b'.commit c.cache m s g).ground ∧
      c.Indistinguishable m (b.rollback c.cache m s g).state.2 (b.rollback c.cache m s g).ground
        (b'.rollback c.cache m s g).state.2 (b'.rollback c.cache m s g).ground := by
  have hbuilt := isBuilt_of_build hbuild
  obtain ⟨hvalid, -⟩ := eq_compose_of_build hbuild
  have hkinds : .leasing ∉ c.kinds.dropLast :=
    hbuilt.kinds_eq ▸ leasing_not_mem_of_validate hvalid
  have hempty : g₁.store c.base = .empty := by rw [hbuilt.store_eq, hbuilt.base_eq, hnew]
  have hnewOwned : Stack.All (Kind.Owned c.base g₁) c.kinds c.stack :=
    hbuilt.all _ fun l _ _ w m => l.owned_initial hempty w m
  have hsound := Stack.upholds_sound (κ := κ) (α := α) c.id c.base c.kinds
  have howned := Stack.upholds_owned (κ := κ) (α := α) c.id c.base hkinds
  have hs := hrun.upholds hsound hbuilt.sound
  have hs' := hrun.upholds howned hnewOwned
  -- every point that the chain can be at is alike to itself
  have hself : ∀ m s' g', c.cache.Leads s g s' g' →
      Stack.Alike (Leasing.Settled c.base m) c.base c.kinds s' g' s' g' := by
    intro m s' g' hleads
    have hreaches := (Stack.reaching c.id c.base c.kinds).leads hleads
    exact Stack.alike_self (hsound.sustains.leads hleads hs) (howned.sustains.leads hleads hs')
      (hreaches.tidy htidy) m
  have H := fun m => Stack.swaps (κ := κ) (α := α) c.id c.base hkinds m
  obtain ⟨hanswer, hcommit⟩ := Buffer.commit_alike (H (m.holding b.serials))
    (hself (m.holding b.serials)) hmisses
  have hrollback := Buffer.rollback_alike (H m) (hself m s g .refl) hmisses
  refine ⟨hanswer, indistinguishable_of_settled hkinds (fun n hn => ?_) hcommit,
    indistinguishable_of_settled hkinds (fun _ hn => hn) hrollback⟩
  rw [Moment.held_holding, hn, Bool.or_true]

namespace Orders

def layers : List Layer := [.soft 4 8, .lru 3, .blocking none]

/-- A new base store, after a chain with these layers was built over it. -/
def ground : Ground Nat String := Ground.note {} (.built "users" (Layer.describe layers))

def chain : Chain Nat :=
  ⟨"users", 0, [.latching, .lru, .leasing],
    ({ timeout := none }, Recency.ofCapacity 3,
      { retention := .soft 8, signal := .silent, seen := 0, hardBound := 4 }, ())⟩

/-- A thread misses four keys, and another one writes two of them. -/
def calls : List (Moment × Cache.Call Nat String) :=
  [({}, .get 1), ({}, .get 2), ({}, .get 3), ({}, .get 4),
    ({ thread := "other" }, .put 1 0 "a"), ({ thread := "other" }, .put 2 1 "b")]

def point : Stack Nat chain.kinds × Ground Nat String :=
  chain.cache.afterAll calls chain.stack ground

def buffer : Buffer Nat String := { misses := [1, 2, 3, 4] }

/-- What the commit leaves of the layers with latches and with a bound if it visits the missed keys
in this order. -/
def left (misses : List Nat) : Gate Nat × Recency Nat :=
  let r := Buffer.commit chain.cache {} { buffer with misses := misses } point.1 point.2
  (r.state.2.1, r.state.2.2.1)

/-- Two orders of the missed keys free the slots of the index and open the latches in different
orders, and no later call tells. -/
theorem reversed_misses_are_hidden :
    build "users" 0 .silent layers {} {} = (ground, .ok chain) ∧
      (left [1, 2, 3, 4]).2.free = [1, 0] ∧ (left [4, 3, 2, 1]).2.free = [0, 1] ∧
      (left [1, 2, 3, 4]).1.opened = [3, 2, 1, 0] ∧ (left [4, 3, 2, 1]).1.opened = [2, 3, 1, 0] ∧
      [4, 3, 2, 1].Perm buffer.misses ∧ point.2.Tidy ∧
      let b' := { buffer with misses := [4, 3, 2, 1] }
      chain.Indistinguishable {} (buffer.commit chain.cache {} point.1 point.2).state.2
        (buffer.commit chain.cache {} point.1 point.2).ground
        (Buffer.commit chain.cache {} b' point.1 point.2).state.2
        (Buffer.commit chain.cache {} b' point.1 point.2).ground := by
  have hbuild : build "users" 0 .silent layers {} {} = (ground, .ok chain) := rfl
  obtain ⟨past, hrun⟩ := Cache.Run.start.afterAll (d := chain.cache) calls
  have hmisses : [4, 3, 2, 1].Perm buffer.misses := by decide
  have htidy : point.2.Tidy := by
    rw [Ground.Tidy, Table.Distinct]
    decide +kernel
  obtain ⟨-, hcommit, -⟩ := order_of_misses_is_hidden hbuild rfl hrun htidy {} buffer hmisses
  refine ⟨hbuild, ?_, ?_, ?_, ?_, hmisses, htidy, hcommit⟩ <;> decide +kernel

end Orders

end Chain

end LayeredCache
