import LayeredCache.Proofs.Resolution
import LayeredCache.Session.Sample

/-!
# Which lists of layers become chains

Building looks at a list of layers as a whole before it stacks the first one. What it then accepts
can be stacked: no layer comes to lie where it is refused, so the failure of stacking is one that no
caller ever sees. The chain that results has the layers of the list with their settings, in order,
and each of them reports the identifier that the chain was built with.

## Main definitions

* `Layer.Stackable` — the lists of layers that can be stacked, place by place.
* `Chain.layers` — the layers that a chain consists of, read off its states.

## Main statements

* `Chain.build_accepts_stackable` — building accepts exactly the lists that can be stacked, never
  fails while it stacks, and gives a chain of the layers that were asked for.
-/

namespace LayeredCache

variable {κ α : Type}

/-! ## Lists that can be stacked -/

/-- A list of layers, written from the base store outward, that can be stacked under an
identifier. -/
structure Layer.Stackable (id : String) (layers : List Layer) : Prop where
  named : id ≠ ""
  /-- A layer that reclaims lies on the base store. -/
  soft : ∀ i bound retention, layers[i]? = some (.soft bound retention) → i = 0
  weak : ∀ i bound every, layers[i]? = some (.weak bound every) → i = 0
  serialized : layers.count .serialized ≤ 1
  lru_pos : ∀ capacity, .lru capacity ∈ layers → 0 < capacity
  fifo_pos : ∀ capacity, .fifo capacity ∈ layers → 0 < capacity
  soft_pos : ∀ bound retention, .soft bound retention ∈ layers → 0 < bound ∧ 0 < retention
  weak_pos : ∀ bound every, .weak bound every ∈ layers → 0 < bound

theorem Layer.isReclaiming_eq_true_iff {l : Layer} :
    l.isReclaiming = true ↔
      (∃ bound retention, l = .soft bound retention) ∨ ∃ bound every, l = .weak bound every := by
  cases l <;> simp [isReclaiming, kind]

/-- Only the first layer reclaims exactly if every layer that does has the place zero. -/
theorem Layer.reclaiming_drop_iff {layers : List Layer} :
    (∀ l ∈ layers.drop 1, l.isReclaiming = false) ↔
      ∀ i l, layers[i]? = some l → l.isReclaiming = true → i = 0 := by
  constructor
  · intro h i l hl hreclaims
    cases i with
    | zero => rfl
    | succ i =>
      have hmem : l ∈ layers.drop 1 := by
        refine List.mem_of_getElem? (i := i) ?_
        rw [List.getElem?_drop, Nat.add_comm, hl]
      rw [h l hmem] at hreclaims
      cases hreclaims
  · intro h l hl
    obtain ⟨i, hi⟩ := List.mem_iff_getElem?.mp hl
    rw [List.getElem?_drop] at hi
    by_contra hreclaims
    have hzero := h (1 + i) l hi (by simpa using hreclaims)
    omega

/-- The layers that pass the check, under an identifier, are those that can be stacked. -/
theorem Layer.stackable_iff_validate {id : String} {layers : List Layer} :
    Layer.Stackable id layers ↔ id ≠ "" ∧ validate (κ := κ) id layers = .ok () := by
  rw [Chain.validate_eq_ok_iff, reclaiming_drop_iff]
  constructor
  · intro h
    refine ⟨h.named, ?_, h.serialized, ?_⟩
    · intro i l hl hreclaims
      rcases isReclaiming_eq_true_iff.mp hreclaims with
        ⟨bound, retention, rfl⟩ | ⟨bound, every, rfl⟩
      · exact h.soft i bound retention hl
      · exact h.weak i bound every hl
    · intro l hl
      cases l with
      | lru capacity => simpa [hasZeroCapacity] using Nat.ne_of_gt (h.lru_pos capacity hl)
      | fifo capacity => simpa [hasZeroCapacity] using Nat.ne_of_gt (h.fifo_pos capacity hl)
      | soft bound retention =>
        obtain ⟨hbound, hretention⟩ := h.soft_pos bound retention hl
        simpa [hasZeroCapacity] using ⟨Nat.ne_of_gt hbound, Nat.ne_of_gt hretention⟩
      | weak bound every => simpa [hasZeroCapacity] using Nat.ne_of_gt (h.weak_pos bound every hl)
      | _ => rfl
  · rintro ⟨hid, hfirst, hcount, hzero⟩
    exact {
      named := hid
      soft := fun i bound retention hl => hfirst i _ hl rfl
      weak := fun i bound every hl => hfirst i _ hl rfl
      serialized := hcount
      lru_pos := fun capacity hl => by
        simpa [hasZeroCapacity, Nat.pos_iff_ne_zero] using hzero _ hl
      fifo_pos := fun capacity hl => by
        simpa [hasZeroCapacity, Nat.pos_iff_ne_zero] using hzero _ hl
      soft_pos := fun bound retention hl => by
        simpa [hasZeroCapacity, Nat.pos_iff_ne_zero] using hzero _ hl
      weak_pos := fun bound every hl => by
        simpa [hasZeroCapacity, Nat.pos_iff_ne_zero] using hzero _ hl }

/-! ## The layers of a chain -/

/-- The layer that a state belongs to, with its settings. -/
def Kind.layer : (kind : Kind) → kind.State κ → Layer
  | .lru, (s : Recency κ) => .lru s.capacity
  | .fifo, (s : WriteQueue κ) => .fifo s.capacity
  | .leasing, (s : Leasing κ) =>
    match s.retention with
    | .soft limit => .soft s.hardBound limit
    | .weak every _ => .weak s.hardBound every
  | .window, (s : Window) => .scheduled s.interval
  | .packing, _ => .serialized
  | .counting, _ => .logging
  | .passing, _ => .synchronized
  | .latching, (s : Gate κ) => .blocking s.timeout

/-- A new layer has the settings that it was made with. -/
theorem Layer.layer_initial (l : Layer) (w : Wiring) (m : Moment) :
    l.kind.layer (l.initial κ w m) = l := by cases l <;> rfl

/-- The layers of a stack, the outermost one first. -/
def Stack.layers : (kinds : List Kind) → Stack κ kinds → List Layer
  | [], _ => []
  | kind :: kinds, s => kind.layer s.1 :: layers kinds s.2

namespace Chain

/-- The layers that a chain consists of, written from the base store outward. -/
def layers (c : Chain κ) : List Layer := (Stack.layers c.kinds c.stack).reverse

theorem layers_wrap (c : Chain κ) (l : Layer) (w : Wiring) (m : Moment) :
    (c.wrap l w m).layers = c.layers ++ [l] := by
  show (l.kind.layer (l.initial κ w m) :: Stack.layers c.kinds c.stack).reverse = _
  rw [l.layer_initial, List.reverse_cons]
  rfl

theorem layers_compose (c : Chain κ) (m : Moment) (layers : List (Layer × Wiring)) :
    (c.compose m layers).layers = c.layers ++ layers.map (·.1) := by
  induction layers generalizing c with
  | nil => simp [compose]
  | cons l layers ih =>
    have hrest := ih (c.wrap l.1 l.2 m)
    rw [layers_wrap, List.append_assoc] at hrest
    exact hrest

/-! ## Failures of building -/

/-- The failure to put a layer where it may not lie. -/
def misplaced (name : String) (l : Layer) : CacheError κ :=
  .invalidChain name (l.text ++ " cannot be stacked at this position")

/-- What building a list of layers answers: a missing identifier and an invalid list are told, and
everything else is stacked. -/
theorem build_cases (id : String) (base : Nat) (signal : Signal) (layers : List Layer) (m : Moment)
    (g : Ground κ α) :
    (id = "" ∧ (build id base signal layers m g).2 = .error .missingId) ∨
      (∃ e, id ≠ "" ∧ Layer.validate id layers = .error e ∧
        (build id base signal layers m g).2 = .error e) ∨
      (id ≠ "" ∧ Layer.validate (κ := κ) id layers = .ok () ∧
        (build id base signal layers m g).2 =
          .ok ((bare id base).compose m (layers.map fun l => (l, { signal := signal })))) := by
  by_cases hid : id.isEmpty = true
  · left
    rw [build, if_pos hid]
    exact ⟨String.isEmpty_iff.mp hid, rfl⟩
  · have hne : id ≠ "" := fun h => hid (String.isEmpty_iff.mpr h)
    cases hvalid : Layer.validate (κ := κ) id layers with
    | error e =>
      right; left
      rw [build, if_neg hid, hvalid]
      exact ⟨e, hne, rfl, rfl⟩
    | ok u =>
      right; right
      rw [build_of_validate (Bool.eq_false_iff.mpr hid) base signal hvalid m g]
      exact ⟨hne, rfl, rfl⟩

/-- The text of the failure to put a layer somewhere ends as no text of an invalid list does. -/
theorem validate_ne_misplaced {id name : String} {layers : List Layer} (l : Layer) :
    Layer.validate (κ := κ) id layers ≠ .error (misplaced name l) := by
  have hlast : ∀ reason : String, reason.toList.getLast? ≠ some 'n' →
      (.error (.invalidChain id reason) : Except (CacheError κ) Unit) ≠
        .error (misplaced name l) := by
    intro reason hreason h
    injection h with h
    injection h with _ htext
    rw [htext] at hreason
    simp [List.getLast?_append] at hreason
  unfold Layer.validate
  split
  · exact hlast _ (by decide)
  · split
    · exact hlast _ (by decide)
    · split
      · exact hlast _ (by decide)
      · exact nofun

theorem build_ne_misplaced (id : String) (base : Nat) (signal : Signal) (layers : List Layer)
    (m : Moment) (g : Ground κ α) (name : String) (l : Layer) :
    (build id base signal layers m g).2 ≠ .error (misplaced name l) := by
  rcases build_cases id base signal layers m g with ⟨-, h⟩ | ⟨e, -, hvalid, h⟩ | ⟨-, -, h⟩
  · rw [h]
    exact nofun
  · rw [h]
    intro hmisplaced
    injection hmisplaced with he
    exact validate_ne_misplaced l (he ▸ hvalid)
  · rw [h]
    exact nofun

end Chain

/-- A property that is refused is told as such. -/
theorem Eviction.fault?_ne_misplaced {e : Eviction} {id id' name value : String} (l : Layer) :
    e.fault? (κ := κ) id name value ≠ some (Chain.misplaced id' l) := by
  unfold fault?
  split
  · split <;> exact nofun
  · exact nofun

/-- The layers of a builder are never put where they may not lie. -/
theorem Builder.build_ne_misplaced (b : Builder) (base : Nat) (m : Moment) (g : Ground κ α)
    (name : String) (l : Layer) : (b.build base m g).2 ≠ .error (Chain.misplaced name l) := by
  unfold Builder.build
  rw [layers_eq]
  by_cases hid : b.id.isEmpty = true
  · rw [if_pos hid]
    exact nofun
  · rw [if_neg hid]
    cases hfault : b.eviction.firstFault? (κ := κ) b.id b.properties.entries with
    | some e =>
      intro h
      obtain ⟨property, -, hproperty⟩ := List.exists_of_findSome?_eq_some hfault
      injection h with h
      exact Eviction.fault?_ne_misplaced l (h ▸ hproperty)
    | none => exact Chain.build_ne_misplaced _ _ _ _ _ _ name l

namespace Chain

/-- Building accepts exactly the lists of layers that can be stacked. Neither for a list of layers
nor for the settings of a builder does it fail because a layer comes to lie where it may not. The
chain has the layers of the list, each with its settings, in order over one base store, and every
one of them, with `i` layers outside it taken off, reports the identifier. -/
theorem build_accepts_stackable [DecidableEq κ] [Codec α] (id : String) (base : Nat)
    (signal : Signal) (layers : List Layer) (m : Moment) (g : Ground κ α) :
    ((∃ c, (build id base signal layers m g).2 = .ok c) ↔ Layer.Stackable id layers) ∧
      (∀ name l, (build id base signal layers m g).2 ≠ .error (misplaced name l)) ∧
      (∀ (b : Builder) name l, (b.build base m g).2 ≠ .error (misplaced name l)) ∧
      ∀ c, (build id base signal layers m g).2 = .ok c →
        c.layers = layers ∧ c.base = base ∧ ∀ i,
          (Stack.cache c.id c.base (c.kinds.drop i) : Cache κ α _).id = id ∧
            (Stack.cache c.id c.base (c.kinds.drop i) : Cache κ α _).base = base := by
  refine ⟨?_, build_ne_misplaced id base signal layers m g,
    fun b => b.build_ne_misplaced base m g, ?_⟩
  · rw [Layer.stackable_iff_validate (κ := κ)]
    rcases build_cases id base signal layers m g with
      ⟨rfl, h⟩ | ⟨e, -, hvalid, h⟩ | ⟨hid, hvalid, h⟩
    · simp [h]
    · simp [h, hvalid]
    · exact iff_of_true ⟨_, h⟩ ⟨hid, hvalid⟩
  · intro c hc
    rcases build_cases id base signal layers m g with ⟨-, h⟩ | ⟨e, -, -, h⟩ | ⟨-, -, h⟩
    · cases hc.symm.trans h
    · cases hc.symm.trans h
    · obtain rfl : c = _ := Except.ok.inj (hc.symm.trans h)
      refine ⟨?_, base_compose .., fun i => ?_⟩
      · rw [layers_compose, List.map_map]
        exact List.map_id' layers
      · rw [Stack.id_cache, Stack.base_cache, id_compose, base_compose]
        exact ⟨rfl, rfl⟩

/-! ## Layers on both sides of the border -/

namespace Bordered

def layers : List Layer :=
  [.soft 2 4, .fifo 3, .serialized, .lru 3, .logging, .blocking (some 30), .blocking none]

theorem stackable : Layer.Stackable "users" layers :=
  (Layer.stackable_iff_validate (κ := Nat)).mpr ⟨by decide, by decide⟩

/-- Bounded layers on both sides of the one that keeps bytes, and two with latches outside: the
list is accepted, and the cache below the latches reports the identifier too. -/
theorem layers_on_both_sides_accepted :
    ∃ c : Chain Nat, (build "users" 0 .silent layers {} ({} : Ground Nat Sample)).2 = .ok c ∧
      c.layers = layers ∧ c.base = 0 ∧
        (Stack.cache c.id c.base (c.kinds.drop 2) : Cache Nat Sample _).id = "users" := by
  obtain ⟨haccepts, -, -, hbuilt⟩ :=
    build_accepts_stackable (κ := Nat) (α := Sample) "users" 0 .silent layers {} {}
  obtain ⟨c, hc⟩ := haccepts.mpr stackable
  obtain ⟨hlayers, hbase, hid⟩ := hbuilt c hc
  exact ⟨c, hc, hlayers, hbase, (hid 2).1⟩

end Bordered

end Chain

end LayeredCache
