import LayeredCache.Proofs.Builder
import Mathlib.Data.List.Nodup
import Mathlib.Data.Option.Basic

/-!
# What the settings of a builder resolve to

The properties of a builder are applied in order, and the first one that is refused ends the
resolution: one that the eviction policy does not know, or one whose value is no positive count.
Otherwise every property replaces one parameter of the eviction layer, and what is then left to be
checked is the room of that layer. This is a question of the size alone as long as what a soft layer
retains by default, a multiple of the size, is a count; beyond that the multiple may come out as
zero.

## Main definitions

* `Eviction.fault?` — why a property is refused.
* `Builder.effectiveSize` — the size after all properties were applied.
* `Builder.RetentionFits` — what a soft cache retains unless told otherwise is a count.

## Main statements

* `Builder.layers_eq` — the layers of a builder, or the failure that comes first.
* `Builder.defaultRetention_eq_iff` — the sizes of which the multiple is a count.
* `Builder.build_eq` — what a builder builds, or the failure that comes first.
* `Builder.build_of_dvd` — the sizes that are refused because the multiple comes out as zero.
-/

namespace LayeredCache

variable {κ α : Type}

/-- The policy has a property of the name. -/
def Eviction.Knows (e : Eviction) (name : String) : Prop :=
  name = "size" ∨ name = "retention" ∧ e = .soft ∨ name = "collect_every" ∧ e = .weak

instance (e : Eviction) (name : String) : Decidable (e.Knows name) :=
  inferInstanceAs (Decidable (_ ∨ _))

/-- The count of at least one that a text gives between blanks. -/
def positiveCount? (value : String) : Option Nat :=
  (parseCount? (Text.trimBlank value)).filter (0 < ·)

/-- Why a property of the cache with the identifier is refused, if it is. -/
def Eviction.fault? (e : Eviction) (id name value : String) : Option (CacheError κ) :=
  if e.Knows name then
    if (positiveCount? value).isSome then none else some (.invalidProperty id name value)
  else some (.unknownProperty id name)

theorem Eviction.fault?_eq_none_iff {e : Eviction} {id name value : String} :
    e.fault? (κ := κ) id name value = none ↔ e.Knows name ∧ (positiveCount? value).isSome := by
  unfold fault?
  split
  · next hknows =>
    split
    · next hcount => simp [hknows, hcount]
    · next hcount => simp [hcount]
  · next hknows => simp [hknows]

/-- Why the first property that is refused is, if there is one. -/
def Eviction.firstFault? (e : Eviction) (id : String) (properties : List (String × String)) :
    Option (CacheError κ) :=
  properties.findSome? fun p => e.fault? id p.1 p.2

theorem Eviction.firstFault?_eq_none_iff {e : Eviction} {id : String}
    {properties : List (String × String)} :
    e.firstFault? (κ := κ) id properties = none ↔
      ∀ p ∈ properties, e.Knows p.1 ∧ (positiveCount? p.2).isSome := by
  simp only [firstFault?, List.findSome?_eq_none_iff, fault?_eq_none_iff]

theorem pos_of_positiveCount? {value : String} {n : Nat} (h : positiveCount? value = some n) :
    0 < n := by
  obtain ⟨-, hpos⟩ := Option.filter_eq_some_iff.mp h
  exact of_decide_eq_true hpos

theorem lt_of_positiveCount? {value : String} {n : Nat} (h : positiveCount? value = some n) :
    n < countLimit := by
  obtain ⟨hparse, -⟩ := Option.filter_eq_some_iff.mp h
  simp only [parseCount?, Option.ite_none_left_eq_some, Option.ite_none_right_eq_some] at hparse
  obtain ⟨-, hlt, hn⟩ := hparse
  exact Option.some.inj hn ▸ hlt

namespace Builder

/-! ## Properties -/

/-- The parameters with the count of a property in place of an earlier one. -/
def Parameters.set (p : Parameters) (name : String) (n : Nat) : Parameters :=
  if name = "size" then { p with size := n }
  else if name = "retention" then { p with retention := some n }
  else { p with every := some n }

theorem count_eq (b : Builder) (name value : String) :
    b.count (κ := κ) name value = (positiveCount? value).elim
      (.error (.invalidProperty b.id name value)) .ok := by
  unfold count positiveCount?
  cases parseCount? (Text.trimBlank value) with
  | none => rfl
  | some n => by_cases hn : 0 < n <;> simp [hn, Option.filter]

/-- A property is applied unless there is a reason to refuse it. -/
theorem applyProperty_eq (b : Builder) (p : Parameters) (name value : String) :
    b.applyProperty (κ := κ) p name value = (b.eviction.fault? b.id name value).elim
      (.ok (p.set name ((positiveCount? value).getD 0))) .error := by
  unfold applyProperty Eviction.fault? Eviction.Knows Parameters.set
  simp only [count_eq]
  by_cases hsize : name = "size"
  · cases positiveCount? value <;> simp [hsize, Except.map]
  · by_cases hretention : name = "retention" ∧ b.eviction = .soft
    · obtain ⟨rfl, hsoft⟩ := hretention
      cases positiveCount? value <;> simp [hsoft, Except.map]
    · by_cases hevery : name = "collect_every" ∧ b.eviction = .weak
      · obtain ⟨rfl, hweak⟩ := hevery
        cases positiveCount? value <;> simp [hweak, Except.map]
      · simp [hsize, hretention, hevery]

/-- The parameters after properties were applied in order. -/
def Parameters.setAll (p : Parameters) (properties : List (String × String)) : Parameters :=
  properties.foldl (fun p e => p.set e.1 ((positiveCount? e.2).getD 0)) p

/-- Properties are applied in order, and the first one that is refused counts. -/
theorem applyProperties_eq (b : Builder) (p : Parameters) (properties : List (String × String)) :
    b.applyProperties (κ := κ) p properties =
      (b.eviction.firstFault? b.id properties).elim (.ok (p.setAll properties)) .error := by
  induction properties generalizing p with
  | nil => rfl
  | cons e properties ih =>
    obtain ⟨name, value⟩ := e
    rw [applyProperties, applyProperty_eq, Eviction.firstFault?, List.findSome?_cons]
    cases b.eviction.fault? (κ := κ) b.id name value with
    | none => exact ih _
    | some e => rfl

/-- The parameters of the eviction layer. -/
def parameters (b : Builder) : Parameters :=
  Parameters.setAll { size := b.size.getD b.eviction.defaultSize } b.properties.entries

/-- The layers of a builder: the eviction layer with the properties applied to it, and the layers
outside it, unless the identifier is missing or a property is refused. -/
theorem layers_eq (b : Builder) :
    b.layers (κ := κ) =
      if b.id.isEmpty then .error .missingId
      else (b.eviction.firstFault? b.id b.properties.entries).elim
        (.ok (layerOf b.eviction b.parameters :: b.outerLayers)) .error := by
  unfold Builder.layers evictionLayer
  rw [applyProperties_eq]
  congr 1
  cases b.eviction.firstFault? (κ := κ) b.id b.properties.entries <;> rfl

/-! ## The size and the retention -/

/-- The size after all properties were applied: that of the property, else the one that was set,
else that of the policy. -/
def effectiveSize (b : Builder) : Nat :=
  ((b.properties.find? "size").map fun value => (positiveCount? value).getD 0).getD
    (b.size.getD b.eviction.defaultSize)

/-- A parameter that only the property of one name sets comes from that property, and without it
stays as it is. -/
theorem Parameters.field_setAll {β : Type} (field : Parameters → β) {name : String} (f : Nat → β)
    (hself : ∀ (p : Parameters) n, field (p.set name n) = f n) {properties : List (String × String)}
    (hother : ∀ e ∈ properties, e.1 ≠ name →
      ∀ (p : Parameters) n, field (p.set e.1 n) = field p)
    (h : (properties.map (·.1)).Nodup) (p : Parameters) :
    field (p.setAll properties) = ((properties.find? fun e => e.1 = name).map (·.2)).elim (field p)
      fun value => f ((positiveCount? value).getD 0) := by
  induction properties generalizing p with
  | nil => rfl
  | cons e properties ih =>
    rw [List.map_cons, List.nodup_cons] at h
    have hrest := ih (fun e' he' => hother e' (List.mem_cons_of_mem e he')) h.2
      (p.set e.1 ((positiveCount? e.2).getD 0))
    by_cases hname : e.1 = name
    · -- No later property has the name again.
      have hnone : (properties.find? fun e => e.1 = name) = none := by
        rw [List.find?_eq_none]
        intro e' he' hname'
        exact h.1 (List.mem_map.mpr ⟨e', he', (of_decide_eq_true hname').trans hname.symm⟩)
      rw [hnone] at hrest
      simpa [setAll, hname, hself] using hrest
    · rw [hother e List.mem_cons_self hname] at hrest
      simpa [setAll, hname] using hrest

theorem Parameters.size_set (p : Parameters) (n : Nat) : (p.set "size" n).size = n := rfl

theorem Parameters.size_set_of_ne {name : String} (h : name ≠ "size") (p : Parameters) (n : Nat) :
    (p.set name n).size = p.size := by
  unfold set
  rw [if_neg h]
  split <;> rfl

theorem size_parameters {b : Builder} (h : b.properties.names.Nodup) :
    b.parameters.size = b.effectiveSize := by
  rw [parameters, Parameters.field_setAll Parameters.size (fun n => n) Parameters.size_set
    (fun _ _ => Parameters.size_set_of_ne) h, effectiveSize, Catalog.find?]
  cases b.properties.entries.find? fun e => e.1 = "size" <;> rfl

theorem retention_parameters {b : Builder} (h : b.properties.names.Nodup) :
    b.parameters.retention =
      (b.properties.find? "retention").map fun value => (positiveCount? value).getD 0 := by
  have hother : ∀ name : String, name ≠ "retention" → ∀ (p : Parameters) n,
      (p.set name n).retention = p.retention := by
    intro name hname p n
    unfold Parameters.set
    split <;> rfl
  rw [parameters, Parameters.field_setAll Parameters.retention some
    (fun _ _ => rfl) (fun e _ => hother e.1) h, Catalog.find?]
  cases b.properties.entries.find? fun e => e.1 = "retention" <;> rfl

/-- Under a policy without a retention the property of that name is refused. -/
theorem every_parameters {b : Builder} (h : b.properties.names.Nodup)
    (hknows : ∀ e ∈ b.properties.entries, Eviction.weak.Knows e.1) :
    b.parameters.every =
      (b.properties.find? "collect_every").map fun value => (positiveCount? value).getD 0 := by
  have hother : ∀ e ∈ b.properties.entries, e.1 ≠ "collect_every" → ∀ (p : Parameters) n,
      (p.set e.1 n).every = p.every := by
    intro e he hname p n
    have hsize : e.1 = "size" := by simpa [Eviction.Knows, hname] using hknows e he
    rw [hsize]
    rfl
  rw [parameters, Parameters.field_setAll Parameters.every some
    (fun _ _ => rfl) hother h, Catalog.find?]
  cases b.properties.entries.find? fun e => e.1 = "collect_every" <;> rfl

theorem Parameters.retention_setAll {properties : List (String × String)}
    (h : ∀ e ∈ properties, (positiveCount? e.2).isSome) {p : Parameters}
    (hp : p.retention ≠ some 0) : (p.setAll properties).retention ≠ some 0 := by
  induction properties generalizing p with
  | nil => exact hp
  | cons e properties ih =>
    obtain ⟨n, hn⟩ := Option.isSome_iff_exists.mp (h e List.mem_cons_self)
    refine ih (fun e' he' => h e' (List.mem_cons_of_mem e he')) ?_
    simp only [hn, Option.getD_some, set]
    split
    · exact hp
    · split
      · have hpos := pos_of_positiveCount? hn
        simpa using Nat.ne_of_gt hpos
      · exact hp

/-- The product is what a soft layer retains exactly as long as it is a count. -/
theorem defaultRetention_eq_iff {size : Nat} :
    defaultRetention size = size * Leasing.retentionFactor ↔
      size * Leasing.retentionFactor < countLimit :=
  Nat.mod_eq_iff_lt (by decide)

/-- The product starts again at zero with each size of which 2 ^ 61 is a divisor. -/
theorem defaultRetention_eq_zero_iff {size : Nat} :
    defaultRetention size = 0 ↔ Nat.pow 2 61 ∣ size := by
  have hlimit : countLimit = Nat.pow 2 61 * Leasing.retentionFactor := by decide
  rw [defaultRetention, ← Nat.dvd_iff_mod_eq_zero, hlimit]
  exact Nat.mul_dvd_mul_iff_right (by decide)

/-- What a soft cache of the builder retains unless told otherwise is a count. -/
def RetentionFits (b : Builder) : Prop :=
  b.eviction = .soft → b.effectiveSize * Leasing.retentionFactor < countLimit

/-- The eviction layer has no room for an entry exactly if its size is zero, as long as what is
retained is a count. -/
theorem hasZeroCapacity_layerOf {e : Eviction} {p : Parameters} (h : p.retention ≠ some 0)
    (hfits : e = .soft → defaultRetention p.size = p.size * Leasing.retentionFactor) :
    (layerOf e p).hasZeroCapacity = decide (p.size = 0) := by
  cases e with
  | lru => rfl
  | fifo => rfl
  | weak => rfl
  | soft =>
    cases hr : p.retention with
    | none =>
      have hproduct : p.size * Leasing.retentionFactor = 0 ↔ p.size = 0 :=
        Nat.mul_eq_zero.trans (or_iff_left (by decide))
      simp only [layerOf, Layer.hasZeroCapacity, hr, Option.getD_none, hfits rfl, hproduct,
        Bool.or_self]
    | some n =>
      have hn : n ≠ 0 := fun hn => h (hn ▸ hr)
      simp [layerOf, Layer.hasZeroCapacity, hr, hn]

/-- A builder whose properties are all read has an eviction layer without room exactly if its size
is zero, as long as what is retained is a count. -/
theorem hasZeroCapacity_eq {b : Builder} (hnames : b.properties.names.Nodup)
    (hread : ∀ e ∈ b.properties.entries, (positiveCount? e.2).isSome) (hfits : b.RetentionFits) :
    (layerOf b.eviction b.parameters).hasZeroCapacity = decide (b.effectiveSize = 0) := by
  rw [← size_parameters hnames]
  refine hasZeroCapacity_layerOf (Parameters.retention_setAll hread nofun) fun hsoft => ?_
  rw [defaultRetention_eq_iff, size_parameters hnames]
  exact hfits hsoft

/-! ## Building -/

/-- Of the layers of a builder only the eviction layer is left to be checked. -/
theorem validate_layers (id : String) (b : Builder) :
    Layer.validate (κ := κ) id (layerOf b.eviction b.parameters :: b.outerLayers) =
      if (layerOf b.eviction b.parameters).hasZeroCapacity then
        .error (.invalidChain id "capacities must be greater than 0")
      else .ok () := by
  obtain ⟨hreclaiming, hcount, hzero⟩ := b.outerLayers_spec
  have hcount' :
      ¬1 < (layerOf b.eviction b.parameters :: b.outerLayers).count .serialized := by
    rw [List.count_cons_of_ne (by cases b.eviction <;> exact nofun)]
    exact Nat.not_lt.mpr hcount
  have hdrop : ((layerOf b.eviction b.parameters :: b.outerLayers).drop 1).any
      Layer.isReclaiming = false := by simpa using hreclaiming
  have houter : b.outerLayers.any Layer.hasZeroCapacity = false := by simpa using hzero
  simp only [Layer.validate, hdrop, hcount', List.any_cons, houter, Bool.or_false,
    Bool.false_eq_true, if_false]

/-- What a builder builds: the layers that follow from its settings, composed over the base store,
unless the identifier is missing, a property is refused, or the eviction layer has no room. -/
theorem build_eq (b : Builder) (base : Nat) (m : Moment) (g : Ground κ α) :
    b.build base m g =
      if b.id.isEmpty then (g, .error .missingId)
      else match b.eviction.firstFault? b.id b.properties.entries with
        | some e => (g, .error e)
        | none =>
          let layers := layerOf b.eviction b.parameters :: b.outerLayers
          if (layerOf b.eviction b.parameters).hasZeroCapacity then
            (g, .error (.invalidChain b.id "capacities must be greater than 0"))
          else (g.note (.built b.id (Layer.describe layers)),
            .ok ((Chain.bare b.id base).compose m
              (layers.map fun l => (l, { signal := b.signal })))) := by
  unfold build
  rw [layers_eq]
  by_cases hid : b.id.isEmpty = true
  · simp only [if_pos hid]
  · simp only [if_neg hid]
    have hid' : b.id.isEmpty = false := Bool.eq_false_iff.mpr hid
    cases hfault : b.eviction.firstFault? (κ := κ) b.id b.properties.entries with
    | some e => rfl
    | none =>
      have hvalid := validate_layers (κ := κ) b.id b
      by_cases hzero : (layerOf b.eviction b.parameters).hasZeroCapacity = true
      · rw [if_pos hzero] at hvalid
        simp only [Option.elim_none, Chain.build, hid', hvalid, if_pos hzero, Bool.false_eq_true,
          if_false]
      · rw [if_neg hzero] at hvalid
        simp only [Option.elim_none, if_neg hzero]
        exact Chain.build_of_validate hid' base b.signal hvalid m g

/-- Where the product starts again at zero, a soft cache that is not told what to retain is refused
for its size, however great that is. -/
theorem build_of_dvd {b : Builder} (hsoft : b.eviction = .soft) (hid : b.id ≠ "")
    (hnames : b.properties.names.Nodup)
    (hread : b.eviction.firstFault? (κ := κ) b.id b.properties.entries = none)
    (hretention : b.properties.find? "retention" = none)
    (hsize : Nat.pow 2 61 ∣ b.effectiveSize) (base : Nat) (m : Moment) (g : Ground κ α) :
    b.build base m g =
      (g, .error (.invalidChain b.id "capacities must be greater than 0")) := by
  have hid' : ¬b.id.isEmpty = true := fun h => hid (String.isEmpty_iff.mp h)
  have hnone : b.parameters.retention = none := by
    rw [retention_parameters hnames, hretention]
    rfl
  have hzero : (layerOf b.eviction b.parameters).hasZeroCapacity = true := by
    rw [hsoft, layerOf, hnone, size_parameters hnames, Option.getD_none,
      defaultRetention_eq_zero_iff.mpr hsize]
    simp [Layer.hasZeroCapacity]
  rw [build_eq, if_neg hid', hread]
  simp only [if_pos hzero]

end Builder

end LayeredCache
