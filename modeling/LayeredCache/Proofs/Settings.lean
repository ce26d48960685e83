import LayeredCache.Proofs.Assembly
import LayeredCache.Proofs.Configuration
import Mathlib.Data.Nat.Init

/-!
# What the settings of a cache come to

The settings of a cache are checked in three places: its names when a builder is made of them, the
identifier and the properties when the builder resolves its layers, and the size, which a property
may have replaced, when the layers are looked at as a chain. Seen from outside this is one list of
conditions, property by property in the order of the names, and the first one that does not hold is
told. Settings that meet all of them become the layers that they describe, and nothing that is
computed on the way exceeds the limit of counts.

## Main definitions

* `WritesCount` — the texts that write a positive count.
* `CacheSettings.demands` — the conditions on settings, in the order in which they count.
* `CacheSettings.Lays` — the eviction layer that settings describe.

## Main statements

* `positiveCount?_eq_some_iff` — which texts are read as counts.
* `CacheSettings.build_iff_demands` — what is built of settings, or which failure is told.
-/

namespace LayeredCache

/-! ## Counts in texts -/

namespace Text

/-- What stands between blanks is left of a text, unless it begins or ends with one itself. -/
theorem toList_trimBlank {value : String} {before text after : List Char}
    (h : value.toList = before ++ text ++ after) (hbefore : ∀ c ∈ before, isBlank c)
    (hafter : ∀ c ∈ after, isBlank c) (htext : ∀ c ∈ text, isBlank c = false) (hne : text ≠ []) :
    (trimBlank value).toList = text := by
  have hleft : value.toList.dropWhile isBlank = text ++ after := by
    obtain ⟨c, rest, rfl⟩ := List.exists_cons_of_ne_nil hne
    rw [h, List.append_assoc, List.dropWhile_append_of_pos hbefore, List.cons_append,
      List.dropWhile_cons_of_neg (by simp [htext c List.mem_cons_self])]
  have hright : (text ++ after).reverse.dropWhile isBlank = text.reverse := by
    obtain ⟨c, rest, hrest⟩ := List.exists_cons_of_ne_nil (mt List.reverse_eq_nil_iff.mp hne)
    have hc : isBlank c = false :=
      htext c (List.mem_reverse.mp (hrest ▸ List.mem_cons_self))
    rw [List.reverse_append,
      List.dropWhile_append_of_pos fun c hm => hafter c (List.mem_reverse.mp hm), hrest,
      List.dropWhile_cons_of_neg (by simp [hc])]
  rw [trimBlank, String.toList_ofList, hleft, hright, List.reverse_reverse]

/-- A text is what is left of it between blanks. -/
theorem exists_toList_eq_trimBlank (value : String) :
    ∃ before after, value.toList = before ++ (trimBlank value).toList ++ after ∧
      (∀ c ∈ before, isBlank c) ∧ ∀ c ∈ after, isBlank c := by
  have hblank : ∀ l : List Char, ∀ c ∈ l.takeWhile isBlank, isBlank c := fun l =>
    List.all_eq_true.mp List.all_takeWhile
  refine ⟨value.toList.takeWhile isBlank,
    ((value.toList.dropWhile isBlank).reverse.takeWhile isBlank).reverse, ?_, hblank _,
    fun c hc => hblank _ c (List.mem_reverse.mp hc)⟩
  rw [trimBlank, String.toList_ofList, List.append_assoc, ← List.reverse_append,
    List.takeWhile_append_dropWhile, List.reverse_reverse, List.takeWhile_append_dropWhile]

theorem isBlank_eq_false_of_isDigit {c : Char} (h : c.isDigit) : isBlank c = false := by
  simp only [Char.isDigit, Bool.and_eq_true, decide_eq_true_eq, UInt32.le_iff_toNat_le] at h
  obtain ⟨hlow, hhigh⟩ : 48 ≤ c.toNat ∧ c.toNat ≤ 57 := h
  simp only [isBlank, blankRanges, List.any_cons, List.any_nil, Bool.or_false, Bool.or_eq_false_iff,
    Bool.and_eq_false_iff, decide_eq_false_iff_not]
  omega

end Text

/-- The text writes the number in decimal digits, at least one of them, that may follow a plus
sign. -/
def WritesDecimal (text : List Char) (n : Nat) : Prop :=
  ∃ sign digits, text = sign ++ digits ∧ (sign = [] ∨ sign = ['+']) ∧ digits ≠ [] ∧
    (∀ c ∈ digits, c.isDigit) ∧ Nat.ofDigitChars 10 digits 0 = n

/-- The text writes a count of at least one between blanks. -/
def WritesCount (value : String) (n : Nat) : Prop :=
  (∃ before text after, value.toList = before ++ text ++ after ∧ (∀ c ∈ before, Text.isBlank c) ∧
    (∀ c ∈ after, Text.isBlank c) ∧ WritesDecimal text n) ∧ 0 < n ∧ n < countLimit

theorem WritesDecimal.ne_nil {text : List Char} {n : Nat} (h : WritesDecimal text n) :
    text ≠ [] := by
  obtain ⟨sign, digits, rfl, -, hne, -⟩ := h
  simp [hne]

theorem WritesDecimal.isBlank_eq_false {text : List Char} {n : Nat} (h : WritesDecimal text n) :
    ∀ c ∈ text, Text.isBlank c = false := by
  obtain ⟨sign, digits, rfl, hsign, -, hdigits, -⟩ := h
  intro c hc
  rcases List.mem_append.mp hc with hc | hc
  · rcases hsign with rfl | rfl
    · cases hc
    · obtain rfl := List.mem_singleton.mp hc
      decide
  · exact Text.isBlank_eq_false_of_isDigit (hdigits c hc)

/-- The text without a plus sign before it. -/
def unsigned : List Char → List Char
  | '+' :: rest => rest
  | all => all

theorem writesDecimal_iff {text : List Char} {n : Nat} :
    WritesDecimal text n ↔ unsigned text ≠ [] ∧ (∀ c ∈ unsigned text, c.isDigit) ∧
      Nat.ofDigitChars 10 (unsigned text) 0 = n := by
  constructor
  · rintro ⟨sign, digits, rfl, rfl | rfl, h⟩
    · -- The first digit is no plus sign.
      obtain ⟨c, rest, rfl⟩ := List.exists_cons_of_ne_nil h.1
      have hc : c ≠ '+' := by
        rintro rfl
        exact absurd (h.2.1 _ List.mem_cons_self) (by decide)
      simpa [unsigned, hc] using h
    · exact h
  · intro h
    unfold unsigned at h
    split at h
    · next rest => exact ⟨['+'], rest, rfl, .inr rfl, h⟩
    · exact ⟨[], text, rfl, .inl rfl, h⟩

theorem parseCount?_eq_some_iff {s : String} {n : Nat} :
    parseCount? s = some n ↔ WritesDecimal s.toList n ∧ n < countLimit := by
  have hparse : parseCount? s =
      if (unsigned s.toList).isEmpty || (unsigned s.toList).any (fun c => !c.isDigit) then none
      else if Nat.ofDigitChars 10 (unsigned s.toList) 0 < countLimit then
        some (Nat.ofDigitChars 10 (unsigned s.toList) 0)
      else none := rfl
  rw [writesDecimal_iff, hparse]
  generalize unsigned s.toList = digits
  have hdigits : (digits.isEmpty || digits.any fun c => !c.isDigit) = false ↔
      digits ≠ [] ∧ ∀ c ∈ digits, c.isDigit := by simp
  simp only [Option.ite_none_left_eq_some, Option.ite_none_right_eq_some, Option.some.injEq,
    Bool.not_eq_true, hdigits]
  constructor
  · rintro ⟨hdigits, hlt, rfl⟩
    exact ⟨⟨hdigits.1, hdigits.2, rfl⟩, hlt⟩
  · rintro ⟨⟨hne, hdigits, rfl⟩, hlt⟩
    exact ⟨⟨hne, hdigits⟩, hlt, rfl⟩

/-- The texts that are read as counts are those that write one. -/
theorem positiveCount?_eq_some_iff {value : String} {n : Nat} :
    positiveCount? value = some n ↔ WritesCount value n := by
  rw [positiveCount?, Option.filter_eq_some_iff, parseCount?_eq_some_iff, decide_eq_true_eq]
  constructor
  · rintro ⟨⟨hdecimal, hlt⟩, hpos⟩
    obtain ⟨before, after, hvalue, hbefore, hafter⟩ := Text.exists_toList_eq_trimBlank value
    exact ⟨⟨before, _, after, hvalue, hbefore, hafter, hdecimal⟩, hpos, hlt⟩
  · rintro ⟨⟨before, text, after, hvalue, hbefore, hafter, hdecimal⟩, hpos, hlt⟩
    have htrim := Text.toList_trimBlank hvalue hbefore hafter hdecimal.isBlank_eq_false
      hdecimal.ne_nil
    exact ⟨⟨htrim ▸ hdecimal, hlt⟩, hpos⟩

theorem isSome_positiveCount?_iff {value : String} :
    (positiveCount? value).isSome ↔ ∃ n, WritesCount value n := by
  simp only [Option.isSome_iff_exists, positiveCount?_eq_some_iff]

/-! ## Names -/

theorem Eviction.name_injective {e e' : Eviction} (h : e.name = e'.name) : e = e' := by
  revert h
  cases e <;> cases e' <;> decide

theorem Eviction.parse_eq_ok_iff {κ : Type} {s : String} {e : Eviction} :
    parse (κ := κ) s = .ok e ↔ Text.asciiLower s = e.name := by
  unfold parse
  cases h : all.find? (·.name = Text.asciiLower s) with
  | some e' =>
    have hname : e'.name = Text.asciiLower s := by simpa using List.find?_some h
    rw [Except.ok.injEq, ← hname]
    exact ⟨fun heq => heq ▸ rfl, name_injective⟩
  | none =>
    have hnone := List.find?_eq_none.mp h e (by cases e <;> decide)
    simpa [eq_comm] using hnone

theorem Eviction.parse_of_not_named {κ : Type} {s : String}
    (h : ¬∃ e : Eviction, Text.asciiLower s = e.name) :
    parse (κ := κ) s = .error (.unknownEviction s) := by
  unfold parse
  cases hfound : all.find? (·.name = Text.asciiLower s) with
  | some e => exact absurd ⟨e, by simpa [eq_comm] using List.find?_some hfound⟩ h
  | none => rfl

theorem Implementation.named_iff {s : String} :
    (∃ i : Implementation, Text.asciiLower s = i.name) ↔ Text.asciiLower s = "perpetual" :=
  ⟨fun ⟨.perpetual, h⟩ => h, fun h => ⟨.perpetual, h⟩⟩

/-! ## Conditions in order -/

/-- A condition on settings, and the failure that tells that it does not hold. -/
structure Demand where
  holds : Prop
  failure : CacheError Key

/-- The first condition of a list that does not hold is told by the failure. -/
def Demand.Breaks : List Demand → CacheError Key → Prop
  | [], _ => False
  | d :: rest, e => ¬d.holds ∧ d.failure = e ∨ d.holds ∧ Breaks rest e

namespace Demand

variable {demands demands' : List Demand} {e e' : CacheError Key}

theorem breaks_append :
    Breaks (demands ++ demands') e ↔
      Breaks demands e ∨ (∀ d ∈ demands, d.holds) ∧ Breaks demands' e := by
  induction demands with
  | nil => simp [Breaks]
  | cons d demands ih =>
    simp only [List.cons_append, Breaks, ih, List.forall_mem_cons]
    tauto

theorem Breaks.not_forall (h : Breaks demands e) : ¬∀ d ∈ demands, d.holds := by
  induction demands with
  | nil => exact h.elim
  | cons d demands ih =>
    intro hall
    rw [List.forall_mem_cons] at hall
    rcases h with ⟨hd, -⟩ | ⟨-, h⟩
    · exact hd hall.1
    · exact ih h hall.2

theorem Breaks.unique (h : Breaks demands e) (h' : Breaks demands e') : e = e' := by
  induction demands with
  | nil => exact h.elim
  | cons d demands ih =>
    rcases h with ⟨hd, rfl⟩ | ⟨hd, h⟩
    · rcases h' with ⟨-, rfl⟩ | ⟨hd', -⟩
      · rfl
      · exact absurd hd' hd
    · rcases h' with ⟨hd', -⟩ | ⟨-, h'⟩
      · exact absurd hd hd'
      · exact ih h h'

end Demand

/-! ## Settings -/

namespace CacheSettings

/-- The settings name the policy, in letters of any case. -/
def Evicts (c : CacheSettings) (e : Eviction) : Prop := Text.asciiLower c.eviction = e.name

/-- The count of a property, or the default if there is no such property. -/
def HasCount (c : CacheSettings) (name : String) (default n : Nat) : Prop :=
  match c.properties.find? name with
  | some value => WritesCount value n
  | none => n = default

/-- The size in effect: that of the property, else the one that was set, else that of the policy. -/
def HasSize (c : CacheSettings) (e : Eviction) (n : Nat) : Prop :=
  c.HasCount "size" (c.size.getD e.defaultSize) n

/-- The conditions on the properties of a cache with the identifier: the policy knows their names,
and their values are counts. -/
def propertyDemands (c : CacheSettings) (id : String) (properties : List (String × String)) :
    List Demand :=
  properties.flatMap fun p =>
    [⟨∃ e, c.Evicts e ∧ e.Knows p.1, .unknownProperty id p.1⟩,
      ⟨∃ n, WritesCount p.2 n, .invalidProperty id p.1 p.2⟩]

/-- The conditions on the names that settings give, and on the identifier. -/
def nameDemands (c : CacheSettings) (id : String) : List Demand :=
  [⟨∃ i : Implementation, Text.asciiLower c.implementation = i.name,
      .unknownImplementation c.implementation⟩,
    ⟨∃ e, c.Evicts e, .unknownEviction c.eviction⟩,
    ⟨id ≠ "", .missingId⟩]

/-- The condition on the size. -/
def sizeDemand (c : CacheSettings) (id : String) : Demand :=
  ⟨∀ e, c.Evicts e → ¬c.HasSize e 0, .invalidChain id "capacities must be greater than 0"⟩

/-- The conditions on the settings of a cache with the identifier, in the order in which they
count. -/
def demands (c : CacheSettings) (id : String) : List Demand :=
  c.nameDemands id ++ c.propertyDemands id c.properties.entries ++ [c.sizeDemand id]

/-- The eviction layer that settings describe under a policy. -/
inductive Lays (c : CacheSettings) : Eviction → Layer → Prop
  | lru {n : Nat} (size : c.HasSize .lru n) : Lays c .lru (.lru n)
  | fifo {n : Nat} (size : c.HasSize .fifo n) : Lays c .fifo (.fifo n)
  | soft {n r : Nat} (size : c.HasSize .soft n)
      (retention : c.HasCount "retention" (n * Leasing.retentionFactor) r) :
      Lays c .soft (.soft n r)
  | weak {n k : Nat} (size : c.HasSize .weak n)
      (every : c.HasCount "collect_every" Leasing.defaultEvery k) : Lays c .weak (.weak n k)

/-- The layers that settings ask for outside the eviction layer. -/
def outerLayers (c : CacheSettings) : List Layer :=
  (if 0 < c.flushMillis then [.scheduled (.ofMillis c.flushMillis)] else []) ++
    (if c.readWrite then [.serialized] else []) ++ [.logging, .synchronized] ++
    if c.blocking then
      [.blocking (if 0 < c.timeoutMillis then some (.ofMillis c.timeoutMillis) else none)]
    else []

/-- What is built of settings under an identifier, over the base store with the number `base`. -/
def build {α : Type} (c : CacheSettings) (id : String) (base : Nat) (m : Moment)
    (g : Ground Key α) : Except (CacheError Key) (Chain Key) :=
  match c.toBuilder id with
  | .error e => .error e
  | .ok b => (b.build base m g).2

variable {c : CacheSettings} {id : String}

theorem Evicts.unique {e e' : Eviction} (h : c.Evicts e) (h' : c.Evicts e') : e = e' :=
  Eviction.name_injective (h.symm.trans h')

theorem exists_evicts_knows_iff {e : Eviction} (h : c.Evicts e) {name : String} :
    (∃ e', c.Evicts e' ∧ e'.Knows name) ↔ e.Knows name :=
  ⟨fun ⟨_, h', hknows⟩ => h.unique h' ▸ hknows, fun hknows => ⟨e, h, hknows⟩⟩

/-- The first property that is refused breaks the conditions on properties. -/
theorem breaks_propertyDemands_iff {e : Eviction} (h : c.Evicts e)
    {properties : List (String × String)} {fault : CacheError Key} :
    Demand.Breaks (c.propertyDemands id properties) fault ↔
      e.firstFault? id properties = some fault := by
  induction properties with
  | nil => simp [propertyDemands, Demand.Breaks, Eviction.firstFault?]
  | cons p properties ih =>
    have hfirst : e.firstFault? (κ := Key) id (p :: properties) =
        (e.fault? id p.1 p.2).or (e.firstFault? id properties) := by
      rw [Eviction.firstFault?, List.findSome?_cons]
      cases e.fault? (κ := Key) id p.1 p.2 <;> rfl
    rw [propertyDemands, List.flatMap_cons, Demand.breaks_append, ← propertyDemands, ih, hfirst,
      Eviction.fault?]
    simp only [Demand.Breaks, exists_evicts_knows_iff h, ← isSome_positiveCount?_iff,
      List.forall_mem_cons, List.not_mem_nil, false_implies, implies_true, and_true, and_false,
      or_false]
    by_cases hknows : e.Knows p.1
    · by_cases hcount : (positiveCount? p.2).isSome
      · simp [hknows, hcount]
      · simp [hknows, hcount]
    · simp [hknows]

theorem forall_propertyDemands_iff {e : Eviction} (h : c.Evicts e)
    {properties : List (String × String)} :
    (∀ d ∈ c.propertyDemands id properties, d.holds) ↔
      ∀ p ∈ properties, e.Knows p.1 ∧ (positiveCount? p.2).isSome := by
  rw [propertyDemands, List.forall_mem_flatMap]
  simp only [List.forall_mem_cons, exists_evicts_knows_iff h, isSome_positiveCount?_iff,
    List.not_mem_nil, false_implies, implies_true, and_true]

/-! ## The layers of settings -/

theorem hasCount_iff (hcounts : ∀ p ∈ c.properties.entries, (positiveCount? p.2).isSome)
    {name : String} {default n : Nat} :
    c.HasCount name default n ↔
      ((c.properties.find? name).map fun value => (positiveCount? value).getD 0).getD default =
        n := by
  unfold HasCount
  cases hfound : c.properties.find? name with
  | none => simpa using eq_comm
  | some value =>
    obtain ⟨p, hp, rfl⟩ := Option.map_eq_some_iff.mp hfound
    obtain ⟨count, hcount⟩ := Option.isSome_iff_exists.mp (hcounts p (List.mem_of_find?_eq_some hp))
    simp [← positiveCount?_eq_some_iff, hcount]

/-- Settings whose names meet the conditions become a builder. -/
theorem exists_toBuilder_of_named (h : ∀ d ∈ c.nameDemands id, d.holds) :
    ∃ b, c.toBuilder id = .ok b ∧ c.Evicts b.eviction ∧ b.outerLayers = c.outerLayers := by
  simp only [nameDemands, List.forall_mem_cons] at h
  obtain ⟨himplementation, ⟨e, he⟩, -⟩ := h
  rw [Implementation.named_iff] at himplementation
  have hspan : ∀ millis : Nat, span? millis =
      if 0 < millis then some (.ofMillis millis) else none := fun _ => rfl
  refine ⟨_, by rw [toBuilder, Implementation.parse, if_pos himplementation,
    Eviction.parse_eq_ok_iff.mpr he], he, ?_⟩
  simp only [Builder.outerLayers, outerLayers, flushInterval, blockingTimeout, hspan]
  split <;> rfl

/-- The first name that does not meet its condition is told, be it that of the cache itself. -/
theorem exists_breaks_of_not_named {α : Type} (h : ¬∀ d ∈ c.nameDemands id, d.holds) (base : Nat)
    (m : Moment) (g : Ground Key α) :
    ∃ fault, Demand.Breaks (c.nameDemands id) fault ∧ c.build id base m g = .error fault := by
  by_cases himplementation : ∃ i : Implementation, Text.asciiLower c.implementation = i.name
  swap
  · refine ⟨_, .inl ⟨himplementation, rfl⟩, ?_⟩
    rw [Implementation.named_iff] at himplementation
    rw [build, toBuilder, Implementation.parse, if_neg himplementation]
  have hperpetual := Implementation.named_iff.mp himplementation
  by_cases heviction : ∃ e, c.Evicts e
  swap
  · refine ⟨_, .inr ⟨himplementation, .inl ⟨heviction, rfl⟩⟩, ?_⟩
    rw [build, toBuilder, Implementation.parse, if_pos hperpetual,
      Eviction.parse_of_not_named heviction]
  have hid : id = "" := by
    by_contra hid
    simp [nameDemands, himplementation, heviction, hid] at h
  refine ⟨_, .inr ⟨himplementation, .inr ⟨heviction, .inl ⟨not_not_intro hid, rfl⟩⟩⟩, ?_⟩
  obtain ⟨e, he⟩ := heviction
  rw [build, toBuilder, Implementation.parse, if_pos hperpetual, Eviction.parse_eq_ok_iff.mpr he]
  simp only [Builder.build, Builder.layers, hid]
  rfl

/-- The eviction layer of a builder whose properties are all read is the one that the settings
describe. -/
theorem lays_layerOf {b : Builder} (hb : c.toBuilder id = .ok b) (hnodup : c.properties.names.Nodup)
    (hread : ∀ p ∈ c.properties.entries, b.eviction.Knows p.1 ∧ (positiveCount? p.2).isSome)
    (hfits : b.RetentionFits) : c.Lays b.eviction (Builder.layerOf b.eviction b.parameters) := by
  obtain ⟨-, hset, hproperties, -⟩ := toBuilder_spec hb
  have hcounts := fun p hp => (hread p hp).2
  have hnames : b.properties.names.Nodup := hproperties ▸ hnodup
  have hsize : ∀ e, b.eviction = e → c.HasSize e b.parameters.size := by
    rintro e rfl
    rw [HasSize, hasCount_iff hcounts, Builder.size_parameters hnames, Builder.effectiveSize,
      hset, hproperties]
  cases heviction : b.eviction with
  | lru => exact .lru (hsize _ heviction)
  | fifo => exact .fifo (hsize _ heviction)
  | soft =>
    refine .soft (hsize _ heviction) ?_
    have hproduct : Builder.defaultRetention b.parameters.size =
        b.parameters.size * Leasing.retentionFactor := by
      rw [Builder.defaultRetention_eq_iff, Builder.size_parameters hnames]
      exact hfits heviction
    rw [hasCount_iff hcounts, Builder.retention_parameters hnames, hproperties, hproduct]
  | weak =>
    refine .weak (hsize _ heviction) ?_
    have hknows : ∀ e ∈ b.properties.entries, Eviction.weak.Knows e.1 := fun e he =>
      heviction ▸ (hread e (hproperties ▸ he)).1
    rw [hasCount_iff hcounts, Builder.every_parameters hnames hknows, hproperties]

/-- Settings that meet all conditions are built, and otherwise the first one that does not hold is
told. -/
theorem build_cases {α : Type} (hascends : c.properties.Ascends)
    (hset : ∀ n ∈ c.size, n < countLimit)
    (hlimit : ∀ e n, c.Evicts e → c.HasSize e n → n * Leasing.retentionFactor < countLimit)
    (base : Nat) (m : Moment) (g : Ground Key α) :
    (∃ fault, Demand.Breaks (c.demands id) fault ∧ c.build id base m g = .error fault) ∨
      (∀ d ∈ c.demands id, d.holds) ∧ ∃ chain, c.build id base m g = .ok chain ∧
        chain.id = id ∧ chain.base = base ∧
          (∃ e first, c.Evicts e ∧ c.Lays e first ∧ chain.layers = first :: c.outerLayers) ∧
            ∀ l ∈ chain.layers, l.Fits := by
  by_cases hnamed : ∀ d ∈ c.nameDemands id, d.holds
  swap
  · obtain ⟨fault, hbreaks, hbuild⟩ := exists_breaks_of_not_named hnamed base m g
    exact .inl ⟨fault, Demand.breaks_append.mpr (.inl (Demand.breaks_append.mpr (.inl hbreaks))),
      hbuild⟩
  obtain ⟨b, hb, he, houter⟩ := exists_toBuilder_of_named hnamed
  obtain ⟨hid, hsize, hproperties, -⟩ := toBuilder_spec hb
  have hnodup : b.properties.names.Nodup := hproperties ▸ hascends.nodup
  have hid' : ¬id.isEmpty = true := by
    simp only [nameDemands, List.forall_mem_cons] at hnamed
    exact fun h => hnamed.2.2.1 (String.isEmpty_iff.mp h)
  rw [build, hb]
  simp only [Builder.build_eq, hid, if_neg hid', hproperties]
  cases hfault : b.eviction.firstFault? (κ := Key) id c.properties.entries with
  | some fault =>
    exact .inl ⟨fault, Demand.breaks_append.mpr (.inl (Demand.breaks_append.mpr
      (.inr ⟨hnamed, (breaks_propertyDemands_iff he).mpr hfault⟩))), rfl⟩
  | none =>
    have hread := Eviction.firstFault?_eq_none_iff.mp hfault
    have hheld : ∀ d ∈ c.nameDemands id ++ c.propertyDemands id c.properties.entries, d.holds :=
      List.forall_mem_append.mpr ⟨hnamed, (forall_propertyDemands_iff he).mpr hread⟩
    have heffective : ∀ n, c.HasSize b.eviction n ↔ b.effectiveSize = n := fun n => by
      rw [HasSize, hasCount_iff fun p hp => (hread p hp).2, Builder.effectiveSize, hsize,
        hproperties]
    have hfits : b.RetentionFits := fun _ => hlimit _ _ he ((heffective _).mpr rfl)
    have hroom := Builder.hasZeroCapacity_eq hnodup
      (fun p hp => (hread p (hproperties ▸ hp)).2) hfits
    simp only [hroom, decide_eq_true_eq]
    by_cases hzero : b.effectiveSize = 0
    · simp only [if_pos hzero]
      refine .inl ⟨_, Demand.breaks_append.mpr (.inr ⟨hheld, .inl ⟨?_, rfl⟩⟩), rfl⟩
      exact fun h => h b.eviction he ((heffective 0).mpr hzero)
    · refine .inr ⟨List.forall_mem_append.mpr ⟨hheld, List.forall_mem_singleton.mpr ?_⟩, ?_⟩
      · intro e he' hsize'
        rw [← he.unique he'] at hsize'
        exact hzero ((heffective 0).mp hsize')
      · simp only [if_neg hzero]
        refine ⟨_, rfl, Chain.id_compose .., Chain.base_compose .., ?_⟩
        have hlayers : (Chain.compose (Chain.bare id base : Chain Key) m
            ((Builder.layerOf b.eviction b.parameters :: b.outerLayers).map
              fun l => (l, { signal := b.signal }))).layers =
                Builder.layerOf b.eviction b.parameters :: b.outerLayers := by
          rw [Chain.layers_compose, List.map_map]
          exact List.map_id' _
        have hcounts := Builder.fits_layerOf (e := b.eviction)
          (Builder.fits_parameters (hsize ▸ hset))
        rw [hlayers, ← houter]
        exact ⟨⟨b.eviction, _, he, lays_layerOf hb hascends.nodup hread hfits, rfl⟩,
          List.forall_mem_cons.mpr ⟨hcounts, b.fits_outerLayers⟩⟩

/-- What becomes of settings under an identifier, as long as what a soft cache of their size retains
unless told otherwise is a count. They are built exactly if all conditions hold, and the failure is
otherwise that of the first one that does not. The layers are those that the settings describe, from
the base store outward, and have no count that exceeds the limit. -/
theorem build_iff_demands {α : Type} (hascends : c.properties.Ascends)
    (hset : ∀ n ∈ c.size, n < countLimit)
    (hlimit : ∀ e n, c.Evicts e → c.HasSize e n → n * Leasing.retentionFactor < countLimit)
    (base : Nat) (m : Moment) (g : Ground Key α) :
    ((∃ chain, c.build id base m g = .ok chain) ↔ ∀ d ∈ c.demands id, d.holds) ∧
      (∀ fault, c.build id base m g = .error fault ↔ Demand.Breaks (c.demands id) fault) ∧
      ∀ chain, c.build id base m g = .ok chain →
        chain.id = id ∧ chain.base = base ∧
          (∃ e first, c.Evicts e ∧ c.Lays e first ∧ chain.layers = first :: c.outerLayers) ∧
            ∀ l ∈ chain.layers, l.Fits := by
  rcases @build_cases c id α hascends hset hlimit base m g with
    ⟨fault, hbreaks, hbuild⟩ | ⟨hheld, chain, hbuild, hspec⟩
  · rw [hbuild]
    refine ⟨iff_of_false nofun hbreaks.not_forall, fun fault' => ?_, nofun⟩
    rw [Except.error.injEq]
    exact ⟨fun h => h ▸ hbreaks, hbreaks.unique⟩
  · rw [hbuild]
    refine ⟨iff_of_true ⟨chain, rfl⟩ hheld, fun fault => ?_, ?_⟩
    · exact iff_of_false nofun fun hbreaks => hbreaks.not_forall hheld
    · rintro chain' hchain
      obtain rfl := Except.ok.inj hchain
      exact hspec

/-! ## A size that is replaced -/

namespace Resized

/-- A soft cache in capital letters, with a size of zero that a property replaces. -/
def settings : CacheSettings :=
  { eviction := "SOFT", size := some 0, flushMillis := 30, blocking := true,
    properties := ⟨[("size", " +3 ")]⟩ }

theorem eviction_eq {e : Eviction} (h : settings.Evicts e) : e = .soft :=
  h.unique (show settings.Evicts .soft from (by decide : Text.asciiLower "SOFT" = "soft"))

theorem size_eq {e : Eviction} {n : Nat} (h : settings.HasSize e n) : n = 3 := by
  have hcount : positiveCount? " +3 " = some n := positiveCount?_eq_some_iff.mpr h
  exact (Option.some.inj (hcount.symm.trans (by decide)))

theorem demands_hold : ∀ d ∈ settings.demands "users", d.holds := by
  have hsoft : settings.Evicts .soft := (by decide : Text.asciiLower "SOFT" = "soft")
  have hcount : ∃ n, WritesCount " +3 " n := isSome_positiveCount?_iff.mp (by decide)
  simp only [demands, nameDemands, propertyDemands, sizeDemand, settings, List.flatMap_cons,
    List.flatMap_nil, List.append_nil, List.cons_append, List.nil_append, List.forall_mem_cons]
  refine ⟨⟨.perpetual, by decide⟩, ⟨.soft, hsoft⟩, by decide, ⟨.soft, hsoft, by decide⟩, hcount,
    ?_, nofun⟩
  intro e _ hzero
  cases size_eq hzero

/-- The size is the one of the property, and with it goes the number of values that are retained. -/
theorem layers_of_resized :
    settings.properties.Ascends ∧ ∃ chain : Chain Key,
      settings.build "users" 0 {} ({} : Ground Key Sample) = .ok chain ∧
        chain.layers = [.soft 3 24, .scheduled (.ofMillis 30), .serialized, .logging,
          .synchronized, .blocking none] := by
  have hascends : settings.properties.Ascends := by decide
  obtain ⟨hbuilt, -, hspec⟩ := @build_iff_demands settings "users" Sample hascends
    (by decide) (fun e n _ h => size_eq h ▸ by decide) 0 {} {}
  obtain ⟨chain, hchain⟩ := hbuilt.mpr demands_hold
  obtain ⟨-, -, ⟨e, first, he, hlays, hlayers⟩, -⟩ := hspec chain hchain
  refine ⟨hascends, chain, hchain, ?_⟩
  obtain rfl := eviction_eq he
  cases hlays with
  | soft size retention =>
    obtain rfl := size_eq size
    obtain rfl := retention
    exact hlayers

end Resized

end CacheSettings

end LayeredCache
