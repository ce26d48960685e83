import LayeredCache.Proofs.Resolution
import LayeredCache.Registry
import LayeredCache.Session.Sample
import Mathlib.Data.String.Basic

/-!
# Which configurations are built

Checking a configuration reads the names, the sizes and the times to wait of its caches, but not
their properties: what a property means is up to the eviction policy, and it is read when the cache
is built. So a configuration that passes the check is built exactly if every property is read, and
else the first one that is not is told. No other failure is left, for the check and the building
read names in the same way, and a size that passes the check stays positive under all properties. A
size that is too great is not noticed by the check: what a soft cache retains by default is then no
count, and the cache may be refused for having no room.

## Main definitions

* `Config.WellFormed` — the configurations that can be held.
* `Config.RetentionFits` — what soft caches retain unless told otherwise is a count.
* `CacheSettings.Reads` — every property of a cache is read.
* `Config.firstFault?` — why the first property that is refused is.

## Main statements

* `Registry.load_of_validate` — what becomes of a configuration that passes the check.
-/

namespace LayeredCache

variable {α β : Type}

/-! ## Ascending catalogs -/

namespace Catalog

/-- The names ascend, each of them once. -/
def Ascends (c : Catalog β) : Prop := c.names.Pairwise (· < ·)

instance (c : Catalog β) : Decidable c.Ascends := inferInstanceAs (Decidable (List.Pairwise _ _))

theorem Ascends.nodup {c : Catalog β} (h : c.Ascends) : c.names.Nodup := h.imp fun h => ne_of_lt h

theorem insertInto_of_lt {name : String} {l : List (String × β)} (h : ∀ e ∈ l, e.1 < name) (v : β) :
    insertInto name v l = l ++ [(name, v)] := by
  induction l with
  | nil => rfl
  | cons e l ih =>
    have hlt := h e List.mem_cons_self
    rw [insertInto, if_neg (not_lt_of_gt hlt), if_neg (ne_of_gt hlt),
      ih fun e' he' => h e' (List.mem_cons_of_mem e he')]
    rfl

/-- A name after all others is listed last. -/
theorem names_insert_of_lt {c : Catalog β} {name : String} (h : ∀ n ∈ c.names, n < name) (v : β) :
    (c.insert name v).names = c.names ++ [name] := by
  have hentries : ∀ e ∈ c.entries, e.1 < name := fun e he => h e.1 (List.mem_map_of_mem he)
  rw [names, insert, insertInto_of_lt hentries, List.map_append]
  rfl

end Catalog

namespace Registry

/-- Chains whose identifiers ascend are registered behind those that are there. -/
theorem ids_foldl_register {κ : Type} {chains : List (Chain κ)}
    (hascends : (chains.map (·.id)).Pairwise (· < ·)) {r : Registry Nat}
    (hafter : ∀ id ∈ r.ids, ∀ c ∈ chains, id < c.id) (first : Nat) :
    ((chains.zipIdx first).foldl (fun r c => (r.register c.1.id c.2).1) r).ids =
      r.ids ++ chains.map (·.id) := by
  induction chains generalizing r first with
  | nil => simp
  | cons c chains ih =>
    rw [List.map_cons, List.pairwise_cons] at hascends
    have hids : (r.register c.id first).1.ids = r.ids ++ [c.id] :=
      Catalog.names_insert_of_lt (fun id hid => hafter id hid c List.mem_cons_self) first
    have hafter' : ∀ id ∈ (r.register c.id first).1.ids, ∀ c' ∈ chains, id < c'.id := by
      intro id hid c' hc'
      rw [hids, List.mem_append, List.mem_singleton] at hid
      rcases hid with hid | rfl
      · exact hafter id hid c' (List.mem_cons_of_mem c hc')
      · exact hascends.1 _ (List.mem_map_of_mem hc')
    rw [List.zipIdx_cons, List.foldl_cons, ih hascends.2 hafter', hids, List.append_assoc]
    rfl

theorem ids_ofChains {κ : Type} {chains : List (Chain κ)}
    (h : (chains.map (·.id)).Pairwise (· < ·)) (first : Nat) :
    (ofChains first chains).ids = chains.map (·.id) :=
  ids_foldl_register h (fun _ hid => absurd hid List.not_mem_nil) first

end Registry

/-! ## Settings that pass the check -/

namespace CacheSettings

variable {c : CacheSettings}

/-- A builder has the settings that it was made of. -/
theorem toBuilder_spec {id : String} {b : Builder} (h : c.toBuilder id = .ok b) :
    b.id = id ∧ b.size = c.size ∧ b.properties = c.properties ∧
      Eviction.parse (κ := Key) c.eviction = .ok b.eviction := by
  unfold toBuilder at h
  cases himplementation : Implementation.parse (κ := Key) c.implementation with
  | error e =>
    rw [himplementation] at h
    cases h
  | ok implementation =>
    cases heviction : Eviction.parse (κ := Key) c.eviction with
    | error e =>
      rw [himplementation, heviction] at h
      cases h
    | ok eviction =>
      rw [himplementation, heviction] at h
      obtain rfl := Except.ok.inj h
      exact ⟨rfl, rfl, rfl, rfl⟩

/-- The check reads the names as the building does. -/
theorem exists_toBuilder_of_validate (h : c.validate = .ok ()) (id : String) :
    ∃ b, c.toBuilder id = .ok b := by
  unfold validate at h
  unfold toBuilder
  cases himplementation : Implementation.parse (κ := Key) c.implementation with
  | error e =>
    rw [himplementation] at h
    cases h
  | ok implementation =>
    cases heviction : Eviction.parse (κ := Key) c.eviction with
    | error e =>
      rw [himplementation, heviction] at h
      cases h
    | ok eviction => exact ⟨_, rfl⟩

theorem size_of_validate (h : c.validate = .ok ()) : c.size ≠ some 0 := by
  intro hsize
  unfold validate at h
  split at h
  · cases h
  · split at h
    · cases h
    · rw [if_pos hsize] at h
      cases h

/-- Every property is one that the eviction policy knows, with a positive count for its value. -/
def Reads (c : CacheSettings) : Prop :=
  ∃ e, Eviction.parse (κ := Key) c.eviction = .ok e ∧
    ∀ p ∈ c.properties.entries, e.Knows p.1 ∧ (positiveCount? p.2).isSome

/-- Why the first property that is refused is, if there is one. -/
def firstFault? (c : CacheSettings) (id : String) : Option (CacheError Key) :=
  match Eviction.parse (κ := Key) c.eviction with
  | .error _ => none
  | .ok e => e.firstFault? id c.properties.entries

theorem firstFault?_of_toBuilder {id : String} {b : Builder} (h : c.toBuilder id = .ok b) :
    c.firstFault? id = b.eviction.firstFault? b.id b.properties.entries := by
  obtain ⟨hid, -, hproperties, heviction⟩ := toBuilder_spec h
  rw [firstFault?, heviction, hid, hproperties]

theorem reads_iff_of_toBuilder {id : String} {b : Builder} (h : c.toBuilder id = .ok b) :
    c.Reads ↔ c.firstFault? id = none := by
  obtain ⟨-, -, hproperties, heviction⟩ := toBuilder_spec h
  rw [firstFault?_of_toBuilder h, Eviction.firstFault?_eq_none_iff, Reads, heviction, hproperties]
  simp

end CacheSettings

namespace Config

theorem validateAll_eq_ok_iff {entries : List (String × CacheSettings)} :
    validateAll entries = .ok () ↔ ∀ x ∈ entries, x.1 ≠ "" ∧ x.2.validate = .ok () := by
  induction entries with
  | nil => simp [validateAll]
  | cons x entries ih =>
    obtain ⟨name, settings⟩ := x
    rw [validateAll, List.forall_mem_cons]
    by_cases hname : name.isEmpty = true
    · simp [String.isEmpty_iff.mp hname]
    · have hne : name ≠ "" := fun h => hname (String.isEmpty_iff.mpr h)
      rw [if_neg hname]
      cases hvalid : settings.validate with
      | error e => simp
      | ok u => simp [hne, ih]

/-- Why the first property that is refused is, with the caches in the order of their names. -/
def firstFault? (config : Config) : Option (CacheError Key) :=
  config.caches.entries.findSome? fun x => x.2.firstFault? x.1

end Config

/-! ## Building -/

namespace Builder

variable {b : Builder}

/-- A size that is not set to zero is positive under all properties. -/
theorem effectiveSize_pos (hsize : b.size ≠ some 0)
    (hread : ∀ p ∈ b.properties.entries, (positiveCount? p.2).isSome) : 0 < b.effectiveSize := by
  unfold effectiveSize
  cases hproperty : b.properties.find? "size" with
  | some value =>
    obtain ⟨e, he, rfl⟩ := Option.map_eq_some_iff.mp hproperty
    obtain ⟨n, hn⟩ := Option.isSome_iff_exists.mp (hread e (List.mem_of_find?_eq_some he))
    simpa [hn] using pos_of_positiveCount? hn
  | none =>
    cases hset : b.size with
    | some n =>
      rw [hset] at hsize
      exact Nat.pos_of_ne_zero fun hn => hsize (congrArg some hn)
    | none => cases b.eviction <;> decide

/-- A builder with an identifier and a size refuses nothing but properties, as long as what it
retains is a count. -/
theorem build_of_size {κ : Type} (hid : b.id ≠ "") (hsize : b.size ≠ some 0)
    (hnames : b.properties.names.Nodup) (hfits : b.RetentionFits) (base : Nat) (m : Moment)
    (g : Ground κ α) :
    match b.eviction.firstFault? b.id b.properties.entries with
    | some e => b.build base m g = (g, .error e)
    | none => ∃ g' c, b.build base m g = (g', .ok c) ∧ c.id = b.id := by
  have hid' : ¬b.id.isEmpty = true := fun h => hid (String.isEmpty_iff.mp h)
  rw [build_eq, if_neg hid']
  cases hfault : b.eviction.firstFault? (κ := κ) b.id b.properties.entries with
  | some e => rfl
  | none =>
    have hread : ∀ p ∈ b.properties.entries, (positiveCount? p.2).isSome := fun p hp =>
      (Eviction.firstFault?_eq_none_iff.mp hfault p hp).2
    have hpos := effectiveSize_pos hsize hread
    have hroom : (layerOf b.eviction b.parameters).hasZeroCapacity = false := by
      rw [hasZeroCapacity_eq hnames hread hfits, decide_eq_false (Nat.ne_of_gt hpos)]
    simp only [hroom, Bool.false_eq_true, if_false]
    exact ⟨_, _, rfl, Chain.id_compose ..⟩

end Builder

/-- After a cache that is built come those behind it. -/
theorem Chain.buildAll_cons {name : String} {settings : CacheSettings} {b : Builder} {m : Moment}
    {base : Nat} {g g' : Ground Key α} {c : Chain Key} (hb : settings.toBuilder name = .ok b)
    (hc : b.build base m g = (g', .ok c)) (rest : List (String × CacheSettings)) :
    (buildAll m base ((name, settings) :: rest) g).2 =
      (buildAll m (base + 1) rest g').2.map (c :: ·) := by
  simp only [buildAll, hb, hc]
  rcases buildAll m (base + 1) rest g' with ⟨g'', e | chains⟩ <;> rfl

/-- Caches that pass the check are built in order, up to the first one that refuses a property. -/
theorem Chain.buildAll_of_validate {entries : List (String × CacheSettings)}
    (hvalid : ∀ x ∈ entries, x.1 ≠ "" ∧ x.2.validate = .ok ())
    (hnames : ∀ x ∈ entries, x.2.properties.names.Nodup)
    (hfits : ∀ x ∈ entries, ∀ b, x.2.toBuilder x.1 = .ok b → b.RetentionFits) (m : Moment)
    (base : Nat) (g : Ground Key α) :
    match entries.findSome? fun x => x.2.firstFault? x.1 with
    | some e => (buildAll m base entries g).2 = .error e
    | none => ∃ chains, (buildAll m base entries g).2 = .ok chains ∧
        chains.map (·.id) = entries.map (·.1) := by
  induction entries generalizing base g with
  | nil => exact ⟨[], rfl, rfl⟩
  | cons x entries ih =>
    obtain ⟨name, settings⟩ := x
    obtain ⟨⟨hname, hsettings⟩, hrest⟩ := List.forall_mem_cons.mp hvalid
    obtain ⟨hnodup, hnodups⟩ := List.forall_mem_cons.mp hnames
    obtain ⟨hfit, hfits⟩ := List.forall_mem_cons.mp hfits
    obtain ⟨b, hb⟩ := CacheSettings.exists_toBuilder_of_validate hsettings name
    obtain ⟨hid, hsize, hproperties, -⟩ := CacheSettings.toBuilder_spec hb
    have hbuild := b.build_of_size (hid ▸ hname) (hsize ▸ CacheSettings.size_of_validate hsettings)
      (hproperties ▸ hnodup) (hfit b hb) base m g
    rw [List.findSome?_cons, CacheSettings.firstFault?_of_toBuilder hb]
    cases hfault : b.eviction.firstFault? (κ := Key) b.id b.properties.entries with
    | some e =>
      rw [hfault] at hbuild
      simp only [buildAll, hb, hbuild]
    | none =>
      rw [hfault] at hbuild
      obtain ⟨g', c, hc, hcid⟩ := hbuild
      have hrec := ih hrest hnodups hfits (base + 1) g'
      simp only [buildAll_cons hb hc]
      cases hfaults : entries.findSome? fun x => x.2.firstFault? x.1 with
      | some e =>
        rw [hfaults] at hrec
        rw [hrec]
        rfl
      | none =>
        rw [hfaults] at hrec
        obtain ⟨chains, hchains, hids⟩ := hrec
        refine ⟨c :: chains, by rw [hchains]; rfl, ?_⟩
        rw [List.map_cons, List.map_cons, hids, hcid, hid]

/-! ## Counts below the limit -/

/-- The counts of a layer are below the limit. -/
def Layer.Fits : Layer → Prop
  | .lru capacity | .fifo capacity => capacity < countLimit
  | .soft bound retention => bound < countLimit ∧ retention < countLimit
  | .weak bound every => bound < countLimit ∧ every < countLimit
  | _ => True

namespace Builder

variable {b : Builder}

theorem getD_positiveCount?_lt (value : String) :
    (positiveCount? value).getD 0 < countLimit := by
  cases hn : positiveCount? value with
  | none => decide
  | some n => exact lt_of_positiveCount? hn

/-- The counts of the parameters are below the limit. -/
structure Parameters.Fits (p : Parameters) : Prop where
  size : p.size < countLimit
  retention : ∀ n ∈ p.retention, n < countLimit
  every : ∀ n ∈ p.every, n < countLimit

theorem Parameters.Fits.set {p : Parameters} (h : p.Fits) {n : Nat} (hn : n < countLimit)
    (name : String) : (p.set name n).Fits := by
  unfold Parameters.set
  split
  · exact { h with size := hn }
  · split
    · exact { h with retention := fun _ heq => Option.some.inj heq ▸ hn }
    · exact { h with every := fun _ heq => Option.some.inj heq ▸ hn }

theorem Parameters.Fits.setAll {properties : List (String × String)} {p : Parameters}
    (h : p.Fits) : (p.setAll properties).Fits := by
  induction properties generalizing p with
  | nil => exact h
  | cons e properties ih => exact ih (h.set (getD_positiveCount?_lt e.2) e.1)

/-- The parameters of a builder have counts below the limit if its size is. -/
theorem fits_parameters (h : ∀ n ∈ b.size, n < countLimit) : b.parameters.Fits := by
  refine Parameters.Fits.setAll ⟨?_, nofun, nofun⟩
  cases hsize : b.size with
  | some n => exact h n hsize
  | none => cases b.eviction <;> decide

theorem fits_layerOf {e : Eviction} {p : Parameters} (h : p.Fits) : (layerOf e p).Fits := by
  cases e with
  | lru => exact h.size
  | fifo => exact h.size
  | soft =>
    refine ⟨h.size, ?_⟩
    cases hretention : p.retention with
    | none => exact Nat.mod_lt _ (by decide)
    | some n => exact h.retention n hretention
  | weak =>
    refine ⟨h.size, ?_⟩
    cases hevery : p.every with
    | none => decide
    | some n => exact h.every n hevery

theorem fits_outerLayers (b : Builder) : ∀ l ∈ b.outerLayers, l.Fits := by
  unfold outerLayers
  cases b.flushInterval <;> cases b.readWrite <;> cases b.blocking <;> simp [Layer.Fits]

/-- The layers that are resolved have counts below the limit, and what is retained unless told
otherwise, which is computed in any case, is the product that it should be. -/
theorem fits_layers {κ : Type} (hnames : b.properties.names.Nodup)
    (hsize : ∀ n ∈ b.size, n < countLimit)
    (hretention : b.RetentionFits) {layers : List Layer} (h : b.layers (κ := κ) = .ok layers) :
    (b.eviction = .soft → defaultRetention b.parameters.size =
      b.parameters.size * Leasing.retentionFactor) ∧ ∀ l ∈ layers, l.Fits := by
  refine ⟨fun hsoft => ?_, ?_⟩
  · rw [defaultRetention_eq_iff, size_parameters hnames]
    exact hretention hsoft
  rw [layers_eq] at h
  split at h
  · cases h
  · cases hfault : b.eviction.firstFault? (κ := κ) b.id b.properties.entries with
    | some e =>
      rw [hfault] at h
      cases h
    | none =>
      rw [hfault] at h
      obtain rfl := Except.ok.inj h
      exact List.forall_mem_cons.mpr
        ⟨fits_layerOf (fits_parameters hsize), b.fits_outerLayers⟩

end Builder

/-! ## Loading -/

/-- A configuration as it can be held: the names of its caches ascend, and so do those of the
properties of each cache, and every size is below the limit of counts. -/
structure Config.WellFormed (config : Config) : Prop where
  caches : config.caches.Ascends
  properties : ∀ x ∈ config.caches.entries, x.2.properties.Ascends
  size : ∀ x ∈ config.caches.entries, ∀ n ∈ x.2.size, n < countLimit

/-- The number of values that a soft cache of the configuration retains unless told otherwise is
below the limit of counts. -/
def Config.RetentionFits (config : Config) : Prop :=
  ∀ x ∈ config.caches.entries, ∀ b, x.2.toBuilder x.1 = .ok b → b.RetentionFits

namespace Registry

theorem load_of_buildAll {m : Moment} {base : Nat} {config : Config} {g : Ground Key α}
    {r : Except (CacheError Key) (List (Chain Key))}
    (h : (Chain.buildAll m base config.caches.entries g).2 = r) :
    (load m base config g).2 = r.map fun chains => (chains, ofChains base chains) := by
  unfold load
  rcases hall : Chain.buildAll m base config.caches.entries g with ⟨g', r'⟩
  rw [hall] at h
  subst h
  cases r' <;> rfl

/-- What becomes of a configuration that passes the check. Its caches are built and registered under
the names that were configured exactly if all properties are read. Otherwise the first property that
is refused is told, and nothing else ever is. No count that is computed exceeds the limit, so what
soft caches retain by default is the product that it should be. -/
theorem load_of_validate {config : Config} (hformed : config.WellFormed)
    (hretention : config.RetentionFits) (hvalid : config.validate = .ok ()) (m : Moment)
    (base : Nat) (g : Ground Key α) :
    ((∃ chains registry, (load m base config g).2 = .ok (chains, registry)) ↔
        ∀ x ∈ config.caches.entries, x.2.Reads) ∧
      (∀ chains registry, (load m base config g).2 = .ok (chains, registry) →
        registry.ids = config.caches.names ∧ chains.map (·.id) = config.caches.names) ∧
      (∀ e, (load m base config g).2 = .error e ↔ config.firstFault? = some e) ∧
      ∀ x ∈ config.caches.entries, ∀ b layers, x.2.toBuilder x.1 = .ok b →
        b.layers (κ := Key) = .ok layers →
          (b.eviction = .soft → Builder.defaultRetention b.parameters.size =
            b.parameters.size * Leasing.retentionFactor) ∧ ∀ l ∈ layers, l.Fits := by
  have hentries := Config.validateAll_eq_ok_iff.mp hvalid
  have hnames : ∀ x ∈ config.caches.entries, x.2.properties.names.Nodup := fun x hx =>
    (hformed.properties x hx).nodup
  have hreads : (∀ x ∈ config.caches.entries, x.2.Reads) ↔ config.firstFault? = none := by
    rw [Config.firstFault?, List.findSome?_eq_none_iff]
    refine forall₂_congr fun x hx => ?_
    obtain ⟨b, hb⟩ := CacheSettings.exists_toBuilder_of_validate (hentries x hx).2 x.1
    exact CacheSettings.reads_iff_of_toBuilder hb
  have hbuilt := Chain.buildAll_of_validate hentries hnames hretention m base g
  rw [hreads, ← and_assoc, ← and_assoc]
  refine ⟨?_, ?_⟩
  · cases hfault : config.firstFault? with
    | some e =>
      rw [Config.firstFault?] at hfault
      rw [hfault] at hbuilt
      rw [load_of_buildAll hbuilt]
      simp [Except.map]
    | none =>
      rw [Config.firstFault?] at hfault
      rw [hfault] at hbuilt
      obtain ⟨chains, hchains, hids⟩ := hbuilt
      have hascends : (chains.map (·.id)).Pairwise (· < ·) := hids ▸ hformed.caches
      rw [load_of_buildAll hchains]
      simp [Except.map, ids_ofChains hascends, hids, Catalog.names]
  · intro x hx b layers hb hlayers
    obtain ⟨-, hsize, hproperties, -⟩ := CacheSettings.toBuilder_spec hb
    exact Builder.fits_layers (hproperties ▸ hnames x hx) (hsize ▸ hformed.size x hx)
      (hretention x hx b hb) hlayers

/-! ## Properties of one policy under another one -/

namespace Mistaken

/-- A retention for a cache that evicts by recency, and so does not know one. -/
def config : Config :=
  { caches := ⟨[("users", { properties := ⟨[("retention", "10")]⟩ })]⟩ }

theorem wellFormed : config.WellFormed where
  caches := by decide
  properties := by decide
  size := by decide

theorem retentionFits : config.RetentionFits := by
  intro x hx b hb hsoft
  obtain rfl := List.mem_singleton.mp hx
  obtain rfl := Except.ok.inj hb
  cases hsoft

/-- The configuration passes the check, and its cache is not built. -/
theorem passes_check_and_is_refused :
    config.WellFormed ∧ config.RetentionFits ∧ config.validate = .ok () ∧
      (load {} 0 config ({} : Ground Key Sample)).2 =
        .error (.unknownProperty "users" "retention") :=
  ⟨wellFormed, retentionFits, by decide, rfl⟩

end Mistaken

/-! ## A retention that is no count -/

namespace Wrapped

/-- A soft cache with a size of which the multiple comes out as zero. -/
def config : Config :=
  { caches := ⟨[("users", { eviction := "soft", size := some (Nat.pow 2 61) })]⟩ }

def builder : Builder := { id := "users", eviction := .soft, size := some (Nat.pow 2 61) }

/-- The configuration passes the check, and it has no property to be refused, but its cache is not
built: its retention is no count. -/
theorem fails_for_retention :
    config.validate = .ok () ∧ (∀ x ∈ config.caches.entries, x.2.Reads) ∧ ¬config.RetentionFits ∧
      (load {} 0 config ({} : Ground Key Sample)).2 =
        .error (.invalidChain "users" "capacities must be greater than 0") := by
  have hbuilder : CacheSettings.toBuilder { eviction := "soft", size := some (Nat.pow 2 61) }
      "users" = .ok builder := rfl
  have hbuild := builder.build_of_dvd rfl (by decide) List.nodup_nil rfl rfl (Nat.dvd_refl _) 0 {}
    ({} : Ground Key Sample)
  refine ⟨by decide, ?_, ?_, ?_⟩
  · rintro x hx
    obtain rfl := List.mem_singleton.mp hx
    exact ⟨.soft, rfl, by decide⟩
  · intro hfits
    exact absurd (hfits _ List.mem_cons_self _ hbuilder rfl) (by decide)
  · have hall : (Chain.buildAll {} 0 config.caches.entries ({} : Ground Key Sample)).2 =
        .error (.invalidChain "users" "capacities must be greater than 0") := by
      simp only [config, Chain.buildAll, hbuilder, hbuild]
      rfl
    exact load_of_buildAll hall

end Wrapped

/-! ## Properties that are known -/

namespace Varied

/-- Caches of three policies, each with properties that its policy knows. -/
def config : Config :=
  { caches := ⟨[
      ("orders", { eviction := "FIFO", size := some 5, properties := ⟨[("size", " +12 ")]⟩ }),
      ("sessions", { eviction := "soft", properties := ⟨[("retention", "64"), ("size", "3")]⟩ }),
      ("users", { eviction := "weak", blocking := true, timeoutMillis := 30,
                  properties := ⟨[("collect_every", "7")]⟩ })]⟩ }

theorem wellFormed : config.WellFormed where
  caches := by decide
  properties := by decide
  size := by decide

theorem retentionFits : config.RetentionFits := by
  intro x hx b hb hsoft
  simp only [config, List.mem_cons, List.not_mem_nil, or_false] at hx
  rcases hx with rfl | rfl | rfl
  · obtain rfl := Except.ok.inj hb
    cases hsoft
  · obtain rfl := Except.ok.inj hb
    decide
  · obtain rfl := Except.ok.inj hb
    cases hsoft

theorem reads : ∀ x ∈ config.caches.entries, x.2.Reads := by
  simp only [config, List.forall_mem_cons, List.not_mem_nil, false_implies, implies_true, and_true]
  exact ⟨⟨.fifo, rfl, by decide⟩, ⟨.soft, rfl, by decide⟩, ⟨.weak, rfl, by decide⟩⟩

/-- All caches are built, and the registry has their names. -/
theorem all_are_built :
    ∃ chains registry,
      (load {} 0 config ({} : Ground Key Sample)).2 = .ok (chains, registry) ∧
        registry.ids = ["orders", "sessions", "users"] := by
  obtain ⟨hbuilt, hids, -, -⟩ := load_of_validate wellFormed retentionFits (by decide) {} 0
    ({} : Ground Key Sample)
  obtain ⟨chains, registry, hload⟩ := hbuilt.mpr reads
  exact ⟨chains, registry, hload, (hids chains registry hload).1⟩

end Varied

end Registry

end LayeredCache
