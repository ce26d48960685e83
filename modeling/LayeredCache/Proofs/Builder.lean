import LayeredCache.Builder
import LayeredCache.Proofs.Chain

/-!
# What a builder builds

The chain of a builder has the layers that follow from its settings: the eviction layer on the base
store, outside it layers that reclaim nothing, and the latches, if there are any, outside all.
-/

namespace LayeredCache.Builder

variable {κ α : Type}

theorem isBuilt_of_build [DecidableEq κ] {b : Builder} {base : Nat} {m : Moment}
    {layers : List Layer} {g₀ g : Ground κ α} {c : Chain κ} (h : b.build base m g₀ = (g, .ok c))
    (hlayers : b.layers (κ := κ) = .ok layers) : Chain.IsBuilt base layers g₀ g c := by
  unfold build at h
  rw [hlayers] at h
  exact Chain.isBuilt_of_build h

theorem exists_isBuilt_of_build [DecidableEq κ] {b : Builder} {base : Nat} {m : Moment}
    {g₀ g : Ground κ α} {c : Chain κ} (h : b.build base m g₀ = (g, .ok c)) :
    ∃ layers, b.layers (κ := κ) = .ok layers ∧ Chain.IsBuilt base layers g₀ g c := by
  cases hlayers : b.layers (κ := κ) with
  | error e =>
    unfold build at h
    rw [hlayers] at h
    cases h
  | ok layers => exact ⟨layers, rfl, isBuilt_of_build h hlayers⟩

theorem exists_layerOf_of_layers {b : Builder} {layers : List Layer}
    (h : b.layers (κ := κ) = .ok layers) :
    ∃ p, layers = layerOf b.eviction p :: b.outerLayers := by
  unfold Builder.layers evictionLayer at h
  split at h
  · cases h
  · cases hp : b.applyProperties (κ := κ) { size := b.size.getD b.eviction.defaultSize }
        b.properties.entries with
    | error e =>
      rw [hp] at h
      cases h
    | ok p =>
      rw [hp] at h
      injection h with h
      exact ⟨p, h.symm⟩

theorem kind_layerOf (e : Eviction) (p : Parameters) : (layerOf e p).kind ≠ .latching := by
  cases e <;> exact nofun

/-- The layers between the eviction layer and the latches. -/
def middleLayers (b : Builder) : List Layer :=
  b.flushInterval.toList.map .scheduled ++ (if b.readWrite then [.serialized] else []) ++
    [.logging, .synchronized]

theorem outerLayers_eq (b : Builder) :
    b.outerLayers =
      b.middleLayers ++ if b.blocking then [.blocking b.blockingTimeout] else [] := rfl

/-- The layers between neither latch nor reclaim. -/
theorem kind_middleLayers {b : Builder} {l : Layer} (h : l ∈ b.middleLayers) :
    l.kind ≠ .latching ∧ l.kind ≠ .leasing := by
  rw [middleLayers, List.mem_append, List.mem_append, List.mem_map] at h
  rcases h with (⟨span, -, rfl⟩ | h) | h
  · exact ⟨nofun, nofun⟩
  · split at h
    · obtain rfl := List.mem_singleton.mp h
      exact ⟨nofun, nofun⟩
    · cases h
  · rcases List.mem_pair.mp h with rfl | rfl <;> exact ⟨nofun, nofun⟩

/-- A chain that is built with latches has them outside all layers, and a layer that reclaims, if
there is one, on the base store. -/
theorem exists_kinds_of_blocking [DecidableEq κ] {b : Builder} (hblocking : b.blocking = true)
    {base : Nat} {layers : List Layer} {g₀ g : Ground κ α} {c : Chain κ}
    (hlayers : b.layers (κ := κ) = .ok layers) (hbuilt : Chain.IsBuilt base layers g₀ g c) :
    ∃ kinds, c.kinds = .latching :: kinds ∧ .latching ∉ kinds ∧ .leasing ∉ kinds.dropLast := by
  obtain ⟨p, rfl⟩ := exists_layerOf_of_layers hlayers
  have hmiddle : ∀ kind ∈ (b.middleLayers.map Layer.kind).reverse,
      kind ≠ .latching ∧ kind ≠ .leasing := by
    intro kind hkind
    obtain ⟨l, hl, rfl⟩ := List.mem_map.mp (List.mem_reverse.mp hkind)
    exact kind_middleLayers hl
  refine ⟨(b.middleLayers.map Layer.kind).reverse ++ [(layerOf b.eviction p).kind], ?_, ?_, ?_⟩
  · rw [hbuilt.kinds_eq, outerLayers_eq, if_pos hblocking]
    simp [Layer.kind]
  · rw [List.mem_append, List.mem_singleton]
    rintro (hm | hm)
    · exact (hmiddle _ hm).1 rfl
    · exact kind_layerOf b.eviction p hm.symm
  · rw [List.dropLast_concat]
    exact fun hm => (hmiddle _ hm).2 rfl

/-- In a chain that is built only what excludes or latches lies outside the counting layer. -/
theorem exists_counting {b : Builder} {base : Nat} {layers : List Layer}
    {g₀ g : Ground κ α} {c : Chain κ} (hlayers : b.layers (κ := κ) = .ok layers)
    (hbuilt : Chain.IsBuilt base layers g₀ g c) :
    ∃ outer inner, c.kinds = outer ++ .counting :: inner ∧
      (∀ kind ∈ outer, kind = .passing ∨ kind = .latching) ∧ .counting ∉ inner := by
  obtain ⟨p, rfl⟩ := exists_layerOf_of_layers hlayers
  have hinner : .counting ≠ (layerOf b.eviction p).kind := by cases b.eviction <;> exact nofun
  refine ⟨if b.blocking then [.latching, .passing] else [.passing],
    (if b.readWrite then [.packing] else []) ++ (b.flushInterval.toList.map fun _ => .window) ++
      [(layerOf b.eviction p).kind], ?_, ?_, ?_⟩
  · rw [hbuilt.kinds_eq, outerLayers]
    cases b.readWrite <;> cases b.blocking <;> cases b.flushInterval <;> simp [Layer.kind]
  · cases b.blocking <;> simp
  · cases b.readWrite <;> cases b.flushInterval <;> simp [hinner]

/-- In a chain that is built only the innermost layer reclaims. -/
theorem leasing_not_mem {b : Builder} {base : Nat} {layers : List Layer}
    {g₀ g : Ground κ α} {c : Chain κ} (hlayers : b.layers (κ := κ) = .ok layers)
    (hbuilt : Chain.IsBuilt base layers g₀ g c) : .leasing ∉ c.kinds.dropLast := by
  obtain ⟨p, rfl⟩ := exists_layerOf_of_layers hlayers
  rw [hbuilt.kinds_eq, List.map_cons, List.reverse_cons, List.dropLast_concat, outerLayers]
  cases b.readWrite <;> cases b.blocking <;> cases b.flushInterval <;> simp [Layer.kind]

/-- Of the layers outside the eviction layer none reclaims, at most one keeps bytes, and none has a
capacity of zero. -/
theorem outerLayers_spec (b : Builder) :
    (∀ l ∈ b.outerLayers, l.isReclaiming = false) ∧ b.outerLayers.count .serialized ≤ 1 ∧
      ∀ l ∈ b.outerLayers, l.hasZeroCapacity = false := by
  unfold outerLayers
  cases b.flushInterval <;> cases b.readWrite <;> cases b.blocking <;>
    simp [Layer.isReclaiming, Layer.kind, Layer.hasZeroCapacity]

/-- A chain that is built under a policy that only bounds does not reclaim. -/
theorem leasing_not_mem_of_evicts {b : Builder} (hevicts : b.eviction = .lru ∨ b.eviction = .fifo)
    {base : Nat} {layers : List Layer} {g₀ g : Ground κ α} {c : Chain κ}
    (hlayers : b.layers (κ := κ) = .ok layers) (hbuilt : Chain.IsBuilt base layers g₀ g c) :
    .leasing ∉ c.kinds := by
  obtain ⟨p, rfl⟩ := exists_layerOf_of_layers hlayers
  refine hbuilt.leasing_not_mem fun l hl => ?_
  rcases List.mem_cons.mp hl with rfl | hl
  · rcases hevicts with he | he <;> rw [he] <;> rfl
  · exact b.outerLayers_spec.1 l hl

/-- Only a policy that bounds puts a bounded layer into a chain. -/
theorem evicts_of_mem {b : Builder} {layers : List Layer} (hlayers : b.layers (κ := κ) = .ok layers)
    {n : Nat} (hn : .lru n ∈ layers ∨ .fifo n ∈ layers) :
    b.eviction = .lru ∨ b.eviction = .fifo := by
  obtain ⟨p, rfl⟩ := exists_layerOf_of_layers hlayers
  have houter : .lru n ∉ b.outerLayers ∧ .fifo n ∉ b.outerLayers := by
    simp only [outerLayers]
    cases b.readWrite <;> cases b.blocking <;> cases b.flushInterval <;> simp
  have hfirst : layerOf b.eviction p = .lru n ∨ layerOf b.eviction p = .fifo n :=
    hn.imp (fun hn => ((List.mem_cons.mp hn).resolve_right houter.1).symm)
      fun hn => ((List.mem_cons.mp hn).resolve_right houter.2).symm
  cases he : b.eviction with
  | lru => exact .inl rfl
  | fifo => exact .inr rfl
  | soft | weak =>
    rw [he] at hfirst
    rcases hfirst with h | h <;> cases h

/-- A chain that is built with a bounded layer does not reclaim. -/
theorem leasing_not_mem_of_bounded {b : Builder} {base : Nat} {layers : List Layer}
    {g₀ g : Ground κ α} {c : Chain κ} (hlayers : b.layers (κ := κ) = .ok layers)
    (hbuilt : Chain.IsBuilt base layers g₀ g c) {n : Nat}
    (hn : .lru n ∈ layers ∨ .fifo n ∈ layers) : .leasing ∉ c.kinds :=
  leasing_not_mem_of_evicts (evicts_of_mem hlayers hn) hlayers hbuilt

end LayeredCache.Builder
