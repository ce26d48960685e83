import LayeredCache.Chain
import LayeredCache.Proofs.Layer.Upheld

/-!
# What building a chain gives

A chain that was built has the layers that were asked for, the last one outermost, over the base
store that was asked for, and its states are sound: a layer without room for a key is refused.
Building changes no base store.
-/

namespace LayeredCache

variable {κ α : Type} [DecidableEq κ]

/-- The interval of a layer that flushes. -/
def Layer.interval? : Layer → Option Span
  | scheduled interval => some interval
  | _ => none

theorem Layer.kind_eq_packing_iff {l : Layer} : l.kind = .packing ↔ l = .serialized := by
  cases l <;> simp [kind]

theorem Layer.sound_initial (w : Wiring) (m : Moment) {l : Layer}
    (h : l.hasZeroCapacity = false) : l.kind.Sound (l.initial κ w m) := by
  cases l with
  | lru capacity =>
    have hpos : capacity ≠ 0 := by simpa [hasZeroCapacity] using h
    exact ⟨Recency.valid_ofCapacity capacity, Nat.one_le_iff_ne_zero.mpr hpos⟩
  | _ => trivial

theorem Layer.registered_initial (t : Table κ (Cell α)) (w : Wiring) (m : Moment) (l : Layer) :
    l.kind.Registered t (l.initial κ w m) := by
  cases l with
  | soft hardBound retention => exact ⟨Table.distinct_empty, fun _ _ _ => rfl⟩
  | weak hardBound every => exact ⟨Table.distinct_empty, fun _ _ _ => rfl⟩
  | _ => trivial

namespace Chain

/-! ## Composing -/

section Compose

omit [DecidableEq κ]

theorem compose_append (c : Chain κ) (m : Moment) (layers layers' : List (Layer × Wiring)) :
    c.compose m (layers ++ layers') = (c.compose m layers).compose m layers' := by
  simp only [compose, List.foldl_append]

theorem id_compose (c : Chain κ) (m : Moment) (layers : List (Layer × Wiring)) :
    (c.compose m layers).id = c.id := by
  induction layers generalizing c with
  | nil => rfl
  | cons l layers ih => exact ih (c.wrap l.1 l.2 m)

theorem base_compose (c : Chain κ) (m : Moment) (layers : List (Layer × Wiring)) :
    (c.compose m layers).base = c.base := by
  induction layers generalizing c with
  | nil => rfl
  | cons l layers ih => exact ih (c.wrap l.1 l.2 m)

theorem kinds_compose (c : Chain κ) (m : Moment) (layers : List (Layer × Wiring)) :
    (c.compose m layers).kinds = (layers.map (·.1.kind)).reverse ++ c.kinds := by
  induction layers generalizing c with
  | nil => rfl
  | cons l layers ih =>
    have hrest := ih (c.wrap l.1 l.2 m)
    rw [kinds_wrap] at hrest
    rw [List.map_cons, List.reverse_cons, List.append_assoc]
    exact hrest

theorem all_compose {P : (kind : Kind) → kind.State κ → Prop} {m : Moment} {c : Chain κ}
    {layers : List (Layer × Wiring)} (hc : Stack.All P c.kinds c.stack)
    (hlayers : ∀ l ∈ layers, P l.1.kind (l.1.initial κ l.2 m)) :
    Stack.All P (c.compose m layers).kinds (c.compose m layers).stack := by
  induction layers generalizing c with
  | nil => exact hc
  | cons l layers ih =>
    have hl := hlayers l List.mem_cons_self
    have hwrap : Stack.All P (c.wrap l.1 l.2 m).kinds (c.wrap l.1 l.2 m).stack := ⟨hl, hc⟩
    exact ih hwrap fun l' hl' => hlayers l' (List.mem_cons_of_mem l hl')

end Compose

/-! ## Valid lists of layers -/

section Valid

omit [DecidableEq κ]

variable {id : String} {layers : List Layer}

theorem validate_eq_ok_iff :
    Layer.validate (κ := κ) id layers = .ok () ↔
      (∀ l ∈ layers.drop 1, l.isReclaiming = false) ∧ layers.count .serialized ≤ 1 ∧
        ∀ l ∈ layers, l.hasZeroCapacity = false := by
  have hreclaiming : (layers.drop 1).any Layer.isReclaiming = false ↔
      ∀ l ∈ layers.drop 1, l.isReclaiming = false := by simp
  have hzero : layers.any Layer.hasZeroCapacity = false ↔
      ∀ l ∈ layers, l.hasZeroCapacity = false := by simp
  rw [← hreclaiming, ← hzero, ← Nat.not_lt]
  unfold Layer.validate
  split
  · next h => simp only [h, reduceCtorEq, Bool.true_eq_false, false_and]
  · next h =>
    split
    · next hcount => simp only [hcount, reduceCtorEq, not_true_eq_false, false_and, and_false]
    · next hcount =>
      split
      · next hany => simp only [hany, reduceCtorEq, Bool.true_eq_false, and_false]
      · next hany =>
        exact iff_of_true rfl
          ⟨Bool.eq_false_iff.mpr h, hcount, Bool.eq_false_iff.mpr hany⟩

theorem hasZeroCapacity_of_validate (h : Layer.validate (κ := κ) id layers = .ok ()) {l : Layer}
    (hl : l ∈ layers) : l.hasZeroCapacity = false := (validate_eq_ok_iff.mp h).2.2 l hl

/-- In a valid list of layers only the first one may reclaim. -/
theorem reclaiming_of_validate (h : Layer.validate (κ := κ) id layers = .ok ()) :
    (layers.drop 1).any Layer.isReclaiming = false := by
  simpa using (validate_eq_ok_iff.mp h).1

theorem leasing_not_mem_of_validate (h : Layer.validate (κ := κ) id layers = .ok ()) :
    .leasing ∉ ((layers.map Layer.kind).reverse).dropLast := by
  rw [List.dropLast_reverse, List.mem_reverse, ← List.drop_one, ← List.map_drop, List.mem_map]
  rintro ⟨l, hl, hkind⟩
  have hreclaims : l.isReclaiming = true := decide_eq_true hkind
  rw [(validate_eq_ok_iff.mp h).1 l hl] at hreclaims
  cases hreclaims

theorem count_serialized_of_validate (h : Layer.validate (κ := κ) id layers = .ok ()) :
    layers.count .serialized ≤ 1 := (validate_eq_ok_iff.mp h).2.1

/-- Leaving out layers keeps a list of layers valid. -/
theorem validate_of_sublist {layers' : List Layer} (hsub : layers'.Sublist layers)
    (h : Layer.validate (κ := κ) id layers = .ok ()) :
    Layer.validate (κ := κ) id layers' = .ok () := by
  obtain ⟨hreclaiming, hcount, hzero⟩ := validate_eq_ok_iff.mp h
  exact validate_eq_ok_iff.mpr ⟨fun l hl => hreclaiming l ((hsub.drop 1).subset hl),
    Nat.le_trans (List.Sublist.count_le _ hsub) hcount, fun l hl => hzero l (hsub.subset hl)⟩

end Valid

/-! ## Stacking -/

section Stacking

omit [DecidableEq κ]

variable {w : Wiring} {m : Moment} {c c' : Chain κ} {layers : List Layer}

/-- Layers are put outside one after the other exactly if none of them has a place of its own. -/
theorem decorateAll_eq_ok_iff :
    c.decorateAll w m layers = .ok c' ↔
      (∀ l ∈ layers, l.isReclaiming = false) ∧ .serialized ∉ layers ∧
        c' = c.compose m (layers.map fun l => (l, w)) := by
  induction layers generalizing c with
  | nil =>
    have hnone : c.decorateAll w m [] = .ok c' ↔ c' = c := by
      rw [decorateAll, Except.ok.injEq]
      exact eq_comm
    simpa [compose] using hnone
  | cons l layers ih =>
    rw [decorateAll, decorate]
    split
    · next e he =>
      constructor
      · exact nofun
      · rintro ⟨hreclaiming, hserialized, -⟩
        have hplaced : (l.isReclaiming || decide (l = .serialized)) = false := by
          simpa [hreclaiming l List.mem_cons_self] using
            fun hl : l = .serialized => hserialized (hl ▸ List.mem_cons_self)
        simp [hplaced] at he
    · next c₁ hc₁ =>
      split at hc₁
      · cases hc₁
      · next hplaced =>
        cases hc₁
        obtain ⟨hreclaiming, hserialized⟩ :
            l.isReclaiming = false ∧ ¬l = .serialized := by simpa using hplaced
        rw [ih]
        simp [hreclaiming, Ne.symm hserialized, compose]

/-- Layers are stacked on the base store exactly if none of them keeps bytes and only the first one
may reclaim. -/
theorem stackOn_eq_ok_iff :
    c.stackOn w m layers = .ok c' ↔
      (∀ l ∈ layers.drop 1, l.isReclaiming = false) ∧ .serialized ∉ layers ∧
        c' = c.compose m (layers.map fun l => (l, w)) := by
  cases layers with
  | nil =>
    have hnone : c.stackOn w m [] = .ok c' ↔ c' = c := by
      rw [stackOn, Except.ok.injEq]
      exact eq_comm
    simpa [compose] using hnone
  | cons l layers =>
    rw [stackOn]
    split
    · next hl =>
      have hne : l ≠ .serialized := by
        rintro rfl
        cases hl
      rw [decorateAll_eq_ok_iff]
      simp [Ne.symm hne, compose]
    · next hl =>
      rw [decorateAll_eq_ok_iff]
      simp [hl]

/-- All layers are stacked exactly if only the first one may reclaim and at most one keeps bytes. -/
theorem assemble_eq_ok_iff :
    c.assemble w m layers = .ok c' ↔
      (∀ l ∈ layers.drop 1, l.isReclaiming = false) ∧ layers.count .serialized ≤ 1 ∧
        c' = c.compose m (layers.map fun l => (l, w)) := by
  have hinner : .serialized ∉ layers.takeWhile (· ≠ .serialized) := by
    intro hm
    have hne := List.all_eq_true.mp List.all_takeWhile _ hm
    simp at hne
  have hsplit := List.takeWhile_append_dropWhile (p := (· ≠ Layer.serialized)) (l := layers)
  rw [assemble]
  split
  · next hnone =>
    rw [hnone, List.append_nil] at hsplit
    rw [hsplit] at hinner
    rw [stackOn_eq_ok_iff]
    simp [hinner, List.count_eq_zero.mpr hinner]
  · next border outer hborder =>
    obtain rfl : border = .serialized := by
      have hhead := List.head?_dropWhile_not (· ≠ Layer.serialized) layers
      rw [hborder] at hhead
      simpa using hhead
    rw [hborder] at hsplit
    generalize layers.takeWhile (· ≠ .serialized) = inner at hinner hsplit
    subst hsplit
    -- The border reclaims nothing, so it does not matter whether it is the first layer.
    have hfirst : (∀ l ∈ (inner ++ .serialized :: outer).drop 1, l.isReclaiming = false) ↔
        (∀ l ∈ inner.drop 1, l.isReclaiming = false) ∧
          ∀ l ∈ outer, l.isReclaiming = false := by
      have hreclaims : Layer.serialized.isReclaiming = false := rfl
      cases inner with
      | nil => simp
      | cons l inner => simp [or_imp, forall_and, hreclaims]
    have hcount : (inner ++ .serialized :: outer).count .serialized ≤ 1 ↔
        .serialized ∉ outer := by
      rw [List.count_append, List.count_eq_zero.mpr hinner, List.count_cons_self,
        ← List.count_eq_zero]
      omega
    rw [hfirst, hcount]
    split
    · next e he =>
      constructor
      · exact nofun
      · rintro ⟨⟨hin, -⟩, -⟩
        rw [stackOn_eq_ok_iff.mpr ⟨hin, hinner, rfl⟩] at he
        cases he
    · next below hbelow =>
      obtain ⟨hin, -, rfl⟩ := stackOn_eq_ok_iff.mp hbelow
      rw [decorateAll_eq_ok_iff, List.map_append, compose_append, and_assoc]
      exact ⟨fun h => ⟨hin, h⟩, fun h => h.2⟩

/-- Stacking a valid list of layers does not fail. -/
theorem assemble_of_validate {id : String} (h : Layer.validate (κ := κ) id layers = .ok ()) :
    c.assemble w m layers = .ok (c.compose m (layers.map fun l => (l, w))) :=
  assemble_eq_ok_iff.mpr ⟨(validate_eq_ok_iff.mp h).1, count_serialized_of_validate h, rfl⟩

end Stacking

/-! ## Building -/

omit [DecidableEq κ] in
/-- A chain that was built is composed of the layers that were asked for. -/
theorem eq_compose_of_build {id : String} {base : Nat} {signal : Signal} {layers : List Layer}
    {m : Moment} {g₀ g : Ground κ α} {c : Chain κ}
    (h : build id base signal layers m g₀ = (g, .ok c)) :
    Layer.validate (κ := κ) id layers = .ok () ∧
      c = (bare id base).compose m (layers.map fun l => (l, { signal := signal })) := by
  unfold build at h
  split at h
  · cases h
  · split at h
    · cases h
    · next hvalid =>
      split at h
      · cases h
      · next hstack =>
        cases h
        exact ⟨hvalid, (assemble_eq_ok_iff.mp hstack).2.2⟩

omit [DecidableEq κ] in
theorem ground_of_build {id : String} {base : Nat} {signal : Signal} {layers : List Layer}
    {m : Moment} {g₀ g : Ground κ α} {c : Chain κ}
    (h : build id base signal layers m g₀ = (g, .ok c)) :
    id.isEmpty = false ∧ g = g₀.note (.built id (Layer.describe layers)) := by
  unfold build at h
  split at h
  · cases h
  · next hid =>
    split at h
    · cases h
    · split at h
      · cases h
      · cases h
        exact ⟨Bool.eq_false_iff.mpr hid, rfl⟩

omit [DecidableEq κ] in
/-- Building accepts a valid list of layers. -/
theorem build_of_validate {id : String} (hid : id.isEmpty = false) (base : Nat) (signal : Signal)
    {layers : List Layer} (h : Layer.validate (κ := κ) id layers = .ok ()) (m : Moment)
    (g : Ground κ α) :
    build id base signal layers m g = (g.note (.built id (Layer.describe layers)),
      .ok ((bare id base).compose m (layers.map fun l => (l, { signal := signal })))) := by
  have hstack := assemble_of_validate (c := (bare id base : Chain κ)) (w := { signal := signal })
    (m := m) h
  simp only [build, hid, h, hstack]
  rfl

/-- A chain that was built. -/
structure IsBuilt (base : Nat) (layers : List Layer) (g₀ : Ground κ α) (g : Ground κ α)
    (c : Chain κ) : Prop where
  base_eq : c.base = base
  kinds_eq : c.kinds = (layers.map Layer.kind).reverse
  /-- What new layers have in common, the layers of the chain have. -/
  all : ∀ P : (kind : Kind) → kind.State κ → Prop,
    (∀ l ∈ layers, l.hasZeroCapacity = false → ∀ w m, P l.kind (l.initial κ w m)) →
      Stack.All P c.kinds c.stack
  store_eq : ∀ b, g.store b = g₀.store b

theorem IsBuilt.sound {base : Nat} {layers : List Layer} {g₀ g : Ground κ α} {c : Chain κ}
    (h : IsBuilt base layers g₀ g c) : Stack.Sound c.kinds c.stack :=
  h.all Kind.Sound fun _ _ hl w m => Layer.sound_initial w m hl

theorem IsBuilt.registered {base : Nat} {layers : List Layer} {g₀ g : Ground κ α} {c : Chain κ}
    (h : IsBuilt base layers g₀ g c) (t : Table κ (Cell α)) : Stack.Registered t c.kinds c.stack :=
  h.all (Kind.Registered t) fun l _ _ w m => Layer.registered_initial t w m l

omit [DecidableEq κ] in
theorem isBuilt_of_build {id : String} {base : Nat} {signal : Signal} {layers : List Layer}
    {m : Moment} {g₀ g : Ground κ α} {c : Chain κ}
    (h : build id base signal layers m g₀ = (g, .ok c)) : IsBuilt base layers g₀ g c := by
  obtain ⟨hvalid, rfl⟩ := eq_compose_of_build h
  obtain ⟨-, rfl⟩ := ground_of_build h
  refine ⟨base_compose .., ?_, fun P hP => all_compose trivial ?_, fun _ => rfl⟩
  · rw [kinds_compose, List.map_map]
    exact List.append_nil _
  · intro l hl
    obtain ⟨l', hl', rfl⟩ := List.mem_map.mp hl
    exact hP l' hl' (hasZeroCapacity_of_validate hvalid hl') _ m

/-! ## Kinds of a chain that was built -/

section Kinds

variable {base : Nat} {layers : List Layer} {g₀ g : Ground κ α} {c : Chain κ}

omit [DecidableEq κ] in
theorem IsBuilt.leasing_not_mem (h : IsBuilt base layers g₀ g c)
    (hkeeping : ∀ l ∈ layers, l.isReclaiming = false) : .leasing ∉ c.kinds := by
  intro hm
  rw [h.kinds_eq, List.mem_reverse, List.mem_map] at hm
  obtain ⟨l, hl, hkind⟩ := hm
  have hreclaiming := hkeeping l hl
  rw [Layer.isReclaiming, hkind] at hreclaiming
  cases hreclaiming

omit [DecidableEq κ] in
theorem IsBuilt.packing_mem_iff (h : IsBuilt base layers g₀ g c) :
    .packing ∈ c.kinds ↔ .serialized ∈ layers := by
  simp [h.kinds_eq, Layer.kind_eq_packing_iff]

omit [DecidableEq κ] in
theorem IsBuilt.count_packing (h : IsBuilt base layers g₀ g c) :
    c.kinds.count .packing = layers.count .serialized := by
  rw [h.kinds_eq, List.count_reverse, List.count_eq_countP, List.count_eq_countP, List.countP_map]
  refine List.countP_congr fun l _ => ?_
  simp [Layer.kind_eq_packing_iff]

omit [DecidableEq κ] in
theorem IsBuilt.kinds_of_split (h : IsBuilt base layers g₀ g c) {inner outer : List Layer}
    (hlayers : layers = inner ++ .serialized :: outer) :
    c.kinds = (outer.map Layer.kind).reverse ++ .packing :: (inner.map Layer.kind).reverse := by
  rw [h.kinds_eq, hlayers]
  simp [Layer.kind]

end Kinds

end Chain

end LayeredCache
