import LayeredCache.Proofs.Layer.Leads

/-!
# Layers that lose nothing

Layers that keep bytes, count hits, exclude or latch take no entry away on their own account: what
is stored stays until it is removed or cleared, whether or not the calls in between fail.

## Main definitions

* `Cache.Retains` — the law above.

## Main statements

* `Stack.retains` — the law for stacks of such layers.
-/

namespace LayeredCache

variable {κ α σ : Type} [DecidableEq κ]

/-- What is stored by `d` stays until it is removed or cleared. -/
structure Cache.Retains (d : Cache κ α σ) : Prop where
  put : ∀ m k c s g k', let r := d.put m k c s g
    g.content d.base k' ≠ none ∨ k' = k ∧ r.answer = .ok () → r.ground.content d.base k' ≠ none
  get : ∀ m k s g k', g.content d.base k' ≠ none →
    (d.get m k s g).ground.content d.base k' ≠ none
  resume : ∀ m k gate w s g k', g.content d.base k' ≠ none →
    (d.resume m k gate w s g).ground.content d.base k' ≠ none
  remove : ∀ m k s g k', k' ≠ k → g.content d.base k' ≠ none →
    (d.remove m k s g).ground.content d.base k' ≠ none
  size : ∀ m s g k', g.content d.base k' ≠ none →
    (d.size m s g).ground.content d.base k' ≠ none
  release : ∀ m k s g k', g.content d.base k' ≠ none →
    (d.release m k s g).ground.content d.base k' ≠ none

section Layers

variable {d : Cache κ α σ}

theorem Cache.retains_bare (id : String) (base : Nat) :
    (Cache.bare id base : Cache κ α Unit).Retains where
  put m k c s g k' h := by
    simp only [bare, Ground.content, Ground.store_setStore_self, Table.find?_insert] at h ⊢
    split
    · simp
    · next hk => exact h.resolve_right fun h => hk h.1
  get m k s g k' h := h
  resume m k gate w s g k' h := h
  remove m k s g k' hk h := by
    obtain ⟨-, -, hstore⟩ := remove_bare id base m k g
    simp only [base_bare, Ground.content] at h ⊢
    rwa [hstore, Table.find?_erase, if_neg hk]
  size m s g k' h := h
  release m k s g k' h := h

theorem HitCount.retains (H : d.Retains) : (HitCount.onto d).Retains where
  put m k c s g := H.put m k c s.2 g
  get m k s g k' h := (Ground.content_congr (ground_settle ..) k').trans_ne (H.get m k s.2 g k' h)
  resume m k gate w s g k' h :=
    (Ground.content_congr (ground_settle ..) k').trans_ne (H.resume m k gate w s.2 g k' h)
  remove m k s g := H.remove m k s.2 g
  size m s g := H.size m s.2 g
  release m k s g := H.release m k s.2 g

theorem Passing.retains (H : d.Retains) : (Passing.onto d).Retains where
  put m k c s g := H.put m k c s.2 g
  get m k s g := H.get m k s.2 g
  resume m k gate w s g := H.resume m k gate w s.2 g
  remove m k s g := H.remove m k s.2 g
  size m s g := H.size m s.2 g
  release m k s g := H.release m k s.2 g

theorem Gate.retains (H : d.Retains) : (Gate.onto d).Retains := by
  have henter : ∀ m k s g k', g.content d.base k' ≠ none →
      (enter d m k s g).ground.content d.base k' ≠ none := by
    intro m k s g k' h
    rcases enter_cases d m k s g with ⟨latch, he⟩ | ⟨t, he⟩
    · rw [he]
      exact h
    · rw [he, ground_settle]
      exact H.get m k s.2 g k' h
  exact {
    put := fun m k c s g => H.put m k c s.2 g
    get := henter
    resume := by
      intro m k gate w s g k' h
      cases gate with
      | zero =>
        cases w with
        | opened => exact henter m k s g k' h
        | expired => exact (Ground.content_congr ((giveUp_fails d k s g).2.1 _) k').trans_ne h
      | succ gate =>
        simp only [onto, ground_settle]
        exact H.resume m k gate w s.2 g k' h
    remove := fun m k s g => H.remove m k s.2 g
    size := fun m s g => H.size m s.2 g
    release := fun m k s g => H.release m k s.2 g }

theorem Packing.retains [Codec α] (H : d.Retains) : (Packing.onto d).Retains where
  put m k c s g k' h := by
    simp only [onto] at h ⊢
    cases hp : pack c.item.content with
    | error e =>
      rw [hp] at h
      exact h.resolve_right fun h => by cases h.2
    | ok bytes =>
      rw [hp] at h
      exact H.put m k _ s.2 g.issue k' h
  get m k s g k' h :=
    (Ground.content_congr ((settle_spec _).1 _) k').trans_ne (H.get m k s.2 g k' h)
  resume m k gate w s g k' h :=
    (Ground.content_congr ((settle_spec _).1 _) k').trans_ne (H.resume m k gate w s.2 g k' h)
  remove m k s g k' hk h :=
    (Ground.content_congr (ground_remove d m k s g) k').trans_ne (H.remove m k s.2 g k' hk h)
  size m s g := H.size m s.2 g
  release m k s g := H.release m k s.2 g

end Layers

/-- Layers that keep bytes, count, exclude or latch lose nothing. -/
theorem Stack.retains [Codec α] (id : String) (base : Nat) {kinds : List Kind}
    (h : ∀ kind ∈ kinds, kind = .packing ∨ kind = .counting ∨ kind = .passing ∨
      kind = .latching) : (Stack.cache id base kinds : Cache κ α _).Retains := by
  induction kinds with
  | nil => exact Cache.retains_bare id base
  | cons kind kinds ih =>
    have H := ih fun kind' hkind => h kind' (List.mem_cons_of_mem kind hkind)
    rcases h kind List.mem_cons_self with rfl | rfl | rfl | rfl
    · exact Packing.retains H
    · exact HitCount.retains H
    · exact Passing.retains H
    · exact Gate.retains H

end LayeredCache
