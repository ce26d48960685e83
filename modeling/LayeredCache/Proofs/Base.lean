import LayeredCache.Cache
import LayeredCache.Proofs.Table

/-!
# One base store and the others

What a cache does to its base store leaves the other base stores alone. An instance is kept by cells
of any base store; for one base store this splits into its own cells and those of the others.

## Main definitions

* `Ground.Beside` — two grounds that differ in the cells of one base store and in the journal alone.
* `Ground.keptElsewhere` — whether a cell of another base store keeps an instance.
-/

namespace LayeredCache

namespace Ground

variable {κ α : Type}

/-- Every base store is listed once. -/
def Tidy (g : Ground κ α) : Prop := g.stores.Distinct

/-- Whether a cell of another base store keeps the instance alive. -/
def keptElsewhere (g : Ground κ α) (base serial : Nat) : Bool :=
  (g.stores.erase base).entries.any fun s =>
    s.2.entries.any fun e => e.2.item.serial = serial && e.2.keeps

/-- An instance is kept by another base store, or by a cell of this one. -/
theorem keeps_iff {g : Ground κ α} (h : g.Tidy) (base serial : Nat) :
    g.keeps serial = true ↔ g.keptElsewhere base serial = true ∨
      ∃ e ∈ (g.store base).entries, e.2.item.serial = serial ∧ e.2.keeps = true := by
  have hstore : ∀ t, (base, t) ∈ g.stores.entries ↔ g.stores.find? base = some t :=
    fun t => h.mem_entries
  simp only [keeps, keptElsewhere, Table.erase, List.any_eq_true, List.mem_filter,
    Bool.and_eq_true, decide_eq_true_eq]
  constructor
  · rintro ⟨⟨b, t⟩, ht, he⟩
    by_cases hb : b = base
    · subst hb
      have hfind := (hstore t).mp ht
      exact .inr (by simpa [store, hfind] using he)
    · exact .inl ⟨(b, t), ⟨ht, hb⟩, he⟩
  · rintro (⟨s, ⟨hs, -⟩, he⟩ | ⟨e, he, hserial⟩)
    · exact ⟨s, hs, he⟩
    · cases hfind : g.stores.find? base with
      | none => simp [store, hfind, Table.empty] at he
      | some t =>
        exact ⟨(base, t), (hstore t).mpr hfind, e, by simpa [store, hfind] using he, hserial⟩

/-- `g'` differs from `g` in the cells of one base store and in the journal alone. -/
structure Beside (base : Nat) (g' g : Ground κ α) : Prop where
  issued : g'.issued = g.issued
  others : (g'.stores.erase base).entries = (g.stores.erase base).entries
  tidy : g.Tidy → g'.Tidy

theorem Beside.refl (base : Nat) (g : Ground κ α) : Beside base g g := ⟨rfl, rfl, id⟩

theorem Beside.trans {base : Nat} {g g' g'' : Ground κ α} (h : Beside base g'' g')
    (h' : Beside base g' g) : Beside base g'' g :=
  ⟨h.issued.trans h'.issued, h.others.trans h'.others, h.tidy ∘ h'.tidy⟩

theorem Beside.keptElsewhere {base : Nat} {g g' : Ground κ α} (h : Beside base g' g)
    (serial : Nat) : g'.keptElsewhere base serial = g.keptElsewhere base serial := by
  rw [Ground.keptElsewhere, Ground.keptElsewhere, h.others]

theorem Beside.elsewhere {base : Nat} {g g' : Ground κ α} (h : Beside base g' g) :
    g'.keptElsewhere base = g.keptElsewhere base := funext h.keptElsewhere

/-- Grounds with the same base stores differ in the count of instances and in the journal. -/
theorem eq_of_stores {g g' : Ground κ α} (h : g'.stores = g.stores) :
    g' = { g with issued := g'.issued, journal := g'.journal } := by
  rw [← h]

theorem Beside.store {base other : Nat} {g g' : Ground κ α} (h : Beside base g' g)
    (hother : other ≠ base) : g'.store other = g.store other := by
  have hfind : ∀ t : Table Nat (Table κ (Cell α)),
      Table.lookup other (t.erase base).entries = t.find? other := by
    intro t
    exact (Table.find?_erase t base other).trans (if_neg hother)
  rw [Ground.store, Ground.store, ← hfind, ← hfind, h.others]

theorem beside_setStore (base : Nat) (g : Ground κ α) (t : Table κ (Cell α)) :
    Beside base (g.setStore base t) g := by
  refine ⟨rfl, ?_, fun h => h.insert base t⟩
  simp [setStore, Table.insert, Table.erase, List.filter_filter]

theorem beside_note (base : Nat) (g : Ground κ α) (e : Event κ) : Beside base (g.note e) g :=
  ⟨rfl, rfl, id⟩

end Ground

namespace Cache

variable {κ α : Type} [DecidableEq κ]

/-- Removing a key from a base store hands out its cell. -/
theorem remove_bare (id : String) (base : Nat) (m : Moment) (key : κ) (g : Ground κ α) :
    let r := (Cache.bare id base : Cache κ α Unit).remove m key () g
    r.answer = (g.store base).find? key ∧ r.ground.Beside base g ∧
      r.ground.store base = (g.store base).erase key := by
  simp only [bare]
  cases hf : (g.store base).find? key with
  | none => exact ⟨rfl, Ground.Beside.refl base g, (Table.erase_eq_self hf).symm⟩
  | some c => exact ⟨rfl, Ground.beside_setStore base g _, Ground.store_setStore_self ..⟩

/-- Removing keys from a base store leaves the other entries as they stand. -/
theorem removeAll_bare (id : String) (base : Nat) (m : Moment) (keys : List κ) (g : Ground κ α) :
    let r := (Cache.bare id base : Cache κ α Unit).removeAll m keys () g
    r.2.Beside base g ∧ r.2.store base = ⟨(g.store base).entries.filter (·.1 ∉ keys)⟩ := by
  induction keys generalizing g with
  | nil => exact ⟨Ground.Beside.refl base g, by simp [removeAll]⟩
  | cons key keys ih =>
    obtain ⟨-, hbeside, hstore⟩ := remove_bare id base m key g
    obtain ⟨hbeside', hstore'⟩ :=
      ih ((Cache.bare id base : Cache κ α Unit).remove m key () g).ground
    refine ⟨hbeside'.trans hbeside, hstore'.trans ?_⟩
    rw [hstore, Table.filter_erase]

theorem journal_remove_bare (id : String) (base : Nat) (m : Moment) (key : κ) (g : Ground κ α) :
    ((Cache.bare id base : Cache κ α Unit).remove m key () g).ground.journal = g.journal := by
  simp only [bare]
  split <;> rfl

/-- Removing keys from a base store tells the journal nothing. -/
theorem journal_removeAll_bare (id : String) (base : Nat) (m : Moment) (keys : List κ)
    (g : Ground κ α) :
    ((Cache.bare id base : Cache κ α Unit).removeAll m keys () g).2.journal = g.journal := by
  induction keys generalizing g with
  | nil => rfl
  | cons key keys ih => exact (ih _).trans (journal_remove_bare id base m key g)

end Cache

end LayeredCache
