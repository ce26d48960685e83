/-!
# Finite tables

A table maps keys to values and holds each key once. It is kept as a list of pairs, the entry
written last in front, so every table can be listed, counted and searched by plain recursion. The
lemmas give one equation per operation through `find?`, which is the view the rest of the library
reads.
-/

namespace LayeredCache

/-- A finite map from `κ` to `β`, as the list of its entries. -/
structure Table (κ β : Type) where
  /-- The entries, the one written last in front. -/
  entries : List (κ × β) := []

namespace Table

variable {κ β : Type}

/-- The table without entries. -/
def empty : Table κ β := {}

/-- The number of entries. -/
def size (t : Table κ β) : Nat := t.entries.length

/-- Whether there is no entry. -/
def isEmpty (t : Table κ β) : Bool := t.entries.isEmpty

/-- The keys in the order of the entries. -/
def keys (t : Table κ β) : List κ := t.entries.map (·.1)

/-- The values in the order of the entries. -/
def values (t : Table κ β) : List β := t.entries.map (·.2)

variable [DecidableEq κ]

/-- The value of `k` among pairs. -/
def lookup (k : κ) : List (κ × β) → Option β
  | [] => none
  | e :: rest => if e.1 = k then some e.2 else lookup k rest

/-- The value stored under `k`. -/
def find? (t : Table κ β) (k : κ) : Option β := lookup k t.entries

/-- Whether `k` has an entry. -/
def contains (t : Table κ β) (k : κ) : Bool := (t.find? k).isSome

/-- The table without an entry for `k`. -/
def erase (t : Table κ β) (k : κ) : Table κ β := ⟨t.entries.filter (fun e => e.1 ≠ k)⟩

/-- The table in which `k` has the value `v`. -/
def insert (t : Table κ β) (k : κ) (v : β) : Table κ β := ⟨(k, v) :: (t.erase k).entries⟩

/-- The table in which the value of `k`, if there is one, went through `f`. -/
def modify (t : Table κ β) (k : κ) (f : β → β) : Table κ β :=
  ⟨t.entries.map fun e => if e.1 = k then (e.1, f e.2) else e⟩

@[simp] theorem find?_empty (k : κ) : (empty : Table κ β).find? k = none := rfl

@[simp] theorem lookup_filter_ne_self (k : κ) (l : List (κ × β)) :
    lookup k (l.filter (fun e => e.1 ≠ k)) = none := by
  induction l with
  | nil => rfl
  | cons e l ih => by_cases h : e.1 = k <;> simp_all [lookup]

theorem lookup_filter_ne {k k' : κ} (h : k' ≠ k) (l : List (κ × β)) :
    lookup k' (l.filter (fun e => e.1 ≠ k)) = lookup k' l := by
  induction l with
  | nil => rfl
  | cons e l ih => by_cases he : e.1 = k <;> simp_all [lookup, Ne.symm h]

/-- Erasing `k` hides `k` and nothing else. -/
theorem find?_erase (t : Table κ β) (k k' : κ) :
    (t.erase k).find? k' = if k' = k then none else t.find? k' := by
  split
  · next h => subst h; exact lookup_filter_ne_self _ _
  · next h => exact lookup_filter_ne h _

/-- Inserting `k` changes what `k` reads and nothing else. -/
theorem find?_insert (t : Table κ β) (k k' : κ) (v : β) :
    (t.insert k v).find? k' = if k' = k then some v else t.find? k' := by
  split
  · next h => subst h; simp [insert, find?, lookup]
  · next h => simpa [insert, find?, lookup, Ne.symm h, erase] using lookup_filter_ne h t.entries

/-- Modifying `k` maps what `k` reads and nothing else. -/
theorem find?_modify (t : Table κ β) (k k' : κ) (f : β → β) :
    (t.modify k f).find? k' = if k' = k then (t.find? k').map f else t.find? k' := by
  simp only [modify, find?]
  induction t.entries with
  | nil => simp [lookup]
  | cons e l ih => by_cases h : e.1 = k <;> by_cases h' : e.1 = k' <;> simp_all [lookup]

end Table

end LayeredCache
