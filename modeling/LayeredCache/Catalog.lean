/-!
# Entries in the order of their names

A catalog maps names to values and lists them in ascending order of the names, by the code points of
their characters. Inserting under a name that is there replaces the value.
-/

namespace LayeredCache

/-- A finite map from names, listed in ascending order of the names. -/
structure Catalog (β : Type) where
  entries : List (String × β) := []
  deriving Repr

namespace Catalog

variable {β : Type}

/-- The catalog without entries. -/
def empty : Catalog β := {}

/-- The number of entries. -/
def size (c : Catalog β) : Nat := c.entries.length

/-- Whether there is no entry. -/
def isEmpty (c : Catalog β) : Bool := c.entries.isEmpty

/-- The names in ascending order. -/
def names (c : Catalog β) : List String := c.entries.map (·.1)

/-- Inserts into an ascending list. -/
def insertInto (name : String) (v : β) : List (String × β) → List (String × β)
  | [] => [(name, v)]
  | e :: rest =>
    if name < e.1 then (name, v) :: e :: rest
    else if name = e.1 then (name, v) :: rest
    else e :: insertInto name v rest

/-- The catalog in which `name` has the value `v`. -/
def insert (c : Catalog β) (name : String) (v : β) : Catalog β := ⟨insertInto name v c.entries⟩

/-- The catalog without an entry for `name`. -/
def erase (c : Catalog β) (name : String) : Catalog β := ⟨c.entries.filter fun e => e.1 ≠ name⟩

/-- The value of a name. -/
def find? (c : Catalog β) (name : String) : Option β :=
  (c.entries.find? fun e => e.1 = name).map (·.2)

/-- The catalog of a list of entries; the last one of a name counts. -/
def ofList (l : List (String × β)) : Catalog β := l.foldl (fun c e => c.insert e.1 e.2) empty

/-- The first catalog with the entries of the second one, which replace those of the same name. -/
def merge (c other : Catalog β) : Catalog β := other.entries.foldl (fun c e => c.insert e.1 e.2) c

@[simp] theorem find?_empty (name : String) : (empty : Catalog β).find? name = none := rfl

end Catalog

end LayeredCache
