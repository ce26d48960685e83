import LayeredCache.Toml.Value

/-!
# Building the tables of TOML

A text defines tables by headers, by the paths of headers and by keys with several parts. What was
defined in one of these ways can be extended only in some of the others, so each table remembers how
it was made. An array of tables is extended by headers of its own, and paths through it lead to its
last table. Values between brackets or braces are closed: nothing extends them.
-/

namespace LayeredCache.Toml

/-- How a table was made. -/
inductive Origin where
  /-- By a header of its own, or as the whole text. -/
  | header
  /-- Because the path of a header leads through it. -/
  | path
  /-- Because a key with several parts leads through it. -/
  | dotted
  deriving DecidableEq, Repr

/-- What a key stands for while a text is read. -/
inductive Node where
  | closed (v : Value)
  | table (origin : Origin) (entries : List (String × Node))
  | tables (items : List (List (String × Node)))
  deriving Inhabited

/-- The entries of a table. -/
abbrev Entries := List (String × Node)

namespace Entries

/-- What a key stands for. -/
def find? (key : String) : Entries → Option Node
  | [] => none
  | e :: rest => if e.1 = key then some e.2 else find? key rest

/-- Replaces what a key stands for. -/
def replace (key : String) (n : Node) (es : Entries) : Entries :=
  es.map fun e => if e.1 = key then (key, n) else e

/-- Changes the table to which a path leads, and makes the tables on the way that are missing;
`origin` says what makes them. A path of a key does not lead through tables that have a header. -/
def update (origin : Origin) (f : Origin → Entries → Option Entries) :
    List String → Origin → Entries → Option Entries
  | [], here, es => f here es
  | key :: path, _, es =>
    match find? key es with
    | none => (update origin f path origin []).map fun sub => es ++ [(key, .table origin sub)]
    | some (.closed _) => none
    | some (.table there sub) =>
      if origin = .dotted ∧ there = .header then none
      else (update origin f path there sub).map fun sub => replace key (.table there sub) es
    | some (.tables items) =>
      match items.getLast? with
      | none => none
      | some last =>
        (update origin f path .header last).map fun last =>
          replace key (.tables (items.dropLast ++ [last])) es

/-- Gives a new key a value. A key with several parts adds only to tables that such keys made. -/
def assignHere (dotted : Bool) (key : String) (v : Value) (here : Origin) (es : Entries) :
    Option Entries :=
  if dotted ∧ here ≠ .dotted then none
  else if !dotted && here = .dotted then none
  else
    match find? key es with
    | some _ => none
    | none => some (es ++ [(key, .closed v)])

/-- Assigns a value to a key with parts. -/
def assign (path : List String) (key : String) (v : Value) (here : Origin) (es : Entries) :
    Option Entries :=
  update .dotted (assignHere (!path.isEmpty) key v) path here es

/-- Opens a table by its header: a new one, or one that only paths of headers led through. -/
def openTable (key : String) (_ : Origin) (es : Entries) : Option Entries :=
  match find? key es with
  | none => some (es ++ [(key, .table .header [])])
  | some (.table .path sub) => some (replace key (.table .header sub) es)
  | some _ => none

/-- Opens a new table at the end of an array of tables. -/
def openItem (key : String) (_ : Origin) (es : Entries) : Option Entries :=
  match find? key es with
  | none => some (es ++ [(key, .tables [[]])])
  | some (.tables items) => some (replace key (.tables (items ++ [[]])) es)
  | some _ => none

end Entries

/-- Splits a path before its last part. -/
def splitLast (path : List String) : Option (List String × String) :=
  path.getLast?.map fun key => (path.dropLast, key)

mutual

/-- The value of a node. -/
def Node.value : Node → Value
  | .closed v => v
  | .table _ entries => .table (entryValues entries)
  | .tables items => .array (itemValues items)

/-- The values of entries. -/
def entryValues : List (String × Node) → List (String × Value)
  | [] => []
  | (key, n) :: rest => (key, n.value) :: entryValues rest

/-- The values of the tables of an array. -/
def itemValues : List (List (String × Node)) → List Value
  | [] => []
  | entries :: rest => .table (entryValues entries) :: itemValues rest

end

/-- A statement of a text. -/
inductive Statement where
  /-- A header; the following assignments belong to its table. -/
  | table (path : List String)
  /-- A header of an array of tables. -/
  | item (path : List String)
  | assignment (path : List String) (v : Value)
  deriving Repr

/-- A text that is being read: the tables so far, and the path of the table under the last
header. -/
structure Draft where
  entries : Entries := []
  current : List String := []

/-- Takes in a statement. -/
def Draft.add (d : Draft) : Statement → Option Draft
  | .table path => do
    let (parent, key) ← splitLast path
    let entries ← Entries.update .path (Entries.openTable key) parent .header d.entries
    some { entries := entries, current := path }
  | .item path => do
    let (parent, key) ← splitLast path
    let entries ← Entries.update .path (Entries.openItem key) parent .header d.entries
    some { entries := entries, current := path }
  | .assignment path v => do
    let (parent, key) ← splitLast path
    let entries ← Entries.update .path (Entries.assign parent key v) d.current .header d.entries
    some { d with entries := entries }

/-- The table of keys with their values in braces. -/
def inlineTable? (pairs : List (List String × Value)) : Option Value := do
  let entries ← pairs.foldlM (fun es p => do
    let (parent, key) ← splitLast p.1
    Entries.assign parent key p.2 .header es) ([] : Entries)
  some (.table (entryValues entries))

end LayeredCache.Toml
