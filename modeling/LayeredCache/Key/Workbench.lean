import LayeredCache.Key.Basic
import LayeredCache.Table

/-!
# Keys under construction

A workbench holds keys under names while they are put together from contributions.
-/

namespace LayeredCache

/-- What can be done to the keys of a workbench. -/
inductive KeyStep where
  /-- Puts a key without contributions under a name. -/
  | start (name : String)
  /-- Adds contributions in order. -/
  | extend (name : String) (parts : List KeyPart)
  /-- Puts a copy under another name. -/
  | copy (name target : String)
  /-- Shows a key. -/
  | view (name : String)
  /-- Compares two keys. -/
  | compare (name other : String)

/-- What a step shows. -/
inductive KeyView where
  | key (k : Key)
  | copied
  | equal (yes : Bool)
  /-- There is no key of the name. -/
  | unknown

namespace KeyStep

/-- Takes a step on the keys of a workbench. -/
def run (keys : Table String Key) : KeyStep → Table String Key × KeyView
  | start name => (keys.insert name .empty, .key .empty)
  | extend name parts =>
    match keys.find? name with
    | none => (keys, .unknown)
    | some k =>
      let k := k.updateAll parts
      (keys.insert name k, .key k)
  | copy name target =>
    match keys.find? name with
    | none => (keys, .unknown)
    | some k => (keys.insert target k, .copied)
  | view name =>
    match keys.find? name with
    | none => (keys, .unknown)
    | some k => (keys, .key k)
  | compare name other =>
    match keys.find? name, keys.find? other with
    | some k, some k' => (keys, .equal (k.same k'))
    | _, _ => (keys, .unknown)

/-- Takes steps in order. -/
def runAll (keys : Table String Key) : List KeyStep → List KeyView
  | [] => []
  | s :: rest =>
    let r := s.run keys
    r.2 :: runAll r.1 rest

end KeyStep

end LayeredCache
