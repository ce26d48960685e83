/-!
# Values of TOML

The tree that a TOML text stands for. Numbers in floating point and points in time are kept as
texts.
-/

namespace LayeredCache.Toml

/-- A value. The keys of a table are distinct, in the order in which they were first given. -/
inductive Value where
  | string (s : String)
  | integer (i : Int)
  | float (text : String)
  | boolean (b : Bool)
  | dateTime (text : String)
  | array (items : List Value)
  | table (entries : List (String × Value))
  deriving Repr, Inhabited

namespace Value

/-- The value of a key among entries. -/
def lookup (key : String) : List (String × Value) → Option Value
  | [] => none
  | e :: rest => if e.1 = key then some e.2 else lookup key rest

end Value

end LayeredCache.Toml
