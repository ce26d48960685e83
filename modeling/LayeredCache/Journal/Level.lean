import LayeredCache.Text.Ascii

/-!
# Severity of journal lines
-/

namespace LayeredCache

/-- How severe an event is, the most severe first. -/
inductive Level where
  | error
  | warn
  | info
  | debug
  | trace
  deriving DecidableEq, Repr

namespace Level

/-- All levels, the most severe first. -/
def all : List Level := [error, warn, info, debug, trace]

/-- The position in the order of severity. -/
def rank : Level → Nat
  | error => 0
  | warn => 1
  | info => 2
  | debug => 3
  | trace => 4

/-- The name in journal lines. -/
def name : Level → String
  | error => "ERROR"
  | warn => "WARN"
  | info => "INFO"
  | debug => "DEBUG"
  | trace => "TRACE"

/-- The name in configuration files. -/
def key : Level → String
  | error => "error"
  | warn => "warn"
  | info => "info"
  | debug => "debug"
  | trace => "trace"

/-- Whether lines of the level `l` are written where `self` is the least severe level to write. -/
def admits (self l : Level) : Bool := l.rank ≤ self.rank

/-- The level of a name in configuration files. -/
def ofKey? (s : String) : Option Level := all.find? (·.key = s)

/-- The level of a name without regard to case, where `warning` is a second name of `warn`; a
failure holds the name in lower case. -/
def parse (s : String) : Except String Level :=
  let lower := Text.asciiLower s
  match ofKey? (if lower = "warning" then "warn" else lower) with
  | some l => .ok l
  | none => .error lower

@[simp] theorem ofKey?_key (l : Level) : ofKey? l.key = some l := by cases l <;> decide

end Level

end LayeredCache
