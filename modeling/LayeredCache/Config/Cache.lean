import LayeredCache.Builder
import LayeredCache.Config.Error

/-!
# The settings of one cache in a configuration

Settings name the base store and the eviction policy by texts, which are checked only when the
settings are used. Spans are milliseconds, and zero stands for none.
-/

namespace LayeredCache

/-- The settings of one cache as a configuration gives them. -/
structure CacheSettings where
  implementation : String := "perpetual"
  eviction : String := "lru"
  size : Option Nat := none
  /-- Milliseconds between two flushes. -/
  flushMillis : Nat := 0
  /-- Whether every reader gets a copy. -/
  readWrite : Bool := true
  /-- Whether one caller at a time populates a key. -/
  blocking : Bool := false
  /-- Milliseconds that a caller waits for another one. -/
  timeoutMillis : Nat := 0
  /-- Further settings of the eviction policy. -/
  properties : Catalog String := .empty

namespace CacheSettings

/-- The span of a number of milliseconds that is not zero. -/
def span? (millis : Nat) : Option Span := if 0 < millis then some (.ofMillis millis) else none

/-- The interval between flushes. -/
def flushInterval (c : CacheSettings) : Option Span := span? c.flushMillis

/-- How long a caller waits for another one. -/
def blockingTimeout (c : CacheSettings) : Option Span := span? c.timeoutMillis

/-- Checks the settings; the first failure counts. -/
def validate (c : CacheSettings) : Except ConfigError Unit :=
  match (Implementation.parse c.implementation : Except (CacheError Key) _) with
  | .error e => .error (.ofCache e)
  | .ok _ =>
    match (Eviction.parse c.eviction : Except (CacheError Key) _) with
    | .error e => .error (.ofCache e)
    | .ok _ =>
      if c.size = some 0 then .error { cause := .zeroSize }
      else if 0 < c.timeoutMillis ∧ c.blocking = false then .error { cause := .uselessTimeout }
      else .ok ()

/-- The builder with these settings. -/
def toBuilder (c : CacheSettings) (id : String) : Except (CacheError Key) Builder :=
  match Implementation.parse c.implementation with
  | .error e => .error e
  | .ok implementation =>
    match Eviction.parse c.eviction with
    | .error e => .error e
    | .ok eviction =>
      .ok { id := id, implementation := implementation, eviction := eviction, size := c.size,
            flushInterval := c.flushInterval, readWrite := c.readWrite, blocking := c.blocking,
            blockingTimeout := c.blockingTimeout, properties := c.properties }

end CacheSettings

end LayeredCache
