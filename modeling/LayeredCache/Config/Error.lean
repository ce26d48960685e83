import LayeredCache.Error
import LayeredCache.FileTree
import LayeredCache.Key.Basic

/-!
# Failures of configurations

A failure is a cause and the circumstances in which it arose, the outermost one first. Its wording
is the wordings of the circumstances and of the cause, with a colon and a blank between two of them.
-/

namespace LayeredCache

/-- What went wrong with a configuration or with a run that it describes. -/
inductive ConfigCause where
  /-- A cache cannot be built or fails. -/
  | cache (cause : CacheError Key)
  /-- No level of severity has this name. -/
  | unknownLevel (name : String)
  /-- No line format has this name. -/
  | unknownFormat (name : String)
  /-- A cache shall have no room for any entry. -/
  | zeroSize
  /-- A time to wait is set for a cache whose readers do not wait. -/
  | uselessTimeout
  /-- A cache has an empty name. -/
  | namelessCache
  /-- The path of the file does not lead to its content. -/
  | unreadable (fault : PathFault)
  /-- The bytes of the file are not UTF-8. -/
  | notText
  /-- The text is not TOML, or its values do not fit the settings. -/
  | malformed
  /-- The configuration file that was named does not exist. -/
  | missingFile (path : String)
  /-- The configuration has no cache of this name. -/
  | missingCache (name path : String)
  /-- A workload has no keys or no lookups in a transaction. -/
  | emptyWorkload
  deriving DecidableEq

/-- The wording of a cause. Why a text is malformed is not told. -/
def ConfigCause.message : ConfigCause → String
  | cache cause => cause.message
  | unknownLevel name => "Invalid log level: " ++ name
  | unknownFormat name => "Invalid log format: " ++ name
  | zeroSize => "Invalid size: must be greater than 0"
  | uselessTimeout => "Invalid blocking_timeout: only applies when blocking is enabled"
  | namelessCache => "Cache namespaces require a non-empty identifier"
  | unreadable fault => fault.message
  | notText => "stream did not contain valid UTF-8"
  | malformed => "<toml>"
  | missingFile path => "config file " ++ path ++ " does not exist"
  | missingCache name path => "no cache named \"" ++ name ++ "\" in " ++ path
  | emptyWorkload => "--keys and --tx-size must be greater than 0"

/-- What was being done when something went wrong. -/
inductive Circumstance where
  | loading (path : String)
  | reading (path : String)
  | parsing (path : String)
  | overriding
  | readingVariable (name : String)
  | checkingCache (name : String)
  | checkingFile (path : String)
  | simulating (cache : String)
  deriving DecidableEq, Repr

/-- The wording of a circumstance. -/
def Circumstance.message : Circumstance → String
  | loading path => "Failed to load config from " ++ path
  | reading path => "Failed to read config file: " ++ path
  | parsing path => "Failed to parse TOML config: " ++ path
  | overriding => "Failed to apply environment overrides"
  | readingVariable name => "Invalid " ++ name
  | checkingCache name => "Invalid configuration for cache " ++ name
  | checkingFile path => "invalid config " ++ path
  | simulating cache => "simulation against cache " ++ cache ++ " failed"

/-- A cause with its circumstances, the outermost one first. -/
structure ConfigError where
  circumstances : List Circumstance := []
  cause : ConfigCause
  deriving DecidableEq

namespace ConfigError

/-- The failure under one more circumstance. -/
def under (e : ConfigError) (c : Circumstance) : ConfigError :=
  { e with circumstances := c :: e.circumstances }

/-- The failure of a cache. -/
def ofCache (e : CacheError Key) : ConfigError := { cause := .cache e }

/-- The wording of a failure. -/
def message (e : ConfigError) : String :=
  e.circumstances.foldr (fun c rest => c.message ++ ": " ++ rest) e.cause.message

/-- Whether a text was malformed. -/
def isMalformed (e : ConfigError) : Bool := e.cause = .malformed

@[simp] theorem message_under (e : ConfigError) (c : Circumstance) :
    (e.under c).message = c.message ++ ": " ++ e.message := rfl

end ConfigError

end LayeredCache
