import LayeredCache.Codec
import LayeredCache.Time

/-!
# Failures of caches

A failure is a cause with what it concerns; its wording is one function. Failures of settings are
told apart from those that occur while a cache is used.
-/

namespace LayeredCache

/-- Why a cache could not be built or an operation on it failed. Keys are of the type `κ`. -/
inductive CacheError (κ : Type) where
  /-- A cache has no identifier. -/
  | missingId
  /-- No base store has this name. -/
  | unknownImplementation (name : String)
  /-- No eviction policy has this name. -/
  | unknownEviction (name : String)
  /-- The eviction policy of the cache has no such property. -/
  | unknownProperty (cache property : String)
  /-- The value of the property is not a positive count. -/
  | invalidProperty (cache property value : String)
  /-- The layers cannot be stacked in this way. -/
  | invalidChain (cache reason : String)
  /-- Another caller was populating the key for too long. -/
  | lockTimeout (cache : String) (key : κ) (waited : Span)
  /-- A value could not be turned into bytes or back. -/
  | serialization (cause : CodecError)
  deriving DecidableEq

namespace CacheError

variable {κ : Type}

/-- The wording of a failure. -/
def message [ToString κ] : CacheError κ → String
  | missingId => "Cache instances require an identifier"
  | unknownImplementation name => "Unknown cache implementation: " ++ name
  | unknownEviction name => "Unknown eviction policy: " ++ name
  | unknownProperty cache property => "Unknown property '" ++ property ++ "' for cache " ++ cache
  | invalidProperty cache property value =>
    "Invalid value '" ++ value ++ "' for property '" ++ property ++ "' of cache " ++ cache
  | invalidChain cache reason => "Invalid decorator chain for cache " ++ cache ++ ": " ++ reason
  | lockTimeout cache key waited =>
    "Timed out after " ++ Span.text waited ++ " waiting for lock on key " ++ toString key ++
      " in cache " ++ cache
  | serialization cause => "Serialization error: " ++ cause.text

/-- Whether the failure is one of settings: all but those that occur while a cache is used. -/
def isConfiguration : CacheError κ → Bool
  | lockTimeout .. | serialization .. => false
  | _ => true

end CacheError

end LayeredCache
