import LayeredCache.Error
import LayeredCache.HitCount
import LayeredCache.Journal.Level

/-!
# Events

What caches, transactions and the simulator tell the journal. An event is a value; its level, its
wording and the name of its source are functions of it.
-/

namespace LayeredCache

/-- Which bounded layer evicts. -/
inductive EvictionOrder where
  /-- The entry that was written first goes first. -/
  | fifo
  /-- The entry that was used least recently goes first. -/
  | lru
  deriving DecidableEq, Repr

/-- Something worth a line in the journal. -/
inductive Event (κ : Type) where
  /-- A bounded layer removes a key. -/
  | evicting (order : EvictionOrder) (cache : String) (key : κ)
  /-- A reclaiming layer dropped its pins, because of memory pressure or on schedule. -/
  | collected (cache : String) (pressured : Bool) (pins : Nat)
  /-- A reclaiming layer removed values that nobody held. -/
  | purged (cache : String) (count : Nat)
  /-- A layer with a window clears what lies below it. -/
  | flushing (cache : String)
  /-- A removed value could not be decoded. -/
  | undecodable (cache : String) (key : κ) (cause : CacheError κ)
  /-- A lookup was counted. -/
  | hitRatio (cache : String) (count : HitCount)
  /-- A caller stopped waiting for another one to populate a key. -/
  | gaveUp (cache : String) (key : κ) (timeout : Span)
  /-- A transaction was committed. -/
  | committed (cache : String) (writes misses : Nat) (clearing : Bool)
  /-- A transaction could not be committed. -/
  | commitFailed (cache : String) (cause : CacheError κ)
  /-- A cache was built. -/
  | built (cache : String) (description : String)
  /-- A simulation starts. -/
  | simulating (cache : String) (operations keys : Nat)

namespace Event

variable {κ : Type}

/-- The severity of an event. -/
def level : Event κ → Level
  | evicting .. | purged .. => .trace
  | collected _ pressured _ => if pressured then .debug else .trace
  | flushing .. | hitRatio .. | committed .. | built .. => .debug
  | undecodable .. | gaveUp .. | commitFailed .. => .warn
  | simulating .. => .info

/-- The wording of an event. -/
def message [ToString κ] : Event κ → String
  | evicting order cache key =>
    (match order with | .fifo => "fifo" | .lru => "lru") ++ " cache " ++ cache ++ " evicting " ++
      toString key
  | collected cache pressured pins =>
    (if pressured then "memory pressure" else "collection cycle") ++ " on cache " ++ cache ++
      ": released " ++ toString pins ++ " pins"
  | purged cache count => "cache " ++ cache ++ " purged " ++ toString count ++ " reclaimed values"
  | flushing cache => "scheduled flush of cache " ++ cache
  | undecodable cache key cause =>
    "cache " ++ cache ++ " dropped an undecodable value for " ++ toString key ++ ": " ++
      cause.message
  | hitRatio cache count => "Cache Hit Ratio [" ++ cache ++ "]: " ++ count.ratioText
  | gaveUp cache key timeout =>
    "gave up waiting for key " ++ toString key ++ " in cache " ++ cache ++ " after " ++
      Span.text timeout
  | committed cache writes misses clearing =>
    "committed cache " ++ cache ++ ": " ++ toString writes ++ " writes, " ++ toString misses ++
      " misses, clear=" ++ (if clearing then "true" else "false")
  | commitFailed cache cause => "commit of cache " ++ cache ++ " failed: " ++ cause.message
  | built cache description => "built cache " ++ cache ++ ": " ++ description
  | simulating cache operations keys =>
    "simulating " ++ toString operations ++ " lookups over " ++ toString keys ++
      " keys against cache " ++ cache

/-- The name of the part that tells of an event, as journal lines show it. -/
def source : Event κ → String
  | evicting .fifo .. => "lamina_core::cache::fifo"
  | evicting .lru .. => "lamina_core::cache::lru"
  | collected .. | purged .. => "lamina_core::cache::reclaim"
  | flushing .. => "lamina_core::cache::scheduled"
  | undecodable .. => "lamina_core::cache::serialized"
  | hitRatio .. => "lamina_core::cache::logging"
  | gaveUp .. => "lamina_core::cache::blocking"
  | committed .. => "lamina_core::transaction::cache"
  | commitFailed .. => "lamina_core::transaction::manager"
  | built .. => "lamina_core::builder"
  | simulating .. => "lamina::commands::simulate"

end Event

end LayeredCache
