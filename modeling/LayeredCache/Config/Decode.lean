import LayeredCache.Config.Basic
import LayeredCache.Toml.Document

/-!
# Configurations as TOML

Settings are read from the value of a TOML text. Settings that are not named keep their defaults,
and names without a meaning are ignored. A group of settings is a table by names or an array by
positions; a choice is its name or a table with that name and nothing in it. A point in time has no
settings, and where texts by names are read it is one text under a name of its own.
-/

namespace LayeredCache

namespace Config.Decode

open Toml (Value)

/-- The text of a value. -/
def string? : Value → Option String
  | .string s => some s
  | _ => none

/-- The truth value of a value. -/
def bool? : Value → Option Bool
  | .boolean b => some b
  | _ => none

/-- The count of a value. -/
def count? : Value → Option Nat
  | .integer i => if 0 ≤ i ∧ i < countLimit then some i.toNat else none
  | _ => none

/-- Whether a value is a table or an array without anything in it. -/
def isNothing : Value → Bool
  | .table entries => entries.isEmpty
  | .array items => items.isEmpty
  | _ => false

/-- The choice of a value among names. -/
def choice? {α : Type} (ofName? : String → Option α) : Value → Option α
  | .string s => ofName? s
  | .table [(name, v)] => if isNothing v then ofName? name else none
  | _ => none

/-- The settings of a value by position and name. -/
def settings? : Value → Option (Nat → String → Option Value)
  | .table entries => some fun _ name => Value.lookup name entries
  | .array items => some fun i _ => items[i]?
  | .dateTime _ => some fun _ _ => none
  | _ => none

/-- A setting; the default where it is not given. -/
def setting {α : Type} (find : Nat → String → Option Value) (position : Nat) (name : String)
    (default : α) (decode : Value → Option α) : Option α :=
  match find position name with
  | none => some default
  | some v => decode v

/-- The name under which a point in time is a text. -/
def dateTimeName : String := "$__toml_private_datetime"

/-- Texts by names. -/
def texts? : Value → Option (Catalog String)
  | .table entries => (entries.mapM fun e => (string? e.2).map (e.1, ·)).map Catalog.ofList
  | .dateTime text => some (Catalog.ofList [(dateTimeName, text)])
  | _ => none

/-- The settings of the journal. -/
def journal? (v : Value) : Option JournalSettings := do
  let find ← settings? v
  let d : JournalSettings := {}
  let level ← setting find 0 "level" d.level (choice? Level.ofKey?)
  let format ← setting find 1 "format" d.format (choice? LineFormat.ofName?)
  let output ← setting find 2 "output" d.output (choice? Stream.ofName?)
  some { level := level, format := format, output := output }

/-- The settings of a cache. -/
def cache? (v : Value) : Option CacheSettings := do
  let find ← settings? v
  let d : CacheSettings := {}
  let implementation ← setting find 0 "implementation" d.implementation string?
  let eviction ← setting find 1 "eviction" d.eviction string?
  let size ← setting find 2 "size" d.size fun v => (count? v).map some
  let flush ← setting find 3 "flush_interval" d.flushMillis count?
  let readWrite ← setting find 4 "read_write" d.readWrite bool?
  let blocking ← setting find 5 "blocking" d.blocking bool?
  let timeout ← setting find 6 "blocking_timeout" d.timeoutMillis count?
  let properties ← setting find 7 "properties" d.properties texts?
  some { implementation := implementation, eviction := eviction, size := size, flushMillis := flush,
         readWrite := readWrite, blocking := blocking, timeoutMillis := timeout,
         properties := properties }

/-- The settings of caches by names. -/
def caches? : Value → Option (Catalog CacheSettings)
  | .table entries => (entries.mapM fun e => (cache? e.2).map (e.1, ·)).map Catalog.ofList
  | _ => none

/-- The configuration of a value. -/
def config? (v : Value) : Option Config := do
  let find ← settings? v
  let journal ← setting find 0 "logging" {} journal?
  let caches ← setting find 1 "caches" .empty caches?
  some { journal := journal, caches := caches }

end Config.Decode

namespace Config

/-- The configuration of a TOML text. -/
def ofText? (text : String) : Option Config := (Toml.parse text).bind Decode.config?

/-- The name of the file that is read when none is named. -/
def defaultPath : String := "lamina.toml"

/-- The configuration of a file. -/
def ofFile (path : String) (content : FileContent) : Except ConfigError Config :=
  match content with
  | .error fault => .error { circumstances := [.reading path], cause := .unreadable fault }
  | .ok bytes =>
    match Text.Utf8.decode bytes with
    | .error _ => .error { circumstances := [.reading path], cause := .notText }
    | .ok text =>
      match ofText? text with
      | none => .error { circumstances := [.parsing path], cause := .malformed }
      | some c => .ok c

/-- The defaults with what a file, if its path leads to one, and environment variables say. -/
def load (path : String) (content : FileContent) (env : String → Option String) :
    Except ConfigError Config :=
  let read : Except ConfigError Config :=
    if content.isPresent then
      match ofFile path content with
      | .error e => .error (e.under (.loading path))
      | .ok c => .ok (merge {} c)
    else .ok {}
  match read with
  | .error e => .error e
  | .ok c =>
    match c.override env with
    | (_, .error e) => .error (e.under .overriding)
    | (c, .ok _) => .ok c

end Config

end LayeredCache
