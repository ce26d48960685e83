import LayeredCache.Config.Cache
import LayeredCache.Journal.Line

/-!
# Configurations

A configuration holds the settings of the journal and of every cache by its name. Settings come from
defaults, then from files, of which a later one replaces what it names as a whole, then from two
environment variables.
-/

namespace LayeredCache

/-- The settings of the journal and of all caches. -/
structure Config where
  journal : JournalSettings := {}
  caches : Catalog CacheSettings := .empty

namespace Config

/-- The variable that sets the least severe level. -/
def levelVariable : String := "LAMINA_LOG_LEVEL"

/-- The variable that sets the line format. -/
def formatVariable : String := "LAMINA_LOG_FORMAT"

/-- The settings of a cache. -/
def cache? (c : Config) (name : String) : Option CacheSettings := c.caches.find? name

/-- A configuration with another one over it. -/
def merge (c other : Config) : Config :=
  { journal := c.journal.merge other.journal, caches := c.caches.merge other.caches }

/-- The level of a name. -/
def readLevel (name : String) : Except ConfigError Level :=
  (Level.parse name).mapError fun lower => { cause := .unknownLevel lower }

/-- The line format of a name. -/
def readFormat (name : String) : Except ConfigError LineFormat :=
  (LineFormat.parse name).mapError fun lower => { cause := .unknownFormat lower }

/-- The settings of the journal under environment variables. The level is set before the format is
read; a failure comes with the settings as they are then. -/
def overrideJournal (env : String → Option String) (j : JournalSettings) :
    JournalSettings × Except ConfigError Unit :=
  let leveled : Except ConfigError JournalSettings :=
    match env levelVariable with
    | none => .ok j
    | some name =>
      match readLevel name with
      | .ok level => .ok { j with level := level }
      | .error e => .error (e.under (.readingVariable levelVariable))
  match leveled with
  | .error e => (j, .error e)
  | .ok j =>
    match env formatVariable with
    | none => (j, .ok ())
    | some name =>
      match readFormat name with
      | .ok format => ({ j with format := format }, .ok ())
      | .error e => (j, .error (e.under (.readingVariable formatVariable)))

/-- Makes a setting of the journal by its name. Any name of a stream but `stdout` stands for the
other one, and every name without a meaning merges the defaults. -/
def setJournal (j : JournalSettings) (name value : String) : Except ConfigError JournalSettings :=
  if name = "level" then (readLevel value).map fun level => { j with level := level }
  else if name = "format" then (readFormat value).map fun format => { j with format := format }
  else if name = "output" then .ok { j with output := (Stream.ofName? value).getD .stderr }
  else .ok (j.merge {})

/-- A configuration under environment variables. -/
def override (env : String → Option String) (c : Config) : Config × Except ConfigError Unit :=
  let r := overrideJournal env c.journal
  ({ c with journal := r.1 }, r.2)

/-- Checks caches in order; the first failure counts. -/
def validateAll : List (String × CacheSettings) → Except ConfigError Unit
  | [] => .ok ()
  | (name, settings) :: rest =>
    if name.isEmpty then .error { cause := .namelessCache }
    else
      match settings.validate with
      | .error e => .error (e.under (.checkingCache name))
      | .ok _ => validateAll rest

/-- Checks a configuration. -/
def validate (c : Config) : Except ConfigError Unit := validateAll c.caches.entries

end Config

end LayeredCache
