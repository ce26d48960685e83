import LayeredCache.Journal.Level
import LayeredCache.Text.JsonString
import LayeredCache.Text.Padded
import LayeredCache.Time

/-!
# Journal lines

An entry is written in one of three formats: for people, as a JSON object with its fields in
ascending order of their names, or as pairs of a name and a value, where only the message stands in
quotes.
-/

namespace LayeredCache

/-- What a journal line tells. -/
structure JournalEntry where
  level : Level
  message : String
  /-- The part of the program that tells it. -/
  source : String
  deriving DecidableEq, Repr

/-- The formats of journal lines. -/
inductive LineFormat where
  | human
  | json
  | logfmt
  deriving DecidableEq, Repr

namespace LineFormat

/-- All formats. -/
def all : List LineFormat := [human, json, logfmt]

/-- The name of a format. -/
def name : LineFormat → String
  | human => "human"
  | json => "json"
  | logfmt => "logfmt"

/-- The format of a name. -/
def ofName? (s : String) : Option LineFormat := all.find? (·.name = s)

/-- The format of a name without regard to case; a failure holds the name in lower case. -/
def parse (s : String) : Except String LineFormat :=
  let lower := Text.asciiLower s
  match ofName? lower with
  | some f => .ok f
  | none => .error lower

/-- A text with a backslash before every quote. -/
def escapeQuotes (s : String) : String :=
  String.ofList (s.toList.flatMap fun c => if c = '"' then ['\\', '"'] else [c])

/-- The line of an entry, where `stamp` is its time in a given form. -/
def line (f : LineFormat) (stamp : String) (e : JournalEntry) : String :=
  match f with
  | human =>
    stamp ++ " " ++ Text.Field.fit { width := 5 } e.level.name ++ " [" ++ e.source ++ "] " ++
      e.message
  | json =>
    "\x7b\"level\":" ++ Text.JsonString.encode e.level.name ++
      ",\"message\":" ++ Text.JsonString.encode e.message ++
      ",\"target\":" ++ Text.JsonString.encode e.source ++
      ",\"timestamp\":" ++ Text.JsonString.encode stamp ++ "\x7d"
  | logfmt =>
    "timestamp=" ++ stamp ++ " level=" ++ e.level.name ++ " target=" ++ e.source ++
      " message=\"" ++ escapeQuotes e.message ++ "\""

/-- The form in which a format writes times. -/
def stamp (f : LineFormat) (t : Timestamp) : String :=
  match f with
  | human => t.plain
  | json | logfmt => t.rfc3339

/-- The line of an entry at a point in time. -/
def lineAt (f : LineFormat) (t : Timestamp) (e : JournalEntry) : String := f.line (f.stamp t) e

@[simp] theorem ofName?_name (f : LineFormat) : ofName? f.name = some f := by cases f <;> decide

end LineFormat

/-- Where journal lines go. -/
inductive Stream where
  | stdout
  | stderr
  deriving DecidableEq, Repr

namespace Stream

/-- The name of a stream. -/
def name : Stream → String
  | stdout => "stdout"
  | stderr => "stderr"

/-- The stream of a name. -/
def ofName? (s : String) : Option Stream := [stdout, stderr].find? (·.name = s)

@[simp] theorem ofName?_name (s : Stream) : ofName? s.name = some s := by cases s <;> decide

end Stream

/-- The settings of the journal. -/
structure JournalSettings where
  /-- The least severe level that is written. -/
  level : Level := .info
  format : LineFormat := .human
  output : Stream := .stderr
  deriving DecidableEq, Repr

namespace JournalSettings

/-- The settings for development. -/
def development : JournalSettings := { level := .debug }

/-- Settings replace earlier ones as a whole. -/
def merge (_ other : JournalSettings) : JournalSettings := other

/-- The lines of entries under these settings, in order; the less severe entries are left out. -/
def lines (s : JournalSettings) (stamp : String) (entries : List JournalEntry) : List String :=
  (entries.filter fun e => s.level.admits e.level).map (s.format.line stamp)

end JournalSettings

end LayeredCache
