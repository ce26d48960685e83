import LayeredCache.CommandLine.Arguments
import LayeredCache.Config.Decode
import LayeredCache.Journal.Event

/-!
# What the program does

An invocation is run on the content of its configuration file and on the environment variables, and
gives what is written to both streams and the exit code. Journal lines go to the stream that the
configuration names, in front of the results.
-/

namespace LayeredCache.CommandLine

/-- What a run of the program leaves. -/
structure Output where
  exit : Nat := 0
  stdout : String := ""
  stderr : String := ""
  deriving DecidableEq, Repr

/-- What an invocation reads: its configuration file, the environment variables, and the present
time in the form of a line format. -/
structure Surroundings where
  content : FileContent
  env : String → Option String
  stamp : LineFormat → String

/-- The name and the number of the program. -/
def versionText : String := "lamina 0.1.0\n"

/-- The help for the program. -/
def helpText : String :=
  "Lamina cache chain tool\n\nUsage: lamina <COMMAND>\n\nCommands:\n" ++
  "  describe  Print the decorator chain of every configured cache\n" ++
  "  simulate  Run a seeded read-through workload against one cache\n" ++
  "  help      Print this message or the help of the given subcommand(s)\n\nOptions:\n" ++
  "  -h, --help     Print help\n  -V, --version  Print version\n"

/-- The help for describing caches. -/
def describeHelpText : String :=
  "Print the decorator chain of every configured cache\n\n" ++
  "Usage: lamina describe --config <CONFIG>\n\nOptions:\n" ++
  "  -c, --config <CONFIG>  TOML configuration file\n  -h, --help             Print help\n"

/-- The help for running a workload. -/
def simulateHelpText : String :=
  "Run a seeded read-through workload against one cache\n\n" ++
  "Usage: lamina simulate [OPTIONS] --config <CONFIG> --namespace <NAMESPACE>\n\nOptions:\n" ++
  "  -c, --config <CONFIG>        TOML configuration file\n" ++
  "  -n, --namespace <NAMESPACE>  Cache namespace to exercise\n" ++
  "      --ops <OPS>              Number of lookups [default: 10000]\n" ++
  "      --keys <KEYS>            Number of distinct keys [default: 256]\n" ++
  "      --seed <SEED>            Random seed [default: 42]\n" ++
  "      --tx-size <TX_SIZE>      Lookups per transaction [default: 16]\n" ++
  "  -h, --help                   Print help\n"

/-- The help for the help. -/
def helpHelpText : String :=
  "Print this message or the help of the given subcommand(s)\n\n" ++
  "Usage: lamina help [COMMAND]...\n\nArguments:\n" ++
  "  [COMMAND]...  Print help for the subcommand(s)\n"

/-- What is written when the arguments are wrong. -/
def misuseText : String := "error: invalid arguments\n\nFor more information, try '--help'.\n"

/-- The configuration of an existing file, checked. -/
def load (path : String) (s : Surroundings) : Except ConfigError Config :=
  if s.content.isPresent then
    match Config.load path s.content s.env with
    | .error e => .error e
    | .ok c =>
      match c.validate with
      | .error e => .error (e.under (.checkingFile path))
      | .ok _ => .ok c
  else .error { cause := .missingFile path }

/-- One line for each cache: its name and its layers. -/
def describeAll : List (String × CacheSettings) → Except ConfigError String
  | [] => .ok ""
  | (name, settings) :: rest =>
    match (settings.toBuilder name).bind Builder.layers with
    | .error e => .error (.ofCache e)
    | .ok layers =>
      match describeAll rest with
      | .error e => .error e
      | .ok lines => .ok (name ++ ": " ++ Layer.describe layers ++ "\n" ++ lines)

/-- Describes the caches of a configuration. -/
def describe (path : String) (c : Config) : Except ConfigError String :=
  if c.caches.isEmpty then .ok ("No caches configured in " ++ path ++ ".\n")
  else describeAll c.caches.entries

/-- The lines of a report. -/
def reportText (cache : String) (w : Workload) (r : WorkloadReport) : String :=
  "cache:      " ++ cache ++ "\n" ++
  "operations: " ++ toString w.operations ++ "\n" ++
  "hits:       " ++ toString r.hits ++ "\n" ++
  "misses:     " ++ toString r.misses ++ "\n" ++
  "hit ratio:  " ++ r.hitCount.ratioText ++ "\n" ++
  "commits:    " ++ toString r.commits ++ "\n" ++
  "rollbacks:  " ++ toString r.rollbacks ++ "\n" ++
  "size:       " ++ toString r.size ++ "\n"

/-- Runs a workload against a cache of a configuration; also gives what was told to the journal. -/
def simulate (path cache : String) (w : Workload) (c : Config) :
    List (Event Key) × Except ConfigError String :=
  match c.cache? cache with
  | none => ([], .error { cause := .missingCache cache path })
  | some settings =>
    if w.keys = 0 ∨ w.transactionSize = 0 then ([], .error { cause := .emptyWorkload })
    else
      match settings.toBuilder cache with
      | .error e => ([], .error (.ofCache e))
      | .ok builder =>
        match builder.build 0 {} ({} : Ground Key String) with
        | (g, .error e) => (g.journal.reverse, .error (.ofCache e))
        | (g, .ok chain) =>
          let r := w.run chain.cache {} chain.stack (g.note (.simulating cache w.operations w.keys))
          let events := r.ground.journal.reverse
          match r.answer with
          | .error e => (events, .error ((ConfigError.ofCache e).under (.simulating cache)))
          | .ok report => (events, .ok (reportText cache w report))

/-- The output of a result. -/
def Output.ofResult : Except ConfigError String → Output
  | .ok text => { stdout := text }
  | .error e => { exit := 1, stderr := "Error: " ++ e.message ++ "\n" }

/-- The output with journal lines in front of it. -/
def Output.withJournal (o : Output) (settings : JournalSettings) (s : Surroundings)
    (events : List (Event Key)) : Output :=
  let entries := events.map fun e => ⟨e.level, e.message, e.source⟩
  let text := String.join
    ((settings.lines (s.stamp settings.format) entries).map fun line => line ++ "\n")
  match settings.output with
  | .stdout => { o with stdout := text ++ o.stdout }
  | .stderr => { o with stderr := text ++ o.stderr }

/-- Runs an invocation. -/
def Invocation.run (s : Surroundings) : Invocation → Output
  | version => { stdout := versionText }
  | help => { stdout := helpText }
  | describeHelp => { stdout := describeHelpText }
  | simulateHelp => { stdout := simulateHelpText }
  | helpHelp => { stdout := helpHelpText }
  | misuse => { exit := 2, stderr := misuseText }
  | describe path =>
    match load path s with
    | .error e => .ofResult (.error e)
    | .ok c => .ofResult (CommandLine.describe path c)
  | simulate path cache w =>
    match load path s with
    | .error e => .ofResult (.error e)
    | .ok c =>
      match CommandLine.simulate path cache w c with
      | (events, result) => (Output.ofResult result).withJournal c.journal s events

end LayeredCache.CommandLine
