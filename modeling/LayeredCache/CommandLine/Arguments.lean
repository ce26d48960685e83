import LayeredCache.Builder
import LayeredCache.Simulation

/-!
# The arguments of the command line

Arguments are read one after the other, and the first that asks for help or is wrong decides. An
option stands before its value, or is joined to it; a value that stands alone must not look like an
option. No option is given twice.
-/

namespace LayeredCache.CommandLine

/-- What the arguments ask for. -/
inductive Invocation where
  | version
  | help
  | describeHelp
  | simulateHelp
  | helpHelp
  /-- Describe the caches of a configuration file. -/
  | describe (path : String)
  /-- Run a workload against a cache of a configuration file. -/
  | simulate (path cache : String) (w : Workload)
  /-- The arguments are wrong. -/
  | misuse
  deriving DecidableEq, Repr

/-- The options that take a value. -/
inductive OptionName where
  | config
  | cache
  | operations
  | keys
  | seed
  | transactionSize
  deriving DecidableEq, Repr

namespace OptionName

/-- The long name of an option. -/
def long : OptionName → String
  | config => "config"
  | cache => "namespace"
  | operations => "ops"
  | keys => "keys"
  | seed => "seed"
  | transactionSize => "tx-size"

/-- The short name of an option, if it has one. -/
def short? : OptionName → Option Char
  | config => some 'c'
  | cache => some 'n'
  | _ => none

/-- Whether a value fits an option: a file has a path, a cache any name, and all other options take
a count. -/
def admits (o : OptionName) (value : String) : Bool :=
  match o with
  | config => !value.isEmpty
  | cache => true
  | _ => (parseCount? value).isSome

end OptionName

/-- An argument on its own. -/
inductive Argument where
  | help
  /-- An option, with its value if it is joined to it. -/
  | option (o : OptionName) (value : Option String)
  /-- The mark after which nothing is an option. -/
  | mark
  | wrong
  deriving DecidableEq, Repr

/-- Splits a text at its first equals sign. -/
def splitEquals (cs : List Char) : String × Option String :=
  match cs.span (· ≠ '=') with
  | (name, []) => (String.ofList name, none)
  | (name, _ :: value) => (String.ofList name, some (String.ofList value))

/-- Reads an argument where `options` are known. -/
def Argument.read (options : List OptionName) (arg : String) : Argument :=
  match arg.toList with
  | ['-', '-'] => mark
  | '-' :: '-' :: rest =>
    let (name, value) := splitEquals rest
    if name = "help" then if value.isNone then help else wrong
    else
      match options.find? (·.long = name) with
      | some o => option o value
      | none => wrong
  | '-' :: c :: rest =>
    if c = 'h' then help
    else
      match options.find? (·.short? = some c) with
      | none => wrong
      | some o =>
        match rest with
        | [] => option o none
        | '=' :: value => option o (some (String.ofList value))
        | value => option o (some (String.ofList value))
  | _ => wrong

/-- Whether a text that stands alone may be the value of an option. -/
def isValue (arg : String) : Bool :=
  match arg.toList with
  | '-' :: _ :: _ => false
  | _ => true

/-- Why arguments do not give values of options. -/
inductive Stop where
  | help
  | misuse
  deriving DecidableEq, Repr

/-- Reads options with their values; `given` were read before. -/
def readOptions (options : List OptionName) (given : List (OptionName × String)) :
    List String → Except Stop (List (OptionName × String))
  | [] => .ok given
  | arg :: rest =>
    let add (o : OptionName) (value : String) : Except Stop (List (OptionName × String)) :=
      if o.admits value && !given.any (·.1 = o) then .ok ((o, value) :: given) else .error .misuse
    match Argument.read options arg with
    | .help => .error .help
    | .wrong => .error .misuse
    | .mark => if rest.isEmpty then .ok given else .error .misuse
    | .option o (some value) => (add o value).bind fun given => readOptions options given rest
    | .option o none =>
      match rest with
      | [] => .error .misuse
      | value :: rest =>
        if isValue value then (add o value).bind fun given => readOptions options given rest
        else .error .misuse

/-- The value of an option. -/
def valueOf (given : List (OptionName × String)) (o : OptionName) : Option String :=
  (given.find? (·.1 = o)).map (·.2)

/-- The count of an option, or its default. -/
def countOf (given : List (OptionName × String)) (o : OptionName) (default : Nat) : Nat :=
  ((valueOf given o).bind parseCount?).getD default

/-- The workload that options describe. -/
def workloadOf (given : List (OptionName × String)) : Workload :=
  let d : Workload := {}
  { operations := countOf given .operations d.operations
    keys := countOf given .keys d.keys
    seed := countOf given .seed d.seed
    transactionSize := countOf given .transactionSize d.transactionSize }

namespace Invocation

/-- What the arguments after `describe` ask for. -/
def ofDescribe (args : List String) : Invocation :=
  match readOptions [.config] [] args with
  | .error .help => describeHelp
  | .error .misuse => misuse
  | .ok given =>
    match valueOf given .config with
    | none => misuse
    | some path => describe path

/-- What the arguments after `simulate` ask for. -/
def ofSimulate (args : List String) : Invocation :=
  match readOptions [.config, .cache, .operations, .keys, .seed, .transactionSize] [] args with
  | .error .help => simulateHelp
  | .error .misuse => misuse
  | .ok given =>
    match valueOf given .config, valueOf given .cache with
    | some path, some cache => simulate path cache (workloadOf given)
    | _, _ => misuse

/-- What the arguments ask for. -/
def ofArguments : List String → Invocation
  | [] => misuse
  | arg :: rest =>
    if arg = "--version" ∨ "-V".toList.isPrefixOf arg.toList then version
    else if arg = "--help" ∨ "-h".toList.isPrefixOf arg.toList then help
    else if arg = "describe" then ofDescribe rest
    else if arg = "simulate" then ofSimulate rest
    else if arg = "help" then
      match rest with
      | [] => help
      | ["describe"] => describeHelp
      | ["simulate"] => simulateHelp
      | ["help"] => helpHelp
      | _ => misuse
    else misuse

/-- The configuration file that is to be read. -/
def path? : Invocation → Option String
  | describe path | simulate path _ _ => some path
  | _ => none

end Invocation

end LayeredCache.CommandLine
