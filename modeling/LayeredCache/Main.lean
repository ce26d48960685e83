import LayeredCache.CommandLine.Run
import Std.Time.DateTime.Timestamp

/-!
# The program

Reads the configuration file that the arguments name, and writes what the run leaves.
-/

namespace LayeredCache.CommandLine

/-- What a failure to read says about the path, if anything. The numbers tell a directory from a
file that is led on from, and a character from a length. -/
def faultOf? : IO.Error → Option PathFault
  | .noFileOrDirectory .. => some .notFound
  | .inappropriateType _ code _ => some (if code = 21 then .isDirectory else .notDirectory)
  | .invalidArgument _ code _ => some (if code = 22 then .nulInside else .nameTooLong)
  | _ => none

/-- What a path leads to. -/
def readContent (path : String) : IO FileContent := do
  try
    return .ok (← IO.FS.readBinFile path).data.toList
  catch e =>
    match faultOf? e with
    | some fault => return .error fault
    | none => throw e

/-- The present time. -/
def presentTime : IO Timestamp := do
  let now ← Std.Time.Timestamp.now
  return ⟨now.val.second.val, now.val.nano.val.toNat⟩

/-- Runs the program on its arguments. -/
def program (args : List String) : IO UInt32 := do
  let invocation := Invocation.ofArguments args
  let content ← match invocation.path? with
    | none => pure (.error .notFound)
    | some path => readContent path
  let level ← IO.getEnv Config.levelVariable
  let format ← IO.getEnv Config.formatVariable
  let now ← presentTime
  let env (name : String) : Option String :=
    if name = Config.levelVariable then level
    else if name = Config.formatVariable then format
    else none
  let output := invocation.run ⟨content, env, (·.stamp now)⟩
  IO.print output.stdout
  IO.eprint output.stderr
  return UInt32.ofNat output.exit

end LayeredCache.CommandLine

def main (args : List String) : IO UInt32 := LayeredCache.CommandLine.program args
