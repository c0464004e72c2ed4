import ScriptDecompiler.CommandLine.Run

/-!
# The program

Reads the arguments and the files that they name, and prints what comes of them.
-/

namespace ScriptDecompiler.CommandLine

/-- The bytes of a file, if it can be read. -/
def readFile? (path : String) : IO (Option (List UInt8)) := do
  try
    return some (← IO.FS.readBinFile path).toList
  catch _ =>
    return none

/-- The bytes of the files that the settings name. -/
def readFiles (settings : Settings) : IO Files := do
  let read : Option String → IO (Option (List UInt8))
    | some path => readFile? path
    | none => return none
  return {
    unit := ← readFile? settings.path
    natives := ← read settings.natives
    translations := ← read settings.translations }

/-- Carry a request out. -/
def perform (request : Request) : IO Outcome := do
  match request with
  | .help => return ⟨0, helpText, ""⟩
  | .version => return ⟨0, versionText, ""⟩
  | .decompile settings => return decompileFile settings (← readFiles settings)

end ScriptDecompiler.CommandLine

/-- Run the program with the given arguments. -/
def main (arguments : List String) : IO UInt32 := do
  let outcome ← match ScriptDecompiler.CommandLine.readArguments arguments with
    | .ok request => ScriptDecompiler.CommandLine.perform request
    | .error e => pure (ScriptDecompiler.CommandLine.usageOutcome e)
  (← IO.getStdout).putStr outcome.output
  (← IO.getStderr).putStr outcome.errors
  return outcome.code
