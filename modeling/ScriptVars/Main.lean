import ScriptVars.CommandLine.Parser
import ScriptVars.CommandLine.Run

/-!
# The program

Reads the command line, runs it on the files of the system, and prints the answer.  Troubles go
to the error output.
-/

namespace ScriptVars

def FileProblem.ofError : IO.Error → FileProblem
  | .noFileOrDirectory .. => .notFound
  | e => .other (toString e)

def fileResult {α : Type} (x : IO α) : IO (Except FileProblem α) := do
  try
    return .ok (← x)
  catch e => return .error (.ofError e)

def systemDisk : Disk IO where
  read path := do
    return (← fileResult (IO.FS.readBinFile path)).map fun bytes => bytes.toList
  write path bytes := fileResult (IO.FS.writeBinFile path ⟨bytes.toArray⟩)

/-- a command line with the settings file that the environment names, unless it names one -/
def withEnvironment (line : CommandLine) : IO CommandLine := do
  match line.config with
  | some _ => return line
  | none => return { line with config := ← IO.getEnv "DYNVAR_CONFIG" }

/-- runs a command line; returns the exit code -/
def runOnSystem (line : CommandLine) : IO UInt32 := do
  let line ← withEnvironment line
  match ← (line.run systemDisk).run with
  | .ok answer =>
    IO.println (answer.render line.style)
    return 0
  | .error trouble =>
    IO.eprintln ("Error: " ++ trouble.message)
    return 1

end ScriptVars

open ScriptVars in
def main (args : List String) : IO UInt32 := do
  match CommandLine.parse args with
  | .ok line => runOnSystem line
  | .error refusal =>
    if refusal.isQuestion then
      IO.println refusal.message
      return 0
    else
      IO.eprintln refusal.message
      return 2
