import SemanticLayer.CommandLine.Run

/-!
# The program

The command line with the files and the environment of the machine.
-/

namespace SemanticLayer

open CommandLine

/-- Why a file cannot be read. -/
def unreadableCause : IO.Error → String
  | .inappropriateType _ code details | .permissionDenied _ code details =>
    details ++ " (os error " ++ Number.intText code.toNat ++ ")"
  | .userError _ => "stream did not contain valid UTF-8"
  | other => toString other

/-- What is found at a path. -/
def fileAt (path : String) : IO File := do
  try
    let content ← IO.FS.readFile path
    pure (.text content)
  catch
    | .noFileOrDirectory .. => pure .missing
    | error => pure (.unreadable (unreadableCause error))

/-- The files and the environment of the machine. -/
def machine : Surroundings IO :=
  { file := fileAt, environment := fun name => IO.getEnv name }

end SemanticLayer

/-- Runs the program with the arguments it is given. -/
def main (arguments : List String) : IO UInt32 := do
  let outcome ← SemanticLayer.CommandLine.run SemanticLayer.machine arguments
  IO.print outcome.output
  IO.eprint (outcome.errors.getD SemanticLayer.CommandLine.usage)
  pure outcome.exitCode.toUInt32
