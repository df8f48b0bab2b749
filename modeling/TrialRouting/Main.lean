import TrialRouting.CommandLine

/-!
# TrialRouting.Main

The program: reads the settings file that the command line names, and prints the answer.
-/

open TrialRouting CommandLine

/-- The text of a file, none if it cannot be read. -/
def readFile? (path : String) : IO (Option String) := do
  try
    return some (← IO.FS.readFile path)
  catch _ =>
    return none

def main (args : List String) : IO UInt32 := do
  let answer ← match CommandLine.read args with
    | .error halt => pure halt.answer
    | .ok request => do
      let file? ← match request.configPath with
        | none => pure none
        | some path => readFile? path
      pure (request.answer file?)
  IO.print answer.output
  match answer.error with
  | none => pure ()
  | some message => IO.eprintln message
  return .ofNat answer.exit
