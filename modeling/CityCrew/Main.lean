import CityCrew.CommandLine.Program

/-!
# The program

Reads the files that the command line names, runs the command, and prints its outcome.
-/

namespace CityCrew.CommandLine

/-- The code of a system error, which is reported with or without a minus sign. -/
def systemCode (code : UInt32) : UInt32 :=
  min code (-code)

def ReadFailure.ofError : IO.Error → ReadFailure
  | .noFileOrDirectory _ _ _ => missing
  | .permissionDenied _ _ _ => denied
  | .inappropriateType _ code details =>
    if systemCode code = 20 then notADirectory
    else if systemCode code = 21 then isADirectory
    else other details
  | e => other (toString e)

def readText (path : String) : IO (Except ReadFailure String) := do
  match ← (IO.FS.readBinFile path).toBaseIO with
  | .error e => return .error (.ofError e)
  | .ok bytes =>
    match String.fromUTF8? bytes with
    | some text => return .ok text
    | none => return .error .notText

def readFiles (paths : List String) : IO Files := do
  let found ← paths.mapM fun path => return (path, ← readText path)
  return fun path => (found.lookup path).getD (.error .missing)

/-- The exit code of a program that has stopped at a sum that is no word. -/
def overflowCode : UInt32 := 101

def freshSeed : IO UInt64 := do
  return (← IO.getRandomBytes 8).toUInt64LE!

end CityCrew.CommandLine

open CityCrew.CommandLine in
def main (arguments : List String) : IO UInt32 := do
  let outcome ← match Command.ofArguments? arguments with
    | none => pure (some Outcome.usage)
    | some command => do
      let files ← readFiles command.paths
      pure (command.outcome files (← freshSeed))
  match outcome with
  | none => return overflowCode
  | some outcome => do
    IO.print outcome.output
    IO.eprint outcome.errors
    return outcome.exitCode
