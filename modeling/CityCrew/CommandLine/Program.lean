import CityCrew.CommandLine.Command
import CityCrew.Report.Tournament
import CityCrew.Settings.Load

/-!
# Running commands

A command is worked out from the contents of its files alone. The outcome is what it prints and the
exit code: 0, or 1 after an error, or 2 if the command line is not understood. There is none if the
program stops at a sum that is no word.
-/

namespace CityCrew.CommandLine

inductive ReadFailure where
  | missing
  | denied
  | notADirectory
  | isADirectory
  /-- The bytes are not text in UTF-8. -/
  | notText
  | other (reason : String)
deriving DecidableEq

def ReadFailure.message : ReadFailure → String
  | missing => "No such file or directory (os error 2)"
  | denied => "Permission denied (os error 13)"
  | notADirectory => "Not a directory (os error 20)"
  | isADirectory => "Is a directory (os error 21)"
  | notText => "stream did not contain valid UTF-8"
  | other reason => reason

abbrev Files := String → Except ReadFailure String

inductive CommandError where
  | unreadable (path : String) (failure : ReadFailure)
  | plan (path : String) (e : SyntaxError)
  | settings (path : String) (e : SettingsError)
  | unplayable (e : MatchError)
  | failedFiles (failed total : Nat)
deriving DecidableEq

def CommandError.message : CommandError → String
  | unreadable path failure => s!"Failed to read {path}: {failure.message}"
  | plan path e => s!"{path}: {e.message}"
  | settings path e => s!"{path}: {e.message}"
  | unplayable e => e.message
  | failedFiles failed total => s!"{failed} of {total} files failed"

structure Outcome where
  exitCode : UInt32
  output : String
  errors : String
deriving DecidableEq

namespace Outcome

def success (output : String) : Outcome :=
  ⟨0, output, ""⟩

def failure (output : String) (e : CommandError) : Outcome :=
  ⟨1, output, s!"Error: {e.message}\n"⟩

def usage : Outcome :=
  ⟨2, "", "Usage: (run | tournament | check) FILE... [OPTIONS]\n"⟩

end Outcome

def fileName (path : String) : String :=
  let parts := (path.splitOn "/").filter fun part => part ≠ "" ∧ part ≠ "."
  match parts.getLast? with
  | none => "unknown"
  | some last => if last = ".." then "unknown" else last

def readFile (files : Files) (path : String) : Except CommandError String :=
  (files path).mapError (.unreadable path)

def loadPlan (files : Files) (path : String) : Except CommandError Contestant := do
  let text ← readFile files path
  let plan ← (Plan.parse text).mapError (.plan path)
  return { name := fileName path, plan := plan }

def loadSettings (files : Files) (path : String) : Except CommandError Settings := do
  let text ← readFile files path
  (Settings.load text).mapError (.settings path)

def Play.load (files : Files) (play : Play) :
    Except CommandError (List Contestant × Settings) := do
  let contestants ← play.plans.mapM (loadPlan files)
  match play.settings with
  | none => return (contestants, {})
  | some path => return (contestants, ← loadSettings files path)

def checkFile (files : Files) (areSettings : Bool) (path : String) : Except CommandError Unit :=
  if areSettings then (loadSettings files path).map fun _ => ()
  else (loadPlan files path).map fun _ => ()

def runCheck (files : Files) (paths : List String) (areSettings : Bool) : Outcome :=
  let checked := paths.map fun path => (path, checkFile files areSettings path)
  let passed := checked.filterMap fun (path, result) =>
    match result with
    | .ok _ => some s!"{path}: ok"
    | .error _ => none
  let failed := checked.filterMap fun (_, result) =>
    match result with
    | .ok _ => none
    | .error e => some e.message
  let output := Report.unlines passed
  if failed.isEmpty then .success output
  else
    let outcome := Outcome.failure output (.failedFiles failed.length paths.length)
    { outcome with errors := Report.unlines failed ++ outcome.errors }

def runMatch (files : Files) (freshSeed : UInt64) (play : Play) (quiet : Bool) :
    Option Outcome :=
  match play.load files with
  | .error e => some (.failure "" e)
  | .ok (contestants, settings) =>
    let names := contestants.map (·.name)
    let seed := play.seed.getD freshSeed
    let header := if quiet || play.format = .json then "" else Report.matchHeader names seed
    match playMatch contestants settings play.maxTurns seed with
    | .error .overflow => none
    | .error e => some (.failure header (.unplayable e))
    | .ok result =>
      let report := match play.format with
        | .text => Report.matchText names result
        | .json => (Report.matchJson names result).pretty
      some (.success (header ++ report))

/-- Plays a tournament, cut in half until every thread has its share. Its first game is set up on its
own before, so that a faulty set-up is reported. -/
def runTournament (files : Files) (freshSeed : UInt64) (play : Play) (games : Nat)
    (threads : Option Nat) : Option Outcome :=
  match play.load files with
  | .error e => some (.failure "" e)
  | .ok (contestants, settings) =>
    let names := contestants.map (·.name)
    let seed := play.seed.getD freshSeed
    match Game.create settings names seed with
    | .error e => some (.failure "" (.unplayable (.setup e)))
    | .ok _ =>
      let tournament : Tournament :=
        { contestants := contestants, settings := settings, maxTurns := play.maxTurns }
      -- The pool counts its first two cuts as handed over, beside one for each doubling of threads.
      let depth := (threads.getD 1).log2 + 3
      (tournament.play depth seed games).map fun statistics =>
        .success <| match play.format with
          | .text => "\n" ++ Report.tournamentText names statistics ++ "\n"
          | .json => (Report.tournamentJson names statistics).pretty

/-- Runs a command. A command that names no seed gets `freshSeed`. -/
def Command.outcome (files : Files) (freshSeed : UInt64) : Command → Option Outcome
  | run play quiet => runMatch files freshSeed play quiet
  | tournament play games threads => runTournament files freshSeed play games threads
  | check paths areSettings => some (runCheck files paths areSettings)

end CityCrew.CommandLine
