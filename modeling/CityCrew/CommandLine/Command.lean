import CityCrew.CommandLine.Options

/-!
# Commands

A command line names one of three commands, its files and its options. `Command.ofArguments?` reads
it as a whole; a command line that is not understood in every part gives no command.
-/

namespace CityCrew.CommandLine

inductive Format where
  | text
  | json
deriving DecidableEq

structure Play where
  plans : List String
  settings : Option String
  seed : Option UInt64
  maxTurns : Int
  format : Format
deriving DecidableEq

inductive Command where
  | run (play : Play) (quiet : Bool)
  | tournament (play : Play) (games : Nat) (threads : Option Nat)
  /-- Checks plans, or settings, for errors. -/
  | check (files : List String) (areSettings : Bool)
deriving DecidableEq

namespace Format

def ofText? : String → Option Format
  | "text" => some text
  | "json" => some json
  | _ => none

end Format

def digits? (cs : List Char) : Option Nat :=
  if cs.isEmpty || !cs.all (·.isDigit) then none
  else some (cs.foldl (fun n c => 10 * n + (c.toNat - '0'.toNat)) 0)

def natural? (text : String) : Option Nat :=
  let digits := match text.toList with
    | '+' :: rest => rest
    | cs => cs
  (digits? digits).filter (· < UInt64.size)

def integer? (text : String) : Option Int :=
  let value : Option Int := match text.toList with
    | '+' :: rest => (digits? rest).map Int.ofNat
    | '-' :: rest => (digits? rest).map fun n => -(n : Int)
    | cs => (digits? cs).map Int.ofNat
  value.filter fun n => Int64.minValue.toInt ≤ n ∧ n ≤ Int64.maxValue.toInt

def path? (text : String) : Option String :=
  if text.isEmpty then none else some text

/-- The value given for an option, if there is one; nothing if it cannot be read. -/
def read? {α : Type} (items : List Item) (name : String) (parse : String → Option α) :
    Option (Option α) :=
  match value? items name with
  | none => some none
  | some text => (parse text).map some

/-- The files of a command. There must be some, and the length of every run of them is tested. -/
def files? (items : List Item) (fits : Nat → Bool) : Option (List String) :=
  let runs := freeRuns items
  if runs.isEmpty || !runs.all (fun run => fits run.length) then none
  else runs.flatten.mapM path?

namespace Play

def defaultMaxTurns : Int := 1000

def ofItems? (limit : String) (items : List Item) : Option Play := do
  let plans ← files? items fun n => 2 ≤ n && n ≤ 8
  let settings ← read? items "config" path?
  let seed ← read? items "seed" natural?
  let maxTurns ← read? items limit integer?
  let format ← read? items "format" Format.ofText?
  return {
    plans := plans
    settings := settings
    seed := seed.map UInt64.ofNat
    maxTurns := maxTurns.getD defaultMaxTurns
    format := format.getD .text }

end Play

namespace Command

def runSwitches : List Switch :=
  [⟨"config", 'c', true⟩, ⟨"seed", 's', true⟩, ⟨"turns", 't', true⟩, ⟨"format", 'f', true⟩,
    ⟨"quiet", 'q', false⟩]

def tournamentSwitches : List Switch :=
  [⟨"config", 'c', true⟩, ⟨"games", 'g', true⟩, ⟨"seed", 's', true⟩, ⟨"threads", 'j', true⟩,
    ⟨"max-turns", 't', true⟩, ⟨"format", 'f', true⟩, ⟨"progress", 'p', false⟩]

def checkSwitches : List Switch :=
  [⟨"config", none, false⟩]

def defaultGames : Nat := 1000

def runOf? (items : List Item) : Option Command := do
  let play ← Play.ofItems? "turns" items
  return run play (isGiven items "quiet")

def tournamentOf? (items : List Item) : Option Command := do
  let play ← Play.ofItems? "max-turns" items
  let games ← read? items "games" natural?
  let threads ← read? items "threads" natural?
  return tournament play (games.getD defaultGames) threads

def checkOf? (items : List Item) : Option Command := do
  let files ← files? items fun n => 1 ≤ n
  return check files (isGiven items "config")

def ofItems? (known : List Switch) (command? : List Item → Option Command)
    (arguments : List String) : Option Command := do
  let items ← items? known arguments
  if isUnrepeated items then command? items else none

def ofArguments? : List String → Option Command
  | "run" :: rest => ofItems? runSwitches runOf? rest
  | "tournament" :: rest => ofItems? tournamentSwitches tournamentOf? rest
  | "check" :: rest => ofItems? checkSwitches checkOf? rest
  | _ => none

def paths : Command → List String
  | run play _ => play.plans ++ play.settings.toList
  | tournament play _ _ => play.plans ++ play.settings.toList
  | check files _ => files

end Command

end CityCrew.CommandLine
