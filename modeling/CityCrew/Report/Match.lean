import CityCrew.Match.Basic
import CityCrew.Report.Json

/-!
# Reports on a match

The same facts as a text for people and as JSON. Players are shown with the names of their plans.
-/

namespace CityCrew.Report

def nameOf (names : List String) (id : PlayerId) : String :=
  if id = 0 then "Unknown" else names.getD (id - 1) "Unknown"

def unlines (lines : List String) : String :=
  String.join (lines.map (· ++ "\n"))

def matchHeader (names : List String) (seed : UInt64) : String :=
  let shown := ", ".intercalate names
  unlines [s!"Running match with seed {seed}...", s!"Players: {shown}", ""]

def winnerText (names : List String) : Option PlayerId → String
  | some id =>
    let name := nameOf names id
    s!"Player {id} ({name})"
  | none => "Draw"

def standingLine (names : List String) (s : Standing) : String :=
  let name := nameOf names s.id
  let fate := match s.eliminated with
    | some round => s!" [eliminated turn {round}]"
    | none => ""
  s!"  Player {s.id}: budget {s.budget}, {s.regions} regions holding {s.deposit} ({name})" ++ fate

def matchText (names : List String) (r : MatchResult) : String :=
  let winner := winnerText names r.winner
  unlines ([s!"Match Result (seed: {r.seed})", s!"  Winner: {winner}", s!"  Turns: {r.turnsPlayed}",
    ""] ++ r.standings.map (standingLine names))

def standingJson (names : List String) (s : Standing) : Json :=
  .record [
    ("id", .integer s.id),
    ("plan", .text (nameOf names s.id)),
    ("budget", .integer s.budget),
    ("regions", .integer s.regions),
    ("deposit", .integer s.deposit),
    ("halted_turns", .integer s.halted.toNat),
    ("eliminated_turn", .ofInt? s.eliminated)]

def matchJson (names : List String) (r : MatchResult) : Json :=
  .record [
    ("seed", .integer r.seed.toNat),
    ("winner", .ofInt? (r.winner.map Int.ofNat)),
    ("turns_played", .integer r.turnsPlayed),
    ("players", .list (r.standings.map (standingJson names)))]

end CityCrew.Report
