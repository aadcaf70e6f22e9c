import CityCrew.Decimal.Fixed
import CityCrew.Match.Tournament
import CityCrew.Report.Match

/-!
# Reports on a tournament

Rates are shown in percent and rounded in the text, and as plain numbers in JSON.
-/

namespace CityCrew.Report

def percent (rate : Float) : String :=
  Decimal.fixed 1 (rate * 100.0)

def winLine (s : Statistics) (name : String) (i : Nat) : String :=
  let id := i + 1
  let rate := percent (s.winRate i)
  let wins := s.wins.getD i 0
  s!"  Player {id} ({name}): {rate}% ({wins} wins)"

def scoreLine (s : Statistics) (name : String) (i : Nat) : String :=
  let id := i + 1
  let average := Decimal.fixed 1 (s.averageScore i)
  let deviation := Decimal.fixed 1 (s.scoreDeviation i)
  s!"  Player {id} ({name}): {average} (+/- {deviation})"

def tournamentText (names : List String) (s : Statistics) : String :=
  let drawRate := percent s.drawRate
  let turns := Decimal.fixed 0 s.averageTurns
  unlines (
    [s!"Tournament Results ({s.games} games)", String.ofList (List.replicate 40 '='), "",
      "Win Rates:"] ++
    (names.zipIdx.map fun (name, i) => winLine s name i) ++
    [s!"  Draws: {s.draws} ({drawRate}%)", "", "Average Scores (budget + deposits):"] ++
    (names.zipIdx.map fun (name, i) => scoreLine s name i) ++
    ["", s!"Average Match Length: {turns} turns"])

def contestantJson (s : Statistics) (name : String) (i : Nat) : Json :=
  .record [
    ("player", .integer (i + 1)),
    ("plan", .text name),
    ("wins", .integer (s.wins.getD i 0)),
    ("win_rate", .real (s.winRate i)),
    ("avg_score", .real (s.averageScore i)),
    ("score_std_dev", .real (s.scoreDeviation i))]

def tournamentJson (names : List String) (s : Statistics) : Json :=
  .record [
    ("games_played", .integer s.games),
    ("players", .list (names.zipIdx.map fun (name, i) => contestantJson s name i)),
    ("draws", .integer s.draws),
    ("avg_turns", .real s.averageTurns)]

end CityCrew.Report
