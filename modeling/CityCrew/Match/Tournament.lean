import CityCrew.Match.Basic

/-!
# Tournaments

A tournament plays matches between the same contestants with successive seeds and adds up their
results. Statistics of different matches can be put together by `Statistics.merge`, so the matches
can be dealt out to several workers. Scores are added up as floating-point numbers, whose sums
depend on their order where they are rounded.
-/

namespace CityCrew

/-- The results of any number of matches. The lists have one entry for each contestant. -/
@[ext] structure Statistics where
  games : Nat
  wins : List Nat
  draws : Nat
  scores : List Float
  /-- The sums of the squares of the scores. -/
  squares : List Float
  turns : Nat
deriving DecidableEq

namespace Statistics

def empty (players : Nat) : Statistics where
  games := 0
  wins := List.replicate players 0
  draws := 0
  scores := List.replicate players 0
  squares := List.replicate players 0
  turns := 0

def winnerPlace? (players : Nat) (r : MatchResult) : Option Nat :=
  r.winner.bind fun id => if 0 < id ∧ id ≤ players then some (id - 1) else none

def addTo (sums amounts : List Float) : List Float :=
  sums.zipIdx.map fun (sum, i) =>
    match amounts[i]? with
    | some amount => sum + amount
    | none => sum

def add (s : Statistics) (r : MatchResult) : Statistics :=
  let place := winnerPlace? s.wins.length r
  let scores := r.standings.map fun p => Float.ofInt p.score
  { games := s.games + 1
    wins := match place with
      | some i => s.wins.modify i (· + 1)
      | none => s.wins
    draws := if place.isSome then s.draws else s.draws + 1
    scores := addTo s.scores scores
    squares := addTo s.squares (scores.map fun x => x * x)
    turns := s.turns + r.turnsPlayed.toNat }

def merge (s t : Statistics) : Statistics where
  games := s.games + t.games
  wins := List.zipWith (· + ·) s.wins t.wins
  draws := s.draws + t.draws
  scores := List.zipWith (· + ·) s.scores t.scores
  squares := List.zipWith (· + ·) s.squares t.squares
  turns := s.turns + t.turns

/-- The statistics, if the numbers of games and of turns are words. The other counts are no greater
than the number of games. -/
def checked? (s : Statistics) : Option Statistics :=
  if s.games < UInt64.size ∧ s.turns < UInt64.size then some s else none

def perGame (s : Statistics) (x : Float) : Float :=
  if s.games = 0 then 0.0 else x / Float.ofNat s.games

def winRate (s : Statistics) (i : Nat) : Float :=
  s.perGame (Float.ofNat (s.wins.getD i 0))

def drawRate (s : Statistics) : Float :=
  s.perGame (Float.ofNat s.draws)

def averageScore (s : Statistics) (i : Nat) : Float :=
  s.perGame (s.scores.getD i 0.0)

/-- The standard deviation of the scores; 0 if rounding makes the variance negative. -/
def scoreDeviation (s : Statistics) (i : Nat) : Float :=
  let mean := s.averageScore i
  let variance := s.perGame (s.squares.getD i 0.0) - mean * mean
  if variance < 0.0 then 0.0 else variance.sqrt

def averageTurns (s : Statistics) : Float :=
  s.perGame (Float.ofNat s.turns)

end Statistics

structure Tournament where
  contestants : List Contestant
  settings : Settings
  maxTurns : Int

namespace Tournament

/-- Adds the results of `games` matches, the first of them with the given seed. Matches that cannot
be played are left out. There is no result if the program stops in one of them. -/
def addMatches (t : Tournament) (seed : UInt64) : Nat → Statistics → Option Statistics
  | 0, s => some s
  | games + 1, s =>
    match playMatch t.contestants t.settings t.maxTurns seed with
    | .ok result => (s.add result).checked?.bind (t.addMatches (seed + 1) games)
    | .error .overflow => none
    | .error _ => t.addMatches (seed + 1) games s

def share (t : Tournament) (seed : UInt64) (games : Nat) : Option Statistics :=
  t.addMatches seed games (.empty t.contestants.length)

/-- Deals `games` matches out by cutting them in half `depth` times, as far as there is more than
one, and puts the statistics of the shares together. -/
def play (t : Tournament) : Nat → UInt64 → Nat → Option Statistics
  | 0, seed, games => t.share seed games
  | depth + 1, seed, games =>
    if games < 2 then t.share seed games
    else do
      let half := games / 2
      let left ← t.play depth seed half
      let right ← t.play depth (seed + UInt64.ofNat half) (games - half)
      (left.merge right).checked?

end Tournament

end CityCrew
