import CityCrew.Game.Setup
import CityCrew.Game.Turn

/-!
# Matches

A match plays one game to its end, or for a given number of rounds. Every contestant has one plan,
which is played in each of the turns of that player. What becomes of the players is recorded turn
by turn.
-/

namespace CityCrew

structure Contestant where
  name : String
  plan : Plan

inductive MatchError where
  | tooFewPlayers (n : Nat)
  | tooManyPlayers (n : Nat)
  | setup (e : SetupError)
  /-- The program has stopped at a sum that is no word. -/
  | overflow
deriving DecidableEq

def MatchError.message : MatchError → String
  | tooFewPlayers n => s!"too few players: {n} (minimum {Game.minPlayers})"
  | tooManyPlayers n => s!"too many players: {n} (maximum {Game.maxPlayers})"
  | setup e => e.message
  | overflow => Game.PlayError.overflow.message

structure Match.Record where
  /-- The number of turns that the plan ended early. -/
  halted : UInt32 := 0
  /-- The round in which the player was eliminated. -/
  eliminated : Option Int := none
deriving DecidableEq

/-- A match in progress. Contestants and records stand in the order of the players. -/
structure Match where
  contestants : List Contestant
  game : Game
  records : List Match.Record
  eliminations : List PlayerId
  /-- Whether a sum has left its range, which stops the program. -/
  overflowed : Bool := false

namespace Match

def start (contestants : List Contestant) (settings : Settings) (seed : UInt64) :
    Except MatchError Match := do
  if contestants.length < Game.minPlayers then throw (.tooFewPlayers contestants.length)
  if Game.maxPlayers < contestants.length then throw (.tooManyPlayers contestants.length)
  let game ← (Game.create settings (contestants.map (·.name)) seed).mapError .setup
  return {
    contestants := contestants
    game := game
    records := contestants.map fun _ => {}
    eliminations := [] }

/-- The place of the acting player among the contestants. Players have the ids from 1 on. -/
def actorPlace (m : Match) : Nat :=
  m.game.actor.id - 1

def isNewlyOut (p : Player) (r : Record) : Bool :=
  !p.alive && r.eliminated.isNone

def recordEliminations (round : Int) (m : Match) : Match :=
  let entries := m.game.players.zip m.records
  { m with
    records := entries.map fun (p, r) =>
      if isNewlyOut p r then { r with eliminated := some round } else r
    eliminations := m.eliminations ++
      (entries.filter fun (p, r) => isNewlyOut p r).map (·.1.id) }

def Record.isFull (r : Record) : Bool :=
  r.halted.toNat + 1 == UInt32.size

def recordFlow (place : Nat) (flow : Flow) (m : Match) : Match :=
  match flow with
  | .halt =>
    { m with
      records := m.records.modify place fun r => { r with halted := r.halted + 1 }
      overflowed := m.overflowed || m.records[place]?.any (·.isFull) }
  | .proceed => m

def playTurn (m : Match) : Match :=
  match m.contestants[m.actorPlace]? with
  | none => m
  | some contestant =>
    match m.game.playTurn contestant.plan with
    | .error .overflow => { m with overflowed := true }
    | .error _ => m
    | .ok (flow, game) =>
      { m with game := game }.recordFlow m.actorPlace flow |>.recordEliminations m.game.turn

def isFinished (maxTurns : Int) (m : Match) : Bool :=
  m.overflowed || m.game.ended || maxTurns < m.game.turn

def playOn (maxTurns : Int) : Nat → Match → Match
  | 0, m => m
  | steps + 1, m => if m.isFinished maxTurns then m else playOn maxTurns steps m.playTurn

/-- Plays the match to its end. A round has one turn for each player at most. -/
def play (maxTurns : Int) (m : Match) : Match :=
  m.playOn maxTurns (m.contestants.length * maxTurns.toNat)

end Match

structure Standing where
  id : PlayerId
  budget : Int
  regions : Nat
  deposit : Int
  halted : UInt32
  eliminated : Option Int
deriving DecidableEq

def Standing.score (s : Standing) : Int :=
  capped (s.budget + s.deposit)

structure MatchResult where
  winner : Option PlayerId
  turnsPlayed : Int
  standings : List Standing
  eliminations : List PlayerId
  seed : UInt64
deriving DecidableEq

namespace Match

def standing? (territory : Territory) (p : Player) (r : Record) : Option Standing := do
  let deposit ← territory.totalDeposit? p.id
  return {
    id := p.id
    budget := p.budget
    regions := (territory.ownedBy p.id).length
    deposit := deposit
    halted := r.halted
    eliminated := r.eliminated }

def standings? (m : Match) : Option (List Standing) :=
  (m.game.players.zip m.records).mapM fun (p, r) => standing? m.game.territory p r

def result (maxTurns : Int) (seed : UInt64) (m : Match) : Except MatchError MatchResult :=
  if m.overflowed then .error .overflow
  else
    match m.standings? with
    | none => .error .overflow
    | some standings =>
      .ok {
        winner := m.game.winner
        turnsPlayed := min m.game.turn maxTurns
        standings := standings
        eliminations := m.eliminations
        seed := seed }

end Match

def playMatch (contestants : List Contestant) (settings : Settings) (maxTurns : Int)
    (seed : UInt64) : Except MatchError MatchResult := do
  let m ← Match.start contestants settings seed
  (m.play maxTurns).result maxTurns seed

end CityCrew
