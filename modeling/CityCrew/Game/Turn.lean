import CityCrew.Game.Actions
import CityCrew.Game.Identifiers
import CityCrew.Game.Survey
import CityCrew.Plan.Parser
import CityCrew.Plan.Run

/-!
# Turns

A turn puts the crew on the city center of the acting player, runs a plan, and passes the turn on.
Before it is passed on, players without money or without a city center are eliminated; the last
one left wins. When the turn comes back to the front of the list a round is over: interest is paid
and the next round begins.
-/

namespace CityCrew

instance : Environment Game where
  lookup := Game.lookup
  opponent := return Int64.ofNat (← get).opponent
  nearby d := return Int64.ofNat ((← get).nearby d)

instance : Host Game where
  assign := Game.assign
  perform
    | .move d => Game.moveCrew d
    | .invest amount => Game.invest amount.toInt
    | .collect amount => Game.collect amount.toInt
    | .relocate => Game.relocate
    | .shoot d amount => Game.shoot d amount.toInt

namespace Game

inductive PlayError where
  | gameEnded
  | syntaxError (e : SyntaxError)
  /-- The program has stopped at a sum that is no word. -/
  | overflow
deriving DecidableEq

def PlayError.message : PlayError → String
  | gameEnded => "game already ended"
  | syntaxError e => e.message
  | overflow => "attempt to add with overflow"

def beginTurn : StateM Game Bool := fun g =>
  match g.territory.cityCenterOf? g.actor.id with
  | some center => (true, { g with crew := center })
  | none => (false, g)

def isLost (g : Game) (p : Player) : Bool :=
  p.budget == 0 || (g.territory.cityCenterOf? p.id).isNone

def sweepOut (g : Game) : Game :=
  g.mapPlayers fun p => if p.alive && g.isLost p then p.eliminated else p

def payInterest (g : Game) : Game :=
  let pay (r : Region) : Region :=
    if r.owner.isSome then r.deposited (g.settings.interest g.turn r.deposit) else r
  { g with territory := g.territory.mapRegions pay }

/-- Pays interest and begins the next round, if its number is a word. -/
def nextRound (g : Game) : Game :=
  let next := word? (g.turn + 1)
  { g.payInterest with
    turn := next.getD g.turn
    overflowed := g.overflowed || next.isNone }

/-- The first place from `start` on, in list order, of a player who is alive. -/
def aliveFrom? (g : Game) (start : Nat) : Option Nat :=
  ((g.players.drop start).findIdx? (·.alive)).map (start + ·)

def withCurrent (g : Game) (i : Nat) : Game :=
  if h : i < g.players.length then { g with current := i, current_lt := h } else g

def passTurn (g : Game) : Game :=
  match g.aliveFrom? (g.current + 1) with
  | some i => g.withCurrent i
  | none =>
    match g.aliveFrom? 0 with
    | some i => g.nextRound.withCurrent i
    | none => g

def endTurn (g : Game) : Game :=
  if g.ended then g
  else
    let g := g.sweepOut
    match g.players.filter (·.alive) with
    | [] => { g with ended := true }
    | [last] => { g with winner := some last.id, ended := true }
    | _ => g.passTurn

/-- The flow of a turn and the game after it, whether or not the program comes so far. -/
def runTurn (plan : Plan) (g : Game) : Flow × Game :=
  let (begun, g) := beginTurn.run g
  let (flow, g) := if begun then plan.run.run g else (.halt, g)
  (flow, g.endTurn)

def playTurn (plan : Plan) (g : Game) : Except PlayError (Flow × Game) :=
  if g.ended then .error .gameEnded
  else if (g.runTurn plan).2.overflowed then .error .overflow
  else .ok (g.runTurn plan)

def submitPlan (text : String) (g : Game) : Except PlayError (Flow × Game) :=
  if g.ended then .error .gameEnded
  else
    match Plan.parse text with
    | .error e => .error (.syntaxError e)
    | .ok plan => g.playTurn plan

end Game

end CityCrew
