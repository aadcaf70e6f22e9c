import CityCrew.Game.Basic

/-!
# Auditing a game

An audit looks for contradictions in the state of a game. None of them can be brought about by
playing.
-/

namespace CityCrew

inductive Violation where
  | depositOutside (location : Point) (deposit capacity : Int)
  | ownedButEmpty (location : Point)
  | neutralCenter (location : Point)
  | manyCenters (owner : PlayerId) (count : Nat)
  | negativeBudget (id : PlayerId) (budget : Int)
  | wonButGoingOn (winner : PlayerId)
  | deadWinner (winner : PlayerId)
  | turnCounter (turn : Int)
deriving DecidableEq

namespace Violation

def pointText (p : Point) : String :=
  s!"Point \x7b col: {p.col}, row: {p.row} \x7d"

def reason : Violation → String
  | depositOutside location deposit capacity =>
    s!"Region at {pointText location} has deposit {deposit} outside [0, {capacity}]"
  | ownedButEmpty location => s!"Empty region at {pointText location} is still owned"
  | neutralCenter location =>
    s!"Neutral region at {pointText location} is marked as city center"
  | manyCenters owner count => s!"Player {owner} has {count} city centers"
  | negativeBudget id budget => s!"Player {id} has negative budget {budget}"
  | wonButGoingOn winner => s!"Player {winner} won but the game goes on"
  | deadWinner winner => s!"Winner {winner} is not alive"
  | turnCounter turn => s!"Turn counter is {turn}"

def message (v : Violation) : String :=
  s!"Invariant violation: {v.reason}"

end Violation

namespace Game

def auditRegion (r : Region) : List Violation :=
  (if 0 ≤ r.deposit ∧ r.deposit ≤ r.capacity then []
    else [.depositOutside r.location r.deposit r.capacity]) ++
  (if r.deposit = 0 ∧ r.owner.isSome then [.ownedButEmpty r.location] else []) ++
  (if r.cityCenter ∧ r.owner.isNone then [.neutralCenter r.location] else [])

def centerOwners (g : Game) : List PlayerId :=
  g.territory.regions.toList.filterMap fun r => if r.cityCenter then r.owner else none

def auditCenters (g : Game) : List Violation :=
  g.centerOwners.eraseDups.filterMap fun owner =>
    let count := g.centerOwners.count owner
    if 1 < count then some (.manyCenters owner count) else none

def auditPlayers (g : Game) : List Violation :=
  g.players.filterMap fun p =>
    if p.budget < 0 then some (.negativeBudget p.id p.budget) else none

def auditWinner (g : Game) : List Violation :=
  match g.winner with
  | none => []
  | some id =>
    (if g.ended then [] else [.wonButGoingOn id]) ++
    (if (g.player? id).any (·.alive) then [] else [.deadWinner id])

def audit (g : Game) : List Violation :=
  g.territory.regions.toList.flatMap auditRegion ++ g.auditCenters ++ g.auditPlayers ++
    g.auditWinner ++ (if g.turn < 1 then [.turnCounter g.turn] else [])

end Game

end CityCrew
