import CityCrew.Board.Territory
import CityCrew.Game.Player
import CityCrew.Random.Generator
import CityCrew.Settings.Basic

/-!
# The state of a game

The players act in the order of their list, over and over again. In a turn the crew walks the board
for the player who acts.
-/

namespace CityCrew

structure Game where
  settings : Settings
  territory : Territory
  players : List Player
  /-- The place in the list of the player who acts. -/
  current : Nat
  crew : Point
  /-- The number of the round, from 1 on. -/
  turn : Int
  winner : Option PlayerId
  ended : Bool
  random : Random.Generator
  /-- Whether a plain sum has left the words, which stops the program. -/
  overflowed : Bool := false
  current_lt : current < players.length

namespace Game

def actor (g : Game) : Player :=
  g.players.get ⟨g.current, g.current_lt⟩

def player? (g : Game) (id : PlayerId) : Option Player :=
  g.players.find? (·.id == id)

def modifyActor (g : Game) (f : Player → Player) : Game :=
  { g with
    players := g.players.modify g.current f
    current_lt := by simpa using g.current_lt }

def mapPlayers (g : Game) (f : Player → Player) : Game :=
  { g with
    players := g.players.map f
    current_lt := by simpa using g.current_lt }

def modifyPlayer (g : Game) (id : PlayerId) (f : Player → Player) : Game :=
  { g with
    players := g.players.modify (g.players.findIdx (·.id == id)) f
    current_lt := by simpa using g.current_lt }

def modifyRegion (g : Game) (p : Point) (f : Region → Region) : Game :=
  { g with territory := g.territory.modify p f }

def crewRegion? (g : Game) : Option Region :=
  g.territory.get? g.crew

def crewDeposit (g : Game) : Int :=
  (g.crewRegion?.map (·.deposit)).getD 0

def isOpposed (g : Game) (p : Point) : Bool :=
  (g.territory.get? p).any (·.isOpposedTo g.actor.id)

def interestRate (g : Game) (deposit : Int) : Float :=
  g.settings.interestRate g.turn deposit

def stopped (g : Game) : Game :=
  { g with overflowed := true }

def placeCrew (p : Point) : StateM Game Bool := fun g =>
  if g.territory.Contains p then (true, { g with crew := p }) else (false, g)

end Game

end CityCrew
