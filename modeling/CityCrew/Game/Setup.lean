import CityCrew.Game.Basic

/-!
# Setting up a game

A game starts with one city center for each player, on a region drawn at random. The seed decides
where they stand and what `random` reads later on.
-/

namespace CityCrew

inductive SetupError where
  | playerCount (n : Nat)
  | dimensions
  | notEnoughRegions (players regions : Nat)
  | tooFewPlayers (n : Nat)
  | noCityCenter (id : PlayerId)
deriving DecidableEq

namespace Game

def minPlayers : Nat := 2

def maxPlayers : Nat := 8

end Game

namespace SetupError

def reason : SetupError → String
  | playerCount n => s!"need {Game.minPlayers} to {Game.maxPlayers} players, got {n}"
  | dimensions => "invalid board dimensions"
  | notEnoughRegions players regions => s!"not enough regions for {players} players: {regions}"
  | tooFewPlayers n => s!"need at least {Game.minPlayers} players, got {n}"
  | noCityCenter id => s!"player {id} has no city center"

def message (e : SetupError) : String :=
  s!"game setup failed: {e.reason}"

end SetupError

namespace Game

def start (settings : Settings) (territory : Territory) (players : List Player)
    (random : Random.Generator) : Except SetupError Game :=
  if h : players.length < minPlayers then .error (.tooFewPlayers players.length)
  else
    match players.find? fun p => (territory.cityCenterOf? p.id).isNone with
    | some p => .error (.noCityCenter p.id)
    | none =>
      have : 0 < players.length := by unfold minPlayers at h; omega
      let first := players.get ⟨0, this⟩
      .ok {
        settings := settings
        territory := territory
        players := players
        current := 0
        crew := (territory.cityCenterOf? first.id).getD ⟨0, 0⟩
        turn := 1
        winner := none
        ended := false
        random := random
        current_lt := this }

def placeCenters (territory : Territory) (count : Nat) :
    StateT Random.Generator (Except SetupError) (List Point) := do
  let regions := territory.regions
  if regions.size < count then throw (.notEnoughRegions count regions.size)
  let drawn ← modifyGet (Random.Generator.sample regions.size count).run
  return drawn.filterMap fun i => regions[i]?.map (·.location)

/-- Gives the regions at `centers` to the players from `id` on, as city centers with their first
deposit. -/
def foundCenters (deposit : Int) (id : PlayerId) : List Point → Territory → Territory
  | [], t => t
  | center :: rest, t =>
    foundCenters deposit (id + 1) rest
      (t.modify center fun r => (r.withCityCenter id).deposited deposit)

def create (settings : Settings) (names : List String) (seed : UInt64) :
    Except SetupError Game := do
  if names.length < minPlayers ∨ maxPlayers < names.length then
    throw (.playerCount names.length)
  match Territory.vacant? settings.rows settings.cols settings.maxDep with
  | none => throw .dimensions
  | some board =>
    let (centers, random) ← (placeCenters board names.length).run (.ofSeed seed)
    let players := names.zipIdx.map fun (name, i) =>
      Player.create (i + 1) name settings.initBudget
    start settings (foundCenters settings.initCenterDep 1 centers board) players random

end Game

end CityCrew
