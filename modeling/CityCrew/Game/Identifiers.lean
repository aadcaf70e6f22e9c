import CityCrew.Game.Basic

/-!
# Identifiers in a game

An identifier that the acting player has not bound may still have a meaning of its own: nine
special identifiers tell about the board, the player and the place of the crew. The rest read 0.
-/

namespace CityCrew

namespace Game

def specialNames : List String :=
  ["rows", "cols", "currow", "curcol", "budget", "deposit", "int", "maxdeposit", "random"]

def randomBound : Nat := 1000

def drawRandom : StateM Game Value := fun g =>
  let drawn := (Random.Generator.below .double randomBound).run g.random
  (Int64.ofNat drawn.1, { g with random := drawn.2 })

def special? (name : String) : StateM Game (Option Value) := do
  let g ← get
  match name with
  | "rows" => return some (Int64.ofNat g.territory.rows)
  | "cols" => return some (Int64.ofNat g.territory.cols)
  | "currow" => return some (Int64.ofInt g.crew.row)
  | "curcol" => return some (Int64.ofInt g.crew.col)
  | "budget" => return some (Int64.ofInt g.actor.budget)
  | "deposit" => return some (Int64.ofInt g.crewDeposit)
  | "int" => return some (Decimal.wholePart (g.interestRate g.crewDeposit))
  | "maxdeposit" => return some (Int64.ofInt g.settings.maxDep)
  | "random" => return some (← drawRandom)
  | _ => return none

def lookup (name : String) : StateM Game Value := do
  match (← get).actor.bindings[name]? with
  | some value => return value
  | none => return (← special? name).getD 0

def assign (name : String) (value : Value) : StateM Game Unit :=
  modify fun g => g.modifyActor (·.assign name value)

end Game

end CityCrew
