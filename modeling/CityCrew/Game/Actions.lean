import CityCrew.Board.Pathfinding
import CityCrew.Game.Basic

/-!
# Actions

Every action costs a fee. An action fails, and so ends the plan, if the game is over; most also fail
if the fee cannot be paid. Whatever else stands in its way only makes the fee lost.
-/

namespace CityCrew

namespace Game

def fee : Int := 1

def charge (g : Game) (amount : Int) : Game :=
  g.modifyActor (·.debit amount)

/-- Moves the crew one step, unless that leads off the board or onto an opponent's region. -/
def moveCrew (d : Direction) : StateM Game Bool := fun g =>
  if g.ended ∨ ¬ g.actor.CanAfford fee then (false, g)
  else
    let g := g.charge fee
    let target := g.crew.step d
    if g.territory.Contains target ∧ ¬ g.isOpposed target then (true, { g with crew := target })
    else (true, g)

def isConnected (g : Game) : Bool :=
  (g.crew :: g.territory.neighbors g.crew).any fun p => g.territory.isOwnedBy p g.actor.id

/-- Pays `amount` into the region of the crew and takes the region over. The amount has to be
positive and within the budget, and the region must belong to the player or lie next to one that
does. Never fails while the game goes on. -/
def invest (amount : Int) : StateM Game Bool := fun g =>
  if g.ended then (false, g)
  else
    let g := g.charge fee
    if amount ≤ 0 ∨ ¬ g.isConnected ∨ ¬ g.actor.CanAfford amount then (true, g)
    else
      let owner := g.actor.id
      let g := g.charge amount
      (true, g.modifyRegion g.crew fun r => { r with owner := some owner }.deposited amount)

def collect (amount : Int) : StateM Game Bool := fun g =>
  if g.ended ∨ amount < 0 ∨ ¬ g.actor.CanAfford fee then (false, g)
  else
    let g := g.charge fee
    match g.crewRegion? with
    | none => (true, g)
    | some r =>
      if r.deposit < amount then (true, g)
      else
        let g := g.modifyRegion g.crew (·.deposited (-amount))
        (true, g.modifyActor (·.credit amount))

def relocationCost (steps : Nat) : Int :=
  5 * steps + 10

/-- Makes the region of the crew the city center of the acting player, who has to own it and to
pay for the way from the old center. -/
def relocate : StateM Game Bool := fun g =>
  if g.ended ∨ ¬ g.actor.CanAfford fee then (false, g)
  else
    let g := g.charge fee
    let owner := g.actor.id
    let target := g.crew
    if ¬ g.territory.isOwnedBy target owner then (true, g)
    else
      match g.territory.cityCenterOf? owner with
      | none => (true, g)
      | some center =>
        if center = target then (true, g)
        else
          match g.territory.distance? target center with
          | none => (true, g)
          | some steps =>
            if ¬ g.actor.CanAfford (relocationCost steps) then (true, g)
            else
              let g := g.charge (relocationCost steps)
              let g := g.modifyRegion center fun r => { r with cityCenter := false }
              (true, g.modifyRegion target (·.withCityCenter owner))

def capture (g : Game) (winner loser : PlayerId) : Game :=
  { g.modifyPlayer loser (·.eliminated) with winner := some winner, ended := true }

/-- Spends `amount` on draining the deposit of the region next to the crew in direction `d`. An
amount that is negative, or too much together with the fee, is refused. Draining the city center of
an opponent wins the game. The test whether the cost can be paid caps it; what is charged is the
plain sum. -/
def shoot (d : Direction) (amount : Int) : StateM Game Bool := fun g =>
  if g.ended then (false, g)
  else if amount < 0 ∨ ¬ g.actor.CanAfford (capped (amount + fee)) then (false, g.charge fee)
  else
    match word? (amount + fee) with
    | none => (false, g.stopped)
    | some cost =>
      let g := g.charge cost
      let target := g.crew.step d
      match g.territory.get? target with
      | none => (true, g)
      | some r =>
        let opposed := r.cityCenter && r.isOpposedTo g.actor.id
        let g := g.modifyRegion target (·.deposited (-amount))
        match r.ownerLostBy (-amount) with
        | some loser => if opposed then (true, g.capture g.actor.id loser) else (true, g)
        | none => (true, g)

end Game

end CityCrew
