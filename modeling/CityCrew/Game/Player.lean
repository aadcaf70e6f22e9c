import CityCrew.Amount
import CityCrew.Board.Region
import CityCrew.Plan.Bindings

/-!
# Players

A player spends a budget that never falls below 0, and keeps the identifiers that the plans of
earlier turns have bound.
-/

namespace CityCrew

structure Player where
  id : PlayerId
  name : String
  budget : Int
  bindings : Bindings
  alive : Bool

namespace Player

def create (id : PlayerId) (name : String) (budget : Int) : Player where
  id := id
  name := name
  budget := max 0 budget
  bindings := ∅
  alive := true

def CanAfford (p : Player) (amount : Int) : Prop :=
  amount ≤ p.budget

instance (p : Player) (amount : Int) : Decidable (p.CanAfford amount) :=
  inferInstanceAs (Decidable (amount ≤ p.budget))

/-- Adds `amount`, which may be negative, to the budget, and tells whether the budget covers it. The
budget stops at 0 and at `maxAmount`. -/
def updateBudget (amount : Int) : StateM Player Bool := fun p =>
  let updated := capped (p.budget + amount)
  (0 ≤ updated, { p with budget := max 0 updated })

def credit (p : Player) (amount : Int) : Player :=
  (updateBudget amount p).2

theorem credit_eq (p : Player) (amount : Int) :
    p.credit amount = { p with budget := max 0 (capped (p.budget + amount)) } :=
  rfl

/-- Takes `amount` from the budget, or what there is of it. -/
def debit (p : Player) (amount : Int) : Player :=
  p.credit (-amount)

def withBudget (p : Player) (budget : Int) : Player :=
  { p with budget := max 0 budget }

def assign (p : Player) (name : String) (value : Value) : Player :=
  { p with bindings := p.bindings.insert name value }

def eliminated (p : Player) : Player :=
  { p with alive := false }

end Player

end CityCrew
