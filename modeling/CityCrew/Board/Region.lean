import CityCrew.Board.Point

/-!
# Regions

A region is one cell of the board with the deposit it holds. A deposit never leaves the range from
0 to the region's capacity, and a region that runs empty falls back to nobody.
-/

namespace CityCrew

abbrev PlayerId := Nat

@[ext] structure Region where
  location : Point
  deposit : Int
  capacity : Int
  owner : Option PlayerId
  /-- Whether the region is marked as its owner's city center. -/
  cityCenter : Bool
deriving DecidableEq

namespace Region

def vacant (location : Point) (capacity : Int) : Region where
  location := location
  deposit := 0
  capacity := capacity
  owner := none
  cityCenter := false

/-- Adds `amount` to the deposit, within its range. An empty region has no owner and is no city
center. -/
def deposited (r : Region) (amount : Int) : Region :=
  let deposit := max 0 (min r.capacity (r.deposit + amount))
  if deposit = 0 then
    { r with deposit := 0, owner := none, cityCenter := false }
  else
    { r with deposit := deposit }

def ownerLostBy (r : Region) (amount : Int) : Option PlayerId :=
  if (r.deposited amount).deposit = 0 then r.owner else none

def withCityCenter (r : Region) (p : PlayerId) : Region :=
  { r with owner := some p, cityCenter := true }

def isOwnedBy (r : Region) (p : PlayerId) : Bool :=
  r.owner == some p

def isOpposedTo (r : Region) (p : PlayerId) : Bool :=
  r.owner.any (· != p)

end Region

end CityCrew
