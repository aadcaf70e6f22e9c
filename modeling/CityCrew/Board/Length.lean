import CityCrew.Board.Point

/-!
# Lengths in the plane

In the plane of the board the middles of neighboring cells are one unit apart. Lengths are counted
in tenths of that unit. Their squares are whole numbers, so none of them has to be rounded before
its last step.
-/

namespace CityCrew

namespace Point

/-- The square of the length between the centers of `p` and `q`, in halves of a unit: columns are
as far apart as the square root of 3. -/
def quadrance (p q : Point) : Nat :=
  3 * (p.col - q.col).natAbs * (p.col - q.col).natAbs +
    (p.level - q.level).natAbs * (p.level - q.level).natAbs

def stepCost (p q : Point) : Int :=
  (Nat.sqrt (100 * p.quadrance q) + 1) / 2

/-- The length from `p` to `q` in tenths, less a millionth, cut off to a whole number that is not
negative. -/
def estimate (p q : Point) : Int :=
  ((Nat.sqrt (25 * 1000000 * 1000000 * p.quadrance q) - 1) / 1000000 : Nat)

end Point

end CityCrew
