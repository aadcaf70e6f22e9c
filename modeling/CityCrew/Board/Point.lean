import CityCrew.Board.Direction

/-!
# Points of the board

A point is a column and a row. Cells of even columns sit half a cell lower than those of odd
columns, so where a sloping step leads depends on the parity of the column. Points may lie off
every board: a step is defined everywhere.
-/

namespace CityCrew

@[ext] structure Point where
  col : Int
  row : Int
deriving DecidableEq, Hashable

namespace Point

/-- The row that an upward sloping step from `p` leads to. A downward one leads one row further. -/
def slopeRow (p : Point) : Int :=
  if p.col % 2 = 0 then p.row else p.row - 1

def step (p : Point) : Direction → Point
  | .up => ⟨p.col, p.row - 1⟩
  | .upRight => ⟨p.col + 1, p.slopeRow⟩
  | .downRight => ⟨p.col + 1, p.slopeRow + 1⟩
  | .down => ⟨p.col, p.row + 1⟩
  | .downLeft => ⟨p.col - 1, p.slopeRow + 1⟩
  | .upLeft => ⟨p.col - 1, p.slopeRow⟩

def around (p : Point) : List Point :=
  Direction.all.map p.step

/-- The vertical place of a cell's middle, in halves of a unit. It grows downwards. -/
def level (p : Point) : Int :=
  if p.col % 2 = 0 then 2 * p.row + 1 else 2 * p.row

/-- The middle of a cell in a plane where the middles of neighbors are one unit apart. -/
def center (p : Point) : Float × Float :=
  (Float.ofInt p.col * Float.sqrt 3.0 / 2.0, Float.ofInt p.level / 2.0)

end Point

end CityCrew
