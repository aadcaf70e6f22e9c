import CityCrew.Game.Basic

/-!
# What the crew sees

The crew looks along the six straight lines from its place and sees the regions of opponents, that
is, of everybody but the acting player. A line ends where it leaves the board, which it does within
`Territory.span` steps.
-/

namespace CityCrew

/-- A number of steps after which every straight line has left the board. -/
def Territory.span (t : Territory) : Nat :=
  t.rows + t.cols

namespace Game

/-- Looks for an opponent's region up to `n` steps from `p` in direction `d`, and returns it with
its distance from the crew if `p` is `distance` steps away. -/
def sightFrom (g : Game) (d : Direction) (distance : Nat) : Nat → Point → Option (Nat × Region)
  | 0, _ => none
  | n + 1, p =>
    match g.territory.get? (p.step d) with
    | none => none
    | some r =>
      if r.isOpposedTo g.actor.id then some (distance + 1, r)
      else sightFrom g d (distance + 1) n (p.step d)

/-- The number of decimal digits of one more than an amount. -/
def sizeClass (amount : Int) : Nat :=
  (Nat.toDigits 10 (capped (amount + 1)).toNat).length

/-- The distance of the first opponent's region in direction `d`, in hundreds, and the size of its
deposit; 0 if there is none. -/
def nearby (g : Game) (d : Direction) : Nat :=
  match g.sightFrom d 0 g.territory.span g.crew with
  | some (distance, r) => 100 * distance + sizeClass r.deposit
  | none => 0

/-- Moves all lines of sight one step on, up to `n` times, until one of them meets an opponent's
region. The lines are given by their directions and the points they have reached, all at the
distance `ring`. -/
def sweep (g : Game) (ring : Nat) : Nat → List (Direction × Point) → Nat
  | 0, _ => 0
  | n + 1, lines =>
    let moved := lines.map fun (d, p) => (d, p.step d)
    let inside := moved.filter fun (_, p) => g.territory.Contains p
    match inside.find? fun (_, p) => g.isOpposed p with
    | some (d, _) => 10 * (ring + 1) + d.index + 1
    | none => if inside.isEmpty then 0 else sweep g (ring + 1) n inside

/-- The distance of the closest opponent's region in tens, and the number of its direction from 1
to 6; 0 if there is none. Of two equally close ones the earlier direction counts. -/
def opponent (g : Game) : Nat :=
  g.sweep 0 g.territory.span (Direction.all.map fun d => (d, g.crew))

end Game

end CityCrew
