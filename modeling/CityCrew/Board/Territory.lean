import CityCrew.Amount
import CityCrew.Board.Region

/-!
# The territory

A territory is a rectangle of regions, kept row by row. A point on the board has an index, and
the region stored there carries that point as its location.
-/

namespace CityCrew

@[ext] structure Territory where
  rows : Nat
  cols : Nat
  /-- The regions of row 0 from left to right, then those of row 1, and so on. -/
  regions : Array Region

namespace Territory

def pointAt (cols i : Nat) : Point :=
  ⟨(i % cols : Nat), (i / cols : Nat)⟩

/-- A board of vacant regions, or `none` if it would have no row or no column. -/
def vacant? (rows cols capacity : Int) : Option Territory :=
  if rows ≤ 0 ∨ cols ≤ 0 then none
  else
    let cols := cols.toNat
    let region (i : Fin (rows.toNat * cols)) := Region.vacant (pointAt cols i) capacity
    some { rows := rows.toNat, cols := cols, regions := Array.ofFn region }

def Contains (t : Territory) (p : Point) : Prop :=
  0 ≤ p.row ∧ p.row < t.rows ∧ 0 ≤ p.col ∧ p.col < t.cols

instance (t : Territory) (p : Point) : Decidable (t.Contains p) :=
  inferInstanceAs (Decidable (_ ∧ _))

def index? (t : Territory) (p : Point) : Option Nat :=
  if t.Contains p then some (p.row.toNat * t.cols + p.col.toNat) else none

def get? (t : Territory) (p : Point) : Option Region :=
  (t.index? p).bind fun i => t.regions[i]?

def modify (t : Territory) (p : Point) (f : Region → Region) : Territory :=
  match t.index? p with
  | some i => { t with regions := t.regions.modify i f }
  | none => t

def mapRegions (t : Territory) (f : Region → Region) : Territory :=
  { t with regions := t.regions.map f }

def neighbors (t : Territory) (p : Point) : List Point :=
  p.around.filter fun q => t.Contains q

def isOwnedBy (t : Territory) (p : Point) (owner : PlayerId) : Bool :=
  (t.get? p).any (·.isOwnedBy owner)

/-- The first region, row by row, that `owner` holds as a city center. -/
def cityCenterOf? (t : Territory) (owner : PlayerId) : Option Point :=
  (t.regions.find? fun r => r.cityCenter && r.isOwnedBy owner).map (·.location)

def ownedBy (t : Territory) (owner : PlayerId) : List Region :=
  t.regions.toList.filter (·.isOwnedBy owner)

/-- The deposits of `owner` added up in plain words: `none` if one of the sums is no word. -/
def totalDeposit? (t : Territory) (owner : PlayerId) : Option Int :=
  (t.ownedBy owner).foldlM (fun total r => word? (total + r.deposit)) 0

end Territory

end CityCrew
