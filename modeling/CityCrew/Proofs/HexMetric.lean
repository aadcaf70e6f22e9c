import Mathlib.Order.Bounds.Basic
import CityCrew.Board.Territory

/-!
# The hexagonal metric

Columns stand askew to the rows of a hexagonal board. Measured along the slope the six steps are the
same from every cell, and the length of a shortest walk is a sum of absolute values. On a rectangle
such a walk never has to leave the rows and columns between its ends, so the edges of the board make
no way longer.
-/

namespace CityCrew

namespace Direction

def colShift : Direction → Int
  | up => 0
  | upRight => 1
  | downRight => 1
  | down => 0
  | downLeft => -1
  | upLeft => -1

/-- How many rows a step leads on, if rows are counted along the slope. -/
def slantShift : Direction → Int
  | up => -1
  | upRight => -1
  | downRight => 0
  | down => 1
  | downLeft => 1
  | upLeft => 0

/-- Whether a step leads closer to a goal that is so many columns and slanting rows away. -/
def Leads (cols slant : Int) : Direction → Prop
  | up => slant < 0 ∧ cols + slant < 0
  | upRight => 0 < cols ∧ slant < 0
  | downRight => 0 < cols ∧ 0 < cols + slant
  | down => 0 < slant ∧ 0 < cols + slant
  | downLeft => cols < 0 ∧ 0 < slant
  | upLeft => cols < 0 ∧ cols + slant < 0

end Direction

namespace Point

variable {p q r : Point}

def slant (p : Point) : Int :=
  p.row - (p.col + 1) / 2

def hexDistance (p q : Point) : Nat :=
  ((q.col - p.col).natAbs + (q.slant - p.slant).natAbs +
    (q.col - p.col + (q.slant - p.slant)).natAbs) / 2

theorem two_mul_hexDistance (p q : Point) : 2 * p.hexDistance q =
    (q.col - p.col).natAbs + (q.slant - p.slant).natAbs +
      (q.col - p.col + (q.slant - p.slant)).natAbs := by
  unfold hexDistance
  omega

theorem hexDistance_comm (p q : Point) : p.hexDistance q = q.hexDistance p := by
  have hpq := two_mul_hexDistance p q
  have hqp := two_mul_hexDistance q p
  omega

theorem hexDistance_triangle (p q r : Point) :
    p.hexDistance r ≤ p.hexDistance q + q.hexDistance r := by
  have hpq := two_mul_hexDistance p q
  have hqr := two_mul_hexDistance q r
  have hpr := two_mul_hexDistance p r
  have hCol := Int.natAbs_add_le (q.col - p.col) (r.col - q.col)
  have hSlant := Int.natAbs_add_le (q.slant - p.slant) (r.slant - q.slant)
  have hBoth := Int.natAbs_add_le (q.col - p.col + (q.slant - p.slant))
    (r.col - q.col + (r.slant - q.slant))
  have hColSum : q.col - p.col + (r.col - q.col) = r.col - p.col := by omega
  have hSlantSum : q.slant - p.slant + (r.slant - q.slant) = r.slant - p.slant := by omega
  have hBothSum : q.col - p.col + (q.slant - p.slant) + (r.col - q.col + (r.slant - q.slant)) =
      r.col - p.col + (r.slant - p.slant) := by omega
  rw [hColSum] at hCol
  rw [hSlantSum] at hSlant
  rw [hBothSum] at hBoth
  omega

@[simp] theorem hexDistance_self (p : Point) : p.hexDistance p = 0 := by
  simp [hexDistance]

theorem eq_of_hexDistance_eq_zero (h : p.hexDistance q = 0) : p = q := by
  have hpq := two_mul_hexDistance p q
  unfold slant at hpq
  ext <;> omega

theorem slopeRow_cases (p : Point) :
    p.col % 2 = 0 ∧ p.slopeRow = p.row ∨ p.col % 2 = 1 ∧ p.slopeRow = p.row - 1 := by
  unfold slopeRow
  split <;> omega

theorem col_step (p : Point) (d : Direction) : (p.step d).col = p.col + d.colShift := by
  cases d <;> simp [step, Direction.colShift, Int.sub_eq_add_neg]

theorem slant_step (p : Point) (d : Direction) : (p.step d).slant = p.slant + d.slantShift := by
  have hSlope := p.slopeRow_cases
  cases d <;> simp only [step, slant, Direction.slantShift] <;> omega

theorem hexDistance_step (p : Point) (d : Direction) : p.hexDistance (p.step d) = 1 := by
  unfold hexDistance
  rw [col_step, slant_step, Int.add_comm p.col, Int.add_comm p.slant, Int.add_sub_cancel,
    Int.add_sub_cancel]
  cases d <;> rfl

/-- The distance shrinks with every step that leads into the part of the plane where the goal is. -/
theorem hexDistance_step_of_leads {d : Direction}
    (h : d.Leads (q.col - p.col) (q.slant - p.slant)) :
    (p.step d).hexDistance q + 1 = p.hexDistance q := by
  have hBefore := two_mul_hexDistance p q
  have hAfter := two_mul_hexDistance (p.step d) q
  rw [col_step, slant_step] at hAfter
  cases d <;> simp only [Direction.Leads, Direction.colShift, Direction.slantShift] at h hAfter <;>
    omega

end Point

namespace Territory

variable {t : Territory} {p q r : Point} {m n : Nat}

theorem mem_neighbors_iff : q ∈ t.neighbors p ↔ (∃ d, p.step d = q) ∧ t.Contains q := by
  simp [neighbors, Point.around, Direction.mem_all]

theorem hexDistance_of_mem_neighbors (h : q ∈ t.neighbors p) : p.hexDistance q = 1 := by
  obtain ⟨⟨d, rfl⟩, _⟩ := mem_neighbors_iff.mp h
  exact p.hexDistance_step d

/-- A step leads closer to the goal and stays on the board. Where the columns differ, the goal lies
no lower than the upper one of the two steps to its side, or no higher than the lower one. -/
theorem exists_step_that_leads (hp : t.Contains p) (hq : t.Contains q) (hne : p ≠ q) :
    ∃ d : Direction, d.Leads (q.col - p.col) (q.slant - p.slant) ∧ t.Contains (p.step d) := by
  have hSlope := p.slopeRow_cases
  have hRow : p.row = q.row → p.col ≠ q.col := fun hRow hCol => hne (Point.ext hCol hRow)
  unfold Contains at *
  simp only [Point.slant]
  rcases Int.lt_trichotomy p.col q.col with hCol | hCol | hCol
  · by_cases hAbove : q.row ≤ p.slopeRow
    · refine ⟨.upRight, ?_⟩
      simp only [Direction.Leads, Point.step]
      omega
    · refine ⟨.downRight, ?_⟩
      simp only [Direction.Leads, Point.step]
      omega
  · by_cases hAbove : q.row ≤ p.row
    · refine ⟨.up, ?_⟩
      simp only [Direction.Leads, Point.step]
      omega
    · refine ⟨.down, ?_⟩
      simp only [Direction.Leads, Point.step]
      omega
  · by_cases hAbove : q.row ≤ p.slopeRow
    · refine ⟨.upLeft, ?_⟩
      simp only [Direction.Leads, Point.step]
      omega
    · refine ⟨.downLeft, ?_⟩
      simp only [Direction.Leads, Point.step]
      omega

theorem exists_closer (hp : t.Contains p) (hq : t.Contains q) (hne : p ≠ q) :
    ∃ r ∈ t.neighbors p, r.hexDistance q + 1 = p.hexDistance q := by
  obtain ⟨d, hLeads, hd⟩ := exists_step_that_leads hp hq hne
  exact ⟨p.step d, mem_neighbors_iff.mpr ⟨⟨d, rfl⟩, hd⟩, Point.hexDistance_step_of_leads hLeads⟩

inductive Walk (t : Territory) : Nat → Point → Point → Prop where
  | nil {p : Point} : Walk t 0 p p
  | cons {n : Nat} {p q r : Point} : q ∈ t.neighbors p → Walk t n q r → Walk t (n + 1) p r

theorem Walk.snoc (h : t.Walk n p q) (hStep : r ∈ t.neighbors q) : t.Walk (n + 1) p r := by
  induction h with
  | nil => exact .cons hStep .nil
  | cons hFirst _ ih => exact .cons hFirst (ih hStep)

theorem Walk.contains (h : t.Walk n p q) (hp : t.Contains p) : t.Contains q := by
  induction h with
  | nil => exact hp
  | cons hStep _ ih => exact ih (mem_neighbors_iff.mp hStep).2

theorem Walk.hexDistance_le (h : t.Walk n p q) : p.hexDistance q ≤ n := by
  induction h with
  | nil => simp
  | @cons n p q r hStep _ ih =>
    have hTriangle := Point.hexDistance_triangle p q r
    rw [hexDistance_of_mem_neighbors hStep] at hTriangle
    omega

theorem exists_walk (hp : t.Contains p) (hq : t.Contains q) : t.Walk (p.hexDistance q) p q := by
  generalize hn : p.hexDistance q = n
  induction n generalizing p with
  | zero =>
    obtain rfl := Point.eq_of_hexDistance_eq_zero hn
    exact .nil
  | succ n ih =>
    have hne : p ≠ q := by
      rintro rfl
      simp at hn
    obtain ⟨r, hr, hCloser⟩ := exists_closer hp hq hne
    exact .cons hr (ih (mem_neighbors_iff.mp hr).2 (by omega))

theorem isLeast_walk (hp : t.Contains p) (hq : t.Contains q) :
    IsLeast {n | t.Walk n p q} (p.hexDistance q) :=
  ⟨exists_walk hp hq, fun _ h => h.hexDistance_le⟩

end Territory

end CityCrew
