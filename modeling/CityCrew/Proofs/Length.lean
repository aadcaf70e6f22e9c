import Mathlib.Algebra.Order.Ring.Abs
import Mathlib.Data.Nat.Sqrt
import Mathlib.Tactic.Linarith
import Mathlib.Tactic.Ring
import CityCrew.Board.Length
import CityCrew.Proofs.HexMetric

/-!
# Lengths and steps

A straight line is no longer than a walk: ten tenths of a unit take a walk one step on. So lengths
in the plane are fit to guide a search for shortest walks.
-/

namespace CityCrew

/-- What a search has to know of its board: a step costs ten, and what is left of a walk is never
estimated to cost less than nothing or more than it does. -/
structure Territory.Admissible (t : Territory) (cost estimate : Point → Point → Int) : Prop where
  cost_eq : ∀ p q, t.Contains p → q ∈ t.neighbors p → cost p q = 10
  estimate_nonneg : ∀ p q, t.Contains p → t.Contains q → 0 ≤ estimate p q
  estimate_le : ∀ p q n, t.Contains p → t.Walk n p q → estimate p q ≤ 10 * n

namespace Point

theorem level_eq (p : Point) : p.level = 2 * p.slant + p.col + 1 := by
  unfold level slant
  split <;> omega

theorem quadrance_eq (p q : Point) : (p.quadrance q : Int) =
    4 * ((q.col - p.col) * (q.col - p.col) + (q.col - p.col) * (q.slant - p.slant) +
      (q.slant - p.slant) * (q.slant - p.slant)) := by
  unfold quadrance
  push_cast
  rw [mul_assoc, ← abs_mul, ← abs_mul, abs_mul_self, abs_mul_self, level_eq, level_eq]
  ring

theorem quadrance_step (p : Point) (d : Direction) : p.quadrance (p.step d) = 4 := by
  have h := quadrance_eq p (p.step d)
  rw [col_step, slant_step, add_sub_cancel_left, add_sub_cancel_left] at h
  cases d <;> simp only [Direction.colShift, Direction.slantShift] at h <;> omega

theorem stepCost_step (p : Point) (d : Direction) : p.stepCost (p.step d) = 10 := by
  have hRoot : Nat.sqrt (100 * 4) = 20 := Nat.sqrt_eq 20
  unfold stepCost
  rw [quadrance_step, hRoot]
  rfl

/-- Of `a`, `b` and `a + b` the largest in size is the sum of the sizes of the other two. -/
theorem mul_self_add_le {a b h : Int} (hSum : 2 * h = |a| + |b| + |a + b|) :
    a * a + a * b + b * b ≤ h * h := by
  rcases le_total 0 a with ha | ha <;> rcases le_total 0 b with hb | hb <;>
    rcases le_total 0 (a + b) with hab | hab <;>
    simp only [abs_of_nonneg, abs_of_nonpos, ha, hb, hab] at hSum
  · obtain rfl : h = a + b := by omega
    nlinarith
  · obtain rfl : h = a + b := by omega
    nlinarith
  · obtain rfl : h = a := by omega
    nlinarith
  · obtain rfl : h = -b := by omega
    nlinarith
  · obtain rfl : h = b := by omega
    nlinarith
  · obtain rfl : h = -a := by omega
    nlinarith
  · obtain rfl : h = -(a + b) := by omega
    nlinarith
  · obtain rfl : h = -(a + b) := by omega
    nlinarith

theorem quadrance_le (p q : Point) : p.quadrance q ≤ 4 * (p.hexDistance q * p.hexDistance q) := by
  have hSum := two_mul_hexDistance p q
  zify at hSum
  have hQuadrance := quadrance_eq p q
  have hSquares := mul_self_add_le hSum
  zify
  linarith

theorem estimate_nonneg (p q : Point) : 0 ≤ p.estimate q :=
  Int.natCast_nonneg _

theorem estimate_le (p q : Point) : p.estimate q ≤ 10 * p.hexDistance q := by
  have hRoot : Nat.sqrt (25 * 1000000 * 1000000 * p.quadrance q) ≤
      10000000 * p.hexDistance q := by
    calc
      Nat.sqrt (25 * 1000000 * 1000000 * p.quadrance q)
        ≤ Nat.sqrt (10000000 * p.hexDistance q * (10000000 * p.hexDistance q)) := by
          apply Nat.sqrt_le_sqrt
          have := quadrance_le p q
          nlinarith
      _ = 10000000 * p.hexDistance q := Nat.sqrt_eq _
  unfold estimate
  omega

end Point

/-- The lengths of the plane are admissible on every board. -/
theorem Territory.admissible_lengths (t : Territory) :
    t.Admissible Point.stepCost Point.estimate where
  cost_eq p q _ hStep := by
    obtain ⟨⟨d, rfl⟩, -⟩ := mem_neighbors_iff.mp hStep
    exact p.stepCost_step d
  estimate_nonneg p q _ _ := p.estimate_nonneg q
  estimate_le p q n _ hWalk := by
    have hLess := p.estimate_le q
    have hSteps := hWalk.hexDistance_le
    omega

end CityCrew
