import Mathlib.Logic.Function.Iterate
import Mathlib.Tactic.Ring
import CityCrew.Game.Survey
import CityCrew.Proofs.HexMetric

/-!
# Straight lines

Steps in one direction lead along a straight line. A line that starts on the board leaves it sooner
or later, and then it lies behind an edge that it does not cross again.
-/

namespace CityCrew

namespace Point

variable {p : Point} {d : Direction} {n : Nat}

def along (p : Point) (d : Direction) (n : Nat) : Point :=
  (fun q => q.step d)^[n] p

@[simp] theorem along_zero : p.along d 0 = p :=
  rfl

theorem along_succ : p.along d (n + 1) = (p.along d n).step d :=
  Function.iterate_succ_apply' _ _ _

theorem col_along : (p.along d n).col = p.col + n * d.colShift := by
  induction n with
  | zero => simp
  | succ n ih =>
    rw [along_succ, col_step, ih]
    push_cast
    ring

theorem slant_along : (p.along d n).slant = p.slant + n * d.slantShift := by
  induction n with
  | zero => simp
  | succ n ih =>
    rw [along_succ, slant_step, ih]
    push_cast
    ring

end Point

namespace Territory

variable {t : Territory} {p : Point} {d : Direction} {m n : Nat}

/-- From `p` a line in direction `d` never reaches the board: it lies behind an edge, and no step in
this direction leads back over it. -/
def Beyond (t : Territory) (d : Direction) (p : Point) : Prop :=
  match d with
  | .up => p.row < 0
  | .upRight => p.row < 0 ∨ t.cols ≤ p.col
  | .downRight => t.rows ≤ p.row ∨ t.cols ≤ p.col
  | .down => t.rows ≤ p.row
  | .downLeft => t.rows ≤ p.row ∨ p.col < 0
  | .upLeft => p.row < 0 ∨ p.col < 0

theorem Beyond.step (h : t.Beyond d p) : t.Beyond d (p.step d) := by
  have hSlope := p.slopeRow_cases
  cases d <;> simp only [Beyond, Point.step] at h ⊢ <;> omega

theorem Beyond.along (h : t.Beyond d p) (n : Nat) : t.Beyond d (p.along d n) := by
  induction n with
  | zero => exact h
  | succ n ih =>
    rw [Point.along_succ]
    exact ih.step

theorem Beyond.not_contains (h : t.Beyond d p) : ¬ t.Contains p := by
  cases d <;> simp only [Beyond, Contains] at h ⊢ <;> omega

theorem beyond_step (h : t.Contains p) (hStep : ¬ t.Contains (p.step d)) :
    t.Beyond d (p.step d) := by
  have hSlope := p.slopeRow_cases
  cases d <;> simp only [Beyond, Contains, Point.step] at h hStep ⊢ <;> omega

theorem contains_along_or_beyond (h : t.Contains p) (d : Direction) (n : Nat) :
    t.Contains (p.along d n) ∨ t.Beyond d (p.along d n) := by
  induction n with
  | zero => exact .inl h
  | succ n ih =>
    rw [Point.along_succ]
    rcases ih with hOn | hOff
    · by_cases hStep : t.Contains ((p.along d n).step d)
      · exact .inl hStep
      · exact .inr (beyond_step hOn hStep)
    · exact .inr hOff.step

/-- A line that has left the board does not come back. -/
theorem contains_along_of_le (h : t.Contains p) (hn : t.Contains (p.along d n)) (hm : m ≤ n) :
    t.Contains (p.along d m) := by
  rcases contains_along_or_beyond h d m with hOn | hOff
  · exact hOn
  · obtain ⟨k, rfl⟩ := Nat.exists_eq_add_of_le hm
    rw [Nat.add_comm, Point.along, Function.iterate_add_apply] at hn
    exact absurd hn (hOff.along k).not_contains

/-- Within `span` steps every line leaves the board. -/
theorem lt_span_of_contains (h : t.Contains p) (hn : t.Contains (p.along d n)) : n < t.span := by
  have hCol := Point.col_along (p := p) (d := d) (n := n)
  have hSlant := Point.slant_along (p := p) (d := d) (n := n)
  unfold Contains at h hn
  unfold Point.slant at hSlant
  unfold span
  cases d <;> simp only [Direction.colShift, Direction.slantShift] at hCol hSlant <;> omega

end Territory

end CityCrew
