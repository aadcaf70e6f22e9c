import Mathlib.Order.Interval.Set.OrdConnected
import CityCrew.Proofs.Lines

/-!
# The lattice of the board

Counted along the slope, a step is the same shift from every point, although the rows that it leads
over depend on the parity of the column. So steps obey the laws of a lattice: opposite ones cancel,
all of them commute, and those that enclose one direction add up to it.
-/

namespace CityCrew

namespace Direction

def turned (d : Direction) (n : Nat) : Direction :=
  all.get ⟨(d.index + n) % 6, Nat.mod_lt _ (by decide)⟩

theorem shift_turned_three (d : Direction) :
    (d.turned 3).colShift = -d.colShift ∧ (d.turned 3).slantShift = -d.slantShift := by
  cases d <;> decide

theorem shift_turned_two (d : Direction) :
    (d.turned 1).colShift = d.colShift + (d.turned 2).colShift ∧
      (d.turned 1).slantShift = d.slantShift + (d.turned 2).slantShift := by
  cases d <;> decide

theorem shift_cases (d : Direction) : (d.colShift = 1 ∨ d.colShift = -1) ∨
    d.colShift = 0 ∧ (d.slantShift = 1 ∨ d.slantShift = -1) := by
  cases d <;> decide

theorem eq_of_shift_eq {d e : Direction} (hCol : d.colShift = e.colShift)
    (hSlant : d.slantShift = e.slantShift) : d = e := by
  cases d <;> cases e <;> simp_all [colShift, slantShift]

end Direction

namespace Point

variable {p q : Point} {d : Direction} {n : Nat}

theorem eq_of_slant_eq (hCol : p.col = q.col) (hSlant : p.slant = q.slant) : p = q := by
  unfold slant at hSlant
  ext <;> omega

/-- Whether a column is even does not depend on the way its remainder is rounded. -/
theorem slopeRow_eq_of_tmod (p : Point) :
    p.slopeRow = if p.col.tmod 2 = 0 then p.row else p.row - 1 := by
  simp only [slopeRow, ← Int.dvd_iff_tmod_eq_zero, ← Int.dvd_iff_emod_eq_zero]

theorem step_step_opposite (p : Point) (d : Direction) : (p.step d).step (d.turned 3) = p := by
  obtain ⟨hCol, hSlant⟩ := d.shift_turned_three
  apply eq_of_slant_eq
  · rw [col_step, col_step, hCol, Int.add_neg_cancel_right]
  · rw [slant_step, slant_step, hSlant, Int.add_neg_cancel_right]

theorem step_comm (p : Point) (d e : Direction) : (p.step d).step e = (p.step e).step d := by
  apply eq_of_slant_eq
  · simp only [col_step, Int.add_right_comm]
  · simp only [slant_step, Int.add_right_comm]

theorem step_step_turned_two (p : Point) (d : Direction) :
    (p.step d).step (d.turned 2) = p.step (d.turned 1) := by
  obtain ⟨hCol, hSlant⟩ := d.shift_turned_two
  apply eq_of_slant_eq
  · simp only [col_step, hCol, Int.add_assoc]
  · simp only [slant_step, hSlant, Int.add_assoc]

/-- Lines from one point in different directions do not meet again. -/
theorem along_injective (p : Point) (hn : 0 < n) : Function.Injective fun d => p.along d n := by
  intro d e h
  have hCol := congrArg col h
  have hSlant := congrArg slant h
  simp only [col_along, slant_along, add_right_inj] at hCol hSlant
  have hne : (n : Int) ≠ 0 := by omega
  exact Direction.eq_of_shift_eq (Int.eq_of_mul_eq_mul_left hne hCol)
    (Int.eq_of_mul_eq_mul_left hne hSlant)

theorem step_injective (p : Point) : Function.Injective p.step :=
  p.along_injective Nat.one_pos

theorem along_goes_on (p : Point) (d : Direction) : ∃ s : Int, (s = 1 ∨ s = -1) ∧
    ((∀ n : Nat, (p.along d n).col = p.col + n * s) ∨
      ∀ n : Nat, (p.along d n).row = p.row + n * s) := by
  rcases d.shift_cases with hCol | ⟨hCol, hSlant⟩
  · exact ⟨d.colShift, hCol, .inl fun n => col_along⟩
  · -- The line stays in its column, where rows and slants go on alike.
    refine ⟨d.slantShift, hSlant, .inr fun n => ?_⟩
    have hSame : (p.along d n).col = p.col := by rw [col_along, hCol, Int.mul_zero, Int.add_zero]
    have hRow := slant_along (p := p) (d := d) (n := n)
    unfold slant at hRow
    rw [hSame] at hRow
    omega

theorem along_stays_near (p : Point) (d : Direction) (n : Nat) :
    ((p.along d n).col - p.col).natAbs ≤ n ∧ ((p.along d n).row - p.row).natAbs ≤ n := by
  induction n with
  | zero => simp
  | succ n ih =>
    have hSlope := (p.along d n).slopeRow_cases
    rw [along_succ]
    cases d <;> simp only [step] <;> omega

def Steady (f : Point → Int) (d : Direction) : Prop :=
  (∀ q : Point, f q ≤ f (q.step d)) ∨ ∀ q : Point, f (q.step d) ≤ f q

theorem steady_col (d : Direction) : Steady col d := by
  rcases Int.le_total 0 d.colShift with hRight | hLeft
  · refine .inl fun q => ?_
    rw [col_step]
    omega
  · refine .inr fun q => ?_
    rw [col_step]
    omega

theorem steady_row (d : Direction) : Steady row d := by
  cases d
  case up | upRight | upLeft =>
    refine .inr fun q => ?_
    have hSlope := q.slopeRow_cases
    simp only [step]
    omega
  case down | downRight | downLeft =>
    refine .inl fun q => ?_
    have hSlope := q.slopeRow_cases
    simp only [step]
    omega

/-- The steps after which a steady coordinate lies between two bounds follow each other without a
gap. -/
theorem Steady.ordConnected {f : Point → Int} (h : Steady f d) (p : Point) (low high : Int) :
    {n | low ≤ f (p.along d n) ∧ f (p.along d n) ≤ high}.OrdConnected := by
  rcases h with hUp | hDown
  · have hMono : Monotone fun n => f (p.along d n) := by
      refine monotone_nat_of_le_succ fun n => ?_
      rw [along_succ]
      exact hUp _
    exact Set.ordConnected_Icc.preimage_mono hMono
  · have hAnti : Antitone fun n => f (p.along d n) := by
      refine antitone_nat_of_succ_le fun n => ?_
      rw [along_succ]
      exact hDown _
    exact Set.ordConnected_Icc.preimage_anti hAnti

def rectangle (a b : Point) : Set Point :=
  {p | (a.col ≤ p.col ∧ p.col ≤ b.col) ∧ a.row ≤ p.row ∧ p.row ≤ b.row}

theorem ordConnected_rectangle (p : Point) (d : Direction) (a b : Point) :
    {n | p.along d n ∈ rectangle a b}.OrdConnected :=
  ((steady_col d).ordConnected p a.col b.col).inter ((steady_row d).ordConnected p a.row b.row)

/-- From every point, whatever the sign of its column, opposite steps cancel, steps commute, and two
steps with one direction between them make a step in this one. The six lines from a point lead to
six different points after any number of steps. Each of them goes on in one of its coordinates by
one with every step, and in none of them by more, and never comes back to a rectangle that it has
left. -/
theorem steps_form_lattice (p : Point) (d e : Direction) :
    (p.slopeRow = if p.col.tmod 2 = 0 then p.row else p.row - 1) ∧
    (p.step d).step (d.turned 3) = p ∧
    (p.step d).step e = (p.step e).step d ∧
    (p.step d).step (d.turned 2) = p.step (d.turned 1) ∧
    (∀ n, 0 < n → Function.Injective fun d => p.along d n) ∧
    (∃ s : Int, (s = 1 ∨ s = -1) ∧ ((∀ n : Nat, (p.along d n).col = p.col + n * s) ∨
      ∀ n : Nat, (p.along d n).row = p.row + n * s)) ∧
    (∀ n, ((p.along d n).col - p.col).natAbs ≤ n ∧ ((p.along d n).row - p.row).natAbs ≤ n) ∧
    ∀ a b i j k, i ≤ j → j ≤ k → p.along d i ∈ rectangle a b → p.along d j ∉ rectangle a b →
      p.along d k ∉ rectangle a b := by
  refine ⟨p.slopeRow_eq_of_tmod, p.step_step_opposite d, p.step_comm d e, p.step_step_turned_two d,
    fun n hn => p.along_injective hn, p.along_goes_on d, p.along_stays_near d, ?_⟩
  intro a b i j k hij hjk hi hj hk
  exact hj ((p.ordConnected_rectangle d a b).out hi hk ⟨hij, hjk⟩)

/-- Three steps from a point of a negative column, two lines have parted, and one of them has left a
rectangle for good. -/
theorem lines_part : (⟨-3, 2⟩ : Point).along .upLeft 3 ≠ (⟨-3, 2⟩ : Point).along .up 3 ∧
    ∀ k, 2 ≤ k → (⟨-3, 2⟩ : Point).along .upLeft k ∉ rectangle ⟨-4, 0⟩ ⟨0, 2⟩ := by
  obtain ⟨-, -, -, -, hApart, -, -, hGone⟩ := steps_form_lattice ⟨-3, 2⟩ .upLeft .up
  refine ⟨fun hSame => ?_, fun k hk => ?_⟩
  · exact absurd (hApart 3 (by decide) hSame) (by decide)
  · refine hGone _ _ 1 2 k (by decide) hk ?_ ?_
    · unfold rectangle
      decide
    · unfold rectangle
      decide

end Point

end CityCrew
