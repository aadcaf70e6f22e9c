import CityCrew.Settings.Basic

/-!
# Settings in range

Validation reports one error, but it looks at everything: what it lets through is just what a game
can be played with.
-/

namespace CityCrew

namespace Settings

structure InRange (s : Settings) : Prop where
  rows : 1 ≤ s.rows ∧ s.rows ≤ 1000
  cols : 1 ≤ s.cols ∧ s.cols ≤ 1000
  initPlanMin : 0 ≤ s.initPlanMin
  initPlanSec : 0 ≤ s.initPlanSec ∧ s.initPlanSec < 60
  initBudget : 0 ≤ s.initBudget
  initCenterDep : 1 ≤ s.initCenterDep ∧ s.initCenterDep ≤ s.maxDep
  planRevMin : 0 ≤ s.planRevMin
  planRevSec : 0 ≤ s.planRevSec ∧ s.planRevSec < 60
  revCost : 0 ≤ s.revCost
  maxDep : 1 ≤ s.maxDep
  interestPct : 0 ≤ s.interestPct

theorem validate_eq_ok_iff (s : Settings) : s.validate = .ok () ↔ s.InRange := by
  have hValidate : s.validate = .ok () ↔ s.violations = [] := by
    unfold validate
    cases s.violations with
    | nil => exact iff_of_true rfl rfl
    | cons e es => simp only [reduceCtorEq]
  rw [hValidate]
  simp only [violations, List.append_eq_nil_iff, List.map_eq_nil_iff, List.filter_eq_nil_iff,
    List.forall_mem_cons, decide_eq_true_eq, not_or, Int.not_lt, Int.not_le, maxDimension]
  constructor
  · rintro ⟨⟨⟨hPlanSec, hRevSec, -⟩, hPlanMin, hPlanSec', hRevMin, hRevSec', hBudget, hCost, hPct, -⟩,
      ⟨hMax, -⟩, hCenter, hRows, hCols, -⟩
    exact ⟨hRows, hCols, hPlanMin, ⟨hPlanSec', hPlanSec⟩, hBudget, hCenter, hRevMin,
      ⟨hRevSec', hRevSec⟩, hCost, hMax, hPct⟩
  · intro h
    exact ⟨⟨⟨h.initPlanSec.2, h.planRevSec.2, List.forall_mem_nil _⟩, h.initPlanMin, h.initPlanSec.1,
      h.planRevMin, h.planRevSec.1, h.initBudget, h.revCost, h.interestPct, List.forall_mem_nil _⟩,
      ⟨h.maxDep, Int.le_refl _⟩, h.initCenterDep, h.rows, h.cols, List.forall_mem_nil _⟩

structure Playable (s : Settings) : Prop where
  initBudget_nonneg : 0 ≤ s.initBudget
  interestPct_nonneg : 0 ≤ s.interestPct
  maxDep_pos : 1 ≤ s.maxDep
  initCenterDep_pos : 1 ≤ s.initCenterDep
  initCenterDep_le : s.initCenterDep ≤ s.maxDep
  rows_pos : 1 ≤ s.rows
  rows_le : s.rows ≤ maxDimension
  cols_pos : 1 ≤ s.cols
  cols_le : s.cols ≤ maxDimension

theorem playable_of_validate {s : Settings} (h : s.validate = .ok ()) : s.Playable := by
  have hRange := (validate_eq_ok_iff s).mp h
  exact ⟨hRange.initBudget, hRange.interestPct, hRange.maxDep, hRange.initCenterDep.1,
    hRange.initCenterDep.2, hRange.rows.1, hRange.rows.2, hRange.cols.1, hRange.cols.2⟩

end Settings

end CityCrew
