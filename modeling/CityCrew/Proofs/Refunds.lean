import CityCrew.Proofs.Relocation

/-!
# Taking back what was invested

To invest takes over the region of the crew, and to take the money out again gives it back. In the
middle of a turn the region belongs to the acting player or to nobody, and then it holds nothing.
That is why nothing is left of the two but what they cost.
-/

namespace CityCrew

namespace Region

variable {r : Region} {n capacity : Int} {id : PlayerId}

theorem deposited_eq_of_pos (hPos : 0 < r.deposit + n) (hRoom : r.deposit + n ≤ r.capacity) :
    r.deposited n = { r with deposit := r.deposit + n } := by
  have hDeposit : max 0 (min r.capacity (r.deposit + n)) = r.deposit + n := by omega
  rw [deposited, hDeposit, if_neg (by omega)]

theorem deposited_eq_of_nonpos (h : r.deposit + n ≤ 0) :
    r.deposited n = { r with deposit := 0, owner := none, cityCenter := false } := by
  rw [deposited, if_pos (by omega)]

theorem deposited_withOwner (h : r.Sound capacity) (hPos : 0 < n) (hRoom : r.deposit + n ≤ capacity) :
    { r with owner := some id }.deposited n =
      { r with owner := some id, deposit := r.deposit + n } := by
  have hNonneg := h.deposit_nonneg
  have hCapacity := h.capacity_eq
  exact deposited_eq_of_pos (r := { r with owner := some id }) (by dsimp only; omega)
    (by dsimp only; omega)

/-- Money that is put into a region and taken out again leaves the region as it was, given that no
opponent had it. -/
theorem deposited_deposited (h : r.Sound capacity) (hUnopposed : r.isOpposedTo id = false)
    (hPos : 0 < n) (hRoom : r.deposit + n ≤ capacity) :
    ({ r with owner := some id }.deposited n).deposited (-n) = r := by
  have hNonneg := h.deposit_nonneg
  have hCapacity := h.capacity_eq
  rw [deposited_withOwner h hPos hRoom]
  cases hOwner : r.owner with
  | none =>
    -- Nobody's region was empty, and taking out all that came in makes it so again.
    have hEmpty : r.deposit = 0 := h.owner_eq_none_iff.mp hOwner
    have hCenter : r.cityCenter = false :=
      Bool.eq_false_iff.mpr fun hCenter => h.owned_of_cityCenter hCenter hOwner
    rw [deposited_eq_of_nonpos (by dsimp only; omega)]
    exact Region.ext rfl hEmpty.symm rfl hOwner.symm hCenter.symm
  | some owner =>
    have hHeld : r.deposit ≠ 0 := fun hZero => by
      rw [h.owner_eq_none_iff.mpr hZero] at hOwner
      cases hOwner
    obtain rfl : owner = id := isOpposedTo_eq_false_iff.mp hUnopposed owner hOwner
    rw [deposited_eq_of_pos (by dsimp only; omega) (by dsimp only; omega)]
    exact Region.ext rfl (Int.add_neg_cancel_right _ _) rfl hOwner.symm rfl

end Region

namespace Game

variable {s : Game} {n : Int} {r : Region}

def MidTurn (s : Game) : Prop :=
  ∃ g plan, BetweenTurns g ∧ g.ended = false ∧ s ∈ passed plan (beginTurn.run g).2

theorem MidTurn.reachable (h : MidTurn s) : Reachable s := by
  obtain ⟨g, plan, hBetween, hEnded, hs⟩ := h
  have hBegun : beginTurn.run g = (true, (beginTurn.run g).2) :=
    Prod.ext (hBetween.ready.beginTurn hEnded).1 rfl
  rcases List.mem_append.mp hs with hs | hs
  · obtain ⟨c, hc, rfl⟩ := List.mem_map.mp hs
    exact .beforeCall hBetween hEnded hBegun hc
  · obtain rfl := List.mem_singleton.mp hs
    exact .afterRun hBetween hEnded hBegun

theorem MidTurn.underway (h : MidTurn s) : s.Underway := by
  obtain ⟨g, plan, hBetween, hEnded, hs⟩ := h
  exact forall_passed (hBetween.ready.beginTurn hEnded).2 Underway.exec s hs

theorem isConnected_eq_true_iff : s.isConnected = true ↔
    ∃ p ∈ s.crew :: s.territory.neighbors s.crew,
      ∃ q, s.territory.get? p = some q ∧ q.owner = some s.actor.id := by
  simp only [isConnected, List.any_eq_true, Territory.isOwnedBy_eq_true_iff]

theorem modifyRegion_modifyRegion (s : Game) (p : Point) (f k : Region → Region) :
    (s.modifyRegion p f).modifyRegion p k = s.modifyRegion p (k ∘ f) := by
  simp only [modifyRegion, Territory.modify_modify]

theorem modifyRegion_eq_self {p : Point} {f : Region → Region}
    (h : ∀ q, s.territory.get? p = some q → f q = q) : s.modifyRegion p f = s := by
  rw [modifyRegion, Territory.modify_eq_self h]

def afterInvestment (s : Game) (n : Int) : Game :=
  (s.spend (1 + n)).modifyRegion s.crew fun r => { r with owner := some s.actor.id }.deposited n

theorem budget_afterInvestment : (s.afterInvestment n).actor.budget = s.actor.budget - (1 + n) :=
  budget_spend (g := s)

theorem crewRegion?_afterInvestment (hr : s.crewRegion? = some r) :
    (s.afterInvestment n).crewRegion? =
      some ({ r with owner := some s.actor.id }.deposited n) :=
  Territory.get?_modify_self hr

theorem invest_eq (hEnded : s.ended = false) (hConnected : s.isConnected = true) (hPos : 0 < n)
    (hCost : 1 + n ≤ s.actor.budget) (hBudget : s.actor.budget ≤ maxAmount) :
    invest n s = (true, s.afterInvestment n) := by
  have hFee : s.charge fee = s.spend 1 :=
    charge_eq_spend (show 1 ≤ s.actor.budget by omega) (by decide) hBudget
  have hLeft : (s.spend 1).actor.budget = s.actor.budget - 1 := budget_spend
  have hPaid : (s.spend 1).charge n = s.spend (1 + n) := by
    rw [charge_eq_spend (by omega) (by omega) (by omega), spend_spend]
  have hGuard : ¬ (n ≤ 0 ∨ ¬ (s.charge fee).isConnected ∨ ¬ (s.charge fee).actor.CanAfford n) := by
    rw [isConnected_charge, hConnected, hFee, Player.CanAfford, hLeft]
    simp only [not_true_eq_false, false_or]
    omega
  simp only [invest, hEnded, Bool.false_eq_true, if_false, if_neg hGuard, id_actor_charge,
    crew_charge]
  rw [hFee, hPaid, afterInvestment]

theorem collect_eq (hEnded : s.ended = false) (hNonneg : 0 ≤ n) (hr : s.crewRegion? = some r)
    (hHeld : n ≤ r.deposit) (hFee : 0 < s.actor.budget) (hBudget : s.actor.budget ≤ maxAmount)
    (hMax : s.actor.budget - 1 + n ≤ maxAmount) : collect n s =
      (true, (s.spend (1 + -n)).modifyRegion s.crew (·.deposited (-n))) := by
  have hPaid : s.charge fee = s.spend 1 := charge_eq_spend hFee (by decide) hBudget
  have hLeft : (s.spend 1).actor.budget = s.actor.budget - 1 := budget_spend
  have hTaken : (s.spend 1).modifyActor (·.credit n) = s.spend (1 + -n) := by
    rw [credit_eq_spend (by omega) (by omega), spend_spend]
  have hGuard : ¬ (s.ended = true ∨ n < 0 ∨ ¬ s.actor.CanAfford fee) := by
    simp only [hEnded, Bool.false_eq_true, false_or, Player.CanAfford, fee]
    omega
  have hSame : (s.spend 1).crewRegion? = some r := hr
  simp only [collect, if_neg hGuard, hPaid, hSame, if_neg (Int.not_lt.mpr hHeld)]
  rw [← hTaken]
  rfl

/-- What is collected after an investment gives the region back, and the fees are lost. -/
theorem undone_afterInvestment
    (h : ∀ r, s.crewRegion? = some r →
      ({ r with owner := some s.actor.id }.deposited n).deposited (-n) = r) :
    ((s.afterInvestment n).spend (1 + -n)).modifyRegion s.crew (·.deposited (-n)) = s.spend 2 := by
  have hFees : (s.spend (1 + n)).spend (1 + -n) = s.spend 2 := by
    rw [spend_spend]
    congr 1
    omega
  have hSpent : (s.afterInvestment n).spend (1 + -n) = (s.spend 2).modifyRegion s.crew
      fun r => { r with owner := some s.actor.id }.deposited n := by
    rw [← hFees]
    rfl
  rw [hSpent, modifyRegion_modifyRegion, modifyRegion_eq_self]
  exact h

/-- To invest and then to collect the same amount costs the two fees, and everything else is as it
was. In between the region of the crew belongs to the acting player. Budgets are words, as the
first ones are. -/
theorem invest_collect_costs_fees (h : MidTurn s) (hSettings : s.settings.initBudget ≤ maxAmount)
    (hEnded : s.ended = false) (hPos : 1 ≤ n)
    (hConnected : ∃ p ∈ s.crew :: s.territory.neighbors s.crew,
      ∃ q, s.territory.get? p = some q ∧ q.owner = some s.actor.id)
    (hRoom : s.crewDeposit + n ≤ s.settings.maxDep) (hBudget : n + 2 ≤ s.actor.budget) :
    ∃ r s', s.crewRegion? = some r ∧ (invest n).run s = (true, s') ∧
      s'.crewRegion? = some { r with owner := some s.actor.id, deposit := r.deposit + n } ∧
      (collect n).run s' = (true, s.spend 2) := by
  have hUnderway := h.underway
  have hSound := hUnderway.sound
  have hWord := h.reachable.budgetsFit hSettings _ actor_mem
  obtain ⟨r, hr⟩ := Option.isSome_iff_exists.mp
    (hSound.board.regular.get?_isSome_iff.mpr hSound.crew_mem)
  have hRegion := hSound.board.region _ r hr
  have hUnopposed := isOpposed_eq_false_iff.mp hUnderway.crew_unopposed r hr
  have hFits : r.deposit + n ≤ s.settings.maxDep := by
    rwa [crewDeposit, crewRegion?, hr] at hRoom
  have hInvest : (invest n).run s = (true, s.afterInvestment n) :=
    invest_eq hEnded (isConnected_eq_true_iff.mpr hConnected) (by omega) (by omega) hWord
  have hTaken : (s.afterInvestment n).crewRegion? =
      some { r with owner := some s.actor.id, deposit := r.deposit + n } := by
    rw [← Region.deposited_withOwner hRegion (by omega) hFits]
    exact crewRegion?_afterInvestment hr
  have hLeft : (s.afterInvestment n).actor.budget = s.actor.budget - (1 + n) :=
    budget_afterInvestment
  have hNonneg := hRegion.deposit_nonneg
  refine ⟨r, s.afterInvestment n, hr, hInvest, hTaken, ?_⟩
  calc
    collect n (s.afterInvestment n) =
        (true, ((s.afterInvestment n).spend (1 + -n)).modifyRegion s.crew (·.deposited (-n))) :=
      collect_eq hEnded (by omega) hTaken (by dsimp only; omega) (by omega) (by omega) (by omega)
    _ = (true, s.spend 2) := by
      rw [undone_afterInvestment]
      intro q hq
      obtain rfl := Option.some.inj (hr.symm.trans hq)
      exact Region.deposited_deposited hRegion hUnopposed (by omega) hFits

def scoutPlan : Plan where
  statements := [.act (.move .up)]

/-- The crew stands next to its city center on a region that belongs to nobody, and then takes this
region and gives it back. -/
theorem scout_gets_refund : ∃ g r s', create { rows := 3, cols := 1 } ["a", "b"] 3 = .ok g ∧
    let s := (scoutPlan.run.run (beginTurn.run g).2).2
    s.crewRegion? = some r ∧ r.owner = none ∧ (invest 50).run s = (true, s') ∧
      (collect 50).run s' = (true, s.spend 2) ∧ (s.spend 2).actor.budget = 9997 := by
  obtain ⟨g, hCreate, hScout⟩ := exists_eq_ok_of_any
    (r := create { rows := 3, cols := 1 } ["a", "b"] 3)
    (P := fun g =>
      let s := (scoutPlan.run.run (beginTurn.run g).2).2
      !g.ended && !s.ended && decide (s.settings.initBudget ≤ maxAmount) && s.isConnected &&
        decide (s.crewDeposit + 50 ≤ s.settings.maxDep) && decide (s.actor.budget = 9999) &&
        s.crewRegion?.all (·.owner.isNone)) (by decide +kernel)
  simp only [Bool.and_eq_true, Bool.not_eq_true', decide_eq_true_eq] at hScout
  obtain ⟨⟨⟨⟨⟨⟨hOpen, hEnded⟩, hSettings⟩, hConnected⟩, hRoom⟩, hBudget⟩, hFree⟩ := hScout
  have hMid : MidTurn (scoutPlan.run.run (beginTurn.run g).2).2 :=
    ⟨g, scoutPlan, .create rfl hCreate, hOpen, last_mem_passed _ _⟩
  obtain ⟨r, s', hr, hInvest, -, hCollect⟩ := invest_collect_costs_fees hMid hSettings hEnded
    (by decide) (isConnected_eq_true_iff.mp hConnected) hRoom (by omega)
  rw [hr] at hFree
  refine ⟨g, r, s', hCreate, hr, Option.isNone_iff_eq_none.mp hFree, hInvest, hCollect, ?_⟩
  rw [budget_spend, hBudget]
  rfl

end Game

end CityCrew
