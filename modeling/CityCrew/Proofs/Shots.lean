import CityCrew.Proofs.Contenders
import CityCrew.Proofs.Opponents
import CityCrew.Proofs.Wealth

/-!
# What a shot costs

The test whether a shot can be paid caps the cost at `maxAmount`; the cost that is charged is a
plain sum. The two differ for one amount only, which is `maxAmount` itself, and a budget has to be
just as great to let it pass. That shot stops the program. Every other one costs what it says or is
refused.
-/

namespace CityCrew

namespace Game

variable {g g' : Game} {d : Direction} {amount : Int} {f : Player → Player}

def BudgetsFit (g : Game) : Prop :=
  ∀ p ∈ g.players, p.budget ≤ maxAmount

theorem BudgetsFit.of_eq (h : g.BudgetsFit) (hPlayers : g'.players = g.players) : g'.BudgetsFit := by
  intro p hp
  rw [hPlayers] at hp
  exact h p hp

theorem BudgetsFit.of_modify {i : Nat} (h : g.BudgetsFit)
    (hPlayers : g'.players = g.players.modify i f)
    (hf : ∀ p, p.budget ≤ maxAmount → (f p).budget ≤ maxAmount) : g'.BudgetsFit := by
  intro p hp
  rw [hPlayers] at hp
  rcases mem_modify_cases hp with hp | ⟨q, hq, rfl⟩
  · exact h p hp
  · exact hf q (h q hq)

theorem budget_credit_le (p : Player) (n : Int) : (p.credit n).budget ≤ maxAmount := by
  have hCapped := capped_le_maxAmount (p.budget + n)
  have hPos : 0 ≤ maxAmount := by decide
  exact Int.max_le.mpr ⟨hPos, hCapped⟩

theorem BudgetsFit.charge (h : g.BudgetsFit) (n : Int) : (g.charge n).BudgetsFit :=
  h.of_modify rfl fun p _ => budget_credit_le p (-n)

theorem BudgetsFit.call {event : Event} {ok : Bool} (h : g.BudgetsFit)
    (hEffect : CallEffect g event ok g') : g'.BudgetsFit := by
  cases hEffect with
  | nothing => exact h
  | drawn => exact h.of_eq rfl
  | assigned => exact h.of_modify rfl fun _ hp => hp
  | acted hEffect =>
    cases hEffect with
    | refused => exact h
    | wasted => exact h.charge fee
    | moved => exact (h.charge fee).of_eq rfl
    | invested amount => exact ((h.charge fee).charge amount.toInt).of_eq rfl
    | collected amount =>
      exact (h.charge fee).of_modify rfl fun p _ => budget_credit_le p amount.toInt
    | relocated _ steps => exact ((h.charge fee).charge (relocationCost steps)).of_eq rfl
    | shot d amount => exact (h.charge (amount.toInt + fee)).of_eq rfl
    | captured d amount => exact (h.charge (amount.toInt + fee)).of_modify rfl fun _ hp => hp
    | stopped => exact h.of_eq rfl

theorem BudgetsFit.sweepOut (h : g.BudgetsFit) : g.sweepOut.BudgetsFit := by
  intro p hp
  obtain ⟨q, hq, rfl⟩ := List.mem_map.mp hp
  have hBudget := h q hq
  split
  · exact hBudget
  · exact hBudget

theorem BudgetsFit.endTurn (h : g.BudgetsFit) : g.endTurn.BudgetsFit := by
  cases hEnded : g.ended with
  | true => exact h.of_eq (by rw [endTurn_of_ended hEnded])
  | false => exact h.sweepOut.of_eq (players_endTurn hEnded)

theorem budgetsFit_create {settings : Settings} {names : List String} {seed : UInt64}
    (hBudget : settings.initBudget ≤ maxAmount) (h : create settings names seed = .ok g) :
    g.BudgetsFit := by
  obtain ⟨_, _, _, _, _, _, _, hStart⟩ := of_create_eq_ok h
  obtain ⟨_, _, _, hPlayers, _⟩ := of_start_eq_ok hStart
  intro p hp
  rw [hPlayers] at hp
  obtain ⟨⟨name, i⟩, _, rfl⟩ := List.mem_map.mp hp
  exact Int.max_le.mpr ⟨by decide, hBudget⟩

theorem Reachable.budgetsFit (h : Reachable g) :
    g.settings.initBudget ≤ maxAmount → g.BudgetsFit := by
  apply h.forall_of_steps (P := fun g => g.settings.initBudget ≤ maxAmount → g.BudgetsFit)
  · intro settings names seed g _ hCreate hBudget
    obtain ⟨_, _, _, _, _, _, _, hStart⟩ := of_create_eq_ok hCreate
    rw [(of_start_eq_ok hStart).2.1] at hBudget
    exact budgetsFit_create hBudget hCreate
  · intro g hg
    obtain ⟨crew, hCrew⟩ := snd_run_beginTurn g
    rw [hCrew]
    exact hg
  · intro event g hg hBudget
    have hEffect := exec_effect g event
    exact (hg (hEffect.frame.1 ▸ hBudget)).call hEffect
  · intro g hg hBudget
    rw [settings_endTurn] at hBudget
    exact (hg hBudget).endTurn

/-- To cap the cost makes a difference to one amount alone. -/
theorem capped_cost_le_iff {budget : Int} (hAmount : amount ≤ maxAmount)
    (hBudget : budget ≤ maxAmount) : capped (amount + fee) ≤ budget ↔
      amount + fee ≤ budget ∨ amount = maxAmount ∧ budget = maxAmount := by
  unfold capped fee
  omega

/-- The cost of a shot that passes the test is no word for one amount alone. -/
theorem isWord_cost (hAmount : amount ≤ maxAmount) (hNonneg : 0 ≤ amount)
    (hUsual : amount ≠ maxAmount) : IsWord (amount + fee) := by
  unfold IsWord fee maxAmount at *
  omega

/-- The region `r'` is what is left of `r` without `amount` of its deposit. -/
structure Drained (amount : Int) (r r' : Region) : Prop where
  deposit_eq : r'.deposit = max 0 (r.deposit - amount)
  same : r'.location = r.location ∧ r'.capacity = r.capacity
  lost : r'.deposit = 0 → r'.owner = none ∧ r'.cityCenter = false
  kept : r'.deposit ≠ 0 → r'.owner = r.owner ∧ r'.cityCenter = r.cityCenter

theorem drained_deposited {r : Region} {capacity : Int} (h : r.Sound capacity) (hAmount : 0 ≤ amount) :
    Drained amount r (r.deposited (-amount)) := by
  have hLe := h.deposit_le
  have hDeposit : (r.deposited (-amount)).deposit = max 0 (r.deposit - amount) := by
    rw [Region.deposit_deposited, h.capacity_eq]
    omega
  refine ⟨hDeposit, ⟨Region.location_deposited, Region.capacity_deposited⟩,
    Region.deposited_of_empty, fun hFull => Region.deposited_of_pos ?_⟩
  omega

/-- The city center of somebody else stands in direction `d` and holds no more than `amount`. -/
def WinsShot (g : Game) (d : Direction) (amount : Int) : Prop :=
  ∃ r loser, g.territory.get? (g.crew.step d) = some r ∧ r.cityCenter = true ∧
    r.owner = some loser ∧ loser ≠ g.actor.id ∧ r.deposit ≤ amount

/-- The game `g'` is what a shot with `amount` in direction `d` makes of `g`. -/
structure Hit (d : Direction) (amount : Int) (g g' : Game) : Prop where
  budget_eq : g'.actor.budget = g.actor.budget - (amount + 1)
  spares : SparesPlayers g g'
  frame : g'.settings = g.settings ∧ g'.turn = g.turn ∧ g'.current = g.current ∧
    g'.crew = g.crew ∧ g'.random = g.random
  target : ∀ r, g.territory.get? (g.crew.step d) = some r →
    ∃ r', g'.territory.get? (g.crew.step d) = some r' ∧ Drained amount r r'
  elsewhere : ∀ p, p ≠ g.crew.step d → g'.territory.get? p = g.territory.get? p
  won : g.WinsShot d amount → g'.ended = true ∧ g'.winner = some g.actor.id
  undecided : ¬ g.WinsShot d amount → g'.ended = false ∧ g'.winner = none
  overflowed_eq : g'.overflowed = g.overflowed

/-- The game after a shot that has been paid for, unless it wins. -/
def afterShot (g : Game) (d : Direction) (amount : Int) : Game :=
  (g.charge (amount + fee)).modifyRegion (g.crew.step d) (·.deposited (-amount))

theorem budget_afterShot (hAmount : 0 ≤ amount) (hCost : amount + 1 ≤ g.actor.budget)
    (hBudget : g.actor.budget ≤ maxAmount) :
    (g.afterShot d amount).actor.budget = g.actor.budget - (amount + 1) := by
  rw [afterShot, actor_modifyRegion, budget_charge, capped_eq_self (by unfold fee; omega)]
  unfold fee
  omega

theorem spares_afterShot : SparesPlayers g (g.afterShot d amount) :=
  ((SparesPlayers.of_eq rfl).modifyActor rfl _).modifyRegion _ _

theorem target_afterShot (h : g.Sound) (hAmount : 0 ≤ amount) {r : Region}
    (hr : g.territory.get? (g.crew.step d) = some r) :
    ∃ r', (g.afterShot d amount).territory.get? (g.crew.step d) = some r' ∧ Drained amount r r' :=
  ⟨_, Territory.get?_modify_self hr, drained_deposited (h.board.region _ r hr) hAmount⟩

theorem elsewhere_afterShot {p : Point} (hp : p ≠ g.crew.step d) :
    (g.afterShot d amount).territory.get? p = g.territory.get? p :=
  Territory.get?_modify_of_ne hp.symm

theorem hit_shoot (h : g.Sound) (hEnded : g.ended = false) (d : Direction) (hAmount : 0 ≤ amount)
    (hCost : amount + 1 ≤ g.actor.budget) (hBudget : g.actor.budget ≤ maxAmount) :
    (shoot d amount g).1 = true ∧ Hit d amount g (shoot d amount g).2 := by
  have hAffords : g.actor.CanAfford (capped (amount + fee)) := Int.le_trans (capped_le _) hCost
  have hPaid := budget_afterShot (d := d) hAmount hCost hBudget
  have hWord : IsWord (amount + fee) := isWord_cost (by omega) hAmount (by omega)
  rcases shoot_of_isWord d hEnded hAmount hAffords hWord with
    ⟨hShot, hKept⟩ | ⟨r, loser, hr, hCenter, hOwner, hNe, hEmpty, hShot⟩
  · rw [hShot]
    refine ⟨rfl, hPaid, spares_afterShot, ⟨rfl, rfl, rfl, rfl, rfl⟩,
      fun r => target_afterShot h hAmount, fun p => elsewhere_afterShot, ?_, ?_, rfl⟩
    · rintro ⟨r, loser, hr, hCenter, hOwner, hNe, hDeposit⟩
      have hLeft := (drained_deposited (h.board.region _ r hr) hAmount).deposit_eq
      exact absurd (by omega) (hKept r loser hr hCenter hOwner hNe)
    · intro _
      exact ⟨hEnded, h.winner_eq_none hEnded⟩
  · have hLeft := (drained_deposited (h.board.region _ r hr) hAmount).deposit_eq
    rw [hShot]
    refine ⟨rfl, ?_, spares_afterShot.capture _ _, ⟨rfl, rfl, rfl, rfl, rfl⟩,
      fun r => target_afterShot h hAmount, fun p => elsewhere_afterShot, ?_, ?_, rfl⟩
    · -- The loser is not the one who acts.
      exact (congrArg Player.budget (actor_modifyPlayer (by simpa using hNe))).trans hPaid
    · intro _
      exact ⟨rfl, rfl⟩
    · intro hOpen
      exact absurd ⟨r, loser, hr, hCenter, hOwner, hNe, by omega⟩ hOpen

theorem modifyActor_congr {f' : Player → Player} (h : f g.actor = f' g.actor) :
    g.modifyActor f = g.modifyActor f' := by
  have hPlayers : g.players.modify g.current f = g.players.modify g.current f' := by
    apply List.ext_getElem?
    intro i
    rw [List.getElem?_modify, List.getElem?_modify]
    split
    · subst i
      simp only [getElem?_current, Option.map_eq_map, Option.map_some, h]
    · rfl
  simp only [modifyActor, hPlayers]

theorem charge_fee_eq (hNonneg : 0 ≤ g.actor.budget) (hBudget : g.actor.budget ≤ maxAmount) :
    g.charge fee = g.modifyActor fun p => { p with budget := p.budget - min 1 p.budget } := by
  apply modifyActor_congr
  rw [Player.debit, Player.credit_eq, capped_eq_self (by unfold fee; omega)]
  congr 1
  unfold fee
  omega

/-- A shot that is to cost one more than the greatest budget, of a player who has that budget, stops
the program. Any other is either paid for to the last unit, and then does what it is meant to do, or
refused at the price of the fee. -/
theorem shots_cost_what_they_say (h : Reachable g) (hSettings : g.settings.initBudget ≤ maxAmount)
    (hEnded : g.ended = false) (d : Direction) (amount : Value) :
    (amount.toInt = maxAmount ∧ g.actor.budget = maxAmount →
      (Host.perform (.shoot d amount) : StateM Game Bool).run g = (false, g.stopped)) ∧
    (¬ (amount.toInt = maxAmount ∧ g.actor.budget = maxAmount) → ∃ ok g',
      (Host.perform (.shoot d amount) : StateM Game Bool).run g = (ok, g') ∧
      g'.overflowed = g.overflowed ∧
      (0 ≤ amount.toInt ∧ amount.toInt + 1 ≤ g.actor.budget →
        ok = true ∧ Hit d amount.toInt g g') ∧
      (¬ (0 ≤ amount.toInt ∧ amount.toInt + 1 ≤ g.actor.budget) →
        ok = false ∧
          g' = g.modifyActor fun p => { p with budget := p.budget - min 1 p.budget })) := by
  have hWord := isWord_toInt amount
  have hNonneg := h.sound.budget_nonneg _ g.actor_mem
  have hBudget := h.budgetsFit hSettings _ g.actor_mem
  have hCost := capped_cost_le_iff hWord.2 hBudget
  constructor
  · rintro ⟨hGreatest, hRich⟩
    apply shoot_of_not_isWord hEnded
    · rw [hGreatest]
      decide
    · exact hCost.mpr (.inr ⟨hGreatest, hRich⟩)
    · rw [hGreatest]
      decide
  · intro hUsual
    by_cases hPaid : 0 ≤ amount.toInt ∧ amount.toInt + 1 ≤ g.actor.budget
    · obtain ⟨hOk, hHit⟩ := hit_shoot h.sound hEnded d hPaid.1 hPaid.2 hBudget
      exact ⟨_, _, rfl, hHit.overflowed_eq, fun _ => ⟨hOk, hHit⟩, fun hNot => absurd hPaid hNot⟩
    · have hGuard : amount.toInt < 0 ∨ ¬ g.actor.CanAfford (capped (amount.toInt + fee)) := by
        unfold Player.CanAfford fee at *
        omega
      have hShot := shoot_of_refused (d := d) hEnded hGuard
      rw [charge_fee_eq hNonneg hBudget] at hShot
      exact ⟨_, _, hShot, rfl, fun hPays => absurd hPays hPaid, fun _ => ⟨rfl, rfl⟩⟩

def wealthySettings : Settings := { duelSettings with initBudget := maxAmount }

theorem exists_wealthy_duel : ∃ g, create wealthySettings ["a", "b"] 7 = .ok g ∧ g.ended = false ∧
    g.settings.initBudget = maxAmount ∧ g.actor.budget = maxAmount := by
  obtain ⟨g, hCreate, hDuel⟩ := exists_eq_ok_of_any (r := create wealthySettings ["a", "b"] 7)
    (P := fun g => !g.ended && g.settings.initBudget == maxAmount && g.actor.budget == maxAmount)
    (by decide +kernel)
  simp only [Bool.and_eq_true, Bool.not_eq_true', beq_iff_eq] at hDuel
  exact ⟨g, hCreate, hDuel.1.1, hDuel.1.2, hDuel.2⟩

/-- The greatest shot that can be charged takes the whole budget. -/
theorem greatest_shot_takes_all : ∃ g g', create wealthySettings ["a", "b"] 7 = .ok g ∧
    (Host.perform (.shoot .up 9223372036854775806) : StateM Game Bool).run g = (true, g') ∧
    g'.actor.budget = 0 := by
  obtain ⟨g, hCreate, hEnded, hSettings, hBudget⟩ := exists_wealthy_duel
  have hAmount : (9223372036854775806 : Value).toInt = 9223372036854775806 := by decide
  have hShots := shots_cost_what_they_say (.betweenTurns (.create rfl hCreate))
    (Int.le_of_eq hSettings) hEnded .up 9223372036854775806
  obtain ⟨ok, g', hShot, _, hPaid, _⟩ :=
    hShots.2 fun hGreatest => absurd (hAmount.symm.trans hGreatest.1) (by decide)
  obtain ⟨rfl, hHit⟩ := hPaid (by rw [hAmount, hBudget]; decide)
  refine ⟨g, g', hCreate, hShot, ?_⟩
  rw [hHit.budget_eq, hAmount, hBudget]
  decide

def unpayablePlan : Plan where
  statements := [.act (.shoot .up (.number 9223372036854775807))]

/-- One unit more is not refused at the price of the fee, although nobody could pay the cost. It
stops the program. -/
theorem unpayable_shot_stops_program : ∃ g, BetweenTurns g ∧ g.ended = false ∧
    g.overflowed = false ∧ g.actor.budget = 9223372036854775807 ∧
    ((Host.perform (.shoot .up 9223372036854775807) : StateM Game Bool).run g).2.overflowed = true ∧
    ((Host.perform (.shoot .up 9223372036854775807) : StateM Game Bool).run g).2.actor.budget =
      9223372036854775807 ∧
    g.playTurn unpayablePlan = .error .overflow := by
  obtain ⟨g, hCreate, hDuel⟩ := exists_eq_ok_of_any (r := create wealthySettings ["a", "b"] 7)
    (P := fun g => !g.ended && !g.overflowed && g.actor.budget == 9223372036854775807 &&
      ((Host.perform (.shoot .up 9223372036854775807) : StateM Game Bool).run g).2.overflowed &&
      ((Host.perform (.shoot .up 9223372036854775807) : StateM Game Bool).run g).2.actor.budget ==
        9223372036854775807 &&
      (g.runTurn unpayablePlan).2.overflowed) (by decide +kernel)
  simp only [Bool.and_eq_true, Bool.not_eq_true', beq_iff_eq] at hDuel
  obtain ⟨⟨⟨⟨⟨hEnded, hRuns⟩, hBudget⟩, hStopped⟩, hKept⟩, hTurn⟩ := hDuel
  refine ⟨g, .create rfl hCreate, hEnded, hRuns, hBudget, hStopped, hKept, ?_⟩
  rw [playTurn_of_open hEnded, if_pos hTurn]

end Game

end CityCrew
