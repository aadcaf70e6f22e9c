import Mathlib.Algebra.BigOperators.Group.List.Basic
import Mathlib.Algebra.Ring.Int.Defs
import CityCrew.Proofs.Reachable

/-!
# Wealth

The wealth of a game is all the money in it: the budgets of the players and the deposits of the
regions. Money only changes hands, and every action that is paid for takes its fee out of the game.
-/

namespace CityCrew

theorem sum_map_modify {α : Type} (k : α → Int) {f : α → α} {l : List α} {i : Nat} {a : α}
    (h : l[i]? = some a) : ((l.modify i f).map k).sum = (l.map k).sum - k a + k (f a) := by
  induction l generalizing i with
  | nil => cases h
  | cons b l ih =>
    cases i with
    | zero =>
      obtain rfl := Option.some.inj h
      simp only [List.modify_zero_cons, List.map_cons, List.sum_cons]
      omega
    | succ i =>
      simp only [List.modify_succ_cons, List.map_cons, List.sum_cons, ih h]
      omega

namespace Territory

def wealth (t : Territory) : Int :=
  (t.regions.toList.map (·.deposit)).sum

variable {t : Territory} {p : Point} {r : Region} {f : Region → Region}

theorem wealth_modify (h : t.get? p = some r) :
    (t.modify p f).wealth = t.wealth - r.deposit + (f r).deposit := by
  obtain ⟨i, hi, hr⟩ := Option.bind_eq_some_iff.mp h
  rw [modify, hi, wealth, wealth, Array.toList_modify]
  exact sum_map_modify _ (by simpa using hr)

theorem wealth_modify_le {n : Int} (hn : 0 ≤ n)
    (h : ∀ r, t.get? p = some r → (f r).deposit ≤ r.deposit + n) :
    (t.modify p f).wealth ≤ t.wealth + n := by
  cases hr : t.get? p with
  | none =>
    rw [modify_of_get?_eq_none hr]
    omega
  | some r =>
    have hGrowth := h r hr
    rw [wealth_modify hr]
    omega

def Solvent (t : Territory) : Prop :=
  ∀ r ∈ t.regions, 0 ≤ r.deposit ∧ r.deposit ≤ r.capacity

end Territory

namespace Game

def wealth (g : Game) : Int :=
  (g.players.map (·.budget)).sum + g.territory.wealth

/-- No budget is negative, and the deposits are in their ranges. It does not matter here where the
crew stands. -/
structure Solvent (g : Game) : Prop where
  budget_nonneg : ∀ p ∈ g.players, 0 ≤ p.budget
  board : g.territory.Solvent

variable {g g' : Game} {n : Int} {p : Point} {f : Player → Player} {k : Region → Region}

theorem wealth_modifyActor :
    (g.modifyActor f).wealth = g.wealth - g.actor.budget + (f g.actor).budget := by
  have hActor : g.players[g.current]? = some g.actor := List.getElem?_eq_getElem g.current_lt
  have hSum := sum_map_modify (·.budget) hActor (f := f)
  rw [wealth, wealth, players_modifyActor, territory_modifyActor]
  omega

theorem wealth_modifyRegion_le (hn : 0 ≤ n)
    (h : ∀ r, g.territory.get? p = some r → (k r).deposit ≤ r.deposit + n) :
    (g.modifyRegion p k).wealth ≤ g.wealth + n := by
  have hBoard := Territory.wealth_modify_le hn h
  have hPlayers : (g.modifyRegion p k).players = g.players := rfl
  have hTerritory : (g.modifyRegion p k).territory = g.territory.modify p k := rfl
  rw [wealth, wealth, hPlayers, hTerritory]
  omega

theorem wealth_modifyRegion {r : Region} (h : g.territory.get? p = some r) :
    (g.modifyRegion p k).wealth = g.wealth - r.deposit + (k r).deposit := by
  have hBoard := Territory.wealth_modify (f := k) h
  have hPlayers : (g.modifyRegion p k).players = g.players := rfl
  have hTerritory : (g.modifyRegion p k).territory = g.territory.modify p k := rfl
  rw [wealth, wealth, hPlayers, hTerritory]
  omega

theorem wealth_charge :
    (g.charge n).wealth = g.wealth - g.actor.budget + (g.charge n).actor.budget := by
  rw [charge, wealth_modifyActor, actor_modifyActor]

theorem budget_charge : (g.charge n).actor.budget = max 0 (capped (g.actor.budget - n)) := by
  rw [charge, actor_modifyActor]
  rfl

theorem budget_charge_le : (g.charge n).actor.budget ≤ max 0 (g.actor.budget - n) := by
  have hCapped := capped_le (g.actor.budget - n)
  rw [budget_charge]
  omega

theorem budget_charge_nonneg : 0 ≤ (g.charge n).actor.budget := by
  rw [budget_charge]
  omega

theorem wealth_capture {winner loser : PlayerId} : (g.capture winner loser).wealth = g.wealth := by
  have hBudgets : (g.capture winner loser).players.map (·.budget) = g.players.map (·.budget) :=
    map_modify_of_eq _ _ fun _ => rfl
  have hTerritory : (g.capture winner loser).territory = g.territory := rfl
  rw [wealth, wealth, hBudgets, hTerritory]

theorem deposit_deposited_le {r : Region} (h : 0 ≤ r.deposit + n) :
    (r.deposited n).deposit ≤ r.deposit + n := by
  rw [Region.deposit_deposited]
  omega

theorem Solvent.wealth_shot_le (h : g.Solvent) (hn : 0 ≤ n)
    (hAfford : g.actor.CanAfford (capped (n + fee))) :
    ((g.charge (n + fee)).modifyRegion p (·.deposited (-n))).wealth + 1 ≤ g.wealth := by
  have hCharge := wealth_charge (g := g) (n := n + fee)
  -- The sum is capped when the check is made, and exact when it is paid.
  have hBudget : (g.charge (n + fee)).actor.budget + 1 ≤ g.actor.budget := by
    have hAfford : capped (n + 1) ≤ g.actor.budget := hAfford
    have hPaid : (g.charge (n + fee)).actor.budget ≤ max 0 (g.actor.budget - (n + 1)) :=
      budget_charge_le
    unfold capped maxAmount at hAfford
    omega
  have hDrained := wealth_modifyRegion_le (g := g.charge (n + fee)) (p := p)
    (k := (·.deposited (-n))) (Int.le_refl 0) fun r hr => by
      have hNonneg := (h.board r (Territory.mem_regions_of_get? hr)).1
      rw [Region.deposit_deposited]
      omega
  omega

/-- An action makes no wealth, and takes the fee out of the game if it succeeds and there is
something to pay it with. -/
theorem Effect.wealth_le (h : g.Solvent) {a : Action Value} {ok : Bool} (hEffect : Effect g a ok g') :
    g'.wealth ≤ g.wealth ∧ (ok = true → 1 ≤ g.actor.budget → g'.wealth + 1 ≤ g.wealth) := by
  have hBudget := h.budget_nonneg g.actor actor_mem
  have hFee : (g.charge fee).actor.budget ≤ max 0 (g.actor.budget - 1) := budget_charge_le
  have hCharge := wealth_charge (g := g) (n := fee)
  cases hEffect with
  | refused => exact ⟨Int.le_refl _, by simp⟩
  | wasted => omega
  | moved d =>
    have hMoved : Game.wealth { g.charge fee with crew := g.crew.step d } = (g.charge fee).wealth :=
      rfl
    omega
  | invested amount _ hAmount _ hAfford =>
    have hPaid := wealth_charge (g := g.charge fee) (n := amount.toInt)
    have hLeft := budget_charge_le (g := g.charge fee) (n := amount.toInt)
    have hAfford : amount.toInt ≤ (g.charge fee).actor.budget := hAfford
    have hDeposit : (((g.charge fee).charge amount.toInt).modifyRegion g.crew
        fun r => { r with owner := some g.actor.id }.deposited amount.toInt).wealth ≤
          ((g.charge fee).charge amount.toInt).wealth + amount.toInt := by
      apply wealth_modifyRegion_le (by omega)
      intro r hr
      have hNonneg := (h.board r (Territory.mem_regions_of_get? hr)).1
      exact deposit_deposited_le (r := { r with owner := some g.actor.id })
        (show 0 ≤ r.deposit + amount.toInt by omega)
    omega
  | collected amount r _ hAmount hAfford hr hEnough =>
    have hAfford : 1 ≤ g.actor.budget := hAfford
    have hNonneg := (h.board r (Territory.mem_regions_of_get? hr)).1
    have hTaken := wealth_modifyRegion (g := g.charge fee) (k := (·.deposited (-amount.toInt))) hr
    have hDeposit := deposit_deposited_le (r := r) (n := -amount.toInt) (by omega)
    have hCapped := capped_le ((g.charge fee).actor.budget + amount.toInt)
    have hFeeNonneg := budget_charge_nonneg (g := g) (n := fee)
    have hCredit : ((g.charge fee).actor.credit amount.toInt).budget =
      max 0 (capped ((g.charge fee).actor.budget + amount.toInt)) := rfl
    rw [wealth_modifyActor, actor_modifyRegion, hCredit]
    omega
  | relocated center steps =>
    have hPaid := wealth_charge (g := g.charge fee) (n := relocationCost steps)
    have hLeft := budget_charge_le (g := g.charge fee) (n := relocationCost steps)
    have hCost : 0 ≤ relocationCost steps := by
      unfold relocationCost
      omega
    have hCleared := wealth_modifyRegion_le (g := (g.charge fee).charge (relocationCost steps))
      (p := center) (k := fun r => { r with cityCenter := false }) (Int.le_refl 0)
      fun r _ => Int.le_of_eq (Int.add_zero r.deposit).symm
    have hMarked := wealth_modifyRegion_le
      (g := ((g.charge fee).charge (relocationCost steps)).modifyRegion center
        fun r => { r with cityCenter := false })
      (p := g.crew) (k := (·.withCityCenter g.actor.id)) (Int.le_refl 0)
      fun r _ => Int.le_of_eq (Int.add_zero r.deposit).symm
    have hFeeNonneg := budget_charge_nonneg (g := g) (n := fee)
    omega
  | shot d amount _ hAmount hAfford =>
    have hShot := h.wealth_shot_le (p := g.crew.step d) hAmount hAfford
    omega
  | captured d amount r loser _ hAmount hAfford =>
    have hShot := h.wealth_shot_le (p := g.crew.step d) hAmount hAfford
    rw [wealth_capture]
    omega
  | stopped =>
    have hSame : g.stopped.wealth = g.wealth := rfl
    exact ⟨Int.le_of_eq hSame, by simp⟩

theorem Sound.solvent (h : g.Sound) : g.Solvent where
  budget_nonneg := h.budget_nonneg
  board _ hr := (h.board.region_of_mem hr).in_range

theorem Solvent.modifyActor (h : g.Solvent) (hf : ∀ p, 0 ≤ p.budget → 0 ≤ (f p).budget) :
    (g.modifyActor f).Solvent where
  budget_nonneg := by
    intro p hp
    rcases mem_modify_cases hp with hp | ⟨q, hq, rfl⟩
    · exact h.budget_nonneg p hp
    · exact hf q (h.budget_nonneg q hq)
  board := h.board

theorem Solvent.charge (h : g.Solvent) : (g.charge n).Solvent :=
  h.modifyActor fun _ _ => Int.le_max_left _ _

theorem Solvent.modifyRegion (h : g.Solvent)
    (hk : ∀ r, g.territory.get? p = some r → 0 ≤ (k r).deposit ∧ (k r).deposit ≤ (k r).capacity) :
    (g.modifyRegion p k).Solvent where
  budget_nonneg := h.budget_nonneg
  board s hs := by
    rcases Territory.mem_regions_modify hs with hs | ⟨r, hr, rfl⟩
    · exact h.board s hs
    · exact hk r hr

theorem deposited_in_range {r : Region} (h : 0 ≤ r.capacity) :
    0 ≤ (r.deposited n).deposit ∧ (r.deposited n).deposit ≤ (r.deposited n).capacity := by
  rw [Region.deposit_deposited, Region.capacity_deposited]
  omega

theorem Solvent.act (h : g.Solvent) {a : Action Value} {ok : Bool} (hEffect : Effect g a ok g') :
    g'.Solvent := by
  have hCapacity : ∀ p r, g.territory.get? p = some r → 0 ≤ r.capacity := by
    intro p r hr
    obtain ⟨hNonneg, hLe⟩ := h.board r (Territory.mem_regions_of_get? hr)
    exact Int.le_trans hNonneg hLe
  cases hEffect with
  | refused => exact h
  | wasted => exact h.charge
  | moved d => exact ⟨h.charge.budget_nonneg, h.board⟩
  | invested amount =>
    apply h.charge.charge.modifyRegion
    intro r hr
    exact deposited_in_range (r := { r with owner := some g.actor.id }) (hCapacity _ r hr)
  | collected amount =>
    apply (h.charge.modifyRegion _).modifyActor
    · exact fun _ _ => Int.le_max_left _ _
    · exact fun r hr => deposited_in_range (hCapacity _ r hr)
  | relocated center steps =>
    have hCleared : (((g.charge fee).charge (relocationCost steps)).modifyRegion center
        fun r => { r with cityCenter := false }).Solvent :=
      h.charge.charge.modifyRegion fun r hr => h.board r (Territory.mem_regions_of_get? hr)
    exact hCleared.modifyRegion fun r hr => hCleared.board r (Territory.mem_regions_of_get? hr)
  | shot d amount =>
    apply h.charge.modifyRegion
    exact fun r hr => deposited_in_range (hCapacity _ r hr)
  | captured d amount =>
    have hDrained : ((g.charge (amount.toInt + fee)).modifyRegion (g.crew.step d)
        (·.deposited (-amount.toInt))).Solvent :=
      h.charge.modifyRegion fun r hr => deposited_in_range (hCapacity _ r hr)
    refine ⟨?_, hDrained.board⟩
    intro p hp
    rcases mem_modify_cases hp with hp | ⟨q, hq, rfl⟩
    · exact hDrained.budget_nonneg p hp
    · exact hDrained.budget_nonneg q hq
  | stopped => exact ⟨h.budget_nonneg, h.board⟩

/-- Whether the call is an action that succeeds although there was something to pay it with. -/
def isPaid (c : Call Game) : Bool :=
  match c.event with
  | .act _ => c.succeeds && decide (1 ≤ c.before.actor.budget)
  | _ => false

/-- A call makes no wealth, and one that is paid costs at least the fee. -/
theorem Solvent.call (h : g.Solvent) (event : Event) : (event.exec g).2.Solvent ∧
    (event.exec g).2.wealth + (if isPaid { event := event, before := g } then 1 else 0) ≤
      g.wealth := by
  have hEffect := exec_effect g event
  unfold isPaid Call.succeeds
  simp only
  generalize (event.exec g).1 = ok at hEffect ⊢
  generalize (event.exec g).2 = g' at hEffect ⊢
  cases hEffect with
  | nothing event hEvent =>
    refine ⟨h, ?_⟩
    cases event with
    | act a => exact (hEvent a rfl).elim
    | _ => simp
  | drawn random =>
    have hSame : Game.wealth { g with random := random } = g.wealth := rfl
    exact ⟨⟨h.budget_nonneg, h.board⟩, by simp [hSame]⟩
  | assigned name value =>
    have hSame : (g.modifyActor (·.assign name value)).wealth = g.wealth := by
      rw [wealth_modifyActor]
      change g.wealth - g.actor.budget + g.actor.budget = g.wealth
      omega
    exact ⟨h.modifyActor fun _ hBudget => hBudget, by simp [hSame]⟩
  | acted hEffect =>
    obtain ⟨hLe, hPaid⟩ := hEffect.wealth_le h
    refine ⟨h.act hEffect, ?_⟩
    cases ok with
    | false => simpa using hLe
    | true =>
      by_cases hBudget : 1 ≤ g.actor.budget
      · simpa [hBudget] using hPaid rfl hBudget
      · simpa [hBudget] using hLe

theorem Solvent.calls {cs : List (Call Game)} (h : g.Solvent) (hLinked : Linked g cs g') :
    g'.Solvent ∧ g'.wealth + (cs.countP isPaid : Int) ≤ g.wealth := by
  induction hLinked with
  | nil g => exact ⟨h, by simp⟩
  | cons event _ ih =>
    obtain ⟨hSolvent, hCall⟩ := h.call event
    obtain ⟨hSolvent', hRest⟩ := ih hSolvent
    refine ⟨hSolvent', ?_⟩
    rw [List.countP_cons]
    split
    · rw [if_pos ‹_›] at hCall
      omega
    · rw [if_neg ‹_›] at hCall
      omega

end Game

end CityCrew
