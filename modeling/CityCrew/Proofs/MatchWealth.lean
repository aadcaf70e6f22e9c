import CityCrew.Proofs.MatchRun
import CityCrew.Proofs.Wealth

/-!
# The wealth of a match

Between two runs of plans only interest makes wealth. If none is paid, a match ends with no more
than what the players were given at its start.
-/

namespace CityCrew

namespace Game

variable {g g' : Game}

theorem capacity_grown (r : Region) : (g.grown r).capacity = r.capacity := by
  unfold grown
  split
  · exact Region.capacity_deposited
  · rfl

/-- Interest of nothing leaves a deposit as it is. -/
theorem deposit_grown_eq (hPct : g.settings.interestPct = 0) {r : Region} (hNonneg : 0 ≤ r.deposit)
    (hLe : r.deposit ≤ r.capacity) : (g.grown r).deposit = r.deposit := by
  unfold grown
  split
  · rw [Settings.interest_eq_zero hPct, Region.deposit_deposited]
    omega
  · rfl

/-- A game without interest, with no more wealth in it than `bound`. -/
structure Frugal (bound : Int) (g : Game) : Prop where
  solvent : g.Solvent
  interestPct_eq : g.settings.interestPct = 0
  wealth_le : g.wealth ≤ bound

namespace Frugal

variable {bound : Int}

theorem of_eq (h : g.Frugal bound) (g' : Game) (hSettings : g'.settings = g.settings)
    (hPlayers : g'.players = g.players) (hTerritory : g'.territory = g.territory) :
    g'.Frugal bound := by
  refine ⟨⟨?_, ?_⟩, ?_, ?_⟩
  · rw [hPlayers]
    exact h.solvent.budget_nonneg
  · rw [hTerritory]
    exact h.solvent.board
  · rw [hSettings]
    exact h.interestPct_eq
  · rw [wealth, hPlayers, hTerritory]
    exact h.wealth_le

theorem exec (event : Event) (g : Game) (h : g.Frugal bound) : (event.exec g).2.Frugal bound := by
  obtain ⟨hSolvent, hWealth⟩ := h.solvent.call event
  have hBound := h.wealth_le
  refine ⟨hSolvent, ?_, ?_⟩
  · rw [(exec_effect g event).frame.1]
    exact h.interestPct_eq
  · split at hWealth <;> omega

theorem run (h : g.Frugal bound) (plan : Plan) : (plan.run.run g).2.Frugal bound :=
  ((plan.linked_calls g).forall_of_step exec h).1

theorem beginTurn (h : g.Frugal bound) : (beginTurn.run g).2.Frugal bound := by
  obtain ⟨crew, hCrew⟩ := snd_run_beginTurn g
  rw [hCrew]
  exact h.of_eq _ rfl rfl rfl

theorem sweepOut (h : g.Frugal bound) : g.sweepOut.Frugal bound := by
  have hBudgets : g.sweepOut.players.map (·.budget) = g.players.map (·.budget) := by
    simp only [Game.sweepOut, mapPlayers, List.map_map]
    apply List.map_congr_left
    intro p _
    simp only [Function.comp_apply]
    split <;> rfl
  have hWealth : g.sweepOut.wealth = g.wealth := by
    rw [wealth, wealth, hBudgets]
    rfl
  refine ⟨⟨?_, h.solvent.board⟩, h.interestPct_eq, by rw [hWealth]; exact h.wealth_le⟩
  intro p hp
  obtain ⟨q, hq, rfl⟩ := List.mem_map.mp hp
  have hBudget := h.solvent.budget_nonneg q hq
  split
  · exact hBudget
  · exact hBudget

theorem deposit_grown (h : g.Frugal bound) {r : Region} (hr : r ∈ g.territory.regions) :
    (g.grown r).deposit = r.deposit := by
  obtain ⟨hNonneg, hLe⟩ := h.solvent.board r hr
  exact deposit_grown_eq h.interestPct_eq hNonneg hLe

theorem nextRound (h : g.Frugal bound) : g.nextRound.Frugal bound := by
  have hRegions : g.nextRound.territory.regions = g.territory.regions.map g.grown := rfl
  have hDeposits : g.nextRound.territory.wealth = g.territory.wealth := by
    rw [Territory.wealth, Territory.wealth, hRegions, Array.toList_map, List.map_map]
    congr 1
    apply List.map_congr_left
    intro r hr
    exact h.deposit_grown (Array.mem_toList_iff.mp hr)
  have hWealth : g.nextRound.wealth = g.wealth := by
    rw [wealth, wealth, hDeposits]
    rfl
  refine ⟨⟨h.solvent.budget_nonneg, ?_⟩, h.interestPct_eq, by rw [hWealth]; exact h.wealth_le⟩
  intro s hs
  rw [hRegions] at hs
  obtain ⟨r, hr, rfl⟩ := Array.mem_map.mp hs
  rw [h.deposit_grown hr, capacity_grown]
  exact h.solvent.board r hr

theorem withCurrent (h : g.Frugal bound) (i : Nat) : (g.withCurrent i).Frugal bound := by
  unfold Game.withCurrent
  split
  · exact h.of_eq _ rfl rfl rfl
  · exact h

theorem endTurn (h : g.Frugal bound) : g.endTurn.Frugal bound := by
  cases hEnded : g.ended with
  | true =>
    rwa [endTurn_of_ended hEnded]
  | false =>
    rcases endTurn_cases hEnded with
      ⟨_, hEnd⟩ | ⟨last, _, hEnd⟩ | ⟨i, _, _, _, hNext | hNext⟩
    · rw [hEnd]
      exact h.sweepOut.of_eq _ rfl rfl rfl
    · rw [hEnd]
      exact h.sweepOut.of_eq _ rfl rfl rfl
    · rw [hNext]
      exact h.sweepOut.withCurrent i
    · rw [hNext]
      exact h.sweepOut.nextRound.withCurrent i

theorem playTurn {plan : Plan} {flow : Flow} (h : g.Frugal bound)
    (hPlay : g.playTurn plan = .ok (flow, g')) : g'.Frugal bound := by
  obtain ⟨_, hTurn⟩ := of_playTurn_eq_ok hPlay
  rcases hTurn with ⟨_, _, rfl⟩ | ⟨_, _, rfl⟩
  · exact (h.beginTurn.run plan).endTurn
  · exact h.beginTurn.endTurn

end Frugal

/-- Every city center is founded with one first deposit, or less if the region holds less. -/
theorem wealth_foundCenters_le {t : Territory} {deposit : Int} (ht : t.Solvent)
    (hDeposit : 0 ≤ deposit) (id : PlayerId) (centers : List Point) :
    (foundCenters deposit id centers t).Solvent ∧
      (foundCenters deposit id centers t).wealth ≤ t.wealth + centers.length * deposit := by
  induction centers generalizing t id with
  | nil => exact ⟨ht, by simp [foundCenters]⟩
  | cons center rest ih =>
    have hSolvent : (t.modify center fun r => (r.withCityCenter id).deposited deposit).Solvent := by
      intro s hs
      rcases Territory.mem_regions_modify hs with hs | ⟨r, hr, rfl⟩
      · exact ht s hs
      · obtain ⟨hNonneg, hLe⟩ := ht r (Territory.mem_regions_of_get? hr)
        exact deposited_in_range (r := r.withCityCenter id) (Int.le_trans hNonneg hLe)
    have hWealth : (t.modify center fun r => (r.withCityCenter id).deposited deposit).wealth ≤
        t.wealth + deposit := by
      apply Territory.wealth_modify_le hDeposit
      intro r hr
      have hNonneg := (ht r (Territory.mem_regions_of_get? hr)).1
      exact deposit_deposited_le (r := r.withCityCenter id) (show 0 ≤ r.deposit + deposit by omega)
    obtain ⟨hSolvent', hRest⟩ := ih hSolvent (id + 1)
    refine ⟨hSolvent', ?_⟩
    have hLength : ((rest.length + 1 : Nat) : Int) * deposit = rest.length * deposit + deposit := by
      rw [Int.natCast_succ, Int.add_mul, Int.one_mul]
    rw [foundCenters, List.length_cons, hLength]
    omega

theorem wealth_vacant? {rows cols capacity : Int} {t : Territory}
    (h : Territory.vacant? rows cols capacity = some t) (hCapacity : 0 ≤ capacity) :
    t.Solvent ∧ t.wealth = 0 := by
  have hSound := sound_vacant? h hCapacity
  have hVacant : ∀ r ∈ t.regions, r.deposit = 0 := by
    intro r hr
    rw [Territory.get?_vacant? h (hSound.regular.mem_regions_iff.mp hr)]
    rfl
  constructor
  · exact fun r hr => (hSound.region_of_mem hr).in_range
  · rw [Territory.wealth]
    apply List.sum_eq_zero
    intro deposit hDeposit
    obtain ⟨r, hr, rfl⟩ := List.mem_map.mp hDeposit
    exact hVacant r (Array.mem_toList_iff.mp hr)

theorem frugal_create {settings : Settings} {names : List String} {seed : UInt64}
    (hSettings : settings.validate = .ok ()) (hPct : settings.interestPct = 0)
    (h : create settings names seed = .ok g) :
    g.Frugal (names.length * (settings.initBudget + settings.initCenterDep)) := by
  have hPlayable := Settings.playable_of_validate hSettings
  have hMaxDep := hPlayable.maxDep_pos
  have hCenterDep := hPlayable.initCenterDep_pos
  have hBudget := hPlayable.initBudget_nonneg
  obtain ⟨_, _, board, centers, random, hBoard, hPlaced, hStart⟩ := of_create_eq_ok h
  obtain ⟨_, hg, ht, hPlayers, _⟩ := of_start_eq_ok hStart
  obtain ⟨hSolvent, hZero⟩ := wealth_vacant? hBoard (by omega)
  obtain ⟨_, hFounded⟩ := wealth_foundCenters_le hSolvent
    (show 0 ≤ settings.initCenterDep by omega) 1 centers
  have hEach : ∀ b ∈ g.players.map (·.budget), b = settings.initBudget := by
    rw [hPlayers, seated, List.map_map]
    intro b hb
    obtain ⟨⟨name, i⟩, _, rfl⟩ := List.mem_map.mp hb
    exact Int.max_eq_right hBudget
  have hBudgets : (g.players.map (·.budget)).sum = names.length * settings.initBudget := by
    rw [List.sum_eq_card_nsmul _ _ hEach, nsmul_eq_mul, hPlayers, seated]
    simp only [List.length_map, List.length_zipIdx]
  have hCenters : (centers.length : Int) * settings.initCenterDep ≤
      names.length * settings.initCenterDep :=
    Int.mul_le_mul_of_nonneg_right (Int.ofNat_le.mpr (length_centers_le hPlaced)) (by omega)
  refine ⟨(ready_create hSettings h).sound.solvent, by rw [hg, hPct], ?_⟩
  rw [wealth, hBudgets, ht, Int.mul_add]
  omega

/-- No plan makes wealth, from wherever it runs, and each action that is paid for takes the fee out
of the game. So a match without interest ends with no more than the players were given. -/
theorem plans_make_no_wealth :
    (∀ (g : Game) (plan : Plan), Reachable g →
      (plan.run.run g).2.wealth + ((plan.calls g).countP isPaid : Int) ≤ g.wealth) ∧
    ∀ (contestants : List Contestant) (settings : Settings) (seed : UInt64) (m : Match)
      (maxTurns : Int), settings.validate = .ok () → settings.interestPct = 0 →
      Match.start contestants settings seed = .ok m →
      (m.play maxTurns).game.wealth ≤
        contestants.length * (settings.initBudget + settings.initCenterDep) := by
  constructor
  · intro g plan h
    exact (h.sound.solvent.calls (plan.linked_calls g)).2
  · intro contestants settings seed m maxTurns hSettings hPct hStart
    have hNew := frugal_create hSettings hPct (Match.of_start_eq_ok hStart)
    rw [List.length_map] at hNew
    exact (Match.game_playOn (fun _ _ _ _ h => h.playTurn) maxTurns _ hNew).wealth_le

def duelContestants : List Contestant :=
  [{ name := "a", plan := duelPlan }, { name := "b", plan := duelPlan }]

theorem duel_makes_no_wealth : ∃ g m, create duelSettings ["a", "b"] 7 = .ok g ∧
    (duelPlan.run.run g).2.wealth + ((duelPlan.calls g).countP isPaid : Int) ≤ g.wealth ∧
    Match.start duelContestants duelSettings 7 = .ok m ∧
    (m.play 3).game.wealth ≤ 2 * (10000 + 100) := by
  obtain ⟨g, _, hCreate, _⟩ := exists_duel
  have hStart : Match.start duelContestants duelSettings 7 = .ok {
      contestants := duelContestants
      game := g
      records := duelContestants.map fun _ => {}
      eliminations := [] } := by
    have hNames : create duelSettings (duelContestants.map (·.name)) 7 = .ok g := hCreate
    have hFew : ¬ duelContestants.length < minPlayers := by decide
    have hMany : ¬ maxPlayers < duelContestants.length := by decide
    rw [Match.start, if_neg hFew, if_neg hMany, hNames]
    rfl
  have hNew : BetweenTurns g := .create rfl hCreate
  exact ⟨g, _, hCreate, plans_make_no_wealth.1 g duelPlan (.betweenTurns hNew), hStart,
    plans_make_no_wealth.2 duelContestants duelSettings 7 _ 3 rfl rfl hStart⟩

end Game

end CityCrew
