import Mathlib.Algebra.Order.BigOperators.Group.List
import CityCrew.Proofs.MatchReport
import CityCrew.Proofs.MatchWealth

/-!
# The total of the deposits

The deposits of a player are added up in plain words. No deposit is negative, so the sums only grow
on the way, and there is a total just if it is a word itself. It is in a game with moderate settings.
But a region may be allowed to hold as much as `maxAmount`, and then two regions can hold more, and
the program stops.
-/

namespace CityCrew

namespace Territory

variable {t : Territory} {owner : PlayerId}

def holdings (t : Territory) (owner : PlayerId) : Int :=
  ((t.ownedBy owner).map (·.deposit)).sum

/-- A sum that has left the words by growing does not come back. -/
theorem foldlM_deposits {rs : List Region} (hNonneg : ∀ r ∈ rs, 0 ≤ r.deposit) {total : Int}
    (hTotal : 0 ≤ total) (hWord : IsWord total) :
    rs.foldlM (fun total r => word? (total + r.deposit)) total =
      word? (total + (rs.map (·.deposit)).sum) := by
  induction rs generalizing total with
  | nil =>
    rw [List.map_nil, List.sum_nil, Int.add_zero, word?, if_pos hWord]
    rfl
  | cons r rs ih =>
    obtain ⟨hDeposit, hNonneg⟩ := List.forall_mem_cons.mp hNonneg
    rw [List.foldlM_cons, List.map_cons, List.sum_cons, ← Int.add_assoc]
    by_cases hNext : IsWord (total + r.deposit)
    · have hStep : word? (total + r.deposit) = some (total + r.deposit) := if_pos hNext
      rw [hStep]
      exact ih hNonneg (by omega) hNext
    · have hStep : word? (total + r.deposit) = none := if_neg hNext
      have hRest : 0 ≤ (rs.map (·.deposit)).sum := by
        apply List.sum_nonneg
        intro deposit hMem
        obtain ⟨s, hs, rfl⟩ := List.mem_map.mp hMem
        exact hNonneg s hs
      have hLast : ¬ IsWord (total + r.deposit + (rs.map (·.deposit)).sum) := by
        unfold IsWord at *
        have hMax : 0 ≤ maxAmount := by decide
        omega
      rw [hStep, word?, if_neg hLast]
      rfl

theorem Solvent.deposit_nonneg (h : t.Solvent) {r : Region} (hr : r ∈ t.ownedBy owner) :
    0 ≤ r.deposit := by
  exact (h r (Array.mem_toList_iff.mp (List.mem_of_mem_filter hr))).1

theorem Solvent.holdings_nonneg (h : t.Solvent) (owner : PlayerId) : 0 ≤ t.holdings owner := by
  apply List.sum_nonneg
  intro deposit hMem
  obtain ⟨r, hr, rfl⟩ := List.mem_map.mp hMem
  exact h.deposit_nonneg hr

theorem Solvent.totalDeposit?_eq (h : t.Solvent) (owner : PlayerId) : t.totalDeposit? owner =
    if t.holdings owner ≤ maxAmount then some (t.holdings owner) else none := by
  have hNonneg : ∀ r ∈ t.ownedBy owner, 0 ≤ r.deposit := fun _ => h.deposit_nonneg
  have hSum := foldlM_deposits hNonneg (Int.le_refl 0) (by decide)
  have hWord : IsWord (t.holdings owner) ↔ t.holdings owner ≤ maxAmount := by
    have hHeld := h.holdings_nonneg owner
    unfold IsWord maxAmount
    omega
  rw [Int.zero_add] at hSum
  rw [totalDeposit?, hSum, word?]
  exact if_congr hWord rfl rfl

theorem Solvent.totalDeposit?_eq_some_iff (h : t.Solvent) {owner : PlayerId} {total : Int} :
    t.totalDeposit? owner = some total ↔
      t.holdings owner ≤ maxAmount ∧ total = t.holdings owner := by
  rw [h.totalDeposit?_eq, Option.ite_none_right_eq_some, Option.some.injEq, eq_comm (a := total)]

theorem Solvent.holdings_le_wealth (h : t.Solvent) (owner : PlayerId) :
    t.holdings owner ≤ t.wealth := by
  apply List.Sublist.sum_le_sum (List.filter_sublist.map _)
  intro deposit hMem
  obtain ⟨r, hr, rfl⟩ := List.mem_map.mp hMem
  exact (h r (Array.mem_toList_iff.mp hr)).1

end Territory

namespace Game

variable {g : Game} {id : PlayerId}

theorem Solvent.holdings_le_wealth (h : g.Solvent) (id : PlayerId) :
    g.territory.holdings id ≤ g.wealth := by
  have hBudgets : 0 ≤ (g.players.map (·.budget)).sum := by
    apply List.sum_nonneg
    intro budget hMem
    obtain ⟨p, hp, rfl⟩ := List.mem_map.mp hMem
    exact h.budget_nonneg p hp
  have hBoard := h.board.holdings_le_wealth id
  unfold wealth
  omega

/-- The board holds as much as fits. -/
theorem Sound.wealth_territory_le (h : g.Sound) :
    g.territory.wealth ≤ g.territory.regions.size * g.settings.maxDep := by
  have hEach : ∀ deposit ∈ g.territory.regions.toList.map (·.deposit),
      deposit ≤ g.settings.maxDep := by
    intro deposit hMem
    obtain ⟨r, hr, rfl⟩ := List.mem_map.mp hMem
    exact (h.board.region_of_mem (Array.mem_toList_iff.mp hr)).deposit_le
  have hSum := List.sum_le_card_nsmul _ _ hEach
  rwa [List.length_map, Array.length_toList, nsmul_eq_mul] at hSum

def endowment (g : Game) : Int :=
  g.players.length * (g.settings.initBudget + g.settings.initCenterDep)

theorem endowment_eq {g' : Game} (hSettings : g'.settings = g.settings)
    (hLength : g'.players.length = g.players.length) : g'.endowment = g.endowment := by
  rw [endowment, endowment, hSettings, hLength]

theorem Reachable.frugal (h : Reachable g) :
    g.settings.interestPct = 0 → g.Frugal g.endowment := by
  apply h.forall_of_steps (P := fun g => g.settings.interestPct = 0 → g.Frugal g.endowment)
  · intro settings names seed g hSettings hCreate hPct
    obtain ⟨_, _, _, _, _, _, _, hStart⟩ := of_create_eq_ok hCreate
    have hSame := (of_start_eq_ok hStart).2.1
    rw [endowment, hSame, (orderly_create hCreate).2.1]
    exact frugal_create hSettings (hSame ▸ hPct) hCreate
  · intro g hg hPct
    obtain ⟨crew, hCrew⟩ := snd_run_beginTurn g
    rw [hCrew] at hPct
    have hBegun := (hg hPct).beginTurn
    rw [hCrew] at hBegun ⊢
    exact hBegun
  · intro event g hg hPct
    have hEffect := exec_effect g event
    rw [hEffect.frame.1] at hPct
    rw [endowment_eq hEffect.frame.1 hEffect.spares.length_eq]
    exact .exec event g (hg hPct)
  · intro g hg hPct
    rw [settings_endTurn] at hPct
    rw [endowment_eq (settings_endTurn g) (KeepsOut.endTurn g).length_eq]
    exact (hg hPct).endTurn

/-- The settings leave no player room for more than `maxAmount`. -/
def Moderate (g : Game) : Prop :=
  g.territory.regions.size * g.settings.maxDep ≤ maxAmount ∨
    g.settings.interestPct = 0 ∧ g.endowment ≤ maxAmount

theorem Reachable.holdings_le (h : Reachable g) (hModerate : g.Moderate) (id : PlayerId) :
    g.territory.holdings id ≤ maxAmount := by
  have hSolvent := h.sound.solvent
  rcases hModerate with hRoom | ⟨hPct, hEndowment⟩
  · have hBoard := hSolvent.board.holdings_le_wealth id
    have hWealth := h.sound.wealth_territory_le
    omega
  · have hGame := hSolvent.holdings_le_wealth id
    have hWealth := (h.frugal hPct).wealth_le
    omega

end Game

namespace Match

variable {m : Match} {turns : List PlayedTurn} {maxTurns : Int} {seed : UInt64}
  {report : MatchResult}

theorem Booked.map_standings_deposit (h : Booked turns m) (hSolvent : m.game.territory.Solvent)
    (hReport : m.result maxTurns seed = .ok report) :
    (report.standings.map fun s => (s.id, s.deposit, s.score)) = m.game.players.map fun p =>
      (p.id, m.game.territory.holdings p.id,
        capped (p.budget + m.game.territory.holdings p.id)) := by
  apply h.map_standings hReport
  intro p _ s hs
  obtain ⟨total, hTotal, rfl⟩ := standing?_eq_some_iff.mp hs
  obtain ⟨-, rfl⟩ := hSolvent.totalDeposit?_eq_some_iff.mp hTotal
  rfl

/-- All players have an entry if all the totals are words. -/
theorem Booked.exists_standings_iff (h : Booked turns m) (hSolvent : m.game.territory.Solvent) :
    (∃ standings, m.standings? = some standings) ↔
      ∀ p ∈ m.game.players, m.game.territory.holdings p.id ≤ maxAmount := by
  constructor
  · rintro ⟨standings, hStandings⟩ p hp
    rw [h.standings?_eq_some_iff] at hStandings
    have hEntry := List.mem_map_of_mem
      (f := fun p => standing? m.game.territory p (recordOf turns p.id)) hp
    rw [hStandings] at hEntry
    obtain ⟨s, -, hs⟩ := List.mem_map.mp hEntry
    obtain ⟨total, hTotal, -⟩ := standing?_eq_some_iff.mp hs.symm
    exact (hSolvent.totalDeposit?_eq_some_iff.mp hTotal).1
  · intro hTotals
    refine ⟨m.game.players.map fun p => {
      id := p.id
      budget := p.budget
      regions := (m.game.territory.ownedBy p.id).length
      deposit := m.game.territory.holdings p.id
      halted := (recordOf turns p.id).halted
      eliminated := (recordOf turns p.id).eliminated }, ?_⟩
    rw [h.standings?_eq_some_iff, List.map_map]
    refine List.map_congr_left fun p hp => ?_
    exact standing?_eq_some_iff.mpr
      ⟨_, hSolvent.totalDeposit?_eq_some_iff.mpr ⟨hTotals p hp, rfl⟩, rfl⟩

theorem exists_result_iff (hRuns : m.overflowed = false) :
    (∃ report, m.result maxTurns seed = .ok report) ↔
      ∃ standings, m.standings? = some standings := by
  constructor
  · rintro ⟨report, hReport⟩
    exact ⟨_, (of_result_eq_ok hReport).2.1⟩
  · rintro ⟨standings, hStandings⟩
    rw [result, if_neg (by simp [hRuns]), hStandings]
    exact ⟨_, rfl⟩

/-- Wherever a game is looked at, the total of a player is the exact sum, if that is a word, and stops
the program otherwise. With moderate settings it always is a word. A match ends in such a game. Every
report gives the exact sums, and scores that are capped at the end only; and if nothing else has
stopped the match, there is a report just if every sum is a word. -/
theorem totals_exact_within_words (g : Game) (id : PlayerId) (h : Game.Reachable g) :
    (g.territory.totalDeposit? id = if g.territory.holdings id ≤ maxAmount then
      some (g.territory.holdings id) else none) ∧
    (g.Moderate → g.territory.holdings id ≤ maxAmount) ∧
    ∀ (contestants : List Contestant) (settings : Settings) (maxTurns : Int) (seed : UInt64)
      (first last : Match), settings.validate = .ok () →
      start contestants settings seed = .ok first → first.play maxTurns = last →
      Game.Reachable last.game ∧
      (∀ report, playMatch contestants settings maxTurns seed = .ok report →
        (report.standings.map fun s => (s.id, s.deposit, s.score)) = last.game.players.map fun p =>
          (p.id, last.game.territory.holdings p.id,
            capped (p.budget + last.game.territory.holdings p.id))) ∧
      (last.overflowed = false →
        ((∃ report, playMatch contestants settings maxTurns seed = .ok report) ↔
          ∀ p ∈ last.game.players, last.game.territory.holdings p.id ≤ maxAmount)) := by
  have hSolvent := h.sound.solvent.board
  refine ⟨hSolvent.totalDeposit?_eq id, fun hModerate => h.holdings_le hModerate id, ?_⟩
  rintro contestants settings maxTurns seed first _ hSettings hStart rfl
  have hBetween := betweenTurns_play hSettings hStart maxTurns
  have hLast := hBetween.ready.sound.solvent.board
  obtain ⟨turns, hPlayed, -, hResult⟩ := exists_played_of_start hStart maxTurns
  have hBooks := hPlayed.booked (inOrder_start hStart).1 (booked_start hStart)
  rw [hResult]
  refine ⟨.betweenTurns hBetween, fun report => hBooks.map_standings_deposit hLast, fun hRuns => ?_⟩
  rw [exists_result_iff hRuns, hBooks.exists_standings_iff hLast]

/-- In a duel all totals are exact, in the report as well. -/
theorem duel_totals_exact : ∃ m report,
    start Game.duelContestants Game.duelSettings 7 = .ok m ∧
    (m.play 3).game.territory.totalDeposit? 1 = some ((m.play 3).game.territory.holdings 1) ∧
    playMatch Game.duelContestants Game.duelSettings 3 7 = .ok report ∧
    (report.standings.map fun s => (s.id, s.deposit, s.score)) = (m.play 3).game.players.map fun p =>
      (p.id, (m.play 3).game.territory.holdings p.id,
        capped (p.budget + (m.play 3).game.territory.holdings p.id)) := by
  obtain ⟨m, hStart, hRuns⟩ := Game.exists_eq_ok_of_any
    (r := start Game.duelContestants Game.duelSettings 7) (P := fun m => !(m.play 3).overflowed)
    (by decide +kernel)
  have hRuns : (m.play 3).overflowed = false := by simpa using hRuns
  have hBetween := betweenTurns_play rfl hStart 3
  have hFrugal : Game.Frugal (2 * (10000 + 100)) (m.play 3).game :=
    game_playOn (fun _ _ _ _ h => h.playTurn) 3 _ (Game.frugal_create rfl rfl (of_start_eq_ok hStart))
  have hTotals : ∀ id, (m.play 3).game.territory.holdings id ≤ maxAmount := by
    intro id
    have hHoldings := hFrugal.solvent.holdings_le_wealth id
    have hWealth := hFrugal.wealth_le
    have hMax : maxAmount = 9223372036854775807 := rfl
    omega
  obtain ⟨hExact, _, hMatches⟩ := totals_exact_within_words _ 1 (.betweenTurns hBetween)
  obtain ⟨_, hReports, hReported⟩ :=
    hMatches Game.duelContestants Game.duelSettings 3 7 m _ rfl hStart rfl
  obtain ⟨report, hPlay⟩ := (hReported hRuns).mpr fun p _ => hTotals p.id
  rw [if_pos (hTotals 1)] at hExact
  exact ⟨m, report, hStart, hExact, hPlay, hReports report hPlay⟩

def boundlessSettings : Settings where
  rows := 2
  cols := 2
  initCenterDep := maxAmount
  maxDep := maxAmount

def expansionPlan : Plan where
  statements := [.act (.move .down), .act (.invest (.number 1))]

def expansionContestants : List Contestant :=
  [{ name := "a", plan := expansionPlan }, { name := "b", plan := Game.idlePlan }]

/-- The total is no word, so asking for it stops the program. A match in which the first player does
this has no report. -/
theorem total_leaves_words : (∃ g, Game.Reachable g ∧
      g.territory.holdings 1 = 9223372036854775808 ∧ g.territory.totalDeposit? 1 = none) ∧
    playMatch expansionContestants boundlessSettings 1 7 = .error .overflow := by
  obtain ⟨g, hCreate, hGame⟩ := Game.exists_eq_ok_of_any
    (r := Game.create boundlessSettings ["a", "b"] 7)
    (P := fun g => !g.ended && (Game.beginTurn.run g).1 &&
      let s := (expansionPlan.run.run (Game.beginTurn.run g).2).2
      s.territory.holdings 1 == 9223372036854775808 && (s.territory.totalDeposit? 1).isNone)
    (by decide +kernel)
  simp only [Bool.and_eq_true, Bool.not_eq_true', beq_iff_eq, Option.isNone_iff_eq_none] at hGame
  obtain ⟨⟨hEnded, hBegun⟩, hHoldings, hNone⟩ := hGame
  have hNew : Game.BetweenTurns g := .create rfl hCreate
  refine ⟨⟨_, .afterRun hNew hEnded (Prod.ext hBegun rfl), hHoldings, hNone⟩, ?_⟩
  decide +kernel

end Match

end CityCrew
