import CityCrew.Proofs.Ended
import CityCrew.Proofs.Founding
import CityCrew.Proofs.Totals

/-!
# Matches in which nobody acts

A plan without actions can ask and count as long as it likes, but it does nothing to the board or to
the budgets. If all plans of a match are like that, nobody is ever put out. The match uses up its
rounds, and in the end everybody has the first budget and the one region of the start, whose deposit
only interest can have changed. Only the counters can stop it: there has to be a number for the round
after the last one, and one for the turns that `done` ends.
-/

namespace CityCrew

theorem Territory.length_ownedBy (t : Territory) (id : PlayerId) :
    (t.ownedBy id).length = (t.regions.toList.filterMap (·.owner)).count id := by
  rw [ownedBy, ← List.countP_eq_length_filter, List.count, List.countP_filterMap]
  apply List.countP_congr
  intro r _
  rw [Region.isOwnedBy]
  cases r.owner <;> simp

structure Standing.Untouched (settings : Settings) (s : Standing) : Prop where
  budget_eq : s.budget = settings.initBudget
  regions_eq : s.regions = 1
  deposit_ge : settings.initCenterDep ≤ s.deposit
  deposit_le : s.deposit ≤ settings.maxDep
  deposit_eq : settings.interestPct = 0 → s.deposit = settings.initCenterDep

section Flow

variable {σ : Type}

mutual

def Stmt.hasDone : Stmt → Bool
  | assign _ _ _ => false
  | block body => Stmt.anyDone body
  | ifThenElse _ thenBranch elseBranch => thenBranch.hasDone || elseBranch.hasDone
  | whileDo _ body => body.hasDone
  | done => true
  | act _ => false

def Stmt.anyDone : List Stmt → Bool
  | [] => false
  | first :: rest => first.hasDone || Stmt.anyDone rest

end

def Plan.hasDone (p : Plan) : Bool :=
  Stmt.anyDone p.statements

/-- Whatever the world, `m` does not end the plan. -/
def Proceeds (m : StateM σ Flow) : Prop :=
  ∀ w, (m.run w).1 = .proceed

namespace Proceeds

theorem pure : Proceeds (return .proceed : StateM σ Flow) :=
  fun _ => rfl

theorem bind {α : Type} {m : StateM σ α} {next : α → StateM σ Flow} (h : ∀ a, Proceeds (next a)) :
    Proceeds (m >>= next) :=
  fun _ => h _ _

theorem bind_flow {m : StateM σ Flow} {next : Flow → StateM σ Flow} (hm : Proceeds m)
    (h : Proceeds (next .proceed)) : Proceeds (m >>= next) := by
  intro w
  rw [StateT.run_bind]
  change ((next (m.run w).1).run (m.run w).2).1 = .proceed
  rw [hm w]
  exact h _

theorem ite {c : Prop} [Decidable c] {m n : StateM σ Flow} (hm : Proceeds m) (hn : Proceeds n) :
    Proceeds (if c then m else n) := by
  split
  · exact hm
  · exact hn

end Proceeds

theorem Stmt.proceeds_loop {guard : StateM σ Value} {body : StateM σ Flow} (hBody : Proceeds body)
    (n : Nat) : Proceeds (loop guard body n) := by
  induction n with
  | zero => exact .pure
  | succ n ih => exact .bind fun _ => .ite (.bind_flow hBody ih) .pure

variable [Host σ]

mutual

/-- Nothing but `done` or an action can end a plan early. -/
theorem Stmt.proceeds_run (s : Stmt) (hActions : s.actions = []) (hDone : s.hasDone = false) :
    Proceeds (s.run : StateM σ Flow) := by
  cases s with
  | assign name value line =>
    rw [Stmt.run]
    exact .bind fun _ => .bind fun _ => .pure
  | block body =>
    rw [Stmt.actions] at hActions
    rw [Stmt.hasDone] at hDone
    rw [Stmt.run]
    exact Stmt.proceeds_runAll body hActions hDone
  | ifThenElse guard thenBranch elseBranch =>
    rw [Stmt.actions, List.append_eq_nil_iff] at hActions
    rw [Stmt.hasDone, Bool.or_eq_false_iff] at hDone
    rw [Stmt.run]
    exact .bind fun _ => .ite (thenBranch.proceeds_run hActions.1 hDone.1)
      (elseBranch.proceeds_run hActions.2 hDone.2)
  | whileDo guard body =>
    rw [Stmt.actions] at hActions
    rw [Stmt.hasDone] at hDone
    rw [Stmt.run]
    exact Stmt.proceeds_loop (body.proceeds_run hActions hDone) maxRounds
  | done => cases hDone
  | act action => cases hActions

theorem Stmt.proceeds_runAll (body : List Stmt) (hActions : Stmt.allActions body = [])
    (hDone : Stmt.anyDone body = false) : Proceeds (Stmt.runAll body : StateM σ Flow) := by
  cases body with
  | nil =>
    rw [Stmt.runAll]
    exact .pure
  | cons first rest =>
    rw [Stmt.allActions, List.append_eq_nil_iff] at hActions
    rw [Stmt.anyDone, Bool.or_eq_false_iff] at hDone
    rw [Stmt.runAll]
    exact .bind_flow (first.proceeds_run hActions.1 hDone.1)
      (Stmt.proceeds_runAll rest hActions.2 hDone.2)

end

end Flow

namespace Game

variable {g g' s : Game} {settings : Settings} {plan : Plan} {flow : Flow}

theorem SameResult.lookup (h : SameResult g s) (name : String) :
    SameResult g ((Game.lookup name).run s).2 := by
  rcases snd_run_lookup s name with hSame | ⟨-, hDrawn⟩
  · rw [hSame]
    exact h
  · rw [hDrawn, snd_run_drawRandom]
    exact { h with }

theorem sameResult_run (hActions : plan.actions = []) (start : Game) :
    SameResult start (plan.run.run start).2 :=
  plan.preserves_run_of_no_actions hActions (fun name _ hs => hs.lookup name) (fun _ hs => hs)
    (fun _ _ hs => hs) (fun name value _ hs => hs.assign name value) (.refl start)

theorem flow_eq_proceed (hReady : g.Ready) (hActions : plan.actions = [])
    (hDone : plan.hasDone = false) (hPlay : g.playTurn plan = .ok (flow, g')) : flow = .proceed := by
  obtain ⟨hEnded, ⟨-, rfl, -⟩ | ⟨hFalse, -⟩⟩ := of_playTurn_eq_ok hPlay
  · exact Stmt.proceeds_runAll plan.statements hActions hDone _
  · rw [(hReady.beginTurn hEnded).1] at hFalse
    cases hFalse

/-- Everybody has the first budget and one region, with the first deposit or more. Without interest
it cannot be more. -/
structure Untouched (settings : Settings) (g : Game) : Prop where
  settings_eq : g.settings = settings
  ended_eq : g.ended = false
  two_players : 2 ≤ g.players.length
  player : ∀ p ∈ g.players, p.alive = true ∧ p.budget = settings.initBudget
  owners_perm : (g.territory.regions.toList.filterMap (·.owner)).Perm (g.players.map (·.id))
  owned : ∀ r ∈ g.territory.regions, r.owner ≠ none → r.cityCenter = true ∧
    settings.initCenterDep ≤ r.deposit ∧
    (settings.interestPct = 0 → r.deposit = settings.initCenterDep)

theorem deposit_le_grown (hPct : 0 ≤ g.settings.interestPct) {r : Region}
    (hNonneg : 0 ≤ r.deposit) (hLe : r.deposit ≤ r.capacity) :
    r.deposit ≤ (g.grown r).deposit := by
  have hInterest := Settings.interest_nonneg hPct hNonneg g.turn
  unfold grown
  split
  · rw [Region.deposit_deposited]
    omega
  · exact Int.le_refl _

namespace Untouched

theorem create {names : List String} {seed : UInt64} (hSettings : settings.validate = .ok ())
    (h : create settings names seed = .ok g) : g.Untouched settings := by
  have hFounded := founded_create hSettings h
  obtain ⟨hTwo, -⟩ := of_create_eq_ok h
  exact {
    settings_eq := hFounded.settings_eq
    ended_eq := hFounded.undecided.2
    two_players := by
      rw [(orderly_create h).2.1]
      exact hTwo
    player := fun p hp => ⟨(hFounded.player p hp).1, (hFounded.player p hp).2.1⟩
    owners_perm := hFounded.owners_perm
    owned := fun r hr hOwner => by
      obtain ⟨hCenter, hDeposit⟩ := hFounded.owned r hr hOwner
      exact ⟨hCenter, Int.le_of_eq hDeposit.symm, fun _ => hDeposit⟩ }

theorem of_sameResult (h : g.Untouched settings) (hSame : SameResult g s) :
    s.Untouched settings := by
  obtain ⟨bindings, hPlayers⟩ := hSame.players_eq
  constructor
  case settings_eq => exact hSame.settings_eq.trans h.settings_eq
  case ended_eq => exact hSame.ended_eq.trans h.ended_eq
  case two_players =>
    rw [hPlayers, List.length_modify]
    exact h.two_players
  case player =>
    intro p hp
    rw [hPlayers] at hp
    rcases mem_modify_cases hp with hp | ⟨q, hq, rfl⟩
    · exact h.player p hp
    · exact h.player q hq
  case owners_perm =>
    have hIds : s.players.map (·.id) = g.players.map (·.id) := by
      rw [hPlayers]
      exact map_modify_of_eq _ _ fun _ => rfl
    rw [hSame.territory_eq, hIds]
    exact h.owners_perm
  case owned =>
    rw [hSame.territory_eq]
    exact h.owned

theorem exists_region (h : g.Untouched settings) {p : Player} (hp : p ∈ g.players) :
    ∃ r ∈ g.territory.regions, r.owner = some p.id := by
  have hMem := h.owners_perm.mem_iff.mpr (List.mem_map_of_mem (f := (·.id)) hp)
  obtain ⟨r, hr, hOwner⟩ := List.mem_filterMap.mp hMem
  exact ⟨r, Array.mem_toList_iff.mp hr, hOwner⟩

/-- With money and a city center, everybody stays. -/
theorem sweepOut_eq (h : g.Untouched settings) (hSound : g.Sound)
    (hBudget : 1 ≤ settings.initBudget) : g.sweepOut = g := by
  have hNobody : ∀ p ∈ g.players, g.isLost p = false := by
    intro p hp
    have hMoney := (h.player p hp).2
    obtain ⟨r, hr, hOwner⟩ := h.exists_region hp
    obtain ⟨hFlag, -⟩ := h.owned r hr (by simp [hOwner])
    have hCenter : (g.territory.cityCenterOf? p.id).isSome :=
      hSound.board.regular.cityCenterOf?_isSome_iff.mpr
        ⟨_, r, hSound.board.regular.mem_regions_iff.mp hr, hFlag, hOwner⟩
    rw [isLost, Bool.or_eq_false_iff, beq_eq_false_iff_ne, Option.isNone_eq_false_iff]
    exact ⟨by omega, hCenter⟩
  have hPlayers : g.sweepOut.players = g.players := by
    refine (List.map_congr_left fun p hp => ?_).trans (List.map_id g.players)
    simp [hNobody p hp]
  calc
    g.sweepOut = { g with players := g.sweepOut.players, current_lt := _ } := rfl
    _ = g := by simp only [hPlayers]

theorem withCurrent (h : g.Untouched settings) (i : Nat) :
    (g.withCurrent i).Untouched settings := by
  unfold Game.withCurrent
  split
  · exact { h with }
  · exact h

theorem nextRound (h : g.Untouched settings) (hSound : g.Sound) :
    g.nextRound.Untouched settings := by
  have hRegions : g.nextRound.territory.regions = g.territory.regions.map g.grown := rfl
  have hOwner : ∀ r ∈ g.territory.regions,
      (g.grown r).owner = r.owner ∧ (g.grown r).cityCenter = r.cityCenter :=
    fun r hr => owner_grown (hSound.board.region_of_mem hr) hSound.interestPct_nonneg
  -- Interest takes nothing away, so that no region runs empty and is lost.
  have hOwners : g.nextRound.territory.regions.toList.filterMap (·.owner) =
      g.territory.regions.toList.filterMap (·.owner) := by
    rw [hRegions, Array.toList_map, List.filterMap_map]
    exact List.filterMap_congr fun r hr => (hOwner r (Array.mem_toList_iff.mp hr)).1
  refine { h with owners_perm := hOwners ▸ h.owners_perm, owned := fun s hs hOwned => ?_ }
  rw [hRegions] at hs
  obtain ⟨r, hr, rfl⟩ := Array.mem_map.mp hs
  obtain ⟨hNonneg, hRoom⟩ := (hSound.board.region_of_mem hr).in_range
  obtain ⟨hSame, hFlag⟩ := hOwner r hr
  rw [hSame] at hOwned
  obtain ⟨hCenter, hLeast, hExact⟩ := h.owned r hr hOwned
  have hGrows := deposit_le_grown hSound.interestPct_nonneg hNonneg hRoom
  refine ⟨hFlag.trans hCenter, by omega, fun hPct => ?_⟩
  rw [deposit_grown_eq (h.settings_eq ▸ hPct) hNonneg hRoom]
  exact hExact hPct

theorem endTurn (h : g.Untouched settings) (hSound : g.Sound)
    (hBudget : 1 ≤ settings.initBudget) : g.endTurn.Untouched settings := by
  have hAll : g.players.filter (·.alive) = g.players :=
    List.filter_eq_self.mpr fun p hp => (h.player p hp).1
  have hTwo := h.two_players
  have hCases := endTurn_cases h.ended_eq
  rw [h.sweepOut_eq hSound hBudget, hAll] at hCases
  rcases hCases with ⟨hNobody, -⟩ | ⟨last, hLast, -⟩ | ⟨i, -, -, -, hNext | hNext⟩
  · rw [hNobody] at hTwo
    contradiction
  · rw [hLast] at hTwo
    contradiction
  · rw [hNext]
    exact h.withCurrent i
  · rw [hNext]
    exact (h.nextRound hSound).withCurrent i

theorem playTurn (h : g.Untouched settings) (hReady : g.Ready) (hBudget : 1 ≤ settings.initBudget)
    (hActions : plan.actions = []) (hPlay : g.playTurn plan = .ok (flow, g')) :
    g'.Untouched settings := by
  obtain ⟨hBegun, hUnderway⟩ := hReady.beginTurn h.ended_eq
  have hStart : (beginTurn.run g).2.Untouched settings := by
    obtain ⟨crew, hCrew⟩ := snd_run_beginTurn g
    rw [hCrew]
    exact { h with }
  obtain ⟨-, ⟨-, -, rfl⟩ | ⟨hFalse, -⟩⟩ := of_playTurn_eq_ok hPlay
  · have hRun := hStart.of_sameResult (sameResult_run hActions (beginTurn.run g).2)
    exact hRun.endTurn (hUnderway.run plan).1.sound hBudget
  · rw [hBegun] at hFalse
    cases hFalse

/-- Every player has one region and nothing else on the board. -/
theorem exists_ownedBy_eq (h : g.Untouched settings) (hSound : g.Sound) {p : Player}
    (hp : p ∈ g.players) : ∃ r, g.territory.ownedBy p.id = [r] ∧ r.deposit ≤ settings.maxDep ∧
      settings.initCenterDep ≤ r.deposit ∧
      (settings.interestPct = 0 → r.deposit = settings.initCenterDep) := by
  have hOne : (g.territory.ownedBy p.id).length = 1 := by
    rw [Territory.length_ownedBy, h.owners_perm.count_eq]
    exact List.count_eq_one_of_mem hSound.ids_nodup (List.mem_map_of_mem hp)
  obtain ⟨r, hr⟩ := List.length_eq_one_iff.mp hOne
  have hMem : r ∈ g.territory.ownedBy p.id := by
    rw [hr]
    exact List.mem_singleton_self r
  obtain ⟨hMem, hOwned⟩ := List.mem_filter.mp hMem
  have hRegion : r ∈ g.territory.regions := Array.mem_toList_iff.mp hMem
  have hOwner : r.owner = some p.id := beq_iff_eq.mp hOwned
  obtain ⟨-, hLeast, hExact⟩ := h.owned r hRegion (by simp [hOwner])
  exact ⟨r, hr, h.settings_eq ▸ (hSound.board.region_of_mem hRegion).deposit_le, hLeast, hExact⟩

theorem holdings_le (h : g.Untouched settings) (hSound : g.Sound)
    (hMaxDep : settings.maxDep ≤ maxAmount) {p : Player} (hp : p ∈ g.players) :
    g.territory.holdings p.id ≤ maxAmount := by
  obtain ⟨r, hOwned, hMost, -⟩ := h.exists_ownedBy_eq hSound hp
  rw [Territory.holdings, hOwned, List.map_singleton, List.sum_singleton]
  omega

theorem of_standing? (h : g.Untouched settings) (hSound : g.Sound) {p : Player} (hp : p ∈ g.players)
    {record : Match.Record} {s : Standing}
    (hs : Match.standing? g.territory p record = some s) : s.Untouched settings := by
  obtain ⟨total, hTotal, rfl⟩ := Match.standing?_eq_some_iff.mp hs
  obtain ⟨r, hOwned, hMost, hLeast, hExact⟩ := h.exists_ownedBy_eq hSound hp
  have hHoldings : g.territory.holdings p.id = r.deposit := by
    rw [Territory.holdings, hOwned, List.map_singleton, List.sum_singleton]
  obtain ⟨-, rfl⟩ := hSound.solvent.board.totalDeposit?_eq_some_iff.mp hTotal
  constructor
  case budget_eq => exact (h.player p hp).2
  case regions_eq => exact congrArg List.length hOwned
  case deposit_ge => exact hLeast.trans_eq hHoldings.symm
  case deposit_le => exact hHoldings.trans_le hMost
  case deposit_eq => exact fun hPct => hHoldings.trans (hExact hPct)

end Untouched

theorem turn_nextRound_le (h : g.turn ≤ maxAmount) : g.nextRound.turn ≤ maxAmount := by
  by_cases hWord : IsWord (g.turn + 1)
  · rw [nextRound_of_isWord hWord]
    exact hWord.2
  · rw [nextRound_of_not_isWord hWord]
    exact h

theorem turn_endTurn_le (h : g.turn ≤ maxAmount) : g.endTurn.turn ≤ maxAmount := by
  cases hEnded : g.ended with
  | true => rwa [endTurn_of_ended hEnded]
  | false =>
    rcases endTurn_cases hEnded with ⟨_, hEnd⟩ | ⟨_, _, hEnd⟩ | ⟨i, _, _, _, hNext | hNext⟩
    · rw [hEnd]
      exact h
    · rw [hEnd]
      exact h
    · rw [hNext, turn_withCurrent]
      exact h
    · rw [hNext, turn_withCurrent]
      exact turn_nextRound_le (g := g.sweepOut) h

theorem Orderly.turn_playTurn_le (h : g.Orderly) (hTurn : g.turn ≤ maxAmount)
    (hPlay : g.playTurn plan = .ok (flow, g')) : g'.turn ≤ maxAmount := by
  obtain ⟨s, _, _, hSame, rfl⟩ := h.exists_endTurn hPlay
  exact turn_endTurn_le (by rwa [hSame])

end Game

namespace Match

variable {contestants : List Contestant} {settings : Settings} {seed : UInt64} {first m : Match}
  {maxTurns : Int} {turns : List PlayedTurn} {contestant : Contestant} {flow : Flow} {game : Game}

structure Passive (settings : Settings) (first : Match) : Prop where
  order : first.InOrder
  booked : Booked [] first
  runs : first.overflowed = false
  between : first.game.BetweenTurns
  untouched : first.game.Untouched settings
  budget_pos : 1 ≤ settings.initBudget
  actions_eq : ∀ c ∈ first.contestants, c.plan.actions = []

theorem passive_start (hSettings : settings.validate = .ok ()) (hBudget : 1 ≤ settings.initBudget)
    (hActions : ∀ c ∈ contestants, c.plan.actions = [])
    (hStart : start contestants settings seed = .ok first) : first.Passive settings where
  order := (inOrder_start hStart).1
  booked := booked_start hStart
  runs := overflowed_start hStart
  between := .create hSettings (of_start_eq_ok hStart)
  untouched := .create hSettings (of_start_eq_ok hStart)
  budget_pos := hBudget
  actions_eq := by
    rw [(inOrder_start hStart).2.1]
    exact hActions

namespace Passive

theorem mem_contestants (h : first.Passive settings) (hPlayed : Played maxTurns first turns m)
    (hContestant : m.contestants[m.actorPlace]? = some contestant) :
    contestant ∈ first.contestants := by
  rw [← (hPlayed.inOrder h.order).2]
  exact List.mem_of_getElem? hContestant

theorem played (h : first.Passive settings) (hPlayed : Played maxTurns first turns m) :
    m.game.BetweenTurns ∧ m.game.Untouched settings := by
  induction hPlayed with
  | nil => exact ⟨h.between, h.untouched⟩
  | snoc hPlayed _ hContestant hPlay ih =>
    obtain ⟨hBetween, hBefore⟩ := ih
    rw [game_playTurn_eq hContestant hPlay]
    exact ⟨hBetween.playTurn hPlay, hBefore.playTurn hBetween.ready h.budget_pos
      (h.actions_eq _ (h.mem_contestants hPlayed hContestant)) hPlay⟩
  | stop _ _ hContestant hStop ih =>
    rw [playTurn_eq_of_stopped hContestant hStop]
    exact ih

end Passive

/-- The counters of a match are large enough for it. The round after the last one has a number, and
there are not too many rounds to count the turns that end early, or no turn does. -/
def CountersSuffice (contestants : List Contestant) (maxTurns : Int) : Prop :=
  maxTurns < maxAmount ∧
    (maxTurns < UInt32.size ∨ ∀ c ∈ contestants, c.plan.hasDone = false)

theorem Played.isFull_eq_false (h : Played maxTurns first turns m) (hFirst : first.InOrder)
    (hBooked : Booked [] first) (hRuns : m.overflowed = false)
    (hContestant : m.contestants[m.actorPlace]? = some contestant)
    (hOpen : m.isFinished maxTurns = false)
    (hPlay : m.game.playTurn contestant.plan = .ok (.halt, game)) (hMax : maxTurns < UInt32.size) :
    (recordOf turns m.game.actor.id).isFull = false := by
  have hFits := (h.booked hFirst hBooked).halts_lt hRuns m.game.actor m.game.actor_mem
  have hCount : (recordOf turns m.game.actor.id).halted.toNat = haltsOf turns m.game.actor.id :=
    UInt32.toNat_ofNat_of_lt' hFits
  -- With the halt that is to be counted, there is one for each round at most.
  have hNext := (h.snoc hOpen hContestant hPlay).halts_le hFirst m.game.actor.id
  rw [haltsOf_concat, if_pos ⟨rfl, rfl⟩] at hNext
  rw [Record.isFull, hCount, beq_eq_false_iff_ne]
  have hSize : (UInt32.size : Int) = 4294967296 := rfl
  omega

/-- As long as the counters suffice, nothing stops the program. -/
theorem Passive.overflowed_eq_false (h : first.Passive settings)
    (hPlayed : Played maxTurns first turns m)
    (hCounters : CountersSuffice first.contestants maxTurns) : m.overflowed = false := by
  induction hPlayed with
  | nil => exact h.runs
  | @snoc turns m contestant flow game hPlayed hOpen hContestant hPlay ih =>
    rw [playTurn_eq hContestant hPlay]
    change (recordFlow _ _ _).overflowed = false
    cases flow with
    | proceed => exact ih
    | halt =>
      rw [recordFlow, Bool.or_eq_false_iff]
      refine ⟨ih, ?_⟩
      rcases hCounters.2 with hMax | hDone
      · dsimp only
        rw [(hPlayed.booked h.order h.booked).getElem?_records (hPlayed.inOrder h.order).1]
        exact hPlayed.isFull_eq_false h.order h.booked ih hContestant hOpen hPlay hMax
      · have hMem := h.mem_contestants hPlayed hContestant
        cases Game.flow_eq_proceed (h.played hPlayed).1.ready (h.actions_eq _ hMem) (hDone _ hMem)
          hPlay
  | @stop turns m contestant hPlayed hOpen hContestant hStop ih =>
    obtain ⟨hEnded, hTurn, _⟩ := isFinished_eq_false_iff.mp hOpen
    have hOrder := (hPlayed.inOrder h.order).1
    have hWord : IsWord (m.game.turn + 1) := by
      have hPos := hOrder.game.turn_pos
      have hMax := hCounters.1
      unfold IsWord maxAmount at *
      omega
    have hActions := h.actions_eq _ (h.mem_contestants hPlayed hContestant)
    obtain ⟨_, _, hPlay⟩ := Game.exists_playTurn_eq_ok hEnded hOrder.game_runs hWord
      (Game.sameResult_run hActions (Game.beginTurn.run m.game).2).overflowed_eq
    cases hStop.symm.trans hPlay

/-- If no plan has an action in it, a match that can start has a report, as long as its counters
suffice. Every report tells that all rounds have been used up without a winner and without losses,
and that everybody has been left alone, whatever the plans ask, bind and repeat. Deposits are
words. -/
theorem nothing_happens_without_actions (hSettings : settings.validate = .ok ())
    (hBudget : 1 ≤ settings.initBudget) (hMaxDep : settings.maxDep ≤ maxAmount)
    (hActions : ∀ c ∈ contestants, c.plan.actions = [])
    (hStart : start contestants settings seed = .ok first) (maxTurns : Int) :
    (CountersSuffice contestants maxTurns →
      ∃ report, playMatch contestants settings maxTurns seed = .ok report) ∧
    ∀ report, playMatch contestants settings maxTurns seed = .ok report →
      report.winner = none ∧ report.turnsPlayed = maxTurns ∧ report.eliminations = [] ∧
      report.standings.map (·.id) = List.range' 1 contestants.length ∧
      ∀ s ∈ report.standings, s.Untouched settings := by
  have hPassive := passive_start hSettings hBudget hActions hStart
  obtain ⟨-, rfl, -, -⟩ := inOrder_start hStart
  obtain ⟨turns, hPlayed, hFinished, hPlay⟩ := exists_played_of_start hStart maxTurns
  obtain ⟨hBetween, hUntouched⟩ := hPassive.played hPlayed
  obtain ⟨hLast, hContestants⟩ := hPlayed.inOrder hPassive.order
  have hSound := hBetween.ready.sound
  have hBooks := hPlayed.booked hPassive.order hPassive.booked
  rw [hPlay]
  constructor
  · intro hCounters
    have hRuns := hPassive.overflowed_eq_false hPlayed hCounters
    rw [exists_result_iff hRuns, hBooks.exists_standings_iff hSound.solvent.board]
    exact fun p hp => hUntouched.holdings_le hSound hMaxDep hp
  · intro report hReport
    have hAccounts := hPlayed.accounts hPassive.order hPassive.booked hFinished hReport
    obtain ⟨hRuns, -, hWinner, hRounds, -⟩ := of_result_eq_ok hReport
    have hOver : maxTurns < (first.play maxTurns).game.turn := by
      simpa [isFinished, hUntouched.ended_eq, hRuns] using hFinished
    refine ⟨hWinner.trans (hSound.winner_eq_none hUntouched.ended_eq),
      hRounds.trans (Int.min_eq_right (by omega)), ?_, ?_, ?_⟩
    · refine List.eq_nil_iff_forall_not_mem.mpr fun id hId => ?_
      obtain ⟨p, hp, -, hOut⟩ := (hAccounts.mem_iff_out id).mp hId
      rw [(hUntouched.player p hp).1] at hOut
      cases hOut
    · rw [hBooks.map_ids hReport, ← hContestants, hLast.length_eq]
      exact hLast.game.ids_eq
    · intro s hs
      obtain ⟨p, hp, hSome⟩ := hBooks.exists_standing? hReport hs
      exact hUntouched.of_standing? hSound hp hSome

def daydream : Plan where
  statements := [.assign "n" (.number 3) 1,
    .whileDo (.identifier "n") (.block [.assign "n" (.binary .sub (.identifier "n") (.number 1)) 3]),
    .ifThenElse (.nearby .up) .done (.assign "luck" (.identifier "random") 5)]

def daydreamers : List Contestant :=
  [{ name := "a", plan := daydream }, { name := "b", plan := daydream }]

/-- After three rounds of daydreaming, each of the two has as much as before. If interest is paid it
may be more. -/
theorem nothing_happens_to_daydreamers : ∃ report growing,
    playMatch daydreamers Game.duelSettings 3 7 = .ok report ∧ report.winner = none ∧
    report.turnsPlayed = 3 ∧ report.eliminations = [] ∧ report.standings.map (·.id) = [1, 2] ∧
    (∀ s ∈ report.standings, s.budget = 10000 ∧ s.regions = 1 ∧ s.deposit = 100) ∧
    playMatch daydreamers { Game.duelSettings with interestPct := 5 } 3 7 = .ok growing ∧
    growing.turnsPlayed = 3 ∧ ∀ s ∈ growing.standings, s.budget = 10000 ∧ 100 ≤ s.deposit := by
  have hActions : ∀ c ∈ daydreamers, c.plan.actions = [] := by
    decide
  obtain ⟨first, hStart, -⟩ := Game.exists_eq_ok_of_any
    (r := start daydreamers Game.duelSettings 7) (P := fun m => !m.game.ended) (by decide +kernel)
  obtain ⟨other, hOther, -⟩ := Game.exists_eq_ok_of_any
    (r := start daydreamers { Game.duelSettings with interestPct := 5 } 7)
    (P := fun m => !m.game.ended) (by decide +kernel)
  have hCounters : CountersSuffice daydreamers 3 := ⟨by decide, .inl (by decide)⟩
  have hIdle := nothing_happens_without_actions rfl (by decide) (by decide) hActions hStart 3
  have hGrows := nothing_happens_without_actions rfl (by decide) (by decide) hActions hOther 3
  obtain ⟨report, hPlay⟩ := hIdle.1 hCounters
  obtain ⟨growing, hGrowing⟩ := hGrows.1 hCounters
  obtain ⟨hWinner, hTurns, hNobody, hIds, hStandings⟩ := hIdle.2 report hPlay
  obtain ⟨-, hRounds, -, -, hGrown⟩ := hGrows.2 growing hGrowing
  refine ⟨report, growing, hPlay, hWinner, hTurns, hNobody, hIds, fun s hs => ?_, hGrowing, hRounds,
    fun s hs => ?_⟩
  · obtain ⟨hBudget, hRegions, -, -, hDeposit⟩ := hStandings s hs
    exact ⟨hBudget, hRegions, hDeposit rfl⟩
  · obtain ⟨hBudget, -, hDeposit, -, -⟩ := hGrown s hs
    exact ⟨hBudget, hDeposit⟩

/-- The largest number of rounds cannot be used up, because the round after the last one has no
number. Nobody acts, and there is no report. -/
theorem endless_match_has_no_report : (∀ c ∈ daydreamers, c.plan.actions = []) ∧
    (∃ first, start daydreamers Game.duelSettings 7 = .ok first) ∧
    playMatch daydreamers Game.duelSettings 9223372036854775807 7 = .error .overflow := by
  have hActions : ∀ c ∈ daydreamers, c.plan.actions = [] := by
    decide
  obtain ⟨first, hStart, -⟩ := Game.exists_eq_ok_of_any
    (r := start daydreamers Game.duelSettings 7) (P := fun m => !m.game.ended) (by decide +kernel)
  have hPassive := passive_start rfl (by decide) hActions hStart
  obtain ⟨-, -, hTurn, -⟩ := inOrder_start hStart
  obtain ⟨turns, hPlayed, hFinished, hResult⟩ := exists_played_of_start hStart 9223372036854775807
  have hLe : (first.play 9223372036854775807).game.turn ≤ 9223372036854775807 :=
    (game_playOn (P := fun g => g.Orderly ∧ g.turn ≤ maxAmount)
      (fun _ _ _ _ hg hPlay => ⟨hg.1.playTurn hPlay, hg.1.turn_playTurn_le hg.2 hPlay⟩) _ _
      ⟨hPassive.order.game, by rw [hTurn]; decide⟩).2
  have hOpen := (hPassive.played hPlayed).2.ended_eq
  have hStopped : (first.play 9223372036854775807).overflowed = true := by
    simpa [isFinished, hOpen, Int.not_lt.mpr hLe] using hFinished
  refine ⟨hActions, ⟨first, hStart⟩, ?_⟩
  rw [hResult, result, if_pos hStopped]

end Match

end CityCrew
