import CityCrew.Proofs.Images
import CityCrew.Proofs.MatchRun
import CityCrew.Proofs.Placement

/-!
# Where chance comes in

Chance places the city centers, and it answers those who ask for `random`. A game that goes on with
other random numbers is an image of the game, and no plan that never asks for them finds out. Seeds
that place the city centers alike make such images of each other.
-/

namespace CityCrew

namespace Game

variable {g g' : Game} {random : Random.Generator}

def withRandom (random : Random.Generator) (g : Game) : Game :=
  { g with random := random }

theorem faithful_withRandom (random : Random.Generator) : Faithful (withRandom random) where
  settings _ := rfl
  territory _ := rfl
  actor _ := rfl
  crew _ := rfl
  turn _ := rfl
  ended _ := rfl
  withCrew _ _ := rfl
  modifyActor _ _ := rfl
  modifyRegion _ _ _ := rfl
  capture _ _ _ := rfl
  stopped _ := rfl

theorem withCurrent_withRandom (i : Nat) :
    (g.withRandom random).withCurrent i = (g.withCurrent i).withRandom random := by
  unfold withCurrent
  split
  · rw [dif_pos ‹_›]
    rfl
  · rw [dif_neg ‹_›]

theorem faithfulAtEnd_withRandom (random : Random.Generator) :
    FaithfulAtEnd (withRandom random) where
  ended _ := rfl
  current _ := rfl
  players _ := rfl
  sweepOut _ := rfl
  nextRound _ := rfl
  withCurrent _ i := (withCurrent_withRandom i).symm
  drawn _ := rfl
  won _ _ := rfl

/-- A turn that does not ask for `random` goes the same way with other random numbers. -/
theorem playTurn_withRandom {plan : Plan} (hPlan : "random" ∉ plan.identifiers) :
    (g.withRandom random).playTurn plan =
      (g.playTurn plan).map fun (flow, g') => (flow, g'.withRandom random) := by
  have hFaithful := faithful_withRandom random
  have hLookup : ∀ name, name ≠ "random" → Commutes (withRandom random) (lookup name) :=
    fun _ hName => hFaithful.commutes_lookup (hFaithful.commutes_special? hName)
  refine hFaithful.playTurn_image hLookup ?_
    (fun s _ => ((faithfulAtEnd_withRandom random).endTurn s).symm) fun _ => rfl
  rintro _ hName rfl
  exact hPlan hName

theorem start_withRandom {settings : Settings} {t : Territory} {players : List Player}
    {random : Random.Generator} (h : start settings t players random = .ok g)
    (random' : Random.Generator) :
    start settings t players random' = .ok (g.withRandom random') := by
  unfold start at h ⊢
  split at h
  · cases h
  · rw [dif_neg ‹_›]
    split at h
    · cases h
    · cases h
      rfl

/-- Seeds that give each player the same city center make the same game, up to the random numbers
it goes on with. -/
theorem create_eq_withRandom {settings : Settings} {names : List String} {seed seed' : UInt64}
    (h : create settings names seed = .ok g) (h' : create settings names seed' = .ok g')
    (hPlaces : ∀ p ∈ g.players,
      g.territory.cityCenterOf? p.id = g'.territory.cityCenterOf? p.id) :
    g' = g.withRandom g'.random := by
  have hDeposit := (hasRoom_of_create_eq_ok h).deposit_pos
  obtain ⟨_, _, board, centers, random, hBoard, hPlaced, hStart⟩ := of_create_eq_ok h
  obtain ⟨_, _, board', centers', random', hBoard', hPlaced', hStart'⟩ := of_create_eq_ok h'
  obtain rfl := Option.some.inj (hBoard.symm.trans hBoard')
  have ht := Territory.Regular.vacant? hBoard
  obtain ⟨hNodup, hLength, hContains⟩ := nodup_centers ht hPlaced
  obtain ⟨hNodup', hLength', hContains'⟩ := nodup_centers ht hPlaced'
  have hCenters : centers = centers' := by
    apply List.ext_getElem (hLength.trans hLength'.symm)
    intro k hk hk'
    obtain ⟨-, -, hTerritory, hPlayers, -⟩ := of_start_eq_ok hStart
    have hMem : 1 + k ∈ g.players.map (·.id) := by
      rw [hPlayers, ids_seated]
      exact List.mem_range'_1.mpr ⟨by omega, by omega⟩
    obtain ⟨p, hp, hId⟩ := List.mem_map.mp hMem
    have hPlace := hPlaces p hp
    rw [hId, hTerritory, (of_start_eq_ok hStart').2.2.1,
      cityCenterOf?_foundCenters 1 hBoard hNodup hContains hDeposit hk,
      cityCenterOf?_foundCenters 1 hBoard hNodup' hContains' hDeposit hk'] at hPlace
    exact Option.some.inj hPlace
  subst hCenters
  have hSame := Except.ok.inj (hStart'.symm.trans (start_withRandom hStart random'))
  rw [hSame]
  rfl

end Game

namespace Match

variable {m : Match} {random : Random.Generator}

def withRandom (random : Random.Generator) (m : Match) : Match :=
  { m with game := m.game.withRandom random }

theorem playTurn_withRandom (hPlans : ∀ c ∈ m.contestants, "random" ∉ c.plan.identifiers) :
    (m.withRandom random).playTurn = m.playTurn.withRandom random := by
  have hPlace : (m.withRandom random).contestants[(m.withRandom random).actorPlace]? =
      m.contestants[m.actorPlace]? := rfl
  unfold playTurn
  rw [hPlace]
  split
  · rfl
  · rename_i contestant hContestant
    have hPlay : (m.withRandom random).game.playTurn contestant.plan =
        (m.game.playTurn contestant.plan).map fun (flow, g) => (flow, g.withRandom random) :=
      Game.playTurn_withRandom (hPlans contestant (List.mem_of_getElem? hContestant))
    rw [hPlay]
    cases m.game.playTurn contestant.plan with
    | error e => cases e <;> rfl
    | ok played =>
      obtain ⟨flow, game⟩ := played
      cases flow <;> rfl

theorem playOn_withRandom (hPlans : ∀ c ∈ m.contestants, "random" ∉ c.plan.identifiers)
    (maxTurns : Int) (steps : Nat) :
    (m.withRandom random).playOn maxTurns steps = (m.playOn maxTurns steps).withRandom random := by
  induction steps generalizing m with
  | zero => rfl
  | succ steps ih =>
    have hFinished : (m.withRandom random).isFinished maxTurns = m.isFinished maxTurns := rfl
    rw [playOn, playOn, hFinished]
    split
    · rfl
    · rw [playTurn_withRandom hPlans]
      apply ih
      rwa [contestants_playTurn]

theorem result_withRandom (random : Random.Generator) (maxTurns : Int) (seed seed' : UInt64) :
    (m.withRandom random).result maxTurns seed' =
      (m.result maxTurns seed).map fun report => { report with seed := seed' } := by
  have hStandings : (m.withRandom random).standings? = m.standings? := rfl
  have hOverflowed : (m.withRandom random).overflowed = m.overflowed := rfl
  unfold result
  rw [hStandings, hOverflowed]
  split
  · rfl
  · split
    · rfl
    · rfl

/-- A match knows chance from the places of the city centers only, unless a plan asks for `random`.
Seeds that place the city centers alike lead to the same result, or the program stops with both. -/
theorem chance_only_places {contestants : List Contestant} {settings : Settings}
    {seed seed' : UInt64} {g g' : Game}
    (hPlans : ∀ c ∈ contestants, "random" ∉ c.plan.identifiers)
    (hg : Game.create settings (contestants.map (·.name)) seed = .ok g)
    (hg' : Game.create settings (contestants.map (·.name)) seed' = .ok g')
    (hPlaces : ∀ p ∈ g.players,
      g.territory.cityCenterOf? p.id = g'.territory.cityCenterOf? p.id)
    (maxTurns : Int) :
    (∃ result : MatchResult, playMatch contestants settings maxTurns seed = .ok result ∧
      playMatch contestants settings maxTurns seed' = .ok { result with seed := seed' }) ∨
    playMatch contestants settings maxTurns seed = .error .overflow ∧
      playMatch contestants settings maxTurns seed' = .error .overflow := by
  rw [Game.create_eq_withRandom hg hg' hPlaces] at hg'
  obtain ⟨m, hStart, hContestants, hStart'⟩ : ∃ m, start contestants settings seed = .ok m ∧
      m.contestants = contestants ∧
      start contestants settings seed' = .ok (m.withRandom g'.random) :=
    ⟨_, start_eq_ok_iff.mpr ⟨g, hg, rfl⟩, rfl, start_eq_ok_iff.mpr ⟨_, hg', rfl⟩⟩
  have hPlay : (m.withRandom g'.random).play maxTurns = (m.play maxTurns).withRandom g'.random :=
    playOn_withRandom (by rwa [hContestants]) maxTurns _
  have hResult := playMatch_of_start hStart maxTurns
  have hResult' := playMatch_of_start hStart' maxTurns
  rw [hPlay, result_withRandom g'.random maxTurns seed] at hResult'
  rw [hResult, hResult']
  rcases result_cases (m.play maxTurns) maxTurns seed with ⟨report, hReport⟩ | hStopped
  · exact .inl ⟨report, hReport, by rw [hReport]; rfl⟩
  · exact .inr ⟨hStopped, by rw [hStopped]; rfl⟩

def bindingPlan : Plan where
  statements := [.assign "random" (.identifier "budget") 1, .act (.shoot .up (.number 500)),
    .act (.shoot .down (.number 500))]

def bindingContestants : List Contestant :=
  [{ name := "a", plan := bindingPlan }, { name := "b", plan := bindingPlan }]

theorem duel_of_two_seeds : ∃ g g' result,
    Game.create Game.duelSettings ["a", "b"] 7 = .ok g ∧
    Game.create Game.duelSettings ["a", "b"] 8 = .ok g' ∧
    (∀ p ∈ g.players, g.territory.cityCenterOf? p.id = g'.territory.cityCenterOf? p.id) ∧
    playMatch bindingContestants Game.duelSettings 3 7 = .ok result ∧
    playMatch bindingContestants Game.duelSettings 3 8 = .ok { result with seed := 8 } := by
  obtain ⟨g, hg, hAlike⟩ := Game.exists_eq_ok_of_any
    (r := Game.create Game.duelSettings ["a", "b"] 7)
    (P := fun g => (Game.create Game.duelSettings ["a", "b"] 8).toOption.any fun g' : Game =>
      g.territory.regions == g'.territory.regions) (by decide +kernel)
  obtain ⟨g', hg', hRegions⟩ := Game.exists_eq_ok_of_any hAlike
  have hPlaces : ∀ p ∈ g.players,
      g.territory.cityCenterOf? p.id = g'.territory.cityCenterOf? p.id := by
    intro p _
    rw [Territory.cityCenterOf?, eq_of_beq hRegions]
    rfl
  have hPlans : ∀ c ∈ bindingContestants, "random" ∉ c.plan.identifiers := by decide
  obtain ⟨result, hResult, _⟩ := Game.exists_eq_ok_of_any
    (r := playMatch bindingContestants Game.duelSettings 3 7) (P := fun _ => true)
    (by decide +kernel)
  rcases chance_only_places hPlans hg hg' hPlaces 3 with
    ⟨result, hPlay, hPlay'⟩ | ⟨hStopped, _⟩
  · exact ⟨g, g', result, hg, hg', hPlaces, hPlay, hPlay'⟩
  · cases hResult.symm.trans hStopped

end Match

end CityCrew
