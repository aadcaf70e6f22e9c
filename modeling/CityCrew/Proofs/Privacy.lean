import CityCrew.Proofs.Veil

/-!
# Private matters

What players keep to themselves makes no difference to the turns of others, and turns of others make
none to it. Two games that look alike to the acting player are the same behind the veil, so they
take the same turn.
-/

namespace CityCrew

namespace Game

variable {g h : Game} {place : Nat}

/-- To the player at `place` the games look alike. They differ in nothing but the names, the bindings
and the budgets of the other players, and the same budgets are used up. -/
structure AlikeFor (place : Nat) (g h : Game) : Prop where
  settings_eq : g.settings = h.settings
  territory_eq : g.territory = h.territory
  current_eq : g.current = h.current
  crew_eq : g.crew = h.crew
  turn_eq : g.turn = h.turn
  winner_eq : g.winner = h.winner
  ended_eq : g.ended = h.ended
  random_eq : g.random = h.random
  overflowed_eq : g.overflowed = h.overflowed
  length_eq : g.players.length = h.players.length
  own_eq : g.players[place]? = h.players[place]?
  others : ∀ i p q, i ≠ place → g.players[i]? = some p → h.players[i]? = some q →
    p.id = q.id ∧ p.alive = q.alive ∧ (p.budget = 0 ↔ q.budget = 0)

theorem AlikeFor.veiledFor_eq (hAlike : AlikeFor place g h) :
    g.veiledFor place = h.veiledFor place := by
  have hPlayers : (g.veiledFor place).players = (h.veiledFor place).players := by
    apply List.ext_getElem
    · simpa using hAlike.length_eq
    · intro i hg hh
      simp only [length_players_veiledFor] at hg hh
      simp only [veiledFor, List.getElem_mapIdx]
      have hp := List.getElem?_eq_getElem hg
      have hq := List.getElem?_eq_getElem hh
      split
      · subst i
        rw [hAlike.own_eq, hq] at hp
        exact (Option.some.inj hp).symm
      · exact Player.veiled_eq_iff.mpr (hAlike.others i _ _ ‹_› hp hq)
  simp only [veiledFor, mk.injEq]
  exact ⟨hAlike.settings_eq, hAlike.territory_eq, hPlayers, hAlike.current_eq, hAlike.crew_eq,
    hAlike.turn_eq, hAlike.winner_eq, hAlike.ended_eq, hAlike.random_eq, hAlike.overflowed_eq⟩

theorem AlikeFor.of_veiledFor_eq (hVeiled : g.veiledFor place = h.veiledFor place) :
    AlikeFor place g h := by
  have hPlayers : ∀ i, (g.players[i]?.map fun p => if i = place then p else p.veiled) =
      h.players[i]?.map fun p => if i = place then p else p.veiled := by
    intro i
    rw [← getElem?_players_veiledFor, ← getElem?_players_veiledFor, hVeiled]
  have hLength := congrArg (·.players.length) hVeiled
  simp only [length_players_veiledFor] at hLength
  simp only [veiledFor, mk.injEq] at hVeiled
  obtain ⟨hSettings, hTerritory, _, hCurrent, hCrew, hTurn, hWinner, hEnded, hRandom, hOverflowed⟩ :=
    hVeiled
  refine ⟨hSettings, hTerritory, hCurrent, hCrew, hTurn, hWinner, hEnded, hRandom, hOverflowed,
    hLength, ?_, ?_⟩
  · simpa using hPlayers place
  · intro i p q hi hp hq
    have hSame := hPlayers i
    rw [hp, hq] at hSame
    simp only [Option.map_some, if_neg hi] at hSame
    exact Player.veiled_eq_iff.mp (Option.some.inj hSame)

theorem SparesPlayers.sweepOut (g : Game) : SparesPlayers g g.sweepOut where
  length_eq := List.length_map _
  kept i p _ hp := by
    change ∃ alive, (g.players.map _)[i]? = _
    rw [List.getElem?_map, hp, Option.map_some]
    split
    · exact ⟨false, rfl⟩
    · exact ⟨p.alive, rfl⟩

theorem SparesPlayers.endTurn (g : Game) : SparesPlayers g g.endTurn := by
  cases hEnded : g.ended with
  | true => exact .of_eq (by rw [endTurn_of_ended hEnded])
  | false => exact .trans (.sweepOut g) rfl (.of_eq (players_endTurn hEnded))

theorem SparesPlayers.run (plan : Plan) (g : Game) : SparesPlayers g (plan.run.run g).2 :=
  ((plan.linked_calls g).forall_of_step
    (P := fun s => s.current = g.current ∧ SparesPlayers g s)
    (fun event s hs =>
      have hEffect := exec_effect s event
      ⟨hEffect.frame.2.2.trans hs.1, hs.2.trans hs.1 hEffect.spares⟩)
    ⟨rfl, .of_eq rfl⟩).1.2

theorem SparesPlayers.playTurn {g' : Game} {plan : Plan} {flow : Flow}
    (hPlay : g.playTurn plan = .ok (flow, g')) : SparesPlayers g g' := by
  obtain ⟨_, hTurn⟩ := of_playTurn_eq_ok hPlay
  obtain ⟨crew, hCrew⟩ := snd_run_beginTurn g
  rw [hCrew] at hTurn
  have hBegin : SparesPlayers g { g with crew := crew } := .of_eq rfl
  rcases hTurn with ⟨_, _, rfl⟩ | ⟨_, _, rfl⟩
  · exact (hBegin.trans rfl (.run plan _)).trans (current_run plan _) (.endTurn _)
  · exact hBegin.trans rfl (.endTurn _)

/-- Players cannot see what the others keep to themselves. In games that look alike to the acting
player, every plan takes the same course, and the games look alike again after the turn. What sets
them apart is what the others had before: no turn touches it. -/
theorem others_keep_to_themselves (hAlike : AlikeFor g.current g h) (plan : Plan) :
    (∀ e, g.playTurn plan = .error e ↔ h.playTurn plan = .error e) ∧
    ∀ flow g', g.playTurn plan = .ok (flow, g') → ∃ h', h.playTurn plan = .ok (flow, h') ∧
      AlikeFor g.current g' h' ∧ SparesPlayers g g' ∧ SparesPlayers h h' := by
  have hTurn := playTurn_veiled plan h
  rw [veiled, ← hAlike.current_eq, ← hAlike.veiledFor_eq, ← veiled, playTurn_veiled] at hTurn
  cases hg : g.playTurn plan with
  | error e =>
    cases hh : h.playTurn plan with
    | error e' =>
      rw [hg, hh] at hTurn
      obtain rfl := Except.error.inj hTurn
      refine ⟨fun _ => Iff.rfl, ?_⟩
      intro _ _ hOk
      cases hOk
    | ok r =>
      rw [hg, hh] at hTurn
      cases hTurn
  | ok r =>
    cases hh : h.playTurn plan with
    | error e =>
      rw [hg, hh] at hTurn
      cases hTurn
    | ok r' =>
      rw [hg, hh] at hTurn
      obtain ⟨hFlow, hVeiled⟩ := Prod.mk.inj (Except.ok.inj hTurn)
      refine ⟨by simp, ?_⟩
      rintro flow g' hOk
      obtain rfl := Except.ok.inj hOk
      obtain ⟨flow', h'⟩ := r'
      obtain rfl : flow = flow' := hFlow
      exact ⟨h', rfl, .of_veiledFor_eq hVeiled, .playTurn hg, .playTurn hh⟩

theorem getElem?_seated (settings : Settings) (names : List String) (i : Nat) :
    (seated settings names)[i]? =
      names[i]?.map fun name => Player.create (i + 1) name settings.initBudget := by
  simp [seated, List.getElem?_zipIdx, Function.comp_def]

/-- Two names make no difference for what others know of a new player. -/
theorem others_seated {settings : Settings} {names names' : List String} {i : Nat} {p q : Player}
    (hp : (seated settings names)[i]? = some p) (hq : (seated settings names')[i]? = some q) :
    p.id = q.id ∧ p.alive = q.alive ∧ (p.budget = 0 ↔ q.budget = 0) := by
  rw [getElem?_seated] at hp hq
  obtain ⟨name, _, rfl⟩ := Option.map_eq_some_iff.mp hp
  obtain ⟨name', _, rfl⟩ := Option.map_eq_some_iff.mp hq
  exact ⟨rfl, rfl, Iff.rfl⟩

theorem random_of_start_eq_ok {settings : Settings} {t : Territory} {players : List Player}
    {random : Random.Generator} (hStart : start settings t players random = .ok g) :
    g.random = random := by
  unfold start at hStart
  split at hStart
  · cases hStart
  · split at hStart
    · cases hStart
    · cases hStart
      rfl

/-- A new game does not show how the others are called. -/
theorem alikeFor_create {settings : Settings} {names names' : List String} {seed : UInt64}
    (hLength : names.length = names'.length) (hOwn : names[place]? = names'[place]?)
    (hg : create settings names seed = .ok g) (hh : create settings names' seed = .ok h) :
    AlikeFor place g h := by
  obtain ⟨_, _, board, centers, random, hBoard, hPlaced, hStart⟩ := of_create_eq_ok hg
  obtain ⟨_, _, board', centers', random', hBoard', hPlaced', hStart'⟩ := of_create_eq_ok hh
  obtain rfl := Option.some.inj (hBoard.symm.trans hBoard')
  rw [← hLength, hPlaced] at hPlaced'
  obtain ⟨rfl, rfl⟩ := Prod.mk.inj (Except.ok.inj hPlaced')
  have hRandom := (random_of_start_eq_ok hStart).trans (random_of_start_eq_ok hStart').symm
  obtain ⟨_, hSettings, hTerritory, hPlayers, hCurrent, hTurn, hWinner, hEnded, hCrew⟩ :=
    of_start_eq_ok hStart
  obtain ⟨_, hSettings', hTerritory', hPlayers', hCurrent', hTurn', hWinner', hEnded', hCrew'⟩ :=
    of_start_eq_ok hStart'
  have hOthers : ∀ (i : Nat) (p q : Player), g.players[i]? = some p → h.players[i]? = some q →
      p.id = q.id ∧ p.alive = q.alive ∧ (p.budget = 0 ↔ q.budget = 0) := by
    intro i p q hp hq
    rw [hPlayers] at hp
    rw [hPlayers'] at hq
    exact others_seated hp hq
  have hActor : g.actor.id = h.actor.id := by
    refine (hOthers 0 _ _ ?_ ?_).1
    · rw [← hCurrent]
      exact List.getElem?_eq_getElem g.current_lt
    · rw [← hCurrent']
      exact List.getElem?_eq_getElem h.current_lt
  rw [hActor, hCrew'] at hCrew
  exact {
    settings_eq := hSettings.trans hSettings'.symm
    territory_eq := hTerritory.trans hTerritory'.symm
    current_eq := hCurrent.trans hCurrent'.symm
    crew_eq := (Option.some.inj hCrew).symm
    turn_eq := hTurn.trans hTurn'.symm
    winner_eq := hWinner.trans hWinner'.symm
    ended_eq := hEnded.trans hEnded'.symm
    random_eq := hRandom
    overflowed_eq := (overflowed_create hg).trans (overflowed_create hh).symm
    length_eq := by simp [hPlayers, hPlayers', seated, hLength]
    own_eq := by rw [hPlayers, hPlayers', getElem?_seated, getElem?_seated, hOwn]
    others := fun i p q _ => hOthers i p q }

/-- The duel is won in the same way whatever the second player is called. -/
theorem renamed_duel_takes_same_turn : ∃ g h g' h' flow,
    create duelSettings ["a", "b"] 7 = .ok g ∧ create duelSettings ["a", "c"] 7 = .ok h ∧
    g.playTurn duelPlan = .ok (flow, g') ∧ h.playTurn duelPlan = .ok (flow, h') ∧
    g'.winner = some 1 ∧ AlikeFor 0 g' h' ∧ SparesPlayers g g' ∧ SparesPlayers h h' := by
  obtain ⟨g, hg, hDuel⟩ := exists_duel_with (P := fun g => g.current == 0 &&
    (g.playTurn duelPlan).toOption.any fun r => r.2.winner == some 1) (by decide +kernel)
  obtain ⟨h, hh, _⟩ := exists_eq_ok_of_any (r := create duelSettings ["a", "c"] 7)
    (P := fun h => !h.ended) (by decide +kernel)
  simp only [Bool.and_eq_true, beq_iff_eq] at hDuel
  obtain ⟨⟨flow, g'⟩, hPlay, hWinner⟩ := exists_eq_ok_of_any hDuel.2
  have hAlike : AlikeFor g.current g h := by
    rw [hDuel.1]
    exact alikeFor_create (by rfl) (by rfl) hg hh
  obtain ⟨h', hPlay', hAlike', hSpares, hSpares'⟩ :=
    (others_keep_to_themselves hAlike duelPlan).2 flow g' hPlay
  rw [hDuel.1] at hAlike'
  exact ⟨g, h, g', h', flow, hg, hh, hPlay, hPlay', by simpa using hWinner, hAlike', hSpares,
    hSpares'⟩

end Game

end CityCrew
