import CityCrew.Match.Basic
import CityCrew.Proofs.Reachable

/-!
# The game of a match

A match does nothing to its game but to play turns, each with the plan of the player who acts. What
every turn preserves holds at the end of the match.
-/

namespace CityCrew

namespace Match

variable {m : Match}

/-- A turn of a match leaves the game alone, or plays a turn of it. -/
theorem game_playTurn (m : Match) : m.playTurn.game = m.game ∨
    ∃ contestant ∈ m.contestants, ∃ flow,
      m.game.playTurn contestant.plan = .ok (flow, m.playTurn.game) := by
  unfold playTurn
  split
  · exact .inl rfl
  · rename_i contestant hContestant
    split
    · exact .inl rfl
    · exact .inl rfl
    · rename_i flow game hPlay
      refine .inr ⟨contestant, List.mem_of_getElem? hContestant, flow, ?_⟩
      rw [hPlay]
      cases flow <;> rfl

theorem contestants_playTurn (m : Match) : m.playTurn.contestants = m.contestants := by
  unfold playTurn
  split
  · rfl
  · split
    · rfl
    · rfl
    · rename_i flow _ _
      cases flow <;> rfl

theorem game_playOn {P : Game → Prop}
    (hTurn : ∀ g plan flow g', P g → g.playTurn plan = .ok (flow, g') → P g') (maxTurns : Int)
    (steps : Nat) (h : P m.game) : P (m.playOn maxTurns steps).game := by
  induction steps generalizing m with
  | zero => exact h
  | succ steps ih =>
    rw [playOn]
    split
    · exact h
    · apply ih
      rcases m.game_playTurn with hSame | ⟨contestant, _, flow, hPlay⟩
      · rwa [hSame]
      · exact hTurn _ _ _ _ h hPlay

theorem playOn_of_isFinished {maxTurns : Int} (h : m.isFinished maxTurns = true) (steps : Nat) :
    m.playOn maxTurns steps = m := by
  cases steps with
  | zero => rfl
  | succ steps => rw [playOn, if_pos h]

/-- A match can start exactly if its game can be created. -/
theorem start_eq_ok_iff {contestants : List Contestant} {settings : Settings} {seed : UInt64} :
    start contestants settings seed = .ok m ↔
      ∃ g, Game.create settings (contestants.map (·.name)) seed = .ok g ∧ m = {
        contestants := contestants
        game := g
        records := contestants.map fun _ => {}
        eliminations := [] } := by
  by_cases hCount : contestants.length < Game.minPlayers ∨ Game.maxPlayers < contestants.length
  · constructor
    · intro h
      rcases hCount with hFew | hMany
      · rw [start, if_pos hFew] at h
        cases h
      · rw [start, if_neg (by unfold Game.maxPlayers at hMany; unfold Game.minPlayers; omega),
          if_pos hMany] at h
        cases h
    · rintro ⟨g, hCreate, -⟩
      obtain ⟨hMin, hMax, _⟩ := Game.of_create_eq_ok hCreate
      rw [List.length_map] at hMin hMax
      omega
  · rw [not_or] at hCount
    rw [start, if_neg hCount.1, if_neg hCount.2]
    cases Game.create settings (contestants.map (·.name)) seed with
    | error e =>
      constructor
      · intro h
        cases h
      · rintro ⟨_, hCreate, -⟩
        cases hCreate
    | ok g =>
      constructor
      · intro h
        cases h
        exact ⟨g, rfl, rfl⟩
      · rintro ⟨_, hCreate, rfl⟩
        cases hCreate
        rfl

theorem overflowed_start {contestants : List Contestant} {settings : Settings} {seed : UInt64}
    (h : start contestants settings seed = .ok m) : m.overflowed = false := by
  obtain ⟨_, _, rfl⟩ := start_eq_ok_iff.mp h
  rfl

theorem of_start_eq_ok {contestants : List Contestant} {settings : Settings} {seed : UInt64}
    (h : start contestants settings seed = .ok m) :
    Game.create settings (contestants.map (·.name)) seed = .ok m.game := by
  obtain ⟨g, hCreate, rfl⟩ := start_eq_ok_iff.mp h
  exact hCreate

theorem playMatch_of_start {contestants : List Contestant} {settings : Settings} {seed : UInt64}
    (h : start contestants settings seed = .ok m) (maxTurns : Int) :
    playMatch contestants settings maxTurns seed = (m.play maxTurns).result maxTurns seed := by
  rw [playMatch, h]
  rfl

/-- A match has a result, unless the program stops. -/
theorem result_cases (m : Match) (maxTurns : Int) (seed : UInt64) :
    (∃ report, m.result maxTurns seed = .ok report) ∨ m.result maxTurns seed = .error .overflow := by
  unfold result
  split
  · exact .inr rfl
  · split
    · exact .inr rfl
    · exact .inl ⟨_, rfl⟩

/-- A report repeats the state in which the match ends. -/
theorem of_result_eq_ok {maxTurns : Int} {seed : UInt64} {report : MatchResult}
    (h : m.result maxTurns seed = .ok report) : m.overflowed = false ∧
      m.standings? = some report.standings ∧ report.winner = m.game.winner ∧
      report.turnsPlayed = min m.game.turn maxTurns ∧ report.eliminations = m.eliminations := by
  unfold result at h
  split at h
  · cases h
  · rename_i hRuns
    split at h
    · cases h
    · rename_i hStandings
      cases h
      exact ⟨by simpa using hRuns, hStandings, rfl, rfl, rfl⟩

/-- A match ends between two turns of its game. -/
theorem betweenTurns_play {contestants : List Contestant} {settings : Settings} {seed : UInt64}
    {first : Match} (hSettings : settings.validate = .ok ())
    (h : start contestants settings seed = .ok first) (maxTurns : Int) :
    Game.BetweenTurns (first.play maxTurns).game :=
  game_playOn (fun _ _ _ _ hBetween hPlay => .playTurn hBetween hPlay) maxTurns _
    (.create hSettings (of_start_eq_ok h))

end Match

end CityCrew
