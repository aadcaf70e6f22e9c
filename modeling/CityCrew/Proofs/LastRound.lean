import Mathlib.Order.Bounds.Basic
import CityCrew.Proofs.MatchReport

/-!
# The last round of a match

The report tells how many rounds a match has had, but nobody counts them: the number is taken from
the clock of the last game, which may show the next round already. What counts is that the last turn
of a match leaves the clock alone if it decides the game, and that it can move the clock on only by
one round.
-/

namespace CityCrew

namespace Game

variable {g g' : Game}

/-- A turn that ends the game ends it in its own round. -/
theorem turn_endTurn_of_ended (h : g.endTurn.ended = true) : g.endTurn.turn = g.turn := by
  cases hEnded : g.ended with
  | true => rw [endTurn_of_ended hEnded]
  | false =>
    rcases endTurn_cases hEnded with ⟨_, hEnd⟩ | ⟨_, _, hEnd⟩ | ⟨i, _, _, _, hNext⟩
    · rw [hEnd]
      rfl
    · rw [hEnd]
      rfl
    · have hOpen : g.endTurn.ended = false := by
        rcases hNext with hNext | hNext <;> rw [hNext, ended_withCurrent] <;> exact hEnded
      rw [hOpen] at h
      cases h

theorem Orderly.turn_playTurn_of_ended (h : g.Orderly) {plan : Plan} {flow : Flow}
    (hPlay : g.playTurn plan = .ok (flow, g')) (hEnded : g'.ended = true) : g'.turn = g.turn := by
  obtain ⟨s, _, _, hTurn, rfl⟩ := h.exists_endTurn hPlay
  rw [turn_endTurn_of_ended hEnded, hTurn]

theorem ended_create {settings : Settings} {names : List String} {seed : UInt64}
    (h : create settings names seed = .ok g) : g.ended = false := by
  obtain ⟨_, _, _, _, _, _, _, hStart⟩ := of_create_eq_ok h
  obtain ⟨_, _, _, _, _, _, _, hEnded, _⟩ := of_start_eq_ok hStart
  exact hEnded

end Game

namespace Match

variable {maxTurns : Int} {first m : Match} {turns : List PlayedTurn}

/-- The round is the last one in which a turn has been played, or 0 if there is none. -/
structure IsLastRound (turns : List PlayedTurn) (round : Int) : Prop where
  of_nil : turns = [] → round = 0
  of_ne_nil : turns ≠ [] → IsGreatest {r | ∃ t ∈ turns, t.before.turn = r} round

/-- Either no turn has been played, or the clock shows the last round, or the next one while the
game goes on. -/
theorem Played.clock_cases (h : Played maxTurns first turns m) (hFirst : first.InOrder) :
    (turns = [] ∧ m.game = first.game) ∨ turns ≠ [] ∧ ∃ round, IsLastRound turns round ∧ 1 ≤ round ∧
      round ≤ maxTurns ∧
      (m.game.turn = round ∨ m.game.turn = round + 1 ∧ m.game.ended = false) := by
  induction h with
  | nil => exact .inl ⟨rfl, rfl⟩
  | @snoc turns m contestant flow game hPlayed hOpen hContestant hPlay _ =>
    have hGame := (hPlayed.inOrder hFirst).1.game
    have hTurns : turns ++ [{ before := m.game, flow := flow, after := game }] ≠ [] := by simp
    obtain ⟨hSame, hNext⟩ := hGame.turn_playTurn hPlay
    refine .inr ⟨hTurns, m.game.turn, ⟨fun hNil => absurd hNil hTurns, fun _ => ⟨?_, ?_⟩⟩,
      hGame.turn_pos, (isFinished_eq_false_iff.mp hOpen).2.1, ?_⟩
    · exact ⟨_, List.mem_append_right _ (List.mem_singleton_self _), rfl⟩
    · rintro _ ⟨t, ht, rfl⟩
      rcases List.mem_append.mp ht with ht | ht
      · exact (hPlayed.round_le hFirst t ht).2.1
      · rw [List.mem_singleton.mp ht]
    · rw [game_playTurn_eq hContestant hPlay]
      cases hEnded : game.ended with
      | true => exact .inl (hGame.turn_playTurn_of_ended hPlay hEnded)
      | false =>
        simp only [and_true]
        omega
  | stop _ _ hContestant hStop ih =>
    rw [playTurn_eq_of_stopped hContestant hStop]
    exact ih

theorem Played.turns_eq_nil (h : Played maxTurns first turns m) (hFirst : first.InOrder)
    (hMax : maxTurns < 1) : turns = [] := by
  rcases h.clock_cases hFirst with ⟨hNone, -⟩ | ⟨-, round, -, hPos, hLe, -⟩
  · exact hNone
  · omega

/-- At the end of a match that has not stopped, the clock and the number of rounds together tell the
last round. -/
theorem Played.isLastRound (h : Played maxTurns first turns m) (hFirst : first.InOrder)
    (hTurn : first.game.turn = 1) (hGoesOn : first.game.ended = false)
    (hFinished : m.isFinished maxTurns = true) (hRuns : m.overflowed = false) (hMax : 0 ≤ maxTurns) :
    IsLastRound turns (min m.game.turn maxTurns) := by
  rcases h.clock_cases hFirst with ⟨rfl, hSame⟩ | ⟨-, round, hLast, hPos, hLe, hClock⟩
  · have hNone : maxTurns < m.game.turn := by
      simpa [isFinished, hSame, hGoesOn, hRuns] using hFinished
    rw [← hSame] at hTurn
    exact ⟨fun _ => by omega, fun hTurns => absurd rfl hTurns⟩
  · have hRound : min m.game.turn maxTurns = round := by
      rcases hClock with hClock | ⟨hClock, hOpen⟩
      · omega
      · have hOver : maxTurns < m.game.turn := by
          simpa [isFinished, hOpen, hRuns] using hFinished
        omega
    rwa [hRound]

/-- A match that can start has a report, unless the program stops. The number in the report is the
last round, as long as the number of rounds that may be played is not negative. Otherwise nothing is
played, and the report repeats the negative number. -/
theorem reported_round_is_last {contestants : List Contestant} {settings : Settings}
    {seed : UInt64} (hStart : start contestants settings seed = .ok first) (maxTurns : Int) :
    ∃ turns last, Played maxTurns first turns last ∧ last.isFinished maxTurns = true ∧
      playMatch contestants settings maxTurns seed = last.result maxTurns seed ∧
      ((∃ report, playMatch contestants settings maxTurns seed = .ok report) ∨
        playMatch contestants settings maxTurns seed = .error .overflow) ∧
      (maxTurns < 0 → turns = []) ∧
      ∀ report, playMatch contestants settings maxTurns seed = .ok report →
        (0 ≤ maxTurns → IsLastRound turns report.turnsPlayed ∧
          0 ≤ report.turnsPlayed ∧ report.turnsPlayed ≤ maxTurns) ∧
        (maxTurns < 0 → report.turnsPlayed = maxTurns) := by
  obtain ⟨turns, hPlayed, hFinished, hResult⟩ := exists_played_of_start hStart maxTurns
  obtain ⟨hFirst, -, hTurn, -⟩ := inOrder_start hStart
  have hGoesOn := Game.ended_create (of_start_eq_ok hStart)
  have hPos := (hPlayed.inOrder hFirst).1.game.turn_pos
  refine ⟨turns, _, hPlayed, hFinished, hResult, hResult ▸ result_cases _ maxTurns seed,
    fun hMax => hPlayed.turns_eq_nil hFirst (by omega), fun report hReport => ?_⟩
  rw [hResult] at hReport
  obtain ⟨hRuns, -, -, hRounds, -⟩ := of_result_eq_ok hReport
  rw [hRounds]
  refine ⟨fun hMax => ?_, fun hMax => by omega⟩
  exact ⟨hPlayed.isLastRound hFirst hTurn hGoesOn hFinished hRuns hMax, by omega, by omega⟩

/-- An idle match has all of its three rounds. -/
theorem idle_rounds_are_reported : ∃ first turns last report,
    start idleContestants Game.duelSettings 7 = .ok first ∧ Played 3 first turns last ∧
    playMatch idleContestants Game.duelSettings 3 7 = .ok report ∧ report.turnsPlayed = 3 ∧
    IsLastRound turns 3 ∧ turns ≠ [] := by
  obtain ⟨first, hStart, hRounds⟩ := Game.exists_eq_ok_of_any
    (r := start idleContestants Game.duelSettings 7)
    (P := fun _ => (playMatch idleContestants Game.duelSettings 3 7).toOption.any
      (·.turnsPlayed == 3)) (by decide +kernel)
  obtain ⟨report, hReport, hRounds⟩ := Game.exists_eq_ok_of_any hRounds
  obtain ⟨turns, last, hPlayed, -, -, -, -, hReported⟩ := reported_round_is_last hStart 3
  have hRounds : report.turnsPlayed = 3 := eq_of_beq hRounds
  have hLast := ((hReported report hReport).1 (by decide)).1
  rw [hRounds] at hLast
  refine ⟨first, turns, last, report, hStart, hPlayed, hReport, hRounds, hLast, fun hNone => ?_⟩
  exact absurd (hLast.of_nil hNone) (by decide)

/-- With a negative number of rounds nothing is played, but the report does not say 0. -/
theorem negative_rounds_are_reported : ∃ first report,
    start idleContestants Game.duelSettings 7 = .ok first ∧
    playMatch idleContestants Game.duelSettings (-5) 7 = .ok report ∧ report.turnsPlayed = -5 ∧
    ∀ turns last, Played (-5) first turns last → ¬ IsLastRound turns report.turnsPlayed := by
  obtain ⟨first, hStart, _⟩ := Game.exists_eq_ok_of_any
    (r := start idleContestants Game.duelSettings 7) (P := fun m => !m.game.ended)
    (by decide +kernel)
  obtain ⟨report, hPlay, hRounds⟩ := Game.exists_eq_ok_of_any
    (r := playMatch idleContestants Game.duelSettings (-5) 7) (P := fun r => r.turnsPlayed == -5)
    (by decide +kernel)
  have hRounds : report.turnsPlayed = -5 := eq_of_beq hRounds
  refine ⟨first, report, hStart, hPlay, hRounds, fun turns last hPlayed hLast => ?_⟩
  have hNone := hPlayed.turns_eq_nil (inOrder_start hStart).1 (by decide)
  rw [hRounds] at hLast
  exact absurd (hLast.of_nil hNone) (by decide)

end Match

end CityCrew
