import CityCrew.Proofs.Contenders
import CityCrew.Proofs.MatchRun

/-!
# The turns of a match

A match plays one turn after the other until its game is over or its rounds are used up. The loop
does not count its turns. It comes to an end because every turn is really played, the player who
acts has a plan and the game accepts it, and because it moves the game on to a later slot; and up
to the last round there is one slot for each player and round. A sum that is no word stops it
earlier.
-/

namespace CityCrew

namespace Game

variable {g g' : Game}

/-- How many slots come before the one whose turn it is. -/
def slotsPassed (g : Game) : Int :=
  g.players.length * (g.turn - 1) + g.current

theorem slotsPassed_lt (hTurn : Turn g g') (hOpen : g'.ended = false) :
    g.slotsPassed < g'.slotsPassed := by
  obtain ⟨plan, flow, hPlay⟩ := hTurn.exists_playTurn
  have hLength := (KeepsOut.playTurn hPlay).length_eq
  have hSlot := (hTurn.slots hOpen).1
  have hCurrent := g.current_lt
  rw [slot, slot, Prod.Lex.toLex_lt_toLex] at hSlot
  rw [slotsPassed, slotsPassed, hLength]
  rcases hSlot with hTurn | ⟨hTurn, hPlace⟩
  · have hRound : (g.players.length : Int) * (g.turn - 1 + 1) ≤ g.players.length * (g'.turn - 1) :=
      Int.mul_le_mul_of_nonneg_left (by simp only at hTurn; omega) (Int.natCast_nonneg _)
    rw [Int.mul_add, Int.mul_one] at hRound
    omega
  · simp only at hTurn hPlace
    rw [hTurn]
    omega

end Game

namespace Match

variable {maxTurns : Int} {first m : Match} {contestant : Contestant} {flow : Flow} {game : Game}

structure PlayedTurn where
  before : Game
  flow : Flow
  after : Game

/-- The loop leads from `first` to `m`, and the turns are those that it has played. No match on the
way is finished, and in each of them the player who acts has a plan that the game accepts. A turn
that stops the program is not played to its end and does not count. -/
inductive Played (maxTurns : Int) (first : Match) : List PlayedTurn → Match → Prop where
  | nil : Played maxTurns first [] first
  | snoc {turns : List PlayedTurn} {m : Match} {contestant : Contestant} {flow : Flow}
      {game : Game} : Played maxTurns first turns m → m.isFinished maxTurns = false →
      m.contestants[m.actorPlace]? = some contestant →
      m.game.playTurn contestant.plan = .ok (flow, game) →
      Played maxTurns first (turns ++ [{ before := m.game, flow := flow, after := game }])
        m.playTurn
  | stop {turns : List PlayedTurn} {m : Match} {contestant : Contestant} :
      Played maxTurns first turns m → m.isFinished maxTurns = false →
      m.contestants[m.actorPlace]? = some contestant →
      m.game.playTurn contestant.plan = .error .overflow → Played maxTurns first turns m.playTurn

theorem playTurn_eq (hContestant : m.contestants[m.actorPlace]? = some contestant)
    (hPlay : m.game.playTurn contestant.plan = .ok (flow, game)) : m.playTurn =
      ({ m with game := game }.recordFlow m.actorPlace flow).recordEliminations m.game.turn := by
  rw [playTurn, hContestant]
  dsimp only
  rw [hPlay]

theorem game_playTurn_eq (hContestant : m.contestants[m.actorPlace]? = some contestant)
    (hPlay : m.game.playTurn contestant.plan = .ok (flow, game)) : m.playTurn.game = game := by
  rw [playTurn_eq hContestant hPlay]
  cases flow <;> rfl

theorem playTurn_eq_of_stopped (hContestant : m.contestants[m.actorPlace]? = some contestant)
    (hStop : m.game.playTurn contestant.plan = .error .overflow) :
    m.playTurn = { m with overflowed := true } := by
  rw [playTurn, hContestant]
  dsimp only
  rw [hStop]

theorem isFinished_eq_false_iff : m.isFinished maxTurns = false ↔
    m.game.ended = false ∧ m.game.turn ≤ maxTurns ∧ m.overflowed = false := by
  simp only [isFinished, Bool.or_eq_false_iff, decide_eq_false_iff_not, Int.not_lt]
  rw [and_assoc, and_comm, and_assoc]

/-- The contestants stand in the order of the players, whose ids are 1, 2, and so on. The program
has not stopped in the game. -/
structure InOrder (m : Match) : Prop where
  game : m.game.Orderly
  length_eq : m.contestants.length = m.game.players.length
  game_runs : m.game.overflowed = false

theorem InOrder.actorPlace_eq (h : m.InOrder) : m.actorPlace = m.game.current := by
  rw [actorPlace, h.game.id_actor, Nat.add_sub_cancel]

theorem InOrder.exists_contestant (h : m.InOrder) :
    ∃ contestant, m.contestants[m.actorPlace]? = some contestant := by
  have hPlace : m.actorPlace < m.contestants.length := by
    rw [h.actorPlace_eq, h.length_eq]
    exact m.game.current_lt
  exact ⟨_, List.getElem?_eq_getElem hPlace⟩

/-- While there is a number for the next round, nothing but the largest shot can stop a turn. -/
theorem InOrder.turn_cases (h : m.InOrder) (hOpen : m.isFinished maxTurns = false) (plan : Plan) :
    (∃ flow game, m.game.playTurn plan = .ok (flow, game)) ∨
      m.game.playTurn plan = .error .overflow ∧ (maxTurns < maxAmount →
        ∃ c ∈ plan.calls (Game.beginTurn.run m.game).2, Game.IsLargestShot c) := by
  obtain ⟨hEnded, hTurn, _⟩ := isFinished_eq_false_iff.mp hOpen
  rcases Game.playTurn_cases hEnded plan with hPlay | hStop
  · exact .inl hPlay
  · refine .inr ⟨hStop, fun hMax => ?_⟩
    by_contra hShots
    have hWord : IsWord (m.game.turn + 1) := by
      have hPos := h.game.turn_pos
      unfold IsWord maxAmount at *
      omega
    have hPlan := Game.Linked.overflowed_eq (plan.linked_calls (Game.beginTurn.run m.game).2)
      fun c hc hShot => hShots ⟨c, hc, hShot⟩
    obtain ⟨_, _, hPlay⟩ := Game.exists_playTurn_eq_ok hEnded h.game_runs hWord hPlan
    cases hStop.symm.trans hPlay

theorem InOrder.playTurn (h : m.InOrder)
    (hContestant : m.contestants[m.actorPlace]? = some contestant)
    (hPlay : m.game.playTurn contestant.plan = .ok (flow, game)) : m.playTurn.InOrder where
  game := by
    rw [game_playTurn_eq hContestant hPlay]
    exact h.game.playTurn hPlay
  length_eq := by
    rw [contestants_playTurn, game_playTurn_eq hContestant hPlay,
      (Game.KeepsOut.playTurn hPlay).length_eq]
    exact h.length_eq
  game_runs := by
    rw [game_playTurn_eq hContestant hPlay]
    exact (Game.playTurn_eq_ok_iff.mp hPlay).2.2

theorem inOrder_start {contestants : List Contestant} {settings : Settings} {seed : UInt64}
    (h : start contestants settings seed = .ok m) : m.InOrder ∧ m.contestants = contestants ∧
      m.game.turn = 1 ∧ m.game.slotsPassed = 0 := by
  obtain ⟨g, hCreate, rfl⟩ := start_eq_ok_iff.mp h
  obtain ⟨hOrderly, hLength, hTurn, hCurrent, _⟩ := Game.orderly_create hCreate
  refine ⟨⟨hOrderly, ?_, Game.overflowed_create hCreate⟩, rfl, hTurn, ?_⟩
  · rw [hLength, List.length_map]
  · rw [Game.slotsPassed, hTurn, hCurrent]
    simp

theorem Played.inOrder {turns : List PlayedTurn} (h : Played maxTurns first turns m)
    (hFirst : first.InOrder) : m.InOrder ∧ m.contestants = first.contestants := by
  induction h with
  | nil => exact ⟨hFirst, rfl⟩
  | snoc _ _ hContestant hPlay ih =>
    refine ⟨ih.1.playTurn hContestant hPlay, ?_⟩
    rw [contestants_playTurn]
    exact ih.2
  | stop _ _ hContestant hStop ih =>
    rw [playTurn_eq_of_stopped hContestant hStop]
    exact ⟨{ ih.1 with }, ih.2⟩

/-- Every turn fills a slot. -/
theorem Played.length_le_slotsPassed {turns : List PlayedTurn} (h : Played maxTurns first turns m)
    (hNew : first.game.slotsPassed = 0) (hGoesOn : m.game.ended = false) :
    (turns.length : Int) ≤ m.game.slotsPassed := by
  induction h with
  | nil => simp [hNew]
  | snoc _ hOpen hContestant hPlay ih =>
    rw [game_playTurn_eq hContestant hPlay] at hGoesOn ⊢
    have hSlots := ih (isFinished_eq_false_iff.mp hOpen).1
    have hNext := Game.slotsPassed_lt (.inl ⟨_, _, hPlay⟩) hGoesOn
    rw [List.length_append, List.length_singleton]
    omega
  | stop _ hOpen hContestant hStop ih =>
    rw [playTurn_eq_of_stopped hContestant hStop]
    exact ih (isFinished_eq_false_iff.mp hOpen).1

/-- While a match is not finished, one of the slots before the end of the last round is left. -/
theorem Played.length_lt {turns : List PlayedTurn} (h : Played maxTurns first turns m)
    (hFirst : first.InOrder) (hNew : first.game.slotsPassed = 0)
    (hOpen : m.isFinished maxTurns = false) :
    turns.length < first.contestants.length * maxTurns.toNat := by
  obtain ⟨hOrder, hContestants⟩ := h.inOrder hFirst
  obtain ⟨hEnded, hTurn, _⟩ := isFinished_eq_false_iff.mp hOpen
  have hPos := hOrder.game.turn_pos
  have hCurrent := m.game.current_lt
  have hSlots := h.length_le_slotsPassed hNew hEnded
  have hLast : (m.game.players.length : Int) * (m.game.turn - 1 + 1) ≤
      m.game.players.length * (maxTurns.toNat : Int) :=
    Int.mul_le_mul_of_nonneg_left (by omega) (Int.natCast_nonneg _)
  rw [Int.mul_add, Int.mul_one] at hLast
  rw [Game.slotsPassed] at hSlots
  rw [← hContestants, hOrder.length_eq, ← Int.ofNat_lt, Int.natCast_mul]
  omega

theorem Played.length_le {turns : List PlayedTurn} (h : Played maxTurns first turns m)
    (hFirst : first.InOrder) (hNew : first.game.slotsPassed = 0) :
    turns.length ≤ first.contestants.length * maxTurns.toNat := by
  induction h with
  | nil => exact Nat.zero_le _
  | snoc hPlayed hOpen _ _ _ =>
    rw [List.length_append, List.length_singleton]
    exact hPlayed.length_lt hFirst hNew hOpen
  | stop _ _ _ _ ih => exact ih

theorem Played.before {turns : List PlayedTurn} (h : Played maxTurns first turns m)
    (hFirst : first.InOrder) :
    ∀ t ∈ turns, t.before.Orderly ∧ t.before.players.length = first.contestants.length := by
  induction h with
  | nil => simp
  | snoc hPlayed _ _ _ ih =>
    obtain ⟨hOrder, hContestants⟩ := hPlayed.inOrder hFirst
    intro t ht
    rcases List.mem_append.mp ht with ht | ht
    · exact ih t ht
    · obtain rfl := List.mem_singleton.mp ht
      exact ⟨hOrder.game, by rw [← hContestants, hOrder.length_eq]⟩
  | stop _ _ _ _ ih => exact ih

/-- No slot is filled twice. -/
theorem Played.slots_sorted {turns : List PlayedTurn} (h : Played maxTurns first turns m) :
    turns.Pairwise (fun t t' => t.before.slotsPassed < t'.before.slotsPassed) ∧
      (m.game.ended = false → ∀ t ∈ turns, t.before.slotsPassed < m.game.slotsPassed) := by
  induction h with
  | nil => exact ⟨.nil, by simp⟩
  | snoc _ hOpen hContestant hPlay ih =>
    have hBefore := ih.2 (isFinished_eq_false_iff.mp hOpen).1
    constructor
    · rw [List.pairwise_append]
      refine ⟨ih.1, List.pairwise_singleton _ _, fun t ht t' ht' => ?_⟩
      obtain rfl := List.mem_singleton.mp ht'
      exact hBefore t ht
    · rw [game_playTurn_eq hContestant hPlay]
      intro hGoesOn t ht
      have hNext := Game.slotsPassed_lt (.inl ⟨_, _, hPlay⟩) hGoesOn
      rcases List.mem_append.mp ht with ht | ht
      · exact Int.lt_trans (hBefore t ht) hNext
      · obtain rfl := List.mem_singleton.mp ht
        exact hNext
  | stop _ _ hContestant hStop ih =>
    rw [playTurn_eq_of_stopped hContestant hStop]
    exact ih

theorem Played.turn_le {turns : List PlayedTurn} (h : Played maxTurns first turns m)
    (hFirst : first.InOrder) (hTurn : first.game.turn = 1) :
    m.game.turn ≤ max 1 (maxTurns + 1) := by
  induction h with
  | nil => omega
  | snoc hPlayed hOpen hContestant hPlay ih =>
    have hNext := ((hPlayed.inOrder hFirst).1.game.turn_playTurn hPlay).2
    have hLast := (isFinished_eq_false_iff.mp hOpen).2.1
    rw [game_playTurn_eq hContestant hPlay]
    omega
  | stop _ _ hContestant hStop ih =>
    rw [playTurn_eq_of_stopped hContestant hStop]
    exact ih

/-- With a number of steps, the loop finishes the match or uses all of them. -/
theorem Played.playOn {turns : List PlayedTurn} (h : Played maxTurns first turns m)
    (hFirst : first.InOrder) (steps : Nat) : ∃ more,
      Played maxTurns first (turns ++ more) (m.playOn maxTurns steps) ∧
        ((m.playOn maxTurns steps).isFinished maxTurns = true ∨ more.length = steps) := by
  induction steps generalizing m turns with
  | zero => exact ⟨[], by simpa [Match.playOn] using h, .inr rfl⟩
  | succ steps ih =>
    rw [Match.playOn]
    split
    · rename_i hFinished
      exact ⟨[], by simpa using h, .inl hFinished⟩
    · rename_i hOpen
      have hOpen : m.isFinished maxTurns = false := by simpa using hOpen
      obtain ⟨contestant, hContestant⟩ := (h.inOrder hFirst).1.exists_contestant
      rcases Game.playTurn_cases (isFinished_eq_false_iff.mp hOpen).1 contestant.plan with
        ⟨flow, game, hPlay⟩ | hStop
      · obtain ⟨more, hMore, hLast⟩ := ih (h.snoc hOpen hContestant hPlay)
        rw [List.append_assoc] at hMore
        exact ⟨_, hMore, hLast.imp_right fun hLength => by simp [hLength]⟩
      · have hFinished : m.playTurn.isFinished maxTurns = true := by
          rw [playTurn_eq_of_stopped hContestant hStop, isFinished]
          simp
        rw [playOn_of_isFinished hFinished]
        exact ⟨[], by simpa using h.stop hOpen hContestant hStop, .inl hFinished⟩

theorem play_finishes (maxTurns : Int) (hFirst : first.InOrder)
    (hNew : first.game.slotsPassed = 0) :
    (∃ turns, Played maxTurns first turns (first.play maxTurns)) ∧
      (first.play maxTurns).isFinished maxTurns = true := by
  have hNone : Played maxTurns first [] first := .nil
  obtain ⟨turns, hTurns, hLast⟩ := hNone.playOn hFirst (first.contestants.length * maxTurns.toNat)
  rw [List.nil_append, ← Match.play] at hTurns
  rw [← Match.play] at hLast
  refine ⟨⟨turns, hTurns⟩, ?_⟩
  cases hOpen : (first.play maxTurns).isFinished maxTurns with
  | true => rfl
  | false =>
    -- One more turn would be one too many.
    have hLength := hTurns.length_lt hFirst hNew hOpen
    rw [hLast.resolve_left (by simp [hOpen])] at hLength
    omega

/-- A match that can start is played to its end, and this is where its result is taken. -/
theorem exists_played_of_start {contestants : List Contestant} {settings : Settings}
    {seed : UInt64} (hStart : start contestants settings seed = .ok first) (maxTurns : Int) :
    ∃ turns, Played maxTurns first turns (first.play maxTurns) ∧
      (first.play maxTurns).isFinished maxTurns = true ∧
      playMatch contestants settings maxTurns seed =
        (first.play maxTurns).result maxTurns seed := by
  obtain ⟨hFirst, -, -, hNew⟩ := inOrder_start hStart
  obtain ⟨⟨turns, hPlayed⟩, hFinished⟩ := play_finishes maxTurns hFirst hNew
  exact ⟨turns, hPlayed, hFinished, playMatch_of_start hStart maxTurns⟩

/-- However a match goes, it has no more turns than one for each player and round, and the round
never gets further than one past the last. While it is not finished, one of these turns is left, and
the player who acts has a plan that the game accepts; only the largest shot can stop the program
there, as long as the rounds have numbers. So the match is finished at some point, and this is where
its result is taken, which is a report unless the program stops. -/
theorem match_ends_in_time {contestants : List Contestant} {settings : Settings} {seed : UInt64}
    (hStart : start contestants settings seed = .ok first) (maxTurns : Int) :
    (∀ turns m, Played maxTurns first turns m →
      turns.length ≤ contestants.length * maxTurns.toNat ∧ m.game.turn ≤ max 1 (maxTurns + 1) ∧
      (m.isFinished maxTurns = false → turns.length < contestants.length * maxTurns.toNat ∧
        ∃ contestant, m.contestants[m.actorPlace]? = some contestant ∧
          ((∃ flow game, m.game.playTurn contestant.plan = .ok (flow, game)) ∨
            m.game.playTurn contestant.plan = .error .overflow ∧ (maxTurns < maxAmount →
              ∃ c ∈ contestant.plan.calls (Game.beginTurn.run m.game).2,
                Game.IsLargestShot c)))) ∧
    ∃ turns last, Played maxTurns first turns last ∧ last.isFinished maxTurns = true ∧
      playMatch contestants settings maxTurns seed = last.result maxTurns seed ∧
      ((∃ report, last.result maxTurns seed = .ok report) ∨
        last.result maxTurns seed = .error .overflow) := by
  obtain ⟨hFirst, hContestants, hTurn, hNew⟩ := inOrder_start hStart
  constructor
  · intro turns m hPlayed
    rw [← hContestants]
    refine ⟨hPlayed.length_le hFirst hNew, hPlayed.turn_le hFirst hTurn, fun hOpen => ?_⟩
    have hOrder := (hPlayed.inOrder hFirst).1
    obtain ⟨contestant, hContestant⟩ := hOrder.exists_contestant
    exact ⟨hPlayed.length_lt hFirst hNew hOpen, contestant, hContestant,
      hOrder.turn_cases hOpen contestant.plan⟩
  · obtain ⟨turns, hTurns, hFinished, hResult⟩ := exists_played_of_start hStart maxTurns
    exact ⟨turns, _, hTurns, hFinished, hResult, result_cases _ maxTurns seed⟩

def idleContestants : List Contestant :=
  [{ name := "a", plan := Game.idlePlan }, { name := "b", plan := Game.idlePlan }]

/-- An idle match uses up its rounds and has a report. -/
theorem idle_match_ends_in_time : ∃ first turns last report,
    start idleContestants Game.duelSettings 7 = .ok first ∧ Played 3 first turns last ∧
    last.isFinished 3 = true ∧ turns.length ≤ 6 ∧ last.game.turn ≤ 4 ∧
    playMatch idleContestants Game.duelSettings 3 7 = .ok report ∧
    last.result 3 7 = .ok report := by
  obtain ⟨first, hStart, hReport⟩ := Game.exists_eq_ok_of_any
    (r := start idleContestants Game.duelSettings 7)
    (P := fun _ => (playMatch idleContestants Game.duelSettings 3 7).toOption.any fun _ => true)
    (by decide +kernel)
  obtain ⟨report, hReport, _⟩ := Game.exists_eq_ok_of_any hReport
  obtain ⟨hAll, turns, last, hPlayed, hFinished, hResult, _⟩ := match_ends_in_time hStart 3
  obtain ⟨hLength, hTurn, _⟩ := hAll turns last hPlayed
  exact ⟨first, turns, last, report, hStart, hPlayed, hFinished, hLength, hTurn, hReport,
    hResult.symm.trans hReport⟩

end Match

end CityCrew
