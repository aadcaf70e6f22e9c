import CityCrew.Proofs.SoundSetup

/-!
# Games that can be reached

A game is set up with valid settings and then played turn by turn, with any plans. It can be looked
at between two turns and, while a plan runs, between any two calls of the plan. However long it has
been played, it is sound wherever it is looked at.
-/

namespace CityCrew

namespace Game

inductive BetweenTurns : Game → Prop where
  | create {settings : Settings} {names : List String} {seed : UInt64} {g : Game} :
      settings.validate = .ok () → Game.create settings names seed = .ok g → BetweenTurns g
  | playTurn {g g' : Game} {plan : Plan} {flow : Flow} :
      BetweenTurns g → g.playTurn plan = .ok (flow, g') → BetweenTurns g'
  | submitPlan {g g' : Game} {text : String} {flow : Flow} :
      BetweenTurns g → g.submitPlan text = .ok (flow, g') → BetweenTurns g'

/-- The game is between two turns, or in the middle of a turn: before some call of the plan that
is played, or after the last one. -/
inductive Reachable : Game → Prop where
  | betweenTurns {g : Game} : BetweenTurns g → Reachable g
  | beforeCall {g start : Game} {plan : Plan} {c : Call Game} : BetweenTurns g →
      g.ended = false → beginTurn.run g = (true, start) → c ∈ plan.calls start →
      Reachable c.before
  | afterRun {g start : Game} {plan : Plan} : BetweenTurns g → g.ended = false →
      beginTurn.run g = (true, start) → Reachable (plan.run.run start).2

variable {g g' start : Game} {plan : Plan} {flow : Flow}

theorem runTurn_of_begun (h : (beginTurn.run g).1 = true) : g.runTurn plan =
    ((plan.run.run (beginTurn.run g).2).1, (plan.run.run (beginTurn.run g).2).2.endTurn) := by
  unfold runTurn
  generalize beginTurn.run g = begin at h ⊢
  obtain ⟨begun, start⟩ := begin
  obtain rfl : begun = true := h
  rfl

theorem runTurn_of_not_begun (h : (beginTurn.run g).1 = false) :
    g.runTurn plan = (.halt, (beginTurn.run g).2.endTurn) := by
  unfold runTurn
  generalize beginTurn.run g = begin at h ⊢
  obtain ⟨begun, start⟩ := begin
  obtain rfl : begun = false := h
  rfl

theorem playTurn_of_open (h : g.ended = false) : g.playTurn plan =
    if (g.runTurn plan).2.overflowed then .error .overflow else .ok (g.runTurn plan) := by
  rw [playTurn, if_neg (by simp [h])]

theorem playTurn_eq_ok_iff : g.playTurn plan = .ok (flow, g') ↔
    g.ended = false ∧ g.runTurn plan = (flow, g') ∧ g'.overflowed = false := by
  cases hEnded : g.ended with
  | true => simp [playTurn, hEnded]
  | false =>
    rw [playTurn_of_open hEnded]
    constructor
    · intro h
      split at h
      · cases h
      · rename_i hRunning
        have hResult := Except.ok.inj h
        rw [hResult] at hRunning
        exact ⟨rfl, hResult, by simpa using hRunning⟩
    · rintro ⟨_, hResult, hRunning⟩
      rw [hResult, if_neg (by simp [hRunning])]

theorem of_playTurn_eq_ok (h : g.playTurn plan = .ok (flow, g')) : g.ended = false ∧
    (((beginTurn.run g).1 = true ∧ flow = (plan.run.run (beginTurn.run g).2).1 ∧
        g' = (plan.run.run (beginTurn.run g).2).2.endTurn) ∨
      ((beginTurn.run g).1 = false ∧ flow = .halt ∧ g' = (beginTurn.run g).2.endTurn)) := by
  obtain ⟨hEnded, hResult, _⟩ := playTurn_eq_ok_iff.mp h
  refine ⟨hEnded, ?_⟩
  cases hBegun : (beginTurn.run g).1 with
  | true =>
    rw [runTurn_of_begun hBegun] at hResult
    obtain ⟨rfl, rfl⟩ := Prod.mk.inj hResult
    exact .inl ⟨rfl, rfl, rfl⟩
  | false =>
    rw [runTurn_of_not_begun hBegun] at hResult
    obtain ⟨rfl, rfl⟩ := Prod.mk.inj hResult
    exact .inr ⟨rfl, rfl, rfl⟩

theorem submitPlan_eq_ok {text : String} (h : g.submitPlan text = .ok (flow, g')) :
    ∃ plan, Plan.parse text = .ok plan ∧ g.playTurn plan = .ok (flow, g') := by
  unfold submitPlan at h
  split at h
  · cases h
  · split at h
    · cases h
    · rename_i plan hPlan
      exact ⟨plan, hPlan, h⟩

theorem Underway.run (h : start.Underway) (plan : Plan) : (plan.run.run start).2.Underway ∧
    ∀ c ∈ plan.calls start, c.before.Underway ∧ c.after.Underway :=
  (plan.linked_calls start).forall_of_step Underway.exec h

theorem Ready.playTurn (h : g.Ready) (hPlay : g.playTurn plan = .ok (flow, g')) : g'.Ready := by
  obtain ⟨hEnded, hTurn⟩ := of_playTurn_eq_ok hPlay
  obtain ⟨hBegun, hStart⟩ := h.beginTurn hEnded
  rcases hTurn with ⟨_, _, rfl⟩ | ⟨hFalse, _, _⟩
  · exact (hStart.run plan).1.sound.endTurn
  · rw [hBegun] at hFalse
    cases hFalse

theorem BetweenTurns.ready (h : BetweenTurns g) : g.Ready := by
  induction h with
  | create hSettings hCreate => exact ready_create hSettings hCreate
  | playTurn _ hPlay ih => exact ih.playTurn hPlay
  | submitPlan _ hSubmit ih =>
    obtain ⟨plan, _, hPlay⟩ := submitPlan_eq_ok hSubmit
    exact ih.playTurn hPlay

theorem Reachable.ready_or_underway (h : Reachable g) : g.Ready ∨ g.Underway := by
  cases h with
  | betweenTurns h => exact .inl h.ready
  | beforeCall h hEnded hBegin hc =>
    have hStart := (h.ready.beginTurn hEnded).2
    rw [hBegin] at hStart
    exact .inr ((hStart.run _).2 _ hc).1
  | afterRun h hEnded hBegin =>
    have hStart := (h.ready.beginTurn hEnded).2
    rw [hBegin] at hStart
    exact .inr (hStart.run _).1

theorem Reachable.sound (h : Reachable g) : g.Sound := by
  rcases h.ready_or_underway with h | h
  · exact h.sound
  · exact h.sound

section Steps

variable {P : Game → Prop}
  (hNew : ∀ {settings names seed g}, settings.validate = .ok () →
    Game.create settings names seed = .ok g → P g)
  (hBegin : ∀ g, P g → P (beginTurn.run g).2)
  (hExec : ∀ (event : Event) (g : Game), P g → P (event.exec g).2)
  (hEnd : ∀ g, P g → P g.endTurn)

include hNew hBegin hExec hEnd

theorem BetweenTurns.forall_of_steps (h : BetweenTurns g) : P g := by
  have hTurn : ∀ {g g' : Game} {plan : Plan} {flow : Flow}, P g →
      g.playTurn plan = .ok (flow, g') → P g' := by
    intro g g' plan flow hg hPlay
    obtain ⟨_, ⟨_, _, rfl⟩ | ⟨_, _, rfl⟩⟩ := of_playTurn_eq_ok hPlay
    · exact hEnd _ ((plan.linked_calls _).forall_of_step hExec (hBegin g hg)).1
    · exact hEnd _ (hBegin g hg)
  induction h with
  | create hSettings hCreate => exact hNew hSettings hCreate
  | playTurn _ hPlay ih => exact hTurn ih hPlay
  | submitPlan _ hSubmit ih =>
    obtain ⟨plan, _, hPlay⟩ := submitPlan_eq_ok hSubmit
    exact hTurn ih hPlay

/-- What is true of new games and kept by every step is true wherever a game is looked at. -/
theorem Reachable.forall_of_steps (h : Reachable g) : P g := by
  have hStart : ∀ {g start : Game}, BetweenTurns g → beginTurn.run g = (true, start) → P start := by
    intro g start hBetween hBegun
    have hg := hBegin g (hBetween.forall_of_steps hNew hBegin hExec hEnd)
    rwa [hBegun] at hg
  cases h with
  | betweenTurns h => exact h.forall_of_steps hNew hBegin hExec hEnd
  | @beforeCall _ _ plan _ hBetween _ hBegun hc =>
    exact (((plan.linked_calls _).forall_of_step hExec (hStart hBetween hBegun)).2 _ hc).1
  | @afterRun _ _ plan hBetween _ hBegun =>
    exact ((plan.linked_calls _).forall_of_step hExec (hStart hBetween hBegun)).1

end Steps

theorem count_centerOwners (g : Game) (id : PlayerId) : g.centerOwners.count id =
    g.territory.regions.toList.countP fun r => r.cityCenter && r.isOwnedBy id := by
  rw [centerOwners, List.count, List.countP_filterMap]
  apply List.countP_congr
  intro r _
  cases hCenter : r.cityCenter with
  | false => simp
  | true =>
    rw [if_pos rfl, Region.isOwnedBy]
    cases r.owner <;> simp

/-- Wherever a game is looked at, an audit finds nothing, and the board, the players, the crew and
the winner are as they should be. -/
theorem reachable_lawful (h : Reachable g) : g.audit = [] ∧
    (∀ r ∈ g.territory.regions, 0 ≤ r.deposit ∧ r.deposit ≤ g.settings.maxDep ∧
      (r.owner = none ↔ r.deposit = 0) ∧ (r.cityCenter = true → r.owner.isSome) ∧
      ∀ id, r.owner = some id → ∃ p ∈ g.players, p.id = id) ∧
    (∀ p ∈ g.players, 0 ≤ p.budget ∧
      (g.territory.regions.toList.countP fun r => r.cityCenter && r.isOwnedBy p.id) ≤ 1) ∧
    g.territory.Contains g.crew ∧
    (∀ id, g.winner = some id → g.ended = true ∧ ∃ p ∈ g.players, p.id = id ∧ p.alive = true) ∧
    1 ≤ g.turn := by
  have hSound := h.sound
  have hBoard := hSound.board
  refine ⟨hSound.audit_eq_nil, ?_, ?_, hSound.crew_mem, ?_, hSound.turn_pos⟩
  · intro r hr
    have hGet := hBoard.regular.mem_regions_iff.mp hr
    have hRegion := hBoard.region _ r hGet
    refine ⟨hRegion.deposit_nonneg, hRegion.deposit_le, hRegion.owner_eq_none_iff, ?_, ?_⟩
    · intro hCenter
      exact Option.isSome_iff_ne_none.mpr (hRegion.owned_of_cityCenter hCenter)
    · intro id hId
      exact List.mem_map.mp (hBoard.owner_mem _ r id hGet hId)
  · intro p hp
    refine ⟨hSound.budget_nonneg p hp, ?_⟩
    rw [← count_centerOwners]
    exact List.nodup_iff_count.mp hSound.nodup_centerOwners p.id
  · intro id hId
    obtain ⟨hEnded, hAlive⟩ := hSound.winner_alive id hId
    obtain ⟨p, hp, hPair⟩ := List.mem_map.mp hAlive
    exact ⟨hEnded, p, hp, (Prod.mk.inj hPair).1, (Prod.mk.inj hPair).2⟩

def duelSettings : Settings := { rows := 2, cols := 1 }

def duelPlan : Plan where
  statements := [.act (.shoot .up (.number 500)), .assign "x" (.identifier "random") 1,
    .act (.shoot .down (.number 500))]

theorem exists_eq_ok_of_any {ε α : Type} {r : Except ε α} {P : α → Bool}
    (h : r.toOption.any P = true) : ∃ a, r = .ok a ∧ P a = true := by
  cases r with
  | error => exact absurd h Bool.false_ne_true
  | ok a => exact ⟨a, rfl, h⟩

theorem exists_duel_with {P : Game → Bool}
    (h : (create duelSettings ["a", "b"] 7).toOption.any P = true) :
    ∃ g, create duelSettings ["a", "b"] 7 = .ok g ∧ P g = true :=
  exists_eq_ok_of_any h

theorem exists_duel : ∃ g start, create duelSettings ["a", "b"] 7 = .ok g ∧ g.ended = false ∧
    beginTurn.run g = (true, start) ∧ (duelPlan.run.run start).2.ended = true := by
  obtain ⟨g, hCreate, hDuel⟩ := exists_duel_with (P := fun g => !g.ended && (beginTurn.run g).1 &&
    (duelPlan.run.run (beginTurn.run g).2).2.ended) (by decide +kernel)
  simp only [Bool.and_eq_true, Bool.not_eq_true'] at hDuel
  obtain ⟨⟨hEnded, hBegun⟩, hOver⟩ := hDuel
  exact ⟨g, (beginTurn.run g).2, hCreate, hEnded, Prod.ext hBegun rfl, hOver⟩

/-- The winner of a duel is alive, in the middle of the turn that has won it. -/
theorem lawful_after_capture : ∃ g start, create duelSettings ["a", "b"] 7 = .ok g ∧
    beginTurn.run g = (true, start) ∧ (duelPlan.run.run start).2.ended = true ∧
    (duelPlan.run.run start).2.audit = [] := by
  obtain ⟨g, start, hCreate, hEnded, hBegin, hOver⟩ := exists_duel
  have hNew : BetweenTurns g := .create rfl hCreate
  exact ⟨g, start, hCreate, hBegin, hOver, (reachable_lawful (.afterRun hNew hEnded hBegin)).1⟩

end Game

end CityCrew
