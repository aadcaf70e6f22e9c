import CityCrew.Proofs.Reachable

/-!
# Games that have ended

The end of a game is final. All requests are refused from then on. A plan that is running when the
game ends goes on running, but it acts no more: it can only bind identifiers of its player and draw
random numbers.
-/

namespace CityCrew

namespace Game

variable {g s : Game}

inductive Request where
  | act (action : Action Value)
  | endTurn
  | submitPlan (text : String)
  | playTurn (plan : Plan)

inductive Answer where
  | acted (ok : Bool)
  | turnEnded
  | played (outcome : Except PlayError Flow)

namespace Request

/-- Answers a request. A plan that is not played leaves the game as it is. -/
def serve (g : Game) : Request → Answer × Game
  | act action =>
    let (ok, g') := (Host.perform action : StateM Game Bool).run g
    (.acted ok, g')
  | endTurn => (.turnEnded, g.endTurn)
  | submitPlan text =>
    match g.submitPlan text with
    | .ok (flow, g') => (.played (.ok flow), g')
    | .error e => (.played (.error e), g)
  | playTurn plan =>
    match g.playTurn plan with
    | .ok (flow, g') => (.played (.ok flow), g')
    | .error e => (.played (.error e), g)

def serveAll (g : Game) : List Request → List Answer × Game
  | [] => ([], g)
  | request :: rest =>
    let (answer, g) := request.serve g
    let (answers, g) := serveAll g rest
    (answer :: answers, g)

def refusal : Request → Answer
  | act _ => .acted false
  | endTurn => .turnEnded
  | submitPlan _ => .played (.error .gameEnded)
  | playTurn _ => .played (.error .gameEnded)

end Request

theorem playTurn_of_ended (h : g.ended = true) (plan : Plan) :
    g.playTurn plan = .error .gameEnded :=
  if_pos h

theorem submitPlan_of_ended (h : g.ended = true) (text : String) :
    g.submitPlan text = .error .gameEnded :=
  if_pos h

theorem Request.serve_of_ended (h : g.ended = true) (request : Request) :
    request.serve g = (request.refusal, g) := by
  cases request with
  | act action => rw [serve, perform_of_ended h, refusal]
  | endTurn => rw [serve, endTurn_of_ended h, refusal]
  | submitPlan text => rw [serve, submitPlan_of_ended h, refusal]
  | playTurn plan => rw [serve, playTurn_of_ended h, refusal]

theorem Request.serveAll_of_ended (h : g.ended = true) (requests : List Request) :
    Request.serveAll g requests = (requests.map Request.refusal, g) := by
  induction requests with
  | nil => rfl
  | cons request rest ih =>
    rw [serveAll, request.serve_of_ended h]
    dsimp only
    rw [ih, List.map_cons]

/-- The games differ at most in the identifiers of the acting player and in the random numbers to
come. -/
structure SameResult (g s : Game) : Prop where
  settings_eq : s.settings = g.settings
  territory_eq : s.territory = g.territory
  players_eq : ∃ bindings,
    s.players = g.players.modify g.current fun p => { p with bindings := bindings }
  current_eq : s.current = g.current
  crew_eq : s.crew = g.crew
  turn_eq : s.turn = g.turn
  winner_eq : s.winner = g.winner
  ended_eq : s.ended = g.ended
  overflowed_eq : s.overflowed = g.overflowed

theorem SameResult.refl (g : Game) : SameResult g g where
  settings_eq := rfl
  territory_eq := rfl
  players_eq := by
    refine ⟨g.actor.bindings, ?_⟩
    apply List.ext_getElem?
    intro i
    rw [List.getElem?_modify]
    split
    · subst i
      rw [List.getElem?_eq_getElem g.current_lt]
      rfl
    · simp
  current_eq := rfl
  crew_eq := rfl
  turn_eq := rfl
  winner_eq := rfl
  ended_eq := rfl
  overflowed_eq := rfl

theorem SameResult.assign (h : SameResult g s) (name : String) (value : Value) :
    SameResult g (s.modifyActor (·.assign name value)) where
  settings_eq := h.settings_eq
  territory_eq := h.territory_eq
  players_eq := by
    obtain ⟨bindings, hPlayers⟩ := h.players_eq
    refine ⟨bindings.insert name value, ?_⟩
    rw [players_modifyActor, hPlayers, h.current_eq, List.modify_modify_eq]
    rfl
  current_eq := h.current_eq
  crew_eq := h.crew_eq
  turn_eq := h.turn_eq
  winner_eq := h.winner_eq
  ended_eq := h.ended_eq
  overflowed_eq := h.overflowed_eq

/-- In a game that has ended, a call does nothing, or it binds an identifier of the acting player,
or it draws the next number for `random`. -/
theorem exec_of_ended (h : g.ended = true) (event : Event) :
    (event.exec g).2 = g ∧ (∀ a, event = .act a → (event.exec g).1 = false) ∨
      (∃ name value, event = .assign name value ∧
        (event.exec g).2 = g.modifyActor (·.assign name value)) ∨
      (event = .lookup "random" ∧ ∃ random, (event.exec g).2 = { g with random := random }) := by
  cases event with
  | act a =>
    have hRefused : (Event.act a).exec g = (false, g) := perform_of_ended h a
    rw [hRefused]
    exact .inl ⟨rfl, fun _ _ => rfl⟩
  | assign name value => exact .inr (.inl ⟨name, value, rfl, rfl⟩)
  | opponent => exact .inl ⟨rfl, by simp⟩
  | nearby d => exact .inl ⟨rfl, by simp⟩
  | lookup name =>
    change ((lookup name).run g).2 = g ∧ _ ∨ _ ∨ _
    rcases snd_run_lookup g name with hSame | ⟨rfl, hDrawn⟩
    · exact .inl ⟨hSame, by simp⟩
    · exact .inr (.inr ⟨rfl, _, hDrawn.trans snd_run_drawRandom⟩)

theorem SameResult.exec (hEnded : g.ended = true) (event : Event) (s : Game) (h : SameResult g s) :
    SameResult g (event.exec s).2 := by
  rcases exec_of_ended (h.ended_eq.trans hEnded) event with
    ⟨hSame, _⟩ | ⟨name, value, _, hAssigned⟩ | ⟨_, random, hDrawn⟩
  · rw [hSame]
    exact h
  · rw [hAssigned]
    exact h.assign name value
  · rw [hDrawn]
    exact { h with }

/-- A game that has ended refuses all requests and stays as it is. If a plan is running when the
game ends, what the plan still does changes nothing but identifiers of its player and random
numbers, none of its actions succeeds, and the requests that come later are refused as well. -/
theorem end_is_final (h : g.ended = true) :
    (∀ requests, Request.serveAll g requests = (requests.map Request.refusal, g)) ∧
    ∀ (plan : Plan) (start : Game) (earlier rest : List (Call Game)),
      plan.calls start = earlier ++ rest → Linked start earlier g →
      (∀ c ∈ rest, SameResult g c.before ∧ SameResult g c.after ∧
        (c.after = c.before ∧ (∀ a, c.event = .act a → c.succeeds = false) ∨
          (∃ name value, c.event = .assign name value ∧
            c.after = c.before.modifyActor (·.assign name value)) ∨
          (c.event = .lookup "random" ∧ ∃ random, c.after = { c.before with random := random }))) ∧
      SameResult g (plan.run.run start).2 ∧
      ∀ requests, Request.serveAll (plan.run.run start).2.endTurn requests =
        (requests.map Request.refusal, (plan.run.run start).2) := by
  refine ⟨Request.serveAll_of_ended h, ?_⟩
  intro plan start earlier rest hCalls hEarlier
  have hRun := plan.linked_calls start
  rw [hCalls] at hRun
  obtain ⟨t, hFirst, hRest⟩ := hRun.split
  obtain rfl := hFirst.target_unique hEarlier
  obtain ⟨hLast, hWorlds⟩ := hRest.forall_of_step (SameResult.exec h) (.refl t)
  refine ⟨?_, hLast, ?_⟩
  · intro c hc
    obtain ⟨hBefore, hAfter⟩ := hWorlds c hc
    exact ⟨hBefore, hAfter, exec_of_ended (hBefore.ended_eq.trans h) c.event⟩
  · intro requests
    have hStill := hLast.ended_eq.trans h
    rw [endTurn_of_ended hStill]
    exact Request.serveAll_of_ended hStill requests

/-- In a duel, the first shot ends the game, and the plan that has fired it goes on. -/
theorem duel_ends_with_first_shot : ∃ g c rest, create duelSettings ["a", "b"] 7 = .ok g ∧
    duelPlan.calls (beginTurn.run g).2 = c :: rest ∧ c.succeeds = true ∧ c.after.ended = true ∧
    rest.length = 3 ∧ SameResult c.after (duelPlan.run.run (beginTurn.run g).2).2 := by
  obtain ⟨g, hCreate, hDuel⟩ := exists_duel_with (P := fun g =>
    match duelPlan.calls (beginTurn.run g).2 with
    | c :: rest => c.succeeds && c.after.ended && rest.length == 3
    | [] => false) (by decide +kernel)
  cases hCalls : duelPlan.calls (beginTurn.run g).2 with
  | nil =>
    rw [hCalls] at hDuel
    cases hDuel
  | cons c rest =>
    rw [hCalls] at hDuel
    simp only [Bool.and_eq_true, beq_iff_eq] at hDuel
    obtain ⟨⟨hHit, hEnded⟩, hLength⟩ := hDuel
    have hFirst : Linked (beginTurn.run g).2 [c] c.after := by
      have hRun := duelPlan.linked_calls (beginTurn.run g).2
      rw [hCalls] at hRun
      cases hRun with
      | cons event => exact Linked.single event _
    obtain ⟨_, hSame, _⟩ := (end_is_final hEnded).2 duelPlan _ [c] rest hCalls hFirst
    exact ⟨g, c, rest, hCreate, hCalls, hHit, hEnded, hLength, hSame⟩

end Game

end CityCrew
