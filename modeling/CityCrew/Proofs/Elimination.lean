import CityCrew.Proofs.Survival
import CityCrew.Proofs.Wealth

/-!
# Elimination

A player who waits for a turn loses money or a city center to nothing but a capture, and a capture
ends the game at once with a winner. So the end of a turn eliminates nobody but the player who has
taken it, and if the players start with money, somebody has won every game that is over. If they
start without, the first turn is the last one for all of them.
-/

namespace CityCrew

namespace Game

variable {g g' s : Game}

/-- The players who wait for their turn have what they need to take it, and there is one at
least. -/
structure Contested (g : Game) : Prop where
  means : ∀ (i : Nat) (p : Player), i ≠ g.current → g.players[i]? = some p → p.alive = true →
    g.HasMeans p
  exists_waiting : ∃ i p, i ≠ g.current ∧ g.players[i]? = some p ∧ p.alive = true

theorem Sound.id_ne_of_waiting (h : g.Sound) {i : Nat} {p : Player} (hi : i ≠ g.current)
    (hp : g.players[i]? = some p) : p.id ≠ g.actor.id := by
  intro hId
  obtain ⟨hlt, rfl⟩ := List.getElem?_eq_some_iff.mp hp
  have hLeft : i < (g.players.map (·.id)).length := by simpa using hlt
  have hRight : g.current < (g.players.map (·.id)).length := by simpa using g.current_lt
  have hSame : (g.players.map (·.id))[i] = (g.players.map (·.id))[g.current] := by
    simpa [actor] using hId
  exact hi ((List.getElem_inj h.ids_nodup).mp hSame)

theorem getElem?_charge_of_ne {i : Nat} (h : i ≠ g.current) (n : Int) :
    (g.charge n).players[i]? = g.players[i]? :=
  List.getElem?_modify_ne _ _ h.symm

/-- Unless it ends the game, a call does nothing to the players who wait. -/
theorem CallEffect.waiting_eq {event : Event} {ok : Bool} (h : CallEffect g event ok g')
    (hOpen : g'.ended = false) {i : Nat} (hi : i ≠ g.current) :
    g'.players[i]? = g.players[i]? := by
  cases h with
  | nothing => rfl
  | drawn => rfl
  | assigned => exact List.getElem?_modify_ne _ _ hi.symm
  | acted h =>
    cases h with
    | refused => rfl
    | wasted => exact getElem?_charge_of_ne hi fee
    | moved => exact getElem?_charge_of_ne hi fee
    | invested amount =>
      exact (getElem?_charge_of_ne (g := g.charge fee) hi amount.toInt).trans
        (getElem?_charge_of_ne hi fee)
    | collected =>
      exact (List.getElem?_modify_ne _ _ hi.symm).trans (getElem?_charge_of_ne hi fee)
    | relocated center steps =>
      exact (getElem?_charge_of_ne (g := g.charge fee) hi (relocationCost steps)).trans
        (getElem?_charge_of_ne hi fee)
    | shot d amount => exact getElem?_charge_of_ne hi (amount.toInt + fee)
    | captured => cases hOpen
    | stopped => rfl

theorem CallEffect.open_before {event : Event} {ok : Bool} (h : CallEffect g event ok g')
    (hOpen : g'.ended = false) : g.ended = false := by
  cases h with
  | nothing => exact hOpen
  | drawn => exact hOpen
  | assigned => exact hOpen
  | acted h =>
    cases h with
    | captured => cases hOpen
    | _ => exact hOpen

/-- Unless it ends the game, a call takes the city center of no opponent. -/
theorem CallEffect.keeps_center {event : Event} {ok : Bool} (h : g.Underway)
    (hEffect : CallEffect g event ok g') (hOpen : g'.ended = false) {id : PlayerId}
    (hNe : id ≠ g.actor.id) (hCenter : (g.territory.cityCenterOf? id).isSome) :
    (g'.territory.cityCenterOf? id).isSome := by
  obtain ⟨p, r, hr, hFlag, hOwner⟩ := h.sound.board.regular.cityCenterOf?_isSome_iff.mp hCenter
  rw [(h.call hEffect).sound.board.regular.cityCenterOf?_isSome_iff]
  rcases hEffect.opposed_region h hr hOwner hNe with hSame | ⟨d, amount, rfl, rfl, _, hShot⟩
  · exact ⟨p, r, hSame, hFlag, hOwner⟩
  · cases hEffect with
    | nothing _ hEvent => exact (hEvent _ rfl).elim
    | acted hEffect =>
      cases hEffect with
      | refused => exact ⟨_, r, hr, hFlag, hOwner⟩
      | wasted => exact ⟨_, r, hr, hFlag, hOwner⟩
      | shot _ _ _ _ _ hKept =>
        -- A shot that had drained the center would have been a capture.
        have hLeft := hKept r id hr hFlag hOwner hNe
        have hDeposit : (r.deposited (-amount.toInt)).deposit = max 0 _ := Region.deposit_deposited
        obtain ⟨hSameOwner, hSameFlag⟩ := Region.deposited_of_pos
          (show 0 < (r.deposited (-amount.toInt)).deposit by omega)
        exact ⟨_, _, hShot, hSameFlag.trans hFlag, hSameOwner.trans hOwner⟩
      | captured => cases hOpen
      | stopped => exact ⟨_, r, hr, hFlag, hOwner⟩

theorem Contested.call {event : Event} {ok : Bool} (h : g.Contested) (hUnderway : g.Underway)
    (hEffect : CallEffect g event ok g') (hOpen : g'.ended = false) : g'.Contested := by
  have hCurrent := hEffect.frame.2.2
  constructor
  · intro i p hi hp hAlive
    rw [hCurrent] at hi
    rw [hEffect.waiting_eq hOpen hi] at hp
    obtain ⟨hBudget, hCenter⟩ := h.means i p hi hp hAlive
    exact ⟨hBudget, hEffect.keeps_center hUnderway hOpen
      (hUnderway.sound.id_ne_of_waiting hi hp) hCenter⟩
  · obtain ⟨i, p, hi, hp, hAlive⟩ := h.exists_waiting
    exact ⟨i, p, by rwa [hCurrent], by rwa [hEffect.waiting_eq hOpen hi], hAlive⟩

theorem exists_ne_of_two_le_countP {α : Type} {P : α → Bool} {l : List α} (h : 2 ≤ l.countP P)
    (c : Nat) : ∃ i a, i ≠ c ∧ l[i]? = some a ∧ P a = true := by
  induction l generalizing c with
  | nil => simp at h
  | cons a l ih =>
    rw [List.countP_cons] at h
    cases c with
    | zero =>
      have hRest : 0 < l.countP P := by
        split at h <;> omega
      obtain ⟨b, hb, hP⟩ := List.countP_pos_iff.mp hRest
      obtain ⟨i, hi⟩ := List.mem_iff_getElem?.mp hb
      exact ⟨i + 1, b, by omega, hi, hP⟩
    | succ c =>
      by_cases hP : P a = true
      · exact ⟨0, a, by omega, rfl, hP⟩
      · rw [if_neg hP] at h
        obtain ⟨i, b, hi, hb, hP⟩ := ih h c
        exact ⟨i + 1, b, by omega, hb, hP⟩

theorem Settled.contested (h : g.Settled) (hEnded : g.ended = false) : g.Contested where
  means _ p _ hp := h.means hEnded p (List.mem_of_getElem? hp)
  exists_waiting := exists_ne_of_two_le_countP (h.two_alive hEnded) g.current

theorem Contested.getElem?_sweepOut (h : g.Contested) {i : Nat} {p : Player} (hi : i ≠ g.current)
    (hp : g.players[i]? = some p) (hAlive : p.alive = true) : g.sweepOut.players[i]? = some p := by
  obtain ⟨hBudget, hCenter⟩ := h.means i p hi hp hAlive
  have hKept : g.isLost p = false := by
    simp only [isLost, Bool.or_eq_false_iff, beq_eq_false_iff_ne, Option.isNone_eq_false_iff]
    exact ⟨by omega, hCenter⟩
  change (g.players.map _)[i]? = _
  rw [List.getElem?_map, hp]
  simp [hKept]

theorem Contested.eq_current_of_eliminated (h : g.ended = false → g.Contested) {i : Nat}
    {p q : Player} (hp : g.players[i]? = some p) (hq : g.endTurn.players[i]? = some q)
    (hAlive : p.alive = true) (hOut : q.alive = false) : i = g.current := by
  by_contra hi
  cases hEnded : g.ended with
  | true =>
    rw [endTurn_of_ended hEnded, hp] at hq
    obtain rfl := Option.some.inj hq
    rw [hAlive] at hOut
    cases hOut
  | false =>
    rw [players_endTurn hEnded, (h hEnded).getElem?_sweepOut hi hp hAlive] at hq
    obtain rfl := Option.some.inj hq
    rw [hAlive] at hOut
    cases hOut

theorem Contested.decided_endTurn (h : g.Contested) (hEnded : g.ended = false) :
    g.endTurn.Decided := by
  intro hOver
  rcases endTurn_cases hEnded with ⟨hNobody, _⟩ | ⟨last, _, hEnd⟩ | ⟨i, _, _, _, hNext⟩
  · obtain ⟨i, p, hi, hp, hAlive⟩ := h.exists_waiting
    have hMem := List.mem_of_getElem? (h.getElem?_sweepOut hi hp hAlive)
    exact absurd hAlive (List.filter_eq_nil_iff.mp hNobody p hMem)
  · rw [hEnd]
    exact Option.some_ne_none _
  · rcases hNext with hNext | hNext
    · rw [hNext, ended_withCurrent] at hOver
      exact absurd (hEnded.symm.trans hOver) Bool.false_ne_true
    · rw [hNext, ended_withCurrent] at hOver
      exact absurd (hEnded.symm.trans hOver) Bool.false_ne_true

/-- In a turn that somebody takes, while others are waiting for theirs unless the game is over. -/
structure InPlay (g : Game) : Prop where
  underway : g.Underway
  decided : g.Decided
  contested : g.ended = false → g.Contested

theorem InPlay.exec (event : Event) (s : Game) (h : s.InPlay) : (event.exec s).2.InPlay where
  underway := h.underway.exec event s
  decided := h.decided.exec event s
  contested hOpen := by
    have hEffect := exec_effect s event
    exact (h.contested (hEffect.open_before hOpen)).call h.underway hEffect hOpen

structure Undrawn (g : Game) : Prop where
  ready : g.Ready
  settled : g.Settled
  decided : g.Decided

theorem Undrawn.beginTurn (h : g.Undrawn) (hEnded : g.ended = false) :
    (beginTurn.run g).2.InPlay := by
  have hUnderway := (h.ready.beginTurn hEnded).2
  have hContested := h.settled.contested hEnded
  obtain ⟨crew, hCrew⟩ := snd_run_beginTurn g
  rw [hCrew] at hUnderway ⊢
  exact ⟨hUnderway, h.decided, fun _ => ⟨hContested.means, hContested.exists_waiting⟩⟩

theorem Undrawn.turn (h : g.Undrawn) (hTurn : Turn g g') : g'.Undrawn := by
  have hSettled := h.ready.settled hTurn
  obtain ⟨plan, flow, hPlay⟩ := hTurn.exists_playTurn
  refine ⟨h.ready.playTurn hPlay, hSettled, ?_⟩
  obtain ⟨hEnded, hTurn⟩ := of_playTurn_eq_ok hPlay
  rcases hTurn with ⟨_, _, rfl⟩ | ⟨hFalse, _⟩
  · have hRun := ((plan.linked_calls _).forall_of_step InPlay.exec (h.beginTurn hEnded)).1
    cases hOver : (plan.run.run (Game.beginTurn.run g).2).2.ended with
    | true =>
      rw [endTurn_of_ended hOver]
      exact hRun.decided
    | false => exact (hRun.contested hOver).decided_endTurn hOver
  · rw [(h.ready.beginTurn hEnded).1] at hFalse
    cases hFalse

theorem Undrawn.later (h : g.Undrawn) (hLater : Later g s) :
    s.Decided ∧ (s.ended = false → s.Contested) := by
  obtain ⟨t, hTurns, hLast⟩ := hLater
  have hUndrawn : t.Undrawn := by
    clear hLast
    induction hTurns with
    | refl => exact h
    | tail _ hTurn ih => exact ih.turn hTurn
  rcases hLast with rfl | ⟨hEnded, plan, hPassed⟩
  · exact ⟨hUndrawn.decided, hUndrawn.settled.contested⟩
  · have hInPlay := forall_passed (hUndrawn.beginTurn hEnded) InPlay.exec s hPassed
    exact ⟨hInPlay.decided, hInPlay.contested⟩

/-- All players of a new game are alive, with the same budget. -/
theorem new_players {settings : Settings} {names : List String} {seed : UInt64} {new : Game}
    (h : create settings names seed = .ok new) : 2 ≤ new.players.length ∧
      ∀ p ∈ new.players, p.alive = true ∧ p.budget = max 0 settings.initBudget ∧
        (new.territory.cityCenterOf? p.id).isSome := by
  obtain ⟨hMin, _, board, centers, random, _, _, hStart⟩ := of_create_eq_ok h
  obtain ⟨hCenters, _, hTerritory, hPlayers, _⟩ := of_start_eq_ok hStart
  constructor
  · rw [hPlayers, seated, List.length_map, List.length_zipIdx]
    exact hMin
  · intro p hp
    rw [hPlayers] at hp
    have hCenter := hCenters p hp
    obtain ⟨⟨name, i⟩, _, rfl⟩ := List.mem_map.mp hp
    exact ⟨rfl, rfl, by rwa [hTerritory]⟩

theorem undrawn_create {settings : Settings} {names : List String} {seed : UInt64} {new : Game}
    (hSettings : settings.validate = .ok ()) (hBudget : 1 ≤ settings.initBudget)
    (h : create settings names seed = .ok new) : new.Undrawn := by
  obtain ⟨_, _, _, _, _, _, _, hStart⟩ := of_create_eq_ok h
  obtain ⟨_, _, _, _, _, _, _, hEnded, _⟩ := of_start_eq_ok hStart
  obtain ⟨hTwo, hNew⟩ := new_players h
  refine ⟨ready_create hSettings h, ⟨?_, ?_, by simp [hEnded]⟩, by simp [Decided, hEnded]⟩
  · intro _ p hp _
    obtain ⟨_, hEach, hCenter⟩ := hNew p hp
    exact ⟨by omega, hCenter⟩
  · intro _
    rwa [List.countP_eq_length.mpr fun p hp => (hNew p hp).1]

structure Broke (g : Game) : Prop where
  budget_eq : ∀ p ∈ g.players, p.budget = 0
  ongoing : g.ended = false
  winner_eq : g.winner = none
  not_overflowed : g.overflowed = false

theorem Broke.modifyActor (h : g.Broke) {f : Player → Player}
    (hf : ∀ p, p.budget = 0 → (f p).budget = 0) : (g.modifyActor f).Broke where
  budget_eq p hp := by
    rcases mem_modify_cases hp with hp | ⟨q, hq, rfl⟩
    · exact h.budget_eq p hp
    · exact hf q (h.budget_eq q hq)
  ongoing := h.ongoing
  winner_eq := h.winner_eq
  not_overflowed := h.not_overflowed

theorem Broke.charge (h : g.Broke) : (g.charge fee).Broke :=
  h.modifyActor fun p hp => by
    change max 0 (capped (p.budget + -fee)) = 0
    rw [hp]
    rfl

/-- Without money the actions come to nothing but the loss of a fee that is not there. -/
theorem Broke.act (h : g.Broke) {a : Action Value} {ok : Bool} (hEffect : Effect g a ok g') :
    g'.Broke := by
  have hNothing : g.actor.budget = 0 := h.budget_eq g.actor actor_mem
  have hStill : (g.charge fee).actor.budget = 0 := h.charge.budget_eq _ actor_mem
  cases hEffect with
  | refused => exact h
  | wasted => exact h.charge
  | moved => exact { h.charge with }
  | invested amount _ hAmount _ hAfford =>
    have hAfford : amount.toInt ≤ (g.charge fee).actor.budget := hAfford
    omega
  | collected amount r _ _ hAfford =>
    have hAfford : 1 ≤ g.actor.budget := hAfford
    omega
  | relocated center steps _ _ _ _ _ hAfford =>
    have hAfford : 5 * (steps : Int) + 10 ≤ (g.charge fee).actor.budget := hAfford
    omega
  | shot d amount _ hAmount hAfford =>
    have hAfford : min maxAmount (amount.toInt + 1) ≤ g.actor.budget := hAfford
    unfold maxAmount at hAfford
    omega
  | captured d amount r loser _ hAmount hAfford =>
    have hAfford : min maxAmount (amount.toInt + 1) ≤ g.actor.budget := hAfford
    unfold maxAmount at hAfford
    omega
  | stopped d amount _ hAmount hAfford =>
    have hAfford : min maxAmount (amount.toInt + 1) ≤ g.actor.budget := hAfford
    unfold maxAmount at hAfford
    omega

theorem Broke.exec (event : Event) (s : Game) (h : s.Broke) : (event.exec s).2.Broke := by
  have hEffect := exec_effect s event
  generalize (event.exec s).1 = ok at hEffect
  generalize (event.exec s).2 = s' at hEffect ⊢
  cases hEffect with
  | nothing => exact h
  | drawn => exact { h with }
  | assigned => exact h.modifyActor fun _ hp => hp
  | acted hEffect => exact h.act hEffect

theorem Broke.endTurn (h : g.Broke) : g.endTurn.overflowed = false ∧ g.endTurn.ended = true ∧
    g.endTurn.winner = none ∧ ∀ p ∈ g.endTurn.players, p.alive = false := by
  have hOut : ∀ p ∈ g.sweepOut.players, p.alive = false := by
    intro p hp
    by_contra hAlive
    obtain ⟨hMem, hKept⟩ := mem_sweepOut_of_alive hp (by simpa using hAlive)
    simp [isLost, h.budget_eq p hMem] at hKept
  have hNobody : g.sweepOut.players.filter (·.alive) = [] := by
    rw [List.filter_eq_nil_iff]
    intro p hp
    simp [hOut p hp]
  have hEnd : g.endTurn = { g.sweepOut with ended := true } := by
    rw [Game.endTurn, if_neg (by simp [h.ongoing])]
    dsimp only
    rw [hNobody]
  rw [hEnd]
  exact ⟨h.not_overflowed, rfl, h.winner_eq, hOut⟩

theorem Broke.playTurn (h : g.Broke) (plan : Plan) : ∃ flow g', g.playTurn plan = .ok (flow, g') ∧
    g'.ended = true ∧ g'.winner = none ∧ ∀ p ∈ g'.players, p.alive = false := by
  have hStart : (Game.beginTurn.run g).2.Broke := by
    obtain ⟨crew, hCrew⟩ := snd_run_beginTurn g
    rw [hCrew]
    exact { h with }
  cases hBegun : (Game.beginTurn.run g).1 with
  | true =>
    have hRun := ((plan.linked_calls _).forall_of_step Broke.exec hStart).1
    obtain ⟨hRuns, hOver⟩ := hRun.endTurn
    exact ⟨_, _, playTurn_eq_ok_iff.mpr ⟨h.ongoing, runTurn_of_begun hBegun, hRuns⟩, hOver⟩
  | false =>
    obtain ⟨hRuns, hOver⟩ := hStart.endTurn
    exact ⟨_, _, playTurn_eq_ok_iff.mpr ⟨h.ongoing, runTurn_of_not_begun hBegun, hRuns⟩, hOver⟩

theorem broke_create {settings : Settings} {names : List String} {seed : UInt64} {new : Game}
    (hBudget : settings.initBudget = 0) (h : create settings names seed = .ok new) :
    new.Broke := by
  obtain ⟨_, _, _, _, _, _, _, hStart⟩ := of_create_eq_ok h
  obtain ⟨_, _, _, _, _, _, hWinner, hEnded, _⟩ := of_start_eq_ok hStart
  refine ⟨?_, hEnded, hWinner, overflowed_create h⟩
  intro p hp
  rw [((new_players h).2 p hp).2.1, hBudget]
  rfl

/-- If the players start with money, a game that is over has a winner at whatever point it is looked
at, and the end of a turn eliminates nobody but the player who has taken it. If they start without,
the first turn ends the game with nobody left, whatever the plan. -/
theorem drawn_only_without_money {settings : Settings} {names : List String} {seed : UInt64}
    {new : Game} (hSettings : settings.validate = .ok ())
    (hCreate : create settings names seed = .ok new) :
    (1 ≤ settings.initBudget → ∀ s, Later new s →
      (s.ended = true → ∃ id, s.winner = some id) ∧
      ∀ (i : Nat) (p q : Player), s.players[i]? = some p → s.endTurn.players[i]? = some q →
        p.alive = true → q.alive = false → i = s.current) ∧
    (settings.initBudget = 0 → ∀ plan, ∃ flow g, new.playTurn plan = .ok (flow, g) ∧
      g.ended = true ∧ g.winner = none ∧ ∀ p ∈ g.players, p.alive = false) := by
  constructor
  · intro hBudget s hLater
    obtain ⟨hDecided, hContested⟩ := (undrawn_create hSettings hBudget hCreate).later hLater
    refine ⟨fun hEnded => Option.ne_none_iff_exists'.mp (hDecided hEnded), ?_⟩
    intro i p q hp hq hAlive hOut
    exact Contested.eq_current_of_eliminated hContested hp hq hAlive hOut
  · intro hBudget plan
    exact (broke_create hBudget hCreate).playTurn plan

/-- The first duel is won in its first turn, and without money the same plan ends it for both. -/
theorem duel_drawn_without_money :
    (∃ new s, create duelSettings ["a", "b"] 7 = .ok new ∧ Later new s ∧ s.ended = true ∧
      ∃ id, s.winner = some id) ∧
    ∃ new flow g, create { duelSettings with initBudget := 0 } ["a", "b"] 7 = .ok new ∧
      new.playTurn duelPlan = .ok (flow, g) ∧ g.ended = true ∧ g.winner = none ∧
      ∀ p ∈ g.players, p.alive = false := by
  constructor
  · obtain ⟨new, start, hCreate, hEnded, hBegin, hOver⟩ := exists_duel
    have hLater : Later new (duelPlan.run.run start).2 := by
      refine ⟨new, .refl, .inr ⟨hEnded, duelPlan, ?_⟩⟩
      rw [hBegin]
      exact last_mem_passed duelPlan start
    have hWon := (drawn_only_without_money rfl hCreate).1 (by decide) _ hLater
    exact ⟨new, _, hCreate, hLater, hOver, hWon.1 hOver⟩
  · have hOk : (create { duelSettings with initBudget := 0 } ["a", "b"] 7).isOk = true := by
      decide +kernel
    cases hCreate : create { duelSettings with initBudget := 0 } ["a", "b"] 7 with
    | error e =>
      rw [hCreate] at hOk
      cases hOk
    | ok new =>
      obtain ⟨flow, g, hPlay, hOver⟩ :=
        (drawn_only_without_money rfl hCreate).2 rfl duelPlan
      exact ⟨new, flow, g, rfl, hPlay, hOver⟩

end Game

end CityCrew
