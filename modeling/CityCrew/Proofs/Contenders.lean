import CityCrew.Proofs.Elimination
import CityCrew.Proofs.Schedule

/-!
# Who is left in a game

Some facts about a game need no valid settings. The players keep the ids from 1 on. While the game
goes on, two of them at least are left, and one of those acts. It is over because somebody who is
left has won it, or because nobody is left.
-/

namespace CityCrew

namespace Game

variable {g g' s : Game}

structure Orderly (g : Game) : Prop where
  ids_eq : g.players.map (·.id) = List.range' 1 g.players.length
  turn_pos : 1 ≤ g.turn
  actor_alive : g.ended = false → g.actor.alive = true
  two_alive : g.ended = false → 2 ≤ g.players.countP (·.alive)
  winner_alive : ∀ id, g.winner = some id →
    g.ended = true ∧ ∃ p ∈ g.players, p.id = id ∧ p.alive = true
  all_out : g.ended = true → g.winner = none → ∀ p ∈ g.players, p.alive = false

theorem Orderly.ids_nodup (h : g.Orderly) : (g.players.map (·.id)).Nodup := by
  rw [h.ids_eq]
  exact List.nodup_range'

theorem Orderly.id_eq (h : g.Orderly) {i : Nat} {p : Player} (hp : g.players[i]? = some p) :
    p.id = i + 1 := by
  have hId : (g.players.map (·.id))[i]? = some p.id := by
    rw [List.getElem?_map, hp]
    rfl
  obtain ⟨hi, _⟩ := List.getElem?_eq_some_iff.mp hp
  rw [h.ids_eq, List.getElem?_range' hi] at hId
  rw [← Option.some.inj hId, Nat.one_mul, Nat.add_comm]

theorem getElem?_current (g : Game) : g.players[g.current]? = some g.actor :=
  List.getElem?_eq_getElem g.current_lt

theorem Orderly.id_actor (h : g.Orderly) : g.actor.id = g.current + 1 :=
  h.id_eq g.getElem?_current

/-- The player whose turn it is is left, and nobody else can have won. -/
structure Engaged (g : Game) : Prop where
  actor_alive : g.actor.alive = true
  winner_eq : g.winner = if g.ended then some g.actor.id else none

@[simp] theorem alive_actor_charge {n : Int} : (g.charge n).actor.alive = g.actor.alive := by
  simp [charge, Player.debit, Player.credit_eq]

theorem CallEffect.alive_actor {event : Event} {ok : Bool} (h : CallEffect g event ok g') :
    g'.actor.alive = g.actor.alive := by
  cases h with
  | nothing => rfl
  | drawn => rfl
  | assigned name value =>
    rw [actor_modifyActor]
    rfl
  | acted h =>
    cases h with
    | refused => rfl
    | wasted => exact alive_actor_charge
    | moved => exact alive_actor_charge
    | invested => exact alive_actor_charge.trans alive_actor_charge
    | collected =>
      rw [actor_modifyActor]
      exact alive_actor_charge
    | relocated => exact alive_actor_charge.trans alive_actor_charge
    | shot => exact alive_actor_charge
    | captured d amount r loser _ _ _ _ _ _ hLoser =>
      refine (congrArg Player.alive (actor_modifyPlayer ?_)).trans alive_actor_charge
      simpa using hLoser
    | stopped => rfl

theorem Engaged.call {event : Event} {ok : Bool} (h : g.Engaged) (hEffect : CallEffect g event ok g') :
    g'.Engaged where
  actor_alive := hEffect.alive_actor.trans h.actor_alive
  winner_eq := by
    have hWinner := h.winner_eq
    rw [hEffect.id_actor]
    cases hEffect with
    | nothing => exact hWinner
    | drawn => exact hWinner
    | assigned => exact hWinner
    | acted hEffect =>
      cases hEffect with
      | captured => rfl
      | _ => exact hWinner

theorem Engaged.exec (event : Event) (s : Game) (h : s.Engaged) : (event.exec s).2.Engaged :=
  h.call (exec_effect s event)

theorem Orderly.winner_eq_none (h : g.Orderly) (hEnded : g.ended = false) : g.winner = none := by
  by_contra hSome
  obtain ⟨id, hId⟩ := Option.ne_none_iff_exists'.mp hSome
  have hOver := (h.winner_alive id hId).1
  rw [hEnded] at hOver
  cases hOver

theorem Orderly.engaged_beginTurn (h : g.Orderly) (hEnded : g.ended = false) :
    (beginTurn.run g).2.Engaged := by
  obtain ⟨crew, hCrew⟩ := snd_run_beginTurn g
  rw [hCrew]
  refine ⟨h.actor_alive hEnded, ?_⟩
  change g.winner = if g.ended then _ else _
  rw [h.winner_eq_none hEnded, hEnded]
  rfl

@[simp] theorem winner_withCurrent (g : Game) (i : Nat) : (g.withCurrent i).winner = g.winner := by
  unfold withCurrent
  split <;> rfl

theorem turn_endTurn (g : Game) : g.turn ≤ g.endTurn.turn ∧ g.endTurn.turn ≤ g.turn + 1 := by
  cases hEnded : g.ended with
  | true =>
    rw [endTurn_of_ended hEnded]
    omega
  | false =>
    rcases endTurn_cases hEnded with ⟨_, hEnd⟩ | ⟨_, _, hEnd⟩ | ⟨i, _, _, _, hNext | hNext⟩
    · rw [hEnd]
      exact ⟨Int.le_refl g.turn, Int.le_add_one (Int.le_refl g.turn)⟩
    · rw [hEnd]
      exact ⟨Int.le_refl g.turn, Int.le_add_one (Int.le_refl g.turn)⟩
    · rw [hNext, turn_withCurrent]
      exact ⟨Int.le_refl g.turn, Int.le_add_one (Int.le_refl g.turn)⟩
    · rw [hNext, turn_withCurrent]
      exact g.sweepOut.turn_nextRound

theorem Engaged.orderly_endTurn (h : g.Engaged)
    (hIds : g.players.map (·.id) = List.range' 1 g.players.length) (hTurn : 1 ≤ g.turn) :
    g.endTurn.Orderly := by
  have hKeeps := KeepsOut.endTurn g
  have hIds' : g.endTurn.players.map (·.id) = List.range' 1 g.endTurn.players.length := by
    rw [hKeeps.ids_eq, hKeeps.length_eq, hIds]
  have hTurn' : 1 ≤ g.endTurn.turn := Int.le_trans hTurn (turn_endTurn g).1
  cases hEnded : g.ended with
  | true =>
    have hWinner : g.winner = some g.actor.id := by
      rw [h.winner_eq, hEnded]
      rfl
    rw [endTurn_of_ended hEnded]
    refine ⟨hIds, hTurn, by simp [hEnded], by simp [hEnded], ?_, by simp [hWinner]⟩
    intro id hId
    obtain rfl := Option.some.inj (hWinner.symm.trans hId)
    exact ⟨hEnded, g.actor, actor_mem, rfl, h.actor_alive⟩
  | false =>
    have hNone : g.winner = none := by
      rw [h.winner_eq, hEnded]
      rfl
    rcases endTurn_cases hEnded with ⟨hNobody, hEnd⟩ | ⟨last, hLast, hEnd⟩ | ⟨i, p, hp, hAlive, hNext⟩
    · rw [hEnd] at hIds' hTurn' ⊢
      refine ⟨hIds', hTurn', by simp, by simp, ?_, ?_⟩
      · intro id hId
        change g.winner = some id at hId
        rw [hNone] at hId
        cases hId
      · intro _ _ p hp
        simpa using List.filter_eq_nil_iff.mp hNobody p hp
    · rw [hEnd] at hIds' hTurn' ⊢
      have hMem : last ∈ g.sweepOut.players.filter (·.alive) := by simp [hLast]
      rw [List.mem_filter] at hMem
      refine ⟨hIds', hTurn', by simp, by simp, ?_, by simp⟩
      rintro id ⟨⟩
      exact ⟨rfl, last, hMem.1, rfl, hMem.2⟩
    · have hOpen : g.endTurn.ended = false := by
        rcases hNext with hNext | hNext <;> rw [hNext, ended_withCurrent] <;> exact hEnded
      have hWinner : g.endTurn.winner = none := by
        rcases hNext with hNext | hNext <;> rw [hNext, winner_withCurrent] <;> exact hNone
      have hActor : g.endTurn.actor = p := by
        rcases hNext with hNext | hNext <;> rw [hNext]
        · exact actor_withCurrent hp
        · exact actor_withCurrent (g := g.sweepOut.nextRound) hp
      exact ⟨hIds', hTurn', fun _ => hActor ▸ hAlive, fun _ => two_alive_endTurn hEnded hOpen,
        by simp [hWinner], by simp [hOpen]⟩

/-- A turn comes to its end in a game that has the clock of `g`. -/
theorem Orderly.exists_endTurn (h : g.Orderly) {plan : Plan} {flow : Flow}
    (hPlay : g.playTurn plan = .ok (flow, g')) : ∃ s : Game, s.Engaged ∧
      s.players.map (·.id) = g.players.map (·.id) ∧ s.turn = g.turn ∧ g' = s.endTurn := by
  obtain ⟨hEnded, hTurn⟩ := of_playTurn_eq_ok hPlay
  have hEngaged := h.engaged_beginTurn hEnded
  have hIds := (KeepsOut.beginTurn g).ids_eq
  have hClock : (beginTurn.run g).2.turn = g.turn := by
    obtain ⟨crew, hCrew⟩ := snd_run_beginTurn g
    rw [hCrew]
  rcases hTurn with ⟨_, _, rfl⟩ | ⟨_, _, rfl⟩
  · have hLinked := plan.linked_calls (beginTurn.run g).2
    exact ⟨_, (hLinked.forall_of_step Engaged.exec hEngaged).1,
      (hLinked.forall_of_step KeepsOut.exec (.beginTurn g)).1.ids_eq,
      (Linked.clock hLinked).1.trans hClock, rfl⟩
  · exact ⟨_, hEngaged, hIds, hClock, rfl⟩

theorem Orderly.playTurn (h : g.Orderly) {plan : Plan} {flow : Flow}
    (hPlay : g.playTurn plan = .ok (flow, g')) : g'.Orderly := by
  obtain ⟨s, hEngaged, hIds, hTurn, rfl⟩ := h.exists_endTurn hPlay
  have hLength : s.players.length = g.players.length := by simpa using congrArg List.length hIds
  apply hEngaged.orderly_endTurn
  · rw [hIds, hLength, h.ids_eq]
  · rw [hTurn]
    exact h.turn_pos

theorem Orderly.turn_playTurn (h : g.Orderly) {plan : Plan} {flow : Flow}
    (hPlay : g.playTurn plan = .ok (flow, g')) : g.turn ≤ g'.turn ∧ g'.turn ≤ g.turn + 1 := by
  obtain ⟨s, _, _, hTurn, rfl⟩ := h.exists_endTurn hPlay
  rw [← hTurn]
  exact turn_endTurn s

theorem orderly_create {settings : Settings} {names : List String} {seed : UInt64}
    (h : create settings names seed = .ok g) : g.Orderly ∧ g.players.length = names.length ∧
      g.turn = 1 ∧ g.current = 0 ∧ ∀ p ∈ g.players, p.alive = true := by
  obtain ⟨_, _, _, _, _, _, _, hStart⟩ := of_create_eq_ok h
  obtain ⟨_, _, _, hPlayers, hCurrent, hTurn, hWinner, hEnded, _⟩ := of_start_eq_ok hStart
  obtain ⟨hTwo, hNew⟩ := new_players h
  have hAlive : ∀ p ∈ g.players, p.alive = true := fun p hp => (hNew p hp).1
  have hLength : g.players.length = names.length := by
    rw [hPlayers, seated, List.length_map, List.length_zipIdx]
  refine ⟨⟨?_, by omega, fun _ => hAlive _ actor_mem, ?_, by simp [hWinner], by simp [hEnded]⟩,
    hLength, hTurn, hCurrent, hAlive⟩
  · rw [hLength, hPlayers, ids_seated]
  · intro _
    rwa [List.countP_eq_length.mpr hAlive]

end Game

end CityCrew
