import Mathlib.Logic.Relation
import CityCrew.Proofs.Opponents

/-!
# Those who are left

Between two turns everybody who is left in a game that goes on has money and one city center, and
there are at least two of them. A game is over because somebody has won it or because nobody is
left, and nobody who is out ever comes back.
-/

namespace CityCrew

namespace Game

variable {g g' s t : Game}

/-- The players are the same, and who is out in `g` is out in `s`. -/
structure KeepsOut (g s : Game) : Prop where
  ids_eq : s.players.map (·.id) = g.players.map (·.id)
  out : ∀ (i : Nat) (p q : Player), g.players[i]? = some p → s.players[i]? = some q →
    p.alive = false → q.alive = false

namespace KeepsOut

theorem of_players_eq (h : s.players = g.players) : KeepsOut g s where
  ids_eq := by rw [h]
  out i p q hp hq hOut := by
    rw [h, hp] at hq
    obtain rfl := Option.some.inj hq
    exact hOut

theorem length_eq (h : KeepsOut g s) : s.players.length = g.players.length := by
  simpa using congrArg List.length h.ids_eq

theorem trans (h : KeepsOut g s) (h' : KeepsOut s t) : KeepsOut g t where
  ids_eq := h'.ids_eq.trans h.ids_eq
  out i p q hp hq hOut := by
    have hi : i < s.players.length := by
      rw [h.length_eq]
      exact (List.getElem?_eq_some_iff.mp hp).1
    have hs : s.players[i]? = some s.players[i] := List.getElem?_eq_getElem hi
    exact h'.out i _ q hs hq (h.out i p _ hp hs hOut)

theorem of_modify {f : Player → Player} {i : Nat} (h : s.players = g.players.modify i f)
    (hId : ∀ p, (f p).id = p.id) (hOut : ∀ p, p.alive = false → (f p).alive = false) :
    KeepsOut g s where
  ids_eq := by rw [h, map_modify_of_eq _ _ hId]
  out j p q hp hq hDead := by
    rw [h, List.getElem?_modify, hp] at hq
    obtain rfl := Option.some.inj hq
    split
    · exact hOut p hDead
    · exact hDead

theorem sweepOut (g : Game) : KeepsOut g g.sweepOut where
  ids_eq := ids_sweepOut
  out i p q hp hq hDead := by
    change (g.players.map _)[i]? = some q at hq
    rw [List.getElem?_map, hp] at hq
    obtain rfl := Option.some.inj hq
    simp [hDead]

theorem charge (g : Game) (n : Int) : KeepsOut g (g.charge n) :=
  of_modify rfl (fun _ => rfl) fun _ hDead => hDead

end KeepsOut

theorem Effect.keepsOut {a : Action Value} {ok : Bool} (h : Effect g a ok g') : KeepsOut g g' := by
  cases h with
  | refused => exact .of_players_eq rfl
  | wasted => exact .charge g fee
  | moved => exact .trans (.charge g fee) (.of_players_eq rfl)
  | invested amount =>
    exact .trans (.charge g fee) (.trans (.charge _ amount.toInt) (.of_players_eq rfl))
  | collected =>
    exact .trans (.charge g fee) (.of_modify rfl (fun _ => rfl) fun _ hDead => hDead)
  | relocated center steps =>
    exact .trans (.charge g fee) (.trans (.charge _ (relocationCost steps)) (.of_players_eq rfl))
  | shot d amount => exact .trans (.charge g (amount.toInt + fee)) (.of_players_eq rfl)
  | captured d amount =>
    exact .trans (.charge g (amount.toInt + fee)) (.of_modify rfl (fun _ => rfl) fun _ _ => rfl)
  | stopped => exact .of_players_eq rfl

theorem CallEffect.keepsOut {event : Event} {ok : Bool} (h : CallEffect g event ok g') :
    KeepsOut g g' := by
  cases h with
  | nothing => exact .of_players_eq rfl
  | drawn => exact .of_players_eq rfl
  | assigned => exact .of_modify rfl (fun _ => rfl) fun _ hDead => hDead
  | acted h => exact h.keepsOut

theorem KeepsOut.exec (event : Event) (s : Game) (h : KeepsOut g s) :
    KeepsOut g (event.exec s).2 :=
  h.trans (exec_effect s event).keepsOut

theorem KeepsOut.beginTurn (g : Game) : KeepsOut g (beginTurn.run g).2 := by
  obtain ⟨crew, hCrew⟩ := snd_run_beginTurn g
  rw [hCrew]
  exact .of_players_eq rfl

@[simp] theorem settings_withCurrent (g : Game) (i : Nat) :
    (g.withCurrent i).settings = g.settings := by
  unfold withCurrent
  split <;> rfl

@[simp] theorem players_withCurrent (g : Game) (i : Nat) :
    (g.withCurrent i).players = g.players := by
  unfold withCurrent
  split <;> rfl

@[simp] theorem territory_withCurrent (g : Game) (i : Nat) :
    (g.withCurrent i).territory = g.territory := by
  unfold withCurrent
  split <;> rfl

@[simp] theorem ended_withCurrent (g : Game) (i : Nat) : (g.withCurrent i).ended = g.ended := by
  unfold withCurrent
  split <;> rfl

/-- All that the end of a turn does to the players is the elimination. -/
theorem players_endTurn (hEnded : g.ended = false) : g.endTurn.players = g.sweepOut.players := by
  rcases endTurn_cases hEnded with ⟨_, hEnd⟩ | ⟨_, _, hEnd⟩ | ⟨i, _, _, _, hNext | hNext⟩
  · rw [hEnd]
  · rw [hEnd]
  · rw [hNext, players_withCurrent]
  · rw [hNext, players_withCurrent]
    rfl

theorem settings_endTurn (g : Game) : g.endTurn.settings = g.settings := by
  cases hEnded : g.ended with
  | true => rw [endTurn_of_ended hEnded]
  | false =>
    rcases endTurn_cases hEnded with ⟨_, hEnd⟩ | ⟨_, _, hEnd⟩ | ⟨_, _, _, _, hNext | hNext⟩
    · rw [hEnd]
      rfl
    · rw [hEnd]
      rfl
    · rw [hNext, settings_withCurrent]
      rfl
    · rw [hNext, settings_withCurrent]
      rfl

theorem KeepsOut.endTurn (g : Game) : KeepsOut g g.endTurn := by
  cases hEnded : g.ended with
  | true => exact .of_players_eq (by rw [endTurn_of_ended hEnded])
  | false => exact .trans (.sweepOut g) (.of_players_eq (players_endTurn hEnded))

theorem KeepsOut.playTurn {plan : Plan} {flow : Flow} (h : g.playTurn plan = .ok (flow, g')) :
    KeepsOut g g' := by
  obtain ⟨_, hTurn⟩ := of_playTurn_eq_ok h
  have hBegin := KeepsOut.beginTurn g
  rcases hTurn with ⟨_, _, rfl⟩ | ⟨_, _, rfl⟩
  · have hRun := ((plan.linked_calls _).forall_of_step KeepsOut.exec hBegin).1
    exact hRun.trans (.endTurn _)
  · exact hBegin.trans (.endTurn _)

def Turn (g g' : Game) : Prop :=
  (∃ plan flow, g.playTurn plan = .ok (flow, g')) ∨ ∃ text flow, g.submitPlan text = .ok (flow, g')

/-- Some turns lead from `g` to `s`, or to a game in whose turn a plan passes through `s`. -/
def Later (g s : Game) : Prop :=
  ∃ h, Relation.ReflTransGen Turn g h ∧
    (s = h ∨ h.ended = false ∧ ∃ plan, s ∈ passed plan (beginTurn.run h).2)

theorem Turn.exists_playTurn (h : Turn g g') : ∃ plan flow, g.playTurn plan = .ok (flow, g') := by
  rcases h with h | ⟨text, flow, hSubmit⟩
  · exact h
  · obtain ⟨plan, _, hPlay⟩ := submitPlan_eq_ok hSubmit
    exact ⟨plan, flow, hPlay⟩

theorem BetweenTurns.turn (h : BetweenTurns g) (hTurn : Turn g g') : BetweenTurns g' := by
  rcases hTurn with ⟨_, _, hPlay⟩ | ⟨_, _, hSubmit⟩
  · exact h.playTurn hPlay
  · exact h.submitPlan hSubmit

theorem BetweenTurns.turns (h : BetweenTurns g) (hTurns : Relation.ReflTransGen Turn g g') :
    BetweenTurns g' := by
  induction hTurns with
  | refl => exact h
  | tail _ hTurn ih => exact ih.turn hTurn

theorem KeepsOut.later (h : Later g s) : KeepsOut g s := by
  obtain ⟨t, hTurns, hLast⟩ := h
  have hKeeps : KeepsOut g t := by
    clear hLast
    induction hTurns with
    | refl => exact .of_players_eq rfl
    | tail _ hTurn ih =>
      obtain ⟨_, _, hPlay⟩ := hTurn.exists_playTurn
      exact ih.trans (.playTurn hPlay)
  rcases hLast with rfl | ⟨_, plan, hPassed⟩
  · exact hKeeps
  · exact forall_passed (hKeeps.trans (.beginTurn t)) KeepsOut.exec s hPassed

/-- A game that is over has a winner. The end of a turn can break this, a plan cannot. -/
def Decided (g : Game) : Prop :=
  g.ended = true → g.winner ≠ none

theorem Decided.exec (event : Event) (s : Game) (h : s.Decided) : (event.exec s).2.Decided := by
  have hEffect := exec_effect s event
  generalize (event.exec s).1 = ok at hEffect
  generalize (event.exec s).2 = s' at hEffect ⊢
  cases hEffect with
  | nothing => exact h
  | drawn => exact h
  | assigned => exact h
  | acted hEffect =>
    cases hEffect with
    | captured =>
      rintro -
      exact Option.some_ne_none _
    | _ => exact h

def HasMeans (g : Game) (p : Player) : Prop :=
  1 ≤ p.budget ∧ (g.territory.cityCenterOf? p.id).isSome

structure Settled (g : Game) : Prop where
  means : g.ended = false → ∀ p ∈ g.players, p.alive = true → g.HasMeans p
  two_alive : g.ended = false → 2 ≤ g.players.countP (·.alive)
  all_out : g.ended = true → g.winner = none → ∀ p ∈ g.players, p.alive = false

theorem Sound.means_sweepOut (h : g.Sound) {p : Player} (hp : p ∈ g.sweepOut.players)
    (hAlive : p.alive = true) : g.sweepOut.HasMeans p := by
  obtain ⟨hMem, hKept⟩ := mem_sweepOut_of_alive hp hAlive
  have hBudget := h.budget_nonneg p hMem
  simp only [isLost, Bool.or_eq_false_iff, beq_eq_false_iff_ne] at hKept
  exact ⟨by omega, center_of_mem_sweepOut hp hAlive⟩

theorem Sound.means_endTurn (h : g.Sound) (hEnded : g.ended = false)
    (hOpen : g.endTurn.ended = false) :
    ∀ p ∈ g.endTurn.players, p.alive = true → g.endTurn.HasMeans p := by
  intro p hp hAlive
  rw [players_endTurn hEnded] at hp
  obtain ⟨hBudget, hCenter⟩ := h.means_sweepOut hp hAlive
  refine ⟨hBudget, ?_⟩
  rcases endTurn_cases hEnded with ⟨_, hEnd⟩ | ⟨_, _, hEnd⟩ | ⟨i, _, _, _, hNext | hNext⟩
  · rw [hEnd] at hOpen
    cases hOpen
  · rw [hEnd] at hOpen
    cases hOpen
  · rw [hNext, territory_withCurrent]
    exact hCenter
  · rw [hNext, territory_withCurrent]
    exact (h.sweepOut hEnded).center_nextRound hCenter

theorem two_alive_endTurn (hEnded : g.ended = false) (hOpen : g.endTurn.ended = false) :
    2 ≤ g.endTurn.players.countP (·.alive) := by
  rw [players_endTurn hEnded, List.countP_eq_length_filter]
  rw [Game.endTurn, if_neg (by simp [hEnded])] at hOpen
  dsimp only at hOpen
  split at hOpen
  · cases hOpen
  · cases hOpen
  · rename_i hSome hMore
    generalize g.sweepOut.players.filter (·.alive) = left at hSome hMore ⊢
    cases left with
    | nil => exact (hSome rfl).elim
    | cons last others =>
      cases others with
      | nil => exact (hMore last rfl).elim
      | cons => simp

theorem Sound.settled_endTurn (h : g.Sound) (hDecided : g.Decided) : g.endTurn.Settled := by
  cases hEnded : g.ended with
  | true =>
    rw [endTurn_of_ended hEnded]
    refine ⟨by simp [hEnded], by simp [hEnded], ?_⟩
    intro _ hNone
    exact (hDecided hEnded hNone).elim
  | false =>
    refine ⟨h.means_endTurn hEnded, two_alive_endTurn hEnded, ?_⟩
    intro hOver hNone p hp
    rw [players_endTurn hEnded] at hp
    rcases endTurn_cases hEnded with ⟨hNobody, _⟩ | ⟨last, _, hEnd⟩ | ⟨i, _, _, _, hNext⟩
    · simpa using List.filter_eq_nil_iff.mp hNobody p hp
    · rw [hEnd] at hNone
      cases hNone
    · have hOpen : g.endTurn.ended = false := by
        rcases hNext with hNext | hNext <;> rw [hNext, ended_withCurrent] <;> exact hEnded
      rw [hOpen] at hOver
      cases hOver

theorem Ready.settled (h : g.Ready) (hTurn : Turn g g') : g'.Settled := by
  obtain ⟨plan, flow, hPlay⟩ := hTurn.exists_playTurn
  obtain ⟨hEnded, hPlay⟩ := of_playTurn_eq_ok hPlay
  obtain ⟨hBegun, hStart⟩ := h.beginTurn hEnded
  have hOpen : (Game.beginTurn.run g).2.Decided := by
    obtain ⟨crew, hCrew⟩ := snd_run_beginTurn g
    rw [hCrew]
    intro hOver
    change g.ended = true at hOver
    rw [hEnded] at hOver
    cases hOver
  rcases hPlay with ⟨_, _, rfl⟩ | ⟨hFalse, _⟩
  · have hDecided := ((plan.linked_calls _).forall_of_step Decided.exec hOpen).1
    exact (hStart.run plan).1.sound.settled_endTurn hDecided
  · rw [hBegun] at hFalse
    cases hFalse

theorem Sound.countP_centers_eq_one (h : g.Sound) {id : PlayerId}
    (hCenter : (g.territory.cityCenterOf? id).isSome) :
    (g.territory.regions.toList.countP fun r => r.cityCenter && r.isOwnedBy id) = 1 := by
  have hMost := List.nodup_iff_count.mp h.nodup_centerOwners id
  rw [count_centerOwners] at hMost
  rw [Territory.cityCenterOf?, Option.isSome_map, Array.find?_isSome] at hCenter
  obtain ⟨r, hr, hOwned⟩ := hCenter
  have hLeast : 0 < g.territory.regions.toList.countP fun r => r.cityCenter && r.isOwnedBy id :=
    List.countP_pos_iff.mpr ⟨r, Array.mem_toList_iff.mpr hr, hOwned⟩
  omega

/-- After one turn at least, everybody who is left can go on: a game that goes on has no winner yet,
at least two players are left, each of them with money and one city center, and the one whose turn
it is can begin it. A game that is over has a winner who is left, or nobody is left. From then on,
and in the middle of turns, too, who is out stays out. -/
theorem survivors_can_go_on {settings : Settings} {names : List String} {seed : UInt64} {new : Game}
    (hSettings : settings.validate = .ok ()) (hCreate : create settings names seed = .ok new)
    (hTurns : Relation.TransGen Turn new g) :
    (g.ended = false → g.winner = none ∧ 2 ≤ g.players.countP (·.alive) ∧ g.actor.alive = true ∧
      (∀ p ∈ g.players, p.alive = true → 1 ≤ p.budget ∧
        (g.territory.regions.toList.countP fun r => r.cityCenter && r.isOwnedBy p.id) = 1) ∧
      (beginTurn.run g).1 = true) ∧
    (g.ended = true → ∀ id, g.winner = some id →
      ∃ p ∈ g.players, p.id = id ∧ p.alive = true) ∧
    (g.ended = true → g.winner = none → ∀ p ∈ g.players, p.alive = false) ∧
    ∀ s, Later g s → KeepsOut g s := by
  have hNew : BetweenTurns new := .create hSettings hCreate
  obtain ⟨last, hEarlier, hLast⟩ := Relation.TransGen.tail'_iff.mp hTurns
  have hBefore := (hNew.turns hEarlier).ready
  have hSettled := hBefore.settled hLast
  have hReady := ((hNew.turns hEarlier).turn hLast).ready
  have hSound := hReady.sound
  refine ⟨?_, ?_, hSettled.all_out, fun s => KeepsOut.later⟩
  · intro hEnded
    refine ⟨hSound.winner_eq_none hEnded, hSettled.two_alive hEnded, hReady.actor_alive hEnded, ?_,
      (hReady.beginTurn hEnded).1⟩
    intro p hp hAlive
    obtain ⟨hBudget, hCenter⟩ := hSettled.means hEnded p hp hAlive
    exact ⟨hBudget, hSound.countP_centers_eq_one hCenter⟩
  · intro _ id hId
    obtain ⟨p, hp, hPair⟩ := List.mem_map.mp (hSound.winner_alive id hId).2
    exact ⟨p, hp, (Prod.mk.inj hPair).1, (Prod.mk.inj hPair).2⟩

def idlePlan : Plan where
  statements := [.done]

theorem exists_duel_after_idle_turn : ∃ new g flow, create duelSettings ["a", "b"] 7 = .ok new ∧
    new.playTurn idlePlan = .ok (flow, g) ∧ g.ended = false := by
  obtain ⟨new, hCreate, hDuel⟩ := exists_duel_with (P := fun new =>
    (new.playTurn idlePlan).toOption.any fun r => !r.2.ended) (by decide +kernel)
  obtain ⟨⟨flow, g⟩, hPlay, hOpen⟩ := exists_eq_ok_of_any hDuel
  exact ⟨new, g, flow, hCreate, hPlay, by simpa using hOpen⟩

/-- In a duel both players are left after a turn in which nothing is done. -/
theorem duel_survives_idle_turn : ∃ new g, create duelSettings ["a", "b"] 7 = .ok new ∧
    Turn new g ∧ g.ended = false ∧ 2 ≤ g.players.countP (·.alive) ∧ (beginTurn.run g).1 = true ∧
    (∀ p ∈ g.players, p.alive = true → 1 ≤ p.budget) ∧ ∀ s, Later g s → KeepsOut g s := by
  obtain ⟨new, g, flow, hCreate, hPlay, hEnded⟩ := exists_duel_after_idle_turn
  have hTurn : Turn new g := .inl ⟨idlePlan, flow, hPlay⟩
  obtain ⟨hOpen, _, _, hOut⟩ := survivors_can_go_on rfl hCreate (.single hTurn)
  obtain ⟨_, hTwo, _, hMeans, hBegun⟩ := hOpen hEnded
  exact ⟨new, g, hCreate, hTurn, hEnded, hTwo, hBegun, fun p hp hAlive => (hMeans p hp hAlive).1,
    hOut⟩

end Game

end CityCrew
