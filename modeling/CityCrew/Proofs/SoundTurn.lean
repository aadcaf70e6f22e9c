import CityCrew.Proofs.Signs
import CityCrew.Proofs.SoundGame

/-!
# Sound turns

Between two turns the game is ready: it is sound and, unless it has ended, the player who is to act
is alive and has a city center. So the crew can be put there, and the turn is underway. The end of
the turn makes the game ready again.
-/

namespace CityCrew

namespace Game

structure Ready (g : Game) : Prop where
  sound : g.Sound
  actor_alive : g.ended = false → g.actor.alive = true
  actor_center : g.ended = false → (g.territory.cityCenterOf? g.actor.id).isSome

variable {g : Game}

theorem run_beginTurn_of_center {center : Point}
    (h : g.territory.cityCenterOf? g.actor.id = some center) :
    beginTurn.run g = (true, { g with crew := center }) := by
  rw [StateT.run, beginTurn, h]

theorem run_beginTurn_of_no_center (h : g.territory.cityCenterOf? g.actor.id = none) :
    beginTurn.run g = (false, g) := by
  rw [StateT.run, beginTurn, h]

/-- To begin a turn only moves the crew. -/
theorem snd_run_beginTurn (g : Game) : ∃ crew, (beginTurn.run g).2 = { g with crew := crew } := by
  cases hCenter : g.territory.cityCenterOf? g.actor.id with
  | none =>
    rw [run_beginTurn_of_no_center hCenter]
    exact ⟨g.crew, rfl⟩
  | some center =>
    rw [run_beginTurn_of_center hCenter]
    exact ⟨center, rfl⟩

theorem Sound.underway_at_center (h : g.Sound) (hAlive : g.actor.alive = true) {center : Point}
    (hCenter : g.territory.cityCenterOf? g.actor.id = some center) :
    Underway { g with crew := center } where
  sound := {
    h with
    crew_mem := by
      obtain ⟨r, hr, _⟩ := h.board.regular.get?_cityCenterOf? hCenter
      exact Territory.contains_of_get? hr }
  actor_alive := hAlive
  crew_unopposed := by
    obtain ⟨r, hr, _, hOwner⟩ := h.board.regular.get?_cityCenterOf? hCenter
    rw [isOpposed_eq_false_iff]
    intro s hs
    obtain rfl := Option.some.inj (hr.symm.trans hs)
    rw [Region.isOpposedTo_eq_false_iff]
    intro owner hId
    exact Option.some.inj (hId.symm.trans hOwner)

theorem Underway.beginTurn (h : g.Underway) : (beginTurn.run g).2.Underway := by
  cases hCenter : g.territory.cityCenterOf? g.actor.id with
  | none =>
    rw [run_beginTurn_of_no_center hCenter]
    exact h
  | some center =>
    rw [run_beginTurn_of_center hCenter]
    exact h.sound.underway_at_center h.actor_alive hCenter

theorem Ready.beginTurn (h : g.Ready) (hEnded : g.ended = false) :
    (beginTurn.run g).1 = true ∧ (beginTurn.run g).2.Underway := by
  obtain ⟨center, hCenter⟩ := Option.isSome_iff_exists.mp (h.actor_center hEnded)
  rw [run_beginTurn_of_center hCenter]
  exact ⟨rfl, h.sound.underway_at_center (h.actor_alive hEnded) hCenter⟩

theorem Sound.winner_eq_none (h : g.Sound) (hEnded : g.ended = false) : g.winner = none := by
  cases hWinner : g.winner with
  | none => rfl
  | some id =>
    have hOver := (h.winner_alive id hWinner).1
    rw [hEnded] at hOver
    cases hOver

theorem ids_sweepOut : g.sweepOut.players.map (·.id) = g.players.map (·.id) := by
  simp only [sweepOut, mapPlayers, List.map_map]
  apply List.map_congr_left
  intro p _
  simp only [Function.comp_apply]
  split <;> rfl

/-- Who is alive after the elimination was alive before it and has not lost. -/
theorem mem_sweepOut_of_alive {p : Player} (h : p ∈ g.sweepOut.players) (hAlive : p.alive = true) :
    p ∈ g.players ∧ g.isLost p = false := by
  obtain ⟨q, hq, rfl⟩ := List.mem_map.mp h
  split at hAlive
  · cases hAlive
  · rename_i hKept
    rw [if_neg hKept]
    refine ⟨hq, ?_⟩
    simpa [hAlive] using hKept

theorem Sound.sweepOut (h : g.Sound) (hEnded : g.ended = false) : g.sweepOut.Sound := by
  apply h.of_players g.sweepOut ⟨rfl, rfl, rfl, rfl⟩ ids_sweepOut
  · intro p hp
    obtain ⟨q, hq, rfl⟩ := List.mem_map.mp hp
    have hBudget := h.budget_nonneg q hq
    split
    · exact hBudget
    · exact hBudget
  · intro id hWinner
    have hNone : g.sweepOut.winner = none := h.winner_eq_none hEnded
    rw [hNone] at hWinner
    cases hWinner

def grown (g : Game) (r : Region) : Region :=
  if r.owner.isSome then r.deposited (g.settings.interest g.turn r.deposit) else r

theorem nextRound_of_isWord (h : IsWord (g.turn + 1)) :
    g.nextRound = { g.payInterest with turn := g.turn + 1 } := by
  simp only [nextRound, word?_of_isWord h, Option.getD_some, Option.isNone_some, Bool.or_false]
  rfl

theorem nextRound_of_not_isWord (h : ¬ IsWord (g.turn + 1)) :
    g.nextRound = g.payInterest.stopped := by
  simp only [nextRound, word?_of_not_isWord h, Option.getD_none, Option.isNone_none, Bool.or_true]
  rfl

theorem turn_nextRound (g : Game) : g.turn ≤ g.nextRound.turn ∧ g.nextRound.turn ≤ g.turn + 1 := by
  by_cases hWord : IsWord (g.turn + 1)
  · rw [nextRound_of_isWord hWord]
    exact ⟨Int.le_add_one (Int.le_refl g.turn), Int.le_refl (g.turn + 1)⟩
  · rw [nextRound_of_not_isWord hWord]
    exact ⟨Int.le_refl g.turn, Int.le_add_one (Int.le_refl g.turn)⟩

theorem territory_nextRound : g.nextRound.territory = g.territory.mapRegions g.grown :=
  rfl

theorem location_grown (r : Region) : (g.grown r).location = r.location := by
  unfold grown
  split
  · exact Region.location_deposited
  · rfl

theorem sound_grown {r : Region} {capacity : Int} (h : r.Sound capacity) (hCapacity : 0 ≤ capacity) :
    (g.grown r).Sound capacity := by
  unfold grown
  split
  · rename_i hSome
    exact Region.sound_deposited h.capacity_eq hCapacity fun _ =>
      Option.isSome_iff_ne_none.mp hSome
  · exact h

/-- Interest takes no region away from its owner. -/
theorem owner_grown {r : Region} {capacity : Int} (h : r.Sound capacity)
    (hPct : 0 ≤ g.settings.interestPct) :
    (g.grown r).owner = r.owner ∧ (g.grown r).cityCenter = r.cityCenter := by
  unfold grown
  split
  · rename_i hSome
    have hNonneg := h.deposit_nonneg
    have hInterest := Settings.interest_nonneg hPct hNonneg g.turn
    have hLe := h.deposit_le
    have hDeposit : r.deposit ≠ 0 := by
      intro hZero
      rw [h.owner_eq_none_iff.mpr hZero] at hSome
      cases hSome
    apply Region.deposited_of_pos
    rw [Region.deposit_deposited, h.capacity_eq]
    omega
  · exact ⟨rfl, rfl⟩

theorem Sound.nextRound (h : g.Sound) : g.nextRound.Sound := by
  have hMaxDep := h.maxDep_pos
  have hOwner : ∀ r id, (g.grown r).owner = some id → r.owner = some id := by
    intro r id hId
    unfold grown at hId
    split at hId
    · exact Region.owner_of_owner_deposited hId
    · exact hId
  have hCenter : ∀ r, (g.grown r).cityCenter = true → r.cityCenter = true := by
    intro r hFlag
    unfold grown at hFlag
    split at hFlag
    · exact Region.cityCenter_of_cityCenter_deposited hFlag
    · exact hFlag
  exact {
    h with
    board := h.board.mapRegions location_grown
      (fun r hr => sound_grown hr (by omega)) hOwner hCenter
    turn_pos := Int.le_trans h.turn_pos g.turn_nextRound.1 }

theorem Sound.center_nextRound (h : g.Sound) {id : PlayerId}
    (hCenter : (g.territory.cityCenterOf? id).isSome) :
    (g.nextRound.territory.cityCenterOf? id).isSome := by
  obtain ⟨p, r, hr, hFlag, hOwner⟩ := h.board.regular.cityCenterOf?_isSome_iff.mp hCenter
  rw [h.nextRound.board.regular.cityCenterOf?_isSome_iff]
  obtain ⟨hSameOwner, hSameFlag⟩ := owner_grown (h.board.region p r hr) h.interestPct_nonneg
  refine ⟨p, g.grown r, ?_, hSameFlag.trans hFlag, hSameOwner.trans hOwner⟩
  rw [territory_nextRound, Territory.get?_mapRegions, hr]
  rfl

theorem aliveFrom?_eq_none_iff {start : Nat} : g.aliveFrom? start = none ↔
    ∀ j p, start ≤ j → g.players[j]? = some p → p.alive = false := by
  rw [aliveFrom?, Option.map_eq_none_iff, List.findIdx?_eq_none_iff]
  constructor
  · intro h j p hj hp
    apply h p
    rw [List.mem_drop_iff_getElem]
    obtain ⟨hlt, rfl⟩ := List.getElem?_eq_some_iff.mp hp
    exact ⟨j - start, by omega, by simp only [Nat.add_sub_cancel' hj]⟩
  · intro h p hp
    obtain ⟨j, hj, rfl⟩ := List.mem_drop_iff_getElem.mp hp
    exact h (start + j) _ (by omega) (List.getElem?_eq_getElem _)

/-- The place that is found is the first one of a player who is alive. -/
theorem of_aliveFrom?_eq_some {start i : Nat} (h : g.aliveFrom? start = some i) :
    start ≤ i ∧ (∃ p, g.players[i]? = some p ∧ p.alive = true) ∧
      ∀ j p, start ≤ j → j < i → g.players[j]? = some p → p.alive = false := by
  obtain ⟨k, hk, rfl⟩ := Option.map_eq_some_iff.mp h
  obtain ⟨hlt, hAlive, hBefore⟩ := List.findIdx?_eq_some_iff_getElem.mp hk
  refine ⟨by omega, ⟨_, ?_, hAlive⟩, ?_⟩
  · rw [← List.getElem?_drop, List.getElem?_eq_getElem hlt]
  · intro j p hj hlt hp
    have hNot := hBefore (j - start) (by omega)
    obtain ⟨_, rfl⟩ := List.getElem?_eq_some_iff.mp hp
    simpa [Nat.add_sub_cancel' hj] using hNot

theorem actor_withCurrent {i : Nat} {p : Player} (h : g.players[i]? = some p) :
    (g.withCurrent i).actor = p := by
  obtain ⟨hi, rfl⟩ := List.getElem?_eq_some_iff.mp h
  simp [withCurrent, hi, actor]

theorem Sound.withCurrent (h : g.Sound) (i : Nat) : (g.withCurrent i).Sound := by
  unfold Game.withCurrent
  split
  · exact { h with }
  · exact h

theorem center_of_mem_sweepOut {p : Player} (h : p ∈ g.sweepOut.players) (hAlive : p.alive = true) :
    (g.sweepOut.territory.cityCenterOf? p.id).isSome := by
  have hKept := (mem_sweepOut_of_alive h hAlive).2
  simp only [isLost, Bool.or_eq_false_iff, Option.isNone_eq_false_iff] at hKept
  exact hKept.2

/-- The turn passes to somebody who is alive, either in the same round or in the next one. -/
theorem passTurn_cases (h : ∃ p ∈ g.players, p.alive = true) : ∃ i p,
    g.players[i]? = some p ∧ p.alive = true ∧
      (g.passTurn = g.withCurrent i ∨ g.passTurn = g.nextRound.withCurrent i) := by
  unfold passTurn
  split
  · rename_i i hi
    obtain ⟨_, ⟨p, hp, hAlive⟩, _⟩ := of_aliveFrom?_eq_some hi
    exact ⟨i, p, hp, hAlive, .inl rfl⟩
  · split
    · rename_i i hi
      obtain ⟨_, ⟨p, hp, hAlive⟩, _⟩ := of_aliveFrom?_eq_some hi
      exact ⟨i, p, hp, hAlive, .inr rfl⟩
    · rename_i hNone
      obtain ⟨p, hp, hAlive⟩ := h
      obtain ⟨j, hj⟩ := List.mem_iff_getElem?.mp hp
      have hDead := aliveFrom?_eq_none_iff.mp hNone j p (Nat.zero_le j) hj
      rw [hAlive] at hDead
      cases hDead

theorem Sound.ready_withCurrent (h : g.Sound) {i : Nat} {p : Player} (hp : g.players[i]? = some p)
    (hAlive : p.alive = true) (hCenter : (g.territory.cityCenterOf? p.id).isSome) :
    (g.withCurrent i).Ready where
  sound := h.withCurrent i
  actor_alive _ := by
    rw [actor_withCurrent hp]
    exact hAlive
  actor_center _ := by
    rw [actor_withCurrent hp]
    unfold Game.withCurrent
    split
    · exact hCenter
    · exact hCenter

theorem endTurn_of_ended (h : g.ended = true) : g.endTurn = g :=
  if_pos h

/-- The end of a turn leaves nobody or a winner, or it passes the turn to somebody who is left. -/
theorem endTurn_cases (hEnded : g.ended = false) :
    (g.sweepOut.players.filter (·.alive) = [] ∧ g.endTurn = { g.sweepOut with ended := true }) ∨
      (∃ last, g.sweepOut.players.filter (·.alive) = [last] ∧
        g.endTurn = { g.sweepOut with winner := some last.id, ended := true }) ∨
      ∃ i p, g.sweepOut.players[i]? = some p ∧ p.alive = true ∧
        (g.endTurn = g.sweepOut.withCurrent i ∨ g.endTurn = g.sweepOut.nextRound.withCurrent i) := by
  rw [Game.endTurn, if_neg (by simp [hEnded])]
  dsimp only
  split
  · rename_i hNone
    exact .inl ⟨hNone, rfl⟩
  · rename_i last hLast
    exact .inr (.inl ⟨last, hLast, rfl⟩)
  · rename_i hSome _
    obtain ⟨q, hq⟩ := List.exists_mem_of_ne_nil _ hSome
    exact .inr (.inr (passTurn_cases ⟨q, List.mem_filter.mp hq⟩))

theorem Sound.endTurn (h : g.Sound) : g.endTurn.Ready := by
  cases hEnded : g.ended with
  | true =>
    rw [endTurn_of_ended hEnded]
    exact ⟨h, by simp [hEnded], by simp [hEnded]⟩
  | false =>
    have hSwept := h.sweepOut hEnded
    rcases endTurn_cases hEnded with
      ⟨_, hEnd⟩ | ⟨last, hLast, hEnd⟩ | ⟨i, p, hp, hAlive, hNext⟩
    · rw [hEnd]
      refine ⟨{ hSwept with winner_alive := ?_ }, by simp, by simp⟩
      intro id hId
      have hNone : g.sweepOut.winner = none := h.winner_eq_none hEnded
      rw [hNone] at hId
      cases hId
    · rw [hEnd]
      have hMem : last ∈ g.sweepOut.players.filter (·.alive) := by simp [hLast]
      rw [List.mem_filter] at hMem
      refine ⟨{ hSwept with winner_alive := ?_ }, by simp, by simp⟩
      rintro id ⟨⟩
      exact ⟨rfl, List.mem_map.mpr ⟨last, hMem.1, by rw [hMem.2]⟩⟩
    · have hCenter := center_of_mem_sweepOut (List.mem_of_getElem? hp) hAlive
      rcases hNext with hNext | hNext
      · rw [hNext]
        exact hSwept.ready_withCurrent hp hAlive hCenter
      · rw [hNext]
        exact hSwept.nextRound.ready_withCurrent hp hAlive (hSwept.center_nextRound hCenter)

end Game

end CityCrew
