import CityCrew.Game.Audit
import CityCrew.Proofs.Effects
import CityCrew.Proofs.SoundBoard

/-!
# Sound games

A sound game has nothing that an audit could object to. Soundness alone does not survive an action:
to invest on the city center of an opponent would give its new owner a second center. It does while
the crew stands on no opponent's region, and every call of a plan keeps the two together.
-/

namespace CityCrew

namespace Game

structure Sound (g : Game) : Prop where
  board : g.territory.Sound g.settings.maxDep (g.players.map (·.id))
  maxDep_pos : 0 < g.settings.maxDep
  interestPct_nonneg : 0 ≤ g.settings.interestPct
  ids_nodup : (g.players.map (·.id)).Nodup
  budget_nonneg : ∀ p ∈ g.players, 0 ≤ p.budget
  crew_mem : g.territory.Contains g.crew
  winner_alive : ∀ id, g.winner = some id →
    g.ended = true ∧ (id, true) ∈ g.players.map fun p => (p.id, p.alive)
  turn_pos : 1 ≤ g.turn

structure Underway (g : Game) : Prop where
  sound : g.Sound
  actor_alive : g.actor.alive = true
  crew_unopposed : g.isOpposed g.crew = false

variable {g : Game}

theorem Sound.auditRegion_eq_nil {r : Region} {capacity : Int} (h : r.Sound capacity) :
    auditRegion r = [] := by
  have hOwner : ¬ (r.deposit = 0 ∧ r.owner.isSome) := by
    rintro ⟨hZero, hSome⟩
    rw [h.owner_eq_none_iff.mpr hZero] at hSome
    cases hSome
  have hCenter : ¬ (r.cityCenter ∧ r.owner.isNone) := by
    rintro ⟨hCenter, hNone⟩
    exact h.owned_of_cityCenter hCenter (Option.isNone_iff_eq_none.mp hNone)
  rw [auditRegion, if_pos h.in_range, if_neg hOwner, if_neg hCenter]
  rfl

/-- No owner is listed twice: two listed regions have different locations. -/
theorem Sound.nodup_centerOwners (h : g.Sound) : g.centerOwners.Nodup := by
  rw [centerOwners, List.Nodup, List.pairwise_filterMap, List.pairwise_iff_getElem]
  intro i j hi hj hij id hId id' hId' hSame
  have ht := h.board.regular
  simp only [Array.length_toList] at hi hj
  simp only [Array.getElem_toList] at hId hId'
  split at hId
  · rename_i hCenter
    split at hId'
    · rename_i hCenter'
      have hLocation := h.board.center_unique _ _ _ _
        (ht.mem_regions_iff.mp (Array.getElem_mem hi)) (ht.mem_regions_iff.mp (Array.getElem_mem hj))
        hCenter hCenter' (by rw [hId, hId', hSame])
      have hIndex : g.territory.index? (Territory.pointAt g.territory.cols i) = some i :=
        Territory.index?_pointAt (by rwa [← ht.size_regions])
      have hIndex' : g.territory.index? (Territory.pointAt g.territory.cols j) = some j :=
        Territory.index?_pointAt (by rwa [← ht.size_regions])
      rw [← ht.location_getElem i hi, hLocation, ht.location_getElem j hj, hIndex'] at hIndex
      cases hIndex
      omega
    · cases hId'
  · cases hId

theorem Sound.eq_of_id_eq (h : g.Sound) {p q : Player} (hp : p ∈ g.players) (hq : q ∈ g.players)
    (hId : p.id = q.id) : p = q := by
  obtain ⟨i, hi, rfl⟩ := List.mem_iff_getElem.mp hp
  obtain ⟨j, hj, rfl⟩ := List.mem_iff_getElem.mp hq
  have hi' : i < (g.players.map (·.id)).length := by simpa using hi
  have hj' : j < (g.players.map (·.id)).length := by simpa using hj
  have hSame : (g.players.map (·.id))[i] = (g.players.map (·.id))[j] := by simpa using hId
  obtain rfl := (List.getElem_inj h.ids_nodup).mp hSame
  rfl

theorem Sound.player?_eq_some (h : g.Sound) {p : Player} (hp : p ∈ g.players) :
    g.player? p.id = some p := by
  cases hFound : g.player? p.id with
  | none =>
    have hNone := List.find?_eq_none.mp hFound p hp
    simp at hNone
  | some q =>
    have hId : q.id = p.id := by simpa using List.find?_some hFound
    rw [h.eq_of_id_eq (List.mem_of_find?_eq_some hFound) hp hId]

theorem Sound.audit_eq_nil (h : g.Sound) : g.audit = [] := by
  have hRegions : g.territory.regions.toList.flatMap auditRegion = [] := by
    rw [List.flatMap_eq_nil_iff]
    intro r hr
    exact Sound.auditRegion_eq_nil (h.board.region_of_mem (Array.mem_toList_iff.mp hr))
  have hCenters : g.auditCenters = [] := by
    rw [auditCenters, List.filterMap_eq_nil_iff]
    intro owner _
    have hCount := List.nodup_iff_count.mp h.nodup_centerOwners owner
    simp only
    rw [if_neg (by omega)]
  have hPlayers : g.auditPlayers = [] := by
    rw [auditPlayers, List.filterMap_eq_nil_iff]
    intro p hp
    have hBudget := h.budget_nonneg p hp
    rw [if_neg (by omega)]
  have hWinner : g.auditWinner = [] := by
    unfold auditWinner
    split
    · rfl
    · rename_i id hId
      obtain ⟨hEnded, hAlive⟩ := h.winner_alive id hId
      obtain ⟨p, hp, hPair⟩ := List.mem_map.mp hAlive
      obtain ⟨rfl, hpAlive⟩ := Prod.mk.inj hPair
      have hFound : (g.player? p.id).any (·.alive) = true := by
        rw [h.player?_eq_some hp]
        exact hpAlive
      rw [if_pos hEnded, if_pos hFound]
      rfl
  have hTurn : ¬ g.turn < 1 := by
    have := h.turn_pos
    omega
  rw [audit, hRegions, hCenters, hPlayers, hWinner, if_neg hTurn]
  rfl

theorem ids_modify {l : List Player} {i : Nat} {f : Player → Player} (hId : ∀ p, (f p).id = p.id) :
    (l.modify i f).map (·.id) = l.map (·.id) :=
  map_modify_of_eq l i hId

/-- Changes of the players alone, if they keep their ids. -/
theorem Sound.of_players (h : g.Sound) (s : Game)
    (hRest : s.settings = g.settings ∧ s.territory = g.territory ∧ s.crew = g.crew ∧
      s.turn = g.turn)
    (hIds : s.players.map (·.id) = g.players.map (·.id)) (hBudget : ∀ p ∈ s.players, 0 ≤ p.budget)
    (hWinner : ∀ id, s.winner = some id →
      s.ended = true ∧ (id, true) ∈ s.players.map fun p => (p.id, p.alive)) : s.Sound := by
  obtain ⟨hSettings, hTerritory, hCrew, hTurn⟩ := hRest
  constructor
  · rw [hTerritory, hSettings, hIds]
    exact h.board
  · rw [hSettings]
    exact h.maxDep_pos
  · rw [hSettings]
    exact h.interestPct_nonneg
  · rw [hIds]
    exact h.ids_nodup
  · exact hBudget
  · rw [hTerritory, hCrew]
    exact h.crew_mem
  · exact hWinner
  · rw [hTurn]
    exact h.turn_pos

theorem Underway.modifyActor (h : g.Underway) {f : Player → Player} (hId : ∀ p, (f p).id = p.id)
    (hAlive : ∀ p, (f p).alive = p.alive) (hBudget : ∀ p, 0 ≤ p.budget → 0 ≤ (f p).budget) :
    (g.modifyActor f).Underway where
  sound := by
    apply h.sound.of_players (g.modifyActor f) ⟨rfl, rfl, rfl, rfl⟩ (ids_modify hId)
    · intro p hp
      rcases mem_modify_cases hp with hp | ⟨q, hq, rfl⟩
      · exact h.sound.budget_nonneg p hp
      · exact hBudget q (h.sound.budget_nonneg q hq)
    · intro id hWinner
      rw [players_modifyActor, map_modify_of_eq _ _ fun p => by rw [hId, hAlive]]
      exact h.sound.winner_alive id hWinner
  actor_alive := by
    rw [actor_modifyActor, hAlive]
    exact h.actor_alive
  crew_unopposed := by
    have hCrew := isOpposed_eq_false_iff.mp h.crew_unopposed
    rw [isOpposed_eq_false_iff, actor_modifyActor, hId]
    exact hCrew

theorem Underway.charge (h : g.Underway) (n : Int) : (g.charge n).Underway :=
  h.modifyActor (fun _ => rfl) (fun _ => rfl) fun _ _ => Int.le_max_left _ _

theorem Underway.withCrew (h : g.Underway) {q : Point} (hq : g.territory.Contains q)
    (hUnopposed : g.isOpposed q = false) : Underway { g with crew := q } where
  sound := { h.sound with crew_mem := hq }
  actor_alive := h.actor_alive
  crew_unopposed := hUnopposed

theorem Underway.modifyRegion (h : g.Underway) {p : Point} {f : Region → Region}
    (hBoard : (g.territory.modify p f).Sound g.settings.maxDep (g.players.map (·.id)))
    (hCrew : ∀ r, g.territory.get? p = some r → p = g.crew →
      (f r).isOpposedTo g.actor.id = false) :
    (g.modifyRegion p f).Underway where
  sound := {
    h.sound with
    board := hBoard
    crew_mem := Territory.contains_modify.mpr h.sound.crew_mem }
  actor_alive := h.actor_alive
  crew_unopposed := by
    rw [isOpposed_eq_false_iff]
    intro s hs
    rcases Territory.get?_modify_cases hs with ⟨_, hs⟩ | ⟨hp, r, hr, rfl⟩
    · exact isOpposed_eq_false_iff.mp h.crew_unopposed s hs
    · exact hCrew r (hp ▸ hr) hp

theorem Underway.withdraw (h : g.Underway) (p : Point) {n : Int} (hn : n ≤ 0) :
    (g.modifyRegion p (·.deposited n)).Underway := by
  apply h.modifyRegion (h.sound.board.withdraw hn)
  rintro r hr rfl
  have hOwner := Region.isOpposedTo_eq_false_iff.mp
    (isOpposed_eq_false_iff.mp h.crew_unopposed r hr)
  rw [Region.isOpposedTo_eq_false_iff]
  intro owner hId
  exact hOwner owner (Region.owner_of_owner_deposited hId)

theorem Underway.invest (h : g.Underway) (n : Int) :
    (g.modifyRegion g.crew fun r => { r with owner := some g.actor.id }.deposited n).Underway := by
  have hUnopposed := isOpposed_eq_false_iff.mp h.crew_unopposed
  have hBoard := h.sound.board
  have hMaxDep := h.sound.maxDep_pos
  apply h.modifyRegion
  · apply hBoard.modify
    · exact fun _ => Region.location_deposited
    · intro r hr
      exact Region.sound_deposited (hBoard.region _ r hr).capacity_eq (by omega) (by simp)
    · intro r id _ hId
      obtain rfl := Option.some.inj (Region.owner_of_owner_deposited hId)
      exact List.mem_map.mpr ⟨g.actor, actor_mem, rfl⟩
    · intro r q s hr hCenter hs hsCenter hSame
      -- The region was a center before, and then it belonged to the player who invests.
      have hrCenter : r.cityCenter = true :=
        Region.cityCenter_of_cityCenter_deposited (r := { r with owner := some g.actor.id }) hCenter
      obtain ⟨owner, hOwner⟩ := Option.ne_none_iff_exists'.mp
        ((hBoard.region _ r hr).owned_of_cityCenter hrCenter)
      obtain rfl := Region.isOpposedTo_eq_false_iff.mp (hUnopposed r hr) owner hOwner
      obtain ⟨owner, hsOwner⟩ := Option.ne_none_iff_exists'.mp
        ((hBoard.region _ s hs).owned_of_cityCenter hsCenter)
      have hId := Region.owner_of_owner_deposited (hSame.trans hsOwner)
      exact hBoard.center_unique _ q r s hr hs hrCenter hsCenter
        (hOwner.trans (hId.trans hsOwner.symm))
  · intro r hr _
    rw [Region.isOpposedTo_eq_false_iff]
    intro owner hOwner
    exact (Option.some.inj (Region.owner_of_owner_deposited hOwner)).symm

theorem Underway.relocate (h : g.Underway) {center : Point}
    (hOwned : g.territory.isOwnedBy g.crew g.actor.id = true)
    (hCenter : g.territory.cityCenterOf? g.actor.id = some center) (hNe : center ≠ g.crew) :
    ((g.modifyRegion center fun r => { r with cityCenter := false }).modifyRegion g.crew
      (·.withCityCenter g.actor.id)).Underway := by
  have hBoard := h.sound.board
  obtain ⟨c, hc, hcCenter, hcOwner⟩ := hBoard.regular.get?_cityCenterOf? hCenter
  obtain ⟨r, hr, hrOwner⟩ := Territory.isOwnedBy_eq_true_iff.mp hOwned
  -- Without its old center the player has none.
  have hCleared : (g.territory.modify center fun r => { r with cityCenter := false }).Sound
      g.settings.maxDep (g.players.map (·.id)) := by
    apply hBoard.modify_of_keeps
    · exact fun _ => rfl
    · intro s hs
      have hSound := hBoard.region center s hs
      exact { hSound with owned_of_cityCenter := by simp }
    · exact fun _ _ hId => hId
    · exact fun _ hFlag => by cases hFlag
  have hNone : ∀ q s,
      (g.territory.modify center fun r => { r with cityCenter := false }).get? q = some s →
      s.cityCenter = true → s.owner ≠ some g.actor.id := by
    intro q s hs hsCenter hsOwner
    rcases Territory.get?_modify_cases hs with ⟨hNe, hs⟩ | ⟨rfl, s, _, rfl⟩
    · exact hNe (hBoard.center_unique _ _ c s hc hs hcCenter hsCenter (hcOwner.trans hsOwner.symm))
    · cases hsCenter
  have hAt : (g.territory.modify center fun r => { r with cityCenter := false }).get? g.crew =
      some r := by
    rw [Territory.get?_modify_of_ne hNe, hr]
  have hFirst : (g.modifyRegion center fun r => { r with cityCenter := false }).Underway :=
    h.modifyRegion hCleared fun s _ hSame => (hNe hSame).elim
  apply hFirst.modifyRegion
  · apply hCleared.modify
    · exact fun _ => rfl
    · intro s hs
      obtain rfl := Option.some.inj (hAt.symm.trans hs)
      have hSound := hCleared.region _ r hs
      have hDeposit : r.deposit ≠ 0 := fun hZero => by
        rw [hSound.owner_eq_none_iff.mpr hZero] at hrOwner
        cases hrOwner
      exact {
        deposit_nonneg := hSound.deposit_nonneg
        deposit_le := hSound.deposit_le
        capacity_eq := hSound.capacity_eq
        owner_eq_none_iff := by simp [Region.withCityCenter, hDeposit]
        owned_of_cityCenter := by simp [Region.withCityCenter] }
    · intro s id _ hId
      obtain rfl := Option.some.inj hId
      exact List.mem_map.mpr ⟨g.actor, actor_mem, rfl⟩
    · intro s q s' _ _ hs' hCenter' hSame
      exact (hNone q s' hs' hCenter' hSame.symm).elim
  · intro s _ _
    rw [Region.isOpposedTo_eq_false_iff]
    intro owner hOwner
    exact (Option.some.inj hOwner).symm

theorem actor_modifyPlayer {id : PlayerId} {f : Player → Player} (h : id ≠ g.actor.id) :
    (g.modifyPlayer id f).actor = g.actor := by
  have hIndex : g.players.findIdx (·.id == id) ≠ g.current := by
    intro hSame
    have hFound := ((List.findIdx_eq g.current_lt).mp hSame).1
    exact h (beq_iff_eq.mp hFound).symm
  simp [actor, modifyPlayer, List.getElem_modify_ne, hIndex]

theorem Underway.capture (h : g.Underway) {loser : PlayerId} (hLoser : loser ≠ g.actor.id) :
    (g.capture g.actor.id loser).Underway := by
  have hActor : (g.capture g.actor.id loser).actor = g.actor := actor_modifyPlayer hLoser
  have hAlive : (g.capture g.actor.id loser).actor.alive = true := by
    rw [hActor]
    exact h.actor_alive
  refine { sound := ?_, actor_alive := hAlive, crew_unopposed := ?_ }
  · apply h.sound.of_players (g.capture _ loser) ⟨rfl, rfl, rfl, rfl⟩ (ids_modify fun _ => rfl)
    · intro p hp
      rcases mem_modify_cases hp with hp | ⟨q, hq, rfl⟩
      · exact h.sound.budget_nonneg p hp
      · exact h.sound.budget_nonneg q hq
    · rintro id ⟨⟩
      exact ⟨rfl, List.mem_map.mpr ⟨_, actor_mem, by rw [hAlive, hActor]⟩⟩
  · have hCrew := isOpposed_eq_false_iff.mp h.crew_unopposed
    rw [isOpposed_eq_false_iff, hActor]
    exact hCrew

theorem Underway.act (h : g.Underway) {a : Action Value} {ok : Bool} {g' : Game}
    (hEffect : Effect g a ok g') : g'.Underway := by
  cases hEffect with
  | refused => exact h
  | wasted => exact h.charge fee
  | moved d _ hTarget hUnopposed =>
    exact (h.charge fee).withCrew hTarget (by rwa [isOpposed_charge])
  | invested amount =>
    have hInvest := ((h.charge fee).charge amount.toInt).invest amount.toInt
    simpa using hInvest
  | collected amount r _ hAmount _ _ _ =>
    apply ((h.charge fee).withdraw g.crew (by omega)).modifyActor
    · exact fun _ => rfl
    · exact fun _ => rfl
    · exact fun _ _ => Int.le_max_left _ _
  | relocated center steps _ hOwned hCenter hNe _ _ =>
    have hRelocate := ((h.charge fee).charge (relocationCost steps)).relocate
      (by simpa using hOwned) (by simpa using hCenter) hNe
    simpa using hRelocate
  | shot d amount _ hAmount _ => exact (h.charge _).withdraw _ (by omega)
  | captured d amount r loser _ hAmount _ _ _ _ hLoser _ =>
    have hDrained := (h.charge (amount.toInt + fee)).withdraw (g.crew.step d)
      (show -amount.toInt ≤ 0 by omega)
    have hCapture := hDrained.capture (show loser ≠ _ by simpa using hLoser)
    simpa using hCapture
  | stopped => exact ⟨{ h.sound with }, h.actor_alive, h.crew_unopposed⟩

theorem Underway.call (h : g.Underway) {event : Event} {ok : Bool} {g' : Game}
    (hEffect : CallEffect g event ok g') : g'.Underway := by
  cases hEffect with
  | nothing => exact h
  | drawn random => exact ⟨{ h.sound with }, h.actor_alive, h.crew_unopposed⟩
  | assigned name value => exact h.modifyActor (fun _ => rfl) (fun _ => rfl) fun _ hBudget => hBudget
  | acted hEffect => exact h.act hEffect

theorem Underway.exec (event : Event) (g : Game) (h : g.Underway) : (event.exec g).2.Underway :=
  h.call (exec_effect g event)

end Game

end CityCrew
