import CityCrew.Game.Setup
import CityCrew.Proofs.SoundTurn
import CityCrew.Proofs.Validation

/-!
# New games

A game that is set up with valid settings is ready for its first turn. The city centers are founded
one by one for new players, so nobody can come to a second one, wherever the sample lies.
-/

namespace CityCrew

namespace Random.Generator

theorem length_extend (sample : List Nat) (j t : Nat) :
    (extend sample j t).length = sample.length + 1 := by
  unfold extend
  split
  · have hLength := congrArg List.length (List.takeWhile_append_dropWhile (p := (· ≠ t)) (l := sample))
    simp only [List.length_append, List.length_cons] at hLength ⊢
    omega
  · simp

theorem length_sampleFrom (sample : List Nat) (j count : Nat) (random : Generator) :
    ((sampleFrom sample j count).run random).1.length = sample.length + count := by
  induction count generalizing sample j random with
  | zero => rfl
  | succ count ih =>
    rw [sampleFrom, StateT.run_bind]
    refine (ih (extend sample j ((below .single (j + 1)).run random).1) (j + 1)
      ((below .single (j + 1)).run random).2).trans ?_
    rw [length_extend]
    omega

theorem length_sample (n count : Nat) (random : Generator) :
    ((sample n count).run random).1.length = count := by
  rw [sample, length_sampleFrom, List.length_nil, Nat.zero_add]

end Random.Generator

namespace Game

/-- The sample is as long as asked for, so there are no more centers than that. -/
theorem run_placeCenters_eq_ok {t : Territory} {count : Nat} {random random' : Random.Generator}
    {centers : List Point} (h : (placeCenters t count).run random = .ok (centers, random')) :
    count ≤ t.regions.size ∧ centers =
      ((Random.Generator.sample t.regions.size count).run random).1.filterMap fun i =>
        t.regions[i]?.map (·.location) := by
  unfold placeCenters at h
  simp only at h
  generalize Random.Generator.sample t.regions.size count = draw at h ⊢
  split at h
  · cases h
  · cases h
    exact ⟨by omega, rfl⟩

theorem length_centers_le {t : Territory} {count : Nat} {random random' : Random.Generator}
    {centers : List Point} (h : (placeCenters t count).run random = .ok (centers, random')) :
    centers.length ≤ count := by
  rw [(run_placeCenters_eq_ok h).2]
  refine Nat.le_trans (List.length_filterMap_le _ _) ?_
  exact Nat.le_of_eq (Random.Generator.length_sample _ _ _)

theorem Territory.Sound.found {t : Territory} {capacity deposit : Int} {ids : List PlayerId}
    {id : PlayerId} (h : t.Sound capacity ids) (hCapacity : 0 ≤ capacity) (hNew : ∀ i ∈ ids, i < id)
    (center : Point) :
    (t.modify center fun r => (r.withCityCenter id).deposited deposit).Sound capacity (id :: ids) := by
  have hWider : t.Sound capacity (id :: ids) :=
    { h with owner_mem := fun p r i hr hi => List.mem_cons_of_mem _ (h.owner_mem p r i hr hi) }
  apply hWider.modify
  · exact fun _ => Region.location_deposited
  · intro r hr
    exact Region.sound_deposited (h.region center r hr).capacity_eq hCapacity
      (by simp [Region.withCityCenter])
  · intro r i _ hi
    obtain rfl := Option.some.inj (Region.owner_of_owner_deposited hi)
    exact List.mem_cons_self
  · intro r q s _ _ hs hsCenter hSame
    obtain ⟨owner, hOwner⟩ := Option.ne_none_iff_exists'.mp
      ((h.region q s hs).owned_of_cityCenter hsCenter)
    obtain rfl := Option.some.inj (Region.owner_of_owner_deposited (hSame.trans hOwner))
    exact absurd (hNew _ (h.owner_mem q s _ hs hOwner)) (Nat.lt_irrefl _)

theorem sound_foundCenters {t : Territory} {capacity deposit : Int} {ids allIds : List PlayerId}
    {id : Nat} {centers : List Point} (h : t.Sound capacity ids) (hCapacity : 0 ≤ capacity)
    (hNew : ∀ i ∈ ids, i < id) (hIds : ids ⊆ allIds)
    (hAll : ∀ i : Nat, id ≤ i → i < id + centers.length → i ∈ allIds) :
    (foundCenters deposit id centers t).Sound capacity allIds := by
  induction centers generalizing t ids id with
  | nil => exact { h with owner_mem := fun p r i hr hi => hIds (h.owner_mem p r i hr hi) }
  | cons center rest ih =>
    rw [foundCenters]
    rw [List.length_cons] at hAll
    apply ih (Territory.Sound.found h hCapacity hNew center)
    · intro i hi
      rcases List.mem_cons.mp hi with rfl | hi
      · exact Nat.lt_succ_self i
      · exact Nat.lt_succ_of_lt (hNew i hi)
    · intro i hi
      rcases List.mem_cons.mp hi with rfl | hi
      · exact hAll i (Nat.le_refl i) (by omega)
      · exact hIds hi
    · intro i hLow hHigh
      exact hAll i (by omega) (by omega)

theorem sound_vacant? {rows cols capacity : Int} {t : Territory}
    (h : Territory.vacant? rows cols capacity = some t) (hCapacity : 0 ≤ capacity) :
    t.Sound capacity [] where
  regular := Territory.Regular.vacant? h
  region p r hr := by
    rw [Territory.get?_vacant? h hr]
    exact ⟨Int.le_refl 0, hCapacity, rfl, by simp [Region.vacant], by simp [Region.vacant]⟩
  owner_mem p r id hr hId := by
    rw [Territory.get?_vacant? h hr] at hId
    cases hId
  center_unique p q r s hr _ hCenter := by
    rw [Territory.get?_vacant? h hr] at hCenter
    cases hCenter

def seated (settings : Settings) (names : List String) : List Player :=
  names.zipIdx.map fun (name, i) => Player.create (i + 1) name settings.initBudget

theorem ids_seated (settings : Settings) (names : List String) :
    (seated settings names).map (·.id) = List.range' 1 names.length := by
  have hSnd : (seated settings names).map (·.id) = (names.zipIdx.map Prod.snd).map (1 + ·) := by
    simp only [seated, List.map_map]
    exact List.map_congr_left fun x _ => Nat.add_comm x.2 1
  rw [hSnd, List.zipIdx_map_snd, List.map_add_range']

theorem of_start_eq_ok {settings : Settings} {t : Territory} {players : List Player}
    {random : Random.Generator} {g : Game} (h : start settings t players random = .ok g) :
    (∀ p ∈ players, (t.cityCenterOf? p.id).isSome) ∧ g.settings = settings ∧ g.territory = t ∧
      g.players = players ∧ g.current = 0 ∧ g.turn = 1 ∧ g.winner = none ∧ g.ended = false ∧
      t.cityCenterOf? g.actor.id = some g.crew := by
  unfold start at h
  split at h
  · cases h
  · split at h
    · cases h
    · rename_i hFound
      have hCenters : ∀ p ∈ players, (t.cityCenterOf? p.id).isSome := by
        intro p hp
        have hSome := List.find?_eq_none.mp hFound p hp
        exact Option.isSome_iff_ne_none.mpr (by simpa using hSome)
      cases h
      refine ⟨hCenters, rfl, rfl, rfl, rfl, rfl, rfl, rfl, ?_⟩
      obtain ⟨center, hCenter⟩ := Option.isSome_iff_exists.mp (hCenters _ (List.get_mem players ⟨0, _⟩))
      simp only [actor]
      rw [hCenter]
      rfl

theorem of_create_eq_ok {settings : Settings} {names : List String} {seed : UInt64} {g : Game}
    (h : create settings names seed = .ok g) :
    minPlayers ≤ names.length ∧ names.length ≤ maxPlayers ∧ ∃ board centers random,
      Territory.vacant? settings.rows settings.cols settings.maxDep = some board ∧
      (placeCenters board names.length).run (.ofSeed seed) = .ok (centers, random) ∧
      start settings (foundCenters settings.initCenterDep 1 centers board)
        (seated settings names) random = .ok g := by
  have hCount : ¬ (names.length < minPlayers ∨ maxPlayers < names.length) := by
    intro hBad
    rw [create, if_pos hBad] at h
    cases h
  rw [create, if_neg hCount] at h
  generalize Random.Generator.ofSeed seed = first at h ⊢
  cases hBoard : Territory.vacant? settings.rows settings.cols settings.maxDep with
  | none =>
    rw [hBoard] at h
    cases h
  | some board =>
    rw [hBoard] at h
    cases hPlaced : (placeCenters board names.length).run first with
    | error e =>
      simp only [hPlaced] at h
      cases h
    | ok placed =>
      simp only [hPlaced] at h
      exact ⟨by omega, by omega, board, placed.1, placed.2, rfl, hPlaced, h⟩

theorem overflowed_create {settings : Settings} {names : List String} {seed : UInt64} {g : Game}
    (h : create settings names seed = .ok g) : g.overflowed = false := by
  obtain ⟨_, _, _, _, _, _, _, hStart⟩ := of_create_eq_ok h
  unfold start at hStart
  split at hStart
  · cases hStart
  · split at hStart
    · cases hStart
    · cases hStart
      rfl

/-- A new game is ready for its first turn. -/
theorem ready_create {settings : Settings} {names : List String} {seed : UInt64} {g : Game}
    (hSettings : settings.validate = .ok ()) (h : create settings names seed = .ok g) : g.Ready := by
  have hPlayable := Settings.playable_of_validate hSettings
  have hMaxDep := hPlayable.maxDep_pos
  obtain ⟨_, _, board, centers, random, hBoard, hPlaced, hStart⟩ := of_create_eq_ok h
  obtain ⟨_, hg, ht, hPlayers, _, hTurn, hWinner, hEnded, hCrew⟩ := of_start_eq_ok hStart
  have hIds : g.players.map (·.id) = List.range' 1 names.length := by
    rw [hPlayers, ids_seated]
  have hSound : g.territory.Sound g.settings.maxDep (g.players.map (·.id)) := by
    rw [hg, ht, hIds]
    apply sound_foundCenters (sound_vacant? hBoard (by omega)) (by omega) (by simp) (by simp)
    intro i hLow hHigh
    have hLength := length_centers_le hPlaced
    exact List.mem_range'_1.mpr ⟨hLow, by omega⟩
  have hCenter : g.territory.cityCenterOf? g.actor.id = some g.crew := by
    rw [ht]
    exact hCrew
  have hNew : ∀ p ∈ g.players, 0 ≤ p.budget ∧ p.alive = true := by
    rw [hPlayers]
    intro p hp
    obtain ⟨⟨name, i⟩, _, rfl⟩ := List.mem_map.mp hp
    exact ⟨Int.le_max_left _ _, rfl⟩
  refine { sound := ?_, actor_alive := fun _ => (hNew _ actor_mem).2, actor_center := ?_ }
  · exact {
      board := hSound
      maxDep_pos := by
        rw [hg]
        omega
      interestPct_nonneg := by
        rw [hg]
        exact hPlayable.interestPct_nonneg
      ids_nodup := by
        rw [hIds]
        exact List.nodup_range'
      budget_nonneg := fun p hp => (hNew p hp).1
      crew_mem := by
        obtain ⟨r, hr, _⟩ := hSound.regular.get?_cityCenterOf? hCenter
        exact Territory.contains_of_get? hr
      winner_alive := by simp [hWinner]
      turn_pos := by omega }
  · intro _
    rw [hCenter]
    rfl

end Game

end CityCrew
