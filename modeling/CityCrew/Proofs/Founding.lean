import CityCrew.Proofs.Contenders
import CityCrew.Proofs.Placement

/-!
# What a new game is like

Once the settings are valid, only the number of players decides whether a game can be set up. The
seed then has a say in where the city centers stand and in nothing else: every player gets one of
them, with all of the first deposit, and the other regions are left vacant.
-/

namespace CityCrew

theorem Territory.dimensions_vacant? {rows cols capacity : Int} {t : Territory}
    (h : vacant? rows cols capacity = some t) : t.rows = rows.toNat ∧ t.cols = cols.toNat := by
  unfold vacant? at h
  split at h
  · cases h
  · cases h
    exact ⟨rfl, rfl⟩

namespace Game

variable {t : Territory} {centers : List Point} {capacity deposit : Int} {id : PlayerId} {g : Game}
  {settings : Settings} {names : List String} {seed : UInt64}

theorem dimensions_foundCenters (deposit : Int) (id : PlayerId) (centers : List Point)
    (t : Territory) : (foundCenters deposit id centers t).rows = t.rows ∧
      (foundCenters deposit id centers t).cols = t.cols := by
  induction centers generalizing t id with
  | nil => exact ⟨rfl, rfl⟩
  | cons center rest ih =>
    obtain ⟨hRows, hCols⟩ := ih (id + 1) (t.modify center _)
    exact ⟨hRows.trans Territory.rows_modify, hCols.trans Territory.cols_modify⟩

/-- The first deposit arrives as a whole if there is room for it. -/
theorem deposit_founded {center : Point} (hPos : 0 ≤ deposit) (hLe : deposit ≤ capacity) :
    (founded capacity deposit center id).deposit = deposit := by
  rw [founded, Region.deposit_deposited]
  simp only [Region.withCityCenter, Region.vacant]
  omega

/-- Each region is either vacant or the one that a player starts from. -/
theorem get?_foundCenters_cases {rows cols : Int} {p : Point} {r : Region}
    (hBoard : Territory.vacant? rows cols capacity = some t) (hNodup : centers.Nodup)
    (hContains : ∀ center ∈ centers, t.Contains center)
    (hr : (foundCenters deposit id centers t).get? p = some r) :
    r = Region.vacant p capacity ∨
      ∃ k, k < centers.length ∧ r = founded capacity deposit p (id + k) := by
  by_cases hp : p ∈ centers
  · obtain ⟨k, hk, rfl⟩ := List.mem_iff_getElem.mp hp
    rw [get?_foundCenters deposit id hNodup (get?_vacant_of_mem hBoard hContains) k hk] at hr
    exact .inr ⟨k, hk, (Option.some.inj hr).symm⟩
  · rw [get?_foundCenters_of_notMem hp] at hr
    exact .inl (Territory.get?_vacant? hBoard hr)

theorem region_foundCenters {rows cols : Int} {p : Point} {r : Region}
    (hBoard : Territory.vacant? rows cols capacity = some t) (hNodup : centers.Nodup)
    (hContains : ∀ center ∈ centers, t.Contains center) (hPos : 0 < deposit)
    (hLe : deposit ≤ capacity) (hr : (foundCenters deposit id centers t).get? p = some r) :
    (r.owner = none → r.cityCenter = false ∧ r.deposit = 0) ∧
      (r.owner ≠ none → r.cityCenter = true ∧ r.deposit = deposit) := by
  rcases get?_foundCenters_cases hBoard hNodup hContains hr with rfl | ⟨k, _, rfl⟩
  · exact ⟨fun _ => ⟨rfl, rfl⟩, fun hOwner => absurd rfl hOwner⟩
  · have hArrives : 0 < min capacity deposit := by omega
    obtain ⟨hFlag, hOwner⟩ : (founded capacity deposit p (id + k)).cityCenter = true ∧
      (founded capacity deposit p (id + k)).owner = some (id + k) := founded_of_pos hArrives
    constructor
    · intro hNone
      rw [hOwner] at hNone
      cases hNone
    · intro _
      exact ⟨hFlag, deposit_founded (by omega) hLe⟩

theorem names_seated (settings : Settings) (names : List String) :
    (seated settings names).map (·.name) = names := by
  have hFst : (seated settings names).map (·.name) = names.zipIdx.map Prod.fst := by
    rw [seated, List.map_map]
    rfl
  rw [hFst, List.zipIdx_map_fst]

theorem eq_of_mem_seated {p : Player} (hBudget : 0 ≤ settings.initBudget)
    (h : p ∈ seated settings names) :
    p.alive = true ∧ p.budget = settings.initBudget ∧ p.bindings = ∅ := by
  obtain ⟨⟨name, i⟩, _, rfl⟩ := List.mem_map.mp h
  exact ⟨rfl, Int.max_eq_right hBudget, rfl⟩

structure Founded (g : Game) (settings : Settings) (names : List String) : Prop where
  settings_eq : g.settings = settings
  ids_eq : g.players.map (·.id) = List.range' 1 names.length
  names_eq : g.players.map (·.name) = names
  player : ∀ p ∈ g.players, p.alive = true ∧ p.budget = settings.initBudget ∧ p.bindings = ∅
  dimensions : (g.territory.rows : Int) = settings.rows ∧ (g.territory.cols : Int) = settings.cols
  regular : g.territory.Regular
  /-- The owned regions have the players as their owners, one each. -/
  owners_perm : (g.territory.regions.toList.filterMap (·.owner)).Perm (g.players.map (·.id))
  owned : ∀ r ∈ g.territory.regions, r.owner ≠ none →
    r.cityCenter = true ∧ r.deposit = settings.initCenterDep
  unowned : ∀ r ∈ g.territory.regions, r.owner = none → r.cityCenter = false ∧ r.deposit = 0
  turn_eq : g.turn = 1
  actor_id : g.actor.id = 1
  undecided : g.winner = none ∧ g.ended = false
  crew : ∃ r, g.crewRegion? = some r ∧ r.owner = some 1

theorem hasRoom_iff (h : settings.Playable) {n : Nat} :
    HasRoom settings n ↔ 2 ≤ n ∧ n ≤ 8 ∧ (n : Int) ≤ settings.rows * settings.cols := by
  have hRows := h.rows_pos
  have hCols := h.cols_pos
  have hMaxDep := h.maxDep_pos
  have hCenterDep := h.initCenterDep_pos
  have hSize : ((settings.rows.toNat * settings.cols.toNat : Nat) : Int) =
      settings.rows * settings.cols := by
    rw [Int.natCast_mul, Int.toNat_of_nonneg (by omega), Int.toNat_of_nonneg (by omega)]
  constructor
  · intro hRoom
    exact ⟨hRoom.min_le, hRoom.le_max, hSize ▸ Int.ofNat_le.mpr hRoom.le_regions⟩
  · rintro ⟨hMin, hMax, hRegions⟩
    exact ⟨hMin, hMax, by omega, by omega, by omega, by omega⟩

/-- If all owned regions are city centers and everybody has one, everybody has just one region. -/
theorem Sound.perm_owners (h : g.Sound)
    (hOwned : ∀ r ∈ g.territory.regions, r.owner ≠ none → r.cityCenter = true)
    (hCenter : ∀ p ∈ g.players, (g.territory.cityCenterOf? p.id).isSome) :
    (g.territory.regions.toList.filterMap (·.owner)).Perm (g.players.map (·.id)) := by
  have hRegular := h.board.regular
  have hOwners : g.territory.regions.toList.filterMap (·.owner) = g.centerOwners := by
    apply List.filterMap_congr
    intro r hr
    cases hOwner : r.owner with
    | none => simp
    | some id =>
      rw [if_pos (hOwned r (Array.mem_toList_iff.mp hr) (by simp [hOwner]))]
  have hNodup : (g.territory.regions.toList.filterMap (·.owner)).Nodup := by
    rw [hOwners]
    exact h.nodup_centerOwners
  rw [List.perm_ext_iff_of_nodup hNodup h.ids_nodup]
  intro id
  constructor
  · intro hId
    obtain ⟨r, hr, hOwner⟩ := List.mem_filterMap.mp hId
    have hGet := hRegular.mem_regions_iff.mp (Array.mem_toList_iff.mp hr)
    exact h.board.owner_mem _ r id hGet hOwner
  · intro hId
    obtain ⟨p, hp, rfl⟩ := List.mem_map.mp hId
    obtain ⟨_, r, hr, _, hOwner⟩ := hRegular.cityCenterOf?_isSome_iff.mp (hCenter p hp)
    exact List.mem_filterMap.mpr
      ⟨r, Array.mem_toList_iff.mpr (Territory.mem_regions_of_get? hr), hOwner⟩

theorem founded_create (hSettings : settings.validate = .ok ())
    (h : create settings names seed = .ok g) : g.Founded settings names := by
  have hPlayable := Settings.playable_of_validate hSettings
  have hRowsPos := hPlayable.rows_pos
  have hColsPos := hPlayable.cols_pos
  have hDepositPos := hPlayable.initCenterDep_pos
  have hDepositLe := hPlayable.initCenterDep_le
  have hSound := (ready_create hSettings h).sound
  have hRegular := hSound.board.regular
  obtain ⟨_, _, board, centers, random, hBoard, hPlaced, hStart⟩ := of_create_eq_ok h
  obtain ⟨hNodup, _, hContains⟩ := nodup_centers (Territory.Regular.vacant? hBoard) hPlaced
  obtain ⟨hCenters, hg, ht, hPlayers, hCurrent, hTurn, hWinner, hEnded, hCrew⟩ :=
    of_start_eq_ok hStart
  obtain ⟨hRows, hCols⟩ := Territory.dimensions_vacant? hBoard
  obtain ⟨hSameRows, hSameCols⟩ :=
    dimensions_foundCenters settings.initCenterDep 1 centers board
  have hRegion : ∀ r ∈ g.territory.regions, (r.owner = none → r.cityCenter = false ∧ r.deposit = 0) ∧
      (r.owner ≠ none → r.cityCenter = true ∧ r.deposit = settings.initCenterDep) := by
    intro r hr
    have hGet := hRegular.mem_regions_iff.mp hr
    rw [ht] at hGet
    exact region_foundCenters hBoard hNodup hContains (by omega) hDepositLe hGet
  have hActor : g.actor.id = 1 := by
    rw [(orderly_create h).1.id_actor, hCurrent]
  exact {
    settings_eq := hg
    ids_eq := by rw [hPlayers, ids_seated]
    names_eq := by rw [hPlayers, names_seated]
    player := by
      rw [hPlayers]
      exact fun p hp => eq_of_mem_seated hPlayable.initBudget_nonneg hp
    dimensions := by
      rw [ht, hSameRows, hSameCols]
      omega
    regular := hRegular
    owners_perm := by
      apply hSound.perm_owners fun r hr hOwner => ((hRegion r hr).2 hOwner).1
      rw [ht, hPlayers]
      exact hCenters
    owned := fun r hr => (hRegion r hr).2
    unowned := fun r hr => (hRegion r hr).1
    turn_eq := hTurn
    actor_id := hActor
    undecided := ⟨hWinner, hEnded⟩
    crew := by
      rw [← ht, hActor] at hCrew
      obtain ⟨r, hr, _, hOwner⟩ := hRegular.get?_cityCenterOf? hCrew
      exact ⟨r, hr, hOwner⟩ }

/-- With valid settings it depends on the number of players alone whether a game can be set up, and
however it is drawn, everybody starts with the same. -/
theorem games_are_founded (settings : Settings) (names : List String) (seed : UInt64)
    (hSettings : settings.validate = .ok ()) :
    ((∃ g, create settings names seed = .ok g) ↔
      2 ≤ names.length ∧ names.length ≤ 8 ∧
        (names.length : Int) ≤ settings.rows * settings.cols) ∧
    ∀ g, create settings names seed = .ok g → g.Founded settings names := by
  constructor
  · rw [exists_create_eq_ok_iff, hasRoom_iff (Settings.playable_of_validate hSettings)]
  · intro g
    exact founded_create hSettings

/-- The board of a duel has a region for each of two players, and none for a third. -/
theorem duel_is_founded :
    (∃ g, create duelSettings ["a", "b"] 7 = .ok g ∧ g.Founded duelSettings ["a", "b"]) ∧
      ¬ ∃ g, create duelSettings ["a", "b", "c"] 7 = .ok g := by
  obtain ⟨hTwo, hFounded⟩ := games_are_founded duelSettings ["a", "b"] 7 rfl
  obtain ⟨hThree, _⟩ := games_are_founded duelSettings ["a", "b", "c"] 7 rfl
  obtain ⟨g, hCreate⟩ := hTwo.mpr (by decide)
  exact ⟨⟨g, hCreate, hFounded g hCreate⟩, fun h => absurd (hThree.mp h) (by decide)⟩

end Game

end CityCrew
