import Mathlib.Data.List.Nodup
import CityCrew.Proofs.SoundSetup

/-!
# When a game can be set up

The city centers are drawn without repetition, so every player gets a region of its own, whatever the
seed. A region stays a city center if something of its first deposit arrives. Setting up a game
can therefore only fail for reasons that the seed has no part in.
-/

namespace CityCrew

namespace Random.Generator

theorem draw_lt (width : Width) (random : Generator) : ((draw width).run random).1 < width.size := by
  cases width with
  | single => exact UInt32.toNat_lt_size _
  | double =>
    have hLow := UInt32.toNat_lt_size (word.run random).1
    have hHigh := UInt32.toNat_lt_size (word.run (word.run random).2).1
    have hDraw : ((draw .double).run random).1 =
      (word.run (word.run random).2).1.toNat * UInt32.size + (word.run random).1.toNat := rfl
    rw [hDraw]
    simp only [Width.size, UInt32.size, UInt64.size] at hLow hHigh ⊢
    omega

theorem draw_mul_div_lt (width : Width) {n : Nat} (hn : 0 < n) (random : Generator) :
    ((draw width).run random).1 * n / width.size < n := by
  apply Nat.div_lt_of_lt_mul
  exact Nat.mul_lt_mul_of_pos_right (draw_lt width random) hn

theorem run_scaled_succ (width : Width) (n zone retries : Nat) (random : Generator) :
    (scaled width n zone (retries + 1)).run random =
      if ((draw width).run random).1 * n % width.size ≤ zone then
        (((draw width).run random).1 * n / width.size, ((draw width).run random).2)
      else (scaled width n zone retries).run ((draw width).run random).2 := by
  rw [scaled, StateT.run_bind]
  generalize (draw width).run random = drawn
  change StateT.run (if drawn.1 * n % width.size ≤ zone then _ else _) drawn.2 = _
  split <;> rfl

theorem scaled_lt (width : Width) {n : Nat} (hn : 0 < n) (zone retries : Nat) (random : Generator) :
    ((scaled width n zone retries).run random).1 < n := by
  induction retries generalizing random with
  | zero => exact draw_mul_div_lt width hn random
  | succ retries ih =>
    rw [run_scaled_succ]
    split
    · exact draw_mul_div_lt width hn random
    · exact ih _

theorem below_lt (width : Width) {n : Nat} (hn : 0 < n) (random : Generator) :
    ((below width n).run random).1 < n :=
  scaled_lt width hn _ _ random

theorem perm_extend_of_mem {sample : List Nat} {j t : Nat} (h : t ∈ sample) :
    (extend sample j t).Perm (j :: sample) := by
  rw [extend, if_pos h]
  refine List.perm_middle.trans (List.Perm.cons j ?_)
  rw [List.takeWhile_append_dropWhile]

/-- A new member of a sample is `j` or a smaller one that was not there. -/
theorem nodup_extend {sample : List Nat} {j t : Nat} (hNodup : sample.Nodup)
    (hLt : ∀ i ∈ sample, i < j) (ht : t < j + 1) :
    (extend sample j t).Nodup ∧ ∀ i ∈ extend sample j t, i < j + 1 := by
  by_cases hMem : t ∈ sample
  · have hPerm := perm_extend_of_mem (j := j) hMem
    constructor
    · rw [hPerm.nodup_iff, List.nodup_cons]
      exact ⟨fun hj => Nat.lt_irrefl j (hLt j hj), hNodup⟩
    · intro i hi
      rcases List.mem_cons.mp (hPerm.mem_iff.mp hi) with rfl | hi
      · exact Nat.lt_succ_self i
      · exact Nat.lt_succ_of_lt (hLt i hi)
  · rw [extend, if_neg hMem]
    constructor
    · exact List.nodup_append_comm.mpr (List.nodup_cons.mpr ⟨hMem, hNodup⟩)
    · intro i hi
      rcases List.mem_append.mp hi with hi | hi
      · exact Nat.lt_succ_of_lt (hLt i hi)
      · rwa [List.mem_singleton.mp hi]

theorem nodup_sampleFrom {sample : List Nat} {j : Nat} (count : Nat) (random : Generator)
    (hNodup : sample.Nodup) (hLt : ∀ i ∈ sample, i < j) :
    ((sampleFrom sample j count).run random).1.Nodup ∧
      ∀ i ∈ ((sampleFrom sample j count).run random).1, i < j + count := by
  induction count generalizing sample j random with
  | zero => exact ⟨hNodup, hLt⟩
  | succ count ih =>
    have hNext := nodup_extend hNodup hLt (below_lt .single (Nat.succ_pos j) random)
    have hRest := ih ((below .single (j + 1)).run random).2 hNext.1 hNext.2
    rw [Nat.add_right_comm] at hRest
    rw [sampleFrom, StateT.run_bind]
    exact hRest

theorem nodup_sample {n count : Nat} (random : Generator) (h : count ≤ n) :
    ((sample n count).run random).1.Nodup ∧ ∀ i ∈ ((sample n count).run random).1, i < n := by
  have hNone : ∀ i ∈ ([] : List Nat), i < n - count := fun i hi => nomatch hi
  have hSample := nodup_sampleFrom count random List.nodup_nil hNone
  rwa [Nat.sub_add_cancel h] at hSample

end Random.Generator

namespace Territory

variable {t : Territory} {rows cols capacity : Int}

theorem size_vacant? (h : vacant? rows cols capacity = some t) :
    0 < rows ∧ 0 < cols ∧ t.regions.size = rows.toNat * cols.toNat := by
  unfold vacant? at h
  split at h
  · cases h
  · cases h
    exact ⟨by omega, by omega, Array.size_ofFn⟩

theorem exists_vacant? (capacity : Int) (hRows : 0 < rows) (hCols : 0 < cols) :
    ∃ t, vacant? rows cols capacity = some t := by
  unfold vacant?
  rw [if_neg (by omega)]
  exact ⟨_, rfl⟩

end Territory

namespace Game

variable {t : Territory} {centers : List Point} {capacity deposit : Int} {id : PlayerId}

theorem run_placeCenters {count : Nat} (random : Random.Generator) (h : count ≤ t.regions.size) :
    (placeCenters t count).run random = .ok
      (((Random.Generator.sample t.regions.size count).run random).1.filterMap fun i =>
        t.regions[i]?.map (·.location),
      ((Random.Generator.sample t.regions.size count).run random).2) := by
  unfold placeCenters
  simp only
  generalize Random.Generator.sample t.regions.size count = draw
  rw [if_neg (by omega)]
  rfl

/-- The centers are points of the board, one for each player. -/
theorem nodup_centers (ht : t.Regular) {count : Nat} {random random' : Random.Generator}
    (h : (placeCenters t count).run random = .ok (centers, random')) :
    centers.Nodup ∧ centers.length = count ∧ ∀ center ∈ centers, t.Contains center := by
  obtain ⟨hCount, hCenters⟩ := run_placeCenters_eq_ok h
  have hSample := Random.Generator.nodup_sample random hCount
  have hLength := Random.Generator.length_sample t.regions.size count random
  generalize ((Random.Generator.sample t.regions.size count).run random).1 = drawn at *
  have hPoints : centers = drawn.map (Territory.pointAt t.cols) := by
    rw [hCenters, ← List.filterMap_eq_map]
    apply List.filterMap_congr
    intro i hi
    have hlt := hSample.2 i hi
    rw [Array.getElem?_eq_getElem hlt, Option.map_some, ht.location_getElem i hlt]
    rfl
  have hIndex : ∀ i ∈ drawn, t.index? (Territory.pointAt t.cols i) = some i := by
    intro i hi
    apply Territory.index?_pointAt
    rw [← ht.size_regions]
    exact hSample.2 i hi
  subst hPoints
  refine ⟨?_, by rwa [List.length_map], ?_⟩
  · apply List.Nodup.map_on _ hSample.1
    intro i hi j hj hSame
    have hij := hIndex i hi
    rw [hSame, hIndex j hj] at hij
    exact (Option.some.inj hij).symm
  · intro center hCenter
    obtain ⟨i, hi, rfl⟩ := List.mem_map.mp hCenter
    exact (Territory.index?_eq_some_iff.mp (hIndex i hi)).1

def founded (capacity deposit : Int) (center : Point) (id : PlayerId) : Region :=
  ((Region.vacant center capacity).withCityCenter id).deposited deposit

theorem founded_of_pos {center : Point} (h : 0 < min capacity deposit) :
    (founded capacity deposit center id).cityCenter = true ∧
      (founded capacity deposit center id).owner = some id := by
  have hDeposit : 0 < (founded capacity deposit center id).deposit := by
    rw [founded, Region.deposit_deposited]
    simp only [Region.withCityCenter, Region.vacant]
    omega
  obtain ⟨hOwner, hCenter⟩ := Region.deposited_of_pos hDeposit
  exact ⟨hCenter, hOwner⟩

theorem cityCenter_founded_of_nonpos {center : Point} (h : min capacity deposit ≤ 0) :
    (founded capacity deposit center id).cityCenter = false := by
  have hDeposit : (founded capacity deposit center id).deposit = 0 := by
    rw [founded, Region.deposit_deposited]
    simp only [Region.withCityCenter, Region.vacant]
    omega
  exact (Region.deposited_of_empty hDeposit).2

theorem regular_foundCenters (ht : t.Regular) : (foundCenters deposit id centers t).Regular := by
  induction centers generalizing t id with
  | nil => exact ht
  | cons center rest ih => exact ih (ht.modify fun _ => Region.location_deposited)

theorem get?_foundCenters_of_notMem {p : Point} (h : p ∉ centers) :
    (foundCenters deposit id centers t).get? p = t.get? p := by
  induction centers generalizing t id with
  | nil => rfl
  | cons center rest ih =>
    rw [List.mem_cons, not_or] at h
    rw [foundCenters, ih h.2, Territory.get?_modify_of_ne (Ne.symm h.1)]

/-- The players get the centers one after another. -/
theorem get?_foundCenters (deposit : Int) (id : PlayerId) (hNodup : centers.Nodup)
    (hVacant : ∀ center ∈ centers, t.get? center = some (Region.vacant center capacity)) (k : Nat)
    (hk : k < centers.length) :
    (foundCenters deposit id centers t).get? centers[k] =
      some (founded capacity deposit centers[k] (id + k)) := by
  induction centers generalizing t id k with
  | nil => cases hk
  | cons center rest ih =>
    obtain ⟨hNew, hNodup⟩ := List.nodup_cons.mp hNodup
    rw [foundCenters]
    cases k with
    | zero =>
      rw [List.getElem_cons_zero, get?_foundCenters_of_notMem hNew,
        Territory.get?_modify_self (hVacant center List.mem_cons_self)]
      rfl
    | succ k =>
      -- The first center is none of the others, so they are still vacant when their turn comes.
      rw [List.getElem_cons_succ, Nat.add_left_comm, Nat.add_comm k]
      apply ih (id + 1) hNodup
      intro p hp
      rw [Territory.get?_modify_of_ne (by
        rintro rfl
        exact hNew hp)]
      exact hVacant p (List.mem_cons_of_mem _ hp)

theorem get?_vacant_of_mem {rows cols : Int}
    (hBoard : Territory.vacant? rows cols capacity = some t)
    (hContains : ∀ center ∈ centers, t.Contains center) :
    ∀ center ∈ centers, t.get? center = some (Region.vacant center capacity) := by
  intro center hCenter
  obtain ⟨r, hr⟩ := Option.isSome_iff_exists.mp
    ((Territory.Regular.vacant? hBoard).get?_isSome_iff.mpr (hContains center hCenter))
  rw [hr, Territory.get?_vacant? hBoard hr]

/-- A player has a city center if something of the first deposit arrives there. -/
theorem isSome_cityCenterOf?_iff {rows cols : Int} (deposit : Int) (id : PlayerId)
    (hBoard : Territory.vacant? rows cols capacity = some t) (hNodup : centers.Nodup)
    (hContains : ∀ center ∈ centers, t.Contains center) {k : Nat} (hk : k < centers.length) :
    ((foundCenters deposit id centers t).cityCenterOf? (id + k)).isSome ↔
      0 < min capacity deposit := by
  have ht := Territory.Regular.vacant? hBoard
  have hFounded := get?_foundCenters deposit id hNodup (get?_vacant_of_mem hBoard hContains)
  rw [(regular_foundCenters ht).cityCenterOf?_isSome_iff]
  constructor
  · -- Without a deposit there is no city center at all, on the chosen points or elsewhere.
    rintro ⟨p, r, hr, hCenter, -⟩
    refine Int.not_le.mp fun hEmpty => ?_
    by_cases hp : p ∈ centers
    · obtain ⟨i, hi, rfl⟩ := List.mem_iff_getElem.mp hp
      rw [hFounded i hi] at hr
      obtain rfl := Option.some.inj hr
      rw [cityCenter_founded_of_nonpos hEmpty] at hCenter
      cases hCenter
    · rw [get?_foundCenters_of_notMem hp] at hr
      rw [Territory.get?_vacant? hBoard hr] at hCenter
      cases hCenter
  · intro hDeposit
    exact ⟨_, _, hFounded k hk, founded_of_pos hDeposit⟩

theorem cityCenterOf?_foundCenters {rows cols : Int} (id : PlayerId)
    (hBoard : Territory.vacant? rows cols capacity = some t) (hNodup : centers.Nodup)
    (hContains : ∀ center ∈ centers, t.Contains center) (hDeposit : 0 < min capacity deposit)
    {k : Nat} (hk : k < centers.length) :
    (foundCenters deposit id centers t).cityCenterOf? (id + k) = some centers[k] := by
  have ht := Territory.Regular.vacant? hBoard
  obtain ⟨p, hp⟩ := Option.isSome_iff_exists.mp
    ((isSome_cityCenterOf?_iff deposit id hBoard hNodup hContains hk).mpr hDeposit)
  obtain ⟨r, hr, hCenter, hOwner⟩ := (regular_foundCenters ht).get?_cityCenterOf? hp
  by_cases hMem : p ∈ centers
  · obtain ⟨j, hj, rfl⟩ := List.mem_iff_getElem.mp hMem
    rw [get?_foundCenters deposit id hNodup (get?_vacant_of_mem hBoard hContains) j hj] at hr
    obtain rfl := Option.some.inj hr
    rw [(founded_of_pos hDeposit).2] at hOwner
    obtain rfl : j = k := Nat.add_left_cancel (Option.some.inj hOwner)
    exact hp
  · rw [get?_foundCenters_of_notMem hMem] at hr
    rw [Territory.get?_vacant? hBoard hr] at hCenter
    cases hCenter

theorem exists_start_eq_ok {settings : Settings} {players : List Player}
    (random : Random.Generator) (hPlayers : minPlayers ≤ players.length)
    (hCenters : ∀ p ∈ players, (t.cityCenterOf? p.id).isSome) :
    ∃ g, start settings t players random = .ok g := by
  unfold start
  rw [dif_neg (Nat.not_lt.mpr hPlayers)]
  have hNone : (players.find? fun p => (t.cityCenterOf? p.id).isNone) = none := by
    apply List.find?_eq_none.mpr
    intro p hp
    simpa [Option.isSome_iff_ne_none] using hCenters p hp
  split
  · rename_i p hSome
    rw [hNone] at hSome
    cases hSome
  · exact ⟨_, rfl⟩

structure HasRoom (settings : Settings) (n : Nat) : Prop where
  min_le : minPlayers ≤ n
  le_max : n ≤ maxPlayers
  rows_pos : 0 < settings.rows
  cols_pos : 0 < settings.cols
  le_regions : n ≤ settings.rows.toNat * settings.cols.toNat
  deposit_pos : 0 < min settings.maxDep settings.initCenterDep

theorem hasRoom_of_create_eq_ok {settings : Settings} {names : List String} {seed : UInt64}
    {g : Game} (h : create settings names seed = .ok g) : HasRoom settings names.length := by
  obtain ⟨hMin, hMax, board, centers, random, hBoard, hPlaced, hStart⟩ := of_create_eq_ok h
  obtain ⟨hNodup, hLength, hContains⟩ := nodup_centers (Territory.Regular.vacant? hBoard) hPlaced
  obtain ⟨hRows, hCols, hSize⟩ := Territory.size_vacant? hBoard
  have hPos : 0 < centers.length := by
    unfold minPlayers at hMin
    omega
  refine ⟨hMin, hMax, hRows, hCols, ?_, ?_⟩
  · rw [← hSize]
    exact (run_placeCenters_eq_ok hPlaced).1
  · obtain ⟨hCenters, _⟩ := of_start_eq_ok hStart
    have hFirst : 1 ∈ (seated settings names).map (·.id) := by
      rw [ids_seated]
      exact List.mem_range'_1.mpr ⟨Nat.le_refl 1, by omega⟩
    obtain ⟨p, hp, hId⟩ := List.mem_map.mp hFirst
    have hCenter := hCenters p hp
    rw [hId] at hCenter
    exact (isSome_cityCenterOf?_iff settings.initCenterDep 1 hBoard hNodup hContains hPos).mp hCenter

theorem HasRoom.exists_create_eq_ok {settings : Settings} {names : List String}
    (h : HasRoom settings names.length) (seed : UInt64) :
    ∃ g, create settings names seed = .ok g := by
  obtain ⟨board, hBoard⟩ := Territory.exists_vacant? settings.maxDep h.rows_pos h.cols_pos
  obtain ⟨_, _, hSize⟩ := Territory.size_vacant? hBoard
  have hPlaced := run_placeCenters (t := board) (.ofSeed seed) (hSize ▸ h.le_regions)
  obtain ⟨hNodup, hLength, hContains⟩ := nodup_centers (Territory.Regular.vacant? hBoard) hPlaced
  have hCount := h.min_le
  have hMax := h.le_max
  rw [create, if_neg (by omega), hBoard]
  simp only [hPlaced]
  apply exists_start_eq_ok
  · simpa using h.min_le
  · intro p hp
    have hId : p.id ∈ (seated settings names).map (·.id) := List.mem_map_of_mem hp
    rw [ids_seated] at hId
    obtain ⟨hLow, hHigh⟩ := List.mem_range'_1.mp hId
    have hCenter := isSome_cityCenterOf?_iff settings.initCenterDep 1 hBoard hNodup hContains
      (k := p.id - 1) (by omega)
    rw [Nat.add_sub_cancel' hLow] at hCenter
    exact hCenter.mpr h.deposit_pos

/-- Whether a game can be created does not depend on the seed. -/
theorem exists_create_eq_ok_iff {settings : Settings} {names : List String} {seed : UInt64} :
    (∃ g, create settings names seed = .ok g) ↔ HasRoom settings names.length :=
  ⟨fun ⟨_, h⟩ => hasRoom_of_create_eq_ok h, fun h => h.exists_create_eq_ok seed⟩

end Game

end CityCrew
