import Mathlib.Data.List.FinRange
import Mathlib.Data.List.Nodup
import Mathlib.Data.List.OfFn
import CityCrew.Proofs.Founding
import CityCrew.Proofs.Lattice

/-!
# The board as a grid

The list of regions holds the rows of the board one after the other. Each place in it is the index
of one point, and the region there knows that it lies at this point. No change that is made in a
game touches a location, so this holds as long as a game is played.
-/

namespace CityCrew

namespace Territory

variable {t : Territory} {p q : Point} {id : PlayerId}

theorem index?_eq_none_iff : t.index? p = none ↔ ¬ t.Contains p := by
  unfold index?
  split <;> simp [*]

theorem existsUnique_index?_eq {i : Nat} (h : i < t.rows * t.cols) : ∃! p, t.index? p = some i :=
  ⟨pointAt t.cols i, index?_pointAt h, fun _ hp => (pointAt_of_index? hp).symm⟩

theorem Regular.exists_region (ht : t.Regular) {i : Nat} (h : t.index? p = some i) :
    ∃ r, t.regions[i]? = some r ∧ t.get? p = some r ∧ r.location = p := by
  have hi : i < t.regions.size := by
    rw [ht.size_regions]
    exact index?_lt h
  refine ⟨t.regions[i], Array.getElem?_eq_getElem hi, ?_, ?_⟩
  · rw [get?, h]
    exact Array.getElem?_eq_getElem hi
  · rw [ht.location_getElem i hi, pointAt_of_index? h]

theorem nodup_neighbors (t : Territory) (p : Point) : (t.neighbors p).Nodup := by
  have hAll : Direction.all.Nodup := by decide
  exact (hAll.map p.step_injective).filter _

theorem mem_neighbors_comm (hp : t.Contains p) :
    q ∈ t.neighbors p ↔ t.Contains q ∧ p ∈ t.neighbors q := by
  rw [mem_neighbors_iff, mem_neighbors_iff]
  constructor
  · rintro ⟨⟨d, rfl⟩, hq⟩
    exact ⟨hq, ⟨d.turned 3, p.step_step_opposite d⟩, hp⟩
  · rintro ⟨hq, ⟨d, rfl⟩, -⟩
    exact ⟨⟨d.turned 3, q.step_step_opposite d⟩, hq⟩

/-- The points of the board and the places in the list of regions answer to each other, and so do
neighbors, and city centers are found where they are. -/
structure Grid (t : Territory) : Prop where
  index?_eq_none_iff : ∀ p, t.index? p = none ↔ ¬ t.Contains p
  index?_lt : ∀ p i, t.index? p = some i → i < t.rows * t.cols
  existsUnique_index? : ∀ i, i < t.rows * t.cols → ∃! p, t.index? p = some i
  size_regions : t.regions.size = t.rows * t.cols
  region : ∀ p i, t.index? p = some i →
    ∃ r, t.regions[i]? = some r ∧ t.get? p = some r ∧ r.location = p
  nodup_neighbors : ∀ p, t.Contains p → (t.neighbors p).Nodup
  mem_neighbors_iff : ∀ p, t.Contains p →
    ∀ q, q ∈ t.neighbors p ↔ t.Contains q ∧ p ∈ t.neighbors q
  center : ∀ id p, t.cityCenterOf? id = some p →
    ∃ r, t.get? p = some r ∧ r.cityCenter = true ∧ r.owner = some id

theorem Regular.grid (ht : t.Regular) : t.Grid where
  index?_eq_none_iff _ := Territory.index?_eq_none_iff
  index?_lt _ _ := Territory.index?_lt
  existsUnique_index? _ := existsUnique_index?_eq
  size_regions := ht.size_regions
  region _ _ := ht.exists_region
  nodup_neighbors p _ := t.nodup_neighbors p
  mem_neighbors_iff _ hp _ := mem_neighbors_comm hp
  center _ _ := ht.get?_cityCenterOf?

theorem ofFn_val_eq_map {α : Type} (n : Nat) (f : Nat → α) :
    List.ofFn (fun i : Fin n => f i) = (List.range n).map f := by
  rw [List.ofFn_eq_map, ← List.map_coe_finRange_eq_range, List.map_map]
  rfl

theorem ofFn_mul_eq_flatMap {α : Type} (m n : Nat) (f : Nat → α) :
    List.ofFn (fun i : Fin (m * n) => f i) =
      (List.range m).flatMap fun i => (List.range n).map fun j => f (i * n + j) := by
  have hRow : ∀ i : Nat, List.ofFn (fun j : Fin n => f (i * n + j)) =
      (List.range n).map fun j => f (i * n + j) :=
    fun i => ofFn_val_eq_map n fun j => f (i * n + j)
  simp only [List.ofFn_mul, hRow]
  exact congrArg List.flatten (ofFn_val_eq_map m fun i => (List.range n).map fun j => f (i * n + j))

/-- A new board is made row by row, and each row from left to right. -/
theorem toList_regions_vacant? {rows cols capacity : Int}
    (h : vacant? rows cols capacity = some t) : t.regions.toList =
      (List.range t.rows).flatMap fun row : Nat =>
        (List.range t.cols).map fun col : Nat => Region.vacant ⟨col, row⟩ capacity := by
  unfold vacant? at h
  split at h
  · cases h
  · cases h
    rw [Array.toList_ofFn,
      ofFn_mul_eq_flatMap _ _ fun i => Region.vacant (pointAt cols.toNat i) capacity]
    refine List.flatMap_congr fun row _ => List.map_congr_left fun col hCol => ?_
    rw [pointAt_mul_add (List.mem_range.mp hCol)]

/-- A board of any size is a grid, and so is the board of a game, however long it has been
played. -/
theorem boards_are_grids :
    (∀ rows cols capacity : Int, 0 < rows → 0 < cols →
      ∃ t, vacant? rows cols capacity = some t ∧ (t.rows : Int) = rows ∧ (t.cols : Int) = cols ∧
        t.regions.toList = ((List.range t.rows).flatMap fun row : Nat =>
          (List.range t.cols).map fun col : Nat => Region.vacant ⟨col, row⟩ capacity) ∧
        t.Grid) ∧
    ∀ g, Game.Reachable g → g.territory.Grid := by
  constructor
  · intro rows cols capacity hRows hCols
    obtain ⟨t, ht⟩ := exists_vacant? capacity hRows hCols
    obtain ⟨hSameRows, hSameCols⟩ := dimensions_vacant? ht
    exact ⟨t, ht, by omega, by omega, toList_regions_vacant? ht, (Regular.vacant? ht).grid⟩
  · intro g h
    exact h.sound.board.regular.grid

/-- A board of two rows and three columns is a grid, and so is that of a duel. -/
theorem small_boards_are_grids :
    (∃ t, vacant? 2 3 100 = some t ∧ t.Grid ∧ t.index? ⟨1, 1⟩ = some 4) ∧
      ∃ g, Game.create Game.duelSettings ["a", "b"] 7 = .ok g ∧ g.territory.Grid := by
  obtain ⟨hNew, hGame⟩ := boards_are_grids
  obtain ⟨t, ht, hRows, hCols, -, hGrid⟩ := hNew 2 3 100 (by decide) (by decide)
  obtain ⟨g, _, hCreate, -⟩ := Game.exists_duel
  refine ⟨⟨t, ht, hGrid, index?_eq_some_iff.mpr ⟨?_, ?_⟩⟩, g, hCreate,
    hGame g (.betweenTurns (.create rfl hCreate))⟩
  · show (0 : Int) ≤ 1 ∧ (1 : Int) < t.rows ∧ (0 : Int) ≤ 1 ∧ (1 : Int) < t.cols
    omega
  · have hThree : t.cols = 3 := by omega
    rw [hThree]
    rfl

end Territory

end CityCrew
