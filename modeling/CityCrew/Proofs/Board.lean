import CityCrew.Board.Territory

/-!
# Addressing the board

On a territory whose regions stand where they belong, the points of the board and the regions
answer to each other one by one. What is done to a territory can then be followed point by point.
-/

namespace CityCrew

namespace Territory

/-- Every place in the list of regions holds the region of the point it stands for. -/
structure Regular (t : Territory) : Prop where
  size_regions : t.regions.size = t.rows * t.cols
  location_getElem : ∀ i (h : i < t.regions.size), t.regions[i].location = pointAt t.cols i

variable {t : Territory} {p q : Point} {r s : Region} {f : Region → Region} {id : PlayerId}

theorem index?_eq_some_iff {i : Nat} :
    t.index? p = some i ↔ t.Contains p ∧ p.row.toNat * t.cols + p.col.toNat = i := by
  unfold index?
  split <;> simp [*]

theorem index?_lt {i : Nat} (h : t.index? p = some i) : i < t.rows * t.cols := by
  obtain ⟨⟨_, hRow, _, hCol⟩, rfl⟩ := index?_eq_some_iff.mp h
  have hRow' : p.row.toNat + 1 ≤ t.rows := by omega
  have hCol' : p.col.toNat < t.cols := by omega
  calc
    p.row.toNat * t.cols + p.col.toNat < p.row.toNat * t.cols + t.cols := by omega
    _ = (p.row.toNat + 1) * t.cols := by rw [Nat.add_mul, Nat.one_mul]
    _ ≤ t.rows * t.cols := Nat.mul_le_mul_right _ hRow'

theorem pointAt_mul_add {cols row col : Nat} (h : col < cols) :
    pointAt cols (row * cols + col) = ⟨col, row⟩ := by
  have hMod : (row * cols + col) % cols = col := by
    rw [Nat.mul_comm, Nat.mul_add_mod, Nat.mod_eq_of_lt h]
  have hDiv : (row * cols + col) / cols = row := by
    rw [Nat.mul_comm, Nat.mul_add_div (by omega), Nat.div_eq_of_lt h, Nat.add_zero]
  rw [pointAt, hMod, hDiv]

theorem pointAt_of_index? {i : Nat} (h : t.index? p = some i) : pointAt t.cols i = p := by
  obtain ⟨⟨hRow, _, hCol, hColLt⟩, rfl⟩ := index?_eq_some_iff.mp h
  rw [pointAt_mul_add (by omega), Int.toNat_of_nonneg hRow, Int.toNat_of_nonneg hCol]

theorem index?_pointAt {i : Nat} (h : i < t.rows * t.cols) : t.index? (pointAt t.cols i) = some i := by
  have hCols : 0 < t.cols := Nat.pos_of_ne_zero fun h0 => by simp [h0] at h
  have hCol : i % t.cols < t.cols := Nat.mod_lt _ hCols
  have hRow : i / t.cols < t.rows := Nat.div_lt_of_lt_mul (by rwa [Nat.mul_comm])
  rw [index?_eq_some_iff]
  constructor
  · exact ⟨Int.natCast_nonneg _, Int.ofNat_lt.mpr hRow, Int.natCast_nonneg _, Int.ofNat_lt.mpr hCol⟩
  · simp only [pointAt, Int.toNat_natCast]
    exact Nat.div_add_mod' i t.cols

theorem eq_of_index?_eq {i : Nat} (hp : t.index? p = some i) (hq : t.index? q = some i) : p = q := by
  rw [← pointAt_of_index? hp, ← pointAt_of_index? hq]

theorem contains_of_get? (h : t.get? p = some r) : t.Contains p := by
  obtain ⟨i, hi, _⟩ := Option.bind_eq_some_iff.mp h
  exact (index?_eq_some_iff.mp hi).1

theorem mem_regions_of_get? (h : t.get? p = some r) : r ∈ t.regions := by
  obtain ⟨i, _, hr⟩ := Option.bind_eq_some_iff.mp h
  exact Array.mem_of_getElem? hr

namespace Regular

theorem get?_isSome_iff (ht : t.Regular) : (t.get? p).isSome ↔ t.Contains p := by
  constructor
  · intro h
    obtain ⟨r, hr⟩ := Option.isSome_iff_exists.mp h
    exact contains_of_get? hr
  · intro h
    have hi : t.index? p = some (p.row.toNat * t.cols + p.col.toNat) :=
      index?_eq_some_iff.mpr ⟨h, rfl⟩
    have hlt := index?_lt hi
    rw [← ht.size_regions] at hlt
    simp [get?, hi, hlt]

/-- The regions are those that stand at some point of the board. -/
theorem mem_regions_iff (ht : t.Regular) : r ∈ t.regions ↔ t.get? r.location = some r := by
  constructor
  · intro h
    obtain ⟨i, hi, rfl⟩ := Array.mem_iff_getElem.mp h
    have hlt : i < t.rows * t.cols := by rwa [← ht.size_regions]
    rw [ht.location_getElem i hi, get?, index?_pointAt hlt]
    exact Array.getElem?_eq_getElem hi
  · exact mem_regions_of_get?

theorem modify (ht : t.Regular) (hf : ∀ r, (f r).location = r.location) :
    (t.modify p f).Regular := by
  unfold Territory.modify
  split
  · constructor
    · simpa using ht.size_regions
    · intro i hi
      simp only [Array.size_modify] at hi
      rw [← ht.location_getElem i hi, Array.getElem_modify]
      split
      · exact hf _
      · rfl
  · exact ht

theorem mapRegions (ht : t.Regular) (hf : ∀ r, (f r).location = r.location) :
    (t.mapRegions f).Regular := by
  constructor
  · simpa [Territory.mapRegions] using ht.size_regions
  · intro i hi
    simp only [Territory.mapRegions, Array.size_map] at hi
    simp only [Territory.mapRegions, Array.getElem_map]
    rw [hf, ht.location_getElem i hi]

end Regular

@[simp] theorem rows_modify : (t.modify p f).rows = t.rows := by
  unfold modify
  split <;> rfl

@[simp] theorem cols_modify : (t.modify p f).cols = t.cols := by
  unfold modify
  split <;> rfl

@[simp] theorem contains_modify : (t.modify p f).Contains q ↔ t.Contains q := by
  simp [Contains]

@[simp] theorem index?_modify : (t.modify p f).index? q = t.index? q := by
  simp [index?]

theorem get?_modify : (t.modify p f).get? q = if p = q then (t.get? q).map f else t.get? q := by
  rw [get?, index?_modify, get?]
  cases hq : t.index? q with
  | none => simp
  | some j =>
    simp only [Option.bind_some, modify]
    cases hp : t.index? p with
    | none =>
      have hne : p ≠ q := by
        rintro rfl
        simp [hp] at hq
      simp [hne]
    | some i =>
      have hij : i = j ↔ p = q := by
        constructor
        · rintro rfl
          exact eq_of_index?_eq hp hq
        · rintro rfl
          exact Option.some.inj (hp.symm.trans hq)
      simp only [Array.getElem?_modify, hij]

theorem get?_modify_self (h : t.get? p = some r) : (t.modify p f).get? p = some (f r) := by
  rw [get?_modify, if_pos rfl, h]
  rfl

theorem get?_modify_of_ne (h : p ≠ q) : (t.modify p f).get? q = t.get? q := by
  rw [get?_modify, if_neg h]

/-- A change that leaves the region at its point as it is changes nothing. -/
theorem modify_eq_self (h : ∀ r, t.get? p = some r → f r = r) : t.modify p f = t := by
  unfold modify
  split
  · rename_i i hi
    have hRegions : t.regions.modify i f = t.regions := by
      apply Array.ext_getElem?
      intro j
      rw [Array.getElem?_modify]
      split
      · rename_i hij
        subst hij
        cases hr : t.regions[i]? with
        | none => rfl
        | some r => exact congrArg some (h r (by rw [get?, hi, Option.bind_some, hr]))
      · rfl
    rw [hRegions]
  · rfl

theorem modify_of_get?_eq_none (h : t.get? p = none) : t.modify p f = t :=
  modify_eq_self fun r hr => by simp [h] at hr

theorem modify_modify (t : Territory) (p : Point) (f k : Region → Region) :
    (t.modify p f).modify p k = t.modify p (k ∘ f) := by
  rw [modify, index?_modify]
  unfold modify
  cases t.index? p with
  | none => rfl
  | some i =>
    have hRegions : (t.regions.modify i f).modify i k = t.regions.modify i (k ∘ f) := by
      apply Array.ext_getElem?
      intro j
      simp only [Array.getElem?_modify]
      split <;> simp [Option.map_map]
    simp only [hRegions]

theorem get?_modify_cases (h : (t.modify p f).get? q = some s) :
    (p ≠ q ∧ t.get? q = some s) ∨ (p = q ∧ ∃ r, t.get? q = some r ∧ f r = s) := by
  rw [get?_modify] at h
  split at h
  · exact .inr ⟨‹p = q›, Option.map_eq_some_iff.mp h⟩
  · exact .inl ⟨‹p ≠ q›, h⟩

/-- A region after a change at one point is an old one, or the changed one. -/
theorem mem_regions_modify (h : s ∈ (t.modify p f).regions) :
    s ∈ t.regions ∨ ∃ r, t.get? p = some r ∧ f r = s := by
  unfold modify at h
  split at h
  · rename_i i hi
    obtain ⟨j, hj⟩ := Array.mem_iff_getElem?.mp h
    rw [Array.getElem?_modify] at hj
    split at hj
    · rename_i hij
      obtain ⟨r, hr, rfl⟩ := Option.map_eq_some_iff.mp hj
      exact .inr ⟨r, by simp [get?, hi, hij, hr], rfl⟩
    · exact .inl (Array.mem_of_getElem? hj)
  · exact .inl h

theorem get?_mapRegions : (t.mapRegions f).get? q = (t.get? q).map f := by
  have hIndex : (t.mapRegions f).index? q = t.index? q := rfl
  rw [get?, hIndex, get?]
  cases t.index? q with
  | none => rfl
  | some i => simp [mapRegions]

theorem isOwnedBy_eq_true_iff :
    t.isOwnedBy p id = true ↔ ∃ r, t.get? p = some r ∧ r.owner = some id := by
  rw [isOwnedBy, Option.any_eq_true]
  simp only [Region.isOwnedBy, beq_iff_eq]

namespace Regular

/-- A city center that is found is one. -/
theorem get?_cityCenterOf? (ht : t.Regular) (h : t.cityCenterOf? id = some p) :
    ∃ r, t.get? p = some r ∧ r.cityCenter = true ∧ r.owner = some id := by
  obtain ⟨r, hr, rfl⟩ := Option.map_eq_some_iff.mp h
  have hMem := Array.mem_of_find?_eq_some hr
  have hCenter := Array.find?_some hr
  simp only [Bool.and_eq_true, Region.isOwnedBy, beq_iff_eq] at hCenter
  exact ⟨r, ht.mem_regions_iff.mp hMem, hCenter.1, hCenter.2⟩

theorem cityCenterOf?_isSome_iff (ht : t.Regular) : (t.cityCenterOf? id).isSome ↔
    ∃ p r, t.get? p = some r ∧ r.cityCenter = true ∧ r.owner = some id := by
  constructor
  · intro h
    obtain ⟨p, hp⟩ := Option.isSome_iff_exists.mp h
    exact ⟨p, ht.get?_cityCenterOf? hp⟩
  · rintro ⟨p, r, hr, hCenter, hOwner⟩
    rw [cityCenterOf?, Option.isSome_map, Array.find?_isSome]
    exact ⟨r, mem_regions_of_get? hr, by simp [Region.isOwnedBy, hCenter, hOwner]⟩

theorem vacant? {rows cols capacity : Int} (h : Territory.vacant? rows cols capacity = some t) :
    t.Regular := by
  unfold Territory.vacant? at h
  split at h
  · cases h
  · cases h
    constructor
    · simp
    · intro i hi
      simp [Region.vacant]

end Regular

/-- Every region of a vacant board is vacant. -/
theorem get?_vacant? {rows cols capacity : Int} (h : vacant? rows cols capacity = some t)
    (hr : t.get? p = some r) : r = Region.vacant p capacity := by
  obtain ⟨i, hi, hr⟩ := Option.bind_eq_some_iff.mp hr
  have hp := pointAt_of_index? hi
  unfold vacant? at h
  split at h
  · cases h
  · cases h
    obtain ⟨_, rfl⟩ := Array.getElem?_eq_some_iff.mp hr
    simp only [Array.getElem_ofFn]
    rw [hp]

end Territory

namespace Region

variable {r : Region} {amount : Int}

@[simp] theorem location_deposited : (r.deposited amount).location = r.location := by
  simp only [deposited]
  split <;> rfl

@[simp] theorem capacity_deposited : (r.deposited amount).capacity = r.capacity := by
  simp only [deposited]
  split <;> rfl

theorem deposit_deposited :
    (r.deposited amount).deposit = max 0 (min r.capacity (r.deposit + amount)) := by
  simp only [deposited]
  split
  · exact (‹_ = (0 : Int)›).symm
  · rfl

/-- A region that runs empty falls back to nobody. -/
theorem deposited_of_empty (h : (r.deposited amount).deposit = 0) :
    (r.deposited amount).owner = none ∧ (r.deposited amount).cityCenter = false := by
  rw [deposit_deposited] at h
  simp [deposited, h]

theorem deposited_of_pos (h : 0 < (r.deposited amount).deposit) :
    (r.deposited amount).owner = r.owner ∧ (r.deposited amount).cityCenter = r.cityCenter := by
  rw [deposit_deposited] at h
  have hne : max 0 (min r.capacity (r.deposit + amount)) ≠ 0 := by omega
  simp [deposited, hne]

theorem isOpposedTo_eq_false_iff {id : PlayerId} :
    r.isOpposedTo id = false ↔ ∀ owner, r.owner = some owner → owner = id := by
  rw [isOpposedTo, Option.any_eq_false]
  simp

end Region

end CityCrew
