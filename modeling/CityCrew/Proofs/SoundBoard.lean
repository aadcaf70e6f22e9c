import CityCrew.Proofs.Board

/-!
# Sound boards

What has to be true of the regions of a board for a game on it to make sense. Money that leaves a
region does no harm to it; any other change has to say what it does to owners and city centers.
-/

namespace CityCrew

/-- The deposit is in its range, exactly the empty region belongs to nobody, and a city center
belongs to somebody. -/
structure Region.Sound (r : Region) (capacity : Int) : Prop where
  deposit_nonneg : 0 ≤ r.deposit
  deposit_le : r.deposit ≤ capacity
  capacity_eq : r.capacity = capacity
  owner_eq_none_iff : r.owner = none ↔ r.deposit = 0
  owned_of_cityCenter : r.cityCenter = true → r.owner ≠ none

namespace Region

variable {r : Region} {amount capacity : Int} {id : PlayerId}

theorem owner_of_owner_deposited (h : (r.deposited amount).owner = some id) : r.owner = some id := by
  simp only [deposited] at h
  split at h
  · cases h
  · exact h

theorem cityCenter_of_cityCenter_deposited (h : (r.deposited amount).cityCenter = true) :
    r.cityCenter = true := by
  simp only [deposited] at h
  split at h
  · cases h
  · exact h

theorem Sound.in_range (h : r.Sound capacity) : 0 ≤ r.deposit ∧ r.deposit ≤ r.capacity := by
  rw [h.capacity_eq]
  exact ⟨h.deposit_nonneg, h.deposit_le⟩

theorem sound_deposited (hCapacity : r.capacity = capacity) (hPos : 0 ≤ capacity)
    (hOwner : 0 < (r.deposited amount).deposit → r.owner ≠ none) :
    (r.deposited amount).Sound capacity := by
  have hDeposit : (r.deposited amount).deposit = max 0 (min capacity (r.deposit + amount)) := by
    rw [deposit_deposited, hCapacity]
  by_cases hEmpty : (r.deposited amount).deposit = 0
  · obtain ⟨hNone, hCenter⟩ := deposited_of_empty hEmpty
    exact ⟨by omega, by omega, by simp [hCapacity], by simp [hNone, hEmpty], by simp [hCenter]⟩
  · have hFull : 0 < (r.deposited amount).deposit := by omega
    have hSome := hOwner hFull
    obtain ⟨hSame, _⟩ := deposited_of_pos hFull
    exact ⟨by omega, by omega, by simp [hCapacity], by simp [hSame, hSome, hEmpty],
      by simp [hSame, hSome]⟩

/-- Less money leaves a sound region sound. -/
theorem Sound.withdraw (h : r.Sound capacity) (hAmount : amount ≤ 0) :
    (r.deposited amount).Sound capacity := by
  have hNonneg := h.deposit_nonneg
  have hLe := h.deposit_le
  apply sound_deposited h.capacity_eq (by omega)
  intro hPos hNone
  have hZero := h.owner_eq_none_iff.mp hNone
  rw [deposit_deposited] at hPos
  omega

end Region

/-- All regions are sound, their owners are among `ids`, and no owner has two city centers. -/
structure Territory.Sound (t : Territory) (capacity : Int) (ids : List PlayerId) : Prop where
  regular : t.Regular
  region : ∀ p r, t.get? p = some r → r.Sound capacity
  owner_mem : ∀ p r id, t.get? p = some r → r.owner = some id → id ∈ ids
  center_unique : ∀ p q r s, t.get? p = some r → t.get? q = some s → r.cityCenter = true →
    s.cityCenter = true → r.owner = s.owner → p = q

namespace Territory.Sound

variable {t : Territory} {capacity amount : Int} {ids : List PlayerId} {id : PlayerId} {p : Point}
  {f : Region → Region}

theorem region_of_mem (h : t.Sound capacity ids) {r : Region} (hr : r ∈ t.regions) :
    r.Sound capacity :=
  h.region _ r (h.regular.mem_regions_iff.mp hr)

/-- A change at one point, given that the changed region is sound and takes nobody's second
center. -/
theorem modify (h : t.Sound capacity ids) (hLocation : ∀ r, (f r).location = r.location)
    (hSound : ∀ r, t.get? p = some r → (f r).Sound capacity)
    (hOwner : ∀ r id, t.get? p = some r → (f r).owner = some id → id ∈ ids)
    (hCenter : ∀ r q s, t.get? p = some r → (f r).cityCenter = true → t.get? q = some s →
      s.cityCenter = true → (f r).owner = s.owner → p = q) :
    (t.modify p f).Sound capacity ids where
  regular := h.regular.modify hLocation
  region q s hs := by
    rcases get?_modify_cases hs with ⟨_, hs⟩ | ⟨rfl, r, hr, rfl⟩
    · exact h.region q s hs
    · exact hSound r hr
  owner_mem q s id hs hId := by
    rcases get?_modify_cases hs with ⟨_, hs⟩ | ⟨rfl, r, hr, rfl⟩
    · exact h.owner_mem q s id hs hId
    · exact hOwner r id hr hId
  center_unique a b r s hr hs hrCenter hsCenter hSame := by
    rcases get?_modify_cases hr with ⟨_, hr⟩ | ⟨rfl, r', hr', rfl⟩
    · rcases get?_modify_cases hs with ⟨_, hs⟩ | ⟨rfl, s', hs', rfl⟩
      · exact h.center_unique a b r s hr hs hrCenter hsCenter hSame
      · exact (hCenter s' a r hs' hsCenter hr hrCenter hSame.symm).symm
    · rcases get?_modify_cases hs with ⟨_, hs⟩ | ⟨rfl, _⟩
      · exact hCenter r' b s hr' hrCenter hs hsCenter hSame
      · rfl

/-- A change at one point that gives the region to nobody new and makes it no city center. -/
theorem modify_of_keeps (h : t.Sound capacity ids) (hLocation : ∀ r, (f r).location = r.location)
    (hSound : ∀ r, t.get? p = some r → (f r).Sound capacity)
    (hOwner : ∀ r id, (f r).owner = some id → r.owner = some id)
    (hCenter : ∀ r, (f r).cityCenter = true → r.cityCenter = true) :
    (t.modify p f).Sound capacity ids := by
  apply h.modify hLocation hSound
  · intro r id hr hId
    exact h.owner_mem p r id hr (hOwner r id hId)
  · intro r q s hr hrCenter hs hsCenter hSame
    obtain ⟨owner, hId⟩ := Option.ne_none_iff_exists'.mp
      ((h.region q s hs).owned_of_cityCenter hsCenter)
    have hrOwner := hOwner r owner (hSame.trans hId)
    exact h.center_unique p q r s hr hs (hCenter r hrCenter) hsCenter (hrOwner.trans hId.symm)

theorem withdraw (h : t.Sound capacity ids) (hAmount : amount ≤ 0) :
    (t.modify p (·.deposited amount)).Sound capacity ids :=
  h.modify_of_keeps (fun _ => Region.location_deposited)
    (fun r hr => (h.region p r hr).withdraw hAmount)
    (fun _ _ => Region.owner_of_owner_deposited)
    (fun _ => Region.cityCenter_of_cityCenter_deposited)

/-- A change of all regions that gives none to anybody new and makes none a city center. -/
theorem mapRegions (h : t.Sound capacity ids) (hLocation : ∀ r, (f r).location = r.location)
    (hSound : ∀ r, r.Sound capacity → (f r).Sound capacity)
    (hOwner : ∀ r id, (f r).owner = some id → r.owner = some id)
    (hCenter : ∀ r, (f r).cityCenter = true → r.cityCenter = true) :
    (t.mapRegions f).Sound capacity ids where
  regular := h.regular.mapRegions hLocation
  region p s hs := by
    rw [get?_mapRegions] at hs
    obtain ⟨r, hr, rfl⟩ := Option.map_eq_some_iff.mp hs
    exact hSound r (h.region p r hr)
  owner_mem p s id hs hId := by
    rw [get?_mapRegions] at hs
    obtain ⟨r, hr, rfl⟩ := Option.map_eq_some_iff.mp hs
    exact h.owner_mem p r id hr (hOwner r id hId)
  center_unique a b r s hr hs hrCenter hsCenter hSame := by
    rw [get?_mapRegions] at hr hs
    obtain ⟨r', hr', rfl⟩ := Option.map_eq_some_iff.mp hr
    obtain ⟨s', hs', rfl⟩ := Option.map_eq_some_iff.mp hs
    obtain ⟨owner, hId⟩ := Option.ne_none_iff_exists'.mp
      ((hSound r' (h.region a r' hr')).owned_of_cityCenter hrCenter)
    have hrOwner := hOwner r' owner hId
    have hsOwner := hOwner s' owner (hSame.symm.trans hId)
    exact h.center_unique a b r' s' hr' hs' (hCenter r' hrCenter) (hCenter s' hsCenter)
      (hrOwner.trans hsOwner.symm)

end Territory.Sound

end CityCrew
