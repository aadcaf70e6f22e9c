import Mathlib.Data.Nat.Digits.Lemmas
import CityCrew.Proofs.Board
import CityCrew.Proofs.Lines

/-!
# Lines of sight

The crew asks the board for what lies in one direction, or in all of them at once. Both answers are
read off the same lines: a line of sight ends at the first opponent's region, and without one where
it leaves the board.
-/

namespace CityCrew

theorem Direction.index_lt (d : Direction) : d.index < 6 := by
  cases d <;> decide

namespace Game

variable {g : Game} {p q : Point} {d : Direction} {r s : Region} {k m n ring : Nat}

/-- On its way from `p` in direction `d` a line comes to `r` after `k` steps, and before that only
to regions that are no opponent's. -/
structure Sees (g : Game) (p : Point) (d : Direction) (k : Nat) (r : Region) : Prop where
  pos : 0 < k
  get?_eq : g.territory.get? (p.along d k) = some r
  opposed : r.isOpposedTo g.actor.id = true
  clear : ∀ j, 0 < j → j < k → ∃ s, g.territory.get? (p.along d j) = some s ∧
    s.isOpposedTo g.actor.id = false

theorem isOpposed_eq_true_iff :
    g.isOpposed p = true ↔ ∃ r, g.territory.get? p = some r ∧ r.isOpposedTo g.actor.id = true := by
  rw [isOpposed, Option.any_eq_true]

namespace Sees

theorem contains (h : g.Sees p d k r) : g.territory.Contains (p.along d k) :=
  Territory.contains_of_get? h.get?_eq

theorem exists_first (h : g.Sees p d k r) : ∃ s, g.territory.get? (p.step d) = some s := by
  have hPos := h.pos
  rcases Nat.lt_or_eq_of_le hPos with hLater | rfl
  · obtain ⟨s, hs, -⟩ := h.clear 1 Nat.one_pos hLater
    exact ⟨s, hs⟩
  · exact ⟨r, h.get?_eq⟩

end Sees

theorem sees_of_opposed (hs : g.territory.get? (p.step d) = some s)
    (hOpposed : s.isOpposedTo g.actor.id = true) : g.Sees p d k r ↔ k = 1 ∧ r = s := by
  constructor
  · intro h
    have hPos := h.pos
    rcases Nat.lt_or_eq_of_le hPos with hLater | rfl
    · obtain ⟨s', hs', hClear⟩ := h.clear 1 Nat.one_pos hLater
      obtain rfl := Option.some.inj (hs.symm.trans hs')
      rw [hOpposed] at hClear
      cases hClear
    · exact ⟨rfl, Option.some.inj (h.get?_eq.symm.trans hs)⟩
  · rintro ⟨rfl, rfl⟩
    exact ⟨Nat.one_pos, hs, hOpposed, fun j hj hLt => by omega⟩

theorem sees_succ_iff (hs : g.territory.get? (p.step d) = some s)
    (hClear : s.isOpposedTo g.actor.id = false) :
    g.Sees p d (k + 1) r ↔ g.Sees (p.step d) d k r := by
  constructor
  · intro h
    have hPos : 0 < k := by
      rcases Nat.eq_zero_or_pos k with rfl | hPos
      · obtain rfl := Option.some.inj (h.get?_eq.symm.trans hs)
        rw [h.opposed] at hClear
        cases hClear
      · exact hPos
    refine ⟨hPos, h.get?_eq, h.opposed, fun j _ hj => ?_⟩
    exact h.clear (j + 1) (Nat.succ_pos j) (Nat.succ_lt_succ hj)
  · intro h
    refine ⟨Nat.succ_pos k, h.get?_eq, h.opposed, ?_⟩
    rintro (_ | _ | j) hPos hj
    · cases hPos
    · exact ⟨s, hs, hClear⟩
    · exact h.clear (j + 1) (Nat.succ_pos j) (Nat.lt_of_succ_lt_succ hj)

theorem sightFrom_eq_some_iff {distance : Nat} : g.sightFrom d distance n p = some (m, r) ↔
    ∃ k ≤ n, m = distance + k ∧ g.Sees p d k r := by
  induction n generalizing distance p with
  | zero =>
    constructor
    · simp [sightFrom]
    · rintro ⟨k, hk, -, hSees⟩
      have hPos := hSees.pos
      omega
  | succ n ih =>
    rw [sightFrom]
    split
    next hNone =>
      constructor
      · simp
      · rintro ⟨k, -, -, hSees⟩
        obtain ⟨s, hs⟩ := hSees.exists_first
        rw [hNone] at hs
        cases hs
    next s hs =>
      split
      next hOpposed =>
        simp only [sees_of_opposed hs hOpposed, Option.some.injEq, Prod.mk.injEq]
        constructor
        · rintro ⟨rfl, rfl⟩
          exact ⟨1, by omega, rfl, rfl, rfl⟩
        · rintro ⟨_, -, rfl, rfl, rfl⟩
          exact ⟨rfl, rfl⟩
      next hOpposed =>
        have hClear := Bool.eq_false_iff.mpr hOpposed
        rw [ih]
        constructor
        · rintro ⟨k, hk, rfl, hSees⟩
          exact ⟨k + 1, by omega, by omega, (sees_succ_iff hs hClear).mpr hSees⟩
        · rintro ⟨_ | k, hk, rfl, hSees⟩
          · cases hSees.pos
          · exact ⟨k, by omega, by omega, (sees_succ_iff hs hClear).mp hSees⟩

/-- What the crew can count on when it looks around: it is on a board whose regions stand where they
belong and hold amounts of money. -/
structure OnDuty (g : Game) : Prop where
  regular : g.territory.Regular
  crew_mem : g.territory.Contains g.crew
  deposit_mem : ∀ r ∈ g.territory.regions, 0 ≤ r.deposit ∧ r.deposit ≤ maxAmount

namespace OnDuty

theorem lt_span (h : g.OnDuty) (hSees : g.Sees g.crew d k r) : k < g.territory.span :=
  Territory.lt_span_of_contains h.crew_mem hSees.contains

/-- Where a line meets an opponent at all, it sees one. -/
theorem exists_sees (h : g.OnDuty) (hPos : 0 < n)
    (hOpposed : g.isOpposed (g.crew.along d n) = true) :
    ∃ k ≤ n, ∃ r, g.Sees g.crew d k r := by
  induction n using Nat.strong_induction_on with
  | _ n ih =>
    by_cases hEarlier : ∃ j, 0 < j ∧ j < n ∧ g.isOpposed (g.crew.along d j) = true
    · obtain ⟨j, hj, hLt, hOpposed⟩ := hEarlier
      obtain ⟨k, hk, hSees⟩ := ih j hLt hj hOpposed
      exact ⟨k, by omega, hSees⟩
    · obtain ⟨r, hr, hOpposed⟩ := isOpposed_eq_true_iff.mp hOpposed
      refine ⟨n, le_rfl, r, hPos, hr, hOpposed, fun j hj hLt => ?_⟩
      have hOn := Territory.contains_along_of_le h.crew_mem (Territory.contains_of_get? hr) hLt.le
      obtain ⟨s, hs⟩ := Option.isSome_iff_exists.mp (h.regular.get?_isSome_iff.mpr hOn)
      refine ⟨s, hs, Bool.eq_false_iff.mpr fun hOpposed => hEarlier ⟨j, hj, hLt, ?_⟩⟩
      exact isOpposed_eq_true_iff.mpr ⟨s, hs, hOpposed⟩

end OnDuty

theorem length_toDigits (hn : 0 < n) : (Nat.toDigits 10 n).length = (Nat.digits 10 n).length := by
  induction n using Nat.strong_induction_on with
  | _ n ih =>
    rw [Nat.toDigits_eq_if (by decide), Nat.digits_def' (by decide) hn]
    split
    next hLt => simp [Nat.div_eq_of_lt hLt]
    next hLe => simp [ih (n / 10) (by omega) (by omega)]

/-- The number of decimal digits of one more than an amount, or of the greatest amount. -/
def digitCount (amount : Int) : Nat :=
  (Nat.digits 10 (min (amount + 1) maxAmount).toNat).length

theorem sizeClass_eq {amount : Int} (h : 0 ≤ amount) : sizeClass amount = digitCount amount := by
  rw [sizeClass, digitCount, capped, Int.min_comm, length_toDigits]
  unfold maxAmount
  omega

theorem digitCount_lt (amount : Int) : digitCount amount < 100 := by
  have hLe : (min (amount + 1) maxAmount).toNat < 10 ^ 19 := by
    unfold maxAmount
    omega
  have hLength := (Nat.digits_length_le_iff (b := 10) (by decide) _).mpr hLe
  unfold digitCount
  omega

section

variable (h : g.OnDuty)
include h

theorem OnDuty.nearby_of_sees (hSees : g.Sees g.crew d k r) :
    g.nearby d = 100 * k + digitCount r.deposit := by
  have hSight : g.sightFrom d 0 g.territory.span g.crew = some (k, r) :=
    sightFrom_eq_some_iff.mpr ⟨k, (h.lt_span hSees).le, by omega, hSees⟩
  have hDeposit := h.deposit_mem r (Territory.mem_regions_of_get? hSees.get?_eq)
  rw [nearby, hSight]
  simp only
  rw [sizeClass_eq hDeposit.1]

theorem OnDuty.sightFrom_eq_of_le (hn : g.territory.span ≤ n) :
    g.sightFrom d 0 n g.crew = g.sightFrom d 0 g.territory.span g.crew := by
  apply Option.ext
  rintro ⟨m, r⟩
  rw [sightFrom_eq_some_iff, sightFrom_eq_some_iff]
  constructor
  · rintro ⟨k, -, hm, hSees⟩
    exact ⟨k, (h.lt_span hSees).le, hm, hSees⟩
  · rintro ⟨k, hk, hm, hSees⟩
    exact ⟨k, hk.trans hn, hm, hSees⟩

end

theorem nearby_of_not_sees (h : ∀ k r, ¬ g.Sees g.crew d k r) : g.nearby d = 0 := by
  have hSight : g.sightFrom d 0 g.territory.span g.crew = none := by
    apply Option.eq_none_iff_forall_ne_some.mpr
    rintro ⟨m, r⟩ hSome
    obtain ⟨k, -, -, hSees⟩ := sightFrom_eq_some_iff.mp hSome
    exact h k r hSees
  rw [nearby, hSight]

/-- The lines of sight after `ring` steps: those that are still on the board, in the order of their
directions, when none of them has met an opponent yet. -/
structure Tracks (g : Game) (ring : Nat) (lines : List (Direction × Point)) : Prop where
  mem_iff : ∀ d p, (d, p) ∈ lines ↔ p = g.crew.along d ring ∧ g.territory.Contains p
  sorted : lines.Pairwise fun a b => a.1.index < b.1.index
  unmet : ∀ d k r, g.Sees g.crew d k r → ring < k

/-- The codes of all that can be seen: the distance in tens, and the number of the direction from 1
to 6. -/
def sightCodes (g : Game) : Set Nat :=
  {code | ∃ d k r, g.Sees g.crew d k r ∧ code = 10 * k + d.index + 1}

def LeastOrZero (codes : Set Nat) (n : Nat) : Prop :=
  (codes = ∅ → n = 0) ∧ (codes.Nonempty → IsLeast codes n)

theorem LeastOrZero.unique {codes : Set Nat} (hm : LeastOrZero codes m) (hn : LeastOrZero codes n) :
    m = n := by
  rcases codes.eq_empty_or_nonempty with hNone | hSome
  · rw [hm.1 hNone, hn.1 hNone]
  · exact (hm.2 hSome).unique (hn.2 hSome)

theorem leastOrZero_of_isLeast {codes : Set Nat} (h : IsLeast codes n) : LeastOrZero codes n :=
  ⟨fun hNone => absurd h.nonempty (Set.not_nonempty_iff_eq_empty.mpr hNone), fun _ => h⟩

theorem leastOrZero_zero (h : ∀ d k r, ¬ g.Sees g.crew d k r) : LeastOrZero g.sightCodes 0 := by
  refine ⟨fun _ => rfl, ?_⟩
  rintro ⟨_, d, k, r, hSees, -⟩
  exact absurd hSees (h d k r)

namespace Tracks

variable {lines : List (Direction × Point)}

theorem initial (h : g.OnDuty) : g.Tracks 0 (Direction.all.map fun d => (d, g.crew)) where
  mem_iff d p := by
    constructor
    · intro hMem
      obtain ⟨d', -, hPair⟩ := List.mem_map.mp hMem
      obtain ⟨rfl, rfl⟩ := Prod.mk.inj hPair
      exact ⟨rfl, h.crew_mem⟩
    · rintro ⟨rfl, -⟩
      exact List.mem_map.mpr ⟨d, d.mem_all, rfl⟩
  sorted := by
    have hSorted : Direction.all.Pairwise fun d e => d.index < e.index := by decide
    exact List.pairwise_map.mpr hSorted
  unmet d k r hSees := hSees.pos

def moved (g : Game) (lines : List (Direction × Point)) : List (Direction × Point) :=
  (lines.map fun (d, p) => (d, p.step d)).filter fun (_, p) => g.territory.Contains p

theorem mem_moved_iff (hTracks : g.Tracks ring lines) (h : g.OnDuty) :
    (d, p) ∈ moved g lines ↔ p = g.crew.along d (ring + 1) ∧ g.territory.Contains p := by
  simp only [moved, List.mem_filter, List.mem_map, decide_eq_true_eq, Prod.exists, Prod.mk.injEq]
  constructor
  · rintro ⟨⟨d', q, hMem, rfl, rfl⟩, hOn⟩
    rw [Point.along_succ, ← ((hTracks.mem_iff _ _).mp hMem).1]
    exact ⟨rfl, hOn⟩
  · rintro ⟨rfl, hOn⟩
    have hBefore := Territory.contains_along_of_le h.crew_mem hOn (Nat.le_succ ring)
    exact ⟨⟨d, _, (hTracks.mem_iff _ _).mpr ⟨rfl, hBefore⟩, rfl, Point.along_succ.symm⟩, hOn⟩

theorem sorted_moved (hTracks : g.Tracks ring lines) :
    (moved g lines).Pairwise fun a b => a.1.index < b.1.index := by
  have hMapped : (lines.map fun (d, p) => (d, p.step d)).Pairwise
      fun a b => a.1.index < b.1.index := List.pairwise_map.mpr hTracks.sorted
  exact hMapped.filter _

theorem sees_of_mem_moved (hTracks : g.Tracks ring lines) (h : g.OnDuty)
    (hMem : (d, p) ∈ moved g lines) (hOpposed : g.isOpposed p = true) :
    ∃ r, g.Sees g.crew d (ring + 1) r := by
  obtain ⟨rfl, -⟩ := (hTracks.mem_moved_iff h).mp hMem
  obtain ⟨k, hk, r, hSees⟩ := h.exists_sees (Nat.succ_pos ring) hOpposed
  have hUnmet := hTracks.unmet d k r hSees
  obtain rfl : k = ring + 1 := by omega
  exact ⟨r, hSees⟩

/-- Who is seen in the next ring stands on one of the lines moved on. -/
theorem mem_moved_of_sees (hTracks : g.Tracks ring lines) (h : g.OnDuty)
    (hSees : g.Sees g.crew d (ring + 1) r) :
    (d, g.crew.along d (ring + 1)) ∈ moved g lines ∧
      g.isOpposed (g.crew.along d (ring + 1)) = true :=
  ⟨(hTracks.mem_moved_iff h).mpr ⟨rfl, hSees.contains⟩,
    isOpposed_eq_true_iff.mpr ⟨r, hSees.get?_eq, hSees.opposed⟩⟩

theorem next (hTracks : g.Tracks ring lines) (h : g.OnDuty)
    (hNone : ∀ a ∈ moved g lines, g.isOpposed a.2 = false) :
    g.Tracks (ring + 1) (moved g lines) where
  mem_iff _ _ := hTracks.mem_moved_iff h
  sorted := hTracks.sorted_moved
  unmet d k r hSees := by
    have hUnmet := hTracks.unmet d k r hSees
    have hne : k ≠ ring + 1 := by
      rintro rfl
      obtain ⟨hMem, hOpposed⟩ := hTracks.mem_moved_of_sees h hSees
      rw [hNone _ hMem] at hOpposed
      cases hOpposed
    omega

/-- The first line in the order of directions that meets an opponent has the least code. -/
theorem isLeast_first (hTracks : g.Tracks ring lines) (h : g.OnDuty)
    (hFirst : (moved g lines).find? (fun a => g.isOpposed a.2) = some (d, p)) :
    IsLeast g.sightCodes (10 * (ring + 1) + d.index + 1) := by
  obtain ⟨hOpposed, front, back, hSplit, hFront⟩ := List.find?_eq_some_iff_append.mp hFirst
  have hMem : (d, p) ∈ moved g lines := List.mem_of_find?_eq_some hFirst
  obtain ⟨r, hSees⟩ := hTracks.sees_of_mem_moved h hMem hOpposed
  refine ⟨⟨d, _, r, hSees, rfl⟩, ?_⟩
  rintro _ ⟨d', k, r', hSees', rfl⟩
  have hUnmet := hTracks.unmet d' k r' hSees'
  have hIndex := d.index_lt
  rcases Nat.lt_or_eq_of_le hUnmet with hFar | rfl
  · omega
  · obtain ⟨hMem', hOpposed'⟩ := hTracks.mem_moved_of_sees h hSees'
    have hSorted := hTracks.sorted_moved
    rw [hSplit] at hMem' hSorted
    rcases List.mem_append.mp hMem' with hMem' | hMem'
    · have hNot := hFront _ hMem'
      simp [hOpposed'] at hNot
    · rcases List.mem_cons.mp hMem' with hSame | hMem'
      · obtain ⟨rfl, -⟩ := Prod.mk.inj hSame
        exact le_rfl
      · have hLater := List.rel_of_pairwise_cons (List.pairwise_append.mp hSorted).2.1 hMem'
        dsimp only at hLater
        omega

/-- The sweep finds the least code, or comes to an end without one. -/
theorem sweep (hTracks : g.Tracks ring lines) (h : g.OnDuty) (hFuel : g.territory.span ≤ ring + n) :
    LeastOrZero g.sightCodes (g.sweep ring n lines) := by
  induction n generalizing ring lines with
  | zero =>
    refine leastOrZero_zero fun d k r hSees => ?_
    have hUnmet := hTracks.unmet d k r hSees
    have hSpan := h.lt_span hSees
    omega
  | succ n ih =>
    have hUnfold : g.sweep ring (n + 1) lines =
        match (moved g lines).find? fun a => g.isOpposed a.2 with
        | some (d, _) => 10 * (ring + 1) + d.index + 1
        | none => if (moved g lines).isEmpty then 0 else g.sweep (ring + 1) n (moved g lines) := rfl
    rw [hUnfold]
    split
    next hFirst => exact leastOrZero_of_isLeast (hTracks.isLeast_first h hFirst)
    next hNone =>
      have hNone : ∀ a ∈ moved g lines, g.isOpposed a.2 = false := by
        simpa using List.find?_eq_none.mp hNone
      have hNext := hTracks.next h hNone
      split
      next hEmpty =>
        refine leastOrZero_zero fun d k r hSees => ?_
        have hUnmet := hNext.unmet d k r hSees
        have hOn := Territory.contains_along_of_le h.crew_mem hSees.contains hUnmet.le
        have hMem := (hNext.mem_iff d _).mpr ⟨rfl, hOn⟩
        rw [List.isEmpty_iff.mp hEmpty] at hMem
        cases hMem
      next => exact ih hNext (by omega)

end Tracks

section

variable (h : g.OnDuty)
include h

theorem OnDuty.sweep (hn : g.territory.span ≤ n) :
    LeastOrZero g.sightCodes (g.sweep 0 n (Direction.all.map fun d => (d, g.crew))) :=
  (Tracks.initial h).sweep h (by omega)

theorem OnDuty.opponent : LeastOrZero g.sightCodes g.opponent :=
  h.sweep le_rfl

theorem OnDuty.exists_sees_iff : (∃ r, g.Sees g.crew d k r) ↔
    IsLeast {j | 0 < j ∧ g.isOpposed (g.crew.along d j) = true} k := by
  constructor
  · rintro ⟨r, hSees⟩
    refine ⟨⟨hSees.pos, isOpposed_eq_true_iff.mpr ⟨r, hSees.get?_eq, hSees.opposed⟩⟩, ?_⟩
    rintro j ⟨hj, hOpposed⟩
    by_contra hLt
    obtain ⟨s, hs, hClear⟩ := hSees.clear j hj (by omega)
    obtain ⟨s', hs', hOpposed⟩ := isOpposed_eq_true_iff.mp hOpposed
    obtain rfl := Option.some.inj (hs.symm.trans hs')
    rw [hOpposed] at hClear
    cases hClear
  · rintro ⟨⟨hPos, hOpposed⟩, hLeast⟩
    obtain ⟨j, hj, r, hSees⟩ := h.exists_sees hPos hOpposed
    have hLe : k ≤ j :=
      hLeast ⟨hSees.pos, isOpposed_eq_true_iff.mpr ⟨r, hSees.get?_eq, hSees.opposed⟩⟩
    obtain rfl : j = k := by omega
    exact ⟨r, hSees⟩

/-- The answer about one direction is 0 only if nobody is seen there, and otherwise has the distance
in its hundreds. -/
theorem OnDuty.sees_iff_nearby :
    (∃ r, g.Sees g.crew d k r) ↔ g.nearby d ≠ 0 ∧ g.nearby d / 100 = k := by
  constructor
  · rintro ⟨r, hSees⟩
    have hPos := hSees.pos
    have hCount := digitCount_lt r.deposit
    rw [h.nearby_of_sees hSees]
    omega
  · rintro ⟨hne, rfl⟩
    by_cases hSees : ∃ k r, g.Sees g.crew d k r
    · obtain ⟨k, r, hSees⟩ := hSees
      have hCount := digitCount_lt r.deposit
      have hNearby := h.nearby_of_sees hSees
      have hk : g.nearby d / 100 = k := by omega
      exact ⟨r, hk ▸ hSees⟩
    · exact absurd (nearby_of_not_sees fun k r hk => hSees ⟨k, r, hk⟩) hne

theorem OnDuty.opponent_eq_zero_iff : g.opponent = 0 ↔ ∀ d, g.nearby d = 0 := by
  constructor
  · intro hZero d
    apply nearby_of_not_sees
    intro k r hSees
    obtain ⟨⟨d', k', r', -, hCode⟩, -⟩ := h.opponent.2 ⟨_, d, k, r, hSees, rfl⟩
    omega
  · intro hZero
    apply h.opponent.1
    rw [Set.eq_empty_iff_forall_notMem]
    rintro _ ⟨d, k, r, hSees, -⟩
    exact absurd (hZero d) (h.sees_iff_nearby.mp ⟨r, hSees⟩).1

/-- The closest opponent that is told of is a closest one of those in the single directions, and in
the first direction that has one. -/
theorem OnDuty.decode_opponent (hne : g.opponent ≠ 0) :
    IsLeast {k | ∃ d, g.nearby d ≠ 0 ∧ g.nearby d / 100 = k} (g.opponent / 10) ∧
    IsLeast {i | ∃ d, g.nearby d ≠ 0 ∧ g.nearby d / 100 = g.opponent / 10 ∧ d.index = i}
      (g.opponent % 10 - 1) := by
  have hSome : g.sightCodes.Nonempty :=
    Set.nonempty_iff_ne_empty.mpr fun hNone => hne (h.opponent.1 hNone)
  obtain ⟨⟨d, k, r, hSees, hCode⟩, hLeast⟩ := h.opponent.2 hSome
  have hIndex := d.index_lt
  have hRing : g.opponent / 10 = k := by omega
  have hPlace : g.opponent % 10 - 1 = d.index := by omega
  have hFirst := h.sees_iff_nearby.mp ⟨r, hSees⟩
  rw [hRing, hPlace]
  refine ⟨⟨⟨d, hFirst⟩, ?_⟩, ⟨d, hFirst.1, hFirst.2, rfl⟩, ?_⟩
  · rintro k' ⟨d', hNearby⟩
    obtain ⟨r', hSees'⟩ := h.sees_iff_nearby.mpr hNearby
    have hIndex' := d'.index_lt
    have hLe : g.opponent ≤ 10 * k' + d'.index + 1 := hLeast ⟨d', k', r', hSees', rfl⟩
    omega
  · rintro _ ⟨d', hNearby, hSame, rfl⟩
    obtain ⟨r', hSees'⟩ := h.sees_iff_nearby.mpr ⟨hNearby, hSame⟩
    have hLe : g.opponent ≤ 10 * k + d'.index + 1 := hLeast ⟨d', k, r', hSees', rfl⟩
    omega

end

/-- What the crew is told about its surroundings. In each direction the first opponent's region on
the line counts: its distance, in hundreds, and the number of digits of its deposit. The closest
one in all directions is told by its distance, in tens, and its direction, so both answers agree.
Neither search is ended too early: all lines have left the board for good after `span` steps, and
further steps would change no answer. -/
theorem queries_agree (h : g.OnDuty) :
    (∀ d k r, g.Sees g.crew d k r → g.nearby d = 100 * k + digitCount r.deposit) ∧
    (∀ d, (∀ k r, ¬ g.Sees g.crew d k r) → g.nearby d = 0) ∧
    (∀ d k, (∃ r, g.Sees g.crew d k r) ↔
      IsLeast {j | 0 < j ∧ g.isOpposed (g.crew.along d j) = true} k) ∧
    LeastOrZero g.sightCodes g.opponent ∧
    (g.opponent = 0 ↔ ∀ d, g.nearby d = 0) ∧
    (g.opponent ≠ 0 →
      IsLeast {k | ∃ d, g.nearby d ≠ 0 ∧ g.nearby d / 100 = k} (g.opponent / 10) ∧
      IsLeast {i | ∃ d, g.nearby d ≠ 0 ∧ g.nearby d / 100 = g.opponent / 10 ∧ d.index = i}
        (g.opponent % 10 - 1)) ∧
    ∀ n ≥ g.territory.span,
      g.sweep 0 n (Direction.all.map fun d => (d, g.crew)) = g.opponent ∧
      ∀ d, ¬ g.territory.Contains (g.crew.along d n) ∧
        g.sightFrom d 0 n g.crew = g.sightFrom d 0 g.territory.span g.crew := by
  refine ⟨fun d k r => h.nearby_of_sees, fun d => nearby_of_not_sees, fun d k => h.exists_sees_iff,
    h.opponent, h.opponent_eq_zero_iff, h.decode_opponent, ?_⟩
  intro n hn
  refine ⟨(h.sweep hn).unique h.opponent, fun d => ⟨fun hOn => ?_, h.sightFrom_eq_of_le hn⟩⟩
  have hSpan := Territory.lt_span_of_contains h.crew_mem hOn
  omega

def lookoutBoard : Territory where
  rows := 4
  cols := 4
  regions := Array.ofFn fun i : Fin 16 =>
    let vacant := Region.vacant (Territory.pointAt 4 i) 1000
    if i.val = 11 then { vacant with deposit := 99, owner := some 2, cityCenter := true }
    else if i.val = 13 then { vacant with deposit := 5, owner := some 2 }
    else vacant

def lookout : Game where
  settings := {}
  territory := lookoutBoard
  players := [.create 1 "a" 10, .create 2 "b" 10]
  current := 0
  crew := ⟨1, 1⟩
  turn := 1
  winner := none
  ended := false
  random := .ofSeed 7
  current_lt := by decide

theorem onDuty_lookout : lookout.OnDuty where
  regular := by
    constructor
    · decide
    · intro i hi
      simp only [lookout, lookoutBoard, Array.getElem_ofFn]
      split
      · rfl
      · split <;> rfl
  crew_mem := by decide
  deposit_mem := by decide

/-- Two steps down to the right, and two steps down, there is somebody. The lower direction
counts. -/
theorem lookout_sees_two : lookout.OnDuty ∧ lookout.nearby .downRight = 203 ∧
    lookout.nearby .down = 201 ∧ lookout.opponent = 23 := by
  have hSees : lookout.Sees lookout.crew .downRight 2
      ⟨⟨3, 2⟩, 99, 1000, some 2, true⟩ := by
    refine ⟨by decide, by decide, by decide, ?_⟩
    intro j hj hLt
    obtain rfl : j = 1 := by omega
    exact ⟨_, rfl, by decide⟩
  have hDigits : digitCount 99 = 3 := by
    change (Nat.digits 10 100).length = 3
    norm_num
  obtain ⟨hNearby, -⟩ := queries_agree onDuty_lookout
  refine ⟨onDuty_lookout, ?_, by decide, by decide⟩
  rw [hNearby _ _ _ hSees, hDigits]

end Game

end CityCrew
