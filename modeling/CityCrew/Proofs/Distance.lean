import CityCrew.Proofs.Pathfinding

/-!
# Distances on a board

What the search finds between two points of a board is their hexagonal distance, which knows nothing
of the board. So the distance is a metric, and one and the same on all boards.
-/

namespace CityCrew

namespace Territory

variable {t : Territory} {cost estimate : Point → Point → Int} {p q : Point} {n : Nat}

theorem shortest?_eq_some_iff (h : t.Admissible cost estimate) :
    t.shortest? cost estimate p q = some n ↔
      t.Contains p ∧ t.Contains q ∧ p.hexDistance q = n := by
  constructor
  · intro hSome
    by_cases hBoth : t.Contains p ∧ t.Contains q
    · obtain ⟨m, hFound, hLeast⟩ := exists_shortest? h hBoth.1 hBoth.2
      obtain rfl := Option.some.inj (hFound.symm.trans hSome)
      exact ⟨hBoth.1, hBoth.2, (isLeast_walk hBoth.1 hBoth.2).unique hLeast⟩
    · rw [shortest?_eq_none_of_not hBoth] at hSome
      cases hSome
  · rintro ⟨hp, hq, rfl⟩
    obtain ⟨m, hFound, hLeast⟩ := exists_shortest? h hp hq
    rw [hFound, hLeast.unique (isLeast_walk hp hq)]

theorem distance?_eq_some_iff :
    t.distance? p q = some n ↔ t.Contains p ∧ t.Contains q ∧ p.hexDistance q = n :=
  shortest?_eq_some_iff t.admissible_lengths

/-- The distance that a search finds is the hexagonal one. So it is symmetric and satisfies the
triangle inequality, and it is the same on every board that both points are on. -/
theorem distance_knows_no_board (h : t.Admissible cost estimate) :
    (∀ p q, t.Contains p → t.Contains q →
      t.shortest? cost estimate p q = some (p.hexDistance q)) ∧
    (∀ p q, t.shortest? cost estimate p q = t.shortest? cost estimate q p) ∧
    (∀ p q r l m n, t.shortest? cost estimate p q = some l →
      t.shortest? cost estimate q r = some m → t.shortest? cost estimate p r = some n →
      n ≤ l + m) ∧
    ∀ u : Territory, u.Admissible cost estimate → ∀ p q, t.Contains p → t.Contains q →
      u.Contains p → u.Contains q →
      u.shortest? cost estimate p q = t.shortest? cost estimate p q := by
  have hMetric : ∀ p q, t.Contains p → t.Contains q →
      t.shortest? cost estimate p q = some (p.hexDistance q) :=
    fun p q hp hq => (shortest?_eq_some_iff h).mpr ⟨hp, hq, rfl⟩
  refine ⟨hMetric, ?_, ?_, ?_⟩
  · intro p q
    apply Option.ext
    intro n
    rw [shortest?_eq_some_iff h, shortest?_eq_some_iff h, Point.hexDistance_comm q p]
    exact and_left_comm
  · intro p q r l m n hl hm hn
    obtain ⟨-, -, rfl⟩ := (shortest?_eq_some_iff h).mp hl
    obtain ⟨-, -, rfl⟩ := (shortest?_eq_some_iff h).mp hm
    obtain ⟨-, -, rfl⟩ := (shortest?_eq_some_iff h).mp hn
    exact Point.hexDistance_triangle p q r
  · intro u hu p q hp hq hp' hq'
    rw [hMetric p q hp hq]
    exact (shortest?_eq_some_iff hu).mpr ⟨hp', hq', rfl⟩

/-- Three columns on along an edge are three steps on a board of one row, and on a greater one. -/
theorem distance_along_edge : ∃ t u, vacant? 1 4 100 = some t ∧ vacant? 20 15 100 = some u ∧
    t.Admissible Point.stepCost Point.estimate ∧ u.Admissible Point.stepCost Point.estimate ∧
    t.shortest? Point.stepCost Point.estimate ⟨0, 0⟩ ⟨3, 0⟩ = some 3 ∧
    t.shortest? Point.stepCost Point.estimate ⟨3, 0⟩ ⟨0, 0⟩ = some 3 ∧
    u.shortest? Point.stepCost Point.estimate ⟨0, 0⟩ ⟨3, 0⟩ = some 3 := by
  obtain ⟨t, ht⟩ : ∃ t, vacant? 1 4 100 = some t := ⟨_, rfl⟩
  obtain ⟨u, hu⟩ : ∃ u, vacant? 20 15 100 = some u := ⟨_, rfl⟩
  have hOn : t.Contains ⟨0, 0⟩ ∧ t.Contains ⟨3, 0⟩ := by
    cases ht
    decide
  have hOn' : u.Contains ⟨0, 0⟩ ∧ u.Contains ⟨3, 0⟩ := by
    cases hu
    decide
  obtain ⟨hMetric, hSymmetric, -, hBoards⟩ := distance_knows_no_board t.admissible_lengths
  have hThree : t.shortest? Point.stepCost Point.estimate ⟨0, 0⟩ ⟨3, 0⟩ = some 3 :=
    hMetric _ _ hOn.1 hOn.2
  refine ⟨t, u, ht, hu, t.admissible_lengths, u.admissible_lengths, hThree, ?_, ?_⟩
  · rw [hSymmetric, hThree]
  · rw [hBoards u u.admissible_lengths _ _ hOn.1 hOn.2 hOn'.1 hOn'.2, hThree]

end Territory

end CityCrew
