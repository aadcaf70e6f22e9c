import Mathlib.Algebra.BigOperators.Group.Finset.Basic
import Mathlib.Algebra.Order.BigOperators.Group.Finset
import CityCrew.Board.Pathfinding
import CityCrew.Proofs.Board
import CityCrew.Proofs.Length

/-!
# The search finds a shortest walk

An entry of the queue may be out of date, and a point may be noted anew when a cheaper walk to it
turns up. What the search has noted is sound all the same: every cost stands for a walk, and every
origin lies on the way back. What it has still to do is covered: some point of each walk to the goal
waits in the queue at no more than it should cost. So the first entry of the goal is a cheapest one.
Each round takes an entry off the queue or lowers a cost, and no cost is below zero, so the rounds
come to an end.
-/

namespace CityCrew

namespace Search

variable {s : Search} {state state' : State} {e : Entry} {p q : Point} {c : Int}

/-- Everything that has been noted stands for a walk. Costs shrink on the way back by the cost of a
step at least, although the walk behind an origin may have become cheaper since it was noted. -/
structure Sound (s : Search) (state : State) : Prop where
  cost_start : state.costs[s.start]? = some 0
  found : ∀ (p : Point) (c : Int), state.costs[p]? = some c →
    ∃ n : Nat, c = 10 * n ∧ s.territory.Walk n s.start p
  origin : ∀ (p : Point) (c : Int), p ≠ s.start → state.costs[p]? = some c →
    ∃ (q : Point) (d : Int), state.origins[p]? = some q ∧ state.costs[q]? = some d ∧
      d + 10 ≤ c ∧ p ∈ s.territory.neighbors q
  queued : ∀ e ∈ state.queue.entries, e = s.entry e.point e.cost ∧
    ∃ c, state.costs[e.point]? = some c ∧ c ≤ e.cost

def Extended (s : Search) (state : State) (p : Point) (c : Int) : Prop :=
  ∀ q ∈ s.territory.neighbors p, ∃ d, state.costs[q]? = some d ∧ d ≤ c + 10

/-- The cheapest walk to a point waits in the queue, or it has been extended. -/
def Covered (s : Search) (state : State) : Prop :=
  ∀ (p : Point) (c : Int), state.costs[p]? = some c →
    s.entry p c ∈ state.queue.entries ∨ p ≠ s.goal ∧ s.Extended state p c

/-- The cost of the cheapest walk to `p` in steps, or `limit` if none has been found. -/
def potential (limit : Nat) (state : State) (p : Point) : Nat :=
  match state.costs[p]? with
  | some c => (c / 10).toNat
  | none => limit

def work (s : Search) (limit : Nat) (state : State) : Nat :=
  state.queue.entries.length + ∑ i ∈ Finset.range (s.territory.rows * s.territory.cols),
    potential limit state (Territory.pointAt s.territory.cols i)

/-- Between the two states walks have been put into the queue, and each of them was cheaper than
what had been found before. So there is not more to do. -/
structure Improves (s : Search) (limit : Nat) (state state' : State) : Prop where
  costs_le : ∀ (p : Point) (c : Int), state.costs[p]? = some c →
    ∃ d, state'.costs[p]? = some d ∧ d ≤ c
  kept : ∀ e ∈ state.queue.entries, e ∈ state'.queue.entries
  changed : ∀ (p : Point) (c : Int), state'.costs[p]? = some c →
    state.costs[p]? = some c ∨ s.entry p c ∈ state'.queue.entries
  work_le : s.work limit state' ≤ s.work limit state

variable {limit : Nat}

theorem Improves.refl (s : Search) (limit : Nat) (state : State) : s.Improves limit state state where
  costs_le _ c h := ⟨c, h, le_rfl⟩
  kept _ h := h
  changed _ _ h := .inl h
  work_le := le_rfl

theorem Improves.trans {state'' : State} (h : s.Improves limit state state')
    (h' : s.Improves limit state' state'') : s.Improves limit state state'' where
  costs_le p c hc := by
    obtain ⟨d, hd, hdc⟩ := h.costs_le p c hc
    obtain ⟨b, hb, hbd⟩ := h'.costs_le p d hd
    exact ⟨b, hb, hbd.trans hdc⟩
  kept e he := h'.kept e (h.kept e he)
  changed p c hc := by
    rcases h'.changed p c hc with hc | hEntry
    · exact (h.changed p c hc).imp_right (h'.kept _)
    · exact .inr hEntry
  work_le := h'.work_le.trans h.work_le

theorem Extended.improves (h : s.Extended state p c) (hImproves : s.Improves limit state state') :
    s.Extended state' p c := by
  intro q hq
  obtain ⟨d, hd, hdc⟩ := h q hq
  obtain ⟨b, hb, hbd⟩ := hImproves.costs_le q d hd
  exact ⟨b, hb, hbd.trans hdc⟩

theorem Sound.exists_stepsBack (h : s.Sound state) (hCost : state.costs[p]? = some c) :
    ∃ n : Nat, s.stepsBack state p = some n ∧ s.territory.Walk n s.start p ∧ 10 * n ≤ c := by
  obtain ⟨m, rfl, -⟩ := h.found p c hCost
  induction m using Nat.strong_induction_on generalizing p with
  | h m ih =>
    rw [stepsBack]
    split
    · rename_i hStart
      subst hStart
      exact ⟨0, rfl, .nil, by omega⟩
    · rename_i hStart
      obtain ⟨q, d, hOrigin, hd, hLess, hStep⟩ := h.origin p _ hStart hCost
      obtain ⟨m', rfl, -⟩ := h.found q d hd
      obtain ⟨n, hn, hWalk, hBound⟩ := ih m' (by omega) hd
      rw [hOrigin]
      refine ⟨n + 1, ?_, hWalk.snoc hStep, ?_⟩
      · dsimp only
        rw [hn]
        rfl
      · push_cast
        omega

section Admissible

variable (hAdmissible : s.territory.Admissible s.cost s.estimate)
  (hStart : s.territory.Contains s.start) (hGoal : s.territory.Contains s.goal)

include hAdmissible in
/-- Some walk in the queue promises no more than what a walk to the goal costs that goes on from
where another one has come. -/
theorem Covered.exists_promising (hCovered : s.Covered state) {n : Nat}
    (hWalk : s.territory.Walk n p s.goal) (hp : s.territory.Contains p)
    (hCost : state.costs[p]? = some c) : ∃ e ∈ state.queue.entries, e.bound ≤ c + 10 * n := by
  generalize hEnd : s.goal = goal at hWalk
  induction hWalk generalizing c with
  | nil =>
    rcases hCovered _ _ hCost with hEntry | ⟨hOpen, -⟩
    · have hLess := hAdmissible.estimate_le _ _ 0 hp .nil
      refine ⟨_, hEntry, ?_⟩
      rw [← hEnd] at hLess ⊢
      change c + s.estimate s.goal s.goal ≤ _
      omega
    · exact absurd hEnd.symm hOpen
  | @cons n p q r hStep hRest ih =>
    rcases hCovered _ _ hCost with hEntry | ⟨-, hExtended⟩
    · have hLess := hAdmissible.estimate_le p r _ hp (.cons hStep hRest)
      refine ⟨_, hEntry, ?_⟩
      change c + s.estimate p s.goal ≤ _
      rw [hEnd]
      omega
    · obtain ⟨d, hd, hdc⟩ := hExtended q hStep
      obtain ⟨e, he, hBound⟩ := ih (Territory.mem_neighbors_iff.mp hStep).2 hd hEnd
      refine ⟨e, he, hBound.trans ?_⟩
      push_cast
      omega

include hAdmissible hStart in
/-- The walk that leaves the queue first costs no more than any walk to the goal. -/
theorem Covered.cost_le_of_pop? (hCovered : s.Covered state) (hSound : s.Sound state)
    (hGoal : s.territory.Contains s.goal) {first : Entry} {rest : Queue}
    (hPop : state.queue.pop? = some (first, rest)) {n : Nat}
    (hWalk : s.territory.Walk n s.start s.goal) : first.cost ≤ 10 * n := by
  obtain ⟨hEntries, hFirst⟩ := Queue.entries_of_pop?_eq_some hPop
  obtain ⟨e, he, hBound⟩ := hCovered.exists_promising hAdmissible hWalk hStart hSound.cost_start
  have hLeast : first.bound ≤ e.bound := by
    rcases List.mem_cons.mp (hEntries.mem_iff.mp he) with rfl | he
    · exact le_rfl
    · exact Entry.bound_le_of_not_precedes (hFirst e he)
  obtain ⟨hEntry, d, hd, -⟩ :=
    hSound.queued first (hEntries.mem_iff.mpr List.mem_cons_self)
  obtain ⟨m, -, hReached⟩ := hSound.found _ _ hd
  have hNonneg := hAdmissible.estimate_nonneg first.point s.goal (hReached.contains hStart) hGoal
  have hSum : first.bound = first.cost + s.estimate first.point s.goal :=
    congrArg Entry.bound hEntry
  omega

end Admissible

theorem costs_note (s : Search) (state : State) (next origin : Point) (c : Int) (p : Point) :
    (state.note (s.entry next c) origin).costs[p]? =
      if next = p then some c else state.costs[p]? := by
  simp [State.note, entry, Std.HashMap.getElem?_insert]

theorem origins_note (s : Search) (state : State) (next origin : Point) (c : Int) (p : Point) :
    (state.note (s.entry next c) origin).origins[p]? =
      if next = p then some origin else state.origins[p]? := by
  simp [State.note, entry, Std.HashMap.getElem?_insert]

theorem entries_note (state : State) (e : Entry) (origin : Point) :
    (state.note e origin).queue.entries.Perm (e :: state.queue.entries) :=
  Queue.entries_push _ _

/-- A walk that leads to `next` over `origin` and is cheaper than what has been found. -/
structure Cheaper (s : Search) (state : State) (next origin : Point) (c : Int) : Prop where
  ne_start : next ≠ s.start
  less : ∀ d, state.costs[next]? = some d → c < d
  step : next ∈ s.territory.neighbors origin
  walk : ∃ n : Nat, c = 10 * n ∧ s.territory.Walk n s.start next
  cost_origin : ∃ d, state.costs[origin]? = some d ∧ d + 10 ≤ c

variable {next origin : Point}

theorem Cheaper.costs_le (h : s.Cheaper state next origin c) {d : Int}
    (hp : state.costs[p]? = some d) :
    ∃ b, (state.note (s.entry next c) origin).costs[p]? = some b ∧ b ≤ d := by
  rw [costs_note]
  split
  · rename_i hNext
    subst hNext
    exact ⟨c, rfl, (h.less d hp).le⟩
  · exact ⟨d, hp, le_rfl⟩

theorem Cheaper.sound (h : s.Cheaper state next origin c) (hSound : s.Sound state) :
    s.Sound (state.note (s.entry next c) origin) where
  cost_start := by
    rw [costs_note, if_neg h.ne_start]
    exact hSound.cost_start
  found p d hp := by
    rw [costs_note] at hp
    split at hp
    · rename_i hNext
      subst hNext
      cases hp
      exact h.walk
    · exact hSound.found p d hp
  origin p d hne hp := by
    rw [costs_note] at hp
    rw [origins_note]
    split at hp
    · rename_i hNext
      subst hNext
      cases hp
      obtain ⟨b, hb, hLess⟩ := h.cost_origin
      obtain ⟨a, ha, hab⟩ := h.costs_le hb
      exact ⟨origin, a, if_pos rfl, ha, by omega, h.step⟩
    · rename_i hNext
      obtain ⟨q, b, hOrigin, hb, hLess, hStep⟩ := hSound.origin p d hne hp
      obtain ⟨a, ha, hab⟩ := h.costs_le hb
      exact ⟨q, a, by rwa [if_neg hNext], ha, by omega, hStep⟩
  queued e he := by
    rcases List.mem_cons.mp ((entries_note _ _ _).mem_iff.mp he) with rfl | he
    · exact ⟨rfl, c, by rw [costs_note]; exact if_pos rfl, le_rfl⟩
    · obtain ⟨hEntry, d, hd, hde⟩ := hSound.queued e he
      obtain ⟨b, hb, hbd⟩ := h.costs_le hd
      exact ⟨hEntry, b, hb, hbd.trans hde⟩

theorem potential_note (s : Search) (state : State) (n : Nat) (p : Point) :
    potential limit (state.note (s.entry next (10 * n)) origin) p =
      if next = p then n else potential limit state p := by
  unfold potential
  rw [costs_note]
  by_cases hNext : next = p
  · simp only [if_pos hNext]
    omega
  · simp only [if_neg hNext]

theorem Cheaper.work_le (h : s.Cheaper state next origin c) (hSound : s.Sound state)
    (hLimit : c < 10 * limit) :
    s.work limit (state.note (s.entry next c) origin) ≤ s.work limit state := by
  obtain ⟨n, rfl, -⟩ := h.walk
  obtain ⟨i, hi⟩ : ∃ i, s.territory.index? next = some i :=
    ⟨_, Territory.index?_eq_some_iff.mpr ⟨(Territory.mem_neighbors_iff.mp h.step).2, rfl⟩⟩
  have hLess : n < potential limit state next := by
    unfold potential
    split
    · rename_i d hd
      obtain ⟨m, rfl, -⟩ := hSound.found next d hd
      have := h.less _ hd
      omega
    · omega
  have hSum : ∑ j ∈ Finset.range (s.territory.rows * s.territory.cols),
      potential limit (state.note (s.entry next (10 * n)) origin)
        (Territory.pointAt s.territory.cols j) <
      ∑ j ∈ Finset.range (s.territory.rows * s.territory.cols),
        potential limit state (Territory.pointAt s.territory.cols j) := by
    refine Finset.sum_lt_sum (fun j _ => ?_) ⟨i, ?_, ?_⟩
    · rw [potential_note]
      split
      · rename_i hNext
        exact hNext ▸ hLess.le
      · exact le_rfl
    · exact Finset.mem_range.mpr (Territory.index?_lt hi)
    · rw [Territory.pointAt_of_index? hi, potential_note, if_pos rfl]
      exact hLess
  have hLength := (entries_note state (s.entry next (10 * n)) origin).length_eq
  rw [List.length_cons] at hLength
  unfold work
  omega

theorem Cheaper.improves (h : s.Cheaper state next origin c) (hSound : s.Sound state)
    (hLimit : c < 10 * limit) :
    s.Improves limit state (state.note (s.entry next c) origin) where
  costs_le _ _ := h.costs_le
  kept e he := (entries_note _ _ _).mem_iff.mpr (List.mem_cons_of_mem _ he)
  changed p d hp := by
    rw [costs_note] at hp
    split at hp
    · rename_i hNext
      subst hNext
      cases hp
      exact .inr ((entries_note _ _ _).mem_iff.mpr List.mem_cons_self)
    · exact .inl hp
  work_le := h.work_le hSound hLimit

structure Known (s : Search) (state : State) (e : Entry) : Prop where
  walk : ∃ n : Nat, e.cost = 10 * n ∧ s.territory.Walk n s.start e.point
  cost : ∃ c, state.costs[e.point]? = some c ∧ c ≤ e.cost

theorem Known.improves (h : s.Known state e) (hImproves : s.Improves limit state state') :
    s.Known state' e where
  walk := h.walk
  cost := by
    obtain ⟨c, hc, hce⟩ := h.cost
    obtain ⟨d, hd, hdc⟩ := hImproves.costs_le _ _ hc
    exact ⟨d, hd, hdc.trans hce⟩

section Popped

variable {first : Entry} {rest : Queue} (hPop : state.queue.pop? = some (first, rest))

include hPop

theorem Sound.popped (h : s.Sound state) : s.Sound { state with queue := rest } where
  cost_start := h.cost_start
  found := h.found
  origin := h.origin
  queued e he := h.queued e
    ((Queue.entries_of_pop?_eq_some hPop).1.mem_iff.mpr (List.mem_cons_of_mem _ he))

/-- A walk that has not been extended leaves the queue now, or it stays there. -/
theorem Covered.popped (h : s.Covered state) (hp : state.costs[p]? = some c) :
    p = first.point ∧ c = first.cost ∨ s.entry p c ∈ rest.entries ∨
      p ≠ s.goal ∧ s.Extended { state with queue := rest } p c := by
  rcases h p c hp with hEntry | hExtended
  · rcases List.mem_cons.mp ((Queue.entries_of_pop?_eq_some hPop).1.mem_iff.mp hEntry) with
      hFirst | hRest
    · exact .inl ⟨congrArg Entry.point hFirst, congrArg Entry.cost hFirst⟩
    · exact .inr (.inl hRest)
  · exact .inr (.inr hExtended)

theorem work_popped (s : Search) (limit : Nat) :
    s.work limit { state with queue := rest } < s.work limit state := by
  have hLength := (Queue.entries_of_pop?_eq_some hPop).1.length_eq
  rw [List.length_cons] at hLength
  unfold work
  dsimp only [potential]
  omega

end Popped

section Extend

variable (hAdmissible : s.territory.Admissible s.cost s.estimate)
  (hStart : s.territory.Contains s.start)

include hAdmissible hStart in
theorem Sound.reach (h : s.Sound state) (hKnown : s.Known state e)
    (hStep : next ∈ s.territory.neighbors e.point) (hLimit : e.cost + 10 < 10 * limit) :
    s.Sound (s.reach e state next) ∧ s.Improves limit state (s.reach e state next) ∧
      ∃ d, (s.reach e state next).costs[next]? = some d ∧ d ≤ e.cost + 10 := by
  obtain ⟨n, hCost, hWalk⟩ := hKnown.walk
  have hPrice := hAdmissible.cost_eq _ _ (hWalk.contains hStart) hStep
  unfold Search.reach
  rw [hPrice]
  dsimp only
  split
  · rename_i hNext
    exact ⟨h, .refl s limit state, 0, hNext ▸ h.cost_start, by omega⟩
  · rename_i hNext
    split
    · rename_i hFound
      obtain ⟨d, hd, hLess⟩ := (Option.any_eq_true _ _).mp hFound
      exact ⟨h, .refl s limit state, d, hd, of_decide_eq_true hLess⟩
    · rename_i hFound
      have hCheaper : s.Cheaper state next e.point (e.cost + 10) := {
        ne_start := hNext
        less := fun d hd => by
          simp only [hd, Option.any_some, decide_eq_true_eq] at hFound
          omega
        step := hStep
        walk := ⟨n + 1, by push_cast; omega, hWalk.snoc hStep⟩
        cost_origin := by
          obtain ⟨d, hd, hde⟩ := hKnown.cost
          exact ⟨d, hd, by omega⟩ }
      refine ⟨hCheaper.sound h, hCheaper.improves h hLimit, e.cost + 10, ?_, le_rfl⟩
      rw [costs_note, if_pos rfl]

include hAdmissible hStart in
theorem Sound.foldl_reach {l : List Point} (hl : ∀ q ∈ l, q ∈ s.territory.neighbors e.point)
    (h : s.Sound state) (hKnown : s.Known state e) (hLimit : e.cost + 10 < 10 * limit) :
    s.Sound (l.foldl (s.reach e) state) ∧ s.Improves limit state (l.foldl (s.reach e) state) ∧
      ∀ q ∈ l, ∃ d, (l.foldl (s.reach e) state).costs[q]? = some d ∧ d ≤ e.cost + 10 := by
  induction l generalizing state with
  | nil => exact ⟨h, .refl s limit state, by simp⟩
  | cons next l ih =>
    obtain ⟨hNext, hImproves, d, hd, hCost⟩ :=
      h.reach hAdmissible hStart hKnown (hl next List.mem_cons_self) hLimit
    obtain ⟨hLast, hMore, hAll⟩ := ih (fun q hq => hl q (List.mem_cons_of_mem _ hq)) hNext
      (hKnown.improves hImproves)
    refine ⟨hLast, hImproves.trans hMore, fun q hq => ?_⟩
    rcases List.mem_cons.mp hq with rfl | hq
    · obtain ⟨b, hb, hbd⟩ := hMore.costs_le _ _ hd
      exact ⟨b, hb, hbd.trans hCost⟩
    · exact hAll q hq

include hAdmissible hStart in
theorem Sound.extend (h : s.Sound state) (hCovered : s.Covered state) {first : Entry} {rest : Queue}
    (hPop : state.queue.pop? = some (first, rest)) (hOpen : first.point ≠ s.goal)
    (hLimit : first.cost + 10 < 10 * limit) :
    s.Sound (s.extend first { state with queue := rest }) ∧
      s.Covered (s.extend first { state with queue := rest }) ∧
      s.work limit (s.extend first { state with queue := rest }) < s.work limit state := by
  have hEntries := (Queue.entries_of_pop?_eq_some hPop).1
  have hWork := work_popped hPop s limit
  obtain ⟨-, known, hKnown, hLess⟩ := h.queued first (hEntries.mem_iff.mpr List.mem_cons_self)
  unfold Search.extend
  dsimp only
  rw [hKnown]
  split
  · rename_i hStale
    have hStale : known < first.cost := of_decide_eq_true hStale
    refine ⟨h.popped hPop, fun p c hp => ?_, hWork⟩
    rcases hCovered.popped hPop hp with ⟨rfl, rfl⟩ | hWaiting
    · rw [hKnown] at hp
      cases hp
      omega
    · exact hWaiting
  · rename_i hFresh
    have hFresh : ¬ known < first.cost := fun hStale => hFresh (decide_eq_true hStale)
    obtain rfl : known = first.cost := by omega
    obtain ⟨hSound, hImproves, hAll⟩ := (h.popped hPop).foldl_reach hAdmissible hStart
      (l := s.territory.neighbors first.point) (fun _ hq => hq)
      ⟨h.found _ _ hKnown, _, hKnown, le_rfl⟩ hLimit
    refine ⟨hSound, fun p c hp => ?_, hImproves.work_le.trans_lt hWork⟩
    rcases hImproves.changed p c hp with hp | hEntry
    · rcases hCovered.popped hPop hp with ⟨rfl, rfl⟩ | hEntry | ⟨hNot, hExtended⟩
      · exact .inr ⟨hOpen, hAll⟩
      · exact .inl (hImproves.kept _ hEntry)
      · exact .inr ⟨hNot, hExtended.improves hImproves⟩
    · exact .inl hEntry

end Extend

theorem costs_initial (s : Search) :
    s.initial.costs[p]? = some c ↔ s.start = p ∧ 0 = c := by
  simp [initial, Std.HashMap.getElem?_insert]

theorem mem_entries_initial (s : Search) :
    e ∈ s.initial.queue.entries ↔ e = s.entry s.start 0 := by
  rw [initial, (Queue.entries_push _ _).mem_iff]
  simp [Queue.entries, Queue.empty, Tree.entries]

theorem sound_initial (s : Search) : s.Sound s.initial where
  cost_start := (costs_initial s).mpr ⟨rfl, rfl⟩
  found p c hp := by
    obtain ⟨rfl, rfl⟩ := (costs_initial s).mp hp
    exact ⟨0, rfl, .nil⟩
  origin p c hne hp := absurd ((costs_initial s).mp hp).1.symm hne
  queued e he := by
    obtain rfl := (mem_entries_initial s).mp he
    exact ⟨rfl, 0, (costs_initial s).mpr ⟨rfl, rfl⟩, le_rfl⟩

theorem covered_initial (s : Search) : s.Covered s.initial := by
  intro p c hp
  obtain ⟨rfl, rfl⟩ := (costs_initial s).mp hp
  exact .inl ((mem_entries_initial s).mpr rfl)

theorem Sound.exists_run (hAdmissible : s.territory.Admissible s.cost s.estimate)
    (hStart : s.territory.Contains s.start)
    (hGoal : s.territory.Contains s.goal) (h : s.Sound state) (hCovered : s.Covered state) :
    ∃ n, s.run state = some n ∧ IsLeast {n | s.territory.Walk n s.start s.goal} n := by
  have hWalk := Territory.exists_walk hStart hGoal
  generalize hWork : s.work (s.start.hexDistance s.goal + 2) state = work
  induction work using Nat.strong_induction_on generalizing state with
  | h work ih =>
    rw [run]
    cases hPop : state.queue.pop? with
    | none =>
      obtain ⟨e, he, -⟩ := hCovered.exists_promising hAdmissible hWalk hStart h.cost_start
      rw [Queue.pop?_eq_none_iff.mp hPop] at he
      cases he
    | some popped =>
      obtain ⟨first, rest⟩ := popped
      have hCost := fun n => hCovered.cost_le_of_pop? hAdmissible hStart h hGoal hPop (n := n)
      dsimp only
      split
      · rename_i hFirst
        obtain ⟨-, known, hKnown, hLess⟩ := h.queued first
          ((Queue.entries_of_pop?_eq_some hPop).1.mem_iff.mpr List.mem_cons_self)
        rw [hFirst] at hKnown
        obtain ⟨n, hSteps, hBack, hBound⟩ := h.exists_stepsBack hKnown
        refine ⟨n, hSteps, hBack, fun m hm => ?_⟩
        have := hCost m hm
        omega
      · rename_i hOpen
        have hLimit : first.cost + 10 < 10 * ((s.start.hexDistance s.goal + 2 : Nat) : Int) := by
          have := hCost _ hWalk
          push_cast
          omega
        obtain ⟨hSound, hCovers, hLess⟩ :=
          h.extend hAdmissible hStart hCovered hPop hOpen hLimit
        exact ih _ (hWork ▸ hLess) hSound hCovers rfl

end Search

namespace Territory

variable {t : Territory} {cost estimate : Point → Point → Int} {p q : Point}

theorem shortest?_eq_none_of_not (h : ¬ (t.Contains p ∧ t.Contains q)) :
    t.shortest? cost estimate p q = none :=
  if_neg h

theorem exists_shortest? (h : t.Admissible cost estimate) (hp : t.Contains p) (hq : t.Contains q) :
    ∃ n, t.shortest? cost estimate p q = some n ∧ IsLeast {n | t.Walk n p q} n := by
  unfold shortest?
  rw [if_pos ⟨hp, hq⟩]
  split
  · rename_i hSame
    subst hSame
    exact ⟨0, rfl, .nil, fun _ _ => Nat.zero_le _⟩
  · let search : Search :=
      { territory := t, cost := cost, estimate := estimate, start := p, goal := q }
    exact search.sound_initial.exists_run h hp hq search.covered_initial

/-- The search finds the number of steps of a shortest walk between any two points of the board, and
nothing where one of them is off the board. -/
theorem shortest_walk_is_found (h : t.Admissible cost estimate) (p q : Point) :
    (t.shortest? cost estimate p q = none ↔ ¬ (t.Contains p ∧ t.Contains q)) ∧
    (t.Contains p → t.Contains q → ∃ n,
      t.shortest? cost estimate p q = some n ∧ IsLeast {n | t.Walk n p q} n) := by
  refine ⟨⟨?_, shortest?_eq_none_of_not⟩, exists_shortest? h⟩
  rintro hNone ⟨hp, hq⟩
  obtain ⟨n, hSome, -⟩ := exists_shortest? h hp hq
  rw [hNone] at hSome
  cases hSome

/-- On a board of four rows and four columns three steps lead through the slope between the columns,
and none lead off the board. -/
theorem shortest_walk_of_three_steps : ∃ t, vacant? 4 4 100 = some t ∧
    t.Admissible Point.stepCost Point.estimate ∧
    t.shortest? Point.stepCost Point.estimate ⟨0, 1⟩ ⟨3, 3⟩ = some 3 ∧
    IsLeast {n | t.Walk n ⟨0, 1⟩ ⟨3, 3⟩} 3 ∧
    t.shortest? Point.stepCost Point.estimate ⟨0, 0⟩ ⟨4, 0⟩ = none := by
  obtain ⟨t, ht⟩ : ∃ t, vacant? 4 4 100 = some t := ⟨_, rfl⟩
  have hBounds : t.Contains ⟨0, 1⟩ ∧ t.Contains ⟨3, 3⟩ ∧ ¬ t.Contains ⟨4, 0⟩ := by
    cases ht
    decide
  obtain ⟨n, hFound, hLeast⟩ :=
    (shortest_walk_is_found t.admissible_lengths ⟨0, 1⟩ ⟨3, 3⟩).2 hBounds.1 hBounds.2.1
  obtain rfl : n = 3 := hLeast.unique (isLeast_walk hBounds.1 hBounds.2.1)
  have hNone := (shortest_walk_is_found t.admissible_lengths ⟨0, 0⟩ ⟨4, 0⟩).1
  exact ⟨t, ht, t.admissible_lengths, hFound, hLeast, hNone.mpr fun h => hBounds.2.2 h.2⟩

end Territory

end CityCrew
