import CityCrew.Match.Tournament
import CityCrew.Proofs.ExactSums
import CityCrew.Proofs.MatchTurns
import CityCrew.Proofs.Placement

/-!
# Dealing out the matches of a tournament

Every entry of the statistics is a sum with an amount for each match, and so it is for statistics put
together of others. Who plays which match and who puts the statistics together is no more than the
order and the brackets of these sums. They make no difference for the numbers of games, wins, draws
and turns, nor for scores and their squares as long as no sum of them is rounded. No match is lost
either: a setup that succeeds for one seed succeeds for all of them.
-/

namespace CityCrew

namespace Statistics

variable {s u : Statistics} {n : Nat} {r : MatchResult} {A : Type}

structure IsFor (n : Nat) (s : Statistics) : Prop where
  length_wins : s.wins.length = n
  length_scores : s.scores.length = n
  length_squares : s.squares.length = n

theorem isFor_empty (n : Nat) : (empty n).IsFor n :=
  ⟨List.length_replicate, List.length_replicate, List.length_replicate⟩

theorem IsFor.merge (hs : s.IsFor n) (hu : u.IsFor n) : (s.merge u).IsFor n where
  length_wins := by simp [Statistics.merge, hs.length_wins, hu.length_wins]
  length_scores := by simp [Statistics.merge, hs.length_scores, hu.length_scores]
  length_squares := by simp [Statistics.merge, hs.length_squares, hu.length_squares]

theorem length_addTo (sums amounts : List Float) : (addTo sums amounts).length = sums.length := by
  simp [addTo]

theorem IsFor.add (h : s.IsFor n) (r : MatchResult) : (s.add r).IsFor n where
  length_wins := by
    simp only [Statistics.add]
    split
    · rw [List.length_modify, h.length_wins]
    · exact h.length_wins
  length_scores := by rw [Statistics.add, length_addTo, h.length_scores]
  length_squares := by rw [Statistics.add, length_addTo, h.length_squares]

def ofResults (n : Nat) (results : List MatchResult) : Statistics :=
  results.foldl add (empty n)

theorem IsFor.foldl_add (h : s.IsFor n) (results : List MatchResult) :
    (results.foldl Statistics.add s).IsFor n := by
  induction results generalizing s with
  | nil => exact h
  | cons r results ih => exact ih (h.add r)

/-- An entry of the statistics for `n` contestants, to which a match adds one amount or none. -/
structure IsEntry [Zero A] [Add A] (n : Nat) (entry : Statistics → A)
    (amount? : MatchResult → Option A) : Prop where
  empty : entry (.empty n) = 0
  add {s : Statistics} (h : s.IsFor n) (r : MatchResult) :
    entry (s.add r) = (amount? r).elim (entry s) (entry s + ·)
  merge {s u : Statistics} (hs : s.IsFor n) (hu : u.IsFor n) :
    entry (s.merge u) = entry s + entry u

theorem getD_zipWith_add [Zero A] [Add A] {xs ys : List A} {i : Nat} (hx : i < xs.length)
    (hy : i < ys.length) :
    (List.zipWith (· + ·) xs ys).getD i 0 = xs.getD i 0 + ys.getD i 0 := by
  simp [List.getD, hx, hy]

theorem isEntry_games : IsEntry n games fun _ => some 1 where
  empty := rfl
  add _ _ := rfl
  merge _ _ := rfl

theorem isEntry_turns : IsEntry n turns fun r => some r.turnsPlayed.toNat where
  empty := rfl
  add _ _ := rfl
  merge _ _ := rfl

theorem isEntry_draws :
    IsEntry n draws fun r => if (winnerPlace? n r).isSome then none else some 1 where
  empty := rfl
  add h r := by
    simp only [Statistics.add, h.length_wins]
    split <;> rfl
  merge _ _ := rfl

theorem isEntry_wins {i : Nat} (hi : i < n) :
    IsEntry n (·.wins.getD i 0) fun r => if winnerPlace? n r = some i then some 1 else none where
  empty := by simp [Statistics.empty, List.getD, hi]
  add {s} h r := by
    have hLess : i < s.wins.length := h.length_wins ▸ hi
    simp only [Statistics.add, h.length_wins]
    cases winnerPlace? n r with
    | none => rfl
    | some j =>
      by_cases hj : j = i <;> simp [List.getD, hLess, hj]
  merge hs hu := getD_zipWith_add (hs.length_wins ▸ hi) (hu.length_wins ▸ hi)

def score? (i : Nat) (r : MatchResult) : Option Float :=
  r.standings[i]?.map fun p => Float.ofInt p.score

theorem getD_addTo {sums : List Float} {i : Nat} (hi : i < sums.length) (amounts : List Float) :
    (addTo sums amounts).getD i 0 = amounts[i]?.elim (sums.getD i 0) (sums.getD i 0 + ·) := by
  simp only [addTo, List.getD, List.getElem?_map, List.getElem?_zipIdx, hi,
    List.getElem?_eq_getElem, Option.map_some, Option.getD_some, Nat.zero_add]
  cases amounts[i]? <;> rfl

theorem isEntry_scores {i : Nat} (hi : i < n) : IsEntry n (·.scores.getD i 0) (score? i) where
  empty := by simp [Statistics.empty, List.getD, hi]
  add {s} h r := by
    rw [Statistics.add, getD_addTo (h.length_scores ▸ hi), List.getElem?_map]
    rfl
  merge hs hu := getD_zipWith_add (hs.length_scores ▸ hi) (hu.length_scores ▸ hi)

theorem isEntry_squares {i : Nat} (hi : i < n) :
    IsEntry n (·.squares.getD i 0) fun r => (score? i r).map fun x => x * x where
  empty := by simp [Statistics.empty, List.getD, hi]
  add {s} h r := by
    rw [Statistics.add, getD_addTo (h.length_squares ▸ hi), List.getElem?_map, List.getElem?_map]
    rfl
  merge hs hu := getD_zipWith_add (hs.length_squares ▸ hi) (hu.length_squares ▸ hi)

theorem IsEntry.isSum_foldl [Zero A] [Add A] {entry : Statistics → A}
    {amount? : MatchResult → Option A} (he : IsEntry n entry amount?) (hs : s.IsFor n)
    {amounts : List A} (hSum : IsSum amounts (entry s)) (results : List MatchResult) :
    IsSum (amounts ++ results.filterMap amount?) (entry (results.foldl Statistics.add s)) := by
  induction results generalizing s amounts with
  | nil => rwa [List.filterMap_nil, List.append_nil]
  | cons r results ih =>
    have hAdd := he.add hs r
    cases hAmount : amount? r with
    | none =>
      rw [List.filterMap_cons_none hAmount]
      rw [hAmount] at hAdd
      exact ih (hs.add r) (hAdd ▸ hSum)
    | some x =>
      rw [List.filterMap_cons_some hAmount, ← List.singleton_append, ← List.append_assoc]
      rw [hAmount] at hAdd
      exact ih (hs.add r) (hAdd ▸ hSum.add (.single x))

theorem IsEntry.isSum_ofResults [Zero A] [Add A] {entry : Statistics → A}
    {amount? : MatchResult → Option A} (he : IsEntry n entry amount?) (results : List MatchResult) :
    IsSum (results.filterMap amount?) (entry (ofResults n results)) := by
  have hEmpty : IsSum [] (entry (.empty n)) := he.empty ▸ .zero
  exact he.isSum_foldl (isFor_empty n) hEmpty results

theorem turns_ofResults (n : Nat) (results : List MatchResult) :
    (ofResults n results).turns = (results.map (·.turnsPlayed.toNat)).sum := by
  rw [(isEntry_turns.isSum_ofResults results).eq_sum, List.filterMap_eq_map']

theorem winnerPlace?_lt {i : Nat} (h : winnerPlace? n r = some i) : i < n := by
  obtain ⟨id, _, hId⟩ := Option.bind_eq_some_iff.mp h
  split at hId
  · rename_i hBounds
    obtain rfl := Option.some.inj hId
    exact Nat.sub_one_lt_of_le hBounds.1 hBounds.2
  · cases hId

def Balanced (s : Statistics) : Prop :=
  s.wins.sum + s.draws = s.games

theorem sum_modify_succ {wins : List Nat} {i : Nat} (h : i < wins.length) :
    (wins.modify i (· + 1)).sum = wins.sum + 1 := by
  induction wins generalizing i with
  | nil => cases h
  | cons w wins ih =>
    cases i with
    | zero =>
      rw [List.modify_zero_cons, List.sum_cons, List.sum_cons]
      omega
    | succ i =>
      rw [List.modify_succ_cons, List.sum_cons, List.sum_cons, ih (Nat.lt_of_succ_lt_succ h)]
      omega

theorem Balanced.add (h : s.Balanced) (r : MatchResult) : (s.add r).Balanced := by
  unfold Balanced at h
  simp only [Balanced, Statistics.add]
  cases hPlace : winnerPlace? s.wins.length r with
  | none =>
    simp only [Option.isSome_none, Bool.false_eq_true, if_false]
    omega
  | some i =>
    simp only [Option.isSome_some, if_true]
    rw [sum_modify_succ (winnerPlace?_lt hPlace)]
    omega

theorem balanced_empty (n : Nat) : (empty n).Balanced := by
  simp [Balanced, empty]

theorem balanced_ofResults (n : Nat) (results : List MatchResult) : (ofResults n results).Balanced :=
  List.foldlRecOn results add (balanced_empty n) fun _ h r _ => h.add r

def Fits (s : Statistics) : Prop :=
  s.games < UInt64.size ∧ s.turns < UInt64.size

theorem Fits.checked? (h : s.Fits) : s.checked? = some s :=
  if_pos h

theorem checked?_of_not_fits (h : ¬s.Fits) : s.checked? = none :=
  if_neg h

theorem fits_empty (n : Nat) : (empty n).Fits :=
  ⟨Nat.two_pow_pos 64, Nat.two_pow_pos 64⟩

theorem Fits.of_add (h : (s.add r).Fits) : s.Fits :=
  ⟨(Nat.le_add_right _ _).trans_lt h.1, (Nat.le_add_right _ _).trans_lt h.2⟩

theorem Fits.of_foldl_add {results : List MatchResult} (h : (results.foldl Statistics.add s).Fits) :
    s.Fits := by
  induction results generalizing s with
  | nil => exact h
  | cons r results ih => exact (ih h).of_add

theorem Fits.of_merge (h : (s.merge u).Fits) : s.Fits ∧ u.Fits :=
  ⟨⟨(Nat.le_add_right _ _).trans_lt h.1, (Nat.le_add_right _ _).trans_lt h.2⟩,
    ⟨(Nat.le_add_left _ _).trans_lt h.1, (Nat.le_add_left _ _).trans_lt h.2⟩⟩

/-- The statistics are for the given results, however they were put together. Sums of scores and of
their squares are those of the results one by one as long as they are exact. -/
structure Counts (n : Nat) (results : List MatchResult) (s : Statistics) : Prop where
  games_eq : s.games = results.length
  sum_wins_add_draws : s.wins.sum + s.draws = s.games
  wins_eq : s.wins = (ofResults n results).wins
  draws_eq : s.draws = (ofResults n results).draws
  turns_eq : s.turns = (ofResults n results).turns
  scores_eq {i : Nat} (h : Decimal.ExactSums (results.filterMap (score? i))) :
    s.scores[i]? = (ofResults n results).scores[i]?
  squares_eq {i : Nat}
    (h : Decimal.ExactSums (results.filterMap fun r => (score? i r).map fun x => x * x)) :
    s.squares[i]? = (ofResults n results).squares[i]?

/-- Statistics without rounded sums are those of the results one by one. -/
theorem Counts.eq_ofResults {results : List MatchResult} (h : s.Counts n results)
    (hScores : ∀ i, Decimal.ExactSums (results.filterMap (score? i)))
    (hSquares : ∀ i, Decimal.ExactSums
      (results.filterMap fun r => (score? i r).map fun x => x * x)) :
    s = ofResults n results := by
  have hGames : (ofResults n results).games = results.length := by
    rw [(isEntry_games.isSum_ofResults results).eq_sum]
    simp
  ext1
  · exact h.games_eq.trans hGames.symm
  · exact h.wins_eq
  · exact h.draws_eq
  · exact List.ext_getElem? fun i => h.scores_eq (hScores i)
  · exact List.ext_getElem? fun i => h.squares_eq (hSquares i)
  · exact h.turns_eq

end Statistics

namespace Tournament

variable {t : Tournament} {seed : UInt64} {A : Type} {n : Nat}

def outcome (t : Tournament) (seed : UInt64) (i : Nat) : Except MatchError MatchResult :=
  playMatch t.contestants t.settings t.maxTurns (seed + UInt64.ofNat i)

def addMatch? (t : Tournament) (seed : UInt64) (s : Statistics) (i : Nat) : Option Statistics :=
  match t.outcome seed i with
  | .ok result => (s.add result).checked?
  | .error .overflow => none
  | .error _ => some s

/-- A way to deal out the matches of a tournament: some are played one after another, and two
statistics are put together. -/
inductive Deal where
  | share (indices : List Nat)
  | merge (left right : Deal)

namespace Deal

def indices : Deal → List Nat
  | share indices => indices
  | merge left right => left.indices ++ right.indices

def statistics (t : Tournament) (seed : UInt64) : Deal → Option Statistics
  | share indices => indices.foldlM (t.addMatch? seed) (.empty t.contestants.length)
  | merge left right => do
    let s ← left.statistics t seed
    let u ← right.statistics t seed
    (s.merge u).checked?

/-- The statistics for the given results, as if there were no greatest word. -/
def total (n : Nat) (result : Nat → MatchResult) : Deal → Statistics
  | share indices => Statistics.ofResults n (indices.map result)
  | merge left right => (left.total n result).merge (right.total n result)

variable {result : Nat → MatchResult}

theorem isFor_total (n : Nat) (result : Nat → MatchResult) (deal : Deal) :
    (deal.total n result).IsFor n := by
  induction deal with
  | share indices => exact (Statistics.isFor_empty n).foldl_add _
  | merge left right ihLeft ihRight => exact ihLeft.merge ihRight

/-- Whatever the deal, an entry is a sum over its matches. -/
theorem isSum_total [Zero A] [Add A] {entry : Statistics → A} {amount? : MatchResult → Option A}
    (he : Statistics.IsEntry n entry amount?) (deal : Deal) :
    IsSum ((deal.indices.map result).filterMap amount?) (entry (deal.total n result)) := by
  induction deal with
  | share indices => exact he.isSum_ofResults _
  | merge left right ihLeft ihRight =>
    rw [indices, List.map_append, List.filterMap_append, total,
      he.merge (left.isFor_total n result) (right.isFor_total n result)]
    exact ihLeft.add ihRight

theorem entry_total_eq [AddCommMonoid A] {entry : Statistics → A}
    {amount? : MatchResult → Option A} (he : Statistics.IsEntry n entry amount?) {deal : Deal}
    {indices : List Nat} (hPerm : deal.indices.Perm indices) :
    entry (deal.total n result) = entry (Statistics.ofResults n (indices.map result)) := by
  rw [(deal.isSum_total he).eq_sum, (he.isSum_ofResults _).eq_sum,
    ((hPerm.map result).filterMap amount?).sum_eq]

theorem float_total_eq {entry : Statistics → Float} {amount? : MatchResult → Option Float}
    (he : Statistics.IsEntry n entry amount?) {deal : Deal} {indices : List Nat}
    (hPerm : deal.indices.Perm indices)
    (hExact : Decimal.ExactSums ((indices.map result).filterMap amount?)) :
    entry (deal.total n result) = entry (Statistics.ofResults n (indices.map result)) :=
  hExact.eq_of_perm ((hPerm.map result).filterMap amount?) (he.isSum_ofResults _)
    (deal.isSum_total he)

theorem balanced_total (n : Nat) (result : Nat → MatchResult) (deal : Deal) :
    (deal.total n result).Balanced := by
  induction deal with
  | share indices => exact Statistics.balanced_ofResults n _
  | merge left right ihLeft ihRight =>
    have hLength : (left.total n result).wins.length = (right.total n result).wins.length := by
      rw [(left.isFor_total n result).length_wins, (right.isFor_total n result).length_wins]
    unfold Statistics.Balanced at ihLeft ihRight
    simp only [Statistics.Balanced, total, Statistics.merge]
    rw [← List.sum_add_sum_eq_sum_zipWith_of_length_eq _ _ hLength]
    omega

theorem getElem?_congr [Zero A] {xs ys : List A} {i : Nat} (hx : xs.length = n)
    (hy : ys.length = n) (h : i < n → xs.getD i 0 = ys.getD i 0) : xs[i]? = ys[i]? := by
  by_cases hi : i < n
  · simpa [List.getD, hx, hy, hi] using h hi
  · rw [List.getElem?_eq_none (by omega), List.getElem?_eq_none (by omega)]

theorem counts_total (n : Nat) (result : Nat → MatchResult) {deal : Deal} {indices : List Nat}
    (hPerm : deal.indices.Perm indices) :
    (deal.total n result).Counts n (indices.map result) := by
  have hDeal := deal.isFor_total n result
  have hResults := (Statistics.isFor_empty n).foldl_add (indices.map result)
  refine ⟨?_, deal.balanced_total n result, ?_, entry_total_eq Statistics.isEntry_draws hPerm,
    entry_total_eq Statistics.isEntry_turns hPerm, fun hExact => ?_, fun hExact => ?_⟩
  · rw [(deal.isSum_total Statistics.isEntry_games).eq_sum]
    simp [hPerm.length_eq]
  · exact List.ext_getElem? fun i => getElem?_congr hDeal.length_wins hResults.length_wins
      fun hi => entry_total_eq (Statistics.isEntry_wins hi) hPerm
  · exact getElem?_congr hDeal.length_scores hResults.length_scores
      fun hi => float_total_eq (Statistics.isEntry_scores hi) hPerm hExact
  · exact getElem?_congr hDeal.length_squares hResults.length_squares
      fun hi => float_total_eq (Statistics.isEntry_squares hi) hPerm hExact

theorem fits_total_iff {deal : Deal} {indices : List Nat} (hPerm : deal.indices.Perm indices)
    (hGames : indices.length < UInt64.size) :
    (deal.total n result).Fits ↔
      ((indices.map result).map (·.turnsPlayed.toNat)).sum < UInt64.size := by
  have hCounts := counts_total n result hPerm
  rw [Statistics.Fits, hCounts.turns_eq, Statistics.turns_ofResults, hCounts.games_eq,
    List.length_map]
  exact and_iff_right hGames

theorem foldlM_addMatch? {indices : List Nat}
    (hOutcome : ∀ i ∈ indices, t.outcome seed i = .ok (result i)) {s : Statistics} (hs : s.Fits) :
    indices.foldlM (t.addMatch? seed) s =
      ((indices.map result).foldl Statistics.add s).checked? := by
  induction indices generalizing s with
  | nil => exact hs.checked?.symm
  | cons i indices ih =>
    rw [List.foldlM_cons, List.map_cons, List.foldl_cons, addMatch?,
      hOutcome i List.mem_cons_self]
    by_cases hFits : (s.add (result i)).Fits
    · simp only [hFits.checked?]
      exact ih (fun j hj => hOutcome j (List.mem_cons_of_mem i hj)) hFits
    · simp only [Statistics.checked?_of_not_fits hFits]
      exact (Statistics.checked?_of_not_fits fun h => hFits h.of_foldl_add).symm

/-- Without a match that stops the program, only the greatest word does. -/
theorem statistics_eq_checked? {deal : Deal}
    (hOutcome : ∀ i ∈ deal.indices, t.outcome seed i = .ok (result i)) :
    deal.statistics t seed = (deal.total t.contestants.length result).checked? := by
  induction deal with
  | share indices => exact foldlM_addMatch? hOutcome (Statistics.fits_empty _)
  | merge left right ihLeft ihRight =>
    rw [statistics, ihLeft fun i hi => hOutcome i (List.mem_append_left _ hi),
      ihRight fun i hi => hOutcome i (List.mem_append_right _ hi), total]
    by_cases hLeft : (left.total t.contestants.length result).Fits
    · rw [hLeft.checked?]
      by_cases hRight : (right.total t.contestants.length result).Fits
      · rw [hRight.checked?]
        rfl
      · rw [Statistics.checked?_of_not_fits hRight,
          Statistics.checked?_of_not_fits fun h => hRight h.of_merge.2]
        rfl
    · rw [Statistics.checked?_of_not_fits hLeft,
        Statistics.checked?_of_not_fits fun h => hLeft h.of_merge.1]
      rfl

theorem statistics_of_outcomes {games : Nat} (hGames : games < UInt64.size)
    (hOutcome : ∀ i < games, t.outcome seed i = .ok (result i)) {deal : Deal}
    (hPerm : deal.indices.Perm (List.range games)) :
    deal.statistics t seed =
      if (((List.range games).map result).map (·.turnsPlayed.toNat)).sum < UInt64.size then
        some (deal.total t.contestants.length result)
      else none := by
  have hFits : (deal.total t.contestants.length result).Fits ↔ _ :=
    fits_total_iff hPerm (List.length_range.trans_lt hGames)
  rw [deal.statistics_eq_checked? fun i hi =>
    hOutcome i (List.mem_range.mp (hPerm.mem_iff.mp hi))]
  split
  · rename_i hTurns
    exact (hFits.mpr hTurns).checked?
  · rename_i hTurns
    exact Statistics.checked?_of_not_fits fun h => hTurns (hFits.mp h)

theorem foldlM_addMatch?_eq_none {indices : List Nat} {i : Nat} (hi : i ∈ indices)
    (hStop : t.outcome seed i = .error .overflow) (s : Statistics) :
    indices.foldlM (t.addMatch? seed) s = none := by
  induction hi generalizing s with
  | head =>
    rw [List.foldlM_cons, addMatch?, hStop]
    rfl
  | tail j _ ih =>
    rw [List.foldlM_cons]
    cases t.addMatch? seed s j with
    | none => rfl
    | some s => exact ih s

/-- A match that stops the program stops it whoever plays it. -/
theorem statistics_eq_none {deal : Deal} {i : Nat} (hi : i ∈ deal.indices)
    (hStop : t.outcome seed i = .error .overflow) : deal.statistics t seed = none := by
  induction deal with
  | share indices => exact foldlM_addMatch?_eq_none hi hStop _
  | merge left right ihLeft ihRight =>
    rw [statistics]
    obtain hi | hi := List.mem_append.mp hi
    · rw [ihLeft hi]
      rfl
    · rw [ihRight hi]
      cases left.statistics t seed <;> rfl

end Deal

theorem addMatches_eq_foldlM (k games : Nat) (s : Statistics) :
    t.addMatches (seed + UInt64.ofNat k) games s =
      (List.range' k games).foldlM (t.addMatch? seed) s := by
  induction games generalizing k s with
  | zero => rfl
  | succ games ih =>
    have hSeed : seed + UInt64.ofNat k + 1 = seed + UInt64.ofNat (k + 1) := by
      rw [UInt64.ofNat_add, ← UInt64.add_assoc]
      rfl
    rw [addMatches, hSeed, List.range'_succ, List.foldlM_cons, addMatch?, outcome]
    cases playMatch t.contestants t.settings t.maxTurns (seed + UInt64.ofNat k) with
    | ok r =>
      dsimp only
      cases (s.add r).checked? with
      | none => rfl
      | some s => exact ih (k + 1) s
    | error e =>
      cases e with
      | overflow => rfl
      | _ => exact ih (k + 1) s

theorem share_eq_statistics (t : Tournament) (seed : UInt64) (games : Nat) :
    t.share seed games = (Deal.share (List.range games)).statistics t seed := by
  have hShare : t.share (seed + UInt64.ofNat 0) games = _ := addMatches_eq_foldlM 0 games _
  have hSeed : seed + UInt64.ofNat 0 = seed := UInt64.add_zero seed
  rwa [hSeed, ← List.range_eq_range'] at hShare

/-- The program deals its matches out in one of these ways. -/
theorem exists_play_eq (t : Tournament) (seed : UInt64) (depth k games : Nat) :
    ∃ deal : Deal, deal.indices = List.range' k games ∧
      t.play depth (seed + UInt64.ofNat k) games = deal.statistics t seed := by
  induction depth generalizing k games with
  | zero => exact ⟨.share (List.range' k games), rfl, addMatches_eq_foldlM k games _⟩
  | succ depth ih =>
    rw [play]
    split
    · exact ⟨.share (List.range' k games), rfl, addMatches_eq_foldlM k games _⟩
    · obtain ⟨left, hLeft, hPlayLeft⟩ := ih k (games / 2)
      obtain ⟨right, hRight, hPlayRight⟩ := ih (k + games / 2) (games - games / 2)
      have hSeed : seed + UInt64.ofNat k + UInt64.ofNat (games / 2) =
          seed + UInt64.ofNat (k + games / 2) := by
        rw [UInt64.ofNat_add, ← UInt64.add_assoc]
      refine ⟨.merge left right, ?_, ?_⟩
      · rw [Deal.indices, hLeft, hRight, List.range'_append_1]
        congr 1
        omega
      · dsimp only
        rw [hSeed, hPlayLeft, hPlayRight]
        rfl

theorem outcome_cases {g : Game}
    (hCreate : Game.create t.settings (t.contestants.map (·.name)) seed = .ok g) (i : Nat) :
    t.outcome seed i = .error .overflow ∨ ∃ r, t.outcome seed i = .ok r := by
  obtain ⟨g', hCreate'⟩ :=
    (Game.hasRoom_of_create_eq_ok hCreate).exists_create_eq_ok (seed + UInt64.ofNat i)
  rw [outcome, playMatch, Match.start_eq_ok_iff.mpr ⟨g', hCreate', rfl⟩]
  exact (Match.result_cases _ _ _).symm

/-- If a game can be created with the seed of a tournament, then each match is played or stops the
program. However the matches are dealt out and put together, the program stops alike, or the
statistics are those of adding the results one by one, apart from sums of floating-point numbers
that are not exact. Every match counts as won by one contestant or as a draw. -/
theorem dealing_makes_no_difference {g : Game}
    (hCreate : Game.create t.settings (t.contestants.map (·.name)) seed = .ok g) {games : Nat}
    (hGames : games < UInt64.size) :
    (∀ depth, ∃ deal : Deal, deal.indices = List.range games ∧
      t.play depth seed games = deal.statistics t seed) ∧
    ((∃ i < games, t.outcome seed i = .error .overflow) ∧
        (∀ deal : Deal, deal.indices.Perm (List.range games) → deal.statistics t seed = none) ∨
      ∃ results : List MatchResult,
        (List.range games).map (t.outcome seed) = results.map .ok ∧
        if (results.map (·.turnsPlayed.toNat)).sum < UInt64.size then
          t.share seed games = some (.ofResults t.contestants.length results) ∧
          ∀ deal : Deal, deal.indices.Perm (List.range games) →
            ∃ s, deal.statistics t seed = some s ∧ s.Counts t.contestants.length results
        else ∀ deal : Deal, deal.indices.Perm (List.range games) →
          deal.statistics t seed = none) := by
  refine ⟨fun depth => ?_, ?_⟩
  · obtain ⟨deal, hIndices, hPlay⟩ := exists_play_eq t seed depth 0 games
    have hSeed : seed + UInt64.ofNat 0 = seed := UInt64.add_zero seed
    rw [hSeed] at hPlay
    exact ⟨deal, hIndices.trans List.range_eq_range'.symm, hPlay⟩
  by_cases hStops : ∃ i < games, t.outcome seed i = .error .overflow
  · obtain ⟨i, hi, hStop⟩ := hStops
    exact .inl ⟨⟨i, hi, hStop⟩, fun deal hPerm =>
      deal.statistics_eq_none (hPerm.mem_iff.mpr (List.mem_range.mpr hi)) hStop⟩
  have : Inhabited MatchResult := ⟨⟨none, 0, [], [], 0⟩⟩
  have hPlayed : ∀ i < games, ∃ r, t.outcome seed i = .ok r := fun i hi =>
    (outcome_cases hCreate i).resolve_left fun hStop => hStops ⟨i, hi, hStop⟩
  choose! result hResult using hPlayed
  have hDeal {deal : Deal} (hPerm : deal.indices.Perm (List.range games)) :=
    Deal.statistics_of_outcomes hGames hResult hPerm
  refine .inr ⟨(List.range games).map result, ?_, ?_⟩
  · rw [List.map_map]
    exact List.map_congr_left fun i hi => hResult i (List.mem_range.mp hi)
  split
  · rename_i hTurns
    refine ⟨?_, fun deal hPerm => ⟨_, ?_, Deal.counts_total _ result hPerm⟩⟩
    · rw [share_eq_statistics, hDeal (List.Perm.refl _), if_pos hTurns]
      rfl
    · rw [hDeal hPerm, if_pos hTurns]
  · rename_i hTurns
    intro deal hPerm
    rw [hDeal hPerm, if_neg hTurns]

def idleTournament : Tournament where
  contestants := Match.idleContestants
  settings := Game.duelSettings
  maxTurns := 1

def idleResult (i : Nat) : MatchResult where
  winner := none
  turnsPlayed := 1
  standings := [⟨1, 10000, 1, 100, 1, none⟩, ⟨2, 10000, 1, 100, 1, none⟩]
  eliminations := []
  seed := 18446744073709551615 + UInt64.ofNat i

theorem outcome_idleTournament :
    ∀ i < 3, idleTournament.outcome 18446744073709551615 i = .ok (idleResult i) := by
  decide +kernel

/-- Three matches, with the last seed and the first two. One worker plays the last of them, one plays
none and one the others. -/
theorem idle_tournament_dealt_out : ∃ total : Statistics,
    idleTournament.share 18446744073709551615 3 = some total ∧
    (Deal.merge (.merge (.share [2]) (.share [])) (.share [1, 0])).statistics idleTournament
      18446744073709551615 = some total ∧
    total.games = 3 ∧ total.wins.sum + total.draws = 3 := by
  obtain ⟨g, hCreate, _⟩ := Game.exists_eq_ok_of_any
    (r := Game.create Game.duelSettings (Match.idleContestants.map (·.name)) 18446744073709551615)
    (P := fun g => !g.ended) (by decide +kernel)
  obtain ⟨-, ⟨⟨i, hi, hStop⟩, -⟩ | ⟨results, hResults, hDeal⟩⟩ :=
    dealing_makes_no_difference (t := idleTournament) hCreate (show 3 < UInt64.size by decide)
  · rw [outcome_idleTournament i hi] at hStop
    cases hStop
  obtain rfl : (List.range 3).map idleResult = results := by
    apply List.map_injective_iff.mpr (fun _ _ => Except.ok.inj)
    rw [← hResults, List.map_map]
    exact (List.map_congr_left fun i hi =>
      outcome_idleTournament i (List.mem_range.mp hi)).symm
  rw [if_pos (by decide)] at hDeal
  obtain ⟨s, hStatistics, hCounts⟩ := hDeal.2
    (Deal.merge (.merge (.share [2]) (.share [])) (.share [1, 0])) (by decide)
  have hScores : ∀ i, Decimal.ExactSums
      (((List.range 3).map idleResult).filterMap (Statistics.score? i)) := by
    have hSame : Decimal.ExactSums ([10100, 10100, 10100].map Float.ofInt) :=
      Decimal.exactSums_of_sum_lt (by decide) (by decide)
    rintro (_ | _ | i)
    · exact hSame
    · exact hSame
    · exact Decimal.exactSums_nil
  have hSquares : ∀ i, Decimal.ExactSums (((List.range 3).map idleResult).filterMap fun r =>
      (Statistics.score? i r).map fun x => x * x) := by
    have hSame : Decimal.ExactSums ([10100, 10100, 10100].map fun n =>
        Float.ofInt n * Float.ofInt n) :=
      Decimal.exactSums_squares_of_sum_lt (by decide) (by decide)
    rintro (_ | _ | i)
    · exact hSame
    · exact hSame
    · exact Decimal.exactSums_nil
  refine ⟨s, ?_, hStatistics, hCounts.games_eq, hCounts.sum_wins_add_draws.trans hCounts.games_eq⟩
  rw [hCounts.eq_ofResults hScores hSquares]
  exact hDeal.1

def wastefulPlan : Plan where
  statements := [.act (.invest (.binary .mul (.identifier "random") (.number 100003)))]

def wastefulTournament : Tournament where
  contestants := [⟨"a", wastefulPlan⟩, ⟨"b", Game.idlePlan⟩]
  settings := { Game.duelSettings with initBudget := 268435456, maxDep := 100 }
  maxTurns := 1

def wastefulResult (i : Nat) : MatchResult where
  winner := none
  turnsPlayed := 1
  standings := [⟨1, [198033343, 194633241, 182532878].getD i 0, 1, 100, 0, none⟩,
    ⟨2, 268435456, 1, 100, 1, none⟩]
  eliminations := []
  seed := 7 + UInt64.ofNat i

theorem outcome_wastefulTournament :
    ∀ i < 3, wastefulTournament.outcome 7 i = .ok (wastefulResult i) := by
  decide +kernel

/-- Where all sums of scores are exact, those of their squares need not be. -/
theorem squares_depend_on_deal :
    (∃ g, Game.create wastefulTournament.settings
      (wastefulTournament.contestants.map (·.name)) 7 = .ok g) ∧
    (∀ i < 3, wastefulTournament.outcome 7 i = .ok (wastefulResult i)) ∧
    (∀ i, Decimal.ExactSums
      (((List.range 3).map wastefulResult).filterMap (Statistics.score? i))) ∧
    ∃ s u, wastefulTournament.share 7 3 = some s ∧
      (Deal.merge (.share [0]) (.share [1, 2])).statistics wastefulTournament 7 = some u ∧
      s ≠ u := by
  obtain ⟨g, hCreate, _⟩ := Game.exists_eq_ok_of_any
    (r := Game.create wastefulTournament.settings (wastefulTournament.contestants.map (·.name)) 7)
    (P := fun g => !g.ended) (by decide +kernel)
  have hStatistics (deal : Deal) (hPerm : deal.indices.Perm (List.range 3)) :
      deal.statistics wastefulTournament 7 = some (deal.total 2 wastefulResult) :=
    (Deal.statistics_of_outcomes (by decide) outcome_wastefulTournament hPerm).trans
      (if_pos (by decide))
  refine ⟨⟨g, hCreate⟩, outcome_wastefulTournament, ?_, _, _,
    (share_eq_statistics ..).trans (hStatistics (.share [0, 1, 2]) (List.Perm.refl _)),
    hStatistics _ (List.Perm.refl _), fun hSame => ?_⟩
  · have hFirst : Decimal.ExactSums ([198033443, 194633341, 182532978].map Float.ofInt) :=
      Decimal.exactSums_of_sum_lt (by decide) (by decide)
    have hSecond : Decimal.ExactSums ([268435556, 268435556, 268435556].map Float.ofInt) :=
      Decimal.exactSums_of_sum_lt (by decide) (by decide)
    rintro (_ | _ | i)
    · exact hFirst
    · exact hSecond
    · exact Decimal.exactSums_nil
  · -- Put together first, the last two squares are rounded to other bits than one after the other.
    have hSquares : 0 + Float.ofInt 198033443 * Float.ofInt 198033443 +
        Float.ofInt 194633341 * Float.ofInt 194633341 +
        Float.ofInt 182532978 * Float.ofInt 182532978 =
      0 + Float.ofInt 198033443 * Float.ofInt 198033443 +
        (0 + Float.ofInt 194633341 * Float.ofInt 194633341 +
          Float.ofInt 182532978 * Float.ofInt 182532978) :=
      congrArg (·.squares.getD 0 0) hSame
    revert hSquares
    decide +kernel

end Tournament

end CityCrew
