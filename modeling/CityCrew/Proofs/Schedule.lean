import Mathlib.Data.List.Chain
import Mathlib.Data.Nat.Basic
import Mathlib.Data.Prod.Lex
import Mathlib.Logic.Function.Iterate
import CityCrew.Proofs.Stops
import CityCrew.Proofs.Survival

/-!
# The order of turns

The turn goes round the list of players, past those who are out. Each time it comes back to the
front, one round is over and interest is paid once. So the slots, a round with a place in the list
each, are filled in their order: one comes up for everybody in every round, and it is taken by the
player it is for if that player is left when it comes up.
-/

namespace CityCrew

namespace Game

variable {g g' s : Game} {d e i : Nat}

/-- One step of the search: on to the next place, or to the front of the list in the next round. -/
def nextPlace (g : Game) : Game :=
  if g.current + 1 < g.players.length then g.withCurrent (g.current + 1)
  else g.nextRound.withCurrent 0

@[simp] theorem players_nextRound (g : Game) : g.nextRound.players = g.players :=
  rfl

theorem current_withCurrent (h : i < g.players.length) : (g.withCurrent i).current = i := by
  rw [withCurrent, dif_pos h]

@[simp] theorem turn_withCurrent (g : Game) (i : Nat) : (g.withCurrent i).turn = g.turn := by
  unfold withCurrent
  split <;> rfl

theorem withCurrent_current (g : Game) : g.withCurrent g.current = g :=
  dif_pos g.current_lt

theorem withCurrent_withCurrent {j : Nat} (h : j < g.players.length) :
    (g.withCurrent i).withCurrent j = g.withCurrent j := by
  by_cases hi : i < g.players.length <;> simp [withCurrent, hi, h]

theorem nextRound_withCurrent (g : Game) (i : Nat) :
    (g.withCurrent i).nextRound = g.nextRound.withCurrent i := by
  by_cases hi : i < g.players.length
  · simp [withCurrent, hi, nextRound, payInterest]
  · simp [withCurrent, hi]

theorem nextPlace_withCurrent (h : i < g.players.length) : (g.withCurrent i).nextPlace =
    if i + 1 < g.players.length then g.withCurrent (i + 1) else g.nextRound.withCurrent 0 := by
  have hFront : 0 < g.nextRound.players.length := by
    rw [players_nextRound]
    omega
  rw [nextPlace, players_withCurrent, current_withCurrent h, nextRound_withCurrent,
    withCurrent_withCurrent hFront]
  split
  · exact withCurrent_withCurrent ‹_›
  · rfl

theorem iterate_nextPlace_within {k : Nat} (h : g.current + k < g.players.length) :
    nextPlace^[k] g = g.withCurrent (g.current + k) := by
  induction k with
  | zero => exact (withCurrent_current g).symm
  | succ k ih =>
    have hBefore : g.current + k < g.players.length := by omega
    rw [Function.iterate_succ_apply', ih hBefore, nextPlace_withCurrent hBefore]
    exact if_pos h

theorem iterate_nextPlace_beyond {k : Nat} (hk : g.current + k = g.players.length + i)
    (hi : i < g.players.length) : nextPlace^[k] g = g.nextRound.withCurrent i := by
  have hCurrent := g.current_lt
  induction i generalizing k with
  | zero =>
    obtain ⟨k, rfl⟩ := Nat.exists_eq_succ_of_ne_zero (show k ≠ 0 by omega)
    have hLast : g.current + k < g.players.length := by omega
    rw [Function.iterate_succ_apply', iterate_nextPlace_within hLast, nextPlace_withCurrent hLast]
    exact if_neg (by omega)
  | succ i ih =>
    obtain ⟨k, rfl⟩ := Nat.exists_eq_succ_of_ne_zero (show k ≠ 0 by omega)
    have hBefore : i < g.nextRound.players.length := by
      rw [players_nextRound]
      omega
    rw [Function.iterate_succ_apply', ih (by omega) (by omega), nextPlace_withCurrent hBefore]
    exact if_pos hi

theorem passTurn_search (h : ∃ p ∈ g.players, p.alive = true) : ∃ d i p, 0 < d ∧
    g.players[i]? = some p ∧ p.alive = true ∧
    (g.current + d = i ∧ g.passTurn = g.withCurrent i ∨
      g.current + d = g.players.length + i ∧ i ≤ g.current ∧
        g.passTurn = g.nextRound.withCurrent i) ∧
    ∀ e q, 0 < e → e < d → g.players[(g.current + e) % g.players.length]? = some q →
      q.alive = false := by
  have hCurrent := g.current_lt
  unfold passTurn
  split
  · rename_i i hi
    obtain ⟨hLater, ⟨p, hp, hAlive⟩, hBefore⟩ := of_aliveFrom?_eq_some hi
    obtain ⟨hlt, _⟩ := List.getElem?_eq_some_iff.mp hp
    refine ⟨i - g.current, i, p, by omega, hp, hAlive, .inl ⟨by omega, rfl⟩, ?_⟩
    intro e q hPos hlt' hq
    rw [Nat.mod_eq_of_lt (by omega)] at hq
    exact hBefore _ q (by omega) (by omega) hq
  · rename_i hNobody
    have hRest := aliveFrom?_eq_none_iff.mp hNobody
    split
    · rename_i i hi
      obtain ⟨_, ⟨p, hp, hAlive⟩, hBefore⟩ := of_aliveFrom?_eq_some hi
      obtain ⟨hlt, _⟩ := List.getElem?_eq_some_iff.mp hp
      have hFront : i ≤ g.current := by
        by_contra hBehind
        have hOut := hRest i p (by omega) hp
        rw [hAlive] at hOut
        cases hOut
      refine ⟨g.players.length + i - g.current, i, p, by omega, hp, hAlive,
        .inr ⟨by omega, hFront, rfl⟩, ?_⟩
      intro e q hPos hlt' hq
      by_cases hSame : g.current + e < g.players.length
      · rw [Nat.mod_eq_of_lt hSame] at hq
        exact hRest _ q (by omega) hq
      · rw [Nat.mod_eq_sub_mod (by omega), Nat.mod_eq_of_lt (by omega)] at hq
        exact hBefore _ q (Nat.zero_le _) (by omega) hq
    · rename_i hNone
      obtain ⟨p, hp, hAlive⟩ := h
      obtain ⟨j, hj⟩ := List.mem_iff_getElem?.mp hp
      have hOut := aliveFrom?_eq_none_iff.mp hNone j p (Nat.zero_le j) hj
      rw [hAlive] at hOut
      cases hOut

/-- The first `d` places after the current one, in cyclic order. -/
def placesAfter (g : Game) (d : Nat) : List Nat :=
  (List.range' 1 d).map fun e => (g.current + e) % g.players.length

theorem count_placesAfter (g : Game) (d : Nat) :
    (g.placesAfter d).count 0 = (g.current + d) / g.players.length := by
  induction d with
  | zero => exact (Nat.div_eq_of_lt g.current_lt).symm
  | succ d ih =>
    have hSplit : g.placesAfter (d + 1) =
        g.placesAfter d ++ [(g.current + (1 + d)) % g.players.length] := by
      simp [placesAfter, List.range'_1_concat]
    rw [hSplit, List.count_append, ih, ← Nat.add_assoc g.current d 1, Nat.succ_div,
      List.count_singleton, Nat.add_comm 1 d, ← Nat.add_assoc]
    simp [Nat.dvd_iff_mod_eq_zero]

/-- The turn passes from the current player of `g` to that of `g'`, who is the first one alive in
the cyclic order and `d` places away. Each time the search comes to the front of the list, interest
for the old round is paid and the next round begins, and it comes there once at most. The program
goes on. -/
structure PassesOn (g g' : Game) (d : Nat) : Prop where
  pos : 0 < d
  le_length : d ≤ g.players.length
  search_eq : g' = nextPlace^[d] g.sweepOut
  players_eq : g'.players = g.sweepOut.players
  current_eq : g'.current = (g.current + d) % g.players.length
  alive : g'.actor.alive = true
  skipped : ∀ e p, 0 < e → e < d → g'.players[(g.current + e) % g.players.length]? = some p →
    p.alive = false
  front_le_one : (g.placesAfter d).count 0 ≤ 1
  turn_eq : g'.turn = g.turn + (g.placesAfter d).count 0
  territory_eq : g'.territory = (payInterest^[(g.placesAfter d).count 0] g).territory
  overflowed_eq : g'.overflowed = g.overflowed

theorem endTurn_eq_passTurn (hEnded : g.ended = false) (hOpen : g.endTurn.ended = false) :
    g.endTurn = g.sweepOut.passTurn := by
  rw [endTurn, if_neg (by simp [hEnded])] at hOpen ⊢
  dsimp only at hOpen ⊢
  split at hOpen
  · cases hOpen
  · cases hOpen
  · rfl

theorem length_sweepOut (g : Game) : g.sweepOut.players.length = g.players.length :=
  (KeepsOut.sweepOut g).length_eq

/-- The turn passes on, or the number of the next round is no word. -/
theorem stopped_or_passesOn (hEnded : g.ended = false) (hOpen : g.endTurn.ended = false) :
    (¬ IsWord (g.turn + 1) ∧ g.endTurn.overflowed = true) ∨ ∃ d, PassesOn g g.endTurn d := by
  by_cases hStopped : ¬ IsWord (g.turn + 1) ∧ g.endTurn.overflowed = true
  · exact .inl hStopped
  refine .inr ?_
  have hLeft : ∃ p ∈ g.sweepOut.players, p.alive = true := by
    have hTwo := two_alive_endTurn hEnded hOpen
    rw [players_endTurn hEnded] at hTwo
    exact List.countP_pos_iff.mp (Nat.lt_of_lt_of_le Nat.two_pos hTwo)
  obtain ⟨d, i, p, hPos, hp, hAlive, hFound, hSkipped⟩ := passTurn_search hLeft
  have hPlayers := players_endTurn hEnded
  have hLength := length_sweepOut g
  have hi := (List.getElem?_eq_some_iff.mp hp).1
  have hActor : g.endTurn.actor = p := by
    rw [endTurn_eq_passTurn hEnded hOpen]
    rcases hFound with ⟨_, hPass⟩ | ⟨_, _, hPass⟩ <;> rw [hPass]
    · exact actor_withCurrent hp
    · exact actor_withCurrent (g := g.sweepOut.nextRound) hp
  rw [hLength] at hFound hSkipped hi
  change (g.current + d = i ∧ _) ∨ (g.current + d = _ ∧ i ≤ g.current ∧ _) at hFound
  have hCurrent := g.current_lt
  have hPass := endTurn_eq_passTurn hEnded hOpen
  have hRounds : (g.placesAfter d).count 0 ≤ 1 ∧
      g.endTurn.turn = g.turn + (g.placesAfter d).count 0 ∧
      g.endTurn.territory = (payInterest^[(g.placesAfter d).count 0] g).territory ∧
      g.endTurn.overflowed = g.overflowed := by
    rw [count_placesAfter]
    rcases hFound with ⟨hd, hFound⟩ | ⟨hd, _, hFound⟩
    · rw [hPass, hd, Nat.div_eq_of_lt hi, hFound, turn_withCurrent, territory_withCurrent,
        overflowed_withCurrent]
      exact ⟨Nat.zero_le 1, (Int.add_zero g.turn).symm, rfl, rfl⟩
    · have hWord : IsWord (g.sweepOut.turn + 1) := by
        by_contra hWord
        refine hStopped ⟨hWord, ?_⟩
        rw [hPass, hFound, overflowed_withCurrent, nextRound_of_not_isWord hWord]
        rfl
      rw [hPass, hd, Nat.add_div_left _ (by omega), Nat.div_eq_of_lt hi, hFound, turn_withCurrent,
        territory_withCurrent, overflowed_withCurrent, nextRound_of_isWord hWord]
      exact ⟨Nat.le_refl 1, rfl, rfl, rfl⟩
  refine ⟨d, hPos, by omega, ?_, hPlayers, ?_, by rwa [hActor], by rwa [hPlayers], hRounds.1,
    hRounds.2.1, hRounds.2.2.1, hRounds.2.2.2⟩
  · rcases hFound with ⟨hd, hFound⟩ | ⟨hd, _, hFound⟩
    · have hWithin : g.sweepOut.current + d < g.sweepOut.players.length := by
        rw [hLength]
        change g.current + d < _
        omega
      rw [hPass, hFound, iterate_nextPlace_within hWithin, ← hd]
      rfl
    · rw [hPass, hFound]
      exact (iterate_nextPlace_beyond (by rwa [hLength]) (by rwa [hLength])).symm
  · rcases hFound with ⟨hd, hFound⟩ | ⟨hd, _, hFound⟩
    · rw [hPass, hFound, hd, Nat.mod_eq_of_lt hi]
      exact current_withCurrent (by rwa [hLength])
    · rw [hPass, hFound, hd, Nat.add_mod_left, Nat.mod_eq_of_lt hi]
      exact current_withCurrent (by rwa [players_nextRound, hLength])

/-- The round and the place in the list, in the order in which turns are taken. -/
def slot (g : Game) : Int ×ₗ Nat :=
  toLex (g.turn, g.current)

/-- The search goes on in the same round, or over the end of the list into the next one. -/
theorem PassesOn.cases (h : PassesOn g g' d) :
    (g.current + d < g.players.length ∧ g'.current = g.current + d ∧ g'.turn = g.turn) ∨
      g.players.length ≤ g.current + d ∧ g'.current + g.players.length = g.current + d ∧
        g'.turn = g.turn + 1 := by
  have hCurrent := g.current_lt
  have hLe := h.le_length
  have hTurn := h.turn_eq
  rw [count_placesAfter] at hTurn
  by_cases hWithin : g.current + d < g.players.length
  · rw [Nat.div_eq_of_lt hWithin] at hTurn
    exact .inl ⟨hWithin, h.current_eq.trans (Nat.mod_eq_of_lt hWithin), by omega⟩
  · have hPlace := h.current_eq
    rw [Nat.mod_eq_sub_mod (by omega), Nat.mod_eq_of_lt (by omega)] at hPlace
    rw [Nat.div_eq_of_lt_le (k := 1) (by omega) (by omega)] at hTurn
    exact .inr ⟨by omega, by omega, hTurn⟩

theorem PassesOn.slot_lt (h : PassesOn g g' d) : g.slot < g'.slot := by
  have hPos := h.pos
  rw [slot, slot, Prod.Lex.toLex_lt_toLex]
  rcases h.cases with ⟨_, hPlace, hTurn⟩ | ⟨_, _, hTurn⟩
  · exact .inr ⟨hTurn.symm, by simp only; omega⟩
  · exact .inl (by simp only; omega)

/-- A slot that is passed over is one of a player who is out. -/
theorem PassesOn.out_between (h : PassesOn g g' d) {t : Int} {p : Player}
    (hp : g'.players[i]? = some p) (hAfter : g.slot < toLex (t, i))
    (hBefore : toLex (t, i) < g'.slot) : p.alive = false := by
  have hLength : g'.players.length = g.players.length := by
    rw [h.players_eq, length_sweepOut]
  have hi : i < g.players.length := hLength ▸ (List.getElem?_eq_some_iff.mp hp).1
  have hCurrent := g.current_lt
  rw [slot, Prod.Lex.toLex_lt_toLex] at hAfter hBefore
  simp only at hAfter hBefore
  -- The place lies in the same round behind the old player, or in the next one before the new one.
  have hPlace : ∃ e, 0 < e ∧ e < d ∧ (g.current + e) % g.players.length = i := by
    rcases h.cases with ⟨hWithin, hNew, hTurn⟩ | ⟨_, hNew, hTurn⟩
    · refine ⟨i - g.current, by omega, by omega, ?_⟩
      rw [show g.current + (i - g.current) = i by omega, Nat.mod_eq_of_lt hi]
    · by_cases hSame : t = g.turn
      · refine ⟨i - g.current, by omega, by omega, ?_⟩
        rw [show g.current + (i - g.current) = i by omega, Nat.mod_eq_of_lt hi]
      · refine ⟨g.players.length + i - g.current, by omega, by omega, ?_⟩
        rw [show g.current + (g.players.length + i - g.current) = g.players.length + i by omega,
          Nat.add_mod_left, Nat.mod_eq_of_lt hi]
  obtain ⟨e, hPos, hlt, rfl⟩ := hPlace
  exact h.skipped e p hPos hlt hp

/-- From one turn to the next, slots are passed over for players who are out alone. -/
theorem Turn.slots (hTurn : Turn g g') (hOpen : g'.ended = false) : g.slot < g'.slot ∧
    ∀ (t : Int) (i : Nat) (p : Player), g'.players[i]? = some p → g.slot < toLex (t, i) →
      toLex (t, i) < g'.slot → p.alive = false := by
  obtain ⟨plan, flow, hPlay⟩ := hTurn.exists_playTurn
  have hRuns := (playTurn_eq_ok_iff.mp hPlay).2.2
  obtain ⟨hEnded, hPlay⟩ := of_playTurn_eq_ok hPlay
  -- The turn is over in some game with the clock of `g`.
  have hLast : ∃ s : Game, s.slot = g.slot ∧ g' = s.endTurn := by
    obtain ⟨crew, hCrew⟩ := snd_run_beginTurn g
    rcases hPlay with ⟨_, _, rfl⟩ | ⟨_, _, rfl⟩
    · obtain ⟨hTurn, hCurrent⟩ := Linked.clock (plan.linked_calls (beginTurn.run g).2)
      refine ⟨_, ?_, rfl⟩
      rw [slot, hTurn, hCurrent, hCrew]
      rfl
    · exact ⟨_, by rw [hCrew]; rfl, rfl⟩
  obtain ⟨s, hSlot, rfl⟩ := hLast
  have hOngoing : s.ended = false := by
    cases hOver : s.ended with
    | false => rfl
    | true => rwa [endTurn_of_ended hOver, hOver] at hOpen
  obtain ⟨d, hPasses⟩ := (stopped_or_passesOn hOngoing hOpen).resolve_left (by simp [hRuns])
  rw [← hSlot]
  exact ⟨hPasses.slot_lt, fun t i p hp => hPasses.out_between hp⟩

theorem pairwise_slots {games : List Game} (hTurns : games.IsChain Turn)
    (hOpen : ∀ g ∈ games, g.ended = false) : games.Pairwise fun g g' => g.slot < g'.slot := by
  have hSlots : (games.map slot).IsChain (· < ·) := by
    rw [List.isChain_map]
    exact hTurns.imp_of_mem_imp fun _ g' _ hg' hTurn => (hTurn.slots (hOpen g' hg')).1
  exact List.pairwise_map.mp (List.isChain_iff_pairwise.mp hSlots)

/-- The game in which a slot comes up: the first one that has come to it or gone past it. -/
def comesUp? (games : List Game) (slot : Int ×ₗ Nat) : Option Game :=
  games.find? fun g => slot ≤ g.slot

def turnsIn (games : List Game) (slot : Int ×ₗ Nat) : Nat :=
  games.countP fun g => g.slot = slot

variable {first : Game} {rest : List Game}

theorem turnsIn_eq_zero {games : List Game} {slot : Int ×ₗ Nat}
    (h : ∀ g ∈ games, slot < g.slot) : turnsIn games slot = 0 := by
  rw [turnsIn, List.countP_eq_zero]
  intro g hg
  simpa using (h g hg).ne'

/-- Someone who is left begins a turn in the slot that comes up. -/
theorem turnsIn_slot_of_eq (hTurns : (first :: rest).IsChain Turn)
    (hOpen : ∀ g ∈ first :: rest, g.ended = false) (hAlive : first.actor.alive = true) {t : Int}
    {i : Nat} (hSlot : first.slot = toLex (t, i)) :
    ∃ g p, comesUp? (first :: rest) (toLex (t, i)) = some g ∧ g.players[i]? = some p ∧
      turnsIn (first :: rest) (toLex (t, i)) = if p.alive then 1 else 0 := by
  have hLater := (List.pairwise_cons.mp (pairwise_slots hTurns hOpen)).1
  have hPlace : first.current = i := congrArg (fun s => (ofLex s).2) hSlot
  refine ⟨first, first.actor, List.find?_cons_of_pos (by simp [hSlot]), ?_, ?_⟩
  · rw [← hPlace]
    exact List.getElem?_eq_getElem first.current_lt
  · rw [turnsIn, List.countP_cons_of_pos (by simp [hSlot]), ← turnsIn, ← hSlot,
      turnsIn_eq_zero hLater, hAlive]
    rfl

/-- A slot is filled once if its player is left when it comes up, and else never. -/
theorem turnsIn_slot (hTurns : (first :: rest).IsChain Turn)
    (hOpen : ∀ g ∈ first :: rest, g.ended = false)
    (hAlive : ∀ g ∈ first :: rest, g.actor.alive = true) {t : Int} {i : Nat}
    (hi : i < first.players.length) (hFirst : first.slot ≤ toLex (t, i))
    (hLast : ∃ g ∈ first :: rest, toLex (t, i) ≤ g.slot) :
    ∃ g p, comesUp? (first :: rest) (toLex (t, i)) = some g ∧ g.players[i]? = some p ∧
      turnsIn (first :: rest) (toLex (t, i)) = if p.alive then 1 else 0 := by
  induction rest generalizing first with
  | nil =>
    obtain ⟨g, hg, hReached⟩ := hLast
    obtain rfl := List.mem_singleton.mp hg
    exact turnsIn_slot_of_eq hTurns hOpen (hAlive g hg) (le_antisymm hFirst hReached)
  | cons second rest ih =>
    rcases hFirst.eq_or_lt with hHere | hPast
    · exact turnsIn_slot_of_eq hTurns hOpen (hAlive first List.mem_cons_self) hHere
    · obtain ⟨hTurn, hTurns'⟩ := List.isChain_cons_cons.mp hTurns
      have hOpen' : ∀ g ∈ second :: rest, g.ended = false :=
        fun g hg => hOpen g (List.mem_cons_of_mem _ hg)
      obtain ⟨plan, flow, hPlay⟩ := hTurn.exists_playTurn
      have hi' : i < second.players.length := by
        rwa [(KeepsOut.playTurn hPlay).length_eq]
      have hSkip : comesUp? (first :: second :: rest) (toLex (t, i)) =
          comesUp? (second :: rest) (toLex (t, i)) :=
        List.find?_cons_of_neg (by simpa using hPast)
      have hCount : turnsIn (first :: second :: rest) (toLex (t, i)) =
          turnsIn (second :: rest) (toLex (t, i)) :=
        List.countP_cons_of_neg (by simpa using hPast.ne)
      rw [hSkip, hCount]
      rcases le_or_gt second.slot (toLex (t, i)) with hLater | hBefore
      · obtain ⟨g, hg, hReached⟩ := hLast
        have hReached' : ∃ g ∈ second :: rest, toLex (t, i) ≤ g.slot := by
          rcases List.mem_cons.mp hg with rfl | hg
          · exact absurd hPast (not_lt_of_ge hReached)
          · exact ⟨g, hg, hReached⟩
        exact ih hTurns' hOpen' (fun g hg => hAlive g (List.mem_cons_of_mem _ hg)) hi' hLater
          hReached'
      · -- The slot has been passed over, so its player is out.
        have hPlayer : second.players[i]? = some second.players[i] := List.getElem?_eq_getElem hi'
        have hOut := (hTurn.slots (hOpen' second List.mem_cons_self)).2 t i _ hPlayer hPast hBefore
        have hBeyond : ∀ g ∈ second :: rest, toLex (t, i) < g.slot := by
          intro g hg
          rcases List.mem_cons.mp hg with rfl | hg
          · exact hBefore
          · exact hBefore.trans ((List.pairwise_cons.mp (pairwise_slots hTurns' hOpen')).1 g hg)
        refine ⟨second, _, List.find?_cons_of_pos (by simpa using hBefore.le), hPlayer, ?_⟩
        rw [turnsIn_eq_zero hBeyond, hOut]
        rfl

theorem betweenTurns_of_mem (hFirst : BetweenTurns first) (hTurns : (first :: rest).IsChain Turn) :
    ∀ g ∈ first :: rest, BetweenTurns g := by
  induction rest generalizing first with
  | nil => simpa using hFirst
  | cons second rest ih =>
    obtain ⟨hTurn, hTurns'⟩ := List.isChain_cons_cons.mp hTurns
    exact List.forall_mem_cons.mpr ⟨hFirst, ih (hFirst.turn hTurn) hTurns'⟩

/-- The end of a turn ends the game or passes the turn on, unless the number of the next round is
no word and the program stops. In a game played from anywhere on, the
slots in which turns begin come in their order, nobody who is out takes a turn, and whoever is left
when a slot comes up takes one turn in it. -/
theorem turns_go_round :
    (∀ g : Game, g.ended = false → g.endTurn.ended = true ∨
      (¬ IsWord (g.turn + 1) ∧ g.endTurn.overflowed = true) ∨ ∃ d, PassesOn g g.endTurn d) ∧
    ∀ (first : Game) (rest : List Game), BetweenTurns first → (first :: rest).IsChain Turn →
      (∀ g ∈ first :: rest, g.ended = false) →
      (first :: rest).Pairwise (fun g g' => g.slot < g'.slot) ∧
      (∀ g ∈ first :: rest, g.actor.alive = true) ∧
      ∀ (t : Int) (i : Nat), i < first.players.length → first.slot ≤ toLex (t, i) →
        (∃ g ∈ first :: rest, toLex (t, i) ≤ g.slot) →
        ∃ g p, comesUp? (first :: rest) (toLex (t, i)) = some g ∧ g.players[i]? = some p ∧
          turnsIn (first :: rest) (toLex (t, i)) = if p.alive then 1 else 0 := by
  constructor
  · intro g hEnded
    cases hOver : g.endTurn.ended with
    | true => exact .inl rfl
    | false => exact .inr (stopped_or_passesOn hEnded hOver)
  · intro first rest hFirst hTurns hOpen
    have hAlive : ∀ g ∈ first :: rest, g.actor.alive = true := fun g hg =>
      (betweenTurns_of_mem hFirst hTurns g hg).ready.actor_alive (hOpen g hg)
    exact ⟨pairwise_slots hTurns hOpen, hAlive, fun t i => turnsIn_slot hTurns hOpen hAlive⟩

/-- In an idle duel the second player takes one turn in the first round. -/
theorem idle_duel_goes_round : ∃ new g g', create duelSettings ["a", "b"] 7 = .ok new ∧
    [new, g, g'].IsChain Turn ∧ g'.turn = 2 ∧ (∃ d, PassesOn g g.endTurn d) ∧
    turnsIn [new, g, g'] (toLex (1, 1)) = 1 := by
  obtain ⟨new, hCreate, hDuel⟩ := exists_duel_with (P := fun new =>
    (new.playTurn idlePlan).toOption.any fun r => (r.2.playTurn idlePlan).toOption.any fun r' =>
      !new.ended && !r.2.ended && !r'.2.ended && !r.2.endTurn.ended && !r.2.endTurn.overflowed &&
      new.slot == toLex (1, 0) && r.2.slot == toLex (1, 1) && r'.2.slot == toLex (2, 0) &&
      new.players.length == 2) (by decide +kernel)
  obtain ⟨⟨flow, g⟩, hPlay, hDuel⟩ := exists_eq_ok_of_any hDuel
  obtain ⟨⟨flow', g'⟩, hPlay', hDuel⟩ := exists_eq_ok_of_any hDuel
  simp only [Bool.and_eq_true, Bool.not_eq_true', beq_iff_eq] at hDuel
  obtain ⟨⟨⟨⟨⟨⟨⟨⟨hNew, hg⟩, hg'⟩, hPass⟩, hRuns⟩, hSlot⟩, hSecond⟩, hThird⟩, hLength⟩ := hDuel
  have hTurns : [new, g, g'].IsChain Turn :=
    .cons_cons (.inl ⟨idlePlan, flow, hPlay⟩) (.cons_cons (.inl ⟨idlePlan, flow', hPlay'⟩)
      (.singleton g'))
  obtain ⟨hEnd, hGame⟩ := turns_go_round
  obtain ⟨_, _, hSlots⟩ := hGame new [g, g'] (.create rfl hCreate) hTurns (by simp [*])
  obtain ⟨_, p, _, _, hCount⟩ := hSlots 1 1 (by omega) (by rw [hSlot]; decide)
    ⟨g, by simp, by rw [hSecond]⟩
  have hTaken : 0 < turnsIn [new, g, g'] (toLex (1, 1)) :=
    List.countP_pos_iff.mpr ⟨g, by simp, by simp [hSecond]⟩
  refine ⟨new, g, g', hCreate, hTurns, congrArg (fun s => (ofLex s).1) hThird,
    ((hEnd g hg).resolve_left (by simp [hPass])).resolve_left (by simp [hRuns]), ?_⟩
  split at hCount <;> omega

end Game

end CityCrew
