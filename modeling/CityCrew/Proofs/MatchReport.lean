import Mathlib.Data.List.Nodup
import Mathlib.Data.List.Pairwise
import CityCrew.Proofs.MatchTurns

/-!
# The report on a match

While a match is played, each turn is booked: halted turns by the place of the contestant, and
eliminations by the list of players after the turn, when the round may be another one already. All
the same the books say at any time just what the turns so far have brought about, and so the report
at the end agrees with the game. A count of halted turns that leaves its 32 bits stops the program, so
no report tells a wrong one.
-/

namespace CityCrew

theorem zip_map_self {α β : Type} (l : List α) (f : α → β) :
    l.zip (l.map f) = l.map fun a => (a, f a) := by
  induction l with
  | nil => rfl
  | cons a l ih => rw [List.map_cons, List.zip_cons_cons, ih, List.map_cons]

theorem modify_map_of_nodup {α β : Type} [DecidableEq α] {l : List α} (hl : l.Nodup) (f : α → β)
    (k : β → β) {i : Nat} {a : α} (ha : l[i]? = some a) :
    (l.map f).modify i k = l.map fun x => if x = a then k (f x) else f x := by
  apply List.ext_getElem?
  intro j
  rw [List.getElem?_modify, List.getElem?_map, List.getElem?_map]
  cases hj : l[j]? with
  | none => simp
  | some b =>
    obtain ⟨hi, rfl⟩ := List.getElem?_eq_some_iff.mp ha
    obtain ⟨hlt, rfl⟩ := List.getElem?_eq_some_iff.mp hj
    have hSame : i = j ↔ l[j] = l[i] := by rw [hl.getElem_inj_iff, eq_comm]
    simp only [hSame, Option.map_some]
    split <;> rfl

theorem mapM_eq_some_iff {α β : Type} {f : α → Option β} {l : List α} {l' : List β} :
    l.mapM f = some l' ↔ l.map f = l'.map some := by
  induction l generalizing l' with
  | nil => cases l' <;> simp
  | cons a l ih => cases l' <;> simp [List.mapM_cons, Option.bind_eq_some_iff, ih]

namespace Game

variable {g s : Game}

theorem KeepsOut.exists_before (h : KeepsOut g s) {p : Player} (hp : p ∈ s.players) :
    ∃ q ∈ g.players, q.id = p.id ∧ (q.alive = false → p.alive = false) := by
  obtain ⟨i, hi⟩ := List.mem_iff_getElem?.mp hp
  have hlt : i < g.players.length := by
    rw [← h.length_eq]
    exact (List.getElem?_eq_some_iff.mp hi).1
  have hq : g.players[i]? = some g.players[i] := List.getElem?_eq_getElem hlt
  have hId := congrArg (·[i]?) h.ids_eq
  simp only [List.getElem?_map, hi, hq, Option.map_some, Option.some.injEq] at hId
  exact ⟨_, List.mem_of_getElem? hq, hId.symm, h.out i _ p hq hi⟩

theorem Orderly.eq_of_id_eq (h : g.Orderly) {p q : Player} (hp : p ∈ g.players)
    (hq : q ∈ g.players) (hId : p.id = q.id) : p = q :=
  List.inj_on_of_nodup_map h.ids_nodup hp hq hId

end Game

namespace Match

variable {maxTurns : Int} {first m : Match} {turns : List PlayedTurn} {t : PlayedTurn}
  {contestant : Contestant} {flow : Flow} {game : Game} {id : PlayerId}

namespace PlayedTurn

def PutsOut (t : PlayedTurn) (id : PlayerId) : Prop :=
  (∃ p ∈ t.before.players, p.id = id ∧ p.alive = true) ∧
    ∃ p ∈ t.after.players, p.id = id ∧ p.alive = false

instance (t : PlayedTurn) (id : PlayerId) : Decidable (t.PutsOut id) :=
  inferInstanceAs (Decidable (_ ∧ _))

def IsHaltOf (t : PlayedTurn) (id : PlayerId) : Prop :=
  t.before.actor.id = id ∧ t.flow = .halt

instance (t : PlayedTurn) (id : PlayerId) : Decidable (t.IsHaltOf id) :=
  inferInstanceAs (Decidable (_ ∧ _))

/-- Those whom the turn puts out, in the order of the players. -/
def out (t : PlayedTurn) : List PlayerId :=
  (t.after.players.map (·.id)).filter t.PutsOut

theorem mem_out_iff : id ∈ t.out ↔ t.PutsOut id := by
  rw [out, List.mem_filter, decide_eq_true_eq]
  refine ⟨And.right, fun h => ⟨?_, h⟩⟩
  obtain ⟨_, p, hp, hId, _⟩ := h
  exact List.mem_map.mpr ⟨p, hp, hId⟩

theorem putsOut_iff (hBefore : t.before.Orderly) (hAfter : t.after.Orderly) {p q : Player}
    (hq : q ∈ t.before.players) (hp : p ∈ t.after.players) (hId : q.id = p.id) :
    t.PutsOut p.id ↔ q.alive = true ∧ p.alive = false := by
  constructor
  · rintro ⟨⟨q', hq', hSame, hAlive⟩, p', hp', hSame', hOut⟩
    obtain rfl := hBefore.eq_of_id_eq hq' hq (hSame.trans hId.symm)
    obtain rfl := hAfter.eq_of_id_eq hp' hp hSame'
    exact ⟨hAlive, hOut⟩
  · rintro ⟨hAlive, hOut⟩
    exact ⟨⟨q, hq, hId, hAlive⟩, p, hp, rfl, hOut⟩

def Apart (t t' : PlayedTurn) : Prop :=
  ∀ id, t.PutsOut id → ¬ t'.PutsOut id

instance : Std.Symm Apart where
  symm _ _ h id hOut hOut' := h id hOut' hOut

end PlayedTurn

def haltsOf (turns : List PlayedTurn) (id : PlayerId) : Nat :=
  turns.countP fun t => t.IsHaltOf id

theorem haltsOf_concat (turns : List PlayedTurn) (t : PlayedTurn) (id : PlayerId) :
    haltsOf (turns ++ [t]) id = haltsOf turns id + if t.IsHaltOf id then 1 else 0 := by
  rw [haltsOf, List.countP_append, List.countP_singleton]
  simp [haltsOf]

/-- What the turns say about the player with the given id. -/
def recordOf (turns : List PlayedTurn) (id : PlayerId) : Record where
  halted := .ofNat (haltsOf turns id)
  eliminated := (turns.find? fun t => t.PutsOut id).map (·.before.turn)

theorem isNone_eliminated_recordOf :
    (recordOf turns id).eliminated.isNone = true ↔ ∀ t ∈ turns, ¬ t.PutsOut id := by
  simp [recordOf]

theorem isSome_eliminated_recordOf :
    (recordOf turns id).eliminated.isSome = true ↔ ∃ t ∈ turns, t.PutsOut id := by
  simp [recordOf]

/-- The record in the middle of a booking, when it tells of a halt in turn `t` and not yet of an
elimination. -/
def recordWithHalt (turns : List PlayedTurn) (t : PlayedTurn) (id : PlayerId) : Record :=
  { recordOf turns id with
    halted := (recordOf turns id).halted + if t.IsHaltOf id then 1 else 0 }

theorem recordOf_concat (hOnce : t.PutsOut id → (recordOf turns id).eliminated = none) :
    recordOf (turns ++ [t]) id =
      if t.PutsOut id then { recordWithHalt turns t id with eliminated := some t.before.turn }
      else recordWithHalt turns t id := by
  have hHalted : UInt32.ofNat (haltsOf (turns ++ [t]) id) =
      (recordOf turns id).halted + if t.IsHaltOf id then 1 else 0 := by
    rw [haltsOf_concat, UInt32.ofNat_add, recordOf]
    split <;> rfl
  rw [recordOf, hHalted, List.find?_append, Option.map_or, List.find?_singleton]
  by_cases hOut : t.PutsOut id
  · have hNone : (turns.find? fun t => t.PutsOut id) = none :=
      Option.map_eq_none_iff.mp (hOnce hOut)
    simp [hOut, hNone, recordWithHalt]
  · simp [hOut, recordWithHalt, recordOf]

/-- The books of a match say what its turns have brought about. -/
structure Booked (turns : List PlayedTurn) (m : Match) : Prop where
  out_iff : ∀ p ∈ m.game.players, p.alive = false ↔ ∃ t ∈ turns, t.PutsOut p.id
  records_eq : m.records = m.game.players.map fun p => recordOf turns p.id
  eliminations_eq : m.eliminations = turns.flatMap (·.out)
  halts_lt : m.overflowed = false → ∀ p ∈ m.game.players, haltsOf turns p.id < UInt32.size

theorem records_recordFlow {ids : List PlayerId} (hIds : ids.Nodup) {place : Nat}
    (hPlace : ids[place]? = some id) (f : PlayerId → Record) (hRecords : m.records = ids.map f)
    (flow : Flow) : (m.recordFlow place flow).records = ids.map fun i =>
      { f i with halted := (f i).halted + if id = i ∧ flow = .halt then 1 else 0 } := by
  cases flow with
  | halt =>
    rw [recordFlow, hRecords]
    refine (modify_map_of_nodup hIds f _ hPlace).trans (List.map_congr_left fun i _ => ?_)
    by_cases hSame : i = id
    · subst hSame
      simp
    · simp [hSame, Ne.symm hSame]
  | proceed =>
    rw [recordFlow, hRecords]
    simp

section

variable {f : PlayerId → Record} {Q : PlayerId → Prop} [DecidablePred Q]

theorem records_recordEliminations (hRecords : m.records = m.game.players.map fun p => f p.id)
    (hQ : ∀ p ∈ m.game.players, isNewlyOut p (f p.id) = true ↔ Q p.id) (round : Int) :
    (m.recordEliminations round).records = m.game.players.map fun p =>
      if Q p.id then { f p.id with eliminated := some round } else f p.id := by
  rw [recordEliminations, hRecords, zip_map_self, List.map_map]
  refine List.map_congr_left fun p hp => ?_
  simp only [Function.comp_apply, hQ p hp]

theorem eliminations_recordEliminations
    (hRecords : m.records = m.game.players.map fun p => f p.id)
    (hQ : ∀ p ∈ m.game.players, isNewlyOut p (f p.id) = true ↔ Q p.id) (round : Int) :
    (m.recordEliminations round).eliminations =
      m.eliminations ++ (m.game.players.map (·.id)).filter Q := by
  have hFilter : (m.game.players.filter fun p => isNewlyOut p (f p.id)) =
      m.game.players.filter fun p => Q p.id :=
    List.filter_congr fun p hp => by rw [Bool.eq_iff_iff, hQ p hp, decide_eq_true_eq]
  rw [recordEliminations, hRecords, zip_map_self]
  simp only [List.filter_map, List.map_map, Function.comp_def]
  rw [hFilter]

end

theorem InOrder.getElem?_actorPlace (h : m.InOrder) :
    (m.game.players.map (·.id))[m.actorPlace]? = some m.game.actor.id := by
  rw [h.actorPlace_eq, List.getElem?_map, m.game.getElem?_current]
  rfl

theorem Booked.isNewlyOut_iff (h : Booked turns m) (hOrder : m.InOrder) {plan : Plan}
    (hPlay : m.game.playTurn plan = .ok (flow, game)) {p : Player} (hp : p ∈ game.players)
    {r : Record} (hr : r.eliminated = (recordOf turns p.id).eliminated) :
    isNewlyOut p r = true ↔ PlayedTurn.PutsOut ⟨m.game, flow, game⟩ p.id := by
  obtain ⟨q, hq, hId, _⟩ := (Game.KeepsOut.playTurn hPlay).exists_before hp
  have hNever : (∀ t ∈ turns, ¬ t.PutsOut p.id) ↔ q.alive = true := by
    have hOut := h.out_iff q hq
    rw [hId] at hOut
    rw [← Bool.not_eq_false, hOut]
    simp
  rw [isNewlyOut, hr, Bool.and_eq_true, isNone_eliminated_recordOf, hNever,
    PlayedTurn.putsOut_iff hOrder.game (hOrder.game.playTurn hPlay) hq hp hId, and_comm]
  simp

theorem Booked.getElem?_records (h : Booked turns m) (hOrder : m.InOrder) :
    m.records[m.actorPlace]? = some (recordOf turns m.game.actor.id) := by
  rw [h.records_eq, hOrder.actorPlace_eq, List.getElem?_map, m.game.getElem?_current]
  rfl

/-- A count that has been raised still fits, unless the program stops. -/
theorem Booked.halts_lt_of_recordFlow (h : Booked turns m) (hOrder : m.InOrder)
    (hRuns : ({ m with game := game }.recordFlow m.actorPlace flow).overflowed = false)
    {p : Player} (hp : p ∈ m.game.players) :
    haltsOf (turns ++ [⟨m.game, flow, game⟩]) p.id < UInt32.size := by
  rw [haltsOf_concat]
  cases flow with
  | proceed => simpa [PlayedTurn.IsHaltOf] using h.halts_lt hRuns p hp
  | halt =>
    rw [recordFlow, Bool.or_eq_false_iff] at hRuns
    have hBefore := h.halts_lt hRuns.1 p hp
    by_cases hId : m.game.actor.id = p.id
    · have hRoom : (recordOf turns p.id).isFull = false := by
        simpa [h.getElem?_records hOrder, hId] using hRuns.2
      have hCount : (recordOf turns p.id).halted.toNat = haltsOf turns p.id :=
        UInt32.toNat_ofNat_of_lt' hBefore
      rw [Record.isFull, hCount, beq_eq_false_iff_ne] at hRoom
      rw [if_pos ⟨hId, rfl⟩]
      omega
    · rw [if_neg (fun hHalt => hId hHalt.1)]
      exact hBefore

theorem Booked.playTurn (h : Booked turns m) (hOrder : m.InOrder)
    (hContestant : m.contestants[m.actorPlace]? = some contestant)
    (hPlay : m.game.playTurn contestant.plan = .ok (flow, game)) :
    Booked (turns ++ [{ before := m.game, flow := flow, after := game }]) m.playTurn := by
  have hKeeps := Game.KeepsOut.playTurn hPlay
  have hNew := game_playTurn_eq hContestant hPlay
  rw [playTurn_eq hContestant hPlay] at hNew ⊢
  have hHalts (hRuns : ({ m with game := game }.recordFlow m.actorPlace flow).overflowed = false)
      {p : Player} (hp : p ∈ m.game.players) := h.halts_lt_of_recordFlow hOrder hRuns hp
  generalize hCounted : { m with game := game }.recordFlow m.actorPlace flow = counted at hNew hHalts ⊢
  have hGame : counted.game = game := hNew
  have hEliminations : counted.eliminations = m.eliminations := by
    rw [← hCounted]
    cases flow <;> rfl
  have hBefore : m.records = (m.game.players.map (·.id)).map (recordOf turns) := by
    rw [h.records_eq, List.map_map]
    rfl
  have hRecords : counted.records = counted.game.players.map fun p =>
      recordWithHalt turns ⟨m.game, flow, game⟩ p.id := by
    rw [hGame, ← hCounted, records_recordFlow (m := { m with game := game })
      hOrder.game.ids_nodup hOrder.getElem?_actorPlace (recordOf turns) hBefore,
      ← hKeeps.ids_eq, List.map_map]
    rfl
  have hNewly : ∀ p ∈ counted.game.players,
      isNewlyOut p (recordWithHalt turns ⟨m.game, flow, game⟩ p.id) = true ↔
        PlayedTurn.PutsOut ⟨m.game, flow, game⟩ p.id := by
    rw [hGame]
    exact fun p hp => h.isNewlyOut_iff hOrder hPlay hp rfl
  constructor
  · rw [hNew]
    intro p hp
    obtain ⟨q, hq, hId, hOut⟩ := hKeeps.exists_before hp
    have hBefore := h.out_iff q hq
    rw [hId] at hBefore
    have hTurn := PlayedTurn.putsOut_iff (t := ⟨m.game, flow, game⟩) hOrder.game
      (hOrder.game.playTurn hPlay) hq hp hId
    simp only [List.mem_append, List.mem_singleton, or_and_right, exists_or, exists_eq_left,
      ← hBefore, hTurn]
    cases hAlive : q.alive with
    | true => simp
    | false => simp [hOut hAlive]
  · rw [records_recordEliminations hRecords hNewly, hNew, hGame]
    refine List.map_congr_left fun p hp => ?_
    rw [recordOf_concat]
    intro hOut
    have hNone := (hNewly p (by rwa [hGame])).mpr hOut
    rw [isNewlyOut, Bool.and_eq_true, Option.isNone_iff_eq_none] at hNone
    exact hNone.2
  · rw [eliminations_recordEliminations hRecords hNewly, hEliminations, h.eliminations_eq, hGame]
    simp [PlayedTurn.out]
  · intro hRuns p hp
    rw [hNew] at hp
    obtain ⟨q, hq, hId, _⟩ := hKeeps.exists_before hp
    rw [← hId]
    exact hHalts (by simpa [recordEliminations] using hRuns) hq

theorem booked_start {contestants : List Contestant} {settings : Settings} {seed : UInt64}
    (h : start contestants settings seed = .ok m) : Booked [] m := by
  obtain ⟨g, hCreate, rfl⟩ := start_eq_ok_iff.mp h
  obtain ⟨_, hLength, _, _, hAlive⟩ := Game.orderly_create hCreate
  rw [List.length_map] at hLength
  refine ⟨fun p hp => by simp [hAlive p hp], ?_, rfl, fun _ _ _ => by simp [haltsOf, UInt32.size]⟩
  change contestants.map (Function.const _ ({} : Record)) =
    g.players.map (Function.const _ ({} : Record))
  rw [List.map_const, List.map_const, hLength]

theorem Played.booked (h : Played maxTurns first turns m) (hFirst : first.InOrder)
    (hBooked : Booked [] first) : Booked turns m := by
  induction h with
  | nil => exact hBooked
  | snoc hPlayed _ hContestant hPlay ih =>
    exact ih.playTurn (hPlayed.inOrder hFirst).1 hContestant hPlay
  | stop _ _ hContestant hStop ih =>
    rw [playTurn_eq_of_stopped hContestant hStop]
    exact { ih with halts_lt := nofun }

theorem Played.round_le (h : Played maxTurns first turns m) (hFirst : first.InOrder) :
    ∀ t ∈ turns, 1 ≤ t.before.turn ∧ t.before.turn ≤ m.game.turn ∧ t.before.turn ≤ maxTurns := by
  induction h with
  | nil => simp
  | snoc hPlayed hOpen hContestant hPlay ih =>
    have hGame := (hPlayed.inOrder hFirst).1.game
    have hNext := (hGame.turn_playTurn hPlay).1
    rw [game_playTurn_eq hContestant hPlay]
    intro t ht
    rcases List.mem_append.mp ht with ht | ht
    · obtain ⟨hPos, hNow, hLast⟩ := ih t ht
      exact ⟨hPos, Int.le_trans hNow hNext, hLast⟩
    · obtain rfl := List.mem_singleton.mp ht
      exact ⟨hGame.turn_pos, hNext, (isFinished_eq_false_iff.mp hOpen).2.1⟩
  | stop _ _ hContestant hStop ih =>
    rw [playTurn_eq_of_stopped hContestant hStop]
    exact ih

theorem Played.ids_eq (h : Played maxTurns first turns m) :
    ∀ t ∈ turns, t.after.players.map (·.id) = m.game.players.map (·.id) := by
  induction h with
  | nil => simp
  | snoc _ _ hContestant hPlay ih =>
    rw [game_playTurn_eq hContestant hPlay]
    intro t ht
    rcases List.mem_append.mp ht with ht | ht
    · rw [ih t ht, (Game.KeepsOut.playTurn hPlay).ids_eq]
    · rw [List.mem_singleton.mp ht]
  | stop _ _ hContestant hStop ih =>
    rw [playTurn_eq_of_stopped hContestant hStop]
    exact ih

theorem Played.apart (h : Played maxTurns first turns m) (hFirst : first.InOrder)
    (hBooked : Booked [] first) : turns.Pairwise PlayedTurn.Apart := by
  induction h with
  | nil => exact .nil
  | snoc hPlayed _ _ _ ih =>
    rw [List.pairwise_append]
    refine ⟨ih, List.pairwise_singleton _ _, ?_⟩
    rintro t ht _ hLast id hOut ⟨⟨p, hp, rfl, hAlive⟩, -⟩
    obtain rfl := List.mem_singleton.mp hLast
    have hGone := ((hPlayed.booked hFirst hBooked).out_iff p hp).mpr ⟨t, ht, hOut⟩
    rw [hGone] at hAlive
    cases hAlive
  | stop _ _ _ _ ih => exact ih

theorem Played.rounds_sorted (h : Played maxTurns first turns m) (hFirst : first.InOrder) :
    turns.Pairwise fun t t' => t.before.turn ≤ t'.before.turn := by
  induction h with
  | nil => exact .nil
  | snoc hPlayed _ _ _ ih =>
    rw [List.pairwise_append]
    refine ⟨ih, List.pairwise_singleton _ _, ?_⟩
    intro t ht _ hLast
    obtain rfl := List.mem_singleton.mp hLast
    exact (hPlayed.round_le hFirst t ht).2.1
  | stop _ _ _ _ ih => exact ih

theorem length_le_of_increasing {l : List Int} {low high : Int} (hSorted : l.Pairwise (· < ·))
    (hBounds : ∀ n ∈ l, low < n ∧ n ≤ high) : (l.length : Int) ≤ max 0 (high - low) := by
  induction l generalizing low with
  | nil => simp
  | cons n l ih =>
    obtain ⟨hFirst, hSorted⟩ := List.pairwise_cons.mp hSorted
    have hRest := ih hSorted fun k hk => ⟨hFirst k hk, (hBounds k (List.mem_cons_of_mem n hk)).2⟩
    obtain ⟨hLow, hHigh⟩ := hBounds n List.mem_cons_self
    rw [List.length_cons]
    omega

/-- A player has one turn in a round, so there is one halt for each round at most. -/
theorem Played.halts_le (h : Played maxTurns first turns m) (hFirst : first.InOrder)
    (id : PlayerId) : (haltsOf turns id : Int) ≤ max 0 (min m.game.turn maxTurns) := by
  have hRounds : ((turns.filter fun t => t.IsHaltOf id).map (·.before.turn)).Pairwise (· < ·) := by
    rw [List.pairwise_map]
    refine (h.slots_sorted.1.filter _).imp_of_mem fun {t t'} ht ht' hSlots => ?_
    simp only [List.mem_filter, decide_eq_true_eq] at ht ht'
    obtain ⟨hOrderly, hLength⟩ := h.before hFirst t ht.1
    obtain ⟨hOrderly', hLength'⟩ := h.before hFirst t' ht'.1
    have hPlace : t.before.current = t'.before.current := by
      have hId := ht.2.1.trans ht'.2.1.symm
      rw [hOrderly.id_actor, hOrderly'.id_actor] at hId
      exact Nat.add_right_cancel hId
    rw [Game.slotsPassed, Game.slotsPassed, hLength, hLength', hPlace] at hSlots
    have hLess := Int.lt_of_mul_lt_mul_left (Int.lt_of_add_lt_add_right hSlots)
      (Int.natCast_nonneg _)
    omega
  have hBounds : ∀ n ∈ (turns.filter fun t => t.IsHaltOf id).map (·.before.turn),
      0 < n ∧ n ≤ min m.game.turn maxTurns := by
    intro n hn
    obtain ⟨t, ht, rfl⟩ := List.mem_map.mp hn
    obtain ⟨hPos, hNow, hLast⟩ := h.round_le hFirst t (List.mem_filter.mp ht).1
    exact ⟨hPos, Int.le_min.mpr ⟨hNow, hLast⟩⟩
  have hLength := length_le_of_increasing hRounds hBounds
  rwa [List.length_map, ← List.countP_eq_length_filter, Int.sub_zero] at hLength

theorem eliminated_recordOf_eq_some_iff (hApart : turns.Pairwise PlayedTurn.Apart) {round : Int} :
    (recordOf turns id).eliminated = some round ↔
      ∃ t ∈ turns, t.PutsOut id ∧ t.before.turn = round := by
  constructor
  · intro h
    obtain ⟨t, ht, hRound⟩ := Option.map_eq_some_iff.mp h
    exact ⟨t, List.mem_of_find?_eq_some ht, by simpa using List.find?_some ht, hRound⟩
  · rintro ⟨t, ht, hOut, rfl⟩
    obtain ⟨t', ht'⟩ : ∃ t', (turns.find? fun t => t.PutsOut id) = some t' := by
      rw [← Option.isSome_iff_exists, List.find?_isSome]
      exact ⟨t, ht, by simpa using hOut⟩
    have hOut' : t'.PutsOut id := by simpa using List.find?_some ht'
    have hSame : t' = t := by
      by_contra hNe
      exact hApart.forall (List.mem_of_find?_eq_some ht') ht hNe id hOut' hOut
    rw [recordOf, ht', hSame]
    rfl

theorem standing?_eq_some_iff {territory : Territory} {p : Player} {r : Record} {s : Standing} :
    standing? territory p r = some s ↔ ∃ deposit, territory.totalDeposit? p.id = some deposit ∧
      s = {
        id := p.id
        budget := p.budget
        regions := (territory.ownedBy p.id).length
        deposit := deposit
        halted := r.halted
        eliminated := r.eliminated } := by
  simp only [standing?, Option.bind_eq_bind, Option.bind_eq_some_iff, Option.pure_def,
    Option.some.injEq]
  exact exists_congr fun deposit => and_congr_right fun _ => eq_comm

/-- The standings are the entries of the players, if all of them have one. -/
theorem Booked.standings?_eq_some_iff (h : Booked turns m) {standings : List Standing} :
    m.standings? = some standings ↔
      (m.game.players.map fun p => standing? m.game.territory p (recordOf turns p.id)) =
        standings.map some := by
  rw [standings?, mapM_eq_some_iff, h.records_eq, zip_map_self, List.map_map]
  rfl

end Match

/-- What is said about the players agrees with the turns and with the game in which they end: the
halted turns, and who has been put out, in which round and in which order. -/
structure MatchResult.Accounts (r : MatchResult) (maxTurns : Int) (turns : List Match.PlayedTurn)
    (last : Game) : Prop where
  halted_eq : ∀ s ∈ r.standings,
    s.halted.toNat = turns.countP fun t => t.before.actor.id = s.id ∧ t.flow = .halt
  halted_le : ∀ s ∈ r.standings, (s.halted.toNat : Int) ≤ max 0 r.turnsPlayed
  eliminated_iff : ∀ s ∈ r.standings, ∀ round,
    s.eliminated = some round ↔ ∃ t ∈ turns, t.PutsOut s.id ∧ t.before.turn = round
  eliminated_le : ∀ s ∈ r.standings, ∀ round,
    s.eliminated = some round → 1 ≤ round ∧ round ≤ r.turnsPlayed
  nodup : r.eliminations.Nodup
  mem_iff_eliminated : ∀ id,
    id ∈ r.eliminations ↔ ∃ s ∈ r.standings, s.id = id ∧ s.eliminated.isSome
  mem_iff_out : ∀ id, id ∈ r.eliminations ↔ ∃ p ∈ last.players, p.id = id ∧ p.alive = false
  sorted : r.eliminations.Pairwise fun id id' => ∀ s ∈ r.standings, ∀ s' ∈ r.standings,
    s.id = id → s'.id = id' → ∀ round round', s.eliminated = some round →
      s'.eliminated = some round' → round ≤ round'
  winner_not_mem : ∀ id, r.winner = some id → id ∉ r.eliminations
  of_no_winner : r.winner = none → (∀ s ∈ r.standings, s.eliminated.isSome) ∨
    maxTurns < last.turn ∧ 2 ≤ r.standings.countP (·.eliminated.isNone)

namespace Match

variable {maxTurns : Int} {first m : Match} {turns : List PlayedTurn} {id : PlayerId}
  {seed : UInt64} {report : MatchResult}

/-- What can be read off the entry of every player can be read off the standings. -/
theorem Booked.map_standings (h : Booked turns m) (hReport : m.result maxTurns seed = .ok report)
    {α : Type} {f : Standing → α} {k : Player → α} (hEntry : ∀ p ∈ m.game.players, ∀ s,
      standing? m.game.territory p (recordOf turns p.id) = some s → f s = k p) :
    report.standings.map f = m.game.players.map k := by
  have hAll := h.standings?_eq_some_iff.mp (of_result_eq_ok hReport).2.1
  apply List.ext_getElem?
  intro i
  have hHere := congrArg (·[i]?) hAll
  simp only [List.getElem?_map] at hHere ⊢
  cases hp : m.game.players[i]? with
  | none =>
    rw [hp] at hHere
    rw [Option.map_eq_none_iff.mp hHere.symm]
    rfl
  | some p =>
    rw [hp] at hHere
    obtain ⟨s, hs, hSome⟩ := Option.map_eq_some_iff.mp hHere.symm
    rw [hs]
    exact congrArg some (hEntry p (List.mem_of_getElem? hp) s hSome.symm)

theorem Booked.map_standings_record (h : Booked turns m)
    (hReport : m.result maxTurns seed = .ok report) :
    (report.standings.map fun s => (s.id, s.halted, s.eliminated)) = m.game.players.map fun p =>
      (p.id, (recordOf turns p.id).halted, (recordOf turns p.id).eliminated) := by
  apply h.map_standings hReport
  intro p _ s hs
  obtain ⟨_, _, rfl⟩ := standing?_eq_some_iff.mp hs
  rfl

theorem Booked.map_ids (h : Booked turns m) (hReport : m.result maxTurns seed = .ok report) :
    report.standings.map (·.id) = m.game.players.map (·.id) := by
  have hIds := congrArg (List.map (·.1)) (h.map_standings_record hReport)
  rwa [List.map_map, List.map_map] at hIds

theorem Booked.exists_standing? (h : Booked turns m) (hReport : m.result maxTurns seed = .ok report)
    {s : Standing} (hs : s ∈ report.standings) :
    ∃ p ∈ m.game.players, standing? m.game.territory p (recordOf turns p.id) = some s := by
  have hEntry := List.mem_map_of_mem (f := some) hs
  rw [← h.standings?_eq_some_iff.mp (of_result_eq_ok hReport).2.1] at hEntry
  exact List.mem_map.mp hEntry

theorem Booked.mem_standings (h : Booked turns m) (hReport : m.result maxTurns seed = .ok report)
    {s : Standing} (hs : s ∈ report.standings) : (∃ p ∈ m.game.players, p.id = s.id) ∧
      s.halted.toNat = haltsOf turns s.id ∧
      s.eliminated = (recordOf turns s.id).eliminated := by
  obtain ⟨p, hp, hSome⟩ := h.exists_standing? hReport hs
  obtain ⟨_, _, rfl⟩ := standing?_eq_some_iff.mp hSome
  refine ⟨⟨p, hp, rfl⟩, ?_, rfl⟩
  exact UInt32.toNat_ofNat_of_lt' (h.halts_lt (of_result_eq_ok hReport).1 p hp)

theorem Booked.mem_eliminations_iff (h : Booked turns m) :
    id ∈ m.eliminations ↔ ∃ t ∈ turns, t.PutsOut id := by
  rw [h.eliminations_eq, List.mem_flatMap]
  simp only [PlayedTurn.mem_out_iff]

theorem Played.exists_player (h : Played maxTurns first turns m) {t : PlayedTurn} (ht : t ∈ turns)
    (hOut : t.PutsOut id) : ∃ p ∈ m.game.players, p.id = id := by
  obtain ⟨p, hp, hId, _⟩ := hOut.2
  have hMem : id ∈ t.after.players.map (·.id) := List.mem_map.mpr ⟨p, hp, hId⟩
  rw [h.ids_eq t ht] at hMem
  exact List.mem_map.mp hMem

theorem Played.nodup_eliminations (h : Played maxTurns first turns m) (hFirst : first.InOrder)
    (hBooked : Booked [] first) : m.eliminations.Nodup := by
  rw [(h.booked hFirst hBooked).eliminations_eq, List.nodup_flatMap]
  constructor
  · intro t ht
    apply List.Nodup.filter
    rw [h.ids_eq t ht]
    exact (h.inOrder hFirst).1.game.ids_nodup
  · refine (h.apart hFirst hBooked).imp fun hApart id hOut hOut' => ?_
    exact hApart id (PlayedTurn.mem_out_iff.mp hOut) (PlayedTurn.mem_out_iff.mp hOut')

theorem Played.sorted_eliminations (h : Played maxTurns first turns m) (hFirst : first.InOrder)
    (hBooked : Booked [] first) : m.eliminations.Pairwise fun id id' =>
      ∀ round round', (recordOf turns id).eliminated = some round →
        (recordOf turns id').eliminated = some round' → round ≤ round' := by
  have hRound : ∀ t ∈ turns, ∀ id ∈ t.out, ∀ round, (recordOf turns id).eliminated = some round →
      t.before.turn = round := by
    intro t ht id hOut round hEliminated
    have hHere := (eliminated_recordOf_eq_some_iff (h.apart hFirst hBooked)).mpr
      ⟨t, ht, PlayedTurn.mem_out_iff.mp hOut, rfl⟩
    exact Option.some.inj (hHere.symm.trans hEliminated)
  rw [(h.booked hFirst hBooked).eliminations_eq, List.pairwise_flatMap]
  constructor
  · intro t ht
    refine List.pairwise_of_forall_mem_list fun id hId id' hId' round round' h h' => ?_
    rw [← hRound t ht id hId round h, ← hRound t ht id' hId' round' h']
  · refine (h.rounds_sorted hFirst).imp_of_mem fun ht ht' hLe id hId id' hId' round round' h h' => ?_
    rw [← hRound _ ht id hId round h, ← hRound _ ht' id' hId' round' h']
    exact hLe

/-- A match without a winner has nobody left, or two at least and no more rounds. -/
theorem Played.of_no_winner (h : Played maxTurns first turns m) (hFirst : first.InOrder)
    (hBooked : Booked [] first) (hFinished : m.isFinished maxTurns = true)
    (hReport : m.result maxTurns seed = .ok report) (hNone : m.game.winner = none) :
    (∀ s ∈ report.standings, s.eliminated.isSome) ∨
      maxTurns < m.game.turn ∧ 2 ≤ report.standings.countP (·.eliminated.isNone) := by
  have hBooks := h.booked hFirst hBooked
  have hGame := (h.inOrder hFirst).1.game
  have hNobody : ∀ p ∈ m.game.players,
      p.alive = true ↔ (recordOf turns p.id).eliminated.isNone = true := by
    intro p hp
    rw [← Bool.not_eq_false, hBooks.out_iff p hp, isNone_eliminated_recordOf]
    simp
  cases hEnded : m.game.ended with
  | true =>
    refine .inl fun s hs => ?_
    obtain ⟨⟨p, hp, hId⟩, _, hEliminated⟩ := hBooks.mem_standings hReport hs
    rw [hEliminated, ← hId]
    exact isSome_eliminated_recordOf.mpr
      ((hBooks.out_iff p hp).mp (hGame.all_out hEnded hNone p hp))
  | false =>
    have hRuns := (of_result_eq_ok hReport).1
    refine .inr ⟨by simpa [isFinished, hEnded, hRuns] using hFinished, ?_⟩
    have hSame : report.standings.countP (·.eliminated.isNone) =
        m.game.players.countP fun p => (recordOf turns p.id).eliminated.isNone := by
      have hEntries := congrArg (List.countP fun e => e.2.2.isNone)
        (hBooks.map_standings_record hReport)
      rwa [List.countP_map, List.countP_map] at hEntries
    rw [hSame, ← List.countP_congr hNobody]
    exact hGame.two_alive hEnded

theorem Played.accounts (h : Played maxTurns first turns m) (hFirst : first.InOrder)
    (hBooked : Booked [] first) (hFinished : m.isFinished maxTurns = true)
    (hReport : m.result maxTurns seed = .ok report) : report.Accounts maxTurns turns m.game where
  halted_eq s hs := ((h.booked hFirst hBooked).mem_standings hReport hs).2.1
  halted_le s hs := by
    rw [((h.booked hFirst hBooked).mem_standings hReport hs).2.1,
      (of_result_eq_ok hReport).2.2.2.1]
    exact h.halts_le hFirst s.id
  eliminated_iff s hs round := by
    rw [((h.booked hFirst hBooked).mem_standings hReport hs).2.2]
    exact eliminated_recordOf_eq_some_iff (h.apart hFirst hBooked)
  eliminated_le s hs round hRound := by
    rw [((h.booked hFirst hBooked).mem_standings hReport hs).2.2,
      eliminated_recordOf_eq_some_iff (h.apart hFirst hBooked)] at hRound
    obtain ⟨t, ht, _, rfl⟩ := hRound
    obtain ⟨hPos, hNow, hLast⟩ := h.round_le hFirst t ht
    rw [(of_result_eq_ok hReport).2.2.2.1]
    exact ⟨hPos, Int.le_min.mpr ⟨hNow, hLast⟩⟩
  nodup := by
    rw [(of_result_eq_ok hReport).2.2.2.2]
    exact h.nodup_eliminations hFirst hBooked
  mem_iff_eliminated id := by
    have hBooks := h.booked hFirst hBooked
    rw [(of_result_eq_ok hReport).2.2.2.2, hBooks.mem_eliminations_iff]
    constructor
    · rintro ⟨t, ht, hOut⟩
      obtain ⟨p, hp, rfl⟩ := h.exists_player ht hOut
      have hId : p.id ∈ report.standings.map (·.id) := by
        rw [hBooks.map_ids hReport]
        exact List.mem_map_of_mem hp
      obtain ⟨s, hs, hId⟩ := List.mem_map.mp hId
      refine ⟨s, hs, hId, ?_⟩
      rw [(hBooks.mem_standings hReport hs).2.2, hId]
      exact isSome_eliminated_recordOf.mpr ⟨t, ht, hOut⟩
    · rintro ⟨s, hs, rfl, hSome⟩
      rw [(hBooks.mem_standings hReport hs).2.2] at hSome
      exact isSome_eliminated_recordOf.mp hSome
  mem_iff_out id := by
    have hBooks := h.booked hFirst hBooked
    rw [(of_result_eq_ok hReport).2.2.2.2, hBooks.mem_eliminations_iff]
    constructor
    · rintro ⟨t, ht, hOut⟩
      obtain ⟨p, hp, rfl⟩ := h.exists_player ht hOut
      exact ⟨p, hp, rfl, (hBooks.out_iff p hp).mpr ⟨t, ht, hOut⟩⟩
    · rintro ⟨p, hp, rfl, hOut⟩
      exact (hBooks.out_iff p hp).mp hOut
  sorted := by
    have hBooks := h.booked hFirst hBooked
    rw [(of_result_eq_ok hReport).2.2.2.2]
    refine (h.sorted_eliminations hFirst hBooked).imp ?_
    rintro id id' hSorted s hs s' hs' rfl rfl
    rw [(hBooks.mem_standings hReport hs).2.2, (hBooks.mem_standings hReport hs').2.2]
    exact hSorted
  winner_not_mem id hWinner hMem := by
    have hBooks := h.booked hFirst hBooked
    rw [(of_result_eq_ok hReport).2.2.2.2, hBooks.mem_eliminations_iff] at hMem
    rw [(of_result_eq_ok hReport).2.2.1] at hWinner
    obtain ⟨_, p, hp, rfl, hAlive⟩ := (h.inOrder hFirst).1.game.winner_alive id hWinner
    rw [(hBooks.out_iff p hp).mpr hMem] at hAlive
    cases hAlive
  of_no_winner hNone := by
    rw [(of_result_eq_ok hReport).2.2.1] at hNone
    exact h.of_no_winner hFirst hBooked hFinished hReport hNone

/-- A match in which the plan of a player has ended early too often to be counted has no report. -/
theorem Booked.result_eq_overflow (h : Booked turns m) {p : Player} (hp : p ∈ m.game.players)
    (hMany : UInt32.size ≤ haltsOf turns p.id) (maxTurns : Int) (seed : UInt64) :
    m.result maxTurns seed = .error .overflow := by
  rcases result_cases m maxTurns seed with ⟨report, hReport⟩ | hStopped
  · have hFits := h.halts_lt (of_result_eq_ok hReport).1 p hp
    omega
  · exact hStopped

/-- Every report comes from a match that has been played to its end. It has one entry for each
contestant, with the ids from 1 on, and agrees with the turns and with the last state of the
game. Its counts of halts are exact, although they are words of 32 bits: the program stops before one
of them runs over, and then there is no report. -/
theorem report_agrees_with_game {contestants : List Contestant} {settings : Settings}
    {maxTurns : Int} {seed : UInt64} {report : MatchResult}
    (h : playMatch contestants settings maxTurns seed = .ok report) : ∃ first turns last,
      start contestants settings seed = .ok first ∧ Played maxTurns first turns last ∧
      last.isFinished maxTurns = true ∧ last.result maxTurns seed = .ok report ∧
      report.standings.map (·.id) = List.range' 1 contestants.length ∧
      report.Accounts maxTurns turns last.game := by
  rw [playMatch] at h
  cases hStart : start contestants settings seed with
  | error e =>
    rw [hStart] at h
    cases h
  | ok first =>
    rw [hStart] at h
    obtain ⟨hFirst, hContestants, _, hNew⟩ := inOrder_start hStart
    obtain ⟨⟨turns, hPlayed⟩, hFinished⟩ := play_finishes maxTurns hFirst hNew
    have hBooked := booked_start hStart
    obtain ⟨hLast, hSame⟩ := hPlayed.inOrder hFirst
    refine ⟨first, turns, _, rfl, hPlayed, hFinished, h, ?_,
      hPlayed.accounts hFirst hBooked hFinished h⟩
    rw [(hPlayed.booked hFirst hBooked).map_ids h, ← hContestants, ← hSame, hLast.length_eq]
    exact hLast.game.ids_eq

def ruinousPlan : Plan where
  statements := [.act (.collect (.identifier "deposit"))]

def trio : List Contestant :=
  [{ name := "a", plan := Game.idlePlan }, { name := "b", plan := ruinousPlan },
    { name := "c", plan := Game.idlePlan }]

/-- One of three players is ruined in the first round. The other two come to the end of the second
one, and there is no winner. -/
theorem ruin_is_reported : ∃ report turns last,
    playMatch trio { rows := 3, cols := 1 } 2 7 = .ok report ∧ report.eliminations = [2] ∧
    report.winner = none ∧ report.Accounts 2 turns last ∧
    (∃ t ∈ turns, t.PutsOut 2 ∧ t.before.turn = 1) ∧
    2 < last.turn ∧ 2 ≤ report.standings.countP (·.eliminated.isNone) := by
  obtain ⟨report, hPlay, hReport⟩ := Game.exists_eq_ok_of_any
    (r := playMatch trio { rows := 3, cols := 1 } 2 7)
    (P := fun r => r.eliminations == [2] && r.winner == none &&
      (r.standings.any fun s => s.id == 2 && s.eliminated == some 1) &&
      r.standings.any (·.eliminated.isNone)) (by decide +kernel)
  simp only [Bool.and_eq_true, beq_iff_eq, List.any_eq_true] at hReport
  obtain ⟨⟨⟨hEliminations, hWinner⟩, s, hs, hId, hRound⟩, s', hs', hLeft⟩ := hReport
  obtain ⟨_, turns, last, _, _, _, _, _, hAccounts⟩ := report_agrees_with_game hPlay
  have hOut := (hAccounts.eliminated_iff s hs 1).mp hRound
  rw [hId] at hOut
  refine ⟨report, turns, last.game, hPlay, hEliminations, hWinner, hAccounts, hOut, ?_⟩
  refine (hAccounts.of_no_winner hWinner).resolve_left fun hAll => ?_
  have hGone := hAll s' hs'
  rw [Option.isNone_iff_eq_none.mp hLeft] at hGone
  cases hGone

end Match

end CityCrew
