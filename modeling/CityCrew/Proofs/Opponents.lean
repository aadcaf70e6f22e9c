import CityCrew.Proofs.Reachable

/-!
# What a turn can do to opponents

In the middle of a turn the crew stands on no opponent's region. So investing and collecting, which
do not ask whose region it is, do nothing to opponents, and the one way to touch what is theirs is
to shoot at it.
-/

namespace CityCrew

namespace Game

variable {g g' s t : Game} {p : Point} {r : Region} {q : PlayerId}

/-- The players of `s` are those of `g`, and all but the acting one have kept their ids, names,
budgets and bindings. -/
structure SparesPlayers (g s : Game) : Prop where
  length_eq : s.players.length = g.players.length
  kept : ∀ i p, i ≠ g.current → g.players[i]? = some p →
    ∃ alive, s.players[i]? = some { p with alive := alive }

theorem SparesPlayers.of_eq (h : s.players = g.players) : SparesPlayers g s where
  length_eq := by rw [h]
  kept i p _ hp := ⟨p.alive, by rw [h, hp]⟩

theorem SparesPlayers.trans (h : SparesPlayers g s) (hCurrent : s.current = g.current)
    (h' : SparesPlayers s t) : SparesPlayers g t where
  length_eq := h'.length_eq.trans h.length_eq
  kept i p hi hp := by
    obtain ⟨alive, hs⟩ := h.kept i p hi hp
    obtain ⟨alive', ht⟩ := h'.kept i { p with alive := alive } (by rwa [hCurrent]) hs
    exact ⟨alive', ht⟩

theorem SparesPlayers.modifyActor (h : SparesPlayers g s) (hCurrent : s.current = g.current)
    (f : Player → Player) : SparesPlayers g (s.modifyActor f) where
  length_eq := by
    rw [players_modifyActor, List.length_modify]
    exact h.length_eq
  kept i p hi hp := by
    obtain ⟨alive, hs⟩ := h.kept i p hi hp
    refine ⟨alive, ?_⟩
    rw [players_modifyActor, List.getElem?_modify_ne _ _ (by rw [hCurrent]; exact hi.symm), hs]

theorem SparesPlayers.modifyRegion (h : SparesPlayers g s) (p : Point) (k : Region → Region) :
    SparesPlayers g (s.modifyRegion p k) :=
  ⟨h.length_eq, h.kept⟩

theorem SparesPlayers.capture (h : SparesPlayers g s) (winner loser : PlayerId) :
    SparesPlayers g (s.capture winner loser) where
  length_eq := by
    change (s.players.modify _ _).length = _
    rw [List.length_modify]
    exact h.length_eq
  kept i p hi hp := by
    obtain ⟨alive, hs⟩ := h.kept i p hi hp
    change ∃ alive, (s.players.modify _ _)[i]? = _
    rw [List.getElem?_modify, hs]
    split
    · exact ⟨false, rfl⟩
    · exact ⟨alive, rfl⟩

theorem CallEffect.spares {event : Event} {ok : Bool} (h : CallEffect g event ok g') :
    SparesPlayers g g' := by
  have hSelf : SparesPlayers g g := .of_eq rfl
  cases h with
  | nothing => exact hSelf
  | drawn => exact .of_eq rfl
  | assigned name value => exact hSelf.modifyActor rfl _
  | acted h =>
    have hCharge : ∀ n, SparesPlayers g (g.charge n) := fun n => hSelf.modifyActor rfl _
    cases h with
    | refused => exact hSelf
    | wasted => exact hCharge fee
    | moved => exact ⟨(hCharge fee).length_eq, (hCharge fee).kept⟩
    | invested => exact ((hCharge fee).modifyActor rfl _).modifyRegion _ _
    | collected => exact ((hCharge fee).modifyRegion _ _).modifyActor rfl _
    | relocated => exact (((hCharge fee).modifyActor rfl _).modifyRegion _ _).modifyRegion _ _
    | shot => exact (hCharge _).modifyRegion _ _
    | captured => exact ((hCharge _).modifyRegion _ _).capture _ _
    | stopped => exact .of_eq rfl

theorem CallEffect.id_actor {event : Event} {ok : Bool} (h : CallEffect g event ok g') :
    g'.actor.id = g.actor.id := by
  cases h with
  | nothing => rfl
  | drawn => rfl
  | assigned name value =>
    rw [actor_modifyActor]
    rfl
  | acted h =>
    cases h with
    | refused => rfl
    | wasted => exact id_actor_charge
    | moved => exact id_actor_charge
    | invested => exact id_actor_charge.trans id_actor_charge
    | collected =>
      rw [actor_modifyActor]
      exact id_actor_charge
    | relocated => exact id_actor_charge.trans id_actor_charge
    | shot => exact id_actor_charge
    | captured d amount r loser _ _ _ _ _ _ hLoser =>
      refine (congrArg Player.id (actor_modifyPlayer ?_)).trans id_actor_charge
      simpa using hLoser
    | stopped => rfl

/-- An action in the middle of a turn leaves the region of an opponent alone, or shoots at it. -/
theorem Effect.opposed_region (h : g.Underway) {a : Action Value} {ok : Bool}
    (hEffect : Effect g a ok g') (hr : g.territory.get? p = some r) (hOwner : r.owner = some q)
    (hNe : q ≠ g.actor.id) :
    g'.territory.get? p = some r ∨ ∃ d amount, a = .shoot d amount ∧ g.crew.step d = p ∧
      0 ≤ amount.toInt ∧ g'.territory.get? p = some (r.deposited (-amount.toInt)) := by
  have hCrew : g.crew ≠ p := by
    rintro rfl
    have hUnopposed := isOpposed_eq_false_iff.mp h.crew_unopposed r hr
    exact hNe (Region.isOpposedTo_eq_false_iff.mp hUnopposed q hOwner)
  have hShot : ∀ d n, (g.territory.modify (g.crew.step d) (·.deposited n)).get? p = some r ∨
      g.crew.step d = p ∧ (g.territory.modify (g.crew.step d) (·.deposited n)).get? p =
        some (r.deposited n) := by
    intro d n
    by_cases hTarget : g.crew.step d = p
    · subst hTarget
      exact .inr ⟨rfl, Territory.get?_modify_self hr⟩
    · rw [Territory.get?_modify_of_ne hTarget]
      exact .inl hr
  cases hEffect with
  | refused => exact .inl hr
  | wasted => exact .inl hr
  | moved => exact .inl hr
  | invested => exact .inl ((Territory.get?_modify_of_ne hCrew).trans hr)
  | collected => exact .inl ((Territory.get?_modify_of_ne hCrew).trans hr)
  | relocated center steps _ _ hCenter =>
    obtain ⟨c, hc, _, hcOwner⟩ := h.sound.board.regular.get?_cityCenterOf? hCenter
    have hNotCenter : center ≠ p := by
      rintro rfl
      obtain rfl := Option.some.inj (hc.symm.trans hr)
      exact hNe (Option.some.inj (hOwner.symm.trans hcOwner))
    exact .inl ((Territory.get?_modify_of_ne hCrew).trans
      ((Territory.get?_modify_of_ne hNotCenter).trans hr))
  | shot d amount _ hAmount _ =>
    rcases hShot d (-amount.toInt) with hSame | ⟨hTarget, hAfter⟩
    · exact .inl hSame
    · exact .inr ⟨d, amount, rfl, hTarget, hAmount, hAfter⟩
  | captured d amount _ _ _ hAmount =>
    rcases hShot d (-amount.toInt) with hSame | ⟨hTarget, hAfter⟩
    · exact .inl hSame
    · exact .inr ⟨d, amount, rfl, hTarget, hAmount, hAfter⟩
  | stopped => exact .inl hr

/-- Whether a region keeps its owner through an action or loses it, only an investment gives it a
new one. -/
theorem Effect.new_owner {a : Action Value} {ok : Bool} (hEffect : Effect g a ok g')
    (hr : g.territory.get? p = some r) : ∃ r', g'.territory.get? p = some r' ∧
      (r'.owner = r.owner ∨ r'.owner = none ∨
        ∃ amount, a = .invest amount ∧ g.crew = p ∧ r'.owner = some g.actor.id) := by
  have hDeposited : ∀ (r : Region) (n : Int),
      (r.deposited n).owner = r.owner ∨ (r.deposited n).owner = none := by
    intro r n
    simp only [Region.deposited]
    split
    · exact .inr rfl
    · exact .inl rfl
  have hDrained : ∀ x n, ∃ r', (g.territory.modify x (·.deposited n)).get? p = some r' ∧
      (r'.owner = r.owner ∨ r'.owner = none) := by
    intro x n
    by_cases hx : x = p
    · subst hx
      exact ⟨_, Territory.get?_modify_self hr, hDeposited r n⟩
    · exact ⟨r, (Territory.get?_modify_of_ne hx).trans hr, .inl rfl⟩
  cases hEffect with
  | refused => exact ⟨r, hr, .inl rfl⟩
  | wasted => exact ⟨r, hr, .inl rfl⟩
  | moved => exact ⟨r, hr, .inl rfl⟩
  | invested amount =>
    by_cases hCrew : g.crew = p
    · subst hCrew
      refine ⟨_, Territory.get?_modify_self hr, ?_⟩
      rcases hDeposited { r with owner := some g.actor.id } amount.toInt with hSame | hNone
      · exact .inr (.inr ⟨amount, rfl, rfl, hSame⟩)
      · exact .inr (.inl hNone)
    · exact ⟨r, (Territory.get?_modify_of_ne hCrew).trans hr, .inl rfl⟩
  | collected amount =>
    obtain ⟨r', hr', hOwner⟩ := hDrained g.crew (-amount.toInt)
    exact ⟨r', hr', hOwner.imp_right .inl⟩
  | relocated center steps _ hOwned =>
    have hCleared : ∃ r₁, (g.territory.modify center fun r => { r with cityCenter := false }).get? p =
        some r₁ ∧ r₁.owner = r.owner := by
      by_cases hCenter : center = p
      · subst hCenter
        exact ⟨_, Territory.get?_modify_self hr, rfl⟩
      · exact ⟨r, (Territory.get?_modify_of_ne hCenter).trans hr, rfl⟩
    obtain ⟨r₁, hr₁, hOwner⟩ := hCleared
    by_cases hCrew : g.crew = p
    · subst hCrew
      obtain ⟨r₂, hr₂, hOwned⟩ := Territory.isOwnedBy_eq_true_iff.mp hOwned
      obtain rfl := Option.some.inj (hr.symm.trans hr₂)
      exact ⟨_, Territory.get?_modify_self hr₁, .inl hOwned.symm⟩
    · exact ⟨r₁, (Territory.get?_modify_of_ne hCrew).trans hr₁, .inl hOwner⟩
  | shot d amount =>
    obtain ⟨r', hr', hOwner⟩ := hDrained (g.crew.step d) (-amount.toInt)
    exact ⟨r', hr', hOwner.imp_right .inl⟩
  | captured d amount =>
    obtain ⟨r', hr', hOwner⟩ := hDrained (g.crew.step d) (-amount.toInt)
    exact ⟨r', hr', hOwner.imp_right .inl⟩
  | stopped => exact ⟨r, hr, .inl rfl⟩

theorem CallEffect.opposed_region (h : g.Underway) {event : Event} {ok : Bool}
    (hEffect : CallEffect g event ok g') (hr : g.territory.get? p = some r)
    (hOwner : r.owner = some q) (hNe : q ≠ g.actor.id) :
    g'.territory.get? p = some r ∨ ∃ d amount, event = .act (.shoot d amount) ∧
      g.crew.step d = p ∧ 0 ≤ amount.toInt ∧
      g'.territory.get? p = some (r.deposited (-amount.toInt)) := by
  cases hEffect with
  | nothing => exact .inl hr
  | drawn => exact .inl hr
  | assigned => exact .inl hr
  | acted hEffect =>
    rcases hEffect.opposed_region h hr hOwner hNe with hSame | ⟨d, amount, rfl, hShot⟩
    · exact .inl hSame
    · exact .inr ⟨d, amount, rfl, hShot⟩

theorem CallEffect.new_owner {event : Event} {ok : Bool} (hEffect : CallEffect g event ok g')
    (hr : g.territory.get? p = some r) : ∃ r', g'.territory.get? p = some r' ∧
      (r'.owner = r.owner ∨ r'.owner = none ∨
        ∃ amount, event = .act (.invest amount) ∧ g.crew = p ∧ r'.owner = some g.actor.id) := by
  cases hEffect with
  | nothing => exact ⟨r, hr, .inl rfl⟩
  | drawn => exact ⟨r, hr, .inl rfl⟩
  | assigned => exact ⟨r, hr, .inl rfl⟩
  | acted hEffect =>
    obtain ⟨r', hr', hSame | hNone | ⟨amount, rfl, hInvest⟩⟩ := hEffect.new_owner hr
    · exact ⟨r', hr', .inl hSame⟩
    · exact ⟨r', hr', .inr (.inl hNone)⟩
    · exact ⟨r', hr', .inr (.inr ⟨amount, rfl, hInvest⟩)⟩

/-- The call is a shot at `p` that takes the last of the deposit of `q` there. -/
def Drains (c : Call Game) (p : Point) (q : PlayerId) : Prop :=
  (∃ d amount, c.event = .act (.shoot d amount) ∧ c.before.crew.step d = p) ∧
    (∃ r, c.before.territory.get? p = some r ∧ r.owner = some q) ∧
    ∃ r, c.after.territory.get? p = some r ∧ r.deposit = 0

def Acquires (c : Call Game) (p : Point) (a : PlayerId) : Prop :=
  (∃ amount, c.event = .act (.invest amount)) ∧ c.before.crew = p ∧
    (∃ r, c.before.territory.get? p = some r ∧ r.owner = none) ∧
    ∃ r, c.after.territory.get? p = some r ∧ r.owner = some a

/-- A shot among the calls has taken the region at `p` from `q`, and now it is nobody's, or an
investment among them has given it to `a`. -/
def Lost (cs : List (Call Game)) (p : Point) (q a : PlayerId) (r : Region) : Prop :=
  (∃ c ∈ cs, Drains c p q) ∧ (r.owner = none ∨ r.owner = some a ∧ ∃ c ∈ cs, Acquires c p a)

variable {cs : List (Call Game)}

theorem Lost.cons {a : PlayerId} (h : Lost cs p q a r) (c : Call Game) : Lost (c :: cs) p q a r := by
  obtain ⟨⟨shot, hShot, hDrains⟩, hOwner⟩ := h
  refine ⟨⟨shot, List.mem_cons_of_mem _ hShot, hDrains⟩, ?_⟩
  rcases hOwner with hNone | ⟨hMine, investment, hInvestment, hAcquires⟩
  · exact .inl hNone
  · exact .inr ⟨hMine, investment, List.mem_cons_of_mem _ hInvestment, hAcquires⟩

/-- A region that nobody owns, or the acting player, comes into nobody else's hands. -/
theorem fate_of_unopposed (hLinked : Linked s cs t) (hr : s.territory.get? p = some r)
    (hOwner : r.owner = none ∨ r.owner = some s.actor.id) : ∃ r', t.territory.get? p = some r' ∧
      (r'.owner = none ∨ r'.owner = some s.actor.id ∧
        (r.owner = some s.actor.id ∨ ∃ c ∈ cs, Acquires c p s.actor.id)) := by
  induction hLinked generalizing r with
  | nil s => exact ⟨r, hr, hOwner.imp_right fun h => ⟨h, .inl h⟩⟩
  | @cons event s t cs _ ih =>
    have hEffect := exec_effect s event
    have hId := hEffect.id_actor
    obtain ⟨r₁, hr₁, hNew⟩ := hEffect.new_owner hr
    rw [hId] at ih
    have hOwner₁ : r₁.owner = none ∨ r₁.owner = some s.actor.id := by
      rcases hNew with hSame | hNone | ⟨_, _, _, hMine⟩
      · rwa [hSame]
      · exact .inl hNone
      · exact .inr hMine
    obtain ⟨r', hr', hNone | ⟨hMine, hHow⟩⟩ := ih hr₁ hOwner₁
    · exact ⟨r', hr', .inl hNone⟩
    · refine ⟨r', hr', .inr ⟨hMine, ?_⟩⟩
      rcases hOwner with hFree | hMineBefore
      · rcases hHow with hMine₁ | ⟨c, hc, hAcquires⟩
        · refine .inr ⟨_, List.mem_cons_self, ?_⟩
          rcases hNew with hSame | hNone | ⟨amount, rfl, hCrew, _⟩
          · rw [hSame, hFree] at hMine₁
            cases hMine₁
          · rw [hNone] at hMine₁
            cases hMine₁
          · exact ⟨⟨amount, rfl⟩, hCrew, ⟨r, hr, hFree⟩, r₁, hr₁, hMine₁⟩
        · exact .inr ⟨c, List.mem_cons_of_mem _ hc, hAcquires⟩
      · exact .inl hMineBefore

/-- The region of an opponent is kept, with less money in it perhaps, or it is drained by a shot. -/
theorem fate_of_opposed (hLinked : Linked s cs t) (h : s.Underway)
    (hr : s.territory.get? p = some r) (hOwner : r.owner = some q) (hNe : q ≠ s.actor.id) :
    ∃ r', t.territory.get? p = some r' ∧
      ((r'.owner = some q ∧ r'.cityCenter = r.cityCenter ∧ 1 ≤ r'.deposit ∧
          r'.deposit ≤ r.deposit) ∨
        Lost cs p q s.actor.id r') := by
  induction hLinked generalizing r with
  | nil s =>
    have hRegion := h.sound.board.region p r hr
    have hDeposit : r.deposit ≠ 0 := fun hZero => by
      rw [hRegion.owner_eq_none_iff.mpr hZero] at hOwner
      cases hOwner
    have hNonneg := hRegion.deposit_nonneg
    exact ⟨r, hr, .inl ⟨hOwner, rfl, by omega, Int.le_refl _⟩⟩
  | @cons event s t cs hRest ih =>
    have hEffect := exec_effect s event
    have hId := hEffect.id_actor
    have hUnderway := h.call hEffect
    rw [hId] at ih
    rcases hEffect.opposed_region h hr hOwner hNe with
      hSame | ⟨d, amount, rfl, hTarget, hAmount, hShot⟩
    · obtain ⟨r', hr', hKept | hLost⟩ := ih hUnderway hSame hOwner hNe
      · exact ⟨r', hr', .inl hKept⟩
      · exact ⟨r', hr', .inr (hLost.cons _)⟩
    · by_cases hEmpty : (r.deposited (-amount.toInt)).deposit = 0
      · have hFree := (Region.deposited_of_empty hEmpty).1
        obtain ⟨r', hr', hNone | ⟨hMine, hHow⟩⟩ := fate_of_unopposed hRest hShot (.inl hFree)
        all_goals refine ⟨r', hr', .inr ⟨⟨_, List.mem_cons_self, ⟨d, amount, rfl, hTarget⟩,
          ⟨r, hr, hOwner⟩, _, hShot, hEmpty⟩, ?_⟩⟩
        · exact .inl hNone
        · rw [hId] at hMine hHow
          rcases hHow with hNever | ⟨c, hc, hAcquires⟩
          · rw [hFree] at hNever
            cases hNever
          · exact .inr ⟨hMine, c, List.mem_cons_of_mem _ hc, hAcquires⟩
      · have hDeposit : (r.deposited (-amount.toInt)).deposit =
            max 0 (min r.capacity (r.deposit + -amount.toInt)) := Region.deposit_deposited
        have hNonneg := (h.sound.board.region p r hr).deposit_nonneg
        have hPositive : 0 < (r.deposited (-amount.toInt)).deposit := by omega
        obtain ⟨hKeptOwner, hKeptCenter⟩ := Region.deposited_of_pos hPositive
        obtain ⟨r', hr', ⟨hOwner', hCenter', hPos, hLe⟩ | hLost⟩ :=
          ih hUnderway hShot (hKeptOwner.trans hOwner) hNe
        · exact ⟨r', hr', .inl ⟨hOwner', hCenter'.trans hKeptCenter, hPos, by omega⟩⟩
        · exact ⟨r', hr', .inr (hLost.cons _)⟩

/-- The state `s` is in the middle of the turn that the player to move in `g` is taking. -/
structure ActsFor (g s : Game) : Prop where
  underway : s.Underway
  id_eq : s.actor.id = g.actor.id
  current_eq : s.current = g.current
  spares : SparesPlayers g s

theorem ActsFor.exec (h : ActsFor g s) (event : Event) : ActsFor g (event.exec s).2 := by
  have hEffect := exec_effect s event
  exact
    { underway := h.underway.call hEffect
      id_eq := hEffect.id_actor.trans h.id_eq
      current_eq := hEffect.frame.2.2.trans h.current_eq
      spares := h.spares.trans h.current_eq hEffect.spares }

theorem ActsFor.owner_crew (h : ActsFor g s) (hr : s.territory.get? s.crew = some r)
    (hOwner : r.owner = some q) : q = g.actor.id := by
  have hUnopposed := isOpposed_eq_false_iff.mp h.underway.crew_unopposed r hr
  exact (Region.isOpposedTo_eq_false_iff.mp hUnopposed q hOwner).trans h.id_eq

theorem Reachable.beginTurn_actsFor (h : Reachable g) (hEnded : g.ended = false) :
    ActsFor g (beginTurn.run g).2 := by
  have hUnderway : (beginTurn.run g).2.Underway := by
    rcases h.ready_or_underway with hReady | hUnderway
    · exact (hReady.beginTurn hEnded).2
    · exact hUnderway.beginTurn
  obtain ⟨crew, hCrew⟩ := snd_run_beginTurn g
  rw [hCrew] at hUnderway ⊢
  exact ⟨hUnderway, rfl, rfl, .of_eq rfl⟩

/-- The games that a run of a plan passes through, from `start` to the last one. -/
def passed (plan : Plan) (start : Game) : List Game :=
  (plan.calls start).map (·.before) ++ [(plan.run.run start).2]

/-- What is true of `start`, and kept by every call, is true of every game that a run of the plan
passes through. -/
theorem forall_passed {P : Game → Prop} {start : Game} {plan : Plan} (h : P start)
    (hStep : ∀ (event : Event) (s : Game), P s → P (event.exec s).2) :
    ∀ s ∈ passed plan start, P s := by
  obtain ⟨hLast, hCalls⟩ := (plan.linked_calls start).forall_of_step hStep h
  intro s hs
  rcases List.mem_append.mp hs with hs | hs
  · obtain ⟨c, hc, rfl⟩ := List.mem_map.mp hs
    exact (hCalls c hc).1
  · rw [List.mem_singleton.mp hs]
    exact hLast

theorem mem_passed_of_mem_calls {start : Game} {plan : Plan} {c : Call Game}
    (hc : c ∈ plan.calls start) : c.before ∈ passed plan start :=
  List.mem_append_left _ (List.mem_map_of_mem hc)

theorem last_mem_passed (plan : Plan) (start : Game) :
    (plan.run.run start).2 ∈ passed plan start :=
  List.mem_append_right _ (List.mem_singleton.mpr rfl)

/-- From the begin of a turn to the end of the plan, the crew stays off the regions of opponents,
the other players keep all they have outside the board, and what they have on the board can only be
shot at. Investing and collecting do nothing to it. -/
theorem opponents_touched_by_shots_only (h : Reachable g) (hEnded : g.ended = false) (plan : Plan) :
    let start := (beginTurn.run g).2
    (∀ s ∈ passed plan start, s.territory.Contains s.crew ∧
      (∀ r owner, s.territory.get? s.crew = some r → r.owner = some owner → owner = g.actor.id) ∧
      SparesPlayers g s) ∧
    (∀ p r q, g.territory.get? p = some r → r.owner = some q → q ≠ g.actor.id →
      ∃ r', (plan.run.run start).2.territory.get? p = some r' ∧
        ((r'.owner = some q ∧ r'.cityCenter = r.cityCenter ∧ 1 ≤ r'.deposit ∧
            r'.deposit ≤ r.deposit) ∨
          Lost (plan.calls start) p q g.actor.id r' ∧ (r'.owner = none → r'.deposit = 0))) ∧
    ∀ c ∈ plan.calls start, ∀ amount,
      c.event = .act (.invest amount) ∨ c.event = .act (.collect amount) →
      ∀ p r q, c.before.territory.get? p = some r → r.owner = some q → q ≠ g.actor.id →
        c.after.territory.get? p = some r := by
  intro start
  have hStart : ActsFor g start := h.beginTurn_actsFor hEnded
  have hPassed : ∀ s ∈ passed plan start, ActsFor g s :=
    forall_passed hStart fun event _ hs => hs.exec event
  refine ⟨?_, ?_, ?_⟩
  · intro s hs
    have hActs := hPassed s hs
    exact ⟨hActs.underway.sound.crew_mem, fun r q hr hOwner => hActs.owner_crew hr hOwner,
      hActs.spares⟩
  · intro p r q hr hOwner hNe
    have hBoard : start.territory = g.territory := by
      obtain ⟨crew, hCrew⟩ := snd_run_beginTurn g
      change (beginTurn.run g).2.territory = _
      rw [hCrew]
    obtain ⟨r', hr', hFate⟩ := fate_of_opposed (plan.linked_calls start) hStart.underway
      (by rwa [hBoard]) hOwner (by rwa [hStart.id_eq])
    rw [hStart.id_eq] at hFate
    refine ⟨r', hr', hFate.imp_right fun hLost => ⟨hLost, ?_⟩⟩
    have hLast := hPassed _ (last_mem_passed plan start)
    exact (hLast.underway.sound.board.region p r' hr').owner_eq_none_iff.mp
  · intro c hc amount hEvent p r q hr hOwner hNe
    have hActs := hPassed c.before (mem_passed_of_mem_calls hc)
    rcases (exec_effect c.before c.event).opposed_region hActs.underway hr hOwner
      (by rwa [hActs.id_eq]) with hKept | ⟨d, shot, hShoot, _⟩
    · exact hKept
    · rcases hEvent with hInvest | hCollect
      · rw [hInvest] at hShoot
        cases hShoot
      · rw [hCollect] at hShoot
        cases hShoot

/-- In a duel, the city center of the second player is lost to the shots of the first one. -/
theorem duel_center_lost_to_shots : ∃ g r, create duelSettings ["a", "b"] 7 = .ok g ∧
    g.ended = false ∧ Lost (duelPlan.calls (beginTurn.run g).2) ⟨0, 0⟩ 2 1 r := by
  obtain ⟨g, hCreate, hDuel⟩ := exists_duel_with (P := fun g => !g.ended && g.actor.id == 1 &&
    g.territory.isOwnedBy ⟨0, 0⟩ 2 &&
    !(duelPlan.run.run (beginTurn.run g).2).2.territory.isOwnedBy ⟨0, 0⟩ 2) (by decide +kernel)
  simp only [Bool.and_eq_true, Bool.not_eq_true', beq_iff_eq] at hDuel
  obtain ⟨⟨⟨hEnded, hActor⟩, hBefore⟩, hAfter⟩ := hDuel
  obtain ⟨r, hr, hOwner⟩ := Territory.isOwnedBy_eq_true_iff.mp hBefore
  have hNew : BetweenTurns g := .create rfl hCreate
  obtain ⟨_, hFates, _⟩ := opponents_touched_by_shots_only (.betweenTurns hNew) hEnded duelPlan
  obtain ⟨r', hr', ⟨hKept, _⟩ | ⟨hLost, _⟩⟩ := hFates ⟨0, 0⟩ r 2 hr hOwner (by rw [hActor]; decide)
  · rw [Territory.isOwnedBy_eq_true_iff.mpr ⟨r', hr', hKept⟩] at hAfter
    cases hAfter
  · rw [hActor] at hLost
    exact ⟨g, r', hCreate, hEnded, hLost⟩

end Game

end CityCrew
