import CityCrew.Proofs.Distance
import CityCrew.Proofs.Shots

/-!
# Moving the city center

To relocate takes the mark of a city center from one region and puts it on another. Owners and
deposits stay as they are, so nothing but the mark moves, and only that of the acting player. The
way is paid for in full or, apart from the fee, not at all.
-/

namespace CityCrew

namespace Territory

variable {t u : Territory} {p center target : Point} {id owner : PlayerId}

def HasCenter (t : Territory) (id : PlayerId) (p : Point) : Prop :=
  ∃ r, t.get? p = some r ∧ r.cityCenter = true ∧ r.owner = some id

theorem Sound.eq_of_hasCenter {capacity : Int} {ids : List PlayerId} (h : t.Sound capacity ids)
    {q : Point} (hp : t.HasCenter id p) (hq : t.HasCenter id q) : p = q := by
  obtain ⟨r, hr, hrCenter, hrOwner⟩ := hp
  obtain ⟨s, hs, hsCenter, hsOwner⟩ := hq
  exact h.center_unique p q r s hr hs hrCenter hsCenter (hrOwner.trans hsOwner.symm)

/-- Where a player has one city center at most, the search for it finds this one. -/
theorem Regular.cityCenterOf?_eq_some_iff (ht : t.Regular)
    (hUnique : ∀ p q, t.HasCenter id p → t.HasCenter id q → p = q) :
    t.cityCenterOf? id = some p ↔ t.HasCenter id p := by
  constructor
  · exact ht.get?_cityCenterOf?
  · intro hp
    obtain ⟨q, hq⟩ := Option.isSome_iff_exists.mp (ht.cityCenterOf?_isSome_iff.mpr ⟨p, hp⟩)
    rw [hq, hUnique p q hp (ht.get?_cityCenterOf? hq)]

theorem Regular.cityCenterOf?_congr (ht : t.Regular) (hu : u.Regular)
    (hUnique : ∀ p q, t.HasCenter id p → t.HasCenter id q → p = q)
    (hSame : ∀ p, u.HasCenter id p ↔ t.HasCenter id p) :
    u.cityCenterOf? id = t.cityCenterOf? id := by
  have hUnique' : ∀ p q, u.HasCenter id p → u.HasCenter id q → p = q :=
    fun p q hp hq => hUnique p q ((hSame p).mp hp) ((hSame q).mp hq)
  apply Option.ext
  intro p
  rw [hu.cityCenterOf?_eq_some_iff hUnique', ht.cityCenterOf?_eq_some_iff hUnique, hSame]

/-- The region at `center` loses the mark of a city center, and the region at `target` gets it, for
the given player. -/
def withCenterMoved (t : Territory) (center target : Point) (id : PlayerId) : Territory :=
  (t.modify center fun r => { r with cityCenter := false }).modify target (·.withCityCenter id)

theorem Regular.withCenterMoved (ht : t.Regular) : (t.withCenterMoved center target id).Regular :=
  Regular.modify (ht.modify fun _ => rfl) fun _ => rfl

theorem get?_withCenterMoved_of_ne (hCenter : p ≠ center) (hTarget : p ≠ target) :
    (t.withCenterMoved center target id).get? p = t.get? p := by
  rw [withCenterMoved, get?_modify_of_ne hTarget.symm, get?_modify_of_ne hCenter.symm]

section

variable {c r : Region} (hNe : target ≠ center) (hc : t.get? center = some c)
  (hcOwner : c.owner = some id) (hr : t.get? target = some r) (hrOwner : r.owner = some id)

include hNe hc in
theorem get?_withCenterMoved_center :
    (t.withCenterMoved center target id).get? center = some { c with cityCenter := false } := by
  rw [withCenterMoved, get?_modify_of_ne hNe, get?_modify_self hc]

include hNe hr hrOwner in
theorem get?_withCenterMoved_target :
    (t.withCenterMoved center target id).get? target = some { r with cityCenter := true } := by
  have hSame : (t.modify center fun r => { r with cityCenter := false }).get? target = some r := by
    rw [get?_modify_of_ne hNe.symm, hr]
  rw [withCenterMoved, get?_modify_self hSame, Region.withCityCenter, ← hrOwner]

include hNe hc hr hrOwner

/-- What is in a region and whose it is does not move. -/
theorem holdings_withCenterMoved (p : Point) :
    ((t.withCenterMoved center target id).get? p).map (fun r => (r.owner, r.deposit)) =
      (t.get? p).map fun r => (r.owner, r.deposit) := by
  by_cases hCenter : p = center
  · subst hCenter
    rw [get?_withCenterMoved_center hNe hc, hc]
    rfl
  by_cases hTarget : p = target
  · subst hTarget
    rw [get?_withCenterMoved_target hNe hr hrOwner, hr]
    rfl
  · rw [get?_withCenterMoved_of_ne hCenter hTarget]

include hcOwner in
theorem hasCenter_withCenterMoved_of_ne (hOther : owner ≠ id) (p : Point) :
    (t.withCenterMoved center target id).HasCenter owner p ↔ t.HasCenter owner p := by
  have hOwn : ∀ {r : Region}, r.owner = some id → r.owner ≠ some owner :=
    fun hId hSame => hOther (Option.some.inj (hSame.symm.trans hId))
  unfold HasCenter
  by_cases hCenter : p = center
  · subst hCenter
    simp [get?_withCenterMoved_center hNe hc, hc, hOwn hcOwner]
  by_cases hTarget : p = target
  · subst hTarget
    simp [get?_withCenterMoved_target hNe hr hrOwner, hr, hOwn hrOwner]
  · rw [get?_withCenterMoved_of_ne hCenter hTarget]

/-- The mark that has been moved is the only one of its owner. -/
theorem hasCenter_withCenterMoved_iff (hOnly : ∀ p, t.HasCenter id p → p = center) (p : Point) :
    (t.withCenterMoved center target id).HasCenter id p ↔ p = target := by
  unfold HasCenter at hOnly ⊢
  by_cases hCenter : p = center
  · subst hCenter
    simp [get?_withCenterMoved_center hNe hc, hNe.symm]
  by_cases hTarget : p = target
  · subst hTarget
    simp [get?_withCenterMoved_target hNe hr hrOwner, hrOwner]
  · rw [get?_withCenterMoved_of_ne hCenter hTarget]
    exact iff_of_false (fun hMark => hCenter (hOnly p hMark)) hTarget

end

end Territory

namespace Game

variable {g g' : Game} {center : Point} {cost : Int}

/-- The crew stands on a region of the acting player that is no city center, and the budget that is
left after the fee pays for the way. -/
def MayRelocate (g : Game) (center : Point) : Prop :=
  g.territory.isOwnedBy g.crew g.actor.id = true ∧ g.crew ≠ center ∧
    5 * (g.crew.hexDistance center : Int) + 10 ≤ g.actor.budget - 1

instance (g : Game) (center : Point) : Decidable (g.MayRelocate center) :=
  inferInstanceAs (Decidable (_ ∧ _))

def spend (g : Game) (cost : Int) : Game :=
  g.modifyActor fun p => { p with budget := p.budget - cost }

/-- The game `g'` is what a relocation of the city center at `center` to the crew makes of `g`. -/
structure Relocated (center : Point) (g g' : Game) : Prop where
  players_eq : g'.players = g.players.modify g.current fun p =>
    { p with budget := p.budget - (5 * (g.crew.hexDistance center : Int) + 11) }
  frame : g'.settings = g.settings ∧ g'.current = g.current ∧ g'.crew = g.crew ∧
    g'.turn = g.turn ∧ g'.winner = g.winner ∧ g'.ended = g.ended ∧ g'.random = g.random
  demoted : ∀ r, g.territory.get? center = some r →
    g'.territory.get? center = some { r with cityCenter := false }
  promoted : ∀ r, g.territory.get? g.crew = some r →
    g'.territory.get? g.crew = some { r with cityCenter := true }
  elsewhere : ∀ p, p ≠ center → p ≠ g.crew → g'.territory.get? p = g.territory.get? p
  hasCenter_iff : ∀ p, g'.territory.HasCenter g.actor.id p ↔ p = g.crew
  cityCenterOf?_eq : g'.territory.cityCenterOf? g.actor.id = some g.crew

theorem Relocated.budget_eq (h : Relocated center g g') :
    g'.actor.budget = g.actor.budget - (5 * (g.crew.hexDistance center : Int) + 11) := by
  have hActor := g'.getElem?_current
  rw [h.players_eq, h.frame.2.1, List.getElem?_modify_eq, g.getElem?_current] at hActor
  exact (congrArg Player.budget (Option.some.inj hActor)).symm

/-- To credit an amount is to spend its opposite, as long as the budget stays in its range. -/
theorem credit_eq_spend {n : Int} (hNonneg : 0 ≤ g.actor.budget + n)
    (hMax : g.actor.budget + n ≤ maxAmount) : g.modifyActor (·.credit n) = g.spend (-n) := by
  apply modifyActor_congr
  rw [Player.credit_eq, capped_eq_self (by omega)]
  congr 1
  omega

theorem charge_eq_spend (hCost : cost ≤ g.actor.budget) (hNonneg : 0 ≤ cost)
    (hBudget : g.actor.budget ≤ maxAmount) : g.charge cost = g.spend cost :=
  (credit_eq_spend (n := -cost) (by omega) (by omega)).trans (by rw [Int.neg_neg])

theorem spend_spend (n : Int) : (g.spend cost).spend n = g.spend (cost + n) := by
  have hSum : ((fun p : Player => { p with budget := p.budget - n }) ∘
      fun p : Player => { p with budget := p.budget - cost }) =
      fun p : Player => { p with budget := p.budget - (cost + n) } := by
    funext p
    simp only [Function.comp_apply, Int.sub_sub]
  simp only [spend, modifyActor, List.modify_modify_eq, hSum]

theorem budget_spend : (g.spend cost).actor.budget = g.actor.budget - cost := by
  rw [spend, actor_modifyActor]

def afterRelocation (g : Game) (center : Point) (cost : Int) : Game :=
  { g.spend cost with territory := g.territory.withCenterMoved center g.crew g.actor.id }

theorem relocate_of_center {steps : Nat} (hEnded : g.ended = false) (hFee : g.actor.CanAfford fee)
    (hCenter : g.territory.cityCenterOf? g.actor.id = some center)
    (hSteps : g.territory.distance? g.crew center = some steps) : relocate g =
      if g.territory.isOwnedBy g.crew g.actor.id = true ∧ g.crew ≠ center ∧
          (g.charge fee).actor.CanAfford (relocationCost steps) then
        (true, { (g.charge fee).charge (relocationCost steps) with
          territory := g.territory.withCenterMoved center g.crew g.actor.id })
      else (true, g.charge fee) := by
  rw [relocate, if_neg (by simp [hEnded, hFee])]
  simp only [id_actor_charge, territory_charge, crew_charge, hCenter, hSteps]
  by_cases hOwned : g.territory.isOwnedBy g.crew g.actor.id = true
  · by_cases hSame : g.crew = center
    · simp [hSame]
    · by_cases hCost : (g.charge fee).actor.CanAfford (relocationCost steps)
      · simp only [hOwned, hSame, Ne.symm hSame, hCost, not_true_eq_false, if_false, ne_eq,
          not_false_eq_true, and_self, if_true]
        rfl
      · simp [hOwned, hSame, Ne.symm hSame, hCost]
  · simp [hOwned]

theorem relocate_eq (h : g.Sound) (hEnded : g.ended = false) (hPos : 0 < g.actor.budget)
    (hBudget : g.actor.budget ≤ maxAmount)
    (hCenter : g.territory.cityCenterOf? g.actor.id = some center) : relocate g =
      if g.MayRelocate center then
        (true, g.afterRelocation center (5 * (g.crew.hexDistance center : Int) + 11))
      else (true, g.spend 1) := by
  obtain ⟨c, hc, -⟩ := h.board.regular.get?_cityCenterOf? hCenter
  have hSteps : g.territory.distance? g.crew center = some (g.crew.hexDistance center) :=
    Territory.distance?_eq_some_iff.mpr ⟨h.crew_mem, Territory.contains_of_get? hc, rfl⟩
  have hFee : g.charge fee = g.spend 1 := charge_eq_spend hPos (by decide) hBudget
  have hLeft : (g.spend 1).actor.budget = g.actor.budget - 1 := budget_spend
  rw [relocate_of_center hEnded hPos hCenter hSteps, hFee]
  by_cases hMay : g.MayRelocate center
  · obtain ⟨hOwned, hNe, hCost⟩ := hMay
    have hAffords : (g.spend 1).actor.CanAfford (relocationCost (g.crew.hexDistance center)) := by
      unfold Player.CanAfford relocationCost
      omega
    have hCharge := charge_eq_spend hAffords (by unfold relocationCost; omega) (by omega)
    have hSum : 1 + relocationCost (g.crew.hexDistance center) =
        5 * (g.crew.hexDistance center : Int) + 11 := by
      unfold relocationCost
      omega
    rw [if_pos ⟨hOwned, hNe, hAffords⟩, if_pos ⟨hOwned, hNe, hCost⟩, hCharge, spend_spend, hSum]
    rfl
  · rw [if_neg hMay, if_neg]
    rintro ⟨hOwned, hNe, hAffords⟩
    refine hMay ⟨hOwned, hNe, ?_⟩
    unfold Player.CanAfford relocationCost at hAffords
    omega

theorem relocated_afterRelocation (h : g.Sound)
    (hCenter : g.territory.cityCenterOf? g.actor.id = some center) (hMay : g.MayRelocate center) :
    Relocated center g
      (g.afterRelocation center (5 * (g.crew.hexDistance center : Int) + 11)) := by
  obtain ⟨c, hc, hFlag, hcOwner⟩ := h.board.regular.get?_cityCenterOf? hCenter
  obtain ⟨hOwned, hNe, -⟩ := hMay
  obtain ⟨r, hr, hrOwner⟩ := Territory.isOwnedBy_eq_true_iff.mp hOwned
  have hOnly : ∀ p, g.territory.HasCenter g.actor.id p → p = center :=
    fun p hp => h.board.eq_of_hasCenter hp ⟨c, hc, hFlag, hcOwner⟩
  have hMark := Territory.hasCenter_withCenterMoved_iff hNe hc hr hrOwner hOnly
  constructor
  case players_eq => rfl
  case frame => exact ⟨rfl, rfl, rfl, rfl, rfl, rfl, rfl⟩
  case demoted =>
    intro s hs
    obtain rfl := Option.some.inj (hc.symm.trans hs)
    exact Territory.get?_withCenterMoved_center hNe hc
  case promoted =>
    intro s hs
    obtain rfl := Option.some.inj (hr.symm.trans hs)
    exact Territory.get?_withCenterMoved_target hNe hr hrOwner
  case elsewhere => exact fun p => Territory.get?_withCenterMoved_of_ne
  case hasCenter_iff => exact hMark
  case cityCenterOf?_eq =>
    refine (h.board.regular.withCenterMoved.cityCenterOf?_eq_some_iff fun p q hp hq => ?_).mpr
      ((hMark _).mpr rfl)
    rw [(hMark p).mp hp, (hMark q).mp hq]

/-- Whatever comes of it, a relocation leaves owners, deposits and the other city centers alone. -/
theorem relocate_keeps {ok : Bool} (h : g.Sound) (hRelocate : relocate g = (ok, g')) :
    (∀ p, (g'.territory.get? p).map (fun r => (r.owner, r.deposit)) =
      (g.territory.get? p).map fun r => (r.owner, r.deposit)) ∧
    ∀ id, id ≠ g.actor.id → g'.territory.cityCenterOf? id = g.territory.cityCenterOf? id := by
  have hEffect := relocate_effect g
  rw [hRelocate] at hEffect
  cases hEffect with
  | refused => exact ⟨fun _ => rfl, fun _ _ => rfl⟩
  | wasted => exact ⟨fun _ => rfl, fun _ _ => rfl⟩
  | relocated center steps _ hOwned hCenter hNe _ _ =>
    obtain ⟨c, hc, -, hcOwner⟩ := h.board.regular.get?_cityCenterOf? hCenter
    obtain ⟨r, hr, hrOwner⟩ := Territory.isOwnedBy_eq_true_iff.mp hOwned
    constructor
    · exact Territory.holdings_withCenterMoved hNe.symm hc hr hrOwner
    · intro id hOther
      refine h.board.regular.cityCenterOf?_congr h.board.regular.withCenterMoved
        (fun p q => h.board.eq_of_hasCenter) ?_
      exact Territory.hasCenter_withCenterMoved_of_ne hNe.symm hc hcOwner hr hrOwner hOther

/-- A player with a city center relocates it at the price of the way, and has no other one then, or
loses the fee alone, or has nothing to pay even this. Budgets are words, as the first ones are. -/
theorem relocation_costs_its_way (h : Reachable g)
    (hSettings : g.settings.initBudget ≤ maxAmount) (hEnded : g.ended = false)
    (hCenter : g.territory.cityCenterOf? g.actor.id = some center) :
    IsLeast {n | g.territory.Walk n g.crew center} (g.crew.hexDistance center) ∧
    (g.actor.budget = 0 → relocate.run g = (false, g)) ∧
    (g.MayRelocate center →
      ∃ g', relocate.run g = (true, g') ∧ Relocated center g g') ∧
    (g.actor.budget ≠ 0 → ¬ g.MayRelocate center → relocate.run g = (true, g.spend 1)) ∧
    ∀ ok g', relocate.run g = (ok, g') →
      (∀ p, (g'.territory.get? p).map (fun r => (r.owner, r.deposit)) =
        (g.territory.get? p).map fun r => (r.owner, r.deposit)) ∧
      ∀ id, id ≠ g.actor.id → g'.territory.cityCenterOf? id = g.territory.cityCenterOf? id := by
  have hSound := h.sound
  have hBudget := h.budgetsFit hSettings _ actor_mem
  obtain ⟨c, hc, -⟩ := hSound.board.regular.get?_cityCenterOf? hCenter
  refine ⟨Territory.isLeast_walk hSound.crew_mem (Territory.contains_of_get? hc), fun hPoor => ?_,
    fun hMay => ?_, fun hSome hNot => ?_, fun ok g' => relocate_keeps hSound⟩
  · refine if_pos (.inr ?_)
    rw [Player.CanAfford, hPoor]
    decide
  · have hPos : 0 < g.actor.budget := by
      have hCost := hMay.2.2
      omega
    refine ⟨_, ?_, relocated_afterRelocation hSound hCenter hMay⟩
    exact (relocate_eq hSound hEnded hPos hBudget hCenter).trans (if_pos hMay)
  · have hNonneg := hSound.budget_nonneg _ actor_mem
    exact (relocate_eq hSound hEnded (by omega) hBudget hCenter).trans (if_neg hNot)

def settlerPlan : Plan where
  statements := [.act (.move .up), .act (.invest (.number 50))]

/-- A center that moves one region up costs 16 units, 5 of them for the way. -/
theorem settler_relocates : ∃ g start g',
    create { rows := 3, cols := 1 } ["a", "b"] 3 = .ok g ∧ beginTurn.run g = (true, start) ∧
    relocate.run (settlerPlan.run.run start).2 = (true, g') ∧
    Relocated ⟨0, 2⟩ (settlerPlan.run.run start).2 g' ∧ g'.actor.budget = 9932 := by
  obtain ⟨g, hCreate, hSettler⟩ := exists_eq_ok_of_any
    (r := create { rows := 3, cols := 1 } ["a", "b"] 3)
    (P := fun g =>
      let s := (settlerPlan.run.run (beginTurn.run g).2).2
      !g.ended && (beginTurn.run g).1 && decide (s.settings.initBudget ≤ maxAmount) && !s.ended &&
        decide (s.territory.cityCenterOf? s.actor.id = some ⟨0, 2⟩) && decide (s.crew = ⟨0, 1⟩) &&
        decide (s.MayRelocate ⟨0, 2⟩) && decide (s.actor.budget = 9948)) (by decide +kernel)
  simp only [Bool.and_eq_true, Bool.not_eq_true', decide_eq_true_eq] at hSettler
  obtain ⟨⟨⟨⟨⟨⟨⟨hEnded, hBegun⟩, hSettings⟩, hOpen⟩, hCenter⟩, hCrew⟩, hMay⟩, hBudget⟩ := hSettler
  have hStart : beginTurn.run g = (true, (beginTurn.run g).2) := Prod.ext hBegun rfl
  have hReachable : Reachable (settlerPlan.run.run (beginTurn.run g).2).2 :=
    .afterRun (.create rfl hCreate) hEnded hStart
  obtain ⟨-, -, hRelocates, -⟩ := relocation_costs_its_way hReachable hSettings hOpen hCenter
  obtain ⟨g', hRun, hRelocated⟩ := hRelocates hMay
  refine ⟨g, _, g', hCreate, hStart, hRun, hRelocated, ?_⟩
  rw [hRelocated.budget_eq, hBudget, hCrew]
  decide

end Game

end CityCrew
