import CityCrew.Game.Turn
import CityCrew.Proofs.Board
import CityCrew.Proofs.Calls

/-!
# What a call does to a game

`Game.perform_effect` sums up the five actions: an action does one of nine things. What holds of
all actions is proved by going through these, and never by opening an action. The other calls
change no more than the random stream and the identifiers of the acting player.
-/

namespace CityCrew

/-- What `f` leaves alone is the same all over the list. -/
theorem map_modify_of_eq {α β : Type} {f : α → α} {k : α → β} (l : List α) (i : Nat)
    (h : ∀ a, k (f a) = k a) : (l.modify i f).map k = l.map k := by
  apply List.ext_getElem?
  intro j
  rw [List.getElem?_map, List.getElem?_map, List.getElem?_modify]
  split
  · simp [Function.comp_def, h]
  · simp

theorem mem_modify_cases {α : Type} {f : α → α} {l : List α} {i : Nat} {a : α}
    (h : a ∈ l.modify i f) : a ∈ l ∨ ∃ b ∈ l, f b = a := by
  obtain ⟨j, hj⟩ := List.mem_iff_getElem?.mp h
  rw [List.getElem?_modify] at hj
  obtain ⟨b, hb, rfl⟩ := Option.map_eq_some_iff.mp hj
  have hMem := List.mem_of_getElem? hb
  split
  · exact .inr ⟨b, hMem, rfl⟩
  · exact .inl hMem

namespace Game

variable {g : Game} {f : Player → Player} {k : Region → Region} {p q : Point} {n : Int}

@[simp] theorem actor_modifyActor : (g.modifyActor f).actor = f g.actor := by
  simp [actor, modifyActor]

theorem actor_mem : g.actor ∈ g.players :=
  List.get_mem _ _

@[simp] theorem players_modifyActor : (g.modifyActor f).players = g.players.modify g.current f :=
  rfl

@[simp] theorem territory_modifyActor : (g.modifyActor f).territory = g.territory :=
  rfl

@[simp] theorem id_actor_charge : (g.charge n).actor.id = g.actor.id := by
  simp [charge, Player.debit, Player.credit_eq]

@[simp] theorem territory_charge : (g.charge n).territory = g.territory :=
  rfl

@[simp] theorem crew_charge : (g.charge n).crew = g.crew :=
  rfl

@[simp] theorem isOpposed_charge : (g.charge n).isOpposed p = g.isOpposed p := by
  simp [isOpposed]

theorem isOpposed_eq_false_iff : g.isOpposed p = false ↔
    ∀ r, g.territory.get? p = some r → r.isOpposedTo g.actor.id = false := by
  rw [isOpposed, Option.any_eq_false]

@[simp] theorem isConnected_charge : (g.charge n).isConnected = g.isConnected := by
  simp [isConnected]

@[simp] theorem actor_modifyRegion : (g.modifyRegion p k).actor = g.actor :=
  rfl

inductive Effect (g : Game) : Action Value → Bool → Game → Prop where
  /-- Nothing happens. -/
  | refused (a : Action Value) : Effect g a false g
  /-- Something stands in the way, and the fee is lost. -/
  | wasted (a : Action Value) (ok : Bool) : g.ended = false → Effect g a ok (g.charge fee)
  | moved (d : Direction) : g.ended = false → g.territory.Contains (g.crew.step d) →
      g.isOpposed (g.crew.step d) = false →
      Effect g (.move d) true { g.charge fee with crew := g.crew.step d }
  | invested (amount : Value) : g.ended = false → 0 < amount.toInt → g.isConnected = true →
      (g.charge fee).actor.CanAfford amount.toInt →
      Effect g (.invest amount) true (((g.charge fee).charge amount.toInt).modifyRegion g.crew
        fun r => { r with owner := some g.actor.id }.deposited amount.toInt)
  | collected (amount : Value) (r : Region) : g.ended = false → 0 ≤ amount.toInt →
      g.actor.CanAfford fee → g.crewRegion? = some r → amount.toInt ≤ r.deposit →
      Effect g (.collect amount) true
        (((g.charge fee).modifyRegion g.crew (·.deposited (-amount.toInt))).modifyActor
          (·.credit amount.toInt))
  | relocated (center : Point) (steps : Nat) : g.ended = false →
      g.territory.isOwnedBy g.crew g.actor.id = true →
      g.territory.cityCenterOf? g.actor.id = some center → center ≠ g.crew →
      g.territory.distance? g.crew center = some steps →
      (g.charge fee).actor.CanAfford (relocationCost steps) →
      Effect g .relocate true
        ((((g.charge fee).charge (relocationCost steps)).modifyRegion center
          fun r => { r with cityCenter := false }).modifyRegion g.crew
            (·.withCityCenter g.actor.id))
  | shot (d : Direction) (amount : Value) : g.ended = false → 0 ≤ amount.toInt →
      g.actor.CanAfford (capped (amount.toInt + fee)) →
      (∀ r loser, g.territory.get? (g.crew.step d) = some r → r.cityCenter = true →
        r.owner = some loser → loser ≠ g.actor.id → (r.deposited (-amount.toInt)).deposit ≠ 0) →
      Effect g (.shoot d amount) true ((g.charge (amount.toInt + fee)).modifyRegion (g.crew.step d)
        (·.deposited (-amount.toInt)))
  | captured (d : Direction) (amount : Value) (r : Region) (loser : PlayerId) : g.ended = false →
      0 ≤ amount.toInt → g.actor.CanAfford (capped (amount.toInt + fee)) →
      g.territory.get? (g.crew.step d) = some r → r.cityCenter = true → r.owner = some loser →
      loser ≠ g.actor.id → (r.deposited (-amount.toInt)).deposit = 0 →
      Effect g (.shoot d amount) true
        (((g.charge (amount.toInt + fee)).modifyRegion (g.crew.step d)
          (·.deposited (-amount.toInt))).capture g.actor.id loser)
  /-- The program stops at the cost of a shot. -/
  | stopped (d : Direction) (amount : Value) : g.ended = false → 0 ≤ amount.toInt →
      g.actor.CanAfford (capped (amount.toInt + fee)) → ¬ IsWord (amount.toInt + fee) →
      Effect g (.shoot d amount) false g.stopped

theorem moveCrew_effect (g : Game) (d : Direction) :
    Effect g (.move d) (moveCrew d g).1 (moveCrew d g).2 := by
  unfold moveCrew
  dsimp only
  split
  · exact .refused _
  · rename_i hGuard
    simp only [not_or, Bool.not_eq_true, Decidable.not_not] at hGuard
    split
    · rename_i hTarget
      simp only [territory_charge, crew_charge, isOpposed_charge, Bool.not_eq_true] at hTarget
      exact .moved d hGuard.1 hTarget.1 hTarget.2
    · exact .wasted _ _ hGuard.1

theorem invest_effect (g : Game) (amount : Value) :
    Effect g (.invest amount) (invest amount.toInt g).1 (invest amount.toInt g).2 := by
  unfold invest
  dsimp only
  split
  · exact .refused _
  · rename_i hEnded
    split
    · exact .wasted _ _ (by simpa using hEnded)
    · rename_i hGuard
      simp only [not_or, Decidable.not_not, isConnected_charge] at hGuard
      have h := Effect.invested amount (by simpa using hEnded) (by omega) hGuard.2.1 hGuard.2.2
      simpa using h

theorem collect_effect (g : Game) (amount : Value) :
    Effect g (.collect amount) (collect amount.toInt g).1 (collect amount.toInt g).2 := by
  unfold collect
  dsimp only
  split
  · exact .refused _
  · rename_i hGuard
    simp only [not_or, Bool.not_eq_true, Decidable.not_not] at hGuard
    obtain ⟨hEnded, hAmount, hFee⟩ := hGuard
    split
    · exact .wasted _ _ hEnded
    · rename_i r hr
      split
      · exact .wasted _ _ hEnded
      · exact .collected amount r hEnded (by omega) hFee hr (by omega)

theorem relocate_effect (g : Game) :
    Effect g .relocate (relocate g).1 (relocate g).2 := by
  unfold relocate
  dsimp only
  split
  · exact .refused _
  · rename_i hGuard
    simp only [not_or, Bool.not_eq_true, Decidable.not_not] at hGuard
    simp only [id_actor_charge, territory_charge, crew_charge]
    split
    · exact .wasted _ _ hGuard.1
    · rename_i hOwned
      split
      · exact .wasted _ _ hGuard.1
      · rename_i center hCenter
        split
        · exact .wasted _ _ hGuard.1
        · rename_i hNe
          split
          · exact .wasted _ _ hGuard.1
          · rename_i steps hSteps
            split
            · exact .wasted _ _ hGuard.1
            · rename_i hCost
              exact .relocated center steps hGuard.1 (by simpa using hOwned) hCenter hNe hSteps
                (by simpa using hCost)

theorem shoot_of_refused {d : Direction} {amount : Int} (hEnded : g.ended = false)
    (h : amount < 0 ∨ ¬ g.actor.CanAfford (capped (amount + fee))) :
    shoot d amount g = (false, g.charge fee) := by
  rw [shoot, if_neg (by simp [hEnded]), if_pos h]

theorem shoot_of_not_isWord {d : Direction} {amount : Int} (hEnded : g.ended = false)
    (hAmount : 0 ≤ amount) (hCost : g.actor.CanAfford (capped (amount + fee)))
    (hWord : ¬ IsWord (amount + fee)) :
    shoot d amount g = (false, g.stopped) := by
  have hGuard : ¬ (amount < 0 ∨ ¬ g.actor.CanAfford (capped (amount + fee))) := by
    rw [not_or, Decidable.not_not]
    exact ⟨by omega, hCost⟩
  rw [shoot, if_neg (by simp [hEnded]), if_neg hGuard, word?_of_not_isWord hWord]

/-- A shot that is paid for drains its target, if there is one, and may win the game with it. -/
theorem shoot_of_isWord (d : Direction) {amount : Int} (hEnded : g.ended = false)
    (hAmount : 0 ≤ amount) (hCost : g.actor.CanAfford (capped (amount + fee)))
    (hWord : IsWord (amount + fee)) :
    (shoot d amount g = (true, (g.charge (amount + fee)).modifyRegion (g.crew.step d)
        (·.deposited (-amount))) ∧
      ∀ r loser, g.territory.get? (g.crew.step d) = some r → r.cityCenter = true →
        r.owner = some loser → loser ≠ g.actor.id → (r.deposited (-amount)).deposit ≠ 0) ∨
    ∃ r loser, g.territory.get? (g.crew.step d) = some r ∧ r.cityCenter = true ∧
      r.owner = some loser ∧ loser ≠ g.actor.id ∧ (r.deposited (-amount)).deposit = 0 ∧
      shoot d amount g = (true, ((g.charge (amount + fee)).modifyRegion (g.crew.step d)
        (·.deposited (-amount))).capture g.actor.id loser) := by
  have hGuard : ¬ (amount < 0 ∨ ¬ g.actor.CanAfford (capped (amount + fee))) := by
    rw [not_or, Decidable.not_not]
    exact ⟨by omega, hCost⟩
  rw [shoot, if_neg (by simp [hEnded]), if_neg hGuard, word?_of_isWord hWord]
  simp only [id_actor_charge, territory_charge, crew_charge, actor_modifyRegion]
  split
  · rename_i hNone
    have hSame : (g.charge (amount + fee)).modifyRegion (g.crew.step d) (·.deposited (-amount)) =
        g.charge (amount + fee) := by
      rw [modifyRegion, territory_charge, Territory.modify_of_get?_eq_none hNone]
      rfl
    rw [hSame]
    exact .inl ⟨rfl, fun r _ hr => by simp [hNone] at hr⟩
  · rename_i r hr
    split
    · rename_i loser hLoser
      unfold Region.ownerLostBy at hLoser
      split at hLoser
      · rename_i hEmpty
        split
        · rename_i hOpposed
          simp only [Bool.and_eq_true, Region.isOpposedTo, hLoser, Option.any_some,
            bne_iff_ne] at hOpposed
          exact .inr ⟨r, loser, hr, hOpposed.1, hLoser, hOpposed.2, hEmpty, rfl⟩
        · rename_i hUnopposed
          refine .inl ⟨rfl, ?_⟩
          intro s owner hs hCenter hOwner hNe
          obtain rfl := Option.some.inj (hr.symm.trans hs)
          simp [hCenter, Region.isOpposedTo, hOwner, hNe] at hUnopposed
      · cases hLoser
    · rename_i hKept
      refine .inl ⟨rfl, ?_⟩
      intro s owner hs _ hOwner _ hEmpty
      obtain rfl := Option.some.inj (hr.symm.trans hs)
      simp [Region.ownerLostBy, hEmpty, hOwner] at hKept

theorem shoot_effect (g : Game) (d : Direction) (amount : Value) :
    Effect g (.shoot d amount) (shoot d amount.toInt g).1 (shoot d amount.toInt g).2 := by
  cases hEnded : g.ended with
  | true =>
    rw [shoot, if_pos hEnded]
    exact .refused _
  | false =>
    by_cases hGuard : amount.toInt < 0 ∨ ¬ g.actor.CanAfford (capped (amount.toInt + fee))
    · rw [shoot_of_refused hEnded hGuard]
      exact .wasted _ _ hEnded
    · simp only [not_or, Decidable.not_not] at hGuard
      obtain ⟨hAmount, hCost⟩ := hGuard
      have hAmount : 0 ≤ amount.toInt := by omega
      by_cases hWord : IsWord (amount.toInt + fee)
      · rcases shoot_of_isWord d hEnded hAmount hCost hWord with
          ⟨hShot, hKept⟩ | ⟨r, loser, hr, hCenter, hOwner, hNe, hEmpty, hShot⟩
        · rw [hShot]
          exact .shot d amount hEnded hAmount hCost hKept
        · rw [hShot]
          exact .captured d amount r loser hEnded hAmount hCost hr hCenter hOwner hNe hEmpty
      · rw [shoot_of_not_isWord hEnded hAmount hCost hWord]
        exact .stopped d amount hEnded hAmount hCost hWord

theorem perform_effect (g : Game) (a : Action Value) :
    Effect g a ((Host.perform a : StateM Game Bool).run g).1
      ((Host.perform a : StateM Game Bool).run g).2 := by
  cases a with
  | move d => exact moveCrew_effect g d
  | invest amount => exact invest_effect g amount
  | collect amount => exact collect_effect g amount
  | relocate => exact relocate_effect g
  | shoot d amount => exact shoot_effect g d amount

theorem perform_of_ended (h : g.ended = true) (a : Action Value) :
    (Host.perform a : StateM Game Bool).run g = (false, g) := by
  cases a with
  | move d => exact if_pos (.inl h)
  | invest amount => exact if_pos h
  | collect amount => exact if_pos (.inl h)
  | relocate => exact if_pos (.inl h)
  | shoot d amount => exact if_pos h

theorem snd_run_drawRandom : (drawRandom.run g).2 =
    { g with random := ((Random.Generator.below .double randomBound).run g.random).2 } := by
  rw [StateT.run, drawRandom]

theorem special?_random : special? "random" = some <$> drawRandom :=
  rfl

theorem snd_run_special?_of_ne {name : String} (h : name ≠ "random") :
    ((special? name).run g).2 = g := by
  unfold special?
  rw [StateT.run_bind]
  simp only [StateT.run_get, pure_bind]
  split
  case h_9 => contradiction
  all_goals rfl

theorem run_lookup_of_bound {name : String} {value : Value}
    (h : g.actor.bindings[name]? = some value) : (lookup name).run g = (value, g) := by
  unfold lookup
  rw [StateT.run_bind]
  simp only [StateT.run_get, pure_bind]
  rw [h]
  rfl

theorem snd_run_lookup_of_bound {name : String} {value : Value}
    (h : g.actor.bindings[name]? = some value) : ((lookup name).run g).2 = g := by
  rw [run_lookup_of_bound h]

theorem snd_run_lookup_of_unbound {name : String} (h : g.actor.bindings[name]? = none) :
    ((lookup name).run g).2 = ((special? name).run g).2 := by
  generalize hSpecial : special? name = special
  unfold lookup
  rw [StateT.run_bind]
  simp only [StateT.run_get, pure_bind]
  rw [h, hSpecial]
  rfl

/-- Reading an identifier changes nothing, unless it draws the next number for `random`. -/
theorem snd_run_lookup (g : Game) (name : String) : ((lookup name).run g).2 = g ∨
    (name = "random" ∧ ((lookup name).run g).2 = (drawRandom.run g).2) := by
  cases hBound : g.actor.bindings[name]? with
  | some value => exact .inl (snd_run_lookup_of_bound hBound)
  | none =>
    rw [snd_run_lookup_of_unbound hBound]
    by_cases hName : name = "random"
    · subst hName
      refine .inr ⟨rfl, ?_⟩
      rw [special?_random, StateT.run_map]
      rfl
    · exact .inl (snd_run_special?_of_ne hName)

inductive CallEffect (g : Game) : Event → Bool → Game → Prop where
  | nothing (event : Event) : (∀ a, event ≠ .act a) → CallEffect g event true g
  | drawn (random : Random.Generator) :
      CallEffect g (.lookup "random") true { g with random := random }
  | assigned (name : String) (value : Value) :
      CallEffect g (.assign name value) true (g.modifyActor (·.assign name value))
  | acted {a : Action Value} {ok : Bool} {g' : Game} : Effect g a ok g' →
      CallEffect g (.act a) ok g'

theorem exec_effect (g : Game) (event : Event) :
    CallEffect g event (event.exec g).1 (event.exec g).2 := by
  cases event with
  | lookup name =>
    change CallEffect g _ true ((lookup name).run g).2
    rcases snd_run_lookup g name with hSame | ⟨rfl, hDrawn⟩
    · rw [hSame]
      exact .nothing _ (by simp)
    · rw [hDrawn, snd_run_drawRandom]
      exact .drawn _
  | opponent => exact .nothing _ (by simp)
  | nearby d => exact .nothing _ (by simp)
  | assign name value => exact .assigned name value
  | act a => exact .acted (perform_effect g a)

/-- No call touches the settings, the clock, or whose turn it is. -/
theorem CallEffect.frame {event : Event} {ok : Bool} {g' : Game} (h : CallEffect g event ok g') :
    g'.settings = g.settings ∧ g'.turn = g.turn ∧ g'.current = g.current := by
  cases h with
  | nothing => exact ⟨rfl, rfl, rfl⟩
  | drawn => exact ⟨rfl, rfl, rfl⟩
  | assigned => exact ⟨rfl, rfl, rfl⟩
  | acted h => cases h <;> exact ⟨rfl, rfl, rfl⟩

end Game

end CityCrew
