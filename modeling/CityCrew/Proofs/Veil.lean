import CityCrew.Proofs.Images
import CityCrew.Proofs.Survival

/-!
# What players know of each other

Players can find out who the others are, who of them is left and whose budget is used up, and no
more. `Game.veiled` draws a veil over the rest: names, bindings and what there is in the budgets
of the others. Every call does behind the veil what it does in front of it, and so do the begin
and the end of a turn.
-/

namespace CityCrew

namespace Player

/-- What is left of a player for the eyes of others. -/
def veiled (p : Player) : Player where
  id := p.id
  name := ""
  budget := if p.budget = 0 then 0 else 1
  bindings := ∅
  alive := p.alive

theorem veiled_eq_iff {p q : Player} : p.veiled = q.veiled ↔
    p.id = q.id ∧ p.alive = q.alive ∧ (p.budget = 0 ↔ q.budget = 0) := by
  simp only [veiled, mk.injEq, true_and]
  by_cases hp : p.budget = 0 <;> by_cases hq : q.budget = 0 <;> simp [hp, hq]

@[simp] theorem budget_veiled_eq_zero {p : Player} : p.veiled.budget = 0 ↔ p.budget = 0 := by
  by_cases h : p.budget = 0 <;> simp [veiled, h]

end Player

namespace Game

variable {g : Game} {place : Nat}

def veiledFor (place : Nat) (g : Game) : Game :=
  { g with
    players := g.players.mapIdx fun i p => if i = place then p else p.veiled
    current_lt := by simpa using g.current_lt }

def veiled (g : Game) : Game :=
  g.veiledFor g.current

theorem getElem?_players_veiledFor (g : Game) (place i : Nat) : (g.veiledFor place).players[i]? =
    g.players[i]?.map fun p => if i = place then p else p.veiled :=
  List.getElem?_mapIdx

@[simp] theorem length_players_veiledFor :
    (g.veiledFor place).players.length = g.players.length :=
  List.length_mapIdx

theorem map_players_veiledFor (g : Game) (place : Nat) {α : Type} {k : Player → α}
    (hk : ∀ p, k p.veiled = k p) :
    (g.veiledFor place).players.map k = g.players.map k := by
  apply List.ext_getElem?
  intro i
  rw [List.getElem?_map, List.getElem?_map, getElem?_players_veiledFor, Option.map_map]
  congr 1
  funext p
  simp only [Function.comp_apply]
  split
  · rfl
  · exact hk p

@[simp] theorem actor_veiled (g : Game) : g.veiled.actor = g.actor := by
  simp [actor, veiled, veiledFor]

theorem mapIdx_modify {α β : Type} {k : Nat → α → β} {f : α → α} {f' : β → β} {i : Nat}
    (hk : ∀ a, k i (f a) = f' (k i a)) (l : List α) :
    (l.modify i f).mapIdx k = (l.mapIdx k).modify i f' := by
  apply List.ext_getElem?
  intro j
  rw [List.getElem?_mapIdx, List.getElem?_modify, List.getElem?_modify, List.getElem?_mapIdx]
  by_cases hij : i = j
  · subst hij
    simp [Function.comp_def, hk]
  · simp [hij]

theorem veiled_modifyActor (g : Game) (f : Player → Player) :
    (g.modifyActor f).veiled = g.veiled.modifyActor f := by
  simp only [modifyActor, veiled, veiledFor, mk.injEq, true_and, and_true]
  apply mapIdx_modify
  simp

theorem veiled_capture (g : Game) (winner loser : PlayerId) :
    (g.capture winner loser).veiled = g.veiled.capture winner loser := by
  have hIndex : g.veiled.players.findIdx (·.id == loser) =
      g.players.findIdx (·.id == loser) := by
    have hIds := map_players_veiledFor g g.current (k := (·.id)) fun _ => rfl
    have hFind := congrArg (List.findIdx (· == loser)) hIds
    rwa [List.findIdx_map, List.findIdx_map] at hFind
  simp only [capture, modifyPlayer, hIndex]
  simp only [veiled, veiledFor, mk.injEq, true_and, and_true]
  apply mapIdx_modify
  intro p
  split <;> rfl

theorem faithful_veiled : Faithful veiled where
  settings _ := rfl
  territory _ := rfl
  actor := actor_veiled
  crew _ := rfl
  turn _ := rfl
  ended _ := rfl
  withCrew _ _ := rfl
  modifyActor := veiled_modifyActor
  modifyRegion _ _ _ := rfl
  capture := veiled_capture
  stopped _ := rfl

-- What is drawn is left open here, as the many retries of `below` must not be unfolded.
theorem commutes_draw_veiled (draw : StateM Random.Generator Nat) : Commutes veiled fun g =>
    let drawn := draw.run g.random
    (Int64.ofNat drawn.1, { g with random := drawn.2 }) :=
  fun _ => rfl

theorem commutes_lookup_veiled (name : String) : Commutes veiled (lookup name) := by
  apply faithful_veiled.commutes_lookup
  by_cases hName : name = "random"
  · subst hName
    intro g
    have hDrawn := commutes_draw_veiled (Random.Generator.below .double randomBound) g
    change drawRandom.run g.veiled = ((drawRandom.run g).1, (drawRandom.run g).2.veiled) at hDrawn
    change (do return some (← drawRandom) : StateM Game (Option Value)).run g.veiled = _
    rw [StateT.run_bind, hDrawn]
    rfl
  · exact faithful_veiled.commutes_special? hName

theorem veiledFor_sweepOut (g : Game) (place : Nat) :
    g.sweepOut.veiledFor place = (g.veiledFor place).sweepOut := by
  simp only [sweepOut, mapPlayers, veiledFor, mk.injEq, true_and, and_true]
  apply List.ext_getElem?
  intro i
  simp only [List.getElem?_mapIdx, List.getElem?_map, Option.map_map]
  congr 1
  funext p
  by_cases hi : i = place
  · simp only [Function.comp_apply, if_pos hi]
    rfl
  · have hLost : (g.veiledFor place).isLost p.veiled = g.isLost p := by
      simp only [isLost]
      congr 1
      rw [Bool.eq_iff_iff, beq_iff_eq, beq_iff_eq, Player.budget_veiled_eq_zero]
    simp only [Function.comp_apply, if_neg hi]
    change _ = if p.alive && (g.veiledFor place).isLost p.veiled then p.veiled.eliminated
      else p.veiled
    rw [hLost]
    split <;> rfl

theorem veiledFor_withCurrent (g : Game) (place i : Nat) :
    (g.withCurrent i).veiledFor place = (g.veiledFor place).withCurrent i := by
  by_cases hi : i < g.players.length
  · rw [withCurrent, dif_pos hi, withCurrent, dif_pos (by rwa [length_players_veiledFor])]
    rfl
  · rw [withCurrent, dif_neg hi, withCurrent, dif_neg (by rwa [length_players_veiledFor])]

theorem faithfulAtEnd_veiledFor (place : Nat) : FaithfulAtEnd (veiledFor place) where
  ended _ := rfl
  current _ := rfl
  players g := map_players_veiledFor g place fun _ => rfl
  sweepOut g := veiledFor_sweepOut g place
  nextRound _ := rfl
  withCurrent g i := veiledFor_withCurrent g place i
  drawn _ := rfl
  won _ _ := rfl

/-- A turn goes behind the veil as it goes in front of it. -/
theorem playTurn_veiled (plan : Plan) (g : Game) : g.veiled.playTurn plan =
    (g.playTurn plan).map fun (flow, g') => (flow, g'.veiledFor g.current) := by
  refine faithful_veiled.playTurn_image (fun name _ => commutes_lookup_veiled name)
    (fun _ _ => trivial) ?_ fun _ => rfl
  intro s hCurrent
  rw [veiled, hCurrent, (faithfulAtEnd_veiledFor _).endTurn]

end Game

end CityCrew
