import CityCrew.Proofs.SoundTurn

/-!
# Images of a game

An image of a game may lack something that the game has, or hold something else in its place. If it
shows all that the calls of a plan look at, and changes with the game, then every call does to the
image what it does to the game. The end of a turn looks at other things. What `random` draws is left
open here.
-/

namespace CityCrew

namespace Game

/-- What the calls of a plan look at in a game, and what they change. -/
structure Faithful (image : Game → Game) : Prop where
  settings : ∀ g, (image g).settings = g.settings
  territory : ∀ g, (image g).territory = g.territory
  actor : ∀ g, (image g).actor = g.actor
  crew : ∀ g, (image g).crew = g.crew
  turn : ∀ g, (image g).turn = g.turn
  ended : ∀ g, (image g).ended = g.ended
  withCrew : ∀ g p, image { g with crew := p } = { image g with crew := p }
  modifyActor : ∀ g f, image (g.modifyActor f) = (image g).modifyActor f
  modifyRegion : ∀ g p f, image (g.modifyRegion p f) = (image g).modifyRegion p f
  capture : ∀ g winner loser, image (g.capture winner loser) = (image g).capture winner loser
  stopped : ∀ g, image g.stopped = (image g).stopped

/-- The computation does to the image of a game what it does to the game. -/
def Commutes {α : Type} (image : Game → Game) (m : StateM Game α) : Prop :=
  ∀ g, m.run (image g) = ((m.run g).1, image (m.run g).2)

variable {image : Game → Game}

theorem Commutes.respects {α : Type} {m : StateM Game α} (h : Commutes image m) :
    Respects (fun g g' : Game => g' = image g) m m := by
  rintro g _ rfl
  rw [h g]
  exact ⟨rfl, rfl⟩

theorem current_run (plan : Plan) (g : Game) : (plan.run.run g).2.current = g.current :=
  ((plan.linked_calls g).forall_of_step (P := fun s => s.current = g.current)
    (fun event s hs => (exec_effect s event).frame.2.2.trans hs) rfl).1

namespace Faithful

variable (h : Faithful image)

include h

theorem charge (g : Game) (n : Int) : image (g.charge n) = (image g).charge n :=
  h.modifyActor g _

theorem crewRegion? (g : Game) : (image g).crewRegion? = g.crewRegion? := by
  rw [Game.crewRegion?, h.territory, h.crew]
  rfl

theorem isOpposed (g : Game) (p : Point) : (image g).isOpposed p = g.isOpposed p := by
  rw [Game.isOpposed, h.territory, h.actor]
  rfl

theorem isConnected (g : Game) : (image g).isConnected = g.isConnected := by
  rw [Game.isConnected, h.territory, h.crew, h.actor]
  rfl

theorem sightFrom (g : Game) (d : Direction) (distance n : Nat) (p : Point) :
    (image g).sightFrom d distance n p = g.sightFrom d distance n p := by
  induction n generalizing distance p with
  | zero => rfl
  | succ n ih => simp only [Game.sightFrom, h.actor, h.territory, ih]

theorem nearby (g : Game) (d : Direction) : (image g).nearby d = g.nearby d := by
  rw [Game.nearby, h.sightFrom, h.territory, h.crew]
  rfl

theorem sweep (g : Game) (ring n : Nat) (lines : List (Direction × Point)) :
    (image g).sweep ring n lines = g.sweep ring n lines := by
  induction n generalizing ring lines with
  | zero => rfl
  | succ n ih => simp only [Game.sweep, h.isOpposed, h.territory, ih]

theorem opponent (g : Game) : (image g).opponent = g.opponent := by
  rw [Game.opponent, h.sweep, h.territory, h.crew]
  rfl

theorem commutes_moveCrew (d : Direction) : Commutes image (moveCrew d) := by
  intro g
  change moveCrew d (image g) = ((moveCrew d g).1, image (moveCrew d g).2)
  have hMoved := h.withCrew (g.charge fee) ((g.charge fee).crew.step d)
  unfold moveCrew
  simp only [h.actor, ← h.charge, h.isOpposed, h.territory, h.crew, h.ended] at hMoved ⊢
  split
  · rfl
  · split
    · rw [hMoved]
    · rfl

theorem commutes_invest (amount : Int) : Commutes image (invest amount) := by
  intro g
  change invest amount (image g) = ((invest amount g).1, image (invest amount g).2)
  unfold invest
  simp only [h.actor, ← h.charge, h.isConnected, h.crew, h.ended]
  split
  · rfl
  · split
    · rfl
    · rw [h.modifyRegion]

theorem commutes_collect (amount : Int) : Commutes image (collect amount) := by
  intro g
  change collect amount (image g) = ((collect amount g).1, image (collect amount g).2)
  unfold collect
  simp only [h.actor, ← h.charge, h.crewRegion?, h.crew, h.ended]
  split
  · rfl
  · split
    · rfl
    · split
      · rfl
      · rw [h.modifyActor, h.modifyRegion]

theorem commutes_relocate : Commutes image relocate := by
  intro g
  change relocate (image g) = ((relocate g).1, image (relocate g).2)
  unfold relocate
  simp only [h.actor, ← h.charge, h.territory, h.crew, h.ended]
  split
  · rfl
  · split
    · rfl
    · split
      · rfl
      · split
        · rfl
        · split
          · rfl
          · split
            · rfl
            · rw [h.modifyRegion, h.modifyRegion]

theorem commutes_shoot (d : Direction) (amount : Int) : Commutes image (shoot d amount) := by
  intro g
  change shoot d amount (image g) = ((shoot d amount g).1, image (shoot d amount g).2)
  unfold shoot
  simp only [h.actor, ← h.charge, ← h.modifyRegion, h.territory, h.crew, h.ended]
  split
  · rfl
  · split
    · rfl
    · split
      · rw [h.stopped]
      · split
        · rfl
        · split
          · split
            · rw [h.capture]
            · rfl
          · rfl

theorem commutes_perform (action : Action Value) :
    Commutes image (Host.perform action : StateM Game Bool) := by
  cases action with
  | move d => exact h.commutes_moveCrew d
  | invest amount => exact h.commutes_invest amount.toInt
  | collect amount => exact h.commutes_collect amount.toInt
  | relocate => exact h.commutes_relocate
  | shoot d amount => exact h.commutes_shoot d amount.toInt

theorem commutes_special? {name : String} (hName : name ≠ "random") :
    Commutes image (special? name) := by
  intro g
  have hDeposit : (image g).crewDeposit = g.crewDeposit := by
    rw [crewDeposit, h.crewRegion?]
    rfl
  have hRate : ∀ n, (image g).interestRate n = g.interestRate n := by
    intro n
    rw [interestRate, h.settings, h.turn]
    rfl
  unfold special?
  simp only [StateT.run_bind, StateT.run_get, pure_bind, h.territory, h.crew, h.actor, h.settings,
    hDeposit, hRate]
  split
  case h_9 => exact absurd rfl hName
  all_goals rfl

theorem commutes_lookup {name : String} (hSpecial : Commutes image (special? name)) :
    Commutes image (lookup name) := by
  intro g
  have hSpecial := hSpecial g
  unfold lookup
  generalize special? name = special at hSpecial ⊢
  simp only [StateT.run_bind, StateT.run_get, pure_bind, h.actor]
  split
  · rfl
  · rw [StateT.run_bind, hSpecial]
    rfl

theorem commutes_beginTurn : Commutes image beginTurn := by
  intro g
  change beginTurn (image g) = ((beginTurn g).1, image (beginTurn g).2)
  have hCenter : (image g).territory.cityCenterOf? (image g).actor.id =
      g.territory.cityCenterOf? g.actor.id := by
    rw [h.territory, h.actor]
  unfold beginTurn
  rw [hCenter]
  split
  · exact congrArg (Prod.mk true) (h.withCrew g _).symm
  · rfl

variable {names : String → Prop}

/-- No call can tell a game from its image, as long as the look-ups cannot. -/
theorem indistinct (hLookup : ∀ name, names name → Commutes image (Game.lookup name)) :
    IndistinctFor names fun g g' : Game => g' = image g where
  lookup name hName := (hLookup name hName).respects
  opponent := Commutes.respects fun g => by
    change (Int64.ofNat (image g).opponent, image g) = _
    rw [h.opponent]
    rfl
  nearby d := Commutes.respects fun g => by
    change (Int64.ofNat ((image g).nearby d), image g) = _
    rw [h.nearby]
    rfl
  assign name value := Commutes.respects fun g => by
    change ((), (image g).modifyActor (·.assign name value)) = _
    rw [← h.modifyActor]
    rfl
  perform action := (h.commutes_perform action).respects

/-- A turn may end under another image than the one that it begins under. -/
theorem runTurn_image (hLookup : ∀ name, names name → Commutes image (Game.lookup name))
    {plan : Plan} (hNames : ∀ name ∈ plan.identifiers, names name) {g : Game}
    {imageAfter : Game → Game}
    (hEnd : ∀ s, s.current = g.current → (image s).endTurn = imageAfter s.endTurn) :
    (image g).runTurn plan = ((g.runTurn plan).1, imageAfter (g.runTurn plan).2) := by
  have hBegin := h.commutes_beginTurn g
  have hCurrent : (beginTurn.run g).2.current = g.current := by
    obtain ⟨crew, hCrew⟩ := snd_run_beginTurn g
    rw [hCrew]
  unfold runTurn
  rw [hBegin]
  generalize beginTurn.run g = begin at hCurrent ⊢
  obtain ⟨begun, start⟩ := begin
  cases begun with
  | false =>
    change (Flow.halt, (image start).endTurn) = (Flow.halt, imageAfter start.endTurn)
    rw [hEnd start hCurrent]
  | true =>
    obtain ⟨hFlow, hLast⟩ :=
      plan.respects_run_for (h.indistinct hLookup) hNames start (image start) rfl
    change ((plan.run.run (image start)).1, (plan.run.run (image start)).2.endTurn) =
      ((plan.run.run start).1, imageAfter (plan.run.run start).2.endTurn)
    rw [← hFlow, hLast, hEnd _ ((current_run plan start).trans hCurrent)]

theorem playTurn_image (hLookup : ∀ name, names name → Commutes image (Game.lookup name))
    {plan : Plan} (hNames : ∀ name ∈ plan.identifiers, names name) {g : Game}
    {imageAfter : Game → Game}
    (hEnd : ∀ s, s.current = g.current → (image s).endTurn = imageAfter s.endTurn)
    (hAfter : ∀ s, (imageAfter s).overflowed = s.overflowed) :
    (image g).playTurn plan =
      (g.playTurn plan).map fun (flow, g') => (flow, imageAfter g') := by
  unfold playTurn
  rw [h.runTurn_image hLookup hNames hEnd, h.ended, hAfter]
  split
  · rfl
  · split
    · rfl
    · rfl

end Faithful

/-- What the end of a turn looks at in a game, and what it changes. -/
structure FaithfulAtEnd (image : Game → Game) : Prop where
  ended : ∀ g, (image g).ended = g.ended
  current : ∀ g, (image g).current = g.current
  players : ∀ g, (image g).players.map (fun p => (p.id, p.alive)) =
    g.players.map fun p => (p.id, p.alive)
  sweepOut : ∀ g, image g.sweepOut = (image g).sweepOut
  nextRound : ∀ g, image g.nextRound = (image g).nextRound
  withCurrent : ∀ g i, image (g.withCurrent i) = (image g).withCurrent i
  drawn : ∀ g, image { g with ended := true } = { image g with ended := true }
  won : ∀ g id, image { g with winner := some id, ended := true } =
    { image g with winner := some id, ended := true }

def remaining (g : Game) : List PlayerId :=
  (g.sweepOut.players.filter (·.alive)).map (·.id)

/-- The end of a turn asks for the ids of those who are left, and for nothing else of them. -/
theorem endTurn_eq {g : Game} (hEnded : g.ended = false) : g.endTurn =
    match g.remaining with
    | [] => { g.sweepOut with ended := true }
    | [id] => { g.sweepOut with winner := some id, ended := true }
    | _ => g.sweepOut.passTurn := by
  rw [endTurn, if_neg (by simp [hEnded]), remaining]
  dsimp only
  cases g.sweepOut.players.filter (·.alive) with
  | nil => rfl
  | cons p left => cases left <;> rfl

namespace FaithfulAtEnd

variable (h : FaithfulAtEnd image)

include h

theorem aliveFrom? (g : Game) (start : Nat) : (image g).aliveFrom? start = g.aliveFrom? start := by
  have hAlive := congrArg (List.map Prod.snd) (h.players g)
  have hDrop := congrArg (fun l : List Bool => (l.drop start).findIdx? id) hAlive
  simp only [List.map_map, ← List.map_drop, List.findIdx?_map] at hDrop
  unfold Game.aliveFrom?
  exact congrArg (Option.map (start + ·)) hDrop

theorem passTurn (g : Game) : image g.passTurn = (image g).passTurn := by
  unfold Game.passTurn
  rw [h.current, h.aliveFrom?, h.aliveFrom?]
  split
  · exact h.withCurrent g _
  · split
    · rw [h.withCurrent, h.nextRound]
    · rfl

theorem remaining (g : Game) : (image g).remaining = g.remaining := by
  have hFilter := congrArg (fun l : List (PlayerId × Bool) => (l.filter (·.2)).map (·.1))
    (h.players g.sweepOut)
  rw [h.sweepOut] at hFilter
  simp only [List.filter_map, List.map_map, Function.comp_def] at hFilter
  exact hFilter

theorem endTurn (g : Game) : image g.endTurn = (image g).endTurn := by
  cases hEnded : g.ended with
  | true => rw [endTurn_of_ended hEnded, endTurn_of_ended ((h.ended g).trans hEnded)]
  | false =>
    rw [endTurn_eq hEnded, endTurn_eq ((h.ended g).trans hEnded), h.remaining, ← h.sweepOut,
      ← h.passTurn]
    split
    · exact h.drawn _
    · exact h.won _ _
    · rfl

end FaithfulAtEnd

end Game

end CityCrew
