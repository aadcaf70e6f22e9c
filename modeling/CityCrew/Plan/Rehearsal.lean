import CityCrew.Plan.Bindings
import CityCrew.Plan.Run

/-!
# Rehearsals

A rehearsal runs plans away from the board. The questions of a plan get the answers of a script,
its actions have no effect, and everything it does is noted down. From a given number of actions
on, every action fails.
-/

namespace CityCrew

inductive Event where
  | lookup (name : String)
  | opponent
  | nearby (d : Direction)
  | assign (name : String) (value : Value)
  | act (action : Action Value)
deriving DecidableEq

structure Rehearsal where
  bindings : Bindings
  /-- The answer to the question for the closest opponent. -/
  opponentAnswer : Value
  /-- The answers to the questions for a direction, in the order of the directions. -/
  nearbyAnswers : List Value
  /-- How many actions succeed, if not all of them do. -/
  successes : Option Int
  /-- Whether more than the actions is noted down. -/
  noteAll : Bool
  actionCount : Nat
  notes : Array Event

namespace Action

def note : Action Value → String
  | move d => s!"move {d.keyword}"
  | invest amount => s!"invest {amount.toInt}"
  | collect amount => s!"collect {amount.toInt}"
  | relocate => "relocate"
  | shoot d amount => s!"shoot {d.keyword} {amount.toInt}"

end Action

namespace Event

def note : Event → String
  | lookup name => s!"get {name}"
  | opponent => "opponent"
  | nearby d => s!"nearby {d.keyword}"
  | assign name value => s!"set {name} {value.toInt}"
  | act action => action.note

end Event

namespace Rehearsal

def observe (event : Event) : StateM Rehearsal Unit :=
  modify fun r => if r.noteAll then { r with notes := r.notes.push event } else r

instance : Environment Rehearsal where
  lookup name := do
    observe (.lookup name)
    return (← get).bindings.getD name 0
  opponent := do
    observe .opponent
    return (← get).opponentAnswer
  nearby d := do
    observe (.nearby d)
    return (← get).nearbyAnswers.getD d.index 0

instance : Host Rehearsal where
  assign name value := do
    observe (.assign name value)
    modify fun r => { r with bindings := r.bindings.insert name value }
  perform action := do
    modify fun r =>
      { r with notes := r.notes.push (.act action), actionCount := r.actionCount + 1 }
    let r ← get
    return r.successes.all fun n => (r.actionCount : Int) ≤ n

def repeated (plan : Plan) (n : Nat) : StateM Rehearsal (List Flow) :=
  (List.range n).mapM fun _ => plan.run

end Rehearsal

end CityCrew
