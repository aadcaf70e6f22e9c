import Std.Data.HashMap
import CityCrew.Board.Length
import CityCrew.Board.Queue
import CityCrew.Board.Territory

/-!
# Shortest walks

A search for a shortest walk extends the walks it has found step by step. It goes on with the one
that promises to be cheapest in the end, by its cost so far and an estimate of what is left. A
cheaper walk to a point takes the place of a dearer one; what has been queued for the dearer walk
stays in the queue and is passed over later.
-/

namespace CityCrew

structure Search where
  territory : Territory
  /-- What a step from a point to a neighbor costs. -/
  cost : Point → Point → Int
  /-- What a walk from the first point to the second costs at least. -/
  estimate : Point → Point → Int
  start : Point
  goal : Point

namespace Search

structure State where
  /-- The walks that have not been extended. -/
  queue : Queue
  /-- The cost of the cheapest walk that has been found to a point. -/
  costs : Std.HashMap Point Int
  /-- The point that this walk comes from in its last step. -/
  origins : Std.HashMap Point Point

def State.note (state : State) (e : Entry) (origin : Point) : State where
  queue := state.queue.push e
  costs := state.costs.insert e.point e.cost
  origins := state.origins.insert e.point origin

variable (s : Search)

def entry (p : Point) (cost : Int) : Entry where
  bound := cost + s.estimate p s.goal
  cost := cost
  point := p

def initial : State where
  queue := Queue.empty.push (s.entry s.start 0)
  costs := (∅ : Std.HashMap Point Int).insert s.start 0
  origins := ∅

/-- Goes one step further from `e` to `next`, unless a walk there that is not dearer has been
found. -/
def reach (e : Entry) (state : State) (next : Point) : State :=
  if next = s.start then state
  else
    let cost := e.cost + s.cost e.point next
    if state.costs[next]?.any (· ≤ cost) then state
    else state.note (s.entry next cost) e.point

/-- Extends the walk `e`, unless a cheaper one to the same point has been found. -/
def extend (e : Entry) (state : State) : State :=
  if state.costs[e.point]?.any (· < e.cost) then state
  else (s.territory.neighbors e.point).foldl (s.reach e) state

def stepsBack (s : Search) (state : State) (p : Point) : Option Nat :=
  if p = s.start then some 0
  else
    match state.origins[p]? with
    | some origin => (· + 1) <$> (s |>.stepsBack state origin)
    | none => some 0
partial_fixpoint

/-- Extends one walk after the other until one that has come to the goal is first. -/
def run (s : Search) (state : State) : Option Nat :=
  match state.queue.pop? with
  | none => none
  | some (first, rest) =>
    if first.point = s.goal then s.stepsBack state s.goal
    else s |>.run (s.extend first { state with queue := rest })
partial_fixpoint

end Search

namespace Territory

/-- The number of steps of a shortest walk over the board, if both ends are on it. -/
def shortest? (t : Territory) (cost estimate : Point → Point → Int) (p q : Point) : Option Nat :=
  if t.Contains p ∧ t.Contains q then
    if p = q then some 0
    else
      let search : Search :=
        { territory := t, cost := cost, estimate := estimate, start := p, goal := q }
      search.run search.initial
  else none

def distance? (t : Territory) (p q : Point) : Option Nat :=
  t.shortest? Point.stepCost Point.estimate p q

end Territory

end CityCrew
