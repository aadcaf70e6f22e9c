/-!
# The six directions of the hexagonal board

Directions run clockwise from `up`. Their order is visible to plans: the answer to the query
`opponent` holds the index of a direction.
-/

namespace CityCrew

inductive Direction where
  | up
  | upRight
  | downRight
  | down
  | downLeft
  | upLeft
deriving DecidableEq

namespace Direction

def all : List Direction := [up, upRight, downRight, down, downLeft, upLeft]

def index : Direction → Nat
  | up => 0
  | upRight => 1
  | downRight => 2
  | down => 3
  | downLeft => 4
  | upLeft => 5

def keyword : Direction → String
  | up => "up"
  | upRight => "upright"
  | downRight => "downright"
  | down => "down"
  | downLeft => "downleft"
  | upLeft => "upleft"

def ofKeyword? (word : String) : Option Direction :=
  all.find? fun d => d.keyword == word

theorem mem_all (d : Direction) : d ∈ all := by
  cases d <;> decide

theorem ofKeyword?_keyword (d : Direction) : ofKeyword? d.keyword = some d := by
  cases d <;> rfl

theorem keyword_of_ofKeyword?_eq_some {word : String} {d : Direction}
    (h : ofKeyword? word = some d) : d.keyword = word := by
  simpa using List.find?_some h

end Direction

end CityCrew
