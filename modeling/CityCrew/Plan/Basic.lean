import CityCrew.Board.Direction
import CityCrew.Plan.Operator

/-!
# Plans

A plan is a sequence of statements that direct the crew of one player for one turn. Expressions
read identifiers and ask the board two questions; only statements change anything.
-/

namespace CityCrew

inductive Expr where
  | number (n : Value)
  | identifier (name : String)
  | binary (op : Operator) (lhs rhs : Expr)
  /-- Where the closest region of an opponent lies. -/
  | opponent
  /-- How far away, and how rich, the first region of an opponent in one direction is. -/
  | nearby (d : Direction)
deriving DecidableEq

/-- What a crew can do. The amounts are expressions in a plan, and values once it runs. -/
inductive Action (α : Type) where
  | move (d : Direction)
  | invest (amount : α)
  | collect (amount : α)
  | relocate
  | shoot (d : Direction) (amount : α)
deriving DecidableEq

inductive Stmt where
  /-- Binds `name` to `value`; the name stands on `line`. -/
  | assign (name : String) (value : Expr) (line : Nat)
  | block (body : List Stmt)
  | ifThenElse (guard : Expr) (thenBranch elseBranch : Stmt)
  | whileDo (guard : Expr) (body : Stmt)
  | done
  | act (action : Action Expr)

structure Plan where
  statements : List Stmt

namespace Expr

def height : Expr → Nat
  | binary _ lhs rhs => max lhs.height rhs.height + 1
  | _ => 0

def usesInfo : Expr → Bool
  | opponent => true
  | nearby _ => true
  | binary _ lhs rhs => lhs.usesInfo || rhs.usesInfo
  | number _ => false
  | identifier _ => false

end Expr

end CityCrew
