import CityCrew.Plan.Basic

/-!
# Running a plan

A plan runs in a world of some type `σ` that it knows only through `Environment`, what
expressions may read, and `Host`, what statements may do. The first action that fails halts the
plan, and so does `done`; nothing is evaluated after that.
-/

namespace CityCrew

/-- What expressions can ask of a world. An answer may change the world, as a random number does. -/
class Environment (σ : Type) where
  lookup : String → StateM σ Value
  opponent : StateM σ Value
  nearby : Direction → StateM σ Value

/-- What statements can do to a world. An action tells whether it succeeded. -/
class Host (σ : Type) extends Environment σ where
  assign : String → Value → StateM σ Unit
  perform : Action Value → StateM σ Bool

/-- Whether what comes next in a plan is still to run. -/
inductive Flow where
  | proceed
  | halt
deriving DecidableEq

namespace Flow

def ofSuccess (ok : Bool) : Flow :=
  if ok then proceed else halt

end Flow

def maxRounds : Nat := 10000

namespace Expr

def eval {σ : Type} [Environment σ] : Expr → StateM σ Value
  | number n => return n
  | identifier name => Environment.lookup name
  | binary op lhs rhs => do
    let a ← lhs.eval
    let b ← rhs.eval
    return op.apply a b
  | opponent => Environment.opponent
  | nearby d => Environment.nearby d

end Expr

namespace Action

def eval {σ : Type} [Environment σ] : Action Expr → StateM σ (Action Value)
  | move d => return move d
  | invest amount => return invest (← amount.eval)
  | collect amount => return collect (← amount.eval)
  | relocate => return relocate
  | shoot d amount => return shoot d (← amount.eval)

end Action

namespace Stmt

/-- Runs `body` as long as `guard` is positive and `body` does not halt, at most `n` times. -/
def loop {σ : Type} (guard : StateM σ Value) (body : StateM σ Flow) : Nat → StateM σ Flow
  | 0 => return .proceed
  | n + 1 => do
    if (← guard) > 0 then
      match ← body with
      | .proceed => loop guard body n
      | .halt => return .halt
    else
      return .proceed

mutual

def run {σ : Type} [Host σ] : Stmt → StateM σ Flow
  | assign name value _ => do
    Host.assign name (← value.eval)
    return .proceed
  | block body => runAll body
  | ifThenElse guard thenBranch elseBranch => do
    if (← guard.eval) > 0 then thenBranch.run else elseBranch.run
  | whileDo guard body => loop guard.eval body.run maxRounds
  | done => return .halt
  | act action => do
    let action ← action.eval
    return .ofSuccess (← Host.perform action)

def runAll {σ : Type} [Host σ] : List Stmt → StateM σ Flow
  | [] => return .proceed
  | first :: rest => do
    match ← first.run with
    | .proceed => runAll rest
    | .halt => return .halt

end

end Stmt

namespace Plan

def run {σ : Type} [Host σ] (p : Plan) : StateM σ Flow :=
  Stmt.runAll p.statements

end Plan

end CityCrew
