import CityCrew.Plan.Basic

/-!
# The outline of a plan

One line for each statement that shows how it was understood: every operator and statement stands
in parentheses with its parts behind it, and an assignment tells its line.
-/

namespace CityCrew

def outlineOf (parts : List String) : String :=
  "(" ++ " ".intercalate parts ++ ")"

def Expr.outline : Expr → String
  | number n => toString n.toInt
  | identifier name => name
  | binary op lhs rhs => outlineOf [op.symbol, lhs.outline, rhs.outline]
  | opponent => outlineOf ["opponent"]
  | nearby d => outlineOf ["nearby", d.keyword]

def Action.outline : Action Expr → String
  | move d => outlineOf ["move", d.keyword]
  | invest amount => outlineOf ["invest", amount.outline]
  | collect amount => outlineOf ["collect", amount.outline]
  | relocate => outlineOf ["relocate"]
  | shoot d amount => outlineOf ["shoot", d.keyword, amount.outline]

mutual

def Stmt.outline : Stmt → String
  | assign name value line => outlineOf [s!"set@{line}", name, value.outline]
  | block body => outlineOf ("block" :: Stmt.outlines body)
  | ifThenElse guard thenBranch elseBranch =>
    outlineOf ["if", guard.outline, thenBranch.outline, elseBranch.outline]
  | whileDo guard body => outlineOf ["while", guard.outline, body.outline]
  | done => outlineOf ["done"]
  | act action => action.outline

def Stmt.outlines : List Stmt → List String
  | [] => []
  | first :: rest => first.outline :: Stmt.outlines rest

end

end CityCrew
