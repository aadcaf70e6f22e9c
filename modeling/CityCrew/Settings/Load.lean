import CityCrew.Plan.Bindings
import CityCrew.Plan.Parser
import CityCrew.Plan.Run
import CityCrew.Settings.Basic

/-!
# Reading settings

Settings are written as a plan that consists of assignments. Each value may use identifiers that
were assigned before it; the rest read 0. Identifiers that name no setting are allowed and have no
other effect.
-/

namespace CityCrew

/-- Settings are worked out without a board: its questions read 0. -/
instance : Environment Bindings where
  lookup name := return (← get).getD name 0
  opponent := return 0
  nearby _ := return 0

namespace Settings

def assignNext (bindings : Bindings) (position : Nat) : Stmt → Except SettingsError Bindings
  | .assign name value line =>
    if value.usesInfo then .error (.boardQuery name line)
    else .ok (bindings.insert name (value.eval.run bindings).1)
  | _ => .error (.notAnAssignment position)

def assignAll (bindings : Bindings) (position : Nat) : List Stmt → Except SettingsError Bindings
  | [] => .ok bindings
  | first :: rest => do
    let bindings ← assignNext bindings position first
    assignAll bindings (position + 1) rest

/-- A number of rows or columns has to fit into 32 bits before it is looked at any further. -/
def dimension (key : String) (value : Int) : Except SettingsError Int :=
  if value < -2147483648 ∨ 2147483647 < value then .error (.outOfRange key value) else .ok value

def ofBindings (bindings : Bindings) : Except SettingsError Settings := do
  let usual : Settings := {}
  let field (key : String) (usual : Int) : Int := (bindings[key]?.map (·.toInt)).getD usual
  let rows ← dimension "m" (field "m" usual.rows)
  let cols ← dimension "n" (field "n" usual.cols)
  return {
    rows := rows
    cols := cols
    initPlanMin := field "init_plan_min" usual.initPlanMin
    initPlanSec := field "init_plan_sec" usual.initPlanSec
    initBudget := field "init_budget" usual.initBudget
    initCenterDep := field "init_center_dep" usual.initCenterDep
    planRevMin := field "plan_rev_min" usual.planRevMin
    planRevSec := field "plan_rev_sec" usual.planRevSec
    revCost := field "rev_cost" usual.revCost
    maxDep := field "max_dep" usual.maxDep
    interestPct := field "interest_pct" usual.interestPct }

def load (text : String) : Except SettingsError Settings := do
  let plan ← (Plan.parse text).mapError .syntaxError
  let bindings ← assignAll ∅ 1 plan.statements
  let settings ← ofBindings bindings
  settings.validate
  return settings

end Settings

end CityCrew
