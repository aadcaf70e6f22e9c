import CityCrew.Amount
import CityCrew.Decimal.Logarithm
import CityCrew.Plan.SyntaxError

/-!
# The settings of a game

`Settings.violations` lists the fields that a game cannot be played with, in a fixed order, and
`Settings.validate` reports the first of them.
-/

namespace CityCrew

structure Settings where
  rows : Int := 20
  cols : Int := 15
  initPlanMin : Int := 5
  initPlanSec : Int := 0
  initBudget : Int := 10000
  initCenterDep : Int := 100
  planRevMin : Int := 30
  planRevSec : Int := 0
  revCost : Int := 100
  maxDep : Int := 1000000
  interestPct : Int := 0
deriving DecidableEq

inductive SettingsError where
  | syntaxError (e : SyntaxError)
  | notAnAssignment (position : Nat)
  | boardQuery (key : String) (line : Nat)
  | secondsOutOfRange (key : String) (value : Int)
  | outOfRange (key : String) (value : Int)
deriving DecidableEq

namespace SettingsError

def message : SettingsError → String
  | syntaxError e => s!"configuration syntax error: {e.message}"
  | notAnAssignment position =>
    s!"statement {position}: configuration may only contain assignments"
  | boardQuery key line => s!"line {line}: `{key}` cannot use `opponent` or `nearby`"
  | secondsOutOfRange key value => s!"`{key}` must be below 60 seconds, got {value}"
  | outOfRange key value => s!"`{key}` is out of range: {value}"

end SettingsError

namespace Settings

def maxDimension : Int := 1000

def violations (s : Settings) : List SettingsError :=
  let seconds := [("init_plan_sec", s.initPlanSec), ("plan_rev_sec", s.planRevSec)]
  let counts := [("init_plan_min", s.initPlanMin), ("init_plan_sec", s.initPlanSec),
    ("plan_rev_min", s.planRevMin), ("plan_rev_sec", s.planRevSec),
    ("init_budget", s.initBudget), ("rev_cost", s.revCost), ("interest_pct", s.interestPct)]
  let bounded := [("max_dep", s.maxDep, 1, s.maxDep),
    ("init_center_dep", s.initCenterDep, 1, s.maxDep),
    ("m", s.rows, 1, maxDimension), ("n", s.cols, 1, maxDimension)]
  (seconds.filter fun (_, value) => 60 ≤ value).map (fun (key, value) =>
      SettingsError.secondsOutOfRange key value) ++
    (counts.filter fun (_, value) => value < 0).map (fun (key, value) =>
      SettingsError.outOfRange key value) ++
    (bounded.filter fun (_, value, low, high) => value < low ∨ high < value).map
      (fun (key, value, _, _) => SettingsError.outOfRange key value)

def validate (s : Settings) : Except SettingsError Unit :=
  match s.violations with
  | [] => .ok ()
  | e :: _ => .error e

/-- Minutes and seconds as seconds; a negative time is none at all. -/
def timeOf (minutes seconds : Int) : Nat :=
  (capped (capped (minutes * 60) + seconds)).toNat

def initialPlanTime (s : Settings) : Nat :=
  timeOf s.initPlanMin s.initPlanSec

def revisionPlanTime (s : Settings) : Nat :=
  timeOf s.planRevMin s.planRevSec

/-- The interest rate in percent for a region that holds `deposit` in the given turn: it grows with
the logarithms of both. -/
def interestRate (s : Settings) (turn deposit : Int) : Float :=
  if deposit ≤ 0 ∨ turn ≤ 0 then 0.0
  else
    Float.ofInt s.interestPct * Decimal.log10 (Decimal.nearestHeld deposit.toNat) *
      Decimal.ln (Decimal.nearestHeld turn.toNat)

def interest (s : Settings) (turn deposit : Int) : Int :=
  (Decimal.wholePart (Float.ofInt deposit * s.interestRate turn deposit / 100.0)).toInt

end Settings

end CityCrew
