import CityCrew.Proofs.Nesting
import CityCrew.Plan.Rehearsal

/-!
# The depth counter

The parsers are told how many levels they may still open. A counting parser finds this out from a
counter that it keeps for the whole text: one more where a statement, a parenthesis or an exponent
begins, one less behind it, and no more than `maxNesting` in between. It reads what the parser reads
that is told. The fuel that its definition takes does not limit it.
-/

namespace CityCrew

namespace Parser

variable {α β : Type}

structure Gauge where
  cursor : Cursor
  counter : Int
  /-- What the counter has shown before, the latest first. -/
  past : List Int

namespace Gauge

def ofString (text : String) : Gauge where
  cursor := Cursor.ofString text
  counter := 0
  past := []

def shown (g : Gauge) : List Int :=
  g.counter :: g.past

def turn (g : Gauge) (change : Int) : Gauge where
  cursor := g.cursor
  counter := g.counter + change
  past := g.shown

@[simp] theorem cursor_turn (g : Gauge) (change : Int) : (g.turn change).cursor = g.cursor :=
  rfl

@[simp] theorem counter_turn (g : Gauge) (change : Int) :
    (g.turn change).counter = g.counter + change :=
  rfl

/-- The counter has never been below 0, and never above the value at which a text is refused. -/
def Within (g : Gauge) : Prop :=
  ∀ n ∈ g.shown, 0 ≤ n ∧ n ≤ maxNesting + 1

end Gauge

/-- Unlike a `Parser`, this also tells where it has failed. -/
abbrev CountingParser (α : Type) := ExceptT SyntaxError (StateM Gauge) α

namespace Counting

def reading (p : Parser α) : CountingParser α := ExceptT.mk fun g =>
  match p.run g.cursor with
  | .ok (a, cursor) => (.ok a, { g with cursor := cursor })
  | .error e => (.error e, g)

instance : MonadLift Parser CountingParser where
  monadLift := reading

def descend : CountingParser Unit := ExceptT.mk fun g =>
  if g.counter + 1 > maxNesting then (.error ⟨g.cursor.line, .tooDeep maxNesting⟩, g.turn 1)
  else (.ok (), g.turn 1)

def ascend : CountingParser Unit := ExceptT.mk fun g =>
  (.ok (), g.turn (-1))

/-- Parentheses and exponents. After a failure inside, the counter is not turned back. -/
def nested (p : CountingParser α) : CountingParser α := do
  descend
  let a ← p
  ascend
  return a

/-- Statements. The counter is turned back even if what stands inside has failed. -/
def enclosed (p : CountingParser α) : CountingParser α := do
  descend
  ExceptT.mk fun g =>
    let (result, g') := p.run.run g
    (result, g'.turn (-1))

def chainFrom (accepted : List Operator) (operand : CountingParser Expr) :
    Nat → Expr → CountingParser Expr
  | 0, lhs => return lhs
  | n + 1, lhs => do
    match ← operator? accepted with
    | none => return lhs
    | some op =>
      advance
      let rhs ← operand
      chainFrom accepted operand n (← join op lhs rhs)

def chain (accepted : List Operator) (operand : CountingParser Expr) : CountingParser Expr := do
  let lhs ← operand
  chainFrom accepted operand (maxNesting + 1) lhs

def term (factor : CountingParser Expr) : CountingParser Expr :=
  chain [.mul, .div, .rem] factor

def sum (factor : CountingParser Expr) : CountingParser Expr :=
  chain [.add, .sub] (term factor)

def primary (inner : CountingParser Expr) : CountingParser Expr := do
  if ← nextIs "opponent" then
    advance
    return .opponent
  else if ← nextIs "nearby" then
    advance
    return .nearby (← direction .invalidInfoExpression)
  else if ← nextIs "(" then
    advance
    let e ← inner
    expect ")"
    return e
  else
    let t ← token
    match t.kind with
    | .number =>
      match numeral? t.text with
      | some n => return .number n
      | none => throw ⟨t.line, .invalidNumber t.text⟩
    | .word =>
      if t.text ∈ reservedWords then throw ⟨t.line, .reservedIdentifier t.text⟩
      return .identifier t.text
    | .symbol | .invalid => throw ⟨t.line, .unexpectedToken "expression" t.text⟩

def powered (inner exponent : CountingParser Expr) : CountingParser Expr := do
  let base ← primary inner
  if ← nextIs "^" then
    advance
    join .pow base (← exponent)
  else
    return base

def factor : Nat → CountingParser Expr
  | 0 => throw ⟨0, .unexpectedEnd⟩
  | fuel + 1 => powered (nested (sum (factor fuel))) (nested (factor fuel))

def guard (expr : CountingParser Expr) : CountingParser Expr := do
  expect "("
  let e ← expr
  expect ")"
  return e

def statements (stmt : CountingParser Stmt) : Nat → CountingParser (List Stmt)
  | 0 => return []
  | n + 1 => do
    if (← get).peek?.isNone || (← nextIs "\x7d") then return []
    let first ← stmt
    let rest ← statements stmt n
    return first :: rest

def assignment (target : Token) (expr : CountingParser Expr) : CountingParser Stmt := do
  if target.kind ≠ .word then throw ⟨target.line, .unknownCommand target.text⟩
  if target.text ∈ reservedWords then throw ⟨target.line, .reservedIdentifier target.text⟩
  unless ← nextIs "=" do failHere (α := Unit) (.missingAssignment target.text)
  advance
  return .assign target.text (← expr) target.line

def command (expr : CountingParser Expr) : CountingParser Stmt := do
  let t ← token
  match t.text with
  | "done" => return .done
  | "relocate" => return .act .relocate
  | "move" => return .act (.move (← direction .invalidDirection))
  | "invest" => return .act (.invest (← expr))
  | "collect" => return .act (.collect (← expr))
  | "shoot" =>
    let d ← direction .invalidDirection
    return .act (.shoot d (← expr))
  | _ => assignment t expr

def statementOver (size : Nat) (expr : CountingParser Expr) (inner : CountingParser Stmt) :
    CountingParser Stmt := do
  if ← nextIs "if" then
    advance
    let e ← guard expr
    expect "then"
    let thenBranch ← inner
    expect "else"
    let elseBranch ← inner
    return .ifThenElse e thenBranch elseBranch
  else if ← nextIs "while" then
    advance
    let e ← guard expr
    return .whileDo e (← inner)
  else if ← nextIs "\x7b" then
    advance
    let body ← statements inner size
    expect "\x7d"
    return .block body
  else
    command expr

def statement (size : Nat) : Nat → CountingParser Stmt
  | 0 => throw ⟨0, .unexpectedEnd⟩
  | fuel + 1 => enclosed (statementOver size (sum (factor fuel)) (statement size fuel))

def plan (fuel : Nat) : CountingParser Plan := do
  if (← get).peek?.isNone then failHere (α := Unit) .emptyPlan
  let size := (← get).tokens.length
  let first ← statement size fuel
  let rest ← statements (statement size fuel) size
  match (← get).peek? with
  | some t => throw ⟨t.line, .leftoverToken t.text⟩
  | none => return ⟨first :: rest⟩

end Counting

open Counting

def Restores (q : CountingParser α) : Prop :=
  ∀ g a g', q.run.run g = (.ok a, g') → g'.counter = g.counter

/-- From `g` on, the counting parser and the parser have done the same. -/
inductive Tallies (g : Gauge) :
    Except SyntaxError α × Gauge → Except SyntaxError (α × Cursor) → Prop
  | ok {a : α} {g' : Gauge} : g'.counter = g.counter → g'.Within →
      Tallies g (.ok a, g') (.ok (a, g'.cursor))
  | error {e : SyntaxError} {g' : Gauge} : g.counter ≤ g'.counter → g'.Within →
      Tallies g (.error e, g') (.error e)

/-- Where `levels` more levels may be opened by the counter, `q` does what `p` does. -/
structure Counts (levels : Nat) (q : CountingParser α) (p : Parser α) : Prop where
  restores : Restores q
  tallies : ∀ g : Gauge, g.Within → g.counter + levels = maxNesting →
    Tallies g (q.run.run g) (p.run g.cursor)

theorem Gauge.Within.turn {g : Gauge} {change : Int} (h : g.Within) (hLow : 0 ≤ g.counter + change)
    (hHigh : g.counter + change ≤ maxNesting + 1) : (g.turn change).Within :=
  List.forall_mem_cons.mpr ⟨⟨hLow, hHigh⟩, h⟩

theorem Gauge.Within.nonneg {g : Gauge} (h : g.Within) : 0 ≤ g.counter :=
  (h g.counter List.mem_cons_self).1

variable {levels : Nat} {p : Parser α} {q : CountingParser α}

theorem run_reading (p : Parser α) (g : Gauge) : (reading p).run.run g =
    match p.run g.cursor with
    | .ok (a, cursor) => (.ok a, { g with cursor := cursor })
    | .error e => (.error e, g) :=
  rfl

theorem run_bind (q : CountingParser α) (f : α → CountingParser β) (g : Gauge) :
    (q >>= f).run.run g =
      match q.run.run g with
      | (.ok a, g') => (f a).run.run g'
      | (.error e, g') => (.error e, g') := by
  rw [ExceptT.run_bind, StateT.run_bind]
  rcases q.run.run g with ⟨_ | _, g'⟩ <;> rfl

theorem counts_reading (p : Parser α) : Counts levels (liftM p) p where
  restores g a g' h := by
    change (reading p).run.run g = _ at h
    rw [run_reading] at h
    split at h <;> cases h
    rfl
  tallies g h _ := by
    change Tallies g ((reading p).run.run g) _
    rw [run_reading]
    rcases p.run g.cursor with e | ⟨a, cursor⟩
    · exact .error Int.le_rfl h
    · exact .ok rfl h

theorem counts_pure (a : α) : Counts levels (pure a) (pure a) where
  restores g _ g' h := by
    cases h
    rfl
  tallies _ h _ := .ok rfl h

theorem counts_throw (e : SyntaxError) : Counts levels (throw e : CountingParser α) (throw e) where
  restores _ _ _ h := by cases h
  tallies _ h _ := .error Int.le_rfl h

/-- What would come after a failure makes no difference. -/
theorem counts_throw_bind (e : SyntaxError) {f : β → CountingParser α} {f' : β → Parser α} :
    Counts levels (throw e >>= f) (throw e >>= f') where
  restores _ _ _ h := by cases h
  tallies _ h _ := .error Int.le_rfl h

theorem counts_failHere_bind (cause : SyntaxError.Cause) {f : β → CountingParser α}
    {f' : β → Parser α} :
    Counts levels (liftM (failHere cause : Parser β) >>= f) (failHere cause >>= f') where
  restores _ _ _ h := by cases h
  tallies _ h _ := .error Int.le_rfl h

theorem Counts.bind {f : α → CountingParser β} {f' : α → Parser β} (hq : Counts levels q p)
    (hf : ∀ a, Counts levels (f a) (f' a)) : Counts levels (q >>= f) (p >>= f') where
  restores g b g' h := by
    rw [run_bind] at h
    rcases hRun : q.run.run g with ⟨_ | a, g₁⟩ <;> rw [hRun] at h
    · cases h
    · exact ((hf a).restores _ _ _ h).trans (hq.restores _ _ _ hRun)
  tallies g h hLevels := by
    have hTallies := hq.tallies g h hLevels
    rw [run_bind, StateT.run_bind]
    generalize q.run.run g = r at hTallies
    generalize p.run g.cursor = r' at hTallies
    cases hTallies with
    | @ok a g₁ hCounter hWithin =>
      have hRest := (hf a).tallies g₁ hWithin (by rw [hCounter, hLevels])
      change Tallies g ((f a).run.run g₁) ((f' a).run g₁.cursor)
      generalize (f a).run.run g₁ = r at hRest
      generalize (f' a).run g₁.cursor = r' at hRest
      cases hRest with
      | ok hCounter' hWithin' => exact .ok (hCounter'.trans hCounter) hWithin'
      | error hCounter' hWithin' => exact .error (hCounter ▸ hCounter') hWithin'
    | error hCounter hWithin => exact .error hCounter hWithin

theorem Counts.ite {P : Prop} [Decidable P] {q' : CountingParser α} {p' : Parser α}
    (h : Counts levels q p) (h' : Counts levels q' p') :
    Counts levels (if P then q else q') (if P then p else p') := by
  split
  · exact h
  · exact h'

/-- `q'` opens one level and does there what `q` does. Behind a failure it may leave the level open. -/
structure Opens (q' q : CountingParser α) : Prop where
  refuses : ∀ g : Gauge, g.counter + 1 > maxNesting →
    q'.run.run g = (.error ⟨g.cursor.line, .tooDeep maxNesting⟩, g.turn 1)
  ok : ∀ (g g' : Gauge) (a : α), g.counter + 1 ≤ maxNesting → q.run.run (g.turn 1) = (.ok a, g') →
    q'.run.run g = (.ok a, g'.turn (-1))
  error : ∀ (g g' : Gauge) (e : SyntaxError), g.counter + 1 ≤ maxNesting →
    q.run.run (g.turn 1) = (.error e, g') →
    q'.run.run g = (.error e, g') ∨ q'.run.run g = (.error e, g'.turn (-1))

theorem run_descend_bind (f : Unit → CountingParser α) (g : Gauge) :
    (descend >>= f).run.run g =
      if g.counter + 1 > maxNesting then
        (.error ⟨g.cursor.line, .tooDeep maxNesting⟩, g.turn 1)
      else (f ()).run.run (g.turn 1) := by
  have hDescend : descend.run.run g =
      if g.counter + 1 > maxNesting then
        (.error ⟨g.cursor.line, .tooDeep maxNesting⟩, g.turn 1)
      else (.ok (), g.turn 1) := rfl
  rw [run_bind, hDescend]
  split_ifs <;> rfl

theorem opens_nested (q : CountingParser α) : Opens (nested q) q where
  refuses g h := by
    rw [nested, run_descend_bind, if_pos h]
  ok g g' a h hRun := by
    rw [nested, run_descend_bind, if_neg (Int.not_lt.mpr h), run_bind, hRun]
    rfl
  error g g' e h hRun := by
    rw [nested, run_descend_bind, if_neg (Int.not_lt.mpr h), run_bind, hRun]
    exact .inl rfl

theorem opens_enclosed (q : CountingParser α) : Opens (enclosed q) q where
  refuses g h := by
    rw [enclosed, run_descend_bind, if_pos h]
  ok g g' a h hRun := by
    rw [enclosed, run_descend_bind, if_neg (Int.not_lt.mpr h)]
    exact congrArg (fun r : Except SyntaxError α × Gauge => (r.1, r.2.turn (-1))) hRun
  error g g' e h hRun := by
    rw [enclosed, run_descend_bind, if_neg (Int.not_lt.mpr h)]
    exact .inr (congrArg (fun r : Except SyntaxError α × Gauge => (r.1, r.2.turn (-1))) hRun)

namespace Opens

variable {q' : CountingParser α}

theorem restores (hOpens : Opens q' q) (h : Restores q) : Restores q' := by
  intro g a g' hRun
  rcases Int.lt_or_le maxNesting (g.counter + 1) with hFull | hRoom
  · rw [hOpens.refuses g hFull] at hRun
    cases hRun
  rcases hInner : q.run.run (g.turn 1) with ⟨e | b, g₁⟩
  · rcases hOpens.error g g₁ e hRoom hInner with hError | hError
    · cases hError.symm.trans hRun
    · cases hError.symm.trans hRun
  · cases (hOpens.ok g g₁ b hRoom hInner).symm.trans hRun
    have hCounter := h _ _ _ hInner
    rw [Gauge.counter_turn] at hCounter ⊢
    omega

/-- A parser that is told of no level left has nothing to do, whatever stands there. -/
theorem counts_zero (hOpens : Opens q' q) (h : Restores q) : Counts 0 q' tooDeep where
  restores := hOpens.restores h
  tallies g hWithin hLevels := by
    have hNonneg := hWithin.nonneg
    rw [hOpens.refuses g (by omega)]
    exact .error (Int.le_add_of_nonneg_right (by decide)) (hWithin.turn (by omega) (by omega))

theorem counts_succ (hOpens : Opens q' q) (h : Counts levels q p) : Counts (levels + 1) q' p where
  restores := hOpens.restores h.restores
  tallies g hWithin hLevels := by
    have hNonneg := hWithin.nonneg
    have hRoom : g.counter + 1 ≤ maxNesting := by omega
    have hLevels' : (g.turn 1).counter + levels = maxNesting := by
      rw [Gauge.counter_turn]
      omega
    have hInner := h.tallies (g.turn 1) (hWithin.turn (by omega) (by omega)) hLevels'
    rw [Gauge.cursor_turn] at hInner
    generalize hRun : q.run.run (g.turn 1) = r at hInner
    generalize p.run g.cursor = r' at hInner
    cases hInner with
    | @ok a g₁ hCounter hWithin₁ =>
      rw [Gauge.counter_turn] at hCounter
      rw [hOpens.ok g g₁ a hRoom hRun]
      refine .ok ?_ (hWithin₁.turn (by omega) (by omega))
      rw [Gauge.counter_turn]
      omega
    | @error e g₁ hCounter hWithin₁ =>
      rw [Gauge.counter_turn] at hCounter
      have hHigh := (hWithin₁ g₁.counter List.mem_cons_self).2
      rcases hOpens.error g g₁ e hRoom hRun with hError | hError <;> rw [hError]
      · exact .error (by omega) hWithin₁
      · refine .error ?_ (hWithin₁.turn (by omega) (by omega))
        rw [Gauge.counter_turn]
        omega

end Opens

section Expressions

variable {operand inner exponent expr factor : CountingParser Expr}
  {operand' inner' exponent' expr' factor' : Parser Expr}

theorem Counts.chainFrom (h : Counts levels operand operand') (accepted : List Operator) (n : Nat)
    (lhs : Expr) : Counts levels (Counting.chainFrom accepted operand n lhs)
      (Parser.chainFrom accepted operand' n lhs) := by
  induction n generalizing lhs with
  | zero => exact counts_pure lhs
  | succ n ih =>
    refine (counts_reading (operator? accepted)).bind fun next => ?_
    cases next with
    | none => exact counts_pure lhs
    | some op =>
      exact (counts_reading advance).bind fun _ => h.bind fun rhs =>
        (counts_reading (join op lhs rhs)).bind fun e => ih e

theorem Counts.chain (h : Counts levels operand operand') (accepted : List Operator) :
    Counts levels (Counting.chain accepted operand) (Parser.chain accepted operand') :=
  h.bind fun lhs => h.chainFrom accepted _ lhs

theorem Counts.sum (h : Counts levels factor factor') :
    Counts levels (Counting.sum factor) (Parser.sum factor') :=
  (h.chain _).chain _

theorem Counts.primary (h : Counts levels inner inner') :
    Counts levels (Counting.primary inner) (Parser.primary inner') := by
  refine (counts_reading (nextIs _)).bind fun _ => .ite ?_ ?_
  · exact (counts_reading advance).bind fun _ => counts_pure _
  refine (counts_reading (nextIs _)).bind fun _ => .ite ?_ ?_
  · exact (counts_reading advance).bind fun _ => (counts_reading (direction _)).bind fun d =>
      counts_pure _
  refine (counts_reading (nextIs _)).bind fun _ => .ite ?_ ?_
  · exact (counts_reading advance).bind fun _ => h.bind fun e =>
      (counts_reading (expect _)).bind fun _ => counts_pure e
  refine (counts_reading token).bind fun t => ?_
  cases t.kind with
  | number =>
    cases numeral? t.text with
    | some n => exact counts_pure _
    | none => exact counts_throw _
  | word => exact .ite (counts_throw_bind _) (counts_pure _)
  | symbol => exact counts_throw _
  | invalid => exact counts_throw _

theorem Counts.powered (hInner : Counts levels inner inner')
    (hExponent : Counts levels exponent exponent') :
    Counts levels (Counting.powered inner exponent) (Parser.powered inner' exponent') := by
  refine hInner.primary.bind fun base => (counts_reading (nextIs _)).bind fun _ => .ite ?_ ?_
  · exact (counts_reading advance).bind fun _ => hExponent.bind fun rhs =>
      counts_reading (join .pow base rhs)
  · exact counts_pure base

theorem Counts.guard (h : Counts levels expr expr') :
    Counts levels (Counting.guard expr) (Parser.guard expr') :=
  (counts_reading (expect _)).bind fun _ => h.bind fun e =>
    (counts_reading (expect _)).bind fun _ => counts_pure e

/-- Without fuel there is nothing to tally with but the failure itself. -/
theorem counts_factor (fuel levels : Nat) : ∃ p, Counts levels (Counting.factor fuel) p ∧
    (levels < fuel → p = Parser.factor levels) := by
  induction fuel generalizing levels with
  | zero => exact ⟨_, counts_throw _, nofun⟩
  | succ fuel ih =>
    cases levels with
    | zero =>
      obtain ⟨p, hp, -⟩ := ih 0
      refine ⟨_, ?_, fun _ => rfl⟩
      exact ((opens_nested _).counts_zero hp.sum.restores).powered
        ((opens_nested _).counts_zero hp.restores)
    | succ levels =>
      obtain ⟨p, hp, hEq⟩ := ih levels
      refine ⟨_, ((opens_nested _).counts_succ hp.sum).powered ((opens_nested _).counts_succ hp), ?_⟩
      intro h
      rw [hEq (Nat.lt_of_succ_lt_succ h), Parser.factor]

end Expressions

section Statements

variable {stmt inner : CountingParser Stmt} {stmt' inner' : Parser Stmt}
  {expr : CountingParser Expr} {expr' : Parser Expr}

theorem Counts.statements (h : Counts levels stmt stmt') (n : Nat) :
    Counts levels (Counting.statements stmt n) (Parser.statements stmt' n) := by
  induction n with
  | zero => exact counts_pure []
  | succ n ih =>
    refine (counts_reading get).bind fun cursor => (counts_reading (nextIs _)).bind fun _ =>
      .ite (counts_pure []) ?_
    exact h.bind fun first => ih.bind fun rest => counts_pure _

theorem Counts.assignment (h : Counts levels expr expr') (target : Token) :
    Counts levels (Counting.assignment target expr) (Parser.assignment target expr') := by
  refine .ite (counts_throw_bind _) (.ite (counts_throw_bind _) ?_)
  refine (counts_reading (nextIs _)).bind fun _ => .ite ?_ (counts_failHere_bind _)
  exact (counts_reading advance).bind fun _ => h.bind fun e => counts_pure _

theorem Counts.command (h : Counts levels expr expr') :
    Counts levels (Counting.command expr) (Parser.command expr') := by
  refine (counts_reading token).bind ?_
  rintro ⟨kind, text, line⟩
  rcases Decidable.em (text = "done") with rfl | hDone
  · exact counts_pure _
  rcases Decidable.em (text = "relocate") with rfl | hRelocate
  · exact counts_pure _
  rcases Decidable.em (text = "move") with rfl | hMove
  · exact (counts_reading (direction _)).bind fun d => counts_pure _
  rcases Decidable.em (text = "invest") with rfl | hInvest
  · exact h.bind fun e => counts_pure _
  rcases Decidable.em (text = "collect") with rfl | hCollect
  · exact h.bind fun e => counts_pure _
  rcases Decidable.em (text = "shoot") with rfl | hShoot
  · exact (counts_reading (direction _)).bind fun d => h.bind fun e => counts_pure _
  -- None of the six is left, so both matches come to their last case.
  simp only
  exact h.assignment _

theorem Counts.statementOver (hExpr : Counts levels expr expr') (hInner : Counts levels inner inner')
    (size : Nat) : Counts levels (Counting.statementOver size expr inner)
      (Parser.statementOver size expr' inner') := by
  refine (counts_reading (nextIs _)).bind fun _ => .ite ?_ ?_
  · exact (counts_reading advance).bind fun _ => hExpr.guard.bind fun e =>
      (counts_reading (expect _)).bind fun _ => hInner.bind fun thenBranch =>
        (counts_reading (expect _)).bind fun _ => hInner.bind fun elseBranch => counts_pure _
  refine (counts_reading (nextIs _)).bind fun _ => .ite ?_ ?_
  · exact (counts_reading advance).bind fun _ => hExpr.guard.bind fun e =>
      hInner.bind fun body => counts_pure _
  refine (counts_reading (nextIs _)).bind fun _ => .ite ?_ hExpr.command
  exact (counts_reading advance).bind fun _ => (hInner.statements size).bind fun body =>
    (counts_reading (expect _)).bind fun _ => counts_pure _

theorem counts_statement (size fuel levels : Nat) :
    ∃ p, Counts levels (Counting.statement size fuel) p ∧
      (levels < fuel → p = Parser.statement size levels) := by
  induction fuel generalizing levels with
  | zero => exact ⟨_, counts_throw _, nofun⟩
  | succ fuel ih =>
    cases levels with
    | zero =>
      obtain ⟨p, hp, -⟩ := ih 0
      obtain ⟨e, he, -⟩ := counts_factor fuel 0
      exact ⟨_, (opens_enclosed _).counts_zero (he.sum.statementOver hp size).restores, fun _ => rfl⟩
    | succ levels =>
      obtain ⟨p, hp, hStmt⟩ := ih levels
      obtain ⟨e, he, hExpr⟩ := counts_factor fuel levels
      refine ⟨_, (opens_enclosed _).counts_succ (he.sum.statementOver hp size), ?_⟩
      intro h
      have hLess := Nat.lt_of_succ_lt_succ h
      rw [hStmt hLess, hExpr hLess, Parser.statement, Parser.expression]

theorem counts_plan {fuel : Nat} (h : maxNesting < fuel) :
    Counts maxNesting (Counting.plan fuel) Parser.plan := by
  refine (counts_reading get).bind fun _ => .ite (counts_failHere_bind _) ?_
  refine (counts_reading get).bind fun cursor => ?_
  obtain ⟨p, hp, hEq⟩ := counts_statement cursor.tokens.length fuel maxNesting
  rw [hEq h] at hp
  refine hp.bind fun first => (hp.statements _).bind fun rest =>
    (counts_reading get).bind fun cursor => ?_
  cases cursor.peek? with
  | some t => exact counts_throw _
  | none => exact counts_pure _

end Statements

namespace Counting

theorem run_plan_of_lt (text : String) {fuel : Nat} (h : maxNesting < fuel) :
    ∃ g, (Counting.plan fuel).run.run (Gauge.ofString text) = (Plan.parse text, g) ∧ g.Within := by
  have hStart : (Gauge.ofString text).Within :=
    List.forall_mem_singleton.mpr ⟨Int.le_refl 0, show (0 : Int) ≤ maxNesting + 1 by decide⟩
  have hTallies := (counts_plan h).tallies _ hStart rfl
  unfold Plan.parse
  change Tallies _ _ (Parser.plan.run (Cursor.ofString text)) at hTallies
  generalize (Counting.plan fuel).run.run (Gauge.ofString text) = r at hTallies
  generalize Parser.plan.run (Cursor.ofString text) = r' at hTallies
  cases hTallies with
  | ok _ hWithin => exact ⟨_, rfl, hWithin⟩
  | error _ hWithin => exact ⟨_, rfl, hWithin⟩

/-- Whatever fuel there is. -/
theorem restores_factor (fuel : Nat) : Restores (factor fuel) ∧ Restores (term (factor fuel)) ∧
    Restores (sum (factor fuel)) ∧ Restores (primary (nested (sum (factor fuel)))) := by
  obtain ⟨p, hp, -⟩ := counts_factor fuel 0
  exact ⟨hp.restores, (hp.chain _).restores, hp.sum.restores,
    ((opens_nested _).counts_zero hp.sum.restores).primary.restores⟩

theorem restores_statement (size fuel : Nat) : Restores (statement size fuel) := by
  obtain ⟨p, hp, -⟩ := counts_statement size fuel 0
  exact hp.restores

/-- The limit on nesting bounds every recursion. Whatever the text, the counter stays between 0 and
the first value that is refused, and whoever reads a statement or an expression leaves it as it was.
What has been read is nested and high within the limit. So neither a run nor a search for questions
to the board ever has more calls underway than a bound that no text can move. -/
theorem nesting_bounds_recursion :
    (∀ (text : String) (fuel : Nat), maxNesting < fuel →
      ∃ g, (plan fuel).run.run (Gauge.ofString text) = (Plan.parse text, g) ∧
        ∀ n ∈ g.shown, 0 ≤ n ∧ n ≤ maxNesting + 1) ∧
    (∀ fuel : Nat, (∀ size, Restores (statement size fuel)) ∧ Restores (sum (factor fuel)) ∧
      Restores (term (factor fuel)) ∧ Restores (factor fuel) ∧
      Restores (primary (nested (sum (factor fuel))))) ∧
    ∀ (text : String) (p : Plan), Plan.parse text = .ok p →
      p.nesting ≤ maxNesting ∧ (∀ e ∈ p.expressions, e.height ≤ maxNesting) ∧
      (∀ (σ : Type) [Host σ] (s : σ), ∃ most ≤ 3 * maxNesting + 1,
        p.framed.run ⟨s, 0, 0⟩ = ((p.run.run s).1, ⟨(p.run.run s).2, 0, most⟩)) ∧
      ∀ e ∈ p.expressions, ∃ most ≤ maxNesting + 1,
        e.usesInfoFramed.run ⟨(), 0, 0⟩ = (e.usesInfo, ⟨(), 0, most⟩) := by
  refine ⟨fun text fuel h => run_plan_of_lt text h, fun fuel => ?_, fun text p h => ?_⟩
  · obtain ⟨hFactor, hTerm, hSum, hPrimary⟩ := restores_factor fuel
    exact ⟨fun size => restores_statement size fuel, hSum, hTerm, hFactor, hPrimary⟩
  · obtain ⟨hNesting, hHeight⟩ := Plan.within_of_parse h
    refine ⟨hNesting, hHeight, ?_, ?_⟩
    · intro σ _ s
      obtain ⟨most, hMost, hRun⟩ := p.fitsIn_framed hNesting hHeight ⟨s, 0, 0⟩
      refine ⟨most, ?_, hRun⟩
      dsimp only at hMost
      omega
    · intro e he
      obtain ⟨most, hMost, hRun⟩ := e.fitsIn_usesInfoFramed ⟨(), 0, 0⟩
      have hLow := hHeight e he
      refine ⟨most, ?_, hRun⟩
      dsimp only at hMost
      omega

theorem power_loop_within_bounds :
    let text := "while (2 ^ (x)) done"
    let s : Rehearsal := ⟨∅, 0, [], some 1, false, 0, #[]⟩
    ∃ p, Plan.parse text = .ok p ∧ p.nesting ≤ maxNesting ∧
      (∃ g, (plan 129).run.run (Gauge.ofString text) = (.ok p, g) ∧
        ∀ n ∈ g.shown, 0 ≤ n ∧ n ≤ maxNesting + 1) ∧
      ∃ most ≤ 3 * maxNesting + 1,
        p.framed.run ⟨s, 0, 0⟩ = ((p.run.run s).1, ⟨(p.run.run s).2, 0, most⟩) := by
  intro text s
  cases hParse : Plan.parse text with
  | error e =>
    have hRead : (Plan.parse text).toOption.isSome = true := by decide +kernel
    rw [hParse] at hRead
    cases hRead
  | ok p =>
    obtain ⟨hNesting, -, hRun, -⟩ := nesting_bounds_recursion.2.2 text p hParse
    have hCount := nesting_bounds_recursion.1 text 129 (by decide)
    rw [hParse] at hCount
    exact ⟨p, rfl, hNesting, hCount, hRun Rehearsal s⟩

/-- One brace too many, and the counter shows the one value that is refused. -/
example : ((statement 130 200).run.run
    ⟨⟨List.replicate 129 ⟨.symbol, "\x7b", 1⟩, 1⟩, 0, []⟩).2.shown.max? = some 129 := by
  decide +kernel

end Counting

end Parser

end CityCrew
