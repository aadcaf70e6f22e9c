import CityCrew.Plan.Basic
import CityCrew.Plan.Cursor

/-!
# Reading a plan

```text
Plan       = Statement+
Statement  = if ( Sum ) then Statement else Statement
           | while ( Sum ) Statement
           | { Statement* }
           | Command
Command    = identifier = Sum | done | relocate | move Direction
           | invest Sum | collect Sum | shoot Direction Sum
Sum        = Term ((+ | -) Term)*
Term       = Factor ((* | / | %) Factor)*
Factor     = Primary | Primary ^ Factor
Primary    = number | identifier | ( Sum ) | opponent | nearby Direction
```

Statements, parentheses and exponents may stand within one another at most `maxNesting` deep, and
no expression may be higher than that. Each parser below takes the number of levels that may still
be opened, and the recursion is on this number. A chain of operators ends because each of them makes
its expression higher. A sequence of statements has no more of them than the text has tokens.
-/

namespace CityCrew

abbrev Parser (α : Type) := StateT Cursor (Except SyntaxError) α

def maxNesting : Nat := 128

def reservedWords : List String :=
  ["collect", "done", "down", "downleft", "downright", "else", "if", "invest", "move", "nearby",
    "opponent", "relocate", "shoot", "then", "up", "upleft", "upright", "while"]

/-- The value of a string of decimal digits, if it is one and no greater than a value can be. -/
def numeral? (text : String) : Option Value :=
  let digits := text.toList
  if digits.isEmpty || !digits.all Char.isDigit then none
  else
    let n := digits.foldl (fun n c => 10 * n + (c.toNat - '0'.toNat)) 0
    if (n : Int) ≤ Int64.maxValue.toInt then some (Int64.ofNat n) else none

namespace Parser

def failHere {α : Type} (cause : SyntaxError.Cause) : Parser α := do
  throw ⟨(← get).line, cause⟩

def tooDeep {α : Type} : Parser α :=
  failHere (.tooDeep maxNesting)

def nextIs (text : String) : Parser Bool := do
  return (← get).nextIs text

def advance : Parser Unit :=
  modify Cursor.advance

def token : Parser Token := do
  match (← get).peek? with
  | none => failHere .unexpectedEnd
  | some t =>
    if t.kind = .invalid then throw ⟨t.line, .unexpectedCharacter t.text⟩
    advance
    return t

def expect (text : String) : Parser Unit := do
  let (_, cursor) ← (← get).expect text
  set cursor

/-- Reads a direction; `cause` says what is wrong with a token that is none. -/
def direction (cause : String → SyntaxError.Cause) : Parser Direction := do
  let t ← token
  match Direction.ofKeyword? t.text with
  | some d => return d
  | none => throw ⟨t.line, cause t.text⟩

def operator? (accepted : List Operator) : Parser (Option Operator) := do
  return (← get).peek?.bind fun t => (Operator.ofSymbol? t.text).filter (· ∈ accepted)

/-- Puts two operands together, unless the tree would become too high. -/
def join (op : Operator) (lhs rhs : Expr) : Parser Expr := do
  let e := Expr.binary op lhs rhs
  if e.height > maxNesting then tooDeep
  return e

def chainFrom (accepted : List Operator) (operand : Parser Expr) : Nat → Expr → Parser Expr
  | 0, lhs => return lhs
  | n + 1, lhs => do
    match ← operator? accepted with
    | none => return lhs
    | some op =>
      advance
      let rhs ← operand
      chainFrom accepted operand n (← join op lhs rhs)

/-- Operands with operators of `accepted` between them, grouped from the left. With more than
`maxNesting` operators the expression would be too high. -/
def chain (accepted : List Operator) (operand : Parser Expr) : Parser Expr := do
  let lhs ← operand
  chainFrom accepted operand (maxNesting + 1) lhs

def sum (factor : Parser Expr) : Parser Expr :=
  chain [.add, .sub] (chain [.mul, .div, .rem] factor)

def primary (nested : Parser Expr) : Parser Expr := do
  if ← nextIs "opponent" then
    advance
    return .opponent
  else if ← nextIs "nearby" then
    advance
    return .nearby (← direction .invalidInfoExpression)
  else if ← nextIs "(" then
    advance
    let e ← nested
    expect ")"
    return e
  else
    let t ← token
    match t.kind with
    | .number =>
      match numeral? t.text with
      | some n => return .number n
      | none => throw ⟨t.line, .invalidNumber t.text⟩
    | .word =>
      if t.text ∈ reservedWords then throw ⟨t.line, .reservedIdentifier t.text⟩
      return .identifier t.text
    | .symbol | .invalid => throw ⟨t.line, .unexpectedToken "expression" t.text⟩

def powered (nested exponent : Parser Expr) : Parser Expr := do
  let base ← primary nested
  if ← nextIs "^" then
    advance
    join .pow base (← exponent)
  else
    return base

def factor : Nat → Parser Expr
  | 0 => powered tooDeep tooDeep
  | levels + 1 => powered (sum (factor levels)) (factor levels)

def expression (levels : Nat) : Parser Expr :=
  sum (factor levels)

def guard (expr : Parser Expr) : Parser Expr := do
  expect "("
  let e ← expr
  expect ")"
  return e

/-- Up to `n` statements, as far as the next closing brace or the end. -/
def statements (stmt : Parser Stmt) : Nat → Parser (List Stmt)
  | 0 => return []
  | n + 1 => do
    if (← get).peek?.isNone || (← nextIs "\x7d") then return []
    let first ← stmt
    let rest ← statements stmt n
    return first :: rest

def assignment (target : Token) (expr : Parser Expr) : Parser Stmt := do
  if target.kind ≠ .word then throw ⟨target.line, .unknownCommand target.text⟩
  if target.text ∈ reservedWords then throw ⟨target.line, .reservedIdentifier target.text⟩
  unless ← nextIs "=" do failHere (.missingAssignment target.text)
  advance
  return .assign target.text (← expr) target.line

def command (expr : Parser Expr) : Parser Stmt := do
  let t ← token
  match t.text with
  | "done" => return .done
  | "relocate" => return .act .relocate
  | "move" => return .act (.move (← direction .invalidDirection))
  | "invest" => return .act (.invest (← expr))
  | "collect" => return .act (.collect (← expr))
  | "shoot" =>
    let d ← direction .invalidDirection
    return .act (.shoot d (← expr))
  | _ => assignment t expr

/-- One statement, with `expr` and `nested` for the expressions and statements in it, and up to
`size` statements in a block. -/
def statementOver (size : Nat) (expr : Parser Expr) (nested : Parser Stmt) : Parser Stmt := do
  if ← nextIs "if" then
    advance
    let e ← guard expr
    expect "then"
    let thenBranch ← nested
    expect "else"
    let elseBranch ← nested
    return .ifThenElse e thenBranch elseBranch
  else if ← nextIs "while" then
    advance
    let e ← guard expr
    return .whileDo e (← nested)
  else if ← nextIs "\x7b" then
    advance
    let body ← statements nested size
    expect "\x7d"
    return .block body
  else
    command expr

def statement (size : Nat) : Nat → Parser Stmt
  | 0 => tooDeep
  | levels + 1 => statementOver size (expression levels) (statement size levels)

def plan : Parser Plan := do
  if (← get).peek?.isNone then failHere .emptyPlan
  let size := (← get).tokens.length
  let first ← statement size maxNesting
  let rest ← statements (statement size maxNesting) size
  match (← get).peek? with
  | some t => throw ⟨t.line, .leftoverToken t.text⟩
  | none => return ⟨first :: rest⟩

end Parser

namespace Plan

def parse (text : String) : Except SyntaxError Plan := do
  let (plan, _) ← Parser.plan.run (Cursor.ofString text)
  return plan

end Plan

end CityCrew
