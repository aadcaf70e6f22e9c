import Mathlib.Data.Nat.Digits.Defs
import CityCrew.Plan.Parser

/-!
# The grammar of plans

The grammar says which tokens make a plan, and which one, without a word on how to find it out. A
phrase stands at the front of a list of tokens and leaves a rest behind it. It comes with its tree
and with a number: how deep statements, parentheses and exponents stand within one another in it.
Nothing here limits this depth or the height of the trees.
-/

namespace CityCrew

namespace Grammar

def decimal (digits : List Char) : Nat :=
  Nat.ofDigits 10 (digits.reverse.map fun c => c.toNat - '0'.toNat)

/-- The text is made of digits alone, and `n` is its value. Greater values than there are have no
numeral. -/
structure Numeral (text : String) (n : Value) : Prop where
  nonempty : text.toList ≠ []
  digits : ∀ c ∈ text.toList, c.isDigit = true
  le_maxValue : (decimal text.toList : Int) ≤ Int64.maxValue.toInt
  value_eq : n = Int64.ofNat (decimal text.toList)

def Identifier (t : Token) : Prop :=
  t.kind = .word ∧ t.text ∉ reservedWords

/-- The two ranks of operators that group their operands from the left. -/
inductive Rank where
  | additive
  | multiplicative

def Rank.operators : Rank → List Operator
  | additive => [.add, .sub]
  | multiplicative => [.mul, .div, .rem]

/-- The categories of expressions. A chain has operators of one rank; what may follow its part
`lhs` is of the category `more rank lhs`. -/
inductive Category where
  | chain (rank : Rank)
  | more (rank : Rank) (lhs : Expr)
  | factor
  | primary
  | enclosed

abbrev Category.sum : Category :=
  chain .additive

abbrev Category.term : Category :=
  chain .multiplicative

def Rank.operand : Rank → Category
  | additive => .term
  | multiplicative => .factor

/-- `Derives c ts rest e n`: a phrase of category `c` stands at the front of `ts` and leaves `rest`
behind it. Its tree is `e`, and its depth is `n`. -/
inductive Derives : Category → List Token → List Token → Expr → Nat → Prop where
  | chain {rank : Rank} {ts us rest : List Token} {lhs e : Expr} {m n : Nat} :
      Derives rank.operand ts us lhs m → Derives (.more rank lhs) us rest e n →
      Derives (.chain rank) ts rest e (max m n)
  | noMore {rank : Rank} {ts : List Token} {lhs : Expr} : Derives (.more rank lhs) ts ts lhs 0
  | more {rank : Rank} {t : Token} {ts us rest : List Token} {lhs rhs e : Expr} {op : Operator}
      {m n : Nat} : op ∈ rank.operators → t.Is op.symbol →
      Derives rank.operand ts us rhs m → Derives (.more rank (.binary op lhs rhs)) us rest e n →
      Derives (.more rank lhs) (t :: ts) rest e (max m n)
  | bare {ts rest : List Token} {e : Expr} {n : Nat} :
      Derives .primary ts rest e n → Derives .factor ts rest e n
  | power {t : Token} {ts us rest : List Token} {base exponent : Expr} {m n : Nat} :
      Derives .primary ts (t :: us) base m → t.Is "^" → Derives .factor us rest exponent n →
      Derives .factor ts rest (.binary .pow base exponent) (max m (n + 1))
  | number {t : Token} {ts : List Token} {k : Value} :
      t.kind = .number → Numeral t.text k → Derives .primary (t :: ts) ts (.number k) 0
  | identifier {t : Token} {ts : List Token} :
      Identifier t → Derives .primary (t :: ts) ts (.identifier t.text) 0
  | parentheses {ts rest : List Token} {e : Expr} {n : Nat} :
      Derives .enclosed ts rest e n → Derives .primary ts rest e (n + 1)
  | opponent {t : Token} {ts : List Token} :
      t.Is "opponent" → Derives .primary (t :: ts) ts .opponent 0
  | nearby {t u : Token} {ts : List Token} {d : Direction} :
      t.Is "nearby" → u.Is d.keyword → Derives .primary (t :: u :: ts) ts (.nearby d) 0
  | enclosed {t u : Token} {ts rest : List Token} {e : Expr} {n : Nat} :
      t.Is "(" → Derives .sum ts (u :: rest) e n → u.Is ")" →
      Derives .enclosed (t :: ts) rest e n

mutual

inductive DerivesStmt : List Token → List Token → Stmt → Nat → Prop where
  | assign {t u : Token} {ts rest : List Token} {e : Expr} {n : Nat} :
      Identifier t → u.Is "=" → Derives .sum ts rest e n →
      DerivesStmt (t :: u :: ts) rest (.assign t.text e t.line) (n + 1)
  | done {t : Token} {ts : List Token} : t.Is "done" → DerivesStmt (t :: ts) ts .done 1
  | relocate {t : Token} {ts : List Token} :
      t.Is "relocate" → DerivesStmt (t :: ts) ts (.act .relocate) 1
  | move {t u : Token} {ts : List Token} {d : Direction} :
      t.Is "move" → u.Is d.keyword → DerivesStmt (t :: u :: ts) ts (.act (.move d)) 1
  | invest {t : Token} {ts rest : List Token} {e : Expr} {n : Nat} :
      t.Is "invest" → Derives .sum ts rest e n →
      DerivesStmt (t :: ts) rest (.act (.invest e)) (n + 1)
  | collect {t : Token} {ts rest : List Token} {e : Expr} {n : Nat} :
      t.Is "collect" → Derives .sum ts rest e n →
      DerivesStmt (t :: ts) rest (.act (.collect e)) (n + 1)
  | shoot {t u : Token} {ts rest : List Token} {d : Direction} {e : Expr} {n : Nat} :
      t.Is "shoot" → u.Is d.keyword → Derives .sum ts rest e n →
      DerivesStmt (t :: u :: ts) rest (.act (.shoot d e)) (n + 1)
  | ifThenElse {t u v : Token} {ts us vs rest : List Token} {guard : Expr} {a b : Stmt}
      {l m n : Nat} : t.Is "if" → Derives .enclosed ts (u :: us) guard l → u.Is "then" →
      DerivesStmt us (v :: vs) a m → v.Is "else" → DerivesStmt vs rest b n →
      DerivesStmt (t :: ts) rest (.ifThenElse guard a b) (max l (max m n) + 1)
  | whileDo {t : Token} {ts us rest : List Token} {guard : Expr} {body : Stmt} {m n : Nat} :
      t.Is "while" → Derives .enclosed ts us guard m → DerivesStmt us rest body n →
      DerivesStmt (t :: ts) rest (.whileDo guard body) (max m n + 1)
  | block {t u : Token} {ts rest : List Token} {body : List Stmt} {n : Nat} :
      t.Is "\x7b" → DerivesStmts ts (u :: rest) body n → u.Is "\x7d" →
      DerivesStmt (t :: ts) rest (.block body) (n + 1)

/-- Any number of statements, with the depth of the deepest one. -/
inductive DerivesStmts : List Token → List Token → List Stmt → Nat → Prop where
  | nil {ts : List Token} : DerivesStmts ts ts [] 0
  | cons {ts us rest : List Token} {first : Stmt} {more : List Stmt} {m n : Nat} :
      DerivesStmt ts us first m → DerivesStmts us rest more n →
      DerivesStmts ts rest (first :: more) (max m n)

end

def DerivesPlan (tokens : List Token) (plan : Plan) (n : Nat) : Prop :=
  plan.statements ≠ [] ∧ DerivesStmts tokens [] plan.statements n

end Grammar

def Expr.operations : Expr → List Expr
  | binary op lhs rhs => binary op lhs rhs :: (lhs.operations ++ rhs.operations)
  | _ => []

mutual

def Stmt.operations : Stmt → List Expr
  | assign _ value _ => value.operations
  | block body => Stmt.operationsAll body
  | ifThenElse guard thenBranch elseBranch =>
    guard.operations ++ (thenBranch.operations ++ elseBranch.operations)
  | whileDo guard body => guard.operations ++ body.operations
  | done => []
  | act (.move _) => []
  | act (.invest amount) => amount.operations
  | act (.collect amount) => amount.operations
  | act .relocate => []
  | act (.shoot _ amount) => amount.operations

def Stmt.operationsAll : List Stmt → List Expr
  | [] => []
  | first :: rest => first.operations ++ Stmt.operationsAll rest

end

def Plan.operations (p : Plan) : List Expr :=
  Stmt.operationsAll p.statements

theorem Expr.height_binary (op : Operator) (lhs rhs : Expr) :
    (binary op lhs rhs).height = max lhs.height rhs.height + 1 :=
  rfl

/-- All operator nodes are low enough if the root is. -/
theorem Expr.forall_operations_iff {e : Expr} {n : Nat} :
    (∀ x ∈ e.operations, x.height ≤ n) ↔ e.height ≤ n := by
  induction e with
  | binary op lhs rhs hLhs hRhs =>
    simp only [operations, List.forall_mem_cons, List.forall_mem_append, hLhs, hRhs, height_binary]
    omega
  | _ => simp [operations, height]

end CityCrew
