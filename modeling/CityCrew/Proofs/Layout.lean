import Mathlib.Data.List.Forall2
import CityCrew.Game.Turn

/-!
# Layout

The layout of a text decides on which lines its tokens stand. The parsers carry these lines along:
into their errors, and into the assignments of a plan. Nothing else depends on them, and a plan that
runs knows nothing of its lines.
-/

namespace CityCrew

/-- The tokens may stand on different lines, and differ in nothing else. -/
structure Token.Alike (t u : Token) : Prop where
  kind_eq : t.kind = u.kind
  text_eq : t.text = u.text

instance (t u : Token) : Decidable (t.Alike u) :=
  decidable_of_iff (t.kind = u.kind ∧ t.text = u.text)
    ⟨fun ⟨hKind, hText⟩ => ⟨hKind, hText⟩, fun h => ⟨h.kind_eq, h.text_eq⟩⟩

/-- The same tokens lie ahead, up to their lines. The texts may end on different lines. -/
def Cursor.Alike (c d : Cursor) : Prop :=
  List.Forall₂ Token.Alike c.tokens d.tokens

instance (c d : Cursor) : Decidable (c.Alike d) :=
  inferInstanceAs (Decidable (List.Forall₂ Token.Alike c.tokens d.tokens))

theorem Cursor.Alike.isNone_peek? {c d : Cursor} (h : c.Alike d) :
    c.peek?.isNone = d.peek?.isNone := by
  obtain ⟨ts, line⟩ := c
  obtain ⟨us, line'⟩ := d
  cases h <;> rfl

mutual

def Stmt.unlined : Stmt → Stmt
  | assign name value _ => assign name value 0
  | block body => block (Stmt.allUnlined body)
  | ifThenElse guard thenBranch elseBranch =>
    ifThenElse guard thenBranch.unlined elseBranch.unlined
  | whileDo guard body => whileDo guard body.unlined
  | done => done
  | act action => act action

def Stmt.allUnlined : List Stmt → List Stmt
  | [] => []
  | first :: rest => first.unlined :: Stmt.allUnlined rest

end

def Plan.unlined (p : Plan) : Plan where
  statements := Stmt.allUnlined p.statements

section Run

variable {σ : Type} [Host σ]

mutual

theorem Stmt.run_unlined (s : Stmt) : (s.unlined.run : StateM σ Flow) = s.run := by
  cases s with
  | assign name value line => rw [unlined, run, run]
  | block body => rw [unlined, run, run, Stmt.runAll_allUnlined body]
  | ifThenElse guard thenBranch elseBranch =>
    rw [unlined, run, run, thenBranch.run_unlined, elseBranch.run_unlined]
  | whileDo guard body => rw [unlined, run, run, body.run_unlined]
  | done => rw [unlined]
  | act action => rw [unlined]

theorem Stmt.runAll_allUnlined (body : List Stmt) :
    (Stmt.runAll (Stmt.allUnlined body) : StateM σ Flow) = Stmt.runAll body := by
  cases body with
  | nil => rw [allUnlined]
  | cons first rest =>
    rw [allUnlined, runAll, runAll, first.run_unlined, Stmt.runAll_allUnlined rest]

end

theorem Plan.run_unlined (p : Plan) : (p.unlined.run : StateM σ Flow) = p.run :=
  Stmt.runAll_allUnlined p.statements

end Run

theorem Plan.run_eq_of_unlined_eq {p q : Plan} (h : p.unlined = q.unlined) {σ : Type} [Host σ] :
    (p.run : StateM σ Flow) = q.run := by
  rw [← p.run_unlined, h, q.run_unlined]

theorem Game.playTurn_eq_of_unlined_eq {p q : Plan} (h : p.unlined = q.unlined) (g : Game) :
    g.playTurn p = g.playTurn q := by
  rw [playTurn, playTurn, runTurn, runTurn, Plan.run_eq_of_unlined_eq h]

namespace Parser

variable {α β γ δ : Type} {R : α → β → Prop} {S : γ → δ → Prop}

/-- Both have failed for the same cause, or both have read something and stopped at places that differ
in layout only. -/
inductive Agree (R : α → β → Prop) :
    Except SyntaxError (α × Cursor) → Except SyntaxError (β × Cursor) → Prop
  | ok {a : α} {b : β} {c d : Cursor} : R a b → c.Alike d → Agree R (.ok (a, c)) (.ok (b, d))
  | error {e e' : SyntaxError} : e.cause = e'.cause → Agree R (.error e) (.error e')

def Alike (R : α → β → Prop) (p : Parser α) (q : Parser β) : Prop :=
  ∀ c d, c.Alike d → Agree R (p.run c) (q.run d)

theorem alike_pure {a : α} {b : β} (h : R a b) : Alike R (pure a) (pure b) :=
  fun _ _ hc => .ok h hc

theorem alike_throw {line line' : Nat} {cause : SyntaxError.Cause} :
    Alike R (throw ⟨line, cause⟩) (throw ⟨line', cause⟩) :=
  fun _ _ _ => .error rfl

/-- What would come after a failure makes no difference. -/
theorem alike_throw_bind {line line' : Nat} {cause : SyntaxError.Cause} {f : α → Parser γ}
    {g : β → Parser δ} : Alike S (throw ⟨line, cause⟩ >>= f) (throw ⟨line', cause⟩ >>= g) :=
  fun _ _ _ => .error rfl

theorem alike_failHere {cause : SyntaxError.Cause} : Alike R (failHere cause) (failHere cause) :=
  fun _ _ _ => .error rfl

theorem alike_failHere_bind {cause : SyntaxError.Cause} {f : α → Parser γ} {g : β → Parser δ} :
    Alike S (failHere cause >>= f) (failHere cause >>= g) :=
  fun _ _ _ => .error rfl

theorem Alike.bind {p : Parser α} {q : Parser β} {f : α → Parser γ} {g : β → Parser δ}
    (hp : Alike R p q) (hf : ∀ a b, R a b → Alike S (f a) (g b)) :
    Alike S (p >>= f) (q >>= g) := by
  intro c d hc
  rw [StateT.run_bind, StateT.run_bind]
  generalize hr : p.run c = r
  generalize hs : q.run d = s
  cases hr ▸ hs ▸ hp c d hc with
  | ok h hc => exact hf _ _ h _ _ hc
  | error h => exact .error h

theorem Alike.bind_eq {p q : Parser α} {f : α → Parser γ} {g : α → Parser δ}
    (hp : Alike Eq p q) (hf : ∀ a, Alike S (f a) (g a)) : Alike S (p >>= f) (q >>= g) :=
  hp.bind fun a _ h => h ▸ hf a

theorem Alike.ite {P : Prop} [Decidable P] {p p' : Parser α} {q q' : Parser β} (hp : Alike R p q)
    (hp' : Alike R p' q') : Alike R (if P then p else p') (if P then q else q') := by
  split
  · exact hp
  · exact hp'

theorem alike_get : Alike Cursor.Alike get get :=
  fun _ _ hc => .ok hc hc

theorem alike_advance : Alike Eq advance advance := by
  rintro ⟨ts, line⟩ ⟨us, line'⟩ (_ | ⟨_, hts⟩)
  · exact .ok rfl .nil
  · exact .ok rfl hts

theorem alike_tooDeep : Alike R tooDeep tooDeep :=
  alike_failHere

theorem alike_nextIs (text : String) : Alike Eq (nextIs text) (nextIs text) := by
  rintro ⟨ts, line⟩ ⟨us, line'⟩ hc
  refine .ok ?_ hc
  cases hc with
  | nil => rfl
  | cons ht _ =>
    change decide (_ = text) = decide (_ = text)
    rw [ht.text_eq]

theorem run_expect_cons (text : String) (t : Token) (ts : List Token) (line : Nat) :
    (expect text).run ⟨t :: ts, line⟩ =
      if t.text = text then .ok ((), ⟨ts, line⟩)
      else .error ⟨t.line, .unexpectedToken text t.text⟩ := by
  have hExpect : (Cursor.mk (t :: ts) line).expect text =
      if t.text = text then .ok (t, ⟨ts, line⟩)
      else .error ⟨t.line, .unexpectedToken text t.text⟩ := rfl
  unfold Parser.expect
  simp only [StateT.run_bind, StateT.run_get, pure_bind]
  rw [hExpect]
  split <;> rfl

theorem alike_token : Alike Token.Alike token token := by
  refine alike_get.bind ?_
  rintro ⟨ts, line⟩ ⟨us, line'⟩ (_ | ⟨ht, -⟩)
  · exact alike_failHere
  · dsimp only [Cursor.peek?, List.head?_cons]
    rw [ht.kind_eq, ht.text_eq]
    exact .ite alike_throw_bind (alike_advance.bind_eq fun _ => alike_pure ht)

theorem alike_expect (text : String) : Alike Eq (expect text) (expect text) := by
  rintro ⟨ts, line⟩ ⟨us, line'⟩ (_ | ⟨ht, hts⟩)
  · exact .error rfl
  · rw [run_expect_cons, run_expect_cons, ht.text_eq]
    split
    · exact .ok rfl hts
    · exact .error rfl

theorem alike_direction (cause : String → SyntaxError.Cause) :
    Alike Eq (direction cause) (direction cause) := by
  refine alike_token.bind fun t u ht => ?_
  rw [ht.text_eq]
  split
  · exact alike_pure rfl
  · exact alike_throw

theorem alike_operator? (accepted : List Operator) :
    Alike Eq (operator? accepted) (operator? accepted) := by
  rintro ⟨ts, line⟩ ⟨us, line'⟩ hc
  refine .ok ?_ hc
  cases hc with
  | nil => rfl
  | cons ht _ =>
    change (Operator.ofSymbol? _).filter _ = (Operator.ofSymbol? _).filter _
    rw [ht.text_eq]

theorem alike_join (op : Operator) (lhs rhs : Expr) :
    Alike Eq (join op lhs rhs) (join op lhs rhs) := by
  unfold join
  refine .ite ?_ (alike_pure rfl)
  exact alike_failHere_bind

theorem Alike.chainFrom {operand : Parser Expr} (h : Alike Eq operand operand)
    (accepted : List Operator) (n : Nat) (lhs : Expr) :
    Alike Eq (chainFrom accepted operand n lhs) (chainFrom accepted operand n lhs) := by
  induction n generalizing lhs with
  | zero => exact alike_pure rfl
  | succ n ih =>
    refine (alike_operator? accepted).bind_eq fun op => ?_
    cases op with
    | none => exact alike_pure rfl
    | some op =>
      exact alike_advance.bind_eq fun _ => h.bind_eq fun rhs => (alike_join op lhs rhs).bind_eq ih

theorem Alike.chain {operand : Parser Expr} (h : Alike Eq operand operand)
    (accepted : List Operator) : Alike Eq (chain accepted operand) (chain accepted operand) :=
  h.bind_eq fun lhs => h.chainFrom accepted _ lhs

theorem Alike.sum {factor : Parser Expr} (h : Alike Eq factor factor) :
    Alike Eq (sum factor) (sum factor) :=
  (h.chain _).chain _

theorem Alike.primary {nested : Parser Expr} (h : Alike Eq nested nested) :
    Alike Eq (primary nested) (primary nested) := by
  unfold Parser.primary
  -- The three primaries with a beginning of their own come first, then the single tokens.
  refine (alike_nextIs _).bind_eq fun _ => .ite ?_ ?_
  · exact alike_advance.bind_eq fun _ => alike_pure rfl
  refine (alike_nextIs _).bind_eq fun _ => .ite ?_ ?_
  · exact alike_advance.bind_eq fun _ => (alike_direction _).bind_eq fun _ => alike_pure rfl
  refine (alike_nextIs _).bind_eq fun _ => .ite ?_ ?_
  · exact alike_advance.bind_eq fun _ => h.bind_eq fun _ => (alike_expect _).bind_eq fun _ =>
      alike_pure rfl
  refine alike_token.bind fun t u ht => ?_
  rw [ht.kind_eq, ht.text_eq]
  split
  · split
    · exact alike_pure rfl
    · exact alike_throw
  · exact .ite alike_throw_bind (alike_pure rfl)
  all_goals exact alike_throw

theorem Alike.powered {nested exponent : Parser Expr} (hNested : Alike Eq nested nested)
    (hExponent : Alike Eq exponent exponent) :
    Alike Eq (powered nested exponent) (powered nested exponent) := by
  refine hNested.primary.bind_eq fun base => (alike_nextIs _).bind_eq fun _ => .ite ?_ ?_
  · exact alike_advance.bind_eq fun _ => hExponent.bind_eq fun rhs => alike_join .pow base rhs
  · exact alike_pure rfl

theorem alike_factor (levels : Nat) : Alike Eq (factor levels) (factor levels) := by
  induction levels with
  | zero => exact alike_tooDeep.powered alike_tooDeep
  | succ levels ih => exact ih.sum.powered ih

theorem alike_expression (levels : Nat) : Alike Eq (expression levels) (expression levels) :=
  (alike_factor levels).sum

theorem Alike.guard {expr : Parser Expr} (h : Alike Eq expr expr) :
    Alike Eq (guard expr) (guard expr) :=
  (alike_expect _).bind_eq fun _ => h.bind_eq fun _ => (alike_expect _).bind_eq fun _ =>
    alike_pure rfl

def AlikeStmt (stmt : Parser Stmt) : Prop :=
  Alike (fun s s' => s.unlined = s'.unlined) stmt stmt

theorem AlikeStmt.statements {stmt : Parser Stmt} (h : AlikeStmt stmt) (n : Nat) :
    Alike (fun body body' => Stmt.allUnlined body = Stmt.allUnlined body') (statements stmt n)
      (statements stmt n) := by
  induction n with
  | zero => exact alike_pure rfl
  | succ n ih =>
    refine alike_get.bind fun c d hc => ?_
    rw [hc.isNone_peek?]
    refine (alike_nextIs _).bind_eq fun _ => .ite (alike_pure rfl) ?_
    refine h.bind fun s s' hs => ih.bind fun body body' hBody => alike_pure ?_
    rw [Stmt.allUnlined, Stmt.allUnlined, hs, hBody]

theorem Alike.assignment {expr : Parser Expr} (h : Alike Eq expr expr) {t u : Token}
    (ht : t.Alike u) :
    Alike (fun s s' => s.unlined = s'.unlined) (assignment t expr) (assignment u expr) := by
  unfold Parser.assignment
  rw [ht.kind_eq, ht.text_eq]
  refine .ite alike_throw_bind (.ite alike_throw_bind ?_)
  refine (alike_nextIs _).bind_eq fun _ => .ite ?_ alike_failHere_bind
  refine alike_advance.bind_eq fun _ => h.bind_eq fun e => alike_pure ?_
  rw [Stmt.unlined, Stmt.unlined]

theorem Alike.command {expr : Parser Expr} (h : Alike Eq expr expr) : AlikeStmt (command expr) := by
  refine alike_token.bind fun t u ht => ?_
  rw [ht.text_eq]
  split
  · exact alike_pure rfl
  · exact alike_pure rfl
  · exact (alike_direction _).bind_eq fun _ => alike_pure rfl
  · exact h.bind_eq fun _ => alike_pure rfl
  · exact h.bind_eq fun _ => alike_pure rfl
  · exact (alike_direction _).bind_eq fun _ => h.bind_eq fun _ => alike_pure rfl
  · exact h.assignment ht

theorem AlikeStmt.statementOver {expr : Parser Expr} {nested : Parser Stmt}
    (hExpr : Alike Eq expr expr) (hNested : AlikeStmt nested) (size : Nat) :
    AlikeStmt (statementOver size expr nested) := by
  unfold Parser.statementOver
  refine (alike_nextIs _).bind_eq fun _ => .ite ?_ ?_
  · refine alike_advance.bind_eq fun _ => hExpr.guard.bind_eq fun e =>
      (alike_expect _).bind_eq fun _ => hNested.bind fun s s' hs =>
        (alike_expect _).bind_eq fun _ => hNested.bind fun r r' hr => alike_pure ?_
    rw [Stmt.unlined, Stmt.unlined, hs, hr]
  refine (alike_nextIs _).bind_eq fun _ => .ite ?_ ?_
  · refine alike_advance.bind_eq fun _ => hExpr.guard.bind_eq fun e =>
      hNested.bind fun s s' hs => alike_pure ?_
    rw [Stmt.unlined, Stmt.unlined, hs]
  refine (alike_nextIs _).bind_eq fun _ => .ite ?_ hExpr.command
  refine alike_advance.bind_eq fun _ => (hNested.statements size).bind fun body body' hBody =>
    (alike_expect _).bind_eq fun _ => alike_pure ?_
  rw [Stmt.unlined, Stmt.unlined, hBody]

theorem alikeStmt_statement (size levels : Nat) : AlikeStmt (statement size levels) := by
  induction levels with
  | zero => exact alike_tooDeep
  | succ levels ih => exact .statementOver (alike_expression levels) ih size

theorem alike_plan : Alike (fun p q : Plan => p.unlined = q.unlined) plan plan := by
  unfold plan
  refine alike_get.bind fun c d hc => ?_
  rw [hc.isNone_peek?]
  refine .ite alike_failHere_bind (alike_get.bind fun c d hc => ?_)
  dsimp only
  rw [List.Forall₂.length_eq hc]
  refine (alikeStmt_statement _ _).bind fun s s' hs =>
    ((alikeStmt_statement _ _).statements _).bind fun body body' hBody => alike_get.bind ?_
  rintro ⟨ts, line⟩ ⟨us, line'⟩ (_ | ⟨ht, -⟩)
  · refine alike_pure ?_
    rw [Plan.unlined, Plan.unlined, Stmt.allUnlined, Stmt.allUnlined, hs, hBody]
  · dsimp only [Cursor.peek?, List.head?_cons]
    rw [ht.text_eq]
    exact alike_throw

end Parser

namespace Plan

theorem parse_alike {text text' : String}
    (h : (Cursor.ofString text).Alike (Cursor.ofString text')) :
    (∃ p q, parse text = .ok p ∧ parse text' = .ok q ∧ p.unlined = q.unlined) ∨
      ∃ e e', parse text = .error e ∧ parse text' = .error e' ∧ e.cause = e'.cause := by
  have hAgree := Parser.alike_plan _ _ h
  unfold parse
  generalize Parser.plan.run (Cursor.ofString text) = r at hAgree
  generalize Parser.plan.run (Cursor.ofString text') = r' at hAgree
  cases hAgree with
  | ok hPlans _ => exact .inl ⟨_, _, rfl, rfl, hPlans⟩
  | error hCause => exact .inr ⟨_, _, rfl, rfl, hCause⟩

/-- Layout has no meaning. Texts with the same tokens are read as the same plan, up to the lines of
its assignments, or refused for the same cause. What differs only in these lines runs the same in
every world, and makes the same turn in every game. -/
theorem layout_has_no_meaning :
    (∀ text text' : String, (Cursor.ofString text).Alike (Cursor.ofString text') →
      (∃ p q, parse text = .ok p ∧ parse text' = .ok q ∧ p.unlined = q.unlined) ∨
        ∃ e e', parse text = .error e ∧ parse text' = .error e' ∧ e.cause = e'.cause) ∧
    ∀ p q : Plan, p.unlined = q.unlined →
      (∀ (σ : Type) [Host σ], (p.run : StateM σ Flow) = q.run) ∧
        ∀ g : Game, g.playTurn p = g.playTurn q := by
  refine ⟨fun _ _ => parse_alike, fun p q h => ⟨?_, ?_⟩⟩
  · intro σ _
    exact run_eq_of_unlined_eq h
  · exact Game.playTurn_eq_of_unlined_eq h

theorem shots_laid_out_twice : ∃ p q,
    parse "shoot up 1 x = 1" = .ok p ∧ parse "shoot\n\tup 1\nx=1" = .ok q ∧
      p.unlined = q.unlined ∧ ∀ g : Game, g.playTurn p = g.playTurn q := by
  rcases layout_has_no_meaning.1 "shoot up 1 x = 1" "shoot\n\tup 1\nx=1" (by decide +kernel) with
    ⟨p, q, hp, hq, hSame⟩ | ⟨e, _, he, _⟩
  · exact ⟨p, q, hp, hq, hSame, (layout_has_no_meaning.2 p q hSame).2⟩
  · have hRead : (parse "shoot up 1 x = 1").toOption.isSome = true := by decide +kernel
    rw [he] at hRead
    cases hRead

end Plan

end CityCrew
