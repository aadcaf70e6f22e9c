import CityCrew.Plan.Run
import CityCrew.Proofs.Parsing

/-!
# The depth of recursion

A plan runs by calls that stand within one another as its statements and expressions do. A framed
run counts the calls that are underway and remembers the most there have been at once. What a text
is read as is nested so little that this number has a bound that does not depend on the text.
-/

namespace CityCrew

open Grammar

variable {σ α β : Type}

mutual

/-- The number of statements that stand within one another, at most, this one included. -/
def Stmt.nesting : Stmt → Nat
  | assign _ _ _ => 1
  | block body => Stmt.nestingAll body + 1
  | ifThenElse _ thenBranch elseBranch => max thenBranch.nesting elseBranch.nesting + 1
  | whileDo _ body => body.nesting + 1
  | done => 1
  | act _ => 1

def Stmt.nestingAll : List Stmt → Nat
  | [] => 0
  | first :: rest => max first.nesting (Stmt.nestingAll rest)

end

def Plan.nesting (p : Plan) : Nat :=
  Stmt.nestingAll p.statements

theorem Stmt.nesting_pos (s : Stmt) : 0 < s.nesting := by
  cases s <;> exact Nat.succ_pos _

mutual

theorem Grammar.DerivesStmt.nesting_le : ∀ {ts rest : List Token} {s : Stmt} {n : Nat},
    DerivesStmt ts rest s n → s.nesting ≤ n := by
  intro ts rest s n h
  cases h with
  | assign => exact Nat.le_add_left 1 _
  | done => exact Nat.le_refl 1
  | relocate => exact Nat.le_refl 1
  | move => exact Nat.le_refl 1
  | invest => exact Nat.le_add_left 1 _
  | collect => exact Nat.le_add_left 1 _
  | shoot => exact Nat.le_add_left 1 _
  | ifThenElse _ _ _ hThen _ hElse =>
    have hThen := hThen.nesting_le
    have hElse := hElse.nesting_le
    rw [Stmt.nesting]
    omega
  | whileDo _ _ hBody =>
    have hBody := hBody.nesting_le
    rw [Stmt.nesting]
    omega
  | block _ hBody _ => exact Nat.succ_le_succ hBody.nestingAll_le

theorem Grammar.DerivesStmts.nestingAll_le : ∀ {ts rest : List Token} {body : List Stmt} {n : Nat},
    DerivesStmts ts rest body n → Stmt.nestingAll body ≤ n := by
  intro ts rest body n h
  cases h with
  | nil => exact Nat.le_refl 0
  | cons hFirst hMore =>
    have hFirst := hFirst.nesting_le
    have hMore := hMore.nestingAll_le
    rw [Stmt.nestingAll]
    omega

end

def Action.amounts : Action α → List α
  | move _ => []
  | invest amount => [amount]
  | collect amount => [amount]
  | relocate => []
  | shoot _ amount => [amount]

mutual

def Stmt.expressions : Stmt → List Expr
  | assign _ value _ => [value]
  | block body => Stmt.allExpressions body
  | ifThenElse guard thenBranch elseBranch =>
    guard :: (thenBranch.expressions ++ elseBranch.expressions)
  | whileDo guard body => guard :: body.expressions
  | done => []
  | act action => action.amounts

def Stmt.allExpressions : List Stmt → List Expr
  | [] => []
  | first :: rest => first.expressions ++ Stmt.allExpressions rest

end

def Plan.expressions (p : Plan) : List Expr :=
  Stmt.allExpressions p.statements

mutual

theorem Stmt.operations_eq (s : Stmt) : s.operations = s.expressions.flatMap Expr.operations := by
  cases s with
  | assign name value line => simp only [operations, expressions, List.flatMap_singleton]
  | block body => rw [operations, expressions, Stmt.operationsAll_eq body]
  | ifThenElse guard thenBranch elseBranch =>
    rw [operations, expressions, thenBranch.operations_eq, elseBranch.operations_eq,
      List.flatMap_cons, List.flatMap_append]
  | whileDo guard body => rw [operations, expressions, body.operations_eq, List.flatMap_cons]
  | done => rfl
  | act action =>
    cases action <;> simp only [operations, expressions, Action.amounts, List.flatMap_singleton,
      List.flatMap_nil]

theorem Stmt.operationsAll_eq (body : List Stmt) :
    Stmt.operationsAll body = (Stmt.allExpressions body).flatMap Expr.operations := by
  cases body with
  | nil => rfl
  | cons first rest =>
    rw [operationsAll, allExpressions, first.operations_eq, Stmt.operationsAll_eq rest,
      List.flatMap_append]

end

/-- What a text is read as has no statement deeper, and no expression higher, than `maxNesting`. -/
theorem Plan.within_of_parse {text : String} {p : Plan} (h : parse text = .ok p) :
    p.nesting ≤ maxNesting ∧ ∀ e ∈ p.expressions, e.height ≤ maxNesting := by
  obtain ⟨c', hYields⟩ := parse_eq_ok_iff_yields.mp h
  obtain ⟨hLow, n, hDepth, -, hDerives⟩ := Parser.sound_plan hYields
  constructor
  · exact hDerives.nestingAll_le.trans hDepth
  · intro e he
    refine Expr.forall_operations_iff.mp fun x hx => hLow x ?_
    rw [operations, Stmt.operationsAll_eq]
    exact List.mem_flatMap.mpr ⟨e, he, hx⟩

structure Framed (σ : Type) where
  world : σ
  underway : Nat
  /-- The most calls that have been underway at once. -/
  most : Nat

namespace Framed

/-- The world answers by itself: this is no call of the interpreter. -/
def outside (m : StateM σ α) : StateM (Framed σ) α := fun f =>
  let (a, world) := m.run f.world
  (a, { f with world := world })

def call (body : StateM (Framed σ) α) : StateM (Framed σ) α := do
  modify fun f => { f with underway := f.underway + 1, most := max f.most (f.underway + 1) }
  let a ← body
  modify fun f => { f with underway := f.underway - 1 }
  return a

theorem run_call (body : StateM (Framed σ) α) (f : Framed σ) : (call body).run f =
    let r := body.run ⟨f.world, f.underway + 1, max f.most (f.underway + 1)⟩
    (r.1, { r.2 with underway := r.2.underway - 1 }) :=
  rfl

end Framed

open Framed

def Expr.framed [Environment σ] (e : Expr) : StateM (Framed σ) Value :=
  call <| match e with
  | number n => return n
  | identifier name => outside (Environment.lookup name)
  | binary op lhs rhs => do
    let a ← lhs.framed
    let b ← rhs.framed
    return op.apply a b
  | opponent => outside Environment.opponent
  | nearby d => outside (Environment.nearby d)

def Expr.usesInfoFramed (e : Expr) : StateM (Framed Unit) Bool :=
  call <| match e with
  | opponent => return true
  | nearby _ => return true
  | binary _ lhs rhs => do
    if ← lhs.usesInfoFramed then return true else rhs.usesInfoFramed
  | number _ => return false
  | identifier _ => return false

section Run

variable [Host σ]

def Action.framed : Action Expr → StateM (Framed σ) (Action Value)
  | move d => return move d
  | invest amount => return invest (← amount.framed)
  | collect amount => return collect (← amount.framed)
  | relocate => return relocate
  | shoot d amount => return shoot d (← amount.framed)

mutual

def Stmt.framed (s : Stmt) : StateM (Framed σ) Flow :=
  call <| match s with
  | assign name value _ => do
    let v ← value.framed
    outside (Host.assign name v)
    return .proceed
  | block body => call (Stmt.framedInTurn body)
  | ifThenElse guard thenBranch elseBranch => do
    if (← guard.framed) > 0 then thenBranch.framed else elseBranch.framed
  | whileDo guard body => loop guard.framed body.framed maxRounds
  | done => return .halt
  | act action => do
    let action ← action.framed
    return .ofSuccess (← outside (Host.perform action))

/-- The statements of a list are called in turn, by one call for the whole list. -/
def Stmt.framedInTurn : List Stmt → StateM (Framed σ) Flow
  | [] => return .proceed
  | first :: rest => do
    match ← first.framed with
    | .proceed => Stmt.framedInTurn rest
    | .halt => return .halt

end

def Plan.framed (p : Plan) : StateM (Framed σ) Flow :=
  call (Stmt.framedInTurn p.statements)

end Run

/-- `m'` does what `m` does, with no more than `n` calls underway in addition to those that are
underway already. It ends all of them. -/
def FitsIn (n : Nat) (m : StateM σ α) (m' : StateM (Framed σ) α) : Prop :=
  ∀ f, ∃ most ≤ max f.most (f.underway + n),
    m'.run f = ((m.run f.world).1, ⟨(m.run f.world).2, f.underway, most⟩)

namespace FitsIn

variable {n n' : Nat} {m : StateM σ α} {m' : StateM (Framed σ) α}

theorem mono (h : FitsIn n m m') (hn : n ≤ n') : FitsIn n' m m' := by
  intro f
  obtain ⟨most, hMost, hRun⟩ := h f
  exact ⟨most, by omega, hRun⟩

theorem pure (a : α) : FitsIn (σ := σ) n (Pure.pure a) (Pure.pure a) :=
  fun f => ⟨f.most, Nat.le_max_left _ _, rfl⟩

theorem outside (m : StateM σ α) : FitsIn n m (Framed.outside m) :=
  fun f => ⟨f.most, Nat.le_max_left _ _, rfl⟩

theorem bind {k : α → StateM σ β} {k' : α → StateM (Framed σ) β} (hm : FitsIn n m m')
    (hk : ∀ a, FitsIn n (k a) (k' a)) : FitsIn n (m >>= k) (m' >>= k') := by
  intro f
  obtain ⟨most, hMost, hRun⟩ := hm f
  obtain ⟨most', hMost', hRest⟩ := hk (m.run f.world).1 ⟨(m.run f.world).2, f.underway, most⟩
  refine ⟨most', ?_, ?_⟩
  · dsimp only at hMost'
    omega
  · rw [StateT.run_bind, hRun]
    exact hRest

theorem ite {P : Prop} [Decidable P] {k : StateM σ α} {k' : StateM (Framed σ) α}
    (hm : FitsIn n m m') (hk : FitsIn n k k') :
    FitsIn n (if P then m else k) (if P then m' else k') := by
  split
  · exact hm
  · exact hk

theorem call (h : FitsIn n m m') : FitsIn (n + 1) m (Framed.call m') := by
  intro f
  obtain ⟨most, hMost, hRun⟩ := h ⟨f.world, f.underway + 1, max f.most (f.underway + 1)⟩
  refine ⟨most, ?_, ?_⟩
  · dsimp only at hMost
    omega
  · rw [run_call, hRun]
    rfl

theorem loop {guard : StateM σ Value} {guard' : StateM (Framed σ) Value} {body : StateM σ Flow}
    {body' : StateM (Framed σ) Flow} (hGuard : FitsIn n guard guard') (hBody : FitsIn n body body')
    (rounds : Nat) : FitsIn n (Stmt.loop guard body rounds) (Stmt.loop guard' body' rounds) := by
  induction rounds with
  | zero => exact .pure _
  | succ rounds ih =>
    refine .bind hGuard fun value => .ite (.bind hBody fun flow => ?_) (.pure _)
    cases flow with
    | proceed => exact ih
    | halt => exact .pure _

end FitsIn

theorem Expr.fitsIn_framed [Environment σ] (e : Expr) :
    FitsIn (σ := σ) (e.height + 1) e.eval e.framed := by
  induction e with
  | number n => exact .call (.pure n)
  | identifier name => exact .call (.outside _)
  | binary op lhs rhs hLhs hRhs =>
    apply FitsIn.call
    exact .bind (hLhs.mono (by rw [height]; omega)) fun a =>
      .bind (hRhs.mono (by rw [height]; omega)) fun b => .pure _
  | opponent => exact .call (.outside _)
  | nearby d => exact .call (.outside _)

theorem Expr.fitsIn_usesInfoFramed (e : Expr) :
    FitsIn (e.height + 1) (pure e.usesInfo) e.usesInfoFramed := by
  induction e with
  | binary op lhs rhs hLhs hRhs =>
    apply FitsIn.call
    have hBoth : (pure (binary op lhs rhs).usesInfo : StateM Unit Bool) =
        pure lhs.usesInfo >>= fun found => if found then pure true else pure rhs.usesInfo := by
      rw [pure_bind, usesInfo]
      cases lhs.usesInfo <;> rfl
    rw [hBoth]
    exact .bind (hLhs.mono (by rw [height]; omega)) fun found =>
      .ite (.pure _) (hRhs.mono (by rw [height]; omega))
  | _ => exact .call (.pure _)

section Run

variable [Host σ] {h : Nat}

theorem Action.fitsIn_framed (a : Action Expr) (hHeight : ∀ e ∈ a.amounts, e.height ≤ h) :
    FitsIn (σ := σ) (h + 1) a.eval a.framed := by
  cases a with
  | move d => exact .pure _
  | relocate => exact .pure _
  | invest amount | collect amount | shoot d amount =>
    have hAmount := List.forall_mem_singleton.mp hHeight
    exact .bind (amount.fitsIn_framed.mono (Nat.succ_le_succ hAmount)) fun _ => .pure _

mutual

theorem Stmt.fitsIn_framed {n : Nat} (s : Stmt) (hNesting : s.nesting ≤ n)
    (hHeight : ∀ e ∈ s.expressions, e.height ≤ h) :
    FitsIn (σ := σ) (2 * n + h) s.run s.framed := by
  have hPos := s.nesting_pos
  obtain ⟨n, rfl⟩ : ∃ k, n = k + 1 := ⟨n - 1, by omega⟩
  -- Of the two calls that this level may take, a statement takes the first and a list the second.
  rw [show 2 * (n + 1) + h = 2 * n + h + 1 + 1 by omega]
  cases s with
  | assign name value line =>
    rw [Stmt.run, Stmt.framed]
    have hValue := List.forall_mem_singleton.mp hHeight
    exact .call <| .bind (value.fitsIn_framed.mono (by omega)) fun v =>
      .bind (.outside _) fun _ => .pure _
  | block body =>
    rw [Stmt.run, Stmt.framed]
    rw [Stmt.nesting] at hNesting
    exact .call <| .call <| Stmt.fitsIn_framedInTurn body (Nat.le_of_succ_le_succ hNesting) hHeight
  | ifThenElse guard thenBranch elseBranch =>
    rw [Stmt.run, Stmt.framed]
    rw [Stmt.nesting] at hNesting
    simp only [Stmt.expressions, List.forall_mem_cons, List.forall_mem_append] at hHeight
    obtain ⟨hGuard, hThen, hElse⟩ := hHeight
    have hThen := Stmt.fitsIn_framed (n := n) thenBranch (by omega) hThen
    have hElse := Stmt.fitsIn_framed (n := n) elseBranch (by omega) hElse
    exact .call <| .bind (guard.fitsIn_framed.mono (by omega)) fun v =>
      .ite (hThen.mono (by omega)) (hElse.mono (by omega))
  | whileDo guard body =>
    rw [Stmt.run, Stmt.framed]
    rw [Stmt.nesting] at hNesting
    simp only [Stmt.expressions, List.forall_mem_cons] at hHeight
    have hBody := Stmt.fitsIn_framed (n := n) body (by omega) hHeight.2
    exact .call <| .loop (guard.fitsIn_framed.mono (by omega)) (hBody.mono (by omega)) maxRounds
  | done =>
    rw [Stmt.run, Stmt.framed]
    exact .call (.pure _)
  | act action =>
    rw [Stmt.run, Stmt.framed]
    exact .call <| .bind ((action.fitsIn_framed hHeight).mono (by omega)) fun a =>
      .bind (.outside _) fun _ => .pure _

theorem Stmt.fitsIn_framedInTurn {n : Nat} (body : List Stmt)
    (hNesting : Stmt.nestingAll body ≤ n) (hHeight : ∀ e ∈ Stmt.allExpressions body, e.height ≤ h) :
    FitsIn (σ := σ) (2 * n + h) (Stmt.runAll body) (Stmt.framedInTurn body) := by
  cases body with
  | nil =>
    rw [Stmt.runAll, Stmt.framedInTurn]
    exact .pure _
  | cons first rest =>
    rw [Stmt.runAll, Stmt.framedInTurn]
    rw [Stmt.nestingAll] at hNesting
    simp only [Stmt.allExpressions, List.forall_mem_append] at hHeight
    refine .bind (Stmt.fitsIn_framed first (by omega) hHeight.1) fun flow => ?_
    cases flow with
    | proceed => exact Stmt.fitsIn_framedInTurn rest (by omega) hHeight.2
    | halt => exact .pure _

end

/-- The calls that a run makes are counted by the depth of its statements, twice, and the height of
its expressions. -/
theorem Plan.fitsIn_framed {n : Nat} (p : Plan) (hNesting : p.nesting ≤ n)
    (hHeight : ∀ e ∈ p.expressions, e.height ≤ h) :
    FitsIn (σ := σ) (2 * n + h + 1) p.run p.framed :=
  .call (Stmt.fitsIn_framedInTurn p.statements hNesting hHeight)

end Run

end CityCrew
