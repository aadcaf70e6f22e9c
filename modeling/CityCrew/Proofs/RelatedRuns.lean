import CityCrew.Plan.Run

/-!
# Runs in related worlds

Two worlds may differ in what no call can tell. If related worlds give the same answer to every call
and are still related after it, then a plan takes the same course in both of them, because calls are
all that it knows of its world.
-/

namespace CityCrew

variable {σ τ α β : Type} {R : σ → τ → Prop}

/-- In related worlds the two computations have the same result, and leave related worlds. -/
def Respects (R : σ → τ → Prop) (m : StateM σ α) (m' : StateM τ α) : Prop :=
  ∀ s t, R s t → (m.run s).1 = (m'.run t).1 ∧ R (m.run s).2 (m'.run t).2

namespace Respects

theorem pure (a : α) : Respects R (Pure.pure a) (Pure.pure a) :=
  fun _ _ h => ⟨rfl, h⟩

theorem bind {m : StateM σ α} {m' : StateM τ α} {f : α → StateM σ β} {f' : α → StateM τ β}
    (hm : Respects R m m') (hf : ∀ a, Respects R (f a) (f' a)) :
    Respects R (m >>= f) (m' >>= f') := by
  intro s t h
  obtain ⟨hAnswer, hNext⟩ := hm s t h
  have hRest : (((f (m.run s).1).run (m.run s).2).1 = ((f' (m'.run t).1).run (m'.run t).2).1) ∧
      R ((f (m.run s).1).run (m.run s).2).2 ((f' (m'.run t).1).run (m'.run t).2).2 := by
    rw [hAnswer]
    exact hf _ _ _ hNext
  exact hRest

theorem ite {p : Prop} [Decidable p] {m n : StateM σ α} {m' n' : StateM τ α}
    (hm : Respects R m m') (hn : Respects R n n') :
    Respects R (if p then m else n) (if p then m' else n') := by
  split
  · exact hm
  · exact hn

theorem mapM {f : α → StateM σ β} {f' : α → StateM τ β} (hf : ∀ a, Respects R (f a) (f' a))
    (as : List α) : Respects R (as.mapM f) (as.mapM f') := by
  induction as with
  | nil =>
    rw [List.mapM_nil, List.mapM_nil]
    exact .pure _
  | cons a as ih =>
    rw [List.mapM_cons, List.mapM_cons]
    exact .bind (hf a) fun b => .bind ih fun bs => .pure (b :: bs)

/-- A world is related to itself as long as it keeps a property that the computation preserves. -/
theorem of_preserves {P : σ → Prop} {m : StateM σ α} (h : ∀ s, P s → P (m.run s).2) :
    Respects (fun s t => s = t ∧ P s) m m := by
  rintro s _ ⟨rfl, hs⟩
  exact ⟨rfl, rfl, h s hs⟩

end Respects

theorem Stmt.respects_loop {guard : StateM σ Value} {guard' : StateM τ Value}
    {body : StateM σ Flow} {body' : StateM τ Flow} (hGuard : Respects R guard guard')
    (hBody : Respects R body body') (n : Nat) :
    Respects R (Stmt.loop guard body n) (Stmt.loop guard' body' n) := by
  induction n with
  | zero => exact .pure _
  | succ n ih =>
    refine .bind hGuard fun value => .ite (.bind hBody fun flow => ?_) (.pure _)
    cases flow with
    | proceed => exact ih
    | halt => exact .pure _

def Expr.identifiers : Expr → List String
  | identifier name => [name]
  | binary _ lhs rhs => lhs.identifiers ++ rhs.identifiers
  | number _ => []
  | opponent => []
  | nearby _ => []

def Action.identifiers : Action Expr → List String
  | invest amount => amount.identifiers
  | collect amount => amount.identifiers
  | shoot _ amount => amount.identifiers
  | move _ => []
  | relocate => []

mutual

/-- The identifiers that occur in the expressions of a statement. The name that an assignment binds
is none of them. -/
def Stmt.identifiers : Stmt → List String
  | assign _ value _ => value.identifiers
  | block body => Stmt.allIdentifiers body
  | ifThenElse guard thenBranch elseBranch =>
    guard.identifiers ++ thenBranch.identifiers ++ elseBranch.identifiers
  | whileDo guard body => guard.identifiers ++ body.identifiers
  | done => []
  | act action => action.identifiers

def Stmt.allIdentifiers : List Stmt → List String
  | [] => []
  | first :: rest => first.identifiers ++ Stmt.allIdentifiers rest

end

def Plan.identifiers (p : Plan) : List String :=
  Stmt.allIdentifiers p.statements

mutual

def Stmt.actions : Stmt → List (Action Expr)
  | assign _ _ _ => []
  | block body => Stmt.allActions body
  | ifThenElse _ thenBranch elseBranch => thenBranch.actions ++ elseBranch.actions
  | whileDo _ body => body.actions
  | done => []
  | act action => [action]

def Stmt.allActions : List Stmt → List (Action Expr)
  | [] => []
  | first :: rest => first.actions ++ Stmt.allActions rest

end

def Plan.actions (p : Plan) : List (Action Expr) :=
  Stmt.allActions p.statements

/-- An expression does nothing but ask, so it is enough that its questions are answered alike. -/
theorem Expr.respects_eval_of_lookup [Environment σ] [Environment τ] (e : Expr)
    (hLookup : ∀ name ∈ e.identifiers,
      Respects R (Environment.lookup name) (Environment.lookup name))
    (hInfo : e.usesInfo = true → Respects R Environment.opponent Environment.opponent ∧
      ∀ d, Respects R (Environment.nearby d) (Environment.nearby d)) :
    Respects R e.eval e.eval := by
  induction e with
  | number n => exact .pure n
  | identifier name => exact hLookup name (List.mem_singleton_self name)
  | binary op lhs rhs hlhs hrhs =>
    simp only [identifiers, List.forall_mem_append] at hLookup
    simp only [usesInfo, Bool.or_eq_true] at hInfo
    have hLeft := hlhs hLookup.1 fun h => hInfo (.inl h)
    have hRight := hrhs hLookup.2 fun h => hInfo (.inr h)
    exact .bind hLeft fun a => .bind hRight fun b => .pure (op.apply a b)
  | opponent => exact (hInfo rfl).1
  | nearby d => exact (hInfo rfl).2 d

/-- Related worlds cannot be told apart by any call, as long as only the identifiers in `names` are
looked up. -/
structure IndistinctFor [Host σ] [Host τ] (names : String → Prop) (R : σ → τ → Prop) : Prop where
  lookup : ∀ name, names name → Respects R (Environment.lookup name) (Environment.lookup name)
  opponent : Respects R Environment.opponent Environment.opponent
  nearby : ∀ d, Respects R (Environment.nearby d) (Environment.nearby d)
  assign : ∀ name value, Respects R (Host.assign name value) (Host.assign name value)
  perform : ∀ action, Respects R (Host.perform action) (Host.perform action)

abbrev Indistinct [Host σ] [Host τ] (R : σ → τ → Prop) : Prop :=
  IndistinctFor (fun _ => True) R

section Run

variable [Host σ] [Host τ] {names : String → Prop}

mutual

/-- A statement is run alike in related worlds if its expressions, bindings and actions are. -/
theorem Stmt.respects_run_of
    (hEval : ∀ e : Expr, (∀ name ∈ e.identifiers, names name) → Respects R e.eval e.eval)
    (hAssign : ∀ name value, Respects R (Host.assign name value) (Host.assign name value))
    (s : Stmt) (hNames : ∀ name ∈ s.identifiers, names name)
    (hAct : ∀ action ∈ s.actions, (∀ name ∈ action.identifiers, names name) →
      Respects R (action.eval >>= Host.perform) (action.eval >>= Host.perform)) :
    Respects R s.run s.run := by
  cases s with
  | assign name value line =>
    rw [Stmt.run, Stmt.run]
    exact .bind (hEval value (by rwa [Stmt.identifiers] at hNames)) fun v =>
      .bind (hAssign name v) fun _ => .pure _
  | block body =>
    rw [Stmt.run, Stmt.run]
    exact Stmt.respects_runAll_of hEval hAssign body (by rwa [Stmt.identifiers] at hNames)
      (by rwa [Stmt.actions] at hAct)
  | ifThenElse guard thenBranch elseBranch =>
    rw [Stmt.run, Stmt.run]
    simp only [Stmt.identifiers, List.forall_mem_append] at hNames
    simp only [Stmt.actions, List.forall_mem_append] at hAct
    exact .bind (hEval guard hNames.1.1) fun v =>
      .ite (Stmt.respects_run_of hEval hAssign thenBranch hNames.1.2 hAct.1)
        (Stmt.respects_run_of hEval hAssign elseBranch hNames.2 hAct.2)
  | whileDo guard body =>
    rw [Stmt.run, Stmt.run]
    simp only [Stmt.identifiers, List.forall_mem_append] at hNames
    rw [Stmt.actions] at hAct
    exact Stmt.respects_loop (hEval guard hNames.1)
      (Stmt.respects_run_of hEval hAssign body hNames.2 hAct) maxRounds
  | done =>
    rw [Stmt.run, Stmt.run]
    exact .pure _
  | act action =>
    rw [Stmt.run, Stmt.run, ← bind_assoc, ← bind_assoc]
    rw [Stmt.identifiers] at hNames
    exact .bind (hAct action (List.mem_singleton_self action) hNames) fun _ => .pure _

theorem Stmt.respects_runAll_of
    (hEval : ∀ e : Expr, (∀ name ∈ e.identifiers, names name) → Respects R e.eval e.eval)
    (hAssign : ∀ name value, Respects R (Host.assign name value) (Host.assign name value))
    (body : List Stmt) (hNames : ∀ name ∈ Stmt.allIdentifiers body, names name)
    (hAct : ∀ action ∈ Stmt.allActions body, (∀ name ∈ action.identifiers, names name) →
      Respects R (action.eval >>= Host.perform) (action.eval >>= Host.perform)) :
    Respects R (Stmt.runAll body) (Stmt.runAll body) := by
  cases body with
  | nil =>
    rw [Stmt.runAll, Stmt.runAll]
    exact .pure _
  | cons first rest =>
    rw [Stmt.runAll, Stmt.runAll]
    simp only [Stmt.allIdentifiers, List.forall_mem_append] at hNames
    simp only [Stmt.allActions, List.forall_mem_append] at hAct
    refine .bind (Stmt.respects_run_of hEval hAssign first hNames.1 hAct.1) fun flow => ?_
    cases flow with
    | proceed => exact Stmt.respects_runAll_of hEval hAssign rest hNames.2 hAct.2
    | halt => exact .pure _

end

theorem Expr.respects_eval (h : IndistinctFor names R) (e : Expr)
    (hNames : ∀ name ∈ e.identifiers, names name) : Respects R e.eval e.eval :=
  e.respects_eval_of_lookup (fun name hName => h.lookup name (hNames name hName)) fun _ =>
    ⟨h.opponent, h.nearby⟩

theorem Action.respects_eval (h : IndistinctFor names R) (a : Action Expr)
    (hNames : ∀ name ∈ a.identifiers, names name) : Respects R a.eval a.eval := by
  cases a with
  | move d => exact .pure _
  | invest amount => exact .bind (amount.respects_eval h hNames) fun _ => .pure _
  | collect amount => exact .bind (amount.respects_eval h hNames) fun _ => .pure _
  | relocate => exact .pure _
  | shoot d amount => exact .bind (amount.respects_eval h hNames) fun _ => .pure _

/-- A plan that looks up only the given identifiers cannot tell related worlds apart. -/
theorem Plan.respects_run_for (h : IndistinctFor names R) (p : Plan)
    (hNames : ∀ name ∈ p.identifiers, names name) : Respects R p.run p.run :=
  Stmt.respects_runAll_of (Expr.respects_eval h) h.assign p.statements hNames
    fun action _ hNames => .bind (action.respects_eval h hNames) h.perform

theorem Plan.respects_run (h : Indistinct R) (p : Plan) : Respects R p.run p.run :=
  p.respects_run_for h fun _ _ => trivial

/-- What survives every question and every binding survives a plan without actions. -/
theorem Plan.preserves_run_of_no_actions {P : σ → Prop} {p : Plan} (hActions : p.actions = [])
    (hLookup : ∀ name s, P s → P ((Environment.lookup name).run s).2)
    (hOpponent : ∀ s, P s → P (Environment.opponent.run s).2)
    (hNearby : ∀ d s, P s → P ((Environment.nearby d).run s).2)
    (hAssign : ∀ name value s, P s → P ((Host.assign name value).run s).2) {start : σ}
    (h : P start) : P (p.run.run start).2 := by
  have hEval : ∀ e : Expr, Respects (fun s t => s = t ∧ P s) e.eval e.eval := fun e =>
    e.respects_eval_of_lookup (fun name _ => .of_preserves (hLookup name)) fun _ =>
      ⟨.of_preserves hOpponent, fun d => .of_preserves (hNearby d)⟩
  have hRun : Respects (fun s t => s = t ∧ P s) p.run p.run := by
    refine Stmt.respects_runAll_of (fun e _ => hEval e)
      (fun name value => .of_preserves (hAssign name value)) p.statements (fun _ _ => trivial) ?_
    rw [Plan.actions] at hActions
    simp [hActions]
  exact (hRun start start ⟨rfl, h⟩).2.2

end Run

end CityCrew
