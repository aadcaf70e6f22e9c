import CityCrew.Proofs.Calls

/-!
# The end of a run

A run that is traced notes every statement that it begins and every expression that it evaluates for
one, along with the calls. The notes show how a run ends: with a failed action or `done`, and then
at once, however deep in the plan it happens, or else without any of the two.
-/

namespace CityCrew

variable {σ α β : Type}

inductive Step (σ : Type) where
  | statement (s : Stmt)
  /-- The value of an assignment, a guard or an amount is worked out. -/
  | expression (e : Expr)
  | call (c : Call σ)

namespace Step

def call? : Step σ → Option (Call σ)
  | statement _ => none
  | expression _ => none
  | call c => some c

inductive Halts [Host σ] : Step σ → Prop where
  | done : Halts (.statement .done)
  | failed {c : Call σ} : c.succeeds = false → Halts (.call c)

end Step

structure Traced (σ : Type) where
  world : σ
  steps : List (Step σ)

namespace Traced

def note (step : Step σ) : StateM (Traced σ) Unit :=
  modify fun t => { t with steps := t.steps ++ [step] }

def noteCall (event : Event) (answer : StateM σ α) : StateM (Traced σ) α := fun t =>
  let (a, world) := answer.run t.world
  (a, { world := world, steps := t.steps ++ [.call { event := event, before := t.world }] })

instance [Environment σ] : Environment (Traced σ) where
  lookup name := noteCall (.lookup name) (Environment.lookup name)
  opponent := noteCall .opponent Environment.opponent
  nearby d := noteCall (.nearby d) (Environment.nearby d)

instance [Host σ] : Host (Traced σ) where
  assign name value := noteCall (.assign name value) (Host.assign name value)
  perform action := noteCall (.act action) (Host.perform action)

end Traced

section Trace

variable [Host σ]

def Expr.trace (e : Expr) : StateM (Traced σ) Value := do
  Traced.note (.expression e)
  e.eval

def Action.trace : Action Expr → StateM (Traced σ) (Action Value)
  | move d => return move d
  | invest amount => return invest (← amount.trace)
  | collect amount => return collect (← amount.trace)
  | relocate => return relocate
  | shoot d amount => return shoot d (← amount.trace)

mutual

def Stmt.trace (s : Stmt) : StateM (Traced σ) Flow := do
  Traced.note (.statement s)
  match s with
  | assign name value _ =>
    Host.assign name (← value.trace)
    return .proceed
  | block body => Stmt.traceAll body
  | ifThenElse guard thenBranch elseBranch =>
    if (← guard.trace) > 0 then thenBranch.trace else elseBranch.trace
  | whileDo guard body => loop guard.trace body.trace maxRounds
  | done => return .halt
  | act action =>
    let action ← action.trace
    return .ofSuccess (← Host.perform action)

def Stmt.traceAll : List Stmt → StateM (Traced σ) Flow
  | [] => return .proceed
  | first :: rest => do
    match ← first.trace with
    | .proceed => Stmt.traceAll rest
    | .halt => return .halt

end

def Plan.steps (p : Plan) (s : σ) : List (Step σ) :=
  ((Stmt.traceAll p.statements).run { world := s, steps := [] }).2.steps

namespace Traced

def toRecorded (t : Traced σ) : Recorded σ where
  world := t.world
  calls := t.steps.filterMap Step.call?

def Matches (r : Recorded σ) (t : Traced σ) : Prop :=
  r = t.toRecorded

omit [Host σ] in
theorem respects_note {step : Step σ} (hStep : step.call? = none) {m : StateM (Recorded σ) α}
    {m' : StateM (Traced σ) α} (h : Respects Matches m m') :
    Respects Matches m (do note step; m') := by
  rintro _ t rfl
  apply h
  change t.toRecorded = toRecorded { t with steps := t.steps ++ [step] }
  rw [toRecorded, toRecorded, List.filterMap_append, List.filterMap_cons_none hStep,
    List.filterMap_nil, List.append_nil]

omit [Host σ] in
theorem respects_noteCall (event : Event) (answer : StateM σ α) :
    Respects Matches (Recorded.record event answer) (noteCall event answer) := by
  rintro _ t rfl
  refine ⟨rfl, ?_⟩
  have hCalls : (t.steps ++ [Step.call { event := event, before := t.world }]).filterMap Step.call? =
      t.steps.filterMap Step.call? ++ [{ event := event, before := t.world }] :=
    List.filterMap_append
  exact congrArg (Recorded.mk (answer.run t.world).2) hCalls.symm

theorem matches_indistinct : Indistinct (Matches (σ := σ)) where
  lookup _ _ := respects_noteCall _ _
  opponent := respects_noteCall _ _
  nearby _ := respects_noteCall _ _
  assign _ _ := respects_noteCall _ _
  perform _ := respects_noteCall _ _

end Traced

open Traced

theorem Expr.respects_trace (e : Expr) :
    Respects Matches (e.eval : StateM (Recorded σ) Value) e.trace :=
  respects_note rfl (e.respects_eval matches_indistinct fun _ _ => trivial)

theorem Action.respects_trace (a : Action Expr) :
    Respects Matches (a.eval : StateM (Recorded σ) (Action Value)) a.trace := by
  cases a with
  | move d => exact .pure _
  | invest amount => exact .bind amount.respects_trace fun _ => .pure _
  | collect amount => exact .bind amount.respects_trace fun _ => .pure _
  | relocate => exact .pure _
  | shoot d amount => exact .bind amount.respects_trace fun _ => .pure _

mutual

theorem Stmt.respects_trace (s : Stmt) :
    Respects Matches (s.run : StateM (Recorded σ) Flow) s.trace := by
  cases s with
  | assign name value line =>
    rw [Stmt.run, Stmt.trace]
    exact respects_note rfl <| .bind value.respects_trace fun v =>
      .bind (matches_indistinct.assign name v) fun _ => .pure _
  | block body =>
    rw [Stmt.run, Stmt.trace]
    exact respects_note rfl (Stmt.respects_traceAll body)
  | ifThenElse guard thenBranch elseBranch =>
    rw [Stmt.run, Stmt.trace]
    exact respects_note rfl <| .bind guard.respects_trace fun _ =>
      .ite (Stmt.respects_trace thenBranch) (Stmt.respects_trace elseBranch)
  | whileDo guard body =>
    rw [Stmt.run, Stmt.trace]
    exact respects_note rfl <|
      Stmt.respects_loop guard.respects_trace (Stmt.respects_trace body) maxRounds
  | done =>
    rw [Stmt.run, Stmt.trace]
    exact respects_note rfl (.pure _)
  | act action =>
    rw [Stmt.run, Stmt.trace]
    exact respects_note rfl <| .bind action.respects_trace fun a =>
      .bind (matches_indistinct.perform a) fun _ => .pure _

theorem Stmt.respects_traceAll (body : List Stmt) :
    Respects Matches (Stmt.runAll body : StateM (Recorded σ) Flow) (Stmt.traceAll body) := by
  cases body with
  | nil =>
    rw [Stmt.runAll, Stmt.traceAll]
    exact .pure _
  | cons first rest =>
    rw [Stmt.runAll, Stmt.traceAll]
    refine .bind (Stmt.respects_trace first) fun flow => ?_
    cases flow with
    | proceed => exact Stmt.respects_traceAll rest
    | halt => exact .pure _

end

/-- A traced run is the run itself, and the calls among its steps are the calls of the plan. -/
theorem Plan.run_traced (p : Plan) (s : σ) :
    (Stmt.traceAll p.statements).run { world := s, steps := [] } =
        ((p.run.run s).1, { world := (p.run.run s).2, steps := p.steps s }) ∧
      (p.steps s).filterMap Step.call? = p.calls s := by
  obtain ⟨hFlow, hRecord⟩ := Stmt.respects_traceAll p.statements { world := s, calls := [] }
    { world := s, steps := [] } rfl
  change ((p.run : StateM (Recorded σ) Flow).run { world := s, calls := [] }).1 = _ at hFlow
  change ((p.run : StateM (Recorded σ) Flow).run { world := s, calls := [] }).2 = _ at hRecord
  rw [p.run_recorded s] at hFlow hRecord
  constructor
  · have hWorld : (p.run.run s).2 = ((Stmt.traceAll p.statements).run ⟨s, []⟩).2.world :=
      congrArg Recorded.world hRecord
    rw [hFlow, hWorld]
    rfl
  · exact (congrArg Recorded.calls hRecord).symm

def NoneHalts (steps : List (Step σ)) : Prop :=
  ∀ x ∈ steps, ¬ x.Halts

/-- The last step is the one that halts, if the flow says so, and no other step does. -/
def Ends (steps : List (Step σ)) : Flow → Prop
  | .proceed => NoneHalts steps
  | .halt => ∃ front last, steps = front ++ [last] ∧ NoneHalts front ∧ last.Halts

variable {front steps : List (Step σ)} {flow : Flow} {m : StateM (Traced σ) α}
  {f : α → StateM (Traced σ) β} {first rest : StateM (Traced σ) Flow}

theorem NoneHalts.append (h : NoneHalts front) (h' : NoneHalts steps) : NoneHalts (front ++ steps) :=
  List.forall_mem_append.mpr ⟨h, h'⟩

theorem NoneHalts.ends_append (h : NoneHalts front) (h' : Ends steps flow) :
    Ends (front ++ steps) flow := by
  cases flow with
  | proceed => exact h.append h'
  | halt =>
    obtain ⟨front', last, rfl, hFront, hLast⟩ := h'
    exact ⟨front ++ front', last, (List.append_assoc _ _ _).symm, h.append hFront, hLast⟩

/-- From any trace on, the computation takes steps that have the property `P`, which may depend on
its result. -/
def Takes (m : StateM (Traced σ) α) (P : List (Step σ) → α → Prop) : Prop :=
  ∀ t, ∃ steps, (m.run t).2.steps = t.steps ++ steps ∧ P steps (m.run t).1

abbrev Quiet (m : StateM (Traced σ) α) : Prop :=
  Takes m fun steps _ => NoneHalts steps

abbrev FailsFast (m : StateM (Traced σ) Flow) : Prop :=
  Takes m Ends

omit [Host σ] in
theorem takes_pure {P : List (Step σ) → α → Prop} {a : α} (h : P [] a) : Takes (pure a) P :=
  fun _ => ⟨[], (List.append_nil _).symm, h⟩

omit [Host σ] in
theorem Takes.bind {P : List (Step σ) → α → Prop} {Q : α → List (Step σ) → β → Prop}
    {S : List (Step σ) → β → Prop} (hm : Takes m P) (hf : ∀ a, Takes (f a) (Q a))
    (h : ∀ xs ys a b, P xs a → Q a ys b → S (xs ++ ys) b) : Takes (m >>= f) S := by
  intro t
  obtain ⟨xs, hxs, hP⟩ := hm t
  obtain ⟨ys, hys, hQ⟩ := hf (m.run t).1 (m.run t).2
  refine ⟨xs ++ ys, ?_, h xs ys _ _ hP hQ⟩
  rw [← List.append_assoc, ← hxs]
  exact hys

theorem quiet_pure (a : α) : Quiet (pure a : StateM (Traced σ) α) :=
  takes_pure (List.forall_mem_nil _)

theorem quiet_note {step : Step σ} (h : ¬ step.Halts) : Quiet (Traced.note step) :=
  fun _ => ⟨[step], rfl, List.forall_mem_singleton.mpr h⟩

/-- A call that is no action succeeds. -/
theorem quiet_noteCall {event : Event} (h : ∀ s : σ, (event.exec s).1 = true) (answer : StateM σ α) :
    Quiet (Traced.noteCall event answer) := by
  intro t
  refine ⟨[.call { event := event, before := t.world }], rfl, List.forall_mem_singleton.mpr ?_⟩
  rintro ⟨⟩
  next hFailed =>
    rw [Call.succeeds, h] at hFailed
    cases hFailed

theorem Quiet.bind (hm : Quiet m) (hf : ∀ a, Quiet (f a)) : Quiet (m >>= f) :=
  Takes.bind hm hf fun _ _ _ _ => NoneHalts.append

theorem Quiet.then {f : α → StateM (Traced σ) Flow} (hm : Quiet m) (hf : ∀ a, FailsFast (f a)) :
    FailsFast (m >>= f) :=
  Takes.bind hm hf fun _ _ _ _ => NoneHalts.ends_append

/-- What comes next is begun only if nothing has halted. -/
theorem FailsFast.then (hFirst : FailsFast first) (hRest : FailsFast rest) :
    FailsFast (do
      match ← first with
      | .proceed => rest
      | .halt => return .halt) := by
  refine Takes.bind (Q := fun flow ys b =>
    match flow with
    | .proceed => Ends ys b
    | .halt => ys = [] ∧ b = .halt) hFirst ?_ ?_
  · intro flow
    cases flow with
    | proceed => exact hRest
    | halt => exact takes_pure ⟨rfl, rfl⟩
  · intro xs ys flow b hxs hys
    cases flow with
    | proceed => exact NoneHalts.ends_append hxs hys
    | halt =>
      obtain ⟨rfl, rfl⟩ := hys
      rwa [List.append_nil]

theorem FailsFast.ite {p : Prop} [Decidable p] (hFirst : FailsFast first) (hRest : FailsFast rest) :
    FailsFast (if p then first else rest) := by
  split
  · exact hFirst
  · exact hRest

theorem failsFast_proceed : FailsFast (pure .proceed : StateM (Traced σ) Flow) :=
  takes_pure (List.forall_mem_nil _)

theorem failsFast_done : FailsFast (do Traced.note (.statement .done : Step σ); return .halt) :=
  fun _ => ⟨[.statement .done], rfl, [], _, rfl, List.forall_mem_nil _, .done⟩

theorem failsFast_perform (action : Action Value) :
    FailsFast (do return .ofSuccess (← Host.perform action) : StateM (Traced σ) Flow) := by
  intro t
  let c : Call σ := { event := .act action, before := t.world }
  refine ⟨[.call c], rfl, ?_⟩
  change Ends [.call c] (.ofSuccess c.succeeds)
  cases hSucceeds : c.succeeds with
  | true =>
    refine List.forall_mem_singleton.mpr ?_
    rintro ⟨⟩
    next hFailed =>
      rw [hSucceeds] at hFailed
      cases hFailed
  | false => exact ⟨[], _, rfl, List.forall_mem_nil _, .failed hSucceeds⟩

theorem Stmt.failsFast_loop {guard : StateM (Traced σ) Value} {body : StateM (Traced σ) Flow}
    (hGuard : Quiet guard) (hBody : FailsFast body) (n : Nat) :
    FailsFast (Stmt.loop guard body n) := by
  induction n with
  | zero => exact failsFast_proceed
  | succ n ih => exact hGuard.then fun _ => .ite (hBody.then ih) failsFast_proceed

theorem Expr.quiet_eval (e : Expr) : Quiet (e.eval : StateM (Traced σ) Value) := by
  induction e with
  | number n => exact quiet_pure n
  | identifier name => exact quiet_noteCall (fun _ => rfl) _
  | binary op lhs rhs hLhs hRhs => exact hLhs.bind fun _ => hRhs.bind fun _ => quiet_pure _
  | opponent => exact quiet_noteCall (fun _ => rfl) _
  | nearby d => exact quiet_noteCall (fun _ => rfl) _

theorem Expr.quiet_trace (e : Expr) : Quiet (e.trace : StateM (Traced σ) Value) :=
  (quiet_note (by nofun)).bind fun _ => e.quiet_eval

theorem Action.quiet_trace (a : Action Expr) : Quiet (a.trace : StateM (Traced σ) (Action Value)) := by
  cases a with
  | move d => exact quiet_pure _
  | invest amount => exact amount.quiet_trace.bind fun _ => quiet_pure _
  | collect amount => exact amount.quiet_trace.bind fun _ => quiet_pure _
  | relocate => exact quiet_pure _
  | shoot d amount => exact amount.quiet_trace.bind fun _ => quiet_pure _

mutual

theorem Stmt.failsFast_trace (s : Stmt) : FailsFast (s.trace : StateM (Traced σ) Flow) := by
  cases s with
  | assign name value line =>
    rw [Stmt.trace]
    exact (quiet_note (by nofun)).then fun _ => value.quiet_trace.then fun _ =>
      (quiet_noteCall (fun _ => rfl) _).then fun _ => failsFast_proceed
  | block body =>
    rw [Stmt.trace]
    exact (quiet_note (by nofun)).then fun _ => Stmt.failsFast_traceAll body
  | ifThenElse guard thenBranch elseBranch =>
    rw [Stmt.trace]
    exact (quiet_note (by nofun)).then fun _ => guard.quiet_trace.then fun _ =>
      .ite (Stmt.failsFast_trace thenBranch) (Stmt.failsFast_trace elseBranch)
  | whileDo guard body =>
    rw [Stmt.trace]
    exact (quiet_note (by nofun)).then fun _ =>
      Stmt.failsFast_loop guard.quiet_trace (Stmt.failsFast_trace body) maxRounds
  | done =>
    rw [Stmt.trace]
    exact failsFast_done
  | act action =>
    rw [Stmt.trace]
    exact (quiet_note (by nofun)).then fun _ => action.quiet_trace.then failsFast_perform

theorem Stmt.failsFast_traceAll (body : List Stmt) :
    FailsFast (Stmt.traceAll body : StateM (Traced σ) Flow) := by
  cases body with
  | nil =>
    rw [Stmt.traceAll]
    exact failsFast_proceed
  | cons first rest =>
    rw [Stmt.traceAll]
    exact (Stmt.failsFast_trace first).then (Stmt.failsFast_traceAll rest)

end

theorem Ends.of_halts {x : Step σ} {back : List (Step σ)} (h : Ends (front ++ x :: back) flow)
    (hx : x.Halts) : back = [] ∧ flow = .halt := by
  cases flow with
  | proceed => exact absurd hx (h x List.mem_append_cons_self)
  | halt =>
    refine ⟨?_, rfl⟩
    obtain ⟨front', last, hSteps, hFront, -⟩ := h
    rcases back.eq_nil_or_concat with rfl | ⟨back, y, rfl⟩
    · rfl
    · rw [List.concat_eq_append, ← List.cons_append, ← List.append_assoc] at hSteps
      obtain ⟨rfl, -⟩ := List.append_inj' hSteps rfl
      exact absurd hx (hFront x List.mem_append_cons_self)

theorem Ends.proceed_iff (h : Ends steps flow) : flow = .proceed ↔ NoneHalts steps := by
  cases flow with
  | proceed => exact ⟨fun _ => h, fun _ => rfl⟩
  | halt =>
    obtain ⟨front, last, rfl, -, hLast⟩ := h
    refine ⟨nofun, fun hNone => ?_⟩
    exact absurd hLast (hNone last (by simp))

theorem noneHalts_iff : NoneHalts steps ↔
    (∀ c ∈ steps.filterMap Step.call?, c.succeeds = true) ∧ .statement .done ∉ steps := by
  constructor
  · intro h
    refine ⟨?_, fun hDone => h _ hDone .done⟩
    intro c hc
    obtain ⟨x, hx, hCall⟩ := List.mem_filterMap.mp hc
    cases x with
    | call d =>
      obtain rfl := Option.some.inj hCall
      exact (Bool.not_eq_false _).mp fun hFailed => h _ hx (.failed hFailed)
    | statement | expression => cases hCall
  · rintro ⟨hCalls, hDone⟩ x hx hHalts
    cases hHalts with
    | done => exact hDone hx
    | failed hFailed =>
      rw [hCalls _ (List.mem_filterMap.mpr ⟨_, hx, rfl⟩)] at hFailed
      cases hFailed

theorem Plan.ends_steps (p : Plan) (s : σ) : Ends (p.steps s) (p.run.run s).1 := by
  obtain ⟨steps, hSteps, hEnds⟩ := Stmt.failsFast_traceAll p.statements { world := s, steps := [] }
  rw [(p.run_traced s).1] at hSteps hEnds
  rwa [show p.steps s = steps from hSteps]

/-- A plan fails fast. An action that fails is the last call of the run and halts it, and unless an
action fails or `done` is met, the plan is not halted. Behind the step that halts it there is no
other: no statement is begun any more, and no expression evaluated. -/
theorem run_fails_fast (p : Plan) (s : σ) :
    (Stmt.traceAll p.statements).run { world := s, steps := [] } =
      ((p.run.run s).1, { world := (p.run.run s).2, steps := p.steps s }) ∧
    (p.steps s).filterMap Step.call? = p.calls s ∧
    (∀ front c back, p.calls s = front ++ c :: back → c.succeeds = false →
      back = [] ∧ (p.run.run s).1 = .halt) ∧
    ((p.run.run s).1 = .proceed ↔
      (∀ c ∈ p.calls s, c.succeeds = true) ∧ .statement .done ∉ p.steps s) ∧
    ((p.run.run s).1 = .halt → ∃ front last, p.steps s = front ++ [last] ∧ last.Halts) ∧
    ∀ front x back, p.steps s = front ++ x :: back → x.Halts → back = [] := by
  have hEnds := p.ends_steps s
  obtain ⟨hTraced, hCalls⟩ := p.run_traced s
  refine ⟨hTraced, hCalls, ?_, ?_, ?_, ?_⟩
  · intro front c back hSplit hFailed
    -- The call is a step too, and behind it there may be steps that are no calls.
    rw [← hCalls, List.filterMap_eq_append_iff] at hSplit
    obtain ⟨before, behind, hSteps, -, hBehind⟩ := hSplit
    obtain ⟨quiet, x, rest, rfl, -, hx, rfl⟩ := List.filterMap_eq_cons_iff.mp hBehind
    rw [hSteps, ← List.append_assoc] at hEnds
    have hHalts : x.Halts := by
      cases x with
      | call d =>
        obtain rfl := Option.some.inj hx
        exact .failed hFailed
      | statement | expression => cases hx
    obtain ⟨rfl, hHalt⟩ := hEnds.of_halts hHalts
    exact ⟨rfl, hHalt⟩
  · rw [hEnds.proceed_iff, noneHalts_iff, hCalls]
  · intro hHalt
    rw [hHalt] at hEnds
    obtain ⟨front, last, hSteps, -, hLast⟩ := hEnds
    exact ⟨front, last, hSteps, hLast⟩
  · intro front x back hSteps hx
    rw [hSteps] at hEnds
    exact (hEnds.of_halts hx).1

end Trace

theorem second_action_ends_plan :
    let p : Plan := ⟨[.block [.act .relocate, .block [.act (.invest (.number 1)), .act .relocate],
      .act .relocate], .done]⟩
    let s : Rehearsal := ⟨∅, 0, [], some 1, false, 0, #[]⟩
    (p.calls s).map Call.succeeds = [true, false] ∧ (p.run.run s).1 = .halt ∧
      ∃ front last, p.steps s = front ++ [last] ∧ last.Halts := by
  intro p s
  have hSplit : p.calls s = (p.calls s).take 1 ++ (p.calls s)[1] :: [] := rfl
  obtain ⟨-, hHalt⟩ := (run_fails_fast p s).2.2.1 _ _ _ hSplit rfl
  exact ⟨rfl, hHalt, (run_fails_fast p s).2.2.2.2.1 hHalt⟩

end CityCrew
