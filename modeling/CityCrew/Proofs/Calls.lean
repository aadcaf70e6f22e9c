import CityCrew.Plan.Rehearsal
import CityCrew.Proofs.RelatedRuns

/-!
# The calls of a run

A plan knows its world only through `Host`, so a run is a sequence of calls: the questions that
expressions ask, and the assignments and actions that statements make. `Plan.calls` takes them down
by running the plan in a world that keeps a record. The record changes nothing about the run, and
each call starts from the world that the call before it has left.
-/

namespace CityCrew

variable {σ α : Type}

/-- Makes the call that an event stands for, and tells whether it succeeds. Only actions can
fail. -/
def Event.exec [Host σ] : Event → σ → Bool × σ
  | lookup name, s => (true, ((Environment.lookup name : StateM σ Value).run s).2)
  | opponent, s => (true, ((Environment.opponent : StateM σ Value).run s).2)
  | nearby d, s => (true, ((Environment.nearby d : StateM σ Value).run s).2)
  | assign name value, s => (true, ((Host.assign name value : StateM σ Unit).run s).2)
  | act action, s => (Host.perform action : StateM σ Bool).run s

structure Call (σ : Type) where
  event : Event
  before : σ

namespace Call

def after [Host σ] (c : Call σ) : σ :=
  (c.event.exec c.before).2

def succeeds [Host σ] (c : Call σ) : Bool :=
  (c.event.exec c.before).1

end Call

/-- A world together with the calls that have been made in it, the first one first. -/
structure Recorded (σ : Type) where
  world : σ
  calls : List (Call σ)

namespace Recorded

def record (event : Event) (answer : StateM σ α) : StateM (Recorded σ) α := fun r =>
  let (a, world) := answer.run r.world
  (a, { world := world, calls := r.calls ++ [{ event := event, before := r.world }] })

instance [Environment σ] : Environment (Recorded σ) where
  lookup name := record (.lookup name) (Environment.lookup name)
  opponent := record .opponent Environment.opponent
  nearby d := record (.nearby d) (Environment.nearby d)

instance [Host σ] : Host (Recorded σ) where
  assign name value := record (.assign name value) (Host.assign name value)
  perform action := record (.act action) (Host.perform action)

end Recorded

def Plan.calls [Host σ] (p : Plan) (s : σ) : List (Call σ) :=
  ((p.run : StateM (Recorded σ) Flow).run { world := s, calls := [] }).2.calls

/-- The calls lead from one world to another, each from where the one before it has led. -/
inductive Linked [Host σ] : σ → List (Call σ) → σ → Prop where
  | nil (s : σ) : Linked s [] s
  | cons (event : Event) {s t : σ} {cs : List (Call σ)} :
      Linked (event.exec s).2 cs t → Linked s ({ event := event, before := s } :: cs) t

namespace Linked

variable [Host σ] {s t u : σ} {cs ds : List (Call σ)}

theorem single (event : Event) (s : σ) :
    Linked s [{ event := event, before := s }] (event.exec s).2 :=
  .cons event (.nil _)

theorem append (h : Linked s cs t) (h' : Linked t ds u) : Linked s (cs ++ ds) u := by
  induction h with
  | nil s => exact h'
  | cons event _ ih => exact .cons event (ih h')

theorem split (h : Linked s (cs ++ ds) u) : ∃ t, Linked s cs t ∧ Linked t ds u := by
  induction cs generalizing s with
  | nil => exact ⟨s, .nil s, h⟩
  | cons c cs ih =>
    cases h with
    | cons event h =>
      obtain ⟨t, hcs, hds⟩ := ih h
      exact ⟨t, .cons event hcs, hds⟩

theorem target_unique (h : Linked s cs t) (h' : Linked s cs u) : t = u := by
  induction h with
  | nil s =>
    cases h'
    rfl
  | cons event _ ih =>
    cases h' with
    | cons event h' => exact ih h'

/-- What every call preserves holds in all worlds on the way. -/
theorem forall_of_step {P : σ → Prop} (hstep : ∀ (event : Event) (s : σ), P s → P (event.exec s).2)
    (h : Linked s cs t) (hs : P s) : P t ∧ ∀ c ∈ cs, P c.before ∧ P c.after := by
  induction h with
  | nil s => exact ⟨hs, by simp⟩
  | @cons event s t cs _ ih =>
    obtain ⟨ht, hcs⟩ := ih (hstep event s hs)
    refine ⟨ht, ?_⟩
    intro c hc
    rcases List.mem_cons.mp hc with rfl | hc
    · exact ⟨hs, hstep event s hs⟩
    · exact hcs c hc

end Linked

/-- The record of `r` tells how the world `s` has come about from `start`. -/
def Follows [Host σ] (start s : σ) (r : Recorded σ) : Prop :=
  r.world = s ∧ Linked start r.calls s

section Run

variable [Host σ]

theorem respects_record {start : σ} {event : Event} {answer : StateM σ α}
    (h : ∀ s, (event.exec s).2 = (answer.run s).2) :
    Respects (Follows start) answer (Recorded.record event answer) := by
  rintro _ ⟨s, cs⟩ ⟨rfl, hLinked⟩
  refine ⟨rfl, rfl, hLinked.append ?_⟩
  rw [← h s]
  exact .single event s

/-- Keeping a record makes no difference to any call. -/
theorem follows_indistinct (start : σ) : Indistinct (Follows start) where
  lookup _ _ := respects_record fun _ => rfl
  opponent := respects_record fun _ => rfl
  nearby _ := respects_record fun _ => rfl
  assign _ _ := respects_record fun _ => rfl
  perform _ := respects_record fun _ => rfl

/-- Keeping a record does not change a run. -/
theorem Plan.run_recorded (p : Plan) (s : σ) :
    (p.run : StateM (Recorded σ) Flow).run { world := s, calls := [] } =
      ((p.run.run s).1, { world := (p.run.run s).2, calls := p.calls s }) := by
  obtain ⟨hFlow, hWorld, _⟩ :=
    p.respects_run (follows_indistinct s) s { world := s, calls := [] } ⟨rfl, .nil s⟩
  rw [hFlow, ← hWorld]
  rfl

/-- The calls of a plan lead from the first world of its run to the last one. -/
theorem Plan.linked_calls (p : Plan) (s : σ) : Linked s (p.calls s) (p.run.run s).2 :=
  (p.respects_run (follows_indistinct s) s { world := s, calls := [] } ⟨rfl, .nil s⟩).2.2

end Run

end CityCrew
