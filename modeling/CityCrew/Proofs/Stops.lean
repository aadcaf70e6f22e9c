import CityCrew.Proofs.Reachable

/-!
# Where a turn stops

A sum that is no word stops the program. There are two such sums in a turn: the cost of a shot, if
the amount is the largest one and the player can pay just as much, and the number of the next round.
A turn in which neither comes up is played to its end.
-/

namespace CityCrew

namespace Game

variable {g g' s : Game} {plan : Plan} {flow : Flow}

/-- A call for a shot with the largest amount there is, by a player whose budget is as large. -/
def IsLargestShot (c : Call Game) : Prop :=
  ∃ d amount, c.event = .act (.shoot d amount) ∧ amount.toInt = maxAmount ∧
    c.before.actor.CanAfford maxAmount

theorem CallEffect.overflowed_eq {event : Event} {ok : Bool} (h : CallEffect g event ok g')
    (hShot : ¬ IsLargestShot { event := event, before := g }) : g'.overflowed = g.overflowed := by
  cases h with
  | nothing => rfl
  | drawn => rfl
  | assigned => rfl
  | acted h =>
    cases h with
    | stopped d amount _ hAmount hAfford hWord =>
      have hLargest : amount.toInt = maxAmount := by
        have hHigh := (isWord_toInt amount).2
        unfold IsWord fee maxAmount at *
        omega
      rw [hLargest] at hAfford
      exact absurd ⟨d, amount, rfl, hLargest, hAfford⟩ hShot
    | _ => rfl

theorem Linked.overflowed_eq {cs : List (Call Game)} (h : Linked g cs s)
    (hShots : ∀ c ∈ cs, ¬ IsLargestShot c) : s.overflowed = g.overflowed := by
  induction h with
  | nil => rfl
  | cons event _ ih =>
    obtain ⟨hShot, hShots⟩ := List.forall_mem_cons.mp hShots
    exact (ih hShots).trans ((exec_effect _ event).overflowed_eq hShot)

@[simp] theorem overflowed_withCurrent (g : Game) (i : Nat) :
    (g.withCurrent i).overflowed = g.overflowed := by
  unfold withCurrent
  split <;> rfl

theorem overflowed_endTurn (h : IsWord (g.turn + 1)) : g.endTurn.overflowed = g.overflowed := by
  cases hEnded : g.ended with
  | true => rw [endTurn_of_ended hEnded]
  | false =>
    rcases endTurn_cases hEnded with ⟨_, hEnd⟩ | ⟨_, _, hEnd⟩ | ⟨i, _, _, _, hNext | hNext⟩
    · rw [hEnd]
      rfl
    · rw [hEnd]
      rfl
    · rw [hNext, overflowed_withCurrent]
      rfl
    · have hRound : IsWord (g.sweepOut.turn + 1) := h
      rw [hNext, overflowed_withCurrent, nextRound_of_isWord hRound]
      rfl

theorem Linked.clock {cs : List (Call Game)} (h : Linked g cs s) :
    s.turn = g.turn ∧ s.current = g.current :=
  (h.forall_of_step (P := fun s => s.turn = g.turn ∧ s.current = g.current)
    (fun event s hs => by
      obtain ⟨_, hTurn, hCurrent⟩ := (exec_effect s event).frame
      exact ⟨hTurn.trans hs.1, hCurrent.trans hs.2⟩) ⟨rfl, rfl⟩).1

/-- A turn that can begin is played to its end, if the plan does not stop the program and the next
round has a number. -/
theorem exists_playTurn_eq_ok (hEnded : g.ended = false) (hRuns : g.overflowed = false)
    (hWord : IsWord (g.turn + 1)) (hPlan : (plan.run.run (beginTurn.run g).2).2.overflowed =
      (beginTurn.run g).2.overflowed) : ∃ flow g', g.playTurn plan = .ok (flow, g') := by
  obtain ⟨crew, hCrew⟩ := snd_run_beginTurn g
  have hClock : (beginTurn.run g).2.turn = g.turn := by rw [hCrew]
  have hBefore : (beginTurn.run g).2.overflowed = false := by
    rw [hCrew]
    exact hRuns
  cases hBegun : (beginTurn.run g).1 with
  | true =>
    rw [← hClock, ← (Linked.clock (plan.linked_calls (beginTurn.run g).2)).1] at hWord
    exact ⟨_, _, playTurn_eq_ok_iff.mpr ⟨hEnded, runTurn_of_begun hBegun,
      (overflowed_endTurn hWord).trans (hPlan.trans hBefore)⟩⟩
  | false =>
    rw [← hClock] at hWord
    exact ⟨_, _, playTurn_eq_ok_iff.mpr
      ⟨hEnded, runTurn_of_not_begun hBegun, (overflowed_endTurn hWord).trans hBefore⟩⟩

/-- A turn that can begin comes to its end or stops the program. -/
theorem playTurn_cases (hEnded : g.ended = false) (plan : Plan) :
    (∃ flow g', g.playTurn plan = .ok (flow, g')) ∨ g.playTurn plan = .error .overflow := by
  rw [playTurn_of_open hEnded]
  split
  · exact .inr rfl
  · exact .inl ⟨_, _, rfl⟩

end Game

end CityCrew
