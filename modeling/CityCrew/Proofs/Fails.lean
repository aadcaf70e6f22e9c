import CityCrew.Proofs.Yields

/-!
# How parsers fail

`p.Fails c e` says that the parser `p`, at the place `c` of a text, ends with the error `e`. The
lemmas stand beside those on what parsers yield.
-/

namespace CityCrew

open Grammar

theorem Cursor.line_mismatch (c : Cursor) (expected : String) :
    (c.mismatch expected).line = c.line := by
  obtain ⟨_ | ⟨t, ts⟩, line⟩ := c <;> rfl

namespace Parser

variable {α β : Type} {p q : Parser α} {c : Cursor} {e e' : SyntaxError} {text : String}
  {cause : SyntaxError.Cause}

def Fails (p : Parser α) (c : Cursor) (e : SyntaxError) : Prop :=
  p.run c = .error e

@[simp] theorem fails_pure {a : α} : Fails (pure a) c e ↔ False := by
  rw [Fails, StateT.run_pure]
  simp [pure, Except.pure]

@[simp] theorem fails_bind {f : α → Parser β} :
    Fails (p >>= f) c e ↔ Fails p c e ∨ ∃ a c₁, Yields p c a c₁ ∧ Fails (f a) c₁ e := by
  unfold Fails Yields
  rw [StateT.run_bind]
  cases p.run c with
  | error e => simp [bind, Except.bind]
  | ok r =>
    obtain ⟨a, c₁⟩ := r
    simp [bind, Except.bind]

@[simp] theorem fails_map {f : α → β} : Fails (f <$> p) c e ↔ Fails p c e := by
  rw [map_eq_pure_bind, fails_bind]
  simp only [fails_pure, and_false, exists_false, or_false]

@[simp] theorem fails_throw : Fails (throw e' : Parser α) c e ↔ e' = e :=
  ⟨fun h => Except.error.inj h, fun h => congrArg Except.error h⟩

@[simp] theorem fails_get : Fails get c e ↔ False := by
  simp [Fails, pure, Except.pure]

@[simp] theorem fails_set {s : Cursor} : Fails (set s) c e ↔ False := by
  simp [Fails, pure, Except.pure]

@[simp] theorem fails_modify {f : Cursor → Cursor} : Fails (modify f) c e ↔ False := by
  simp [Fails, pure, Except.pure]

@[simp] theorem fails_lift {r : Except SyntaxError α} :
    Fails (liftM r) c e ↔ r = .error e := by
  change (StateT.lift r).run c = .error e ↔ _
  rw [StateT.run_lift]
  cases r <;> simp [bind, Except.bind, pure, Except.pure]

@[simp] theorem fails_ite {P : Prop} [Decidable P] :
    Fails (if P then p else q) c e ↔ if P then Fails p c e else Fails q c e := by
  split <;> rfl

@[simp] theorem fails_failHere : Fails (failHere cause : Parser α) c e ↔ ⟨c.line, cause⟩ = e := by
  simp [failHere]

@[simp] theorem fails_tooDeep :
    Fails (tooDeep : Parser α) c e ↔ ⟨c.line, .tooDeep maxNesting⟩ = e :=
  fails_failHere

@[simp] theorem fails_nextIs : Fails (nextIs text) c e ↔ False := by
  simp [nextIs]

@[simp] theorem fails_advance : Fails advance c e ↔ False :=
  fails_modify

@[simp] theorem fails_operator? {accepted : List Operator} :
    Fails (operator? accepted) c e ↔ False := by
  simp [operator?]

theorem fails_join {op : Operator} {lhs rhs : Expr} (h : Fails (join op lhs rhs) c e) :
    e = ⟨c.line, .tooDeep maxNesting⟩ := by
  simp only [join, fails_ite, fails_bind, fails_tooDeep, fails_pure] at h
  grind

theorem fails_expect (h : Fails (expect text) c e) :
    e.line = c.line ∧ ∀ t ∈ c.peek?, ¬ t.Is text := by
  obtain ⟨_ | ⟨t, ts⟩, line⟩ := c
  · simp [expect, Cursor.expect] at h
    simp [← h, Cursor.line_mismatch]
  · by_cases ht : t.Is text
    · simp [expect, Cursor.expect, ht] at h
    · simp [expect, Cursor.expect, ht] at h
      simp [← h, Cursor.line_mismatch, ht]

theorem fails_token (h : Fails token c e) :
    e.line = c.line ∧ ∀ t ∈ c.peek?, t.kind = .invalid := by
  obtain ⟨_ | ⟨t, ts⟩, line⟩ := c
  · simp [token] at h
    simp [← h]
  · by_cases ht : t.kind = .invalid
    · simp [token, ht] at h
      simp [← h, ht, Cursor.line]
    · simp [token, ht] at h

end Parser

end CityCrew
