import CityCrew.Proofs.Phrases

/-!
# What parsers yield

`p.Yields c a c'` says that the parser `p`, at the place `c` of a text, reads `a` and stops at `c'`.
The lemmas say when the parsers do so that are put together from others, and those that read single
tokens.
-/

namespace CityCrew

open Grammar

namespace Cursor

variable {t : Token} {ts : List Token} {line : Nat} {text : String}

@[simp] theorem peek?_nil : (mk [] line).peek? = none :=
  rfl

@[simp] theorem peek?_cons : (mk (t :: ts) line).peek? = some t :=
  rfl

@[simp] theorem nextIs_nil : (mk [] line).nextIs text = false :=
  rfl

@[simp] theorem nextIs_cons : (mk (t :: ts) line).nextIs text = decide (t.Is text) :=
  rfl

@[simp] theorem advance_cons : (mk (t :: ts) line).advance = ⟨ts, line⟩ :=
  rfl

end Cursor

namespace Parser

variable {α β : Type} {p q : Parser α} {c c' : Cursor} {a a' : α} {b : β} {t : Token}
  {ts : List Token} {line : Nat} {text : String} {cause : SyntaxError.Cause}

def Yields (p : Parser α) (c : Cursor) (a : α) (c' : Cursor) : Prop :=
  p.run c = .ok (a, c')

@[simp] theorem yields_pure : Yields (pure a) c a' c' ↔ a = a' ∧ c = c' := by
  rw [Yields, StateT.run_pure]
  simp [pure, Except.pure]

@[simp] theorem yields_bind {f : α → Parser β} :
    Yields (p >>= f) c b c' ↔ ∃ a c₁, Yields p c a c₁ ∧ Yields (f a) c₁ b c' := by
  unfold Yields
  rw [StateT.run_bind]
  cases p.run c with
  | error e => simp [bind, Except.bind]
  | ok r =>
    obtain ⟨a, c₁⟩ := r
    simp [bind, Except.bind]

@[simp] theorem yields_map {f : α → β} :
    Yields (f <$> p) c b c' ↔ ∃ a, Yields p c a c' ∧ f a = b := by
  rw [map_eq_pure_bind, yields_bind]
  simp only [yields_pure]
  constructor
  · rintro ⟨a, _, h, rfl, rfl⟩
    exact ⟨a, h, rfl⟩
  · rintro ⟨a, h, rfl⟩
    exact ⟨a, c', h, rfl, rfl⟩

@[simp] theorem yields_throw {e : SyntaxError} : Yields (throw e : Parser α) c a c' ↔ False := by
  refine iff_of_false (fun h => ?_) id
  nomatch (h : Except.error e = .ok (a, c'))

@[simp] theorem yields_lift {r : Except SyntaxError α} :
    Yields (liftM r) c a c' ↔ r = .ok a ∧ c = c' := by
  change (StateT.lift r).run c = .ok (a, c') ↔ _
  rw [StateT.run_lift]
  cases r <;> simp [bind, Except.bind, pure, Except.pure]

@[simp] theorem yields_get {s : Cursor} : Yields get c s c' ↔ c = s ∧ c = c' := by
  simp [Yields, pure, Except.pure]

@[simp] theorem yields_set {s : Cursor} {u : PUnit} : Yields (set s) c u c' ↔ s = c' := by
  simp [Yields, pure, Except.pure]

@[simp] theorem yields_modify {f : Cursor → Cursor} {u : PUnit} :
    Yields (modify f) c u c' ↔ f c = c' := by
  simp [Yields, pure, Except.pure]

@[simp] theorem yields_ite {P : Prop} [Decidable P] :
    Yields (if P then p else q) c a c' ↔ if P then Yields p c a c' else Yields q c a c' := by
  split <;> rfl

@[simp] theorem yields_failHere : Yields (failHere cause : Parser α) c a c' ↔ False := by
  simp [failHere]

@[simp] theorem yields_tooDeep : Yields (tooDeep : Parser α) c a c' ↔ False :=
  yields_failHere

@[simp] theorem yields_nextIs {isNext : Bool} :
    Yields (nextIs text) c isNext c' ↔ c.nextIs text = isNext ∧ c = c' := by
  simp [nextIs, and_comm]

@[simp] theorem yields_advance {u : Unit} : Yields advance c u c' ↔ c.advance = c' :=
  yields_modify

theorem yields_token :
    Yields token c t c' ↔ t.kind ≠ .invalid ∧ c = ⟨t :: c'.tokens, c'.endLine⟩ := by
  obtain ⟨_ | ⟨u, ts⟩, line⟩ := c
  · simp [token]
  · obtain ⟨ts', line'⟩ := c'
    simp only [token, yields_bind, yields_get, exists_eq_left', ↓existsAndEq, Cursor.peek?_cons,
      yields_ite, yields_throw, yields_advance, yields_pure, Cursor.advance_cons, Cursor.mk.injEq]
    grind

theorem yields_expect {u : Unit} :
    Yields (expect text) c u c' ↔ ∃ t, t.Is text ∧ c = ⟨t :: c'.tokens, c'.endLine⟩ := by
  obtain ⟨_ | ⟨t, ts⟩, line⟩ := c
  · simp [expect, Cursor.expect]
  · obtain ⟨ts', line'⟩ := c'
    by_cases ht : t.Is text <;> simp [expect, Cursor.expect, ht]

theorem yields_direction {cause : String → SyntaxError.Cause} {d : Direction} :
    Yields (direction cause) c d c' ↔
      ∃ t, t.kind ≠ .invalid ∧ t.Is d.keyword ∧ c = ⟨t :: c'.tokens, c'.endLine⟩ := by
  simp only [direction, yields_bind, yields_token]
  constructor
  · rintro ⟨t, c₁, ⟨hValid, rfl⟩, h⟩
    cases hKeyword : Direction.ofKeyword? t.text with
    | none => simp [hKeyword] at h
    | some d' =>
      simp only [hKeyword, yields_pure] at h
      obtain ⟨rfl, rfl⟩ := h
      exact ⟨t, hValid, (Direction.keyword_of_ofKeyword?_eq_some hKeyword).symm, rfl⟩
  · rintro ⟨t, hValid, ht, rfl⟩
    refine ⟨t, c', ⟨hValid, rfl⟩, ?_⟩
    rw [show t.text = d.keyword from ht, Direction.ofKeyword?_keyword]
    simp

section

variable {accepted : List Operator} {op : Operator}

theorem bind_ofSymbol?_eq_some_iff :
    (c.peek?.bind fun t => (Operator.ofSymbol? t.text).filter (· ∈ accepted)) = some op ↔
      op ∈ accepted ∧ ∃ t ∈ c.peek?, t.Is op.symbol := by
  simp only [Option.bind_eq_some_iff, Option.filter_eq_some_iff, decide_eq_true_eq]
  constructor
  · rintro ⟨t, ht, hOp, hAccepted⟩
    exact ⟨hAccepted, t, ht, (Operator.symbol_of_ofSymbol?_eq_some hOp).symm⟩
  · rintro ⟨hAccepted, t, ht, hOp⟩
    exact ⟨t, ht, by rw [show t.text = op.symbol from hOp, Operator.ofSymbol?_symbol], hAccepted⟩

theorem yields_operator? {r : Option Operator} :
    Yields (operator? accepted) c r c' ↔
      (c.peek?.bind fun t => (Operator.ofSymbol? t.text).filter (· ∈ accepted)) = r ∧ c = c' := by
  simp [operator?, and_comm]

theorem yields_operator?_some :
    Yields (operator? accepted) c (some op) c' ↔
      op ∈ accepted ∧ (∃ t ∈ c.peek?, t.Is op.symbol) ∧ c = c' := by
  rw [yields_operator?, bind_ofSymbol?_eq_some_iff, and_assoc]

theorem yields_operator?_none :
    Yields (operator? accepted) c none c' ↔
      (∀ t ∈ c.peek?, ∀ op ∈ accepted, ¬ t.Is op.symbol) ∧ c = c' := by
  rw [yields_operator?, Option.eq_none_iff_forall_ne_some]
  simp only [ne_eq, bind_ofSymbol?_eq_some_iff]
  grind

end

theorem decimal_eq_foldl (digits : List Char) :
    decimal digits = digits.foldl (fun n c => 10 * n + (c.toNat - '0'.toNat)) 0 := by
  rw [decimal, Nat.ofDigits_eq_foldr, List.foldr_map, List.foldr_reverse]
  simp [Nat.add_comm]

theorem numeral?_eq_some_iff {k : Value} : numeral? text = some k ↔ Numeral text k := by
  simp only [numeral?, ← decimal_eq_foldl]
  split
  next h =>
    simp only [reduceCtorEq, false_iff]
    intro hText
    simp [hText.nonempty, List.all_eq_true.mpr hText.digits] at h
  next h =>
    simp only [Bool.or_eq_true, List.isEmpty_iff, Bool.not_eq_true', not_or, Bool.not_eq_false,
      List.all_eq_true] at h
    split
    next hMax =>
      constructor
      · intro hk
        exact ⟨h.1, h.2, hMax, (Option.some.inj hk).symm⟩
      · intro hText
        exact congrArg some hText.value_eq.symm
    next hMax => simpa using fun hText : Numeral text k => hMax hText.le_maxValue

theorem yields_join {op : Operator} {lhs rhs e : Expr} :
    Yields (join op lhs rhs) c e c' ↔
      .binary op lhs rhs = e ∧ e.height ≤ maxNesting ∧ c = c' := by
  simp only [join, yields_ite, yields_bind, yields_tooDeep, yields_pure]
  grind

theorem yields_guard {expr : Parser Expr} {e : Expr} :
    Yields (guard expr) c e c' ↔ ∃ t us u, c.tokens = t :: us ∧ t.Is "(" ∧
      Yields expr ⟨us, c.endLine⟩ e ⟨u :: c'.tokens, c'.endLine⟩ ∧ u.Is ")" := by
  simp only [guard, yields_bind, yields_expect, yields_pure]
  constructor
  · rintro ⟨_, c₁, ⟨t, ht, rfl⟩, _, _, h, _, _, ⟨u, hu, rfl⟩, rfl, rfl⟩
    exact ⟨t, c₁.tokens, u, rfl, ht, h, hu⟩
  · obtain ⟨ts, line⟩ := c
    rintro ⟨t, us, u, rfl, ht, h, hu⟩
    exact ⟨(), ⟨us, line⟩, ⟨t, ht, rfl⟩, e, _, h, (), c', ⟨u, hu, rfl⟩, rfl, rfl⟩

/-- The first token decides which primary is read. -/
theorem yields_primary {nested : Parser Expr} {e : Expr} :
    Yields (primary nested) ⟨t :: ts, line⟩ e c' ↔
      if t.Is "opponent" then c' = ⟨ts, line⟩ ∧ e = .opponent
      else if t.Is "nearby" then
        ∃ u d, ts = u :: c'.tokens ∧ line = c'.endLine ∧ u.kind ≠ .invalid ∧
          u.Is (Direction.keyword d) ∧ e = .nearby d
      else if t.Is "(" then
        ∃ u, Yields nested ⟨ts, line⟩ e ⟨u :: c'.tokens, c'.endLine⟩ ∧ u.Is ")"
      else if t.kind = .number then ∃ k, c' = ⟨ts, line⟩ ∧ Numeral t.text k ∧ e = .number k
      else Identifier t ∧ c' = ⟨ts, line⟩ ∧ e = .identifier t.text := by
  obtain ⟨ts', line'⟩ := c'
  simp only [primary, yields_bind, yields_nextIs, Cursor.nextIs_cons, yields_ite, yields_pure,
    yields_advance, Cursor.advance_cons, yields_direction, yields_expect, yields_token,
    ↓existsAndEq, exists_eq_left', decide_eq_true_eq, Cursor.mk.injEq, List.cons.injEq, true_and,
    and_true]
  split
  next => grind
  split
  next => grind
  split
  next => grind
  cases hKind : t.kind with
  | number => cases hNumeral : numeral? t.text <;> simp [← numeral?_eq_some_iff, hNumeral, eq_comm]
  | word =>
    by_cases hReserved : t.text ∈ reservedWords <;> simp [Identifier, hKind, hReserved, eq_comm]
  | _ => simp [Identifier, hKind]

theorem yields_statements_succ {stmt : Parser Stmt} {fuel : Nat} {body : List Stmt} :
    Yields (statements stmt (fuel + 1)) c body c' ↔
      (Closes c.tokens ∧ [] = body ∧ c = c') ∨
      (¬ Closes c.tokens ∧ ∃ first c₁ more, Yields stmt c first c₁ ∧
        Yields (statements stmt fuel) c₁ more c' ∧ first :: more = body) := by
  obtain ⟨_ | ⟨t, ts⟩, line⟩ := c
  · simp [statements, Closes]
  · by_cases ht : t.Is "\x7d" <;> simp [statements, Closes, ht]

theorem yields_assignment {expr : Parser Expr} {s : Stmt} :
    Yields (assignment t expr) c s c' ↔ Identifier t ∧ ∃ u us e, c.tokens = u :: us ∧ u.Is "=" ∧
      Yields expr ⟨us, c.endLine⟩ e c' ∧ .assign t.text e t.line = s := by
  obtain ⟨_ | ⟨u, us⟩, line⟩ := c
  · simp [assignment]
  · by_cases hKind : t.kind = .word <;> by_cases hText : t.text ∈ reservedWords <;>
      by_cases hu : u.Is "=" <;> simp [assignment, Identifier, hKind, hText, hu]

/-- The first token decides which statement is read. -/
theorem yields_statementOver {size : Nat} {expr : Parser Expr} {stmt : Parser Stmt} {s : Stmt} :
    Yields (statementOver size expr stmt) ⟨t :: ts, line⟩ s c' ↔
      if t.Is "if" then
        ∃ e c₁ u, Yields (guard expr) ⟨ts, line⟩ e ⟨u :: c₁.tokens, c₁.endLine⟩ ∧ u.Is "then" ∧
          ∃ a c₂ v, Yields stmt c₁ a ⟨v :: c₂.tokens, c₂.endLine⟩ ∧ v.Is "else" ∧
            ∃ b, Yields stmt c₂ b c' ∧ .ifThenElse e a b = s
      else if t.Is "while" then
        ∃ e c₁, Yields (guard expr) ⟨ts, line⟩ e c₁ ∧ ∃ body, Yields stmt c₁ body c' ∧
          .whileDo e body = s
      else if t.Is "\x7b" then
        ∃ body u, Yields (statements stmt size) ⟨ts, line⟩ body ⟨u :: c'.tokens, c'.endLine⟩ ∧
          u.Is "\x7d" ∧ .block body = s
      else Yields (command expr) ⟨t :: ts, line⟩ s c' := by
  simp [statementOver, yields_expect]

theorem yields_plan {p : Plan} :
    Yields plan c p c' ↔ c.tokens ≠ [] ∧ c'.tokens = [] ∧
      ∃ first c₁ more, Yields (statement c.tokens.length maxNesting) c first c₁ ∧
        Yields (statements (statement c.tokens.length maxNesting) c.tokens.length) c₁ more c' ∧
          ⟨first :: more⟩ = p := by
  obtain ⟨_ | ⟨t, ts⟩, line⟩ := c
  · simp [plan]
  simp only [plan, yields_bind, yields_get, yields_ite, yields_failHere, Cursor.peek?_cons,
    Option.isNone_some, Bool.false_eq_true, if_false, exists_eq_left', ↓existsAndEq, and_true,
    true_and, ne_eq, reduceCtorEq, not_false_eq_true]
  constructor
  · rintro ⟨first, c₁, hFirst, more, ⟨_ | ⟨u, us⟩, line'⟩, hMore, h⟩
    · obtain ⟨rfl, rfl⟩ := yields_pure.mp h
      exact ⟨rfl, first, c₁, more, hFirst, hMore, rfl⟩
    · exact (yields_throw.mp h).elim
  · obtain ⟨ts', line'⟩ := c'
    rintro ⟨rfl, first, c₁, more, hFirst, hMore, rfl⟩
    exact ⟨first, c₁, hFirst, more, _, hMore, yields_pure.mpr ⟨rfl, rfl⟩⟩

end Parser

end CityCrew
