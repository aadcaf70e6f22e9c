import CityCrew.Proofs.Fails
import CityCrew.Proofs.Lexing
import CityCrew.Proofs.Parsing
import CityCrew.Proofs.Productions

/-!
# Errors point at the first misfit

A parser reads a fragment in full, or it refuses the first token that no such fragment goes on with.
This is kept when parsers are put together, so it holds of whole plans: an error stands on the line
of the first token with which the text is no longer the beginning of a plan.
-/

namespace CityCrew

open Grammar

namespace Parser

variable {α β : Type} {p : Parser α} {f : α → Parser β} {F G : Fragment} {c : Cursor} {t : Token}
  {ts : List Token} {line n : Nat} {text : String}

/-- At the place `c`, the parser reads the fragment in full or stops where it is broken. Only where
it stops because the text is too deep, the fragment may be sound. -/
structure Diagnoses (p : Parser α) (F : Fragment) (c : Cursor) : Prop where
  of_yields : ∀ {a : α} {c' : Cursor}, Yields p c a c' → (∀ t ∈ c.tokens, t.Lexed) →
    ∃ pre, c = ⟨pre ++ c'.tokens, c'.endLine⟩ ∧ F.Filled pre c'.tokens
  of_fails : ∀ {e : SyntaxError}, Fails p c e → (∀ t ∈ c.tokens, t.Lexed) →
    ∃ pre suf, c.tokens = pre ++ suf ∧ e.line = (Cursor.mk suf c.endLine).line ∧
      ((∀ limit, e.cause ≠ .tooDeep limit) → F.Broken pre suf)

theorem Diagnoses.bind (hp : Diagnoses p F c) (hMeets : F.Meets G)
    (hf : ∀ a c', Yields p c a c' → c'.tokens <:+ c.tokens → Diagnoses (f a) G c') :
    Diagnoses (p >>= f) (F.seq G) c where
  of_yields := by
    intro b c'' h hLexed
    obtain ⟨a, c', hFirst, hThen⟩ := yields_bind.mp h
    obtain ⟨pre, rfl, hFilled⟩ := hp.of_yields hFirst hLexed
    obtain ⟨hPre, hLater⟩ := List.forall_mem_append.mp hLexed
    obtain ⟨pre', rfl, hFilled'⟩ := (hf a c' hFirst ⟨pre, rfl⟩).of_yields hThen hLater
    have hPre' := (List.forall_mem_append.mp hLater).1
    exact ⟨pre ++ pre', by rw [List.append_assoc], hFilled.seq hFilled' hPre hPre' hMeets⟩
  of_fails := by
    intro e h hLexed
    obtain hFirst | ⟨a, c', hFirst, hThen⟩ := fails_bind.mp h
    · obtain ⟨pre, suf, hTokens, hLine, hBroken⟩ := hp.of_fails hFirst hLexed
      rw [hTokens] at hLexed
      exact ⟨pre, suf, hTokens, hLine, fun hCause =>
        (hBroken hCause).seq (List.forall_mem_append.mp hLexed).1 hMeets⟩
    · obtain ⟨pre, rfl, hFilled⟩ := hp.of_yields hFirst hLexed
      obtain ⟨hPre, hLater⟩ := List.forall_mem_append.mp hLexed
      obtain ⟨pre', suf, hTokens, hLine, hBroken⟩ :=
        (hf a c' hFirst ⟨pre, rfl⟩).of_fails hThen hLater
      rw [hTokens] at hFilled hLater
      refine ⟨pre ++ pre', suf, by rw [List.append_assoc, ← hTokens], hLine, fun hCause => ?_⟩
      exact hFilled.broken (hBroken hCause) hPre (List.forall_mem_append.mp hLater).1 hMeets

/-- The parser reads nothing, and fails only where the text is too deep. -/
structure Silent (p : Parser α) (c : Cursor) : Prop where
  of_yields : ∀ {a : α} {c' : Cursor}, Yields p c a c' → c = c'
  of_fails : ∀ {e : SyntaxError}, Fails p c e → e = ⟨c.line, .tooDeep maxNesting⟩

theorem silent_pure {a : α} : Silent (pure a) c where
  of_yields h := (yields_pure.mp h).2
  of_fails h := (fails_pure.mp h).elim

theorem silent_get : Silent get c where
  of_yields h := (yields_get.mp h).2
  of_fails h := (fails_get.mp h).elim

theorem silent_nextIs : Silent (nextIs text) c where
  of_yields h := (yields_nextIs.mp h).2
  of_fails h := (fails_nextIs.mp h).elim

theorem silent_operator? {accepted : List Operator} : Silent (operator? accepted) c where
  of_yields h := (yields_operator?.mp h).2
  of_fails h := (fails_operator?.mp h).elim

theorem silent_join {op : Operator} {lhs rhs : Expr} : Silent (join op lhs rhs) c where
  of_yields h := (yields_join.mp h).2.2
  of_fails h := fails_join h

theorem Silent.bind (hp : Silent p c) (hf : ∀ a, Yields p c a c → Diagnoses (f a) F c) :
    Diagnoses (p >>= f) F c where
  of_yields := by
    intro b c'' h hLexed
    obtain ⟨a, c', hFirst, hThen⟩ := yields_bind.mp h
    obtain rfl := hp.of_yields hFirst
    exact (hf a hFirst).of_yields hThen hLexed
  of_fails := by
    intro e h hLexed
    obtain hFirst | ⟨a, c', hFirst, hThen⟩ := fails_bind.mp h
    · obtain rfl := hp.of_fails hFirst
      exact ⟨[], c.tokens, rfl, rfl, fun hCause => absurd rfl (hCause _)⟩
    · obtain rfl := hp.of_yields hFirst
      exact (hf a hFirst).of_fails hThen hLexed

theorem Diagnoses.bind_silent (hp : Diagnoses p F c)
    (hf : ∀ a c', Yields p c a c' → Silent (f a) c') : Diagnoses (p >>= f) F c where
  of_yields := by
    intro b c'' h hLexed
    obtain ⟨a, c', hFirst, hThen⟩ := yields_bind.mp h
    obtain rfl := (hf a c' hFirst).of_yields hThen
    exact hp.of_yields hFirst hLexed
  of_fails := by
    intro e h hLexed
    obtain hFirst | ⟨a, c', hFirst, hThen⟩ := fails_bind.mp h
    · exact hp.of_fails hFirst hLexed
    · obtain rfl := (hf a c' hFirst).of_fails hThen
      obtain ⟨pre, rfl, -⟩ := hp.of_yields hFirst hLexed
      exact ⟨pre, c'.tokens, rfl, rfl, fun hCause => absurd rfl (hCause _)⟩

theorem Diagnoses.of_case (h : Diagnoses p F c) (hCase : F.CaseOf G c.tokens) :
    Diagnoses p G c where
  of_yields := by
    intro a c' hYields hLexed
    obtain ⟨pre, rfl, hFilled⟩ := h.of_yields hYields hLexed
    exact ⟨pre, rfl, hFilled.of_case hCase (List.forall_mem_append.mp hLexed).1⟩
  of_fails := by
    intro e hFails hLexed
    obtain ⟨pre, suf, hTokens, hLine, hBroken⟩ := h.of_fails hFails hLexed
    rw [hTokens] at hLexed hCase
    exact ⟨pre, suf, hTokens, hLine, fun hCause =>
      (hBroken hCause).of_case hCase (List.forall_mem_append.mp hLexed).1⟩

/-- A fragment may be over where it has begun. -/
theorem diagnoses_pure {a : α} (h : F.Filled [] c.tokens) : Diagnoses (pure a) F c where
  of_yields := by
    intro _ c' hYields _
    obtain ⟨-, rfl⟩ := yields_pure.mp hYields
    exact ⟨[], rfl, h⟩
  of_fails h := (fails_pure.mp h).elim

theorem diagnoses_tooDeep : Diagnoses (tooDeep : Parser α) F c where
  of_yields h := (yields_tooDeep.mp h).elim
  of_fails := by
    intro e h _
    obtain rfl := fails_tooDeep.mp h
    exact ⟨[], c.tokens, rfl, rfl, fun hCause => absurd rfl (hCause _)⟩

/-- The parser refuses the next token, with which no fragment begins. -/
theorem diagnoses_of_refused (hYields : ∀ a c', ¬ Yields p c a c')
    (hFails : ∀ e, Fails p c e → e.line = c.line)
    (hBroken : (∀ t ∈ c.tokens, t.Lexed) → F.Broken [] c.tokens) : Diagnoses p F c where
  of_yields h := (hYields _ _ h).elim
  of_fails h hLexed := ⟨[], c.tokens, rfl, hFails _ h, fun _ => hBroken hLexed⟩

section

variable {Accepts : Token → Prop} {hAccepts : ∃ t, t.Occurs ∧ Accepts t}

theorem diagnoses_single
    (hYields : ∀ a c', Yields p c a c' → ∃ t, Accepts t ∧ c = ⟨t :: c'.tokens, c'.endLine⟩)
    (hFails : ∀ e, Fails p c e → e.line = c.line ∧ ∀ t ∈ c.peek?, t.Lexed → ¬ Accepts t) :
    Diagnoses p (.single Accepts hAccepts) c where
  of_yields := by
    intro a c' h _
    obtain ⟨t, ht, hTokens⟩ := hYields a c' h
    exact ⟨[t], hTokens, Fragment.filled_single ht⟩
  of_fails := by
    intro e h _
    obtain ⟨hLine, hRefused⟩ := hFails e h
    exact ⟨[], c.tokens, rfl, hLine, fun _ => Fragment.broken_single hRefused⟩

theorem diagnoses_expect (h : text ∈ Token.fixedTexts) :
    Diagnoses (expect text) (.fixed text h) c := by
  refine diagnoses_single (fun a c' hYields => ?_) (fun e hFails => ?_)
  · exact yields_expect.mp hYields
  · obtain ⟨hLine, hRefused⟩ := fails_expect hFails
    exact ⟨hLine, fun t ht _ => hRefused t ht⟩

/-- A token is read, and it is accepted or refused as a whole. -/
theorem diagnoses_token_check {f : Token → Parser α}
    (hValid : ∀ t, t.Lexed → Accepts t → t.kind ≠ .invalid)
    (hAccept : ∀ t, Accepts t → ∃ a, f t = pure a)
    (hRefuse : ∀ t, ¬ Accepts t → ∃ cause, f t = throw ⟨t.line, cause⟩) :
    Diagnoses (token >>= f) (.single Accepts hAccepts) c := by
  refine diagnoses_single (fun a c' hYields => ?_) (fun e hFails => ?_)
  · obtain ⟨t, c₁, hToken, hRead⟩ := yields_bind.mp hYields
    by_cases ht : Accepts t
    · obtain ⟨a', hPure⟩ := hAccept t ht
      rw [hPure, yields_pure] at hRead
      obtain ⟨-, rfl⟩ := hRead
      exact ⟨t, ht, (yields_token.mp hToken).2⟩
    · obtain ⟨cause, hThrow⟩ := hRefuse t ht
      rw [hThrow, yields_throw] at hRead
      exact hRead.elim
  · obtain hToken | ⟨t, c₁, hToken, hRead⟩ := fails_bind.mp hFails
    · obtain ⟨hLine, hInvalid⟩ := fails_token hToken
      exact ⟨hLine, fun t ht hLexed hAccepted => hValid t hLexed hAccepted (hInvalid t ht)⟩
    · obtain ⟨-, rfl⟩ := yields_token.mp hToken
      by_cases ht : Accepts t
      · obtain ⟨a', hPure⟩ := hAccept t ht
        rw [hPure, fails_pure] at hRead
        exact hRead.elim
      · obtain ⟨cause, hThrow⟩ := hRefuse t ht
        rw [hThrow, fails_throw] at hRead
        obtain rfl := hRead
        refine ⟨rfl, fun u hu _ => ?_⟩
        obtain rfl := Option.some.inj hu
        exact ht

theorem diagnoses_direction {cause : String → SyntaxError.Cause} :
    Diagnoses (direction cause) .direction c := by
  refine diagnoses_token_check (fun t hLexed ⟨d, hd⟩ => hLexed.valid_of_is_keyword hd)
    (fun t ht => ?_) (fun t ht => ?_)
  · obtain ⟨d, hd⟩ := ht
    rw [show t.text = d.keyword from hd, Direction.ofKeyword?_keyword]
    exact ⟨d, rfl⟩
  · cases hKeyword : Direction.ofKeyword? t.text with
    | none => exact ⟨cause t.text, rfl⟩
    | some d => exact absurd ⟨d, (Direction.keyword_of_ofKeyword?_eq_some hKeyword).symm⟩ ht

theorem diagnoses_advance (ht : Accepts t) :
    Diagnoses advance (.single Accepts hAccepts) ⟨t :: ts, line⟩ := by
  refine diagnoses_single (fun a c' hYields => ?_) (fun e hFails => (fails_advance.mp hFails).elim)
  obtain rfl := yields_advance.mp hYields
  exact ⟨t, ht, rfl⟩

theorem eq_of_yields_token {u : Token} {c' : Cursor} (h : Yields token ⟨t :: ts, line⟩ u c') :
    u = t := by
  obtain ⟨-, hTokens⟩ := yields_token.mp h
  exact (List.cons.inj (Cursor.mk.inj hTokens).1).1.symm

theorem diagnoses_token (ht : Accepts t) (hValid : t.kind ≠ .invalid) :
    Diagnoses token (.single Accepts hAccepts) ⟨t :: ts, line⟩ := by
  refine diagnoses_single (fun u c' hYields => ?_) (fun e hFails => ?_)
  · obtain rfl := eq_of_yields_token hYields
    exact ⟨u, ht, (yields_token.mp hYields).2⟩
  · exact absurd ((fails_token hFails).2 t rfl) hValid

theorem diagnoses_token_bind {f : Token → Parser β} (ht : Accepts t) (hValid : t.kind ≠ .invalid)
    (hf : ∀ c', Diagnoses (f t) F c') :
    Diagnoses (token >>= f) ((Fragment.single Accepts hAccepts).seq F) ⟨t :: ts, line⟩ := by
  refine (diagnoses_token ht hValid).bind Fragment.meets_single fun u c' hu _ => ?_
  obtain rfl := eq_of_yields_token hu
  exact hf c'

theorem diagnoses_token_bind_silent {f : Token → Parser β} (ht : Accepts t)
    (hValid : t.kind ≠ .invalid) (hf : ∀ c', Silent (f t) c') :
    Diagnoses (token >>= f) (.single Accepts hAccepts) ⟨t :: ts, line⟩ := by
  refine (diagnoses_token ht hValid).bind_silent fun u c' hu => ?_
  obtain rfl := eq_of_yields_token hu
  exact hf c'

end

/-- A parser may look at the next token to see how to go on. -/
theorem diagnoses_ite_nextIs {q r : Parser α}
    (hThen : ∀ t ts line, c = ⟨t :: ts, line⟩ → t.Is text → Diagnoses q F ⟨t :: ts, line⟩)
    (hElse : (∀ t ∈ c.tokens.head?, ¬ t.Is text) → Diagnoses r F c) :
    Diagnoses (do if ← nextIs text then q else r) F c := by
  refine silent_nextIs.bind fun isNext hNext => ?_
  obtain ⟨rfl, -⟩ := yields_nextIs.mp hNext
  obtain ⟨_ | ⟨t, ts⟩, line⟩ := c
  · exact hElse (by simp)
  · by_cases ht : t.Is text
    · simpa [ht] using hThen t ts line rfl ht
    · simpa [ht] using hElse

section

variable {operand nested exponent expr : Parser Expr} {rank : Rank} {bound : Nat}

theorem diagnoses_chainFrom (h : ∀ c, Diagnoses operand (.phrase rank.operand) c) (lhs₀ : Expr)
    {fuel : Nat} {lhs : Expr} (hLhs : lhs.height ≤ maxNesting)
    (hFuel : maxNesting < lhs.height + fuel) :
    Diagnoses (chainFrom rank.operators operand fuel lhs) (.phrase (.more rank lhs₀)) c := by
  -- As for completeness, the fuel is not used up before `lhs` is too high.
  induction fuel generalizing lhs c with
  | zero => omega
  | succ fuel ih =>
    rw [chainFrom]
    refine silent_operator?.bind fun op hOp => ?_
    cases op with
    | none => exact diagnoses_pure (Fragment.filled_more (yields_operator?_none.mp hOp).1)
    | some op =>
      obtain ⟨hAccepted, ⟨t, ht, hSymbol⟩, -⟩ := yields_operator?_some.mp hOp
      obtain ⟨_ | ⟨u, ts⟩, line⟩ := c
      · cases ht
      obtain rfl : u = t := by simpa using ht
      refine Diagnoses.of_case ?_ (Fragment.case_more hAccepted hSymbol)
      refine (diagnoses_advance hSymbol).bind Fragment.meets_single fun _ c₁ _ _ => ?_
      refine (h c₁).bind Fragment.meets_more fun rhs c₂ _ _ => ?_
      refine silent_join.bind fun e he => ?_
      obtain ⟨rfl, hHeight, -⟩ := yields_join.mp he
      have hHigher := Expr.height_binary op lhs rhs
      exact ih hHeight (by omega)

theorem diagnoses_chain (h : ∀ c, Diagnoses operand (.phrase rank.operand) c)
    (hReads : Reads operand rank.operand bound) :
    Diagnoses (chain rank.operators operand) (.phrase (.chain rank)) c := by
  refine Diagnoses.of_case ?_ (Fragment.case_chain .opponent)
  refine (h c).bind Fragment.meets_more fun lhs c' hLhs _ => ?_
  exact diagnoses_chainFrom h .opponent (hReads.sound hLhs).1 (by omega)

theorem diagnoses_sum {factor : Parser Expr} (h : ∀ c, Diagnoses factor (.phrase .factor) c)
    (hReads : Reads factor .factor (bound + 1)) : Diagnoses (sum factor) (.phrase .sum) c := by
  have hTerm : Reads (Parser.chain Rank.multiplicative.operators factor) .term _ := hReads.chain
  have hDiagnoses (c : Cursor) :
      Diagnoses (Parser.chain Rank.multiplicative.operators factor) (.phrase .term) c :=
    diagnoses_chain h hReads
  have hSum : Diagnoses (Parser.chain Rank.additive.operators _) (.phrase .sum) c :=
    diagnoses_chain hDiagnoses hTerm
  exact hSum

theorem diagnoses_guard (h : ∀ c, Diagnoses expr (.phrase .sum) c) :
    Diagnoses (guard expr) (.phrase .enclosed) c := by
  refine Diagnoses.of_case ?_ Fragment.case_enclosed
  refine (diagnoses_expect _).bind Fragment.meets_single fun _ c₁ _ _ => ?_
  refine (h c₁).bind Fragment.meets_closing fun e c₂ _ _ => ?_
  exact (diagnoses_expect _).bind_silent fun _ _ _ => silent_pure

theorem diagnoses_primary (h : ∀ c, Diagnoses nested (.phrase .sum) c) :
    Diagnoses (primary nested) (.phrase .primary) c := by
  refine diagnoses_ite_nextIs (fun t ts line _ ht => ?_) fun hOpponent => ?_
  · refine Diagnoses.of_case ?_ (Fragment.case_opponent ht)
    exact (diagnoses_advance ht).bind_silent fun _ _ _ => silent_pure
  refine diagnoses_ite_nextIs (fun t ts line _ ht => ?_) fun hNearby => ?_
  · refine Diagnoses.of_case ?_ (Fragment.case_nearby ht)
    refine (diagnoses_advance ht).bind Fragment.meets_single fun _ c₁ _ _ => ?_
    exact diagnoses_direction.bind_silent fun _ _ _ => silent_pure
  refine diagnoses_ite_nextIs (fun t ts line _ ht => ?_) fun hOpen => ?_
  · refine Diagnoses.of_case ?_ (Fragment.case_parentheses ht)
    refine (diagnoses_advance ht).bind Fragment.meets_single fun _ c₁ _ _ => ?_
    refine (h c₁).bind Fragment.meets_closing fun e c₂ _ _ => ?_
    exact (diagnoses_expect _).bind_silent fun _ _ _ => silent_pure
  refine Diagnoses.of_case ?_
    (Fragment.case_atom fun t ht => ⟨hOpponent t ht, hNearby t ht, hOpen t ht⟩)
  refine diagnoses_token_check ?_ (fun t ht => ?_) (fun t ht => ?_)
  · rintro t - (⟨hKind, -⟩ | ⟨hKind, -⟩)
    · simp [hKind]
    · simp [hKind]
  · obtain ⟨hKind, k, hText⟩ | ⟨hKind, hText⟩ := ht
    · exact ⟨.number k, by simp only [hKind, numeral?_eq_some_iff.mpr hText]⟩
    · exact ⟨.identifier t.text, by simp only [hKind, if_neg hText]⟩
  · cases hKind : t.kind with
    | number =>
      cases hNumeral : numeral? t.text with
      | none => exact ⟨_, rfl⟩
      | some k => exact absurd (.inl ⟨hKind, k, numeral?_eq_some_iff.mp hNumeral⟩) ht
    | word =>
      by_cases hReserved : t.text ∈ reservedWords
      · exact ⟨.reservedIdentifier t.text, by simp only [if_pos hReserved]; rfl⟩
      · exact absurd (.inr ⟨hKind, hReserved⟩) ht
    | symbol | invalid => exact ⟨_, rfl⟩

theorem diagnoses_powered (hNested : ∀ c, Diagnoses nested (.phrase .sum) c)
    (hExponent : ∀ c, Diagnoses exponent (.phrase .factor) c) :
    Diagnoses (powered nested exponent) (.phrase .factor) c := by
  refine Diagnoses.of_case ?_ Fragment.case_factor
  refine (diagnoses_primary hNested).bind Fragment.meets_exponent fun base c₁ _ _ => ?_
  refine diagnoses_ite_nextIs (fun t ts line _ ht => ?_) fun hNext => ?_
  · refine Diagnoses.of_case ?_ (Fragment.case_exponent ht)
    refine (diagnoses_advance ht).bind Fragment.meets_single fun _ c₂ _ _ => ?_
    exact (hExponent c₂).bind_silent fun _ _ _ => silent_join
  · exact diagnoses_pure (Fragment.filled_exponent hNext)

theorem diagnoses_factor (levels : Nat) : Diagnoses (factor levels) (.phrase .factor) c := by
  induction levels generalizing c with
  | zero => exact diagnoses_powered (fun _ => diagnoses_tooDeep) fun _ => diagnoses_tooDeep
  | succ levels ih =>
    exact diagnoses_powered (fun _ => diagnoses_sum (fun _ => ih) (reads_factor levels)) fun _ => ih

theorem diagnoses_expression (levels : Nat) : Diagnoses (expression levels) (.phrase .sum) c :=
  diagnoses_sum (fun _ => diagnoses_factor levels) (reads_factor levels)

end

section

variable {stmt : Parser Stmt} {expr : Parser Expr} {size bound : Nat}

theorem closes_iff : (c.peek?.isNone || c.nextIs "\x7d") = true ↔ Closes c.tokens := by
  obtain ⟨_ | ⟨t, ts⟩, line⟩ := c <;> simp [Closes]

theorem diagnoses_statements (h : ∀ c, c.tokens.length ≤ size → Diagnoses stmt .statement c)
    (hReads : ReadsStmt stmt size bound) {fuel : Nat} (hSize : c.tokens.length ≤ size)
    (hFuel : c.tokens.length ≤ fuel) : Diagnoses (statements stmt fuel) .statements c := by
  induction fuel generalizing c with
  | zero =>
    have hEmpty : c.tokens = [] := List.length_eq_zero_iff.mp (Nat.le_zero.mp hFuel)
    exact diagnoses_pure (Fragment.filled_statements (by simp [Closes, hEmpty]))
  | succ fuel ih =>
    rw [statements]
    refine silent_get.bind fun s hs => silent_nextIs.bind fun isNext hNext => ?_
    obtain ⟨rfl, -⟩ := yields_get.mp hs
    obtain ⟨rfl, -⟩ := yields_nextIs.mp hNext
    by_cases hCloses : Closes c.tokens
    · rw [if_pos (closes_iff.mpr hCloses)]
      exact diagnoses_pure (Fragment.filled_statements hCloses)
    · rw [if_neg (closes_iff.not.mpr hCloses)]
      refine Diagnoses.of_case ?_ (Fragment.case_statements hCloses)
      refine (h c hSize).bind Fragment.meets_statements fun first c' hFirst _ => ?_
      obtain ⟨-, n, -, hDerives⟩ := hReads.sound hFirst
      have hShorter := hDerives.length_lt
      exact (ih (by omega) (by omega)).bind_silent fun _ _ _ => silent_pure

theorem diagnoses_assignment (hName : Identifier t) (h : ∀ c, Diagnoses expr (.phrase .sum) c) :
    Diagnoses (assignment t expr)
      ((Fragment.fixed "=" (by decide)).seq (.phrase .sum)) c := by
  rw [assignment]
  simp only [hName.1, hName.2, ne_eq, not_true_eq_false, if_false]
  refine diagnoses_ite_nextIs (fun u us line _ hu => ?_) fun hNext => ?_
  · refine (diagnoses_advance hu).bind Fragment.meets_single fun _ c₁ _ _ => ?_
    exact (h c₁).bind_silent fun _ _ _ => silent_pure
  · refine diagnoses_of_refused (by simp) (fun e hFails => ?_) fun _ => ?_
    · obtain rfl : _ = e := by simpa using hFails
      rfl
    · exact (Fragment.broken_single fun u hu _ => hNext u hu).seq (by simp) Fragment.meets_single

theorem fails_assignment (h : ¬ Identifier t) {e : SyntaxError}
    (hFails : Fails (assignment t expr) c e) : e.line = t.line := by
  rw [assignment] at hFails
  by_cases hKind : t.kind = .word
  · have hReserved : t.text ∈ reservedWords := by
      by_contra hText
      exact h ⟨hKind, hText⟩
    obtain rfl : _ = e := by simpa [hKind, hReserved] using hFails
    rfl
  · obtain rfl : _ = e := by simpa [hKind] using hFails
    rfl

theorem diagnoses_command_of_refused
    (hStart : ∀ t ∈ c.tokens.head?, t.kind ≠ .invalid → ¬ Identifier t ∧ t.text ∉ openings) :
    Diagnoses (command expr) .statement c := by
  refine diagnoses_of_refused (fun s c' hYields => ?_) (fun e hFails => ?_) fun _ =>
    Fragment.broken_statement hStart
  · rw [command] at hYields
    obtain ⟨t, c₁, hToken, hRead⟩ := yields_bind.mp hYields
    obtain ⟨hValid, rfl⟩ := yields_token.mp hToken
    obtain ⟨hName, hText⟩ := hStart t rfl hValid
    split at hRead
    iterate 6 next hWord => simp [openings, hWord] at hText
    next => exact hName (yields_assignment.mp hRead).1
  · rw [command] at hFails
    obtain hToken | ⟨t, c₁, hToken, hRead⟩ := fails_bind.mp hFails
    · exact (fails_token hToken).1
    · obtain ⟨hValid, rfl⟩ := yields_token.mp hToken
      obtain ⟨hName, hText⟩ := hStart t rfl hValid
      split at hRead
      iterate 6 next hWord => simp [openings, hWord] at hText
      next => exact fails_assignment hName hRead

theorem diagnoses_command (h : ∀ c, Diagnoses expr (.phrase .sum) c)
    (hStart : ∀ t ∈ c.tokens.head?, t.text ∉ ["if", "while", "\x7b"]) :
    Diagnoses (command expr) .statement c := by
  obtain ⟨_ | ⟨t, ts⟩, line⟩ := c
  · exact diagnoses_command_of_refused (by simp)
  have hOther := hStart t rfl
  simp only [List.mem_cons, List.not_mem_nil, or_false, not_or] at hOther
  by_cases hInvalid : t.kind = .invalid
  · exact diagnoses_command_of_refused (by simp [hInvalid])
  rw [command]
  by_cases hDone : t.Is "done"
  · refine Diagnoses.of_case ?_ (Fragment.case_done hDone)
    refine diagnoses_token_bind_silent hDone hInvalid fun c' => ?_
    rw [show t.text = _ from hDone]
    exact silent_pure
  by_cases hRelocate : t.Is "relocate"
  · refine Diagnoses.of_case ?_ (Fragment.case_relocate hRelocate)
    refine diagnoses_token_bind_silent hRelocate hInvalid fun c' => ?_
    rw [show t.text = _ from hRelocate]
    exact silent_pure
  by_cases hMove : t.Is "move"
  · refine Diagnoses.of_case ?_ (Fragment.case_move hMove)
    refine diagnoses_token_bind hMove hInvalid fun c' => ?_
    rw [show t.text = _ from hMove]
    exact diagnoses_direction.bind_silent fun _ _ _ => silent_pure
  by_cases hInvest : t.Is "invest"
  · refine Diagnoses.of_case ?_ (Fragment.case_invest hInvest)
    refine diagnoses_token_bind hInvest hInvalid fun c' => ?_
    rw [show t.text = _ from hInvest]
    exact (h c').bind_silent fun _ _ _ => silent_pure
  by_cases hCollect : t.Is "collect"
  · refine Diagnoses.of_case ?_ (Fragment.case_collect hCollect)
    refine diagnoses_token_bind hCollect hInvalid fun c' => ?_
    rw [show t.text = _ from hCollect]
    exact (h c').bind_silent fun _ _ _ => silent_pure
  by_cases hShoot : t.Is "shoot"
  · refine Diagnoses.of_case ?_ (Fragment.case_shoot hShoot)
    refine diagnoses_token_bind hShoot hInvalid fun c' => ?_
    rw [show t.text = _ from hShoot]
    refine diagnoses_direction.bind Fragment.meets_single fun d c₂ _ _ => ?_
    exact (h c₂).bind_silent fun _ _ _ => silent_pure
  by_cases hName : Identifier t
  · refine Diagnoses.of_case ?_ (Fragment.case_assign hName)
    refine diagnoses_token_bind hName hInvalid fun c' => ?_
    split
    iterate 6 next hText => exact absurd hText ‹_›
    next => exact diagnoses_assignment hName h
  · refine diagnoses_command_of_refused fun u hu _ => ?_
    obtain rfl := Option.some.inj hu
    refine ⟨hName, ?_⟩
    simpa [openings, hOther] using
      ⟨hDone, hRelocate, hMove, hInvest, hCollect, hShoot⟩

theorem diagnoses_statementOver (hExpr : ∀ c, Diagnoses expr (.phrase .sum) c)
    (hNested : ∀ c, c.tokens.length ≤ size → Diagnoses stmt .statement c)
    (hReads : ReadsStmt stmt size bound) (hSize : c.tokens.length ≤ size) :
    Diagnoses (statementOver size expr stmt) .statement c := by
  refine diagnoses_ite_nextIs (fun t ts line hc ht => ?_) fun hIf => ?_
  · subst hc
    refine Diagnoses.of_case ?_ (Fragment.case_ifThenElse ht)
    refine (diagnoses_advance ht).bind Fragment.meets_single fun _ c₁ _ h₁ => ?_
    refine (diagnoses_guard hExpr).bind Fragment.meets_enclosed fun e c₂ _ h₂ => ?_
    refine (diagnoses_expect _).bind Fragment.meets_single fun _ c₃ _ h₃ => ?_
    have hLater := ((h₃.trans h₂).trans h₁).length_le.trans hSize
    refine (hNested c₃ hLater).bind Fragment.meets_else fun a c₄ _ h₄ => ?_
    refine (diagnoses_expect _).bind Fragment.meets_single fun _ c₅ _ h₅ => ?_
    have hLast := (h₅.trans h₄).length_le.trans hLater
    exact (hNested c₅ hLast).bind_silent fun _ _ _ => silent_pure
  refine diagnoses_ite_nextIs (fun t ts line hc ht => ?_) fun hWhile => ?_
  · subst hc
    refine Diagnoses.of_case ?_ (Fragment.case_whileDo ht)
    refine (diagnoses_advance ht).bind Fragment.meets_single fun _ c₁ _ h₁ => ?_
    refine (diagnoses_guard hExpr).bind Fragment.meets_enclosed fun e c₂ _ h₂ => ?_
    have hLater := (h₂.trans h₁).length_le.trans hSize
    exact (hNested c₂ hLater).bind_silent fun _ _ _ => silent_pure
  refine diagnoses_ite_nextIs (fun t ts line hc ht => ?_) fun hBlock => ?_
  · subst hc
    refine Diagnoses.of_case ?_ (Fragment.case_block ht)
    refine (diagnoses_advance ht).bind Fragment.meets_single fun _ c₁ _ h₁ => ?_
    have hLater := h₁.length_le.trans hSize
    refine (diagnoses_statements hNested hReads hLater hLater).bind Fragment.meets_brace
      fun body c₂ _ _ => ?_
    exact (diagnoses_expect _).bind_silent fun _ _ _ => silent_pure
  refine diagnoses_command hExpr fun t ht => ?_
  simpa using ⟨hIf t ht, hWhile t ht, hBlock t ht⟩

end

theorem diagnoses_statement (size levels : Nat) (hSize : c.tokens.length ≤ size) :
    Diagnoses (statement size levels) .statement c := by
  induction levels generalizing c with
  | zero => exact diagnoses_tooDeep
  | succ levels ih =>
    exact diagnoses_statementOver (fun _ => diagnoses_expression levels) (fun _ => ih)
      (readsStmt_statement size levels) hSize

def body (size : Nat) : Parser (List Stmt) := do
  let first ← statement size maxNesting
  let rest ← statements (statement size maxNesting) size
  return first :: rest

theorem diagnoses_body (hSize : c.tokens.length ≤ n) :
    Diagnoses (body n) (Fragment.statement.seq .statements) c := by
  refine (diagnoses_statement n maxNesting hSize).bind Fragment.meets_statements
    fun first c' _ hSuffix => ?_
  have hLater := hSuffix.length_le.trans hSize
  exact (diagnoses_statements (fun _ => diagnoses_statement n maxNesting)
    (readsStmt_statement n maxNesting) hLater hLater).bind_silent fun _ _ _ => silent_pure

theorem fails_plan {e : SyntaxError} (h : Fails plan c e) :
    c.tokens = [] ∧ e.line = c.line ∨ Fails (body c.tokens.length) c e ∨
      ∃ b c', Yields (body c.tokens.length) c b c' ∧ c'.tokens ≠ [] ∧ e.line = c'.line := by
  obtain ⟨_ | ⟨t, ts⟩, line⟩ := c
  · left
    simp [plan] at h
    simp [← h]
  · right
    simp only [plan, fails_bind, fails_get, false_or, yields_get, fails_ite, Cursor.peek?_cons,
      Option.isNone_some, Bool.false_eq_true, if_false, ↓existsAndEq, true_and] at h
    obtain hFirst | ⟨first, c₁, hFirst, hMore | ⟨more, c₂, hMore, hRest⟩⟩ := h
    · exact .inl (fails_bind.mpr (.inl hFirst))
    · exact .inl (fails_bind.mpr (.inr ⟨first, c₁, hFirst, fails_bind.mpr (.inl hMore)⟩))
    · have hBody : Yields (body (t :: ts).length) ⟨t :: ts, line⟩ (first :: more) c₂ :=
        yields_bind.mpr ⟨first, c₁, hFirst, yields_bind.mpr
          ⟨more, c₂, hMore, yields_pure.mpr ⟨rfl, rfl⟩⟩⟩
      obtain ⟨_ | ⟨u, us⟩, line'⟩ := c₂
      · simp at hRest
      · simp at hRest
        exact .inr ⟨_, _, hBody, by simp, by simp [← hRest, Cursor.line]⟩

/-- A text that is not read is refused where it stops being the beginning of a plan. -/
theorem exists_misfit {e : SyntaxError} (h : Fails plan c e) (hLexed : ∀ t ∈ c.tokens, t.Lexed) :
    ∃ pre suf, c.tokens = pre ++ suf ∧ e.line = (Cursor.mk suf c.endLine).line ∧
      ((∀ limit, e.cause ≠ .tooDeep limit) → Misfit pre suf) := by
  have hDiagnoses := diagnoses_body (Nat.le_refl c.tokens.length)
  obtain ⟨hEmpty, hLine⟩ | hBody | ⟨b, c', hBody, hLeft, hLine⟩ := fails_plan h
  · refine ⟨[], c.tokens, rfl, hLine, fun _ => (Fragment.broken_nil ?_).misfit⟩
    simp [hEmpty]
  · obtain ⟨pre, suf, hTokens, hLine, hBroken⟩ := hDiagnoses.of_fails hBody hLexed
    exact ⟨pre, suf, hTokens, hLine, fun hCause => (hBroken hCause).misfit⟩
  · obtain ⟨pre, rfl, hFilled⟩ := hDiagnoses.of_yields hBody hLexed
    exact ⟨pre, c'.tokens, rfl, hLine, fun _ => hFilled.misfit⟩

end Parser

namespace Cursor

theorem lines_ofString (text : String) :
    (ofString text).endLine = 1 + text.toList.count '\n' ∧
      ∀ t ∈ (ofString text).tokens, 1 ≤ t.line ∧ t.line ≤ 1 + text.toList.count '\n' := by
  obtain ⟨pieces, tail, hFactors, hSplit⟩ := Token.exists_factors [] text.toList Token.seam_nil
  have hTokens : (ofString text).tokens = pieces.map Token.Piece.token := congrArg Prod.fst hSplit
  refine ⟨congrArg Prod.snd hSplit, ?_⟩
  rw [hTokens]
  intro t ht
  obtain ⟨p, hp, rfl⟩ := List.mem_map.mp ht
  obtain ⟨front, back, rfl⟩ := List.append_of_mem hp
  rw [hFactors.line_eq front p back rfl, ← hFactors.spelled]
  simp only [Token.spell, Token.Piece.chars, List.nil_append, List.flatMap_append,
    List.flatMap_cons, List.count_append]
  omega

theorem line_cases (c : Cursor) : c.line = c.endLine ∨ ∃ t ∈ c.tokens, c.line = t.line := by
  obtain ⟨_ | ⟨t, ts⟩, line⟩ := c
  · exact .inl rfl
  · exact .inr ⟨t, List.mem_cons_self, rfl⟩

theorem line_eq_getD (pre suf : List Token) (line : Nat) :
    (mk suf line).line = ((pre ++ suf)[pre.length]?.map Token.line).getD line := by
  rw [List.getElem?_append_right (Nat.le_refl _), Nat.sub_self, ← List.head?_eq_getElem?]
  rfl

end Cursor

namespace Plan

theorem parse_eq_error_iff_fails {text : String} {e : SyntaxError} :
    parse text = .error e ↔ Parser.plan.Fails (Cursor.ofString text) e := by
  unfold parse Parser.Fails
  cases Parser.plan.run (Cursor.ofString text) with
  | error e => simp [bind, Except.bind]
  | ok r => simp [bind, Except.bind, pure, Except.pure]

/-- Errors point at the first misfit. A text that is too deep aside, a text that is not read is the
beginning of a plan up to some token, or up to its end, and with this token it is not. The error
names its line. At any rate, the line is one of the text. -/
theorem errors_point_at_misfit {text : String} {e : SyntaxError} (h : parse text = .error e) :
    ((∀ limit, e.cause ≠ .tooDeep limit) → ∃ k,
      IsGreatest {k | k ≤ (Cursor.ofString text).tokens.length ∧
        Viable ((Cursor.ofString text).tokens.take k)} k ∧
      e.line = ((Cursor.ofString text).tokens[k]?.map Token.line).getD
        (1 + text.toList.count '\n')) ∧
    1 ≤ e.line ∧ e.line ≤ 1 + text.toList.count '\n' := by
  have hLexed : ∀ t ∈ (Cursor.ofString text).tokens, t.Lexed :=
    Token.lexed_of_mem_split 1 text.toList
  obtain ⟨hEnd, hLines⟩ := Cursor.lines_ofString text
  obtain ⟨pre, suf, hTokens, hLine, hMisfit⟩ :=
    Parser.exists_misfit (parse_eq_error_iff_fails.mp h) hLexed
  rw [hTokens] at hLexed hLines ⊢
  constructor
  · intro hCause
    refine ⟨pre.length, (hMisfit hCause).isGreatest (List.forall_mem_append.mp hLexed).2, ?_⟩
    rw [hLine, hEnd, Cursor.line_eq_getD pre suf]
  · rw [hLine]
    obtain hLast | ⟨t, ht, hToken⟩ := Cursor.line_cases ⟨suf, (Cursor.ofString text).endLine⟩
    · rw [hLast]
      dsimp only
      omega
    · rw [hToken]
      exact hLines t (List.mem_append_right pre ht)

theorem misfit_on_second_line : parse "done\nmove x" = .error ⟨2, .invalidDirection "x"⟩ ∧
    ∃ k, IsGreatest {k | k ≤ (Cursor.ofString "done\nmove x").tokens.length ∧
        Viable ((Cursor.ofString "done\nmove x").tokens.take k)} k ∧
      2 = ((Cursor.ofString "done\nmove x").tokens[k]?.map Token.line).getD
        (1 + "done\nmove x".toList.count '\n') := by
  have h : parse "done\nmove x" = .error ⟨2, .invalidDirection "x"⟩ := by with_unfolding_all rfl
  exact ⟨h, (errors_point_at_misfit h).1 fun limit => by simp⟩

end Plan

end CityCrew
