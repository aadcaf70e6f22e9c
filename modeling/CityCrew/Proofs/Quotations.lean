import CityCrew.Proofs.Diagnosis

/-!
# What errors quote

Most errors repeat a piece of the text. It is always a token of the text, and it stands on the line
that the error names, with one exception: where an assignment lacks its sign, the error repeats the
identifier and names the line of what has been found behind it.
-/

namespace CityCrew

open Grammar

namespace SyntaxError

def Cause.quoted? : Cause → Option String
  | leftoverToken text => some text
  | missingAssignment text => some text
  | reservedIdentifier text => some text
  | invalidDirection text => some text
  | invalidInfoExpression text => some text
  | unknownCommand text => some text
  | unexpectedToken _ text => some text
  | invalidNumber text => some text
  | unexpectedCharacter text => some text
  | emptyPlan => none
  | unexpectedEnd => none
  | tooDeep _ => none

/-- The error quotes the token `t`, which the tokens `suf` follow. -/
structure QuotesAt (e : SyntaxError) (t : Token) (suf : List Token) (endLine : Nat) : Prop where
  quoted_eq : e.cause.quoted? = some t.text
  line_eq : e.cause ≠ .missingAssignment t.text → e.line = t.line
  of_missing : e.cause = .missingAssignment t.text →
    Identifier t ∧ (∀ u ∈ suf.head?, ¬ u.Is "=") ∧ e.line = (Cursor.mk suf endLine).line

/-- If the error quotes anything, it quotes a token of the text that the cursor stands at. -/
def QuotesIn (e : SyntaxError) (c : Cursor) : Prop :=
  e.cause.quoted?.isSome → ∃ pre t suf, c.tokens = pre ++ t :: suf ∧ e.QuotesAt t suf c.endLine

variable {e : SyntaxError} {c c' : Cursor} {cause : Cause} {line : Nat} {t : Token}
  {ts : List Token}

theorem QuotesIn.of_suffix (h : e.QuotesIn c') (hSuffix : c'.tokens <:+ c.tokens)
    (hEnd : c'.endLine = c.endLine) : e.QuotesIn c := by
  intro hSome
  obtain ⟨pre, t, suf, hTokens, hQuotes⟩ := h hSome
  obtain ⟨before, hBefore⟩ := hSuffix
  refine ⟨before ++ pre, t, suf, ?_, hEnd ▸ hQuotes⟩
  rw [← hBefore, hTokens, List.append_assoc]

theorem quotesIn_of_none (h : cause.quoted? = none) : QuotesIn ⟨line, cause⟩ c := by
  intro hSome
  rw [h] at hSome
  cases hSome

/-- The error names the line of the token that it quotes. -/
theorem quotesIn_head (h : cause.quoted? = some t.text)
    (hCause : cause ≠ .missingAssignment t.text) : QuotesIn ⟨t.line, cause⟩ ⟨t :: ts, line⟩ :=
  fun _ => ⟨[], t, ts, rfl, h, fun _ => rfl, fun hMissing => absurd hMissing hCause⟩

end SyntaxError

namespace Parser

variable {α β : Type} {p q : Parser α} {c c' : Cursor} {e : SyntaxError} {text : String}
  {cause : SyntaxError.Cause} {t : Token} {seen : List Token}

/-- At the place `c`, the parser leaves a part of the text behind it, or its error quotes a token
from there on. The token may be one of those that have just been seen. -/
structure Quotes (seen : List Token) (p : Parser α) (c : Cursor) : Prop where
  of_yields : ∀ {a : α} {c' : Cursor}, Yields p c a c' →
    c'.tokens <:+ c.tokens ∧ c'.endLine = c.endLine
  of_fails : ∀ {e : SyntaxError}, Fails p c e → e.QuotesIn ⟨seen ++ c.tokens, c.endLine⟩

theorem Quotes.after (h : Quotes [] p c) (seen : List Token) : Quotes seen p c where
  of_yields := h.of_yields
  of_fails hFails := (h.of_fails hFails).of_suffix (List.suffix_append seen c.tokens) rfl

/-- What reads nothing quotes nothing. -/
theorem Silent.quotes_bind {f : α → Parser β} (hp : Silent p c)
    (hf : ∀ a, Yields p c a c → Quotes seen (f a) c) : Quotes seen (p >>= f) c where
  of_yields := by
    intro b c'' h
    obtain ⟨a, c', hFirst, hThen⟩ := yields_bind.mp h
    obtain rfl := hp.of_yields hFirst
    exact (hf a hFirst).of_yields hThen
  of_fails := by
    intro e h
    obtain hFirst | ⟨a, c', hFirst, hThen⟩ := fails_bind.mp h
    · obtain rfl := hp.of_fails hFirst
      exact SyntaxError.quotesIn_of_none rfl
    · obtain rfl := hp.of_yields hFirst
      exact (hf a hFirst).of_fails hThen

theorem Silent.quotes (hp : Silent p c) : Quotes seen p c where
  of_yields h := by
    obtain rfl := hp.of_yields h
    exact ⟨List.suffix_rfl, rfl⟩
  of_fails h := by
    obtain rfl := hp.of_fails h
    exact SyntaxError.quotesIn_of_none rfl

theorem quotes_pure {a : α} : Quotes seen (pure a) c :=
  silent_pure.quotes

theorem Quotes.bind {f : α → Parser β} (hp : Quotes seen p c)
    (hf : ∀ a c', Yields p c a c' → Quotes [] (f a) c') : Quotes seen (p >>= f) c where
  of_yields := by
    intro b c'' h
    obtain ⟨a, c', hFirst, hThen⟩ := yields_bind.mp h
    obtain ⟨hSuffix, hEnd⟩ := hp.of_yields hFirst
    obtain ⟨hSuffix', hEnd'⟩ := (hf a c' hFirst).of_yields hThen
    exact ⟨hSuffix'.trans hSuffix, hEnd'.trans hEnd⟩
  of_fails := by
    intro e h
    obtain hFirst | ⟨a, c', hFirst, hThen⟩ := fails_bind.mp h
    · exact hp.of_fails hFirst
    · obtain ⟨hSuffix, hEnd⟩ := hp.of_yields hFirst
      have hLater := hSuffix.trans (List.suffix_append seen c.tokens)
      exact ((hf a c' hFirst).of_fails hThen).of_suffix hLater hEnd

theorem Quotes.ite {P : Prop} [Decidable P] (hp : Quotes seen p c) (hq : Quotes seen q c) :
    Quotes seen (if P then p else q) c := by
  split
  · exact hp
  · exact hq

theorem quotes_failHere (h : cause.quoted? = none) : Quotes [] (failHere cause : Parser α) c where
  of_yields h := (yields_failHere.mp h).elim
  of_fails hFails := by
    obtain rfl := fails_failHere.mp hFails
    exact SyntaxError.quotesIn_of_none h

theorem quotes_tooDeep : Quotes [] (tooDeep : Parser α) c :=
  quotes_failHere rfl

theorem quotes_throw_of_quotesIn (h : e.QuotesIn ⟨seen ++ c.tokens, c.endLine⟩) :
    Quotes seen (throw e : Parser α) c where
  of_yields hYields := (yields_throw.mp hYields).elim
  of_fails hFails := by
    obtain rfl := fails_throw.mp hFails
    exact h

/-- A parser may refuse the token that it has just seen. -/
theorem quotes_throw (h : cause.quoted? = some t.text)
    (hCause : cause ≠ .missingAssignment t.text) :
    Quotes [t] (throw ⟨t.line, cause⟩ : Parser α) c :=
  quotes_throw_of_quotesIn (SyntaxError.quotesIn_head h hCause)

theorem quotes_throw_bind {f : α → Parser β} (h : cause.quoted? = some t.text)
    (hCause : cause ≠ .missingAssignment t.text) :
    Quotes [t] ((throw ⟨t.line, cause⟩ : Parser α) >>= f) c :=
  (quotes_throw h hCause).bind fun _ _ hYields => (yields_throw.mp hYields).elim

/-- A parser may look at the next token to see how to go on. -/
theorem quotes_ite_nextIs (hThen : Quotes seen p c)
    (hElse : (∀ t ∈ c.tokens.head?, ¬ t.Is text) → Quotes seen q c) :
    Quotes seen (do if ← nextIs text then p else q) c := by
  refine silent_nextIs.quotes_bind fun isNext hNext => ?_
  obtain ⟨rfl, -⟩ := yields_nextIs.mp hNext
  obtain ⟨_ | ⟨t, ts⟩, line⟩ := c
  · exact hElse (by simp)
  · by_cases ht : t.Is text
    · simpa [ht] using hThen
    · simpa [ht] using hElse

theorem quotes_advance : Quotes [] advance c where
  of_yields h := by
    obtain rfl := yields_advance.mp h
    exact ⟨List.tail_suffix _, rfl⟩
  of_fails h := (fails_advance.mp h).elim

theorem quotes_expect : Quotes [] (expect text) c where
  of_yields h := by
    obtain ⟨t, -, rfl⟩ := yields_expect.mp h
    exact ⟨List.suffix_cons _ _, rfl⟩
  of_fails {e} h := by
    obtain ⟨_ | ⟨t, ts⟩, line⟩ := c
    · obtain rfl : SyntaxError.mk line .unexpectedEnd = e := by
        simpa [expect, Cursor.expect, Cursor.mismatch, Cursor.line] using h
      exact SyntaxError.quotesIn_of_none rfl
    · by_cases ht : t.Is text
      · simp [expect, Cursor.expect, ht] at h
      · obtain rfl : SyntaxError.mk t.line (.unexpectedToken text t.text) = e := by
          simpa [expect, Cursor.expect, Cursor.mismatch, ht] using h
        exact SyntaxError.quotesIn_head rfl (by simp)

theorem quotes_token : Quotes [] token c where
  of_yields h := by
    obtain ⟨-, rfl⟩ := yields_token.mp h
    exact ⟨List.suffix_cons _ _, rfl⟩
  of_fails {e} h := by
    obtain ⟨_ | ⟨t, ts⟩, line⟩ := c
    · obtain rfl : SyntaxError.mk line .unexpectedEnd = e := by
        simpa [token, Cursor.line] using h
      exact SyntaxError.quotesIn_of_none rfl
    · by_cases ht : t.kind = .invalid
      · obtain rfl : SyntaxError.mk t.line (.unexpectedCharacter t.text) = e := by
          simpa [token, ht] using h
        exact SyntaxError.quotesIn_head rfl (by simp)
      · simp [token, ht] at h

/-- What reads on behind a token may quote it. -/
theorem quotes_token_bind {f : Token → Parser β} (hf : ∀ t c', Quotes [t] (f t) c') :
    Quotes [] (token >>= f) c where
  of_yields h := by
    obtain ⟨t, c', hToken, hThen⟩ := yields_bind.mp h
    obtain ⟨hSuffix, hEnd⟩ := quotes_token.of_yields hToken
    obtain ⟨hSuffix', hEnd'⟩ := (hf t c').of_yields hThen
    exact ⟨hSuffix'.trans hSuffix, hEnd'.trans hEnd⟩
  of_fails h := by
    obtain hToken | ⟨t, c', hToken, hThen⟩ := fails_bind.mp h
    · exact quotes_token.of_fails hToken
    · obtain ⟨-, rfl⟩ := yields_token.mp hToken
      exact (hf t c').of_fails hThen

theorem quotes_direction {cause : String → SyntaxError.Cause}
    (h : ∀ text, (cause text).quoted? = some text)
    (hCause : ∀ text, cause text ≠ .missingAssignment text) : Quotes [] (direction cause) c := by
  refine quotes_token_bind fun t c' => ?_
  split
  · exact quotes_pure
  · exact quotes_throw (h _) (hCause _)

section

variable {operand nested exponent expr : Parser Expr} {accepted : List Operator}

theorem quotes_chainFrom (h : ∀ c, Quotes [] operand c) (n : Nat) (lhs : Expr) :
    Quotes [] (chainFrom accepted operand n lhs) c := by
  induction n generalizing lhs c with
  | zero => exact quotes_pure
  | succ n ih =>
    rw [chainFrom]
    refine silent_operator?.quotes_bind fun op _ => ?_
    cases op with
    | none => exact quotes_pure
    | some op =>
      refine quotes_advance.bind fun _ c₁ _ => (h c₁).bind fun rhs c₂ _ => ?_
      exact silent_join.quotes_bind fun e _ => ih e

theorem quotes_chain (h : ∀ c, Quotes [] operand c) : Quotes [] (chain accepted operand) c :=
  (h c).bind fun lhs _ _ => quotes_chainFrom h _ lhs

theorem quotes_sum (h : ∀ c, Quotes [] operand c) : Quotes [] (sum operand) c :=
  quotes_chain fun _ => quotes_chain h

theorem quotes_guard (h : ∀ c, Quotes [] expr c) : Quotes [] (guard expr) c := by
  refine quotes_expect.bind fun _ c₁ _ => (h c₁).bind fun e c₂ _ => ?_
  exact quotes_expect.bind fun _ _ _ => quotes_pure

theorem quotes_primary (h : ∀ c, Quotes [] nested c) : Quotes [] (primary nested) c := by
  refine quotes_ite_nextIs ?_ fun _ => quotes_ite_nextIs ?_ fun _ => quotes_ite_nextIs ?_ fun _ =>
    ?_
  · exact quotes_advance.bind fun _ _ _ => quotes_pure
  · refine quotes_advance.bind fun _ c₁ _ => ?_
    have hDirection : Quotes [] (direction .invalidInfoExpression) c₁ :=
      quotes_direction (fun _ => rfl) fun _ => by simp
    exact hDirection.bind fun _ _ _ => quotes_pure
  · refine quotes_advance.bind fun _ c₁ _ => (h c₁).bind fun e c₂ _ => ?_
    exact quotes_expect.bind fun _ _ _ => quotes_pure
  refine quotes_token_bind fun t c' => ?_
  cases hKind : t.kind with
  | number =>
    cases numeral? t.text with
    | some k => exact quotes_pure
    | none => exact quotes_throw rfl (by simp)
  | word =>
    by_cases hReserved : t.text ∈ reservedWords
    · simp only [if_pos hReserved]
      exact quotes_throw_bind rfl (by simp)
    · simp only [if_neg hReserved]
      exact quotes_pure
  | symbol => exact quotes_throw rfl (by simp)
  | invalid => exact quotes_throw rfl (by simp)

theorem quotes_powered (hNested : ∀ c, Quotes [] nested c) (hExponent : ∀ c, Quotes [] exponent c) :
    Quotes [] (powered nested exponent) c := by
  refine (quotes_primary hNested).bind fun base c₁ _ => quotes_ite_nextIs ?_ fun _ => quotes_pure
  exact quotes_advance.bind fun _ c₂ _ => (hExponent c₂).bind fun _ _ _ => silent_join.quotes

theorem quotes_factor (levels : Nat) : Quotes [] (factor levels) c := by
  induction levels generalizing c with
  | zero => exact quotes_powered (fun _ => quotes_tooDeep) fun _ => quotes_tooDeep
  | succ levels ih => exact quotes_powered (fun _ => quotes_sum fun _ => ih) fun _ => ih

theorem quotes_expression (levels : Nat) : Quotes [] (expression levels) c :=
  quotes_sum fun _ => quotes_factor levels

end

section

variable {stmt : Parser Stmt} {expr : Parser Expr}

theorem quotes_statements (h : ∀ c, Quotes [] stmt c) (n : Nat) :
    Quotes [] (statements stmt n) c := by
  induction n generalizing c with
  | zero => exact quotes_pure
  | succ n ih =>
    rw [statements]
    refine silent_get.quotes_bind fun s _ => silent_nextIs.quotes_bind fun isNext _ => ?_
    exact .ite quotes_pure <| (h c).bind fun _ _ _ => ih.bind fun _ _ _ => quotes_pure

/-- Where the sign of an assignment is missing, the identifier is quoted, but the line is that of
whatever stands in its place. -/
theorem quotes_missingAssignment (hName : Identifier t)
    (hNext : ∀ u ∈ c.tokens.head?, ¬ u.Is "=") :
    Quotes [t] (failHere (.missingAssignment t.text) : Parser α) c where
  of_yields h := (yields_failHere.mp h).elim
  of_fails hFails := by
    obtain rfl := fails_failHere.mp hFails
    exact fun _ => ⟨[], t, c.tokens, rfl, rfl, fun hCause => absurd rfl hCause,
      fun _ => ⟨hName, hNext, rfl⟩⟩

theorem quotes_assignment (h : ∀ c, Quotes [] expr c) : Quotes [t] (assignment t expr) c := by
  rw [assignment]
  by_cases hKind : t.kind = .word
  · rw [if_neg (not_not_intro hKind)]
    by_cases hReserved : t.text ∈ reservedWords
    · rw [if_pos hReserved]
      exact quotes_throw_bind rfl (by simp)
    · rw [if_neg hReserved]
      refine quotes_ite_nextIs (Quotes.after ?_ [t]) fun hNext => ?_
      · exact quotes_advance.bind fun _ c₁ _ => (h c₁).bind fun _ _ _ => quotes_pure
      · exact (quotes_missingAssignment ⟨hKind, hReserved⟩ hNext).bind fun _ _ hYields =>
          (yields_failHere.mp hYields).elim
  · rw [if_pos hKind]
    exact quotes_throw_bind rfl (by simp)

theorem quotes_command (h : ∀ c, Quotes [] expr c) : Quotes [] (command expr) c := by
  have hDirection (c : Cursor) : Quotes [] (direction .invalidDirection) c :=
    quotes_direction (fun _ => rfl) fun _ => by simp
  refine quotes_token_bind fun t c₁ => ?_
  split
  · exact quotes_pure
  · exact quotes_pure
  · exact ((hDirection c₁).bind fun _ _ _ => quotes_pure).after [t]
  · exact ((h c₁).bind fun _ _ _ => quotes_pure).after [t]
  · exact ((h c₁).bind fun _ _ _ => quotes_pure).after [t]
  · exact ((hDirection c₁).bind fun _ c₂ _ => (h c₂).bind fun _ _ _ => quotes_pure).after [t]
  · exact quotes_assignment h

theorem quotes_statementOver {size : Nat} (hExpr : ∀ c, Quotes [] expr c)
    (hNested : ∀ c, Quotes [] stmt c) : Quotes [] (statementOver size expr stmt) c := by
  refine quotes_ite_nextIs ?_ fun _ => quotes_ite_nextIs ?_ fun _ => quotes_ite_nextIs ?_ fun _ =>
    quotes_command hExpr
  · refine quotes_advance.bind fun _ _ _ => (quotes_guard hExpr).bind fun _ _ _ => ?_
    refine quotes_expect.bind fun _ c₁ _ => (hNested c₁).bind fun _ _ _ => ?_
    exact quotes_expect.bind fun _ c₂ _ => (hNested c₂).bind fun _ _ _ => quotes_pure
  · refine quotes_advance.bind fun _ _ _ => (quotes_guard hExpr).bind fun _ c₁ _ => ?_
    exact (hNested c₁).bind fun _ _ _ => quotes_pure
  · refine quotes_advance.bind fun _ _ _ => (quotes_statements hNested size).bind fun _ _ _ => ?_
    exact quotes_expect.bind fun _ _ _ => quotes_pure

end

theorem quotes_statement (size levels : Nat) : Quotes [] (statement size levels) c := by
  induction levels generalizing c with
  | zero => exact quotes_tooDeep
  | succ levels ih => exact quotes_statementOver (fun _ => quotes_expression levels) fun _ => ih

/-- Whatever stands behind the last statement is quoted. -/
theorem quotes_plan : Quotes [] plan c := by
  rw [plan]
  refine silent_get.quotes_bind fun s _ => .ite ?_ ?_
  · exact (quotes_failHere rfl).bind fun _ _ hYields => (yields_failHere.mp hYields).elim
  refine silent_get.quotes_bind fun s _ => (quotes_statement _ _).bind fun first c₁ _ => ?_
  refine (quotes_statements (fun _ => quotes_statement _ _) _).bind fun rest c₂ _ => ?_
  refine silent_get.quotes_bind fun s hs => ?_
  obtain ⟨rfl, -⟩ := yields_get.mp hs
  obtain ⟨_ | ⟨t, ts⟩, line⟩ := c₂
  · exact quotes_pure
  · exact quotes_throw_of_quotesIn (SyntaxError.quotesIn_head rfl (by simp))

end Parser

namespace Token

variable {before text tail : List Char} {pieces front back : List Piece}

/-- Behind the front pieces the text goes on with the other ones. -/
theorem Factors.behind (h : Factors before text (front ++ back) tail) :
    Factors (before ++ spell front) (spell back ++ tail) back tail where
  spelled := rfl
  blank_gap p hp := h.blank_gap p (List.mem_append_right front hp)
  blank_tail := h.blank_tail
  stands front' p back' hBack := by
    have hStands := h.stands (front ++ front') p back' (by rw [hBack, List.append_assoc])
    simpa [spell] using hStands
  line_eq front' p back' hBack := by
    have hLine := h.line_eq (front ++ front') p back' (by rw [hBack, List.append_assoc])
    simpa [spell] using hLine

theorem Factors.span_gap {p : Piece} (h : Factors before text (p :: pieces) tail) : ∃ rest,
    text.takeWhile Text.isBlank = p.gap ∧
      text.dropWhile Text.isBlank = p.token.text.toList ++ rest ∧
      Stands (before ++ p.gap) p.token.kind p.token.text.toList rest := by
  obtain ⟨rest, rfl, hGap, hStands, -, -⟩ := factors_cons_iff.mp h
  have hStop : ∀ x ∈ (p.token.text.toList ++ rest).head?, Text.isBlank x = false := by
    obtain ⟨c, ds, hText⟩ := hStands.exists_cons
    rw [hText] at hStands ⊢
    simpa using hStands.not_blank c List.mem_cons_self
  rw [Piece.chars, List.append_assoc]
  obtain ⟨hTake, hDrop⟩ := span_append hGap hStop
  exact ⟨rest, hTake, hDrop, hStands⟩

/-- The line of what comes next is the one on which the white space before it ends. -/
theorem Factors.line_next (h : Factors before text pieces tail) :
    (Cursor.mk (pieces.map Piece.token) (1 + (before ++ text).count '\n')).line =
      1 + (before ++ text.takeWhile Text.isBlank).count '\n' := by
  cases pieces with
  | nil =>
    obtain ⟨rfl, hBlank⟩ := factors_nil_iff.mp h
    rw [List.takeWhile_eq_self_iff.mpr hBlank]
    rfl
  | cons p pieces =>
    obtain ⟨rest, hTake, -⟩ := h.span_gap
    have hLine := h.line_eq [] p pieces rfl
    rw [spell, List.flatMap_nil, List.append_nil] at hLine
    rw [hTake]
    exact hLine

theorem Stands.eq_singleton {kind : Kind} {cs after : List Char} {c : Char}
    (h : Stands before kind (c :: cs) after) (hc : c ∈ symbols) : cs = [] := by
  cases h with
  | run hRun _ _ =>
    have hWord : isWordChar c = true := isWordChar_eq_true_iff.mpr (hRun c List.mem_cons_self)
    rw [not_wordChar_of_mem_symbols c hc] at hWord
    cases hWord
  | symbol _ => rfl
  | invalid _ _ _ => rfl

/-- A symbol that comes next is a token. -/
theorem Factors.exists_symbol {c : Char} (h : Factors before text pieces tail) (hc : c ∈ symbols)
    (hNext : (text.dropWhile Text.isBlank).head? = some c) :
    ∃ p ∈ pieces.head?, p.token.text.toList = [c] := by
  cases pieces with
  | nil =>
    obtain ⟨rfl, hBlank⟩ := factors_nil_iff.mp h
    rw [List.dropWhile_eq_nil_iff.mpr hBlank] at hNext
    cases hNext
  | cons p pieces =>
    obtain ⟨rest, -, hDrop, hStands⟩ := h.span_gap
    obtain ⟨d, ds, hText⟩ := hStands.exists_cons
    rw [hText] at hStands hDrop
    rw [hDrop] at hNext
    obtain rfl : d = c := Option.some.inj hNext
    obtain rfl := hStands.eq_singleton hc
    exact ⟨p, rfl, hText⟩

end Token

/-- A token of a text stands in it on its line, and the tokens behind it make up what follows. -/
theorem Cursor.exists_place {text : String} {pre suf : List Token} {t : Token}
    (h : (ofString text).tokens = pre ++ t :: suf) : ∃ before after back tail,
      before ++ t.text.toList ++ after = text.toList ∧
      Token.Stands before t.kind t.text.toList after ∧ t.line = 1 + before.count '\n' ∧
      suf = back.map Token.Piece.token ∧
      Token.Factors (before ++ t.text.toList) after back tail := by
  obtain ⟨pieces, tail, hFactors, hSplit⟩ := Token.exists_factors [] text.toList Token.seam_nil
  have hTokens : (ofString text).tokens = pieces.map Token.Piece.token := congrArg Prod.fst hSplit
  rw [hTokens] at h
  obtain ⟨front, later, rfl, -, hLater⟩ := List.map_eq_append_iff.mp h
  obtain ⟨p, back, rfl, rfl, rfl⟩ := List.map_eq_cons_iff.mp hLater
  have hStands := hFactors.stands front p back rfl
  have hLine := hFactors.line_eq front p back rfl
  refine ⟨Token.spell front ++ p.gap, Token.spell back ++ tail, back, tail, ?_, hStands, hLine, rfl,
    ?_⟩
  · rw [← hFactors.spelled]
    simp [Token.spell, Token.Piece.chars]
  · rw [List.append_cons] at hFactors
    simpa [Token.spell, Token.Piece.chars] using hFactors.behind

namespace Plan

/-- An error that repeats a piece of the text quotes one of its tokens. The line it names is that of
the token, unless it misses the sign of an assignment: then the line is that of what has been found
instead of the sign, or the last one. -/
theorem errors_quote_tokens {text quoted : String} {e : SyntaxError} (h : parse text = .error e)
    (hQuoted : e.cause.quoted? = some quoted) : ∃ before kind after,
    before ++ quoted.toList ++ after = text.toList ∧
    Token.Stands before kind quoted.toList after ∧
    (e.cause ≠ .missingAssignment quoted → e.line = 1 + before.count '\n') ∧
    (e.cause = .missingAssignment quoted → kind = .word ∧ quoted ∉ reservedWords ∧
      (after.dropWhile Text.isBlank).head? ≠ some '=' ∧
      e.line = 1 + (before ++ quoted.toList ++ after.takeWhile Text.isBlank).count '\n') := by
  have hEnd := (Cursor.lines_ofString text).1
  have hQuotes := Parser.quotes_plan.of_fails (parse_eq_error_iff_fails.mp h)
  obtain ⟨pre, t, suf, hTokens, hQuotes⟩ := hQuotes (by rw [hQuoted]; rfl)
  obtain rfl : t.text = quoted := Option.some.inj (hQuotes.quoted_eq.symm.trans hQuoted)
  obtain ⟨before, after, back, tail, hText, hStands, hLine, rfl, hBehind⟩ :=
    Cursor.exists_place hTokens
  refine ⟨before, t.kind, after, hText, hStands, fun hCause => ?_, fun hCause => ?_⟩
  · rw [hQuotes.line_eq hCause, hLine]
  · obtain ⟨hName, hNext, hFound⟩ := hQuotes.of_missing hCause
    refine ⟨hName.1, hName.2, fun hSign => ?_, ?_⟩
    · obtain ⟨q, hq, hEquals⟩ := hBehind.exists_symbol (by decide) hSign
      refine hNext q.token ?_ (String.toList_inj.mp hEquals)
      rw [List.head?_map]
      exact Option.mem_map_of_mem _ hq
    · have hNextLine := hBehind.line_next
      rw [hText, ← hEnd] at hNextLine
      rw [hFound, hNextLine]

theorem misspelt_direction_on_second_line :
    parse "done\nmove x" = .error ⟨2, .invalidDirection "x"⟩ ∧ ∃ before kind after,
      before ++ "x".toList ++ after = "done\nmove x".toList ∧
      Token.Stands before kind "x".toList after ∧ 2 = 1 + before.count '\n' := by
  have h : parse "done\nmove x" = .error ⟨2, .invalidDirection "x"⟩ := by with_unfolding_all rfl
  obtain ⟨before, kind, after, hText, hStands, hLine, -⟩ := errors_quote_tokens h rfl
  exact ⟨h, before, kind, after, hText, hStands, hLine (by simp)⟩

/-- An error may quote a token that does not stand on the line it names. -/
theorem missing_sign_on_next_line :
    parse "x\ny = 1" = .error ⟨2, .missingAssignment "x"⟩ ∧
      ¬ ∃ before kind after, before ++ "x".toList ++ after = "x\ny = 1".toList ∧
        Token.Stands before kind "x".toList after ∧ 2 = 1 + before.count '\n' := by
  refine ⟨by with_unfolding_all rfl, ?_⟩
  rintro ⟨before, kind, after, hText, -, hLine⟩
  have hChars : "x\ny = 1".toList = ['x', '\n', 'y', ' ', '=', ' ', '1'] := by decide
  rw [hChars] at hText
  obtain _ | ⟨c, before⟩ := before
  · cases hLine
  · have hMem : 'x' ∈ ['\n', 'y', ' ', '=', ' ', '1'] := by
      rw [← (List.cons.inj hText).2]
      simp
    exact absurd hMem (by decide)

end Plan

end CityCrew
