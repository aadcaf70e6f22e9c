import CityCrew.Proofs.Unambiguity
import CityCrew.Proofs.Yields

/-!
# Texts that are read as plans

A text is read as a plan just if its tokens derive that plan within the limits. There is one lemma
for each parser. It says that the parser is sound, yielding only what the grammar derives, and that
it is complete: it yields every phrase within its bound that nothing behind goes on with. Most
parsers are complete at the front of any list of tokens; only statements must know how long a block
can become.
-/

namespace CityCrew

open Grammar

namespace Parser

variable {c c' : Cursor} {ts rest : List Token} {line bound : Nat} {e lhs : Expr} {rank : Rank}
  {n : Nat}

/-- The parser reads the phrases of category `cat` whose depth is below `bound`. -/
structure Reads (p : Parser Expr) (cat : Category) (bound : Nat) : Prop where
  sound : ∀ {c c' : Cursor} {e : Expr}, Yields p c e c' →
    e.height ≤ maxNesting ∧ ∃ n < bound, Derives cat c.tokens c'.tokens e n
  complete : ∀ {ts rest : List Token} {line : Nat} {e : Expr} {n : Nat},
    Derives cat ts rest e n → n < bound → e.height ≤ maxNesting → (∀ t ∈ ts, t.Lexed) →
    Stops cat rest → Yields p ⟨ts, line⟩ e ⟨rest, line⟩

theorem reads_tooDeep {cat : Category} : Reads tooDeep cat 0 where
  sound h := by simp at h
  complete _ hDepth := by omega

section

variable {operand : Parser Expr}

theorem Reads.sound_chainFrom (h : Reads operand rank.operand (bound + 1)) {fuel : Nat}
    (hYields : Yields (chainFrom rank.operators operand fuel lhs) c e c')
    (hLhs : lhs.height ≤ maxNesting) :
    e.height ≤ maxNesting ∧ ∃ n < bound + 1, Derives (.more rank lhs) c.tokens c'.tokens e n := by
  induction fuel generalizing lhs c with
  | zero =>
    simp only [chainFrom, yields_pure] at hYields
    obtain ⟨rfl, rfl⟩ := hYields
    exact ⟨hLhs, 0, by omega, .noMore⟩
  | succ fuel ih =>
    rw [chainFrom, yields_bind] at hYields
    obtain ⟨_ | op, c₁, hOp, hYields⟩ := hYields
    · obtain ⟨-, rfl⟩ := yields_operator?_none.mp hOp
      obtain ⟨rfl, rfl⟩ := yields_pure.mp hYields
      exact ⟨hLhs, 0, by omega, .noMore⟩
    · obtain ⟨hAccepted, ⟨t, ht, hSymbol⟩, rfl⟩ := yields_operator?_some.mp hOp
      simp only [yields_bind, yields_advance, yields_join] at hYields
      obtain ⟨_, _, rfl, rhs, c₂, hRhs, _, _, ⟨rfl, hHeight, rfl⟩, hYields⟩ := hYields
      obtain ⟨-, m, hm, hRhs⟩ := h.sound hRhs
      obtain ⟨hHeight, n, hn, hMore⟩ := ih hYields hHeight
      obtain ⟨_ | ⟨u, us⟩, line⟩ := c
      · simp at ht
      · obtain rfl : u = t := by simpa using ht
        exact ⟨hHeight, max m n, by omega, .more hAccepted hSymbol hRhs hMore⟩

theorem Reads.complete_chainFrom (h : Reads operand rank.operand (bound + 1)) {fuel : Nat}
    (hDerives : Derives (.more rank lhs) ts rest e n) (hDepth : n < bound + 1)
    (hHeight : e.height ≤ maxNesting) (hLexed : ∀ t ∈ ts, t.Lexed)
    (hRest : Stops (.chain rank) rest) (hFuel : maxNesting < lhs.height + fuel) :
    Yields (chainFrom rank.operators operand fuel lhs) ⟨ts, line⟩ e ⟨rest, line⟩ := by
  -- Each operator makes `lhs` higher, so the fuel is not used up before `lhs` is too high.
  induction fuel generalizing lhs ts n with
  | zero =>
    have hLhs := hDerives.height_le
    omega
  | succ fuel ih =>
    rw [chainFrom, yields_bind]
    cases hDerives with
    | noMore =>
      refine ⟨none, ⟨_, line⟩, yields_operator?_none.mpr ⟨?_, rfl⟩, by simp⟩
      exact fun t ht op hOp => hRest t ht op (rank.operators_subset_glue hOp)
    | @more _ t us vs _ _ rhs _ op m n hOp hSymbol hRhs hMore =>
      refine ⟨some op, ⟨t :: us, line⟩, yields_operator?_some.mpr ⟨hOp, ⟨t, rfl, hSymbol⟩, rfl⟩, ?_⟩
      have hLow := hMore.height_le
      have hFits := Expr.height_binary op lhs rhs
      have hLexed := (List.forall_mem_cons.mp hLexed).2
      simp only [yields_bind, yields_advance, Cursor.advance_cons, yields_join]
      exact ⟨(), _, rfl, rhs, ⟨vs, line⟩,
        h.complete hRhs (by omega) (by omega) hLexed (hMore.stops_operand hRest),
        _, _, ⟨rfl, by omega, rfl⟩,
        ih hMore (by omega) (hRhs.consumes.lexed hLexed) (by omega)⟩

theorem Reads.chain (h : Reads operand rank.operand (bound + 1)) :
    Reads (chain rank.operators operand) (.chain rank) (bound + 1) where
  sound hYields := by
    simp only [Parser.chain, yields_bind] at hYields
    obtain ⟨lhs, c₁, hFirst, hMore⟩ := hYields
    obtain ⟨hHeight, m, hm, hFirst⟩ := h.sound hFirst
    obtain ⟨hHeight, n, hn, hMore⟩ := h.sound_chainFrom hMore hHeight
    exact ⟨hHeight, max m n, by omega, .chain hFirst hMore⟩
  complete hDerives hDepth hHeight hLexed hRest := by
    simp only [Parser.chain, yields_bind]
    cases hDerives with
    | chain hFirst hMore =>
      have hLow := hMore.height_le
      exact ⟨_, _, h.complete hFirst (by omega) (by omega) hLexed (hMore.stops_operand hRest),
        h.complete_chainFrom hMore (by omega) hHeight (hFirst.consumes.lexed hLexed) hRest
          (by omega)⟩

end

theorem Reads.sum {factor : Parser Expr} (h : Reads factor .factor (bound + 1)) :
    Reads (sum factor) .sum (bound + 1) := by
  have hTerm : Reads (Parser.chain Rank.multiplicative.operators factor) .term _ := h.chain
  have hSum : Reads (Parser.chain Rank.additive.operators _) .sum _ := hTerm.chain
  exact hSum

theorem Reads.guard {expr : Parser Expr} (h : Reads expr .sum bound) :
    Reads (guard expr) .enclosed bound where
  sound {c c' e} hYields := by
    obtain ⟨t, us, u, hTokens, ht, hYields, hu⟩ := yields_guard.mp hYields
    obtain ⟨hHeight, n, hn, hDerives⟩ := h.sound hYields
    exact ⟨hHeight, n, hn, by rw [hTokens]; exact .enclosed ht hDerives hu⟩
  complete hDerives hDepth hHeight hLexed _ := by
    cases hDerives with
    | enclosed ht hDerives hu =>
      exact yields_guard.mpr ⟨_, _, _, rfl, ht, h.complete hDerives hDepth hHeight
        (List.forall_mem_cons.mp hLexed).2 (stops_of_is hu (by decide)), hu⟩

theorem Reads.sound_primary {nested : Parser Expr} (h : Reads nested .sum bound)
    (hYields : Yields (primary nested) c e c') :
    e.height ≤ maxNesting ∧ ∃ n < bound + 1, Derives .primary c.tokens c'.tokens e n := by
  obtain ⟨_ | ⟨t, ts⟩, line⟩ := c
  · simp [Parser.primary, yields_token] at hYields
  rw [yields_primary] at hYields
  split at hYields
  next ht =>
    obtain ⟨rfl, rfl⟩ := hYields
    exact ⟨by simp [Expr.height], 0, by omega, .opponent ht⟩
  split at hYields
  next ht =>
    obtain ⟨u, d, rfl, -, -, hu, rfl⟩ := hYields
    exact ⟨by simp [Expr.height], 0, by omega, .nearby ht hu⟩
  split at hYields
  next ht =>
    obtain ⟨u, hYields, hu⟩ := hYields
    obtain ⟨hHeight, n, hn, hSum⟩ := h.sound hYields
    exact ⟨hHeight, n + 1, by omega, .parentheses (.enclosed ht hSum hu)⟩
  split at hYields
  next hKind =>
    obtain ⟨k, rfl, hText, rfl⟩ := hYields
    exact ⟨by simp [Expr.height], 0, by omega, .number hKind hText⟩
  next =>
    obtain ⟨hName, rfl, rfl⟩ := hYields
    exact ⟨by simp [Expr.height], 0, by omega, .identifier hName⟩

theorem Reads.complete_primary {nested : Parser Expr} (h : Reads nested .sum bound)
    (hDerives : Derives .primary ts rest e n) (hDepth : n < bound + 1)
    (hHeight : e.height ≤ maxNesting) (hLexed : ∀ t ∈ ts, t.Lexed) :
    Yields (primary nested) ⟨ts, line⟩ e ⟨rest, line⟩ := by
  obtain ⟨t, us, rfl⟩ := hDerives.exists_cons
  have ht := hLexed t List.mem_cons_self
  have hLexed := (List.forall_mem_cons.mp hLexed).2
  have hCases := hDerives.primary_inv ht
  rw [yields_primary]
  split at hCases
  next hWord =>
    rw [if_pos hWord]
    exact ⟨by rw [hCases.1], hCases.2.1⟩
  next hNoWord =>
  rw [if_neg hNoWord]
  split at hCases
  next hWord =>
    rw [if_pos hWord]
    obtain ⟨u, d, rfl, hu, rfl, -⟩ := hCases
    have hKeyword : Token.kindOf d.keyword ≠ .invalid := by cases d <;> decide
    have hValid : u.kind ≠ .invalid := by
      rwa [(hLexed u List.mem_cons_self).kind_of_is hu]
    exact ⟨u, d, rfl, rfl, hValid, hu, rfl⟩
  next hNoWord =>
  rw [if_neg hNoWord]
  split at hCases
  next hOpen =>
    rw [if_pos hOpen]
    obtain ⟨u, m, hSum, hu, rfl⟩ := hCases
    have hStop : Stops .sum (u :: rest) := stops_of_is hu (by decide)
    exact ⟨u, h.complete hSum (by omega) hHeight hLexed hStop, hu⟩
  next hNotOpen =>
  rw [if_neg hNotOpen]
  split at hCases
  next hKind =>
    rw [if_pos hKind]
    obtain ⟨k, rfl, hText, rfl, -⟩ := hCases
    exact ⟨k, rfl, hText, rfl⟩
  next hKind =>
  rw [if_neg hKind]
  obtain ⟨hName, rfl, rfl, -⟩ := hCases
  exact ⟨hName, rfl, rfl⟩

theorem Reads.primary {nested : Parser Expr} (h : Reads nested .sum bound) :
    Reads (primary nested) .primary (bound + 1) where
  sound := h.sound_primary
  complete hDerives hDepth hHeight hLexed _ := h.complete_primary hDerives hDepth hHeight hLexed

theorem Reads.powered {nested exponent : Parser Expr} (hNested : Reads nested .sum bound)
    (hExponent : Reads exponent .factor bound) :
    Reads (powered nested exponent) .factor (bound + 1) where
  sound {c c' e} hYields := by
    simp only [Parser.powered, yields_bind, yields_nextIs, yields_ite] at hYields
    obtain ⟨base, c₁, hBase, isNext, _, ⟨rfl, rfl⟩, hYields⟩ := hYields
    obtain ⟨hHeight, m, hm, hBase⟩ := hNested.primary.sound hBase
    split at hYields
    next hNext =>
      obtain ⟨_ | ⟨t, ts⟩, line⟩ := c₁
      · simp at hNext
      simp only [yields_advance, yields_join, Cursor.advance_cons] at hYields
      obtain ⟨_, _, rfl, x, c₂, hYields, rfl, hHeight, rfl⟩ := hYields
      obtain ⟨-, n, hn, hDerives⟩ := hExponent.sound hYields
      exact ⟨hHeight, max m (n + 1), by omega, .power hBase (by simpa using hNext) hDerives⟩
    next =>
      obtain ⟨rfl, rfl⟩ := yields_pure.mp hYields
      exact ⟨hHeight, m, hm, .bare hBase⟩
  complete {ts rest line e n} hDerives hDepth hHeight hLexed hRest := by
    simp only [Parser.powered, yields_bind, yields_nextIs, yields_ite]
    cases hDerives with
    | bare hBase =>
      refine ⟨e, ⟨rest, line⟩, hNested.primary.complete hBase hDepth hHeight hLexed stops_primary,
        _, _, ⟨rfl, rfl⟩, ?_⟩
      have hNext : ¬ (Cursor.mk rest line).nextIs "^" := by
        cases rest with
        | nil => simp
        | cons t rest =>
          have hOp : ¬ t.Is "^" := stops_cons.mp hRest .pow (by decide)
          simpa using hOp
      rw [if_neg hNext]
      exact yields_pure.mpr ⟨rfl, rfl⟩
    | @power t _ us _ base exponent m n hBase ht hExponent' =>
      have hFits := Expr.height_binary .pow base exponent
      refine ⟨base, ⟨t :: us, line⟩, hNested.primary.complete hBase (by omega) (by omega) hLexed
        stops_primary, _, _, ⟨rfl, rfl⟩, ?_⟩
      rw [if_pos (by simpa using ht)]
      simp only [yields_advance, yields_join, Cursor.advance_cons]
      have hLexed := (List.forall_mem_cons.mp (hBase.consumes.lexed hLexed)).2
      exact ⟨(), _, rfl, exponent, _,
        hExponent.complete hExponent' (by omega) (by omega) hLexed hRest, rfl, hHeight, rfl⟩

theorem reads_factor (levels : Nat) : Reads (factor levels) .factor (levels + 1) := by
  induction levels with
  | zero => exact Reads.powered reads_tooDeep reads_tooDeep
  | succ levels ih => exact Reads.powered ih.sum ih

theorem reads_expression (levels : Nat) : Reads (expression levels) .sum (levels + 1) :=
  (reads_factor levels).sum

/-- Differences are grouped from the left, powers from the right: this is `9 - 2 ^ 3 ^ 1 - 4`. -/
example : ((expression 2).run ⟨[⟨.number, "9", 1⟩, ⟨.symbol, "-", 1⟩, ⟨.number, "2", 1⟩,
      ⟨.symbol, "^", 1⟩, ⟨.number, "3", 1⟩, ⟨.symbol, "^", 1⟩, ⟨.number, "1", 1⟩,
      ⟨.symbol, "-", 1⟩, ⟨.number, "4", 1⟩], 1⟩).toOption.map Prod.fst =
    some (.binary .sub
      (.binary .sub (.number 9) (.binary .pow (.number 2) (.binary .pow (.number 3) (.number 1))))
      (.number 4)) := by
  decide

structure ReadsStmt (p : Parser Stmt) (size bound : Nat) : Prop where
  sound : ∀ {c c' : Cursor} {s : Stmt}, Yields p c s c' →
    (∀ x ∈ s.operations, x.height ≤ maxNesting) ∧ ∃ n < bound, DerivesStmt c.tokens c'.tokens s n
  complete : ∀ {ts rest : List Token} {line : Nat} {s : Stmt} {n : Nat},
    DerivesStmt ts rest s n → n < bound → (∀ x ∈ s.operations, x.height ≤ maxNesting) →
    (∀ t ∈ ts, t.Lexed) → ts.length ≤ size → Stops .sum rest → Yields p ⟨ts, line⟩ s ⟨rest, line⟩

section

variable {stmt : Parser Stmt} {expr : Parser Expr} {size : Nat} {body : List Stmt} {s : Stmt}
  {t : Token}

theorem ReadsStmt.sound_statements (h : ReadsStmt stmt size (bound + 1)) {fuel : Nat}
    (hYields : Yields (statements stmt fuel) c body c') :
    (∀ x ∈ Stmt.operationsAll body, x.height ≤ maxNesting) ∧
      ∃ n < bound + 1, DerivesStmts c.tokens c'.tokens body n := by
  induction fuel generalizing c body with
  | zero =>
    obtain ⟨rfl, rfl⟩ := yields_pure.mp hYields
    exact ⟨by simp [Stmt.operationsAll], 0, by omega, .nil⟩
  | succ fuel ih =>
    rw [yields_statements_succ] at hYields
    obtain ⟨-, rfl, rfl⟩ | ⟨-, first, c₁, more, hFirst, hMore, rfl⟩ := hYields
    · exact ⟨by simp [Stmt.operationsAll], 0, by omega, .nil⟩
    · obtain ⟨hLow, m, hm, hFirst⟩ := h.sound hFirst
      obtain ⟨hLowMore, n, hn, hMore⟩ := ih hMore
      refine ⟨?_, max m n, by omega, .cons hFirst hMore⟩
      simpa only [Stmt.operationsAll, List.forall_mem_append] using ⟨hLow, hLowMore⟩

theorem ReadsStmt.complete_statements (h : ReadsStmt stmt size bound) {fuel : Nat}
    (hDerives : DerivesStmts ts rest body n) (hDepth : n < bound)
    (hLow : ∀ x ∈ Stmt.operationsAll body, x.height ≤ maxNesting) (hLexed : ∀ t ∈ ts, t.Lexed)
    (hSize : ts.length ≤ size) (hRest : Closes rest) (hFuel : body.length ≤ fuel) :
    Yields (statements stmt fuel) ⟨ts, line⟩ body ⟨rest, line⟩ := by
  induction body generalizing ts n fuel with
  | nil =>
    cases hDerives
    cases fuel with
    | zero => exact yields_pure.mpr ⟨rfl, rfl⟩
    | succ fuel => exact yields_statements_succ.mpr (.inl ⟨hRest, rfl, rfl⟩)
  | cons first more ih =>
    cases fuel with
    | zero => simp at hFuel
    | succ fuel =>
      cases hDerives with
      | cons hFirst hMore =>
        simp only [Stmt.operationsAll, List.forall_mem_append] at hLow
        simp only [List.length_cons] at hFuel
        have hShorter := hFirst.length_lt
        have hLater := hFirst.begins.consumes.lexed hLexed
        refine yields_statements_succ.mpr (.inr ⟨hFirst.begins.not_closes hLexed, first, _, more,
          ?_, ih hMore (by omega) hLow.2 hLater (by omega) (by omega), rfl⟩)
        exact h.complete hFirst (by omega) hLow.1 hLexed hSize (hMore.stops hLater hRest)

theorem Reads.sound_command (h : Reads expr .sum (bound + 1))
    (hYields : Yields (command expr) c s c') :
    (∀ x ∈ s.operations, x.height ≤ maxNesting) ∧
      ∃ n < bound + 2, DerivesStmt c.tokens c'.tokens s n := by
  rw [command, yields_bind] at hYields
  obtain ⟨t, c₁, ht, hYields⟩ := hYields
  obtain ⟨-, rfl⟩ := yields_token.mp ht
  split at hYields
  next hText =>
    obtain ⟨rfl, rfl⟩ := yields_pure.mp hYields
    exact ⟨by simp [Stmt.operations], 1, by omega, .done hText⟩
  next hText =>
    obtain ⟨rfl, rfl⟩ := yields_pure.mp hYields
    exact ⟨by simp [Stmt.operations], 1, by omega, .relocate hText⟩
  next hText =>
    simp only [yields_bind, yields_direction, yields_pure] at hYields
    obtain ⟨d, _, ⟨u, -, hu, rfl⟩, rfl, rfl⟩ := hYields
    exact ⟨by simp [Stmt.operations], 1, by omega, .move hText hu⟩
  next hText =>
    simp only [yields_bind, yields_pure] at hYields
    obtain ⟨e, _, hYields, rfl, rfl⟩ := hYields
    obtain ⟨hHeight, n, hn, hAmount⟩ := h.sound hYields
    exact ⟨Expr.forall_operations_iff.mpr hHeight, n + 1, by omega, .invest hText hAmount⟩
  next hText =>
    simp only [yields_bind, yields_pure] at hYields
    obtain ⟨e, _, hYields, rfl, rfl⟩ := hYields
    obtain ⟨hHeight, n, hn, hAmount⟩ := h.sound hYields
    exact ⟨Expr.forall_operations_iff.mpr hHeight, n + 1, by omega, .collect hText hAmount⟩
  next hText =>
    simp only [yields_bind, yields_direction, yields_pure] at hYields
    obtain ⟨d, _, ⟨u, -, hu, rfl⟩, e, _, hYields, rfl, rfl⟩ := hYields
    obtain ⟨hHeight, n, hn, hAmount⟩ := h.sound hYields
    exact ⟨Expr.forall_operations_iff.mpr hHeight, n + 1, by omega, .shoot hText hu hAmount⟩
  next =>
    obtain ⟨hName, u, us, e, hTokens, hu, hValue, rfl⟩ := yields_assignment.mp hYields
    obtain ⟨hHeight, n, hn, hValue⟩ := h.sound hValue
    rw [hTokens]
    exact ⟨Expr.forall_operations_iff.mpr hHeight, n + 1, by omega, .assign hName hu hValue⟩

theorem Reads.complete_command (h : Reads expr .sum bound)
    (hDerives : DerivesStmt (t :: ts) rest s n) (hDepth : n < bound + 1)
    (hLow : ∀ x ∈ s.operations, x.height ≤ maxNesting) (hLexed : ∀ u ∈ t :: ts, u.Lexed)
    (hRest : Stops .sum rest) (hText : t.text ∉ ["if", "while", "\x7b"]) :
    Yields (command expr) ⟨t :: ts, line⟩ s ⟨rest, line⟩ := by
  have ht := hLexed t List.mem_cons_self
  have hLater := (List.forall_mem_cons.mp hLexed).2
  rw [command, yields_bind]
  refine ⟨t, ⟨ts, line⟩, yields_token.mpr ⟨hDerives.begins.head_valid ht, rfl⟩, ?_⟩
  cases hDerives with
  | done ht =>
    rw [show t.text = _ from ht]
    exact yields_pure.mpr ⟨rfl, rfl⟩
  | relocate ht =>
    rw [show t.text = _ from ht]
    exact yields_pure.mpr ⟨rfl, rfl⟩
  | move ht hu =>
    rw [show t.text = _ from ht]
    simp only [yields_bind, yields_direction, yields_pure]
    have hValid := (hLater _ List.mem_cons_self).valid_of_is_keyword hu
    exact ⟨_, _, ⟨_, hValid, hu, rfl⟩, rfl, rfl⟩
  | invest ht hAmount =>
    rw [show t.text = _ from ht]
    simp only [yields_bind, yields_pure]
    have hHeight := Expr.forall_operations_iff.mp hLow
    exact ⟨_, _, h.complete hAmount (by omega) hHeight hLater hRest, rfl, rfl⟩
  | collect ht hAmount =>
    rw [show t.text = _ from ht]
    simp only [yields_bind, yields_pure]
    have hHeight := Expr.forall_operations_iff.mp hLow
    exact ⟨_, _, h.complete hAmount (by omega) hHeight hLater hRest, rfl, rfl⟩
  | shoot ht hu hAmount =>
    rw [show t.text = _ from ht]
    simp only [yields_bind, yields_direction, yields_pure]
    have hHeight := Expr.forall_operations_iff.mp hLow
    have hValid := (hLater _ List.mem_cons_self).valid_of_is_keyword hu
    exact ⟨_, ⟨_, line⟩, ⟨_, hValid, hu, rfl⟩, _, _, h.complete hAmount (by omega) hHeight
      (List.forall_mem_cons.mp hLater).2 hRest, rfl, rfl⟩
  | assign hName hu hValue =>
    split
    iterate 6 next hReserved => exact absurd hReserved (hName.not_is (by decide))
    next =>
      have hHeight := Expr.forall_operations_iff.mp hLow
      exact yields_assignment.mpr ⟨hName, _, _, _, rfl, hu, h.complete hValue (by omega) hHeight
        (List.forall_mem_cons.mp hLater).2 hRest, rfl⟩
  | ifThenElse ht | whileDo ht | block ht => simp [show t.text = _ from ht] at hText

theorem ReadsStmt.sound_statementOver (hExpr : Reads expr .sum (bound + 1))
    (hNested : ReadsStmt stmt size (bound + 1))
    (hYields : Yields (statementOver size expr stmt) c s c') :
    (∀ x ∈ s.operations, x.height ≤ maxNesting) ∧
      ∃ n < bound + 2, DerivesStmt c.tokens c'.tokens s n := by
  obtain ⟨_ | ⟨t, ts⟩, line⟩ := c
  · simp [Parser.statementOver, command, yields_token] at hYields
  rw [yields_statementOver] at hYields
  split at hYields
  next ht =>
    obtain ⟨e, c₁, u, hGuard, hu, a, c₂, v, hThen, hv, b, hElse, rfl⟩ := hYields
    obtain ⟨hHeight, l, hl, hGuard⟩ := hExpr.guard.sound hGuard
    obtain ⟨hLowThen, m, hm, hThen⟩ := hNested.sound hThen
    obtain ⟨hLowElse, n, hn, hElse⟩ := hNested.sound hElse
    refine ⟨?_, _, by omega, .ifThenElse ht hGuard hu hThen hv hElse⟩
    simpa only [Stmt.operations, List.forall_mem_append, Expr.forall_operations_iff] using
      ⟨hHeight, hLowThen, hLowElse⟩
  split at hYields
  next ht =>
    obtain ⟨e, c₁, hGuard, body, hBody, rfl⟩ := hYields
    obtain ⟨hHeight, m, hm, hGuard⟩ := hExpr.guard.sound hGuard
    obtain ⟨hLow, n, hn, hBody⟩ := hNested.sound hBody
    refine ⟨?_, _, by omega, .whileDo ht hGuard hBody⟩
    simpa only [Stmt.operations, List.forall_mem_append, Expr.forall_operations_iff] using
      ⟨hHeight, hLow⟩
  split at hYields
  next ht =>
    obtain ⟨body, u, hBody, hu, rfl⟩ := hYields
    obtain ⟨hLow, n, hn, hBody⟩ := hNested.sound_statements hBody
    exact ⟨hLow, _, by omega, .block ht hBody hu⟩
  next => exact hExpr.sound_command hYields

theorem ReadsStmt.complete_statementOver (hExpr : Reads expr .sum (bound + 1))
    (hNested : ReadsStmt stmt size (bound + 1)) (hDerives : DerivesStmt ts rest s n)
    (hDepth : n < bound + 2) (hLow : ∀ x ∈ s.operations, x.height ≤ maxNesting)
    (hLexed : ∀ t ∈ ts, t.Lexed) (hSize : ts.length ≤ size) (hRest : Stops .sum rest) :
    Yields (statementOver size expr stmt) ⟨ts, line⟩ s ⟨rest, line⟩ := by
  obtain ⟨t, us, rfl, -, -⟩ := hDerives.begins
  have hOpening := hDerives.opening?_eq (hLexed t List.mem_cons_self)
  have hLater := (List.forall_mem_cons.mp hLexed).2
  simp only [List.length_cons] at hSize
  rw [yields_statementOver]
  split
  next ht =>
    rw [show t.text = _ from ht] at hOpening
    cases hDerives with
    | @ifThenElse _ u v _ vs ws _ guard a b l m n _ hGuard hu hThen hv hElse =>
      simp only [Stmt.operations, List.forall_mem_append, Expr.forall_operations_iff] at hLow
      have hLexedThen := (List.forall_mem_cons.mp (hGuard.consumes.lexed hLater)).2
      have hLexedElse := (List.forall_mem_cons.mp (hThen.begins.consumes.lexed hLexedThen)).2
      have hShorter := hGuard.consumes.length_le
      have hShorterThen := hThen.length_lt
      simp only [List.length_cons] at hShorter hShorterThen
      refine ⟨guard, ⟨vs, line⟩, u, ?_, hu, a, ⟨ws, line⟩, v, ?_, hv, b, ?_, rfl⟩
      · exact hExpr.guard.complete hGuard (by omega) hLow.1 hLater stops_enclosed
      · exact hNested.complete hThen (by omega) hLow.2.1 hLexedThen (by omega)
          (stops_of_is hv (by decide))
      · exact hNested.complete hElse (by omega) hLow.2.2 hLexedElse (by omega) hRest
    | _ => simp [opening?, openings] at hOpening
  split
  next ht =>
    rw [show t.text = _ from ht] at hOpening
    cases hDerives with
    | whileDo _ hGuard hBody =>
      simp only [Stmt.operations, List.forall_mem_append, Expr.forall_operations_iff] at hLow
      have hShorter := hGuard.consumes.length_le
      exact ⟨_, ⟨_, line⟩, hExpr.guard.complete hGuard (by omega) hLow.1 hLater stops_enclosed, _,
        hNested.complete hBody (by omega) hLow.2 (hGuard.consumes.lexed hLater) (by omega) hRest,
        rfl⟩
    | _ => simp [opening?, openings] at hOpening
  split
  next ht =>
    rw [show t.text = _ from ht] at hOpening
    cases hDerives with
    | block _ hBody hu =>
      have hShorter := hBody.length_add_le
      exact ⟨_, _, hNested.complete_statements hBody (by omega) hLow hLater (by omega)
        (closes_of_is hu) (by omega), hu, rfl⟩
    | _ => simp [opening?, openings] at hOpening
  next hIf hWhile hBlock =>
    have hText : t.text ∉ ["if", "while", "\x7b"] := by
      simpa using ⟨hIf, hWhile, hBlock⟩
    exact hExpr.complete_command hDerives (by omega) hLow hLexed hRest hText

theorem ReadsStmt.statementOver (hExpr : Reads expr .sum (bound + 1))
    (hNested : ReadsStmt stmt size (bound + 1)) :
    ReadsStmt (statementOver size expr stmt) size (bound + 2) where
  sound := sound_statementOver hExpr hNested
  complete := complete_statementOver hExpr hNested

end

theorem readsStmt_statement (size levels : Nat) :
    ReadsStmt (statement size levels) size (levels + 1) := by
  induction levels with
  | zero =>
    constructor
    · intro c c' s h
      simp [statement] at h
    · intro ts rest line s n h hDepth
      cases h <;> omega
  | succ levels ih => exact ReadsStmt.statementOver (reads_expression levels) ih

theorem sound_plan {p : Plan} (h : Yields plan c p c') :
    (∀ x ∈ p.operations, x.height ≤ maxNesting) ∧ ∃ n ≤ maxNesting, DerivesPlan c.tokens p n := by
  obtain ⟨-, hEnd, first, c₁, more, hFirst, hMore, rfl⟩ := yields_plan.mp h
  have hReads := readsStmt_statement c.tokens.length maxNesting
  obtain ⟨hLow, m, hm, hFirst⟩ := hReads.sound hFirst
  obtain ⟨hLowMore, n, hn, hMore⟩ := hReads.sound_statements hMore
  rw [hEnd] at hMore
  refine ⟨?_, max m n, by omega, by simp, .cons hFirst hMore⟩
  simpa only [Plan.operations, Stmt.operationsAll, List.forall_mem_append] using ⟨hLow, hLowMore⟩

theorem complete_plan {p : Plan} (h : DerivesPlan ts p n) (hDepth : n ≤ maxNesting)
    (hLow : ∀ x ∈ p.operations, x.height ≤ maxNesting) (hLexed : ∀ t ∈ ts, t.Lexed) :
    Yields plan ⟨ts, line⟩ p ⟨[], line⟩ := by
  obtain ⟨statements⟩ := p
  obtain ⟨hNonempty, hDerives⟩ := h
  have hReads := readsStmt_statement ts.length maxNesting
  have hEnd : Closes [] := by simp [Closes]
  cases hDerives with
  | nil => simp at hNonempty
  | @cons _ us _ first more _ _ hFirst hMore =>
    simp only [Plan.operations, Stmt.operationsAll, List.forall_mem_append] at hLow
    have hLater := hFirst.begins.consumes.lexed hLexed
    have hShorter := hFirst.length_lt
    have hLength := hMore.length_add_le
    refine yields_plan.mpr ⟨?_, rfl, first, ⟨us, line⟩, more, ?_, ?_, rfl⟩
    · rintro rfl
      simp at hShorter
    · exact hReads.complete hFirst (by omega) hLow.1 hLexed Nat.le.refl (hMore.stops hLater hEnd)
    · have hFuel : more.length ≤ ts.length := by omega
      exact hReads.complete_statements hMore (by omega) hLow.2 hLater (by omega) hEnd hFuel

end Parser

namespace Plan

theorem parse_eq_ok_iff_yields {text : String} {plan : Plan} :
    parse text = .ok plan ↔ ∃ c', Parser.plan.Yields (Cursor.ofString text) plan c' := by
  unfold parse Parser.Yields
  cases Parser.plan.run (Cursor.ofString text) with
  | error e => simp [bind, Except.bind]
  | ok r => simp [bind, Except.bind, pure, Except.pure, Prod.ext_iff]

/-- A text is read as a plan if and only if its tokens are valid and derive that plan by the
grammar, no more than `maxNesting` deep and high. The tokens of a text derive one plan at most, however
deep or high, and at one depth. -/
theorem parse_eq_ok_iff (text : String) :
    (∀ plan : Plan, parse text = .ok plan ↔
      (∀ t ∈ (Cursor.ofString text).tokens, t.kind ≠ .invalid) ∧
      (∃ n ≤ maxNesting, DerivesPlan (Cursor.ofString text).tokens plan n) ∧
      (∀ x ∈ plan.operations, x.height ≤ maxNesting)) ∧
    ∀ plan plan' n n', DerivesPlan (Cursor.ofString text).tokens plan n →
      DerivesPlan (Cursor.ofString text).tokens plan' n' → plan = plan' ∧ n = n' := by
  have hLexed : ∀ t ∈ (Cursor.ofString text).tokens, t.Lexed :=
    Token.lexed_of_mem_split 1 text.toList
  refine ⟨fun plan => ?_, fun plan plan' n n' h h' => h.unique hLexed h'⟩
  rw [parse_eq_ok_iff_yields]
  constructor
  · rintro ⟨c', h⟩
    obtain ⟨hLow, n, hDepth, hDerives⟩ := Parser.sound_plan h
    exact ⟨hDerives.2.consumes.valid hLexed (by simp), ⟨n, hDepth, hDerives⟩, hLow⟩
  · rintro ⟨-, ⟨n, hDepth, hDerives⟩, hLow⟩
    exact ⟨_, Parser.complete_plan hDerives hDepth hLow hLexed⟩

end Plan

end CityCrew
