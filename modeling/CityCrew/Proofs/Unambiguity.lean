import CityCrew.Proofs.Phrases

/-!
# Plans are unambiguous

The tokens of a plan have one derivation only. A phrase alone may end at several places: behind
each operand of a sum, for instance. But it has only one end from which its operators do not go on,
and there it has one tree. Sequences of statements are read up to a closing brace or the end of the
text.
-/

namespace CityCrew

namespace Grammar

variable {c : Category} {t : Token} {ts rest rest' : List Token} {e e' : Expr} {n n' : Nat}

/-- Primaries that are not in parentheses consist of fixed tokens. -/
theorem Derives.unique_atom (h : Derives .primary (t :: ts) rest e n) (ht : t.Lexed)
    (hOpen : ¬ t.Is "(") (h' : Derives .primary (t :: ts) rest' e' n') :
    rest = rest' ∧ e = e' ∧ n = n' := by
  have h := h.primary_inv ht
  have h' := h'.primary_inv ht
  rw [if_neg hOpen] at h h'
  split at h
  next hWord =>
    rw [if_pos hWord] at h'
    obtain ⟨rfl, rfl, rfl⟩ := h
    obtain ⟨rfl, rfl, rfl⟩ := h'
    exact ⟨rfl, rfl, rfl⟩
  next hNoWord =>
  rw [if_neg hNoWord] at h'
  split at h
  next hWord =>
    rw [if_pos hWord] at h'
    obtain ⟨u, d, rfl, hKeyword, rfl, rfl⟩ := h
    obtain ⟨u', d', hEnd, hKeyword', rfl, rfl⟩ := h'
    obtain ⟨rfl, rfl⟩ := List.cons.inj hEnd
    obtain rfl := Direction.keyword_injective (hKeyword.symm.trans hKeyword')
    exact ⟨rfl, rfl, rfl⟩
  next hNoWord =>
  rw [if_neg hNoWord] at h'
  split at h
  next hKind =>
    rw [if_pos hKind] at h'
    obtain ⟨k, rfl, hText, rfl, rfl⟩ := h
    obtain ⟨k', rfl, hText', rfl, rfl⟩ := h'
    exact ⟨rfl, by rw [hText.value_eq, hText'.value_eq], rfl⟩
  next hKind =>
  rw [if_neg hKind] at h'
  obtain ⟨-, rfl, rfl, rfl⟩ := h
  obtain ⟨-, rfl, rfl, rfl⟩ := h'
  exact ⟨rfl, rfl, rfl⟩

/-- There is one place where a phrase is over for good, and it has one tree up to there. -/
theorem Derives.unique (h : Derives c ts rest e n) (hLexed : ∀ t ∈ ts, t.Lexed)
    (hRest : Stops c rest) (h' : Derives c ts rest' e' n') (hRest' : Stops c rest') :
    rest = rest' ∧ e = e' ∧ n = n' := by
  induction h generalizing rest' e' n' with
  | chain hFirst hMore ihFirst ihMore =>
    cases h' with
    | chain hFirst' hMore' =>
      obtain ⟨rfl, rfl, rfl⟩ := ihFirst hLexed (hMore.stops_operand hRest) hFirst'
        (hMore'.stops_operand hRest')
      obtain ⟨rfl, rfl, rfl⟩ := ihMore (hFirst.consumes.lexed hLexed) hRest hMore' hRest'
      exact ⟨rfl, rfl, rfl⟩
  | @noMore rank =>
    cases h' with
    | noMore => exact ⟨rfl, rfl, rfl⟩
    | more hOp ht => exact absurd ht (stops_cons.mp hRest _ (rank.operators_subset_glue hOp))
  | @more rank _ _ _ _ _ _ _ _ _ _ hOp ht hFirst hMore ihFirst ihMore =>
    cases h' with
    | noMore => exact absurd ht (stops_cons.mp hRest' _ (rank.operators_subset_glue hOp))
    | more hOp' ht' hFirst' hMore' =>
      obtain rfl := Operator.symbol_injective (ht.symm.trans ht')
      have hLexed := (List.forall_mem_cons.mp hLexed).2
      obtain ⟨rfl, rfl, rfl⟩ := ihFirst hLexed (hMore.stops_operand hRest) hFirst'
        (hMore'.stops_operand hRest')
      obtain ⟨rfl, rfl, rfl⟩ := ihMore (hFirst.consumes.lexed hLexed) hRest hMore' hRest'
      exact ⟨rfl, rfl, rfl⟩
  | bare _ ih =>
    cases h' with
    | bare h' => exact ih hLexed stops_primary h' stops_primary
    | power hBase ht _ =>
      obtain ⟨rfl, -, -⟩ := ih hLexed stops_primary hBase stops_primary
      exact absurd ht (stops_cons.mp hRest .pow (by decide))
  | power hBase ht hExponent ihBase ihExponent =>
    cases h' with
    | bare h' =>
      obtain ⟨rfl, -, -⟩ := ihBase hLexed stops_primary h' stops_primary
      exact absurd ht (stops_cons.mp hRest' .pow (by decide))
    | power hBase' _ hExponent' =>
      obtain ⟨hEnd, rfl, rfl⟩ := ihBase hLexed stops_primary hBase' stops_primary
      obtain ⟨rfl, rfl⟩ := List.cons.inj hEnd
      have hLexed := (List.forall_mem_cons.mp (hBase.consumes.lexed hLexed)).2
      obtain ⟨rfl, rfl, rfl⟩ := ihExponent hLexed hRest hExponent' hRest'
      exact ⟨rfl, rfl, rfl⟩
  | number hKind hText =>
    have ht := hLexed _ List.mem_cons_self
    have hOpen : ¬ Token.Is _ "(" := ht.not_is (by rw [hKind]; decide)
    exact (Derives.number hKind hText).unique_atom ht hOpen h'
  | identifier hName =>
    have ht := hLexed _ List.mem_cons_self
    have hOpen : ¬ Token.Is _ "(" := ht.not_is (by rw [hName.1]; decide)
    exact (Derives.identifier hName).unique_atom ht hOpen h'
  | parentheses h ih =>
    cases h with
    | enclosed hOpen _ _ =>
      have h' := h'.primary_inv (hLexed _ List.mem_cons_self)
      rw [if_neg (hOpen.not_is (by decide)), if_neg (hOpen.not_is (by decide)), if_pos hOpen] at h'
      obtain ⟨u, m, hSum, hClose, rfl⟩ := h'
      obtain ⟨rfl, rfl, rfl⟩ := ih hLexed stops_enclosed (.enclosed hOpen hSum hClose)
        stops_enclosed
      exact ⟨rfl, rfl, rfl⟩
  | opponent hWord =>
    have hOpen : ¬ Token.Is _ "(" := hWord.not_is (by decide)
    exact (Derives.opponent hWord).unique_atom (hLexed _ List.mem_cons_self) hOpen h'
  | nearby hWord hKeyword =>
    have hOpen : ¬ Token.Is _ "(" := hWord.not_is (by decide)
    exact (Derives.nearby hWord hKeyword).unique_atom (hLexed _ List.mem_cons_self) hOpen h'
  | enclosed ht h hu ih =>
    cases h' with
    | enclosed ht' h' hu' =>
      obtain ⟨hEnd, rfl, rfl⟩ := ih (List.forall_mem_cons.mp hLexed).2 (stops_of_is hu (by decide))
        h' (stops_of_is hu' (by decide))
      obtain ⟨rfl, rfl⟩ := List.cons.inj hEnd
      exact ⟨rfl, rfl, rfl⟩

mutual

theorem DerivesStmt.unique : ∀ {ts rest rest' : List Token} {s s' : Stmt} {n n' : Nat},
    DerivesStmt ts rest s n → (∀ t ∈ ts, t.Lexed) → Stops .sum rest →
    DerivesStmt ts rest' s' n' → Stops .sum rest' → rest = rest' ∧ s = s' ∧ n = n' := by
  intro ts rest rest' s s' n n' h hLexed hRest h' hRest'
  have hOpening := h.same_opening hLexed h'
  cases h with
  | assign _ _ hValue =>
    cases h' with
    | assign _ _ hValue' =>
      have hLexed := (List.forall_mem_cons.mp (List.forall_mem_cons.mp hLexed).2).2
      obtain ⟨rfl, rfl, rfl⟩ := hValue.unique hLexed hRest hValue' hRest'
      exact ⟨rfl, rfl, rfl⟩
    | _ => simp [opening?] at hOpening
  | done _ =>
    cases h' with
    | done _ => exact ⟨rfl, rfl, rfl⟩
    | _ => simp [opening?] at hOpening
  | relocate _ =>
    cases h' with
    | relocate _ => exact ⟨rfl, rfl, rfl⟩
    | _ => simp [opening?] at hOpening
  | move _ hu =>
    cases h' with
    | move _ hu' =>
      obtain rfl := Direction.keyword_injective (hu.symm.trans hu')
      exact ⟨rfl, rfl, rfl⟩
    | _ => simp [opening?] at hOpening
  | invest _ hAmount =>
    cases h' with
    | invest _ hAmount' =>
      have hLexed := (List.forall_mem_cons.mp hLexed).2
      obtain ⟨rfl, rfl, rfl⟩ := hAmount.unique hLexed hRest hAmount' hRest'
      exact ⟨rfl, rfl, rfl⟩
    | _ => simp [opening?] at hOpening
  | collect _ hAmount =>
    cases h' with
    | collect _ hAmount' =>
      have hLexed := (List.forall_mem_cons.mp hLexed).2
      obtain ⟨rfl, rfl, rfl⟩ := hAmount.unique hLexed hRest hAmount' hRest'
      exact ⟨rfl, rfl, rfl⟩
    | _ => simp [opening?] at hOpening
  | shoot _ hu hAmount =>
    cases h' with
    | shoot _ hu' hAmount' =>
      have hLexed := (List.forall_mem_cons.mp (List.forall_mem_cons.mp hLexed).2).2
      obtain rfl := Direction.keyword_injective (hu.symm.trans hu')
      obtain ⟨rfl, rfl, rfl⟩ := hAmount.unique hLexed hRest hAmount' hRest'
      exact ⟨rfl, rfl, rfl⟩
    | _ => simp [opening?] at hOpening
  | ifThenElse _ hGuard hu hThen hv hElse =>
    cases h' with
    | ifThenElse _ hGuard' _ hThen' hv' hElse' =>
      have hLexed := (List.forall_mem_cons.mp hLexed).2
      obtain ⟨hEnd, rfl, rfl⟩ := hGuard.unique hLexed stops_enclosed hGuard' stops_enclosed
      obtain ⟨rfl, rfl⟩ := List.cons.inj hEnd
      have hLexed := (List.forall_mem_cons.mp (hGuard.consumes.lexed hLexed)).2
      obtain ⟨hEnd, rfl, rfl⟩ := DerivesStmt.unique hThen hLexed (stops_of_is hv (by decide))
        hThen' (stops_of_is hv' (by decide))
      obtain ⟨rfl, rfl⟩ := List.cons.inj hEnd
      have hLexed := (List.forall_mem_cons.mp (hThen.begins.consumes.lexed hLexed)).2
      obtain ⟨rfl, rfl, rfl⟩ := DerivesStmt.unique hElse hLexed hRest hElse' hRest'
      exact ⟨rfl, rfl, rfl⟩
    | _ => simp [opening?] at hOpening
  | whileDo _ hGuard hBody =>
    cases h' with
    | whileDo _ hGuard' hBody' =>
      have hLexed := (List.forall_mem_cons.mp hLexed).2
      obtain ⟨rfl, rfl, rfl⟩ := hGuard.unique hLexed stops_enclosed hGuard' stops_enclosed
      have hLexed := hGuard.consumes.lexed hLexed
      obtain ⟨rfl, rfl, rfl⟩ := DerivesStmt.unique hBody hLexed hRest hBody' hRest'
      exact ⟨rfl, rfl, rfl⟩
    | _ => simp [opening?] at hOpening
  | block _ hBody hu =>
    cases h' with
    | block _ hBody' hu' =>
      have hLexed := (List.forall_mem_cons.mp hLexed).2
      obtain ⟨hEnd, rfl, rfl⟩ := DerivesStmts.unique hBody hLexed (closes_of_is hu)
        hBody' (closes_of_is hu')
      obtain ⟨rfl, rfl⟩ := List.cons.inj hEnd
      exact ⟨rfl, rfl, rfl⟩
    | _ => simp [opening?] at hOpening

theorem DerivesStmts.unique : ∀ {ts rest rest' : List Token} {body body' : List Stmt} {n n' : Nat},
    DerivesStmts ts rest body n → (∀ t ∈ ts, t.Lexed) → Closes rest →
    DerivesStmts ts rest' body' n' → Closes rest' → rest = rest' ∧ body = body' ∧ n = n' := by
  intro ts rest rest' body body' n n' h hLexed hRest h' hRest'
  cases h with
  | nil =>
    cases h' with
    | nil => exact ⟨rfl, rfl, rfl⟩
    | cons hFirst _ => exact absurd hRest (hFirst.begins.not_closes hLexed)
  | cons hFirst hMore =>
    cases h' with
    | nil => exact absurd hRest' (hFirst.begins.not_closes hLexed)
    | cons hFirst' hMore' =>
      have hLater := hFirst.begins.consumes.lexed hLexed
      have hLater' := hFirst'.begins.consumes.lexed hLexed
      obtain ⟨rfl, rfl, rfl⟩ := DerivesStmt.unique hFirst hLexed (hMore.stops hLater hRest)
        hFirst' (hMore'.stops hLater' hRest')
      obtain ⟨rfl, rfl, rfl⟩ := DerivesStmts.unique hMore hLater hRest hMore' hRest'
      exact ⟨rfl, rfl, rfl⟩

end

theorem DerivesPlan.unique {tokens : List Token} {plan plan' : Plan}
    (h : DerivesPlan tokens plan n) (hLexed : ∀ t ∈ tokens, t.Lexed)
    (h' : DerivesPlan tokens plan' n') : plan = plan' ∧ n = n' := by
  have hEnd : Closes [] := by simp [Closes]
  obtain ⟨-, hStatements, hDepth⟩ := h.2.unique hLexed hEnd h'.2 hEnd
  obtain ⟨statements⟩ := plan
  obtain ⟨statements'⟩ := plan'
  exact ⟨congrArg Plan.mk hStatements, hDepth⟩

end Grammar

end CityCrew
