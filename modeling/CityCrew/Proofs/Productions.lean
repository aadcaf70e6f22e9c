import Mathlib.Order.Bounds.Basic
import CityCrew.Proofs.Fragments

/-!
# The fragments of a plan

Phrases, statements and sequences of statements are fragments, and each rule of the grammar makes
one of them from others. Wherever there is a choice of rules, the first token decides. A plan breaks
off where the sequence of all its statements does.
-/

namespace CityCrew

namespace Grammar

open Token (written fixedTexts occurs_written)

variable {t : Token} {ts us pre suf rest : List Token}

theorem Consumes.suffix (h : Consumes ts rest) : rest <:+ ts := by
  induction h with
  | refl => exact List.suffix_rfl
  | cons _ _ ih => exact ih.trans (List.suffix_cons _ _)

/-- What follows in a chain does not depend on the tree that it goes on with. -/
theorem Derives.relabel {rank : Rank} {lhs e : Expr} {n : Nat}
    (h : Derives (.more rank lhs) ts rest e n) (lhs' : Expr) :
    ∃ e', Derives (.more rank lhs') ts rest e' n := by
  generalize hc : Category.more rank lhs = c at h
  induction h generalizing lhs lhs' with
  | noMore =>
    cases hc
    exact ⟨lhs', .noMore⟩
  | @more _ _ _ _ _ _ rhs _ op _ _ hOp ht hFirst _ _ ih =>
    cases hc
    obtain ⟨e', hMore⟩ := ih (.binary op lhs' rhs) rfl
    exact ⟨e', .more hOp ht hFirst hMore⟩
  | _ => cases hc

namespace Fragment

variable {F G : Fragment}

theorem exists_derives (c : Category) : ∃ us : List Token, (∀ u ∈ us, u.Occurs) ∧
    ∀ rest, ∃ e n, Derives c (us ++ rest) rest e n := by
  have hPrimary (rest : List Token) : Derives .primary ([written "opponent"] ++ rest) rest _ _ :=
    .opponent rfl
  have hTerm (rest : List Token) : Derives .term ([written "opponent"] ++ rest) rest _ _ :=
    .chain (.bare (hPrimary rest)) .noMore
  have hSum (rest : List Token) : Derives .sum ([written "opponent"] ++ rest) rest _ _ :=
    .chain (hTerm rest) .noMore
  have hOccurs : ∀ u ∈ [written "opponent"], u.Occurs := by
    simpa using occurs_written (by decide)
  cases c with
  | chain rank =>
    cases rank with
    | additive => exact ⟨_, hOccurs, fun rest => ⟨_, _, hSum rest⟩⟩
    | multiplicative => exact ⟨_, hOccurs, fun rest => ⟨_, _, hTerm rest⟩⟩
  | more rank lhs => exact ⟨[], by simp, fun rest => ⟨_, _, .noMore⟩⟩
  | factor => exact ⟨_, hOccurs, fun rest => ⟨_, _, .bare (hPrimary rest)⟩⟩
  | primary => exact ⟨_, hOccurs, fun rest => ⟨_, _, hPrimary rest⟩⟩
  | enclosed =>
    refine ⟨[written "(", written "opponent", written ")"], ?_, fun rest =>
      ⟨_, _, .enclosed rfl (hSum (written ")" :: rest)) rfl⟩⟩
    have hTexts : ["(", "opponent", ")"] ⊆ fixedTexts := by decide
    simpa using fun text (h : text ∈ ["(", "opponent", ")"]) => occurs_written (hTexts h)

def phrase (c : Category) : Fragment where
  Spans ts rest := ∃ e n, Derives c ts rest e n
  Over := Stops c
  suffix := by
    rintro ts rest ⟨e, n, h⟩
    exact h.consumes.suffix
  exists_spans := exists_derives c

def statement : Fragment where
  Spans ts rest := ∃ s n, DerivesStmt ts rest s n
  Over := Stops .sum
  suffix := by
    rintro ts rest ⟨s, n, h⟩
    exact h.begins.consumes.suffix
  exists_spans :=
    ⟨[written "done"], by simpa using occurs_written (by decide), fun rest => ⟨_, _, .done rfl⟩⟩

def statements : Fragment where
  Spans ts rest := ∃ body n, DerivesStmts ts rest body n
  Over := Closes
  suffix := by
    rintro ts rest ⟨body, n, h⟩
    exact h.consumes.suffix
  exists_spans := ⟨[], by simp, fun rest => ⟨_, _, .nil⟩⟩

section

variable {rank : Rank} {lhs : Expr} {op : Operator}

theorem symbol_mem_fixedTexts (op : Operator) : op.symbol ∈ fixedTexts := by
  cases op <;> decide

theorem meets_more : (phrase rank.operand).Meets (phrase (.more rank lhs)) := by
  rintro us rest - ⟨e, n, h⟩ hOver
  exact h.stops_operand hOver

theorem filled_more (h : ∀ t ∈ suf.head?, ∀ op ∈ rank.operators, ¬ t.Is op.symbol) :
    (phrase (.more rank lhs)).Filled [] suf where
  spans rest := ⟨lhs, 0, .noMore⟩
  eq_of_spans := by
    rintro us rest hHead - - ⟨e, n, hDerives⟩
    cases hDerives with
    | noMore => rfl
    | more hOp ht _ _ => exact absurd ht (h _ hHead.symm _ hOp)

theorem case_more (hOp : op ∈ rank.operators) (ht : t.Is op.symbol) :
    ((fixed op.symbol (symbol_mem_fixedTexts op)).seq
      ((phrase rank.operand).seq (phrase (.more rank lhs)))).CaseOf
        (phrase (.more rank lhs)) (t :: ts) where
  intro := by
    rintro us rest ⟨_, ⟨u, hu, rfl⟩, vs, ⟨rhs, m, hRhs⟩, e, n, hMore⟩
    obtain ⟨e', hMore⟩ := hMore.relabel (.binary op lhs rhs)
    exact ⟨e', _, .more hOp hu hRhs hMore⟩
  elim := by
    rintro us rest hHead - hOver ⟨e, n, hDerives⟩
    cases hDerives with
    | noMore => exact absurd ht (hOver t hHead op (rank.operators_subset_glue hOp))
    | more hOp' ht' hRhs hMore =>
      obtain rfl := Option.some.inj hHead
      obtain rfl := Operator.symbol_injective (ht.symm.trans ht')
      obtain ⟨e', hMore⟩ := hMore.relabel lhs
      exact ⟨_, ⟨_, ht, rfl⟩, _, ⟨_, _, hRhs⟩, _, _, hMore⟩
  imp_over h := h

theorem case_chain (lhs : Expr) :
    ((phrase rank.operand).seq (phrase (.more rank lhs))).CaseOf (phrase (.chain rank)) ts where
  intro := by
    rintro us rest ⟨vs, ⟨e, m, hFirst⟩, e', n, hMore⟩
    obtain ⟨e'', hMore⟩ := hMore.relabel e
    exact ⟨e'', _, .chain hFirst hMore⟩
  elim := by
    rintro us rest - - - ⟨e, n, hDerives⟩
    cases hDerives with
    | chain hFirst hMore =>
      obtain ⟨e', hMore⟩ := hMore.relabel lhs
      exact ⟨_, ⟨_, _, hFirst⟩, _, _, hMore⟩
  imp_over h := h

end

def exponent : Fragment where
  Spans ts rest := ts = rest ∨ ∃ t us, ts = t :: us ∧ t.Is "^" ∧ (phrase .factor).Spans us rest
  Over := Stops .factor
  suffix := by
    rintro ts rest (rfl | ⟨t, us, rfl, -, h⟩)
    · exact List.suffix_rfl
    · exact ((phrase .factor).suffix h).trans (List.suffix_cons _ _)
  exists_spans := ⟨[], by simp, fun rest => .inl rfl⟩

theorem filled_exponent (h : ∀ t ∈ suf.head?, ¬ t.Is "^") : exponent.Filled [] suf where
  spans rest := .inl rfl
  eq_of_spans := by
    rintro us rest hHead - - (hEnd | ⟨t, us, rfl, ht, -⟩)
    · exact hEnd.symm
    · exact absurd ht (h t hHead.symm)

theorem case_exponent (ht : t.Is "^") :
    ((fixed "^" (by decide)).seq (phrase .factor)).CaseOf exponent (t :: ts) where
  intro := by
    rintro us rest ⟨vs, ⟨u, hu, rfl⟩, h⟩
    exact .inr ⟨u, vs, rfl, hu, h⟩
  elim := by
    rintro us rest hHead - hOver (rfl | ⟨u, vs, rfl, hu, h⟩)
    · exact absurd ht (hOver t hHead .pow (by decide))
    · exact ⟨vs, ⟨u, hu, rfl⟩, h⟩
  imp_over h := h

theorem meets_exponent : (phrase .primary).Meets exponent :=
  fun _ _ _ _ _ => stops_primary

theorem case_factor : ((phrase .primary).seq exponent).CaseOf (phrase .factor) ts where
  intro := by
    rintro us rest ⟨vs, ⟨e, m, hBase⟩, rfl | ⟨u, ws, rfl, hu, e', n, h⟩⟩
    · exact ⟨e, m, .bare hBase⟩
    · exact ⟨_, _, .power hBase hu h⟩
  elim := by
    rintro us rest - - - ⟨e, n, hDerives⟩
    cases hDerives with
    | bare hBase => exact ⟨_, ⟨_, _, hBase⟩, .inl rfl⟩
    | power hBase hu h => exact ⟨_, ⟨_, _, hBase⟩, .inr ⟨_, _, rfl, hu, _, _, h⟩⟩
  imp_over h := h

def parenthesized : Fragment :=
  (fixed "(" (by decide)).seq ((phrase .sum).seq (fixed ")" (by decide)))

theorem meets_closing {c : Category} : (phrase c).Meets (fixed ")" (by decide)) := by
  rintro us rest - ⟨u, hu, rfl⟩ -
  exact stops_of_is hu (by decide)

theorem case_enclosed : parenthesized.CaseOf (phrase .enclosed) ts where
  intro := by
    rintro us rest ⟨_, ⟨t, ht, rfl⟩, vs, ⟨e, n, h⟩, u, hu, rfl⟩
    exact ⟨e, n, .enclosed ht h hu⟩
  elim := by
    rintro us rest - - - ⟨e, n, hDerives⟩
    cases hDerives with
    | enclosed ht h hu => exact ⟨_, ⟨_, ht, rfl⟩, _, ⟨_, _, h⟩, _, hu, rfl⟩
  imp_over _ := trivial

theorem case_parentheses (ht : t.Is "(") : parenthesized.CaseOf (phrase .primary) (t :: ts) where
  intro := by
    rintro us rest ⟨_, ⟨u, hu, rfl⟩, vs, ⟨e, n, h⟩, v, hv, rfl⟩
    exact ⟨e, n + 1, .parentheses (.enclosed hu h hv)⟩
  elim := by
    rintro us rest hHead hLexed - ⟨e, n, hDerives⟩
    obtain ⟨u, vs, rfl⟩ := hDerives.exists_cons
    obtain rfl := Option.some.inj hHead
    have hCases := hDerives.primary_inv (hLexed u List.mem_cons_self)
    rw [if_neg (ht.not_is (by decide)), if_neg (ht.not_is (by decide)), if_pos ht] at hCases
    obtain ⟨v, m, hSum, hv, -⟩ := hCases
    exact ⟨vs, ⟨u, ht, rfl⟩, v :: rest, ⟨e, m, hSum⟩, v, hv, rfl⟩
  imp_over _ := trivial

theorem case_opponent (ht : t.Is "opponent") :
    (fixed "opponent" (by decide)).CaseOf (phrase .primary) (t :: ts) where
  intro := by
    rintro us rest ⟨u, hu, rfl⟩
    exact ⟨_, _, .opponent hu⟩
  elim := by
    rintro us rest hHead hLexed - ⟨e, n, hDerives⟩
    obtain ⟨u, vs, rfl⟩ := hDerives.exists_cons
    obtain rfl := Option.some.inj hHead
    have hCases := hDerives.primary_inv (hLexed u List.mem_cons_self)
    rw [if_pos ht] at hCases
    exact ⟨u, ht, by rw [hCases.1]⟩
  imp_over _ := trivial

theorem case_nearby (ht : t.Is "nearby") :
    ((fixed "nearby" (by decide)).seq direction).CaseOf (phrase .primary) (t :: ts) where
  intro := by
    rintro us rest ⟨_, ⟨u, hu, rfl⟩, v, ⟨d, hd⟩, rfl⟩
    exact ⟨_, _, .nearby hu hd⟩
  elim := by
    rintro us rest hHead hLexed - ⟨e, n, hDerives⟩
    obtain ⟨u, vs, rfl⟩ := hDerives.exists_cons
    obtain rfl := Option.some.inj hHead
    have hCases := hDerives.primary_inv (hLexed u List.mem_cons_self)
    rw [if_neg (ht.not_is (by decide)), if_pos ht] at hCases
    obtain ⟨v, d, rfl, hd, -⟩ := hCases
    exact ⟨v :: rest, ⟨u, ht, rfl⟩, v, ⟨d, hd⟩, rfl⟩
  imp_over _ := trivial

def atom : Fragment :=
  single (fun t => (t.kind = .number ∧ ∃ k, Numeral t.text k) ∨ Identifier t)
    (exists_identifier.imp fun _ h => ⟨h.1, .inr h.2⟩)

theorem case_atom
    (h : ∀ t ∈ ts.head?, ¬ t.Is "opponent" ∧ ¬ t.Is "nearby" ∧ ¬ t.Is "(") :
    atom.CaseOf (phrase .primary) ts where
  intro := by
    rintro us rest ⟨u, ⟨hKind, k, hText⟩ | hName, rfl⟩
    · exact ⟨_, _, .number hKind hText⟩
    · exact ⟨_, _, .identifier hName⟩
  elim := by
    rintro us rest hHead hLexed - ⟨e, n, hDerives⟩
    obtain ⟨u, vs, rfl⟩ := hDerives.exists_cons
    obtain ⟨hOpponent, hNearby, hOpen⟩ := h u hHead.symm
    have hCases := hDerives.primary_inv (hLexed u List.mem_cons_self)
    rw [if_neg hOpponent, if_neg hNearby, if_neg hOpen] at hCases
    split at hCases
    next hKind =>
      obtain ⟨k, rfl, hText, -⟩ := hCases
      exact ⟨u, .inl ⟨hKind, k, hText⟩, rfl⟩
    next =>
      obtain ⟨hName, rfl, -⟩ := hCases
      exact ⟨u, .inr hName, rfl⟩
  imp_over _ := trivial

/-- Which statement stands somewhere shows in its first token. -/
theorem case_statement (hIntro : ∀ {us rest : List Token}, F.Spans us rest →
      ∃ s n, DerivesStmt us rest s n)
    (hElim : ∀ {us rest : List Token} {s : Stmt} {n : Nat}, t.Lexed →
      DerivesStmt (t :: us) rest s n →
        opening? s = (if t.text ∈ openings then some t.text else none) → F.Spans (t :: us) rest)
    (hOver : ∀ {rest : List Token}, Stops .sum rest → F.Over rest) :
    F.CaseOf statement (t :: ts) where
  intro := hIntro
  elim := by
    rintro us rest hHead hLexed - ⟨s, n, hDerives⟩
    obtain ⟨u, vs, rfl, -, -⟩ := hDerives.begins
    obtain rfl := Option.some.inj hHead
    have hHere := hLexed u List.mem_cons_self
    exact hElim hHere hDerives (hDerives.opening?_eq hHere)
  imp_over := hOver

theorem case_done (ht : t.Is "done") : (fixed "done" (by decide)).CaseOf statement (t :: ts) := by
  refine case_statement ?_ ?_ (fun _ => trivial)
  · rintro us rest ⟨u, hu, rfl⟩
    exact ⟨_, _, .done hu⟩
  · rintro us rest s n - hDerives hOpening
    rw [show t.text = _ from ht] at hOpening
    cases hDerives with
    | done hu => exact ⟨t, hu, rfl⟩
    | _ => simp [opening?, openings] at hOpening

theorem case_relocate (ht : t.Is "relocate") :
    (fixed "relocate" (by decide)).CaseOf statement (t :: ts) := by
  refine case_statement ?_ ?_ (fun _ => trivial)
  · rintro us rest ⟨u, hu, rfl⟩
    exact ⟨_, _, .relocate hu⟩
  · rintro us rest s n - hDerives hOpening
    rw [show t.text = _ from ht] at hOpening
    cases hDerives with
    | relocate hu => exact ⟨t, hu, rfl⟩
    | _ => simp [opening?, openings] at hOpening

theorem case_move (ht : t.Is "move") :
    ((fixed "move" (by decide)).seq direction).CaseOf statement (t :: ts) := by
  refine case_statement ?_ ?_ (fun _ => trivial)
  · rintro us rest ⟨_, ⟨u, hu, rfl⟩, v, ⟨d, hd⟩, rfl⟩
    exact ⟨_, _, .move hu hd⟩
  · rintro us rest s n - hDerives hOpening
    rw [show t.text = _ from ht] at hOpening
    cases hDerives with
    | move hu hd => exact ⟨_, ⟨t, hu, rfl⟩, _, ⟨_, hd⟩, rfl⟩
    | _ => simp [opening?, openings] at hOpening

theorem case_invest (ht : t.Is "invest") :
    ((fixed "invest" (by decide)).seq (phrase .sum)).CaseOf statement (t :: ts) := by
  refine case_statement ?_ ?_ id
  · rintro us rest ⟨_, ⟨u, hu, rfl⟩, e, n, hAmount⟩
    exact ⟨_, _, .invest hu hAmount⟩
  · rintro us rest s n - hDerives hOpening
    rw [show t.text = _ from ht] at hOpening
    cases hDerives with
    | invest hu hAmount => exact ⟨us, ⟨t, hu, rfl⟩, _, _, hAmount⟩
    | _ => simp [opening?, openings] at hOpening

theorem case_collect (ht : t.Is "collect") :
    ((fixed "collect" (by decide)).seq (phrase .sum)).CaseOf statement (t :: ts) := by
  refine case_statement ?_ ?_ id
  · rintro us rest ⟨_, ⟨u, hu, rfl⟩, e, n, hAmount⟩
    exact ⟨_, _, .collect hu hAmount⟩
  · rintro us rest s n - hDerives hOpening
    rw [show t.text = _ from ht] at hOpening
    cases hDerives with
    | collect hu hAmount => exact ⟨us, ⟨t, hu, rfl⟩, _, _, hAmount⟩
    | _ => simp [opening?, openings] at hOpening

theorem case_shoot (ht : t.Is "shoot") :
    ((fixed "shoot" (by decide)).seq (direction.seq (phrase .sum))).CaseOf statement
      (t :: ts) := by
  refine case_statement ?_ ?_ id
  · rintro us rest ⟨_, ⟨u, hu, rfl⟩, _, ⟨v, ⟨d, hd⟩, rfl⟩, e, n, hAmount⟩
    exact ⟨_, _, .shoot hu hd hAmount⟩
  · rintro us rest s n - hDerives hOpening
    rw [show t.text = _ from ht] at hOpening
    cases hDerives with
    | shoot hu hd hAmount => exact ⟨_, ⟨t, hu, rfl⟩, _, ⟨_, ⟨_, hd⟩, rfl⟩, _, _, hAmount⟩
    | _ => simp [opening?, openings] at hOpening

theorem case_ifThenElse (ht : t.Is "if") :
    ((fixed "if" (by decide)).seq ((phrase .enclosed).seq ((fixed "then" (by decide)).seq
      (statement.seq ((fixed "else" (by decide)).seq statement))))).CaseOf statement
        (t :: ts) := by
  refine case_statement ?_ ?_ id
  · rintro us rest ⟨_, ⟨u, hu, rfl⟩, _, ⟨e, l, hGuard⟩, _, ⟨v, hv, rfl⟩, _, ⟨a, m, hThen⟩, _,
      ⟨w, hw, rfl⟩, b, n, hElse⟩
    exact ⟨_, _, .ifThenElse hu hGuard hv hThen hw hElse⟩
  · rintro us rest s n - hDerives hOpening
    rw [show t.text = _ from ht] at hOpening
    cases hDerives with
    | ifThenElse hu hGuard hv hThen hw hElse =>
      exact ⟨_, ⟨t, hu, rfl⟩, _, ⟨_, _, hGuard⟩, _, ⟨_, hv, rfl⟩, _, ⟨_, _, hThen⟩, _,
        ⟨_, hw, rfl⟩, _, _, hElse⟩
    | _ => simp [opening?, openings] at hOpening

theorem case_whileDo (ht : t.Is "while") :
    ((fixed "while" (by decide)).seq ((phrase .enclosed).seq statement)).CaseOf statement
      (t :: ts) := by
  refine case_statement ?_ ?_ id
  · rintro us rest ⟨_, ⟨u, hu, rfl⟩, _, ⟨e, m, hGuard⟩, body, n, hBody⟩
    exact ⟨_, _, .whileDo hu hGuard hBody⟩
  · rintro us rest s n - hDerives hOpening
    rw [show t.text = _ from ht] at hOpening
    cases hDerives with
    | whileDo hu hGuard hBody => exact ⟨_, ⟨t, hu, rfl⟩, _, ⟨_, _, hGuard⟩, _, _, hBody⟩
    | _ => simp [opening?, openings] at hOpening

theorem case_block (ht : t.Is "\x7b") :
    ((fixed "\x7b" (by decide)).seq (statements.seq (fixed "\x7d" (by decide)))).CaseOf statement
      (t :: ts) := by
  refine case_statement ?_ ?_ (fun _ => trivial)
  · rintro us rest ⟨_, ⟨u, hu, rfl⟩, _, ⟨body, n, hBody⟩, v, hv, rfl⟩
    exact ⟨_, _, .block hu hBody hv⟩
  · rintro us rest s n - hDerives hOpening
    rw [show t.text = _ from ht] at hOpening
    cases hDerives with
    | block hu hBody hv => exact ⟨_, ⟨t, hu, rfl⟩, _, ⟨_, _, hBody⟩, _, hv, rfl⟩
    | _ => simp [opening?, openings] at hOpening

/-- No statement begins with a token that is neither an identifier nor one of the openings. -/
theorem broken_statement
    (h : ∀ t ∈ suf.head?, t.kind ≠ .invalid → ¬ Identifier t ∧ t.text ∉ openings) :
    statement.Broken [] suf := by
  refine broken_nil fun t ht hLexed us rest ⟨s, n, hDerives⟩ => ?_
  have hStart := h t ht (hDerives.begins.head_valid hLexed)
  obtain ⟨u, vs, hTokens, hText, -⟩ := hDerives.begins
  obtain ⟨rfl, -⟩ := List.cons.inj hTokens
  exact hText.elim hStart.1 hStart.2

theorem meets_enclosed : (phrase .enclosed).Meets G :=
  fun _ _ _ _ _ => stops_enclosed

theorem meets_else : statement.Meets ((fixed "else" (by decide)).seq statement) := by
  rintro us rest - ⟨_, ⟨u, hu, rfl⟩, -⟩ -
  exact stops_of_is hu (by decide)

theorem meets_statements : statement.Meets statements := by
  rintro us rest hLexed ⟨body, n, h⟩ hOver
  exact h.stops hLexed hOver

theorem meets_brace : statements.Meets (fixed "\x7d" (by decide)) := by
  rintro us rest - ⟨u, hu, rfl⟩ -
  exact closes_of_is hu

theorem filled_statements (h : Closes suf) : statements.Filled [] suf where
  spans rest := ⟨[], 0, .nil⟩
  eq_of_spans := by
    rintro us rest hHead hLexed - ⟨body, n, hDerives⟩
    cases hDerives with
    | nil => rfl
    | cons hFirst _ =>
      have hCloses : Closes us := by rwa [Closes, hHead]
      exact absurd hCloses (hFirst.begins.not_closes hLexed)

theorem case_statements (h : ¬ Closes ts) : (statement.seq statements).CaseOf statements ts where
  intro := by
    rintro us rest ⟨vs, ⟨first, m, hFirst⟩, more, n, hMore⟩
    exact ⟨_, _, .cons hFirst hMore⟩
  elim := by
    rintro us rest hHead - hOver ⟨body, n, hDerives⟩
    cases hDerives with
    | nil =>
      have hCloses : Closes ts := by rwa [Closes, ← hHead]
      exact absurd hCloses h
    | cons hFirst hMore => exact ⟨_, ⟨_, _, hFirst⟩, _, _, hMore⟩
  imp_over h := h

theorem case_assign (hName : Identifier t) :
    (identifier.seq ((fixed "=" (by decide)).seq (phrase .sum))).CaseOf statement (t :: ts) := by
  refine case_statement ?_ ?_ id
  · rintro us rest ⟨_, ⟨t, ht, rfl⟩, _, ⟨u, hu, rfl⟩, e, n, hValue⟩
    exact ⟨_, _, .assign ht hu hValue⟩
  · intro us rest s n hLexed hDerives hOpening
    rw [if_neg (hName.not_mem_openings hLexed)] at hOpening
    cases hDerives with
    | assign ht hu hValue => exact ⟨_, ⟨_, ht, rfl⟩, _, ⟨_, hu, rfl⟩, _, _, hValue⟩
    | _ => simp [opening?] at hOpening

end Fragment

def Viable (ts : List Token) : Prop :=
  ∃ us plan n, (∀ u ∈ us, u.Occurs) ∧ DerivesPlan (ts ++ us) plan n

/-- The tokens `pre` are the beginning of a plan, but with the first token of `suf` they are not. -/
structure Misfit (pre suf : List Token) : Prop where
  viable : Viable pre
  not_derivesPlan : ∀ {us : List Token} {plan : Plan} {n : Nat}, us.head? = suf.head? → us ≠ [] →
    (∀ u ∈ us, u.Lexed) → ¬ DerivesPlan (pre ++ us) plan n

/-- A plan is a statement with other statements behind it, up to the end. -/
theorem exists_derivesPlan_iff : (∃ plan n, DerivesPlan ts plan n) ↔
    (Fragment.statement.seq .statements).Spans ts [] := by
  constructor
  · rintro ⟨⟨statements⟩, n, hNonempty, hDerives⟩
    cases hDerives with
    | nil => exact absurd rfl hNonempty
    | cons hFirst hMore => exact ⟨_, ⟨_, _, hFirst⟩, _, _, hMore⟩
  · rintro ⟨us, ⟨first, m, hFirst⟩, more, n, hMore⟩
    exact ⟨⟨first :: more⟩, _, List.cons_ne_nil _ _, .cons hFirst hMore⟩

theorem closes_nil : Closes [] := by
  simp [Closes]

theorem Fragment.Broken.misfit (h : (Fragment.statement.seq .statements).Broken pre suf) :
    Misfit pre suf where
  viable := by
    obtain ⟨us, hOccur, hSpans⟩ := h.exists_spans
    obtain ⟨plan, n, hDerives⟩ := exists_derivesPlan_iff.mpr (hSpans [])
    rw [List.append_nil] at hDerives
    exact ⟨us, plan, n, hOccur, hDerives⟩
  not_derivesPlan hHead hNext hLexed hDerives :=
    h.not_spans hHead hNext hLexed closes_nil (exists_derivesPlan_iff.mp ⟨_, _, hDerives⟩)

/-- Nothing may stand behind a whole plan. -/
theorem Fragment.Filled.misfit (h : (Fragment.statement.seq .statements).Filled pre suf) :
    Misfit pre suf where
  viable := by
    obtain ⟨plan, n, hDerives⟩ := exists_derivesPlan_iff.mpr (h.spans [])
    exact ⟨[], plan, n, by simp, hDerives⟩
  not_derivesPlan hHead hNext hLexed hDerives :=
    hNext (h.eq_of_spans hHead hLexed closes_nil (exists_derivesPlan_iff.mp ⟨_, _, hDerives⟩)).symm

/-- The tokens before the misfit are the longest beginning of a plan. -/
theorem Misfit.isGreatest (h : Misfit pre suf) (hLexed : ∀ t ∈ suf, t.Lexed) :
    IsGreatest {k | k ≤ (pre ++ suf).length ∧ Viable ((pre ++ suf).take k)} pre.length := by
  constructor
  · refine ⟨by simp, ?_⟩
    rw [List.take_left]
    exact h.viable
  · rintro k ⟨hLength, us, plan, n, hOccur, hDerives⟩
    by_contra hLonger
    have hTake : (pre ++ suf).take k = pre ++ suf.take (k - pre.length) := by
      rw [List.take_append, List.take_of_length_le (by omega)]
    obtain ⟨j, hj⟩ : ∃ j, k - pre.length = j + 1 := ⟨k - pre.length - 1, by omega⟩
    rw [hTake, hj, List.append_assoc] at hDerives
    cases suf with
    | nil =>
      rw [List.append_nil] at hLength
      omega
    | cons t suf =>
      have hTaken : ∀ u ∈ (t :: suf).take (j + 1), u.Lexed :=
        fun u hu => hLexed u (List.mem_of_mem_take hu)
      have hAll : ∀ u ∈ (t :: suf).take (j + 1) ++ us, u.Lexed :=
        List.forall_mem_append.mpr ⟨hTaken, fun u hu => (hOccur u hu).lexed⟩
      exact h.not_derivesPlan (by simp) (by simp) hAll hDerives

end Grammar

end CityCrew
