import CityCrew.Proofs.Layout
import CityCrew.Proofs.Lexing
import CityCrew.Proofs.Parsing

/-!
# Plans one behind the other

Statements need nothing between them. Where one plan ends, another one can begin, if white space
keeps the last token of the one apart from the first token of the other. The tokens of the second
plan then stand further down, and so do its assignments.
-/

namespace CityCrew

open Grammar

namespace Token

variable {before after gap cs ds : List Char} {kind : Kind} {line : Nat}

def raised (k : Nat) (t : Token) : Token :=
  { t with line := t.line + k }

@[simp] theorem raised_zero (t : Token) : t.raised 0 = t :=
  rfl

@[simp] theorem map_raised_zero (ts : List Token) : ts.map (raised 0) = ts :=
  List.map_id ts

theorem first_add (line k : Nat) (c : Char) (cs : List Char) :
    first (line + k) c cs = ((first line c cs).1.raised k, (first line c cs).2) := by
  unfold first
  split
  · rfl
  · split <;> rfl

/-- Where a text starts makes a difference only to the lines. -/
theorem split_add (line k : Nat) (cs : List Char) :
    split (line + k) cs = ((split line cs).1.map (raised k), (split line cs).2 + k) := by
  have hSkip : skipBlanks (line + k) cs =
      ((skipBlanks line cs).1 + k, (skipBlanks line cs).2) := by
    simp only [skipBlanks_eq, Nat.add_right_comm]
  fun_induction split line cs with
  | case1 line cs start hStart =>
    rw [hStart] at hSkip
    rw [split_of_blank hSkip]
    rfl
  | case2 line cs start c rest hStart _ tokens last hSplit ih =>
    rw [hStart] at hSkip
    rw [split_of_token hSkip, first_add, ih (by simp only [skipBlanks_eq, Nat.add_right_comm]),
      hSplit]
    rfl

theorem split_blank_append (line : Nat) (ds : List Char)
    (hGap : ∀ c ∈ gap, Text.isBlank c = true) :
    split line (gap ++ ds) = split (line + gap.count '\n') ds := by
  have hSkip : skipBlanks line (gap ++ ds) = skipBlanks (line + gap.count '\n') ds := by
    simp only [skipBlanks_eq, List.takeWhile_append_of_pos hGap, List.dropWhile_append_of_pos hGap,
      List.count_append, Nat.add_assoc]
  match hRest : skipBlanks (line + gap.count '\n') ds with
  | (start, []) => rw [split_of_blank hRest, split_of_blank (hSkip.trans hRest)]
  | (start, c :: rest) => rw [split_of_token hRest, split_of_token (hSkip.trans hRest)]

/-- White space keeps a token apart from whatever comes behind. -/
theorem Stands.append_gap (h : Stands before kind cs after) (hGap : gap ≠ [])
    (hBlank : ∀ c ∈ gap, Text.isBlank c = true) (ds : List Char) :
    Stands before kind cs (after ++ (gap ++ ds)) := by
  cases h with
  | run hRun hBefore hAfter =>
    refine .run hRun hBefore fun x hx => ?_
    cases after with
    | cons y after => exact hAfter x hx
    | nil =>
      obtain ⟨y, gap, rfl⟩ := List.exists_cons_of_ne_nil hGap
      obtain rfl : y = x := by simpa using hx
      intro hWord
      have hNot := hWord.not_blank
      rw [hBlank y List.mem_cons_self] at hNot
      cases hNot
  | symbol hSymbol => exact .symbol hSymbol
  | invalid hSymbol hWord hNot => exact .invalid hSymbol hWord hNot

theorem split_append (hGap : gap ≠ []) (hBlank : ∀ c ∈ gap, Text.isBlank c = true)
    (line : Nat) (cs ds : List Char) :
    split line (cs ++ (gap ++ ds)) =
      ((split line cs).1 ++ (split (line + (cs ++ gap).count '\n') ds).1,
        (split (line + (cs ++ gap).count '\n') ds).2) := by
  fun_induction split line cs with
  | case1 line cs start hSkip =>
    have hFront := (of_skipBlanks_eq_nil hSkip).1
    have hAll := List.forall_mem_append.mpr ⟨hFront, hBlank⟩
    rw [← List.append_assoc, split_blank_append line ds hAll]
    rfl
  | case2 line cs start c rest hSkip _ tokens last hSplit ih =>
    obtain ⟨front, hFront, hNot, rfl, rfl⟩ := of_skipBlanks_eq_cons hSkip
    have hSeam : Seam [] (c :: rest) := seam_nil
    obtain ⟨kind, word, after, rfl, hStands⟩ := exists_stands hNot hSeam
    have hNewlines := hStands.count_newline
    have hApart := hStands.append_gap hGap hBlank ds
    have hCount : line + front.count '\n' + (after ++ gap).count '\n' =
        line + (front ++ c :: (word ++ after) ++ gap).count '\n' := by
      rw [← List.cons_append]
      simp only [List.count_append, hNewlines]
      omega
    rw [hStands.first_eq] at hSplit ih
    rw [hSplit, hCount] at ih
    have hHere : skipBlanks (line + front.count '\n') (c :: (word ++ (after ++ (gap ++ ds)))) =
        (line + front.count '\n', c :: (word ++ (after ++ (gap ++ ds)))) := by
      simp [skipBlanks, hNot]
    rw [List.append_assoc, List.cons_append, List.append_assoc, split_blank_append line _ hFront,
      split_of_token hHere, hApart.first_eq, hStands.first_eq, ih]
    rfl

end Token

theorem Cursor.tokens_append {a b w : String} (hGap : w ≠ "")
    (hBlank : ∀ c ∈ w.toList, Text.isBlank c = true) :
    (ofString (a ++ w ++ b)).tokens = (ofString a).tokens ++
      (ofString b).tokens.map (Token.raised ((a ++ w).toList.count '\n')) := by
  have hGap : w.toList ≠ [] := by simpa using hGap
  have hText : (a ++ w ++ b).toList = a.toList ++ (w.toList ++ b.toList) := by
    simp [List.append_assoc]
  change (Token.split 1 (a ++ w ++ b).toList).1 = (Token.split 1 a.toList).1 ++ _
  rw [hText, Token.split_append hGap hBlank, Token.split_add, String.toList_append]
  rfl

mutual

def Stmt.raised (k : Nat) : Stmt → Stmt
  | assign name value line => assign name value (line + k)
  | block body => block (Stmt.allRaised k body)
  | ifThenElse guard thenBranch elseBranch =>
    ifThenElse guard (thenBranch.raised k) (elseBranch.raised k)
  | whileDo guard body => whileDo guard (body.raised k)
  | done => done
  | act action => act action

def Stmt.allRaised (k : Nat) : List Stmt → List Stmt
  | [] => []
  | first :: rest => first.raised k :: Stmt.allRaised k rest

end

mutual

theorem Stmt.raised_zero (s : Stmt) : s.raised 0 = s := by
  cases s with
  | assign name value line => rw [raised, Nat.add_zero]
  | block body => rw [raised, Stmt.allRaised_zero body]
  | ifThenElse guard thenBranch elseBranch =>
    rw [raised, thenBranch.raised_zero, elseBranch.raised_zero]
  | whileDo guard body => rw [raised, body.raised_zero]
  | done => rw [raised]
  | act action => rw [raised]

theorem Stmt.allRaised_zero (body : List Stmt) : Stmt.allRaised 0 body = body := by
  cases body with
  | nil => rw [allRaised]
  | cons first rest => rw [allRaised, first.raised_zero, Stmt.allRaised_zero rest]

end

mutual

theorem Stmt.unlined_raised (k : Nat) (s : Stmt) : (s.raised k).unlined = s.unlined := by
  cases s with
  | assign name value line => rw [raised, unlined, unlined]
  | block body => rw [raised, unlined, unlined, Stmt.allUnlined_allRaised k body]
  | ifThenElse guard thenBranch elseBranch =>
    rw [raised, unlined, unlined, thenBranch.unlined_raised, elseBranch.unlined_raised]
  | whileDo guard body => rw [raised, unlined, unlined, body.unlined_raised]
  | done => rw [raised]
  | act action => rw [raised]

theorem Stmt.allUnlined_allRaised (k : Nat) (body : List Stmt) :
    Stmt.allUnlined (Stmt.allRaised k body) = Stmt.allUnlined body := by
  cases body with
  | nil => rw [allRaised]
  | cons first rest =>
    rw [allRaised, allUnlined, allUnlined, first.unlined_raised, Stmt.allUnlined_allRaised k rest]

end

mutual

theorem Stmt.operations_raised (k : Nat) (s : Stmt) : (s.raised k).operations = s.operations := by
  cases s with
  | assign name value line => rw [raised, operations, operations]
  | block body => rw [raised, operations, operations, Stmt.operationsAll_allRaised k body]
  | ifThenElse guard thenBranch elseBranch =>
    rw [raised, operations, operations, thenBranch.operations_raised, elseBranch.operations_raised]
  | whileDo guard body => rw [raised, operations, operations, body.operations_raised]
  | done => rw [raised]
  | act action => rw [raised]

theorem Stmt.operationsAll_allRaised (k : Nat) (body : List Stmt) :
    Stmt.operationsAll (Stmt.allRaised k body) = Stmt.operationsAll body := by
  cases body with
  | nil => rw [allRaised]
  | cons first rest =>
    rw [allRaised, operationsAll, operationsAll, first.operations_raised,
      Stmt.operationsAll_allRaised k rest]

end

namespace Grammar

variable {c : Category} {ts us rest : List Token} {e : Expr} {body more : List Stmt} {k m n : Nat}

/-- A phrase stays one further down in a text, and with more tokens behind. -/
theorem Derives.raised_append (h : Derives c ts rest e n) (k : Nat) (us : List Token) :
    Derives c (ts.map (Token.raised k) ++ us) (rest.map (Token.raised k) ++ us) e n := by
  induction h with
  | chain _ _ hFirst hMore => exact .chain hFirst hMore
  | noMore => exact .noMore
  | more hOp ht _ _ hFirst hMore => exact .more hOp ht hFirst hMore
  | bare _ h => exact .bare h
  | power _ ht _ hBase hExponent => exact .power hBase ht hExponent
  | number hKind hText => exact .number (t := Token.raised k _) hKind hText
  | identifier hName => exact .identifier (t := Token.raised k _) hName
  | parentheses _ h => exact .parentheses h
  | opponent ht => exact .opponent ht
  | nearby ht hu => exact .nearby ht hu
  | enclosed ht _ hu h => exact .enclosed ht h hu

mutual

theorem DerivesStmt.raised_append : ∀ {ts rest : List Token} {s : Stmt} {n : Nat},
    DerivesStmt ts rest s n → ∀ (k : Nat) (us : List Token),
      DerivesStmt (ts.map (Token.raised k) ++ us) (rest.map (Token.raised k) ++ us) (s.raised k)
        n := by
  intro ts rest s n h k us
  cases h with
  | assign ht hu hValue =>
    rw [Stmt.raised]
    exact .assign (t := Token.raised k _) ht hu (hValue.raised_append k us)
  | done ht =>
    rw [Stmt.raised]
    exact .done ht
  | relocate ht =>
    rw [Stmt.raised]
    exact .relocate ht
  | move ht hu =>
    rw [Stmt.raised]
    exact .move ht hu
  | invest ht hAmount =>
    rw [Stmt.raised]
    exact .invest ht (hAmount.raised_append k us)
  | collect ht hAmount =>
    rw [Stmt.raised]
    exact .collect ht (hAmount.raised_append k us)
  | shoot ht hu hAmount =>
    rw [Stmt.raised]
    exact .shoot ht hu (hAmount.raised_append k us)
  | ifThenElse ht hGuard hu hThen hv hElse =>
    rw [Stmt.raised]
    exact .ifThenElse ht (hGuard.raised_append k us) hu (DerivesStmt.raised_append hThen k us) hv
      (DerivesStmt.raised_append hElse k us)
  | whileDo ht hGuard hBody =>
    rw [Stmt.raised]
    exact .whileDo ht (hGuard.raised_append k us) (DerivesStmt.raised_append hBody k us)
  | block ht hBody hu =>
    rw [Stmt.raised]
    exact .block ht (DerivesStmts.raised_append hBody k us) hu

theorem DerivesStmts.raised_append : ∀ {ts rest : List Token} {body : List Stmt} {n : Nat},
    DerivesStmts ts rest body n → ∀ (k : Nat) (us : List Token),
      DerivesStmts (ts.map (Token.raised k) ++ us) (rest.map (Token.raised k) ++ us)
        (Stmt.allRaised k body) n := by
  intro ts rest body n h k us
  cases h with
  | nil =>
    rw [Stmt.allRaised]
    exact .nil
  | cons hFirst hMore =>
    rw [Stmt.allRaised]
    exact .cons (DerivesStmt.raised_append hFirst k us) (DerivesStmts.raised_append hMore k us)

end

theorem DerivesStmts.trans (h : DerivesStmts ts us body m) (h' : DerivesStmts us rest more n) :
    DerivesStmts ts rest (body ++ more) (max m n) := by
  induction body generalizing ts m with
  | nil =>
    cases h
    rwa [List.nil_append, Nat.zero_max]
  | cons first body ih =>
    cases h with
    | cons hFirst hMore =>
      rw [Nat.max_assoc]
      exact .cons hFirst (ih hMore)

/-- Two plans in a row make a plan. -/
theorem DerivesPlan.append {p q : Plan} (hp : DerivesPlan ts p m) (hq : DerivesPlan us q n)
    (k : Nat) : DerivesPlan (ts ++ us.map (Token.raised k))
      ⟨p.statements ++ Stmt.allRaised k q.statements⟩ (max m n) := by
  have hFront := hp.2.raised_append 0 (us.map (Token.raised k))
  have hBack := hq.2.raised_append k []
  rw [Token.map_raised_zero, Stmt.allRaised_zero] at hFront
  rw [List.append_nil] at hBack
  exact ⟨List.append_ne_nil_of_left_ne_nil hp.1 _, hFront.trans hBack⟩

end Grammar

theorem Stmt.operationsAll_append (body more : List Stmt) :
    Stmt.operationsAll (body ++ more) = Stmt.operationsAll body ++ Stmt.operationsAll more := by
  induction body with
  | nil => rw [operationsAll, List.nil_append, List.nil_append]
  | cons first body ih => rw [List.cons_append, operationsAll, operationsAll, ih, List.append_assoc]

section Run

variable {σ : Type} [Host σ]

theorem Stmt.runAll_append (body more : List Stmt) :
    (Stmt.runAll (body ++ more) : StateM σ Flow) = do
      match ← Stmt.runAll body with
      | .proceed => Stmt.runAll more
      | .halt => return .halt := by
  induction body with
  | nil =>
    rw [List.nil_append, runAll, pure_bind]
  | cons first body ih =>
    rw [List.cons_append, runAll, runAll, ih, bind_assoc]
    refine bind_congr fun flow => ?_
    cases flow with
    | proceed => rfl
    | halt => rw [pure_bind]

end Run

namespace Plan

/-- Plans can be put one behind the other with white space between them, and the second one is read
as if it stood alone, further down. They run one after the other as well, unless the first one
halts. -/
theorem plans_concatenate {a b w : String} {p q : Plan} (ha : parse a = .ok p)
    (hb : parse b = .ok q) (hGap : w ≠ "") (hBlank : ∀ c ∈ w.toList, Text.isBlank c = true) :
    ∃ r, parse (a ++ w ++ b) = .ok r ∧
      r.statements = p.statements ++
        Stmt.allRaised ((a ++ w).toList.count '\n') q.statements ∧
      ∀ (σ : Type) [Host σ], (r.run : StateM σ Flow) = do
        match ← p.run with
        | .proceed => q.run
        | .halt => return .halt := by
  generalize hRaise : (a ++ w).toList.count '\n' = k
  obtain ⟨c₁, hYieldsA⟩ := parse_eq_ok_iff_yields.mp ha
  obtain ⟨c₂, hYieldsB⟩ := parse_eq_ok_iff_yields.mp hb
  obtain ⟨hLowA, m, hDepthA, hDerivesA⟩ := Parser.sound_plan hYieldsA
  obtain ⟨hLowB, n, hDepthB, hDerivesB⟩ := Parser.sound_plan hYieldsB
  have hDerives := hDerivesA.append hDerivesB k
  rw [← hRaise, ← Cursor.tokens_append hGap hBlank, hRaise] at hDerives
  have hLow : ∀ x ∈ Stmt.operationsAll (p.statements ++ Stmt.allRaised k q.statements),
      x.height ≤ maxNesting := by
    rw [Stmt.operationsAll_append, Stmt.operationsAll_allRaised]
    exact List.forall_mem_append.mpr ⟨hLowA, hLowB⟩
  have hYields : ∃ c, Parser.plan.Yields (Cursor.ofString (a ++ w ++ b))
      ⟨p.statements ++ Stmt.allRaised k q.statements⟩ c :=
    ⟨_, Parser.complete_plan hDerives (by omega) hLow (Token.lexed_of_mem_split 1 _)⟩
  refine ⟨_, parse_eq_ok_iff_yields.mpr hYields, rfl, ?_⟩
  intro σ _
  have hSame : (Stmt.runAll (Stmt.allRaised k q.statements) : StateM σ Flow) = q.run := by
    rw [← Stmt.runAll_allUnlined, Stmt.allUnlined_allRaised, Stmt.runAll_allUnlined]
    rfl
  rw [run, Stmt.runAll_append, hSame]
  rfl

theorem assignments_concatenated : ∃ r, parse "x = 1\n\ty = x" = .ok r ∧
    r.statements = [.assign "x" (.number 1) 1, .assign "y" (.identifier "x") 2] ∧
    ∀ (σ : Type) [Host σ], (r.run : StateM σ Flow) = do
      match ← Plan.run ⟨[.assign "x" (.number 1) 1]⟩ with
      | .proceed => Plan.run ⟨[.assign "y" (.identifier "x") 1]⟩
      | .halt => return .halt := by
  obtain ⟨r, hr, hStatements, hRun⟩ := plans_concatenate (a := "x = 1") (b := "y = x")
    (w := "\n\t") (p := ⟨[.assign "x" (.number 1) 1]⟩)
    (q := ⟨[.assign "y" (.identifier "x") 1]⟩) (by with_unfolding_all rfl)
    (by with_unfolding_all rfl) (by simp)
    (by simp [Text.isBlank, Text.blankRanges])
  have hNewlines : ("x = 1" ++ "\n\t").toList.count '\n' = 1 := by decide
  rw [hNewlines] at hStatements
  exact ⟨r, hr, by simpa [Stmt.allRaised, Stmt.raised] using hStatements, fun σ _ => hRun σ⟩

end Plan

end CityCrew
