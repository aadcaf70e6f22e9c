import CityCrew.Proofs.Grammar

/-!
# Phrases of the grammar

How the tokens of a phrase begin, what they consist of, and how one sees that a phrase is over. The
kind of a token follows from its text, so the first token of a statement or of a primary tells which
rule derives it.
-/

namespace CityCrew

namespace Token

variable {t : Token} {text text' : String}

/-- The kind that a text has as a token: the first character decides. -/
def kindOf (text : String) : Kind :=
  match text.toList with
  | [] => .invalid
  | c :: _ =>
    if c ∈ symbols then .symbol
    else if isWordChar c then if c.isDigit then .number else .word
    else .invalid

def Lexed (t : Token) : Prop :=
  t.kind = kindOf t.text

theorem Lexed.kind_of_is (h : t.Lexed) (ht : t.Is text) : t.kind = kindOf text :=
  h.trans (congrArg kindOf ht)

theorem Lexed.not_is (h : t.Lexed) (hKind : kindOf text ≠ t.kind) : ¬ t.Is text :=
  fun ht => hKind (h.kind_of_is ht).symm

theorem Is.not_is (h : t.Is text) (hText : text ≠ text') : ¬ t.Is text' :=
  fun ht => hText (h.symm.trans ht)

theorem kindOf_keyword (d : Direction) : kindOf d.keyword ≠ .invalid := by
  cases d <;> decide

theorem kindOf_symbol (op : Operator) : kindOf op.symbol = .symbol := by
  cases op <;> decide

theorem Lexed.valid_of_is_keyword {d : Direction} (h : t.Lexed) (ht : t.Is d.keyword) :
    t.kind ≠ .invalid := by
  rw [h.kind_of_is ht]
  exact kindOf_keyword d

theorem lexed_first (line : Nat) (c : Char) (cs : List Char) : (first line c cs).1.Lexed := by
  unfold first
  split
  next h => simp [Lexed, kindOf, h]
  split
  next h hWord => simp [Lexed, kindOf, h, hWord]
  next h hWord => simp [Lexed, kindOf, h, hWord]

theorem lexed_of_mem_split (line : Nat) (cs : List Char) : ∀ t ∈ (split line cs).1, t.Lexed := by
  fun_induction split line cs with
  | case1 => simp
  | case2 line cs start c rest _ _ tokens last hSplit ih =>
    rw [hSplit] at ih
    exact List.forall_mem_cons.mpr ⟨lexed_first start c rest, ih⟩

end Token

theorem Direction.keyword_injective : Function.Injective Direction.keyword := by
  intro d d' h
  simpa [ofKeyword?_keyword] using congrArg ofKeyword? h

theorem Operator.symbol_injective : Function.Injective Operator.symbol := by
  intro op op' h
  simpa [ofSymbol?_symbol] using congrArg ofSymbol? h

namespace Grammar

variable {c : Category} {t : Token} {ts us rest rest' : List Token} {e lhs : Expr} {s s' : Stmt}
  {body : List Stmt} {rank : Rank} {n n' : Nat} {text : String}

theorem Identifier.not_is (h : Identifier t) (hText : text ∈ reservedWords) : ¬ t.Is text :=
  fun ht => h.2 (by rwa [show t.text = text from ht])

/-- `rest` is what is left of `ts` behind some tokens, none of them invalid. -/
inductive Consumes : List Token → List Token → Prop where
  | refl (ts : List Token) : Consumes ts ts
  | cons {t : Token} {ts rest : List Token} :
      (t.Lexed → t.kind ≠ .invalid) → Consumes ts rest → Consumes (t :: ts) rest

namespace Consumes

theorem trans (h : Consumes ts us) (h' : Consumes us rest) : Consumes ts rest := by
  induction h with
  | refl => exact h'
  | cons ht _ ih => exact .cons ht (ih h')

theorem lexed (h : Consumes ts rest) (hLexed : ∀ t ∈ ts, t.Lexed) : ∀ t ∈ rest, t.Lexed := by
  induction h with
  | refl => exact hLexed
  | cons _ _ ih => exact ih (List.forall_mem_cons.mp hLexed).2

theorem valid (h : Consumes ts rest) (hLexed : ∀ t ∈ ts, t.Lexed)
    (hRest : ∀ t ∈ rest, t.kind ≠ .invalid) : ∀ t ∈ ts, t.kind ≠ .invalid := by
  induction h with
  | refl => exact hRest
  | cons ht _ ih =>
    rw [List.forall_mem_cons] at hLexed ⊢
    exact ⟨ht hLexed.1, ih hLexed.2 hRest⟩

theorem length_le (h : Consumes ts rest) : rest.length ≤ ts.length := by
  induction h with
  | refl => exact Nat.le_refl _
  | cons _ _ ih => exact Nat.le_succ_of_le ih

theorem identifier (h : Consumes ts rest) (ht : Identifier t) : Consumes (t :: ts) rest :=
  .cons (fun _ => by simp [ht.1]) h

theorem fixed (h : Consumes ts rest) (ht : t.Is text) (hText : Token.kindOf text ≠ .invalid) :
    Consumes (t :: ts) rest :=
  .cons (fun hLexed => by rwa [hLexed.kind_of_is ht]) h

theorem keyword {d : Direction} (h : Consumes ts rest) (ht : t.Is d.keyword) :
    Consumes (t :: ts) rest :=
  h.fixed ht (Token.kindOf_keyword d)

theorem symbol {op : Operator} (h : Consumes ts rest) (ht : t.Is op.symbol) :
    Consumes (t :: ts) rest :=
  h.fixed ht (by simp [Token.kindOf_symbol])

end Consumes

theorem Derives.consumes (h : Derives c ts rest e n) : Consumes ts rest := by
  induction h with
  | chain _ _ hFirst hMore => exact hFirst.trans hMore
  | noMore => exact .refl _
  | more _ ht _ _ hFirst hMore => exact (hFirst.trans hMore).symbol ht
  | bare _ ih => exact ih
  | power _ ht _ hBase hExponent => exact hBase.trans (hExponent.fixed ht (by decide))
  | number ht _ => exact .cons (fun _ => by simp [ht]) (.refl _)
  | identifier ht => exact (Consumes.refl _).identifier ht
  | parentheses _ ih => exact ih
  | opponent ht => exact (Consumes.refl _).fixed ht (by decide)
  | nearby ht hu => exact ((Consumes.refl _).keyword hu).fixed ht (by decide)
  | enclosed ht _ hu ih =>
    exact (ih.trans ((Consumes.refl _).fixed hu (by decide))).fixed ht (by decide)

/-- The words, and the brace, that a statement can start with if it is no assignment. -/
def openings : List String :=
  ["done", "relocate", "move", "invest", "collect", "shoot", "if", "while", "\x7b"]

/-- The tokens start as a statement does and leave `rest` behind. -/
def Begins (ts rest : List Token) : Prop :=
  ∃ t us, ts = t :: us ∧ (Identifier t ∨ t.text ∈ openings) ∧ Consumes us rest

namespace Begins

theorem assignment (ht : Identifier t) (h : Consumes ts rest) : Begins (t :: ts) rest :=
  ⟨t, ts, rfl, .inl ht, h⟩

theorem opening (ht : t.Is text) (hText : text ∈ openings) (h : Consumes ts rest) :
    Begins (t :: ts) rest :=
  ⟨t, ts, rfl, .inr (by rwa [show t.text = text from ht]), h⟩

theorem head_valid (h : Begins (t :: ts) rest) (hLexed : t.Lexed) : t.kind ≠ .invalid := by
  have hOpenings : ∀ text ∈ openings, Token.kindOf text ≠ .invalid := by decide
  obtain ⟨_, _, hTokens, hStart, -⟩ := h
  obtain ⟨rfl, -⟩ := List.cons.inj hTokens
  obtain hName | hText := hStart
  · simp [hName.1]
  · rw [hLexed]
    exact hOpenings _ hText

theorem consumes (h : Begins ts rest) : Consumes ts rest := by
  have ⟨t, us, hTokens, _, hConsumes⟩ := h
  subst hTokens
  exact .cons h.head_valid hConsumes

end Begins

-- The lists change from a statement to the statements in it, so they are bound behind the colon.
mutual

theorem DerivesStmt.begins : ∀ {ts rest : List Token} {s : Stmt} {n : Nat},
    DerivesStmt ts rest s n → Begins ts rest := by
  intro ts rest s n h
  cases h with
  | assign ht hu hValue => exact .assignment ht (hValue.consumes.fixed hu (by decide))
  | done ht => exact .opening ht (by decide) (.refl _)
  | relocate ht => exact .opening ht (by decide) (.refl _)
  | move ht hu => exact .opening ht (by decide) ((Consumes.refl _).keyword hu)
  | invest ht hAmount => exact .opening ht (by decide) hAmount.consumes
  | collect ht hAmount => exact .opening ht (by decide) hAmount.consumes
  | shoot ht hu hAmount => exact .opening ht (by decide) (hAmount.consumes.keyword hu)
  | ifThenElse ht hGuard hu hThen hv hElse =>
    have hElse := (DerivesStmt.begins hElse).consumes.fixed hv (by decide)
    have hThen := ((DerivesStmt.begins hThen).consumes.trans hElse).fixed hu (by decide)
    exact .opening ht (by decide) (hGuard.consumes.trans hThen)
  | whileDo ht hGuard hBody =>
    exact .opening ht (by decide) (hGuard.consumes.trans (DerivesStmt.begins hBody).consumes)
  | block ht hBody hu =>
    have hClosing := (Consumes.refl rest).fixed hu (by decide)
    exact .opening ht (by decide) ((DerivesStmts.consumes hBody).trans hClosing)

theorem DerivesStmts.consumes : ∀ {ts rest : List Token} {body : List Stmt} {n : Nat},
    DerivesStmts ts rest body n → Consumes ts rest := by
  intro ts rest body n h
  cases h with
  | nil => exact .refl _
  | cons hFirst hMore =>
    exact (DerivesStmt.begins hFirst).consumes.trans (DerivesStmts.consumes hMore)

end

theorem DerivesStmt.length_lt (h : DerivesStmt ts rest s n) : rest.length < ts.length := by
  obtain ⟨t, us, rfl, -, h⟩ := h.begins
  exact Nat.lt_succ_of_le h.length_le

theorem DerivesStmts.length_add_le (h : DerivesStmts ts rest body n) :
    body.length + rest.length ≤ ts.length := by
  induction body generalizing ts n with
  | nil =>
    cases h
    simp
  | cons first more ih =>
    cases h with
    | cons hFirst hMore =>
      have hFirst := hFirst.length_lt
      have hMore := ih hMore
      simp only [List.length_cons]
      omega

/-- More operators make a chain higher. -/
theorem Derives.height_le (h : Derives (.more rank lhs) ts rest e n) : lhs.height ≤ e.height := by
  generalize hc : Category.more rank lhs = c at h
  induction h generalizing lhs with
  | noMore =>
    cases hc
    exact Nat.le_refl _
  | more _ _ _ _ _ ih =>
    cases hc
    have hHeight := ih rfl
    simp only [Expr.height] at hHeight
    omega
  | _ => cases hc

theorem Derives.exists_cons (h : Derives .primary ts rest e n) : ∃ t us, ts = t :: us := by
  cases h with
  | parentheses h =>
    cases h
    exact ⟨_, _, rfl⟩
  | _ => exact ⟨_, _, rfl⟩

/-- The first token tells which primary stands here. -/
theorem Derives.primary_inv (h : Derives .primary (t :: ts) rest e n) (ht : t.Lexed) :
    if t.Is "opponent" then rest = ts ∧ e = .opponent ∧ n = 0
    else if t.Is "nearby" then
      ∃ u d, ts = u :: rest ∧ u.Is (Direction.keyword d) ∧ e = .nearby d ∧ n = 0
    else if t.Is "(" then
      ∃ u m, Derives .sum ts (u :: rest) e m ∧ u.Is ")" ∧ n = m + 1
    else if t.kind = .number then ∃ k, rest = ts ∧ Numeral t.text k ∧ e = .number k ∧ n = 0
    else Identifier t ∧ rest = ts ∧ e = .identifier t.text ∧ n = 0 := by
  have hKinds : Token.kindOf "opponent" = .word ∧ Token.kindOf "nearby" = .word ∧
    Token.kindOf "(" = .symbol := by decide
  have hReserved : "opponent" ∈ reservedWords ∧ "nearby" ∈ reservedWords := by decide
  cases h with
  | number hNumber hText => grind [Token.Lexed, Token.Is]
  | identifier hName => grind [Token.Lexed, Token.Is, Identifier]
  | parentheses h =>
    cases h with
    | enclosed hOpen h hClose => grind [Token.Is]
  | opponent hWord => grind
  | nearby hWord hKeyword => grind [Token.Is]

/-- The token that a statement starts with, if it is no assignment. -/
def opening? : Stmt → Option String
  | .assign _ _ _ => none
  | .block _ => some "\x7b"
  | .ifThenElse _ _ _ => some "if"
  | .whileDo _ _ => some "while"
  | .done => some "done"
  | .act (.move _) => some "move"
  | .act (.invest _) => some "invest"
  | .act (.collect _) => some "collect"
  | .act .relocate => some "relocate"
  | .act (.shoot _ _) => some "shoot"

theorem Identifier.not_mem_openings (h : Identifier t) (ht : t.Lexed) : t.text ∉ openings := by
  intro hText
  have hOpenings : ∀ text ∈ openings, text ∈ reservedWords ∨ Token.kindOf text ≠ .word := by decide
  obtain hReserved | hKind := hOpenings _ hText
  · exact h.2 hReserved
  · exact hKind (ht.symm.trans h.1)

theorem DerivesStmt.opening?_eq (h : DerivesStmt (t :: ts) rest s n) (ht : t.Lexed) :
    opening? s = if t.text ∈ openings then some t.text else none := by
  cases h with
  | assign hName => rw [if_neg (hName.not_mem_openings ht), opening?]
  | done hWord | relocate hWord | move hWord | invest hWord | collect hWord | shoot hWord
    | ifThenElse hWord | whileDo hWord | block hWord =>
    rw [show t.text = _ from hWord]
    rfl

theorem DerivesStmt.same_opening (h : DerivesStmt ts rest s n) (hLexed : ∀ t ∈ ts, t.Lexed)
    (h' : DerivesStmt ts rest' s' n') : opening? s = opening? s' := by
  obtain ⟨t, us, rfl, -, -⟩ := h.begins
  have ht := hLexed t List.mem_cons_self
  rw [h.opening?_eq ht, h'.opening?_eq ht]

/-- The operators that can follow a part of a chain: its own, and those that bind tighter. -/
def Rank.glue : Rank → List Operator
  | additive => [.pow, .mul, .div, .rem, .add, .sub]
  | multiplicative => [.pow, .mul, .div, .rem]

def Category.glue : Category → List Operator
  | chain rank => rank.glue
  | more rank _ => rank.glue
  | factor => [.pow]
  | primary => []
  | enclosed => []

/-- The tokens `rest` do not go on with a phrase that stands before them. -/
def Stops (c : Category) (rest : List Token) : Prop :=
  ∀ t ∈ rest.head?, ∀ op ∈ c.glue, ¬ t.Is op.symbol

def Closes (rest : List Token) : Prop :=
  ∀ t ∈ rest.head?, t.Is "\x7d"

theorem Rank.operators_subset_glue (rank : Rank) : rank.operators ⊆ rank.glue := by
  cases rank <;> decide

theorem Rank.glue_operand_subset (rank : Rank) : rank.operand.glue ⊆ rank.glue := by
  cases rank <;> decide

theorem Rank.not_mem_glue_operand (rank : Rank) :
    ∀ op ∈ rank.operators, op ∉ rank.operand.glue := by
  cases rank <;> decide

theorem stops_cons : Stops c (t :: rest) ↔ ∀ op ∈ c.glue, ¬ t.Is op.symbol := by
  simp [Stops]

theorem stops_primary : Stops .primary rest := by
  simp [Stops, Category.glue]

theorem stops_enclosed : Stops .enclosed rest := by
  simp [Stops, Category.glue]

theorem stops_of_is (ht : t.Is text) (hText : ∀ op ∈ Operator.all, text ≠ op.symbol) :
    Stops c (t :: rest) := by
  rw [stops_cons]
  intro op _ hOp
  exact hText op (by cases op <;> decide) (ht.symm.trans hOp)

theorem closes_of_is (ht : t.Is "\x7d") : Closes (t :: rest) := by
  simpa [Closes] using ht

theorem Closes.stops (h : Closes rest) : Stops c rest := by
  cases rest with
  | nil => simp [Stops]
  | cons t rest => exact stops_of_is (h t rfl) (by decide)

/-- An operand ends where its chain goes on or ends. -/
theorem Derives.stops_operand (h : Derives (.more rank lhs) ts rest e n)
    (hRest : Stops (.chain rank) rest) : Stops rank.operand ts := by
  cases h with
  | noMore => exact fun t ht op hOp => hRest t ht op (rank.glue_operand_subset hOp)
  | more hOp ht _ _ =>
    rw [stops_cons]
    intro op hGlue ht'
    obtain rfl := Operator.symbol_injective (ht.symm.trans ht')
    exact rank.not_mem_glue_operand _ hOp hGlue

/-- Expressions end where a statement begins, as no statement begins with an operator. -/
theorem Begins.stops (h : Begins ts rest) (hLexed : ∀ t ∈ ts, t.Lexed) : Stops c ts := by
  obtain ⟨t, us, rfl, ht | ht, h⟩ := h
  · rw [stops_cons]
    intro op _ hOp
    have hKind := (hLexed t List.mem_cons_self).kind_of_is hOp
    simp [ht.1, Token.kindOf_symbol] at hKind
  · have hOpenings : ∀ text ∈ openings, ∀ op ∈ Operator.all, text ≠ op.symbol := by decide
    exact stops_of_is rfl (hOpenings _ ht)

theorem Begins.not_closes (h : Begins ts rest) (hLexed : ∀ t ∈ ts, t.Lexed) : ¬ Closes ts := by
  obtain ⟨t, us, rfl, ht, h⟩ := h
  intro hCloses
  have hText : t.Is "\x7d" := hCloses t rfl
  obtain ht | ht := ht
  · have hKind := (hLexed t List.mem_cons_self).kind_of_is hText
    rw [ht.1] at hKind
    exact absurd hKind (by decide)
  · rw [show t.text = "\x7d" from hText] at ht
    exact absurd ht (by decide)

theorem DerivesStmts.stops (h : DerivesStmts ts rest body n) (hLexed : ∀ t ∈ ts, t.Lexed)
    (hRest : Closes rest) : Stops c ts := by
  cases h with
  | nil => exact hRest.stops
  | cons hFirst _ => exact hFirst.begins.stops hLexed

end Grammar

end CityCrew
