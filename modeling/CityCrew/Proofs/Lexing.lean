import Mathlib.Data.List.TakeWhile
import CityCrew.Plan.TokenStream

/-!
# What tokens a text has

A text is made of its tokens and of the white space between them. No character is lost or invented
when it is split, and there is only one way to split it. Whether the tokens are taken from a stream
one by one or all at once makes no difference.
-/

namespace CityCrew

namespace Token

variable {before after gap rest cs ds : List Char} {c : Char} {kind : Kind} {line n : Nat}
  {t : Token}

def WordChar (c : Char) : Prop :=
  ('a' ≤ c ∧ c ≤ 'z') ∨ ('A' ≤ c ∧ c ≤ 'Z') ∨ ('0' ≤ c ∧ c ≤ '9') ∨ c = '_'

theorem isDigit_eq_true_iff : c.isDigit = true ↔ '0' ≤ c ∧ c ≤ '9' := by
  simp [Char.isDigit, Char.le_def]

theorem isWordChar_eq_true_iff : isWordChar c = true ↔ WordChar c := by
  have hUpper : c.isUpper = true ↔ 'A' ≤ c ∧ c ≤ 'Z' := decide_eq_true_iff
  have hLower : c.isLower = true ↔ 'a' ≤ c ∧ c ≤ 'z' :=
    Bool.and_eq_true_iff.trans (and_congr decide_eq_true_iff decide_eq_true_iff)
  change (((c.isUpper || c.isLower) || c.isDigit) || c == '_') = true ↔ _
  simp only [Bool.or_eq_true, beq_iff_eq, hUpper, hLower, isDigit_eq_true_iff, WordChar]
  constructor
  · rintro (((h | h) | h) | h)
    · exact .inr (.inl h)
    · exact .inl h
    · exact .inr (.inr (.inl h))
    · exact .inr (.inr (.inr h))
  · rintro (h | h | h | h)
    · exact .inl (.inl (.inr h))
    · exact .inl (.inl (.inl h))
    · exact .inl (.inr h)
    · exact .inr h

/-- Word characters, symbols and white space have nothing in common. -/
theorem WordChar.not_blank (h : WordChar c) : Text.isBlank c = false := by
  simp only [WordChar, Char.le_def, UInt32.le_iff_toNat_le] at h
  change (97 ≤ c.toNat ∧ c.toNat ≤ 122) ∨ (65 ≤ c.toNat ∧ c.toNat ≤ 90) ∨
    (48 ≤ c.toNat ∧ c.toNat ≤ 57) ∨ c = '_' at h
  rcases h with h | h | h | rfl
  · simp [Text.isBlank, Text.blankRanges]
    omega
  · simp [Text.isBlank, Text.blankRanges]
    omega
  · simp [Text.isBlank, Text.blankRanges]
    omega
  · decide

theorem not_wordChar_of_mem_symbols : ∀ c ∈ symbols, isWordChar c = false := by
  simp [symbols, isWordChar]

theorem not_blank_of_mem_symbols : ∀ c ∈ symbols, Text.isBlank c = false := by
  simp [symbols, Text.isBlank, Text.blankRanges]

/-- A run of characters ends where the first one stands that does not belong to it. -/
theorem span_append {p : Char → Bool} {run : List Char} (hRun : ∀ x ∈ run, p x = true)
    (hRest : ∀ x ∈ rest.head?, p x = false) :
    (run ++ rest).takeWhile p = run ∧ (run ++ rest).dropWhile p = rest := by
  rw [List.takeWhile_append_of_pos hRun, List.dropWhile_append_of_pos hRun]
  cases rest with
  | nil => simp
  | cons x rest =>
    have hStop : ¬ p x = true := by simp [hRest x rfl]
    rw [List.takeWhile_cons_of_neg hStop, List.dropWhile_cons_of_neg hStop, List.append_nil]
    exact ⟨rfl, rfl⟩

theorem of_mem_head?_dropWhile {p : Char → Bool} : ∀ x ∈ (cs.dropWhile p).head?, p x = false := by
  intro x hx
  have hStop := List.head?_dropWhile_not p cs
  rwa [hx] at hStop

theorem skipBlanks_eq (line : Nat) (cs : List Char) : skipBlanks line cs =
    (line + (cs.takeWhile Text.isBlank).count '\n', cs.dropWhile Text.isBlank) := by
  fun_induction skipBlanks line cs with
  | case1 => simp
  | case2 line c cs hBlank ih =>
    rw [ih, List.takeWhile_cons_of_pos hBlank, List.dropWhile_cons_of_pos hBlank, List.count_cons]
    by_cases hLine : c = '\n'
    · simp [hLine]
      omega
    · simp [hLine]
  | case3 line c cs hBlank => simp [hBlank]

theorem of_skipBlanks_eq_nil {start : Nat} (h : skipBlanks line cs = (start, [])) :
    (∀ x ∈ cs, Text.isBlank x = true) ∧ line + cs.count '\n' = start := by
  rw [skipBlanks_eq] at h
  obtain ⟨hStart, hDrop⟩ := Prod.mk.inj h
  have hBlank : ∀ x ∈ cs, Text.isBlank x = true := List.dropWhile_eq_nil_iff.mp hDrop
  rw [List.takeWhile_eq_self_iff.mpr hBlank] at hStart
  exact ⟨hBlank, hStart⟩

theorem of_skipBlanks_eq_cons {start : Nat} (h : skipBlanks line cs = (start, c :: rest)) :
    ∃ gap, (∀ x ∈ gap, Text.isBlank x = true) ∧ Text.isBlank c = false ∧
      gap ++ c :: rest = cs ∧ line + gap.count '\n' = start := by
  rw [skipBlanks_eq] at h
  obtain ⟨hStart, hDrop⟩ := Prod.mk.inj h
  refine ⟨cs.takeWhile Text.isBlank, fun x hx => List.mem_takeWhile_imp hx, ?_, ?_, hStart⟩
  · exact of_mem_head?_dropWhile c (by rw [hDrop]; rfl)
  · rw [← hDrop, List.takeWhile_append_dropWhile]

theorem split_of_blank {start : Nat} (h : skipBlanks line cs = (start, [])) :
    split line cs = ([], start) := by
  rw [split]
  split <;> simp_all

theorem split_of_token {start : Nat} (h : skipBlanks line cs = (start, c :: rest)) :
    split line cs = ((first start c rest).1 :: (split start (first start c rest).2).1,
      (split start (first start c rest).2).2) := by
  rw [split]
  split <;> simp_all

@[simp] theorem split_nil : split line [] = ([], line) :=
  split_of_blank rfl

/-- Between `before` and `after`, the characters make a token of the given kind. -/
inductive Stands : List Char → Kind → List Char → List Char → Prop where
  | run {before after cs : List Char} {c : Char} : (∀ x ∈ c :: cs, WordChar x) →
      (∀ x ∈ before.getLast?, ¬ WordChar x) → (∀ x ∈ after.head?, ¬ WordChar x) →
      Stands before (if '0' ≤ c ∧ c ≤ '9' then .number else .word) (c :: cs) after
  | symbol {before after : List Char} {c : Char} : c ∈ symbols →
      Stands before .symbol [c] after
  | invalid {before after : List Char} {c : Char} : c ∉ symbols → ¬ WordChar c →
      Text.isBlank c = false → Stands before .invalid [c] after

theorem Stands.not_blank (h : Stands before kind cs after) : ∀ c ∈ cs, Text.isBlank c = false := by
  cases h with
  | run hRun _ _ => exact fun c hc => (hRun c hc).not_blank
  | symbol hSymbol => simpa using not_blank_of_mem_symbols _ hSymbol
  | invalid _ _ hBlank => simpa using hBlank

theorem Stands.count_newline (h : Stands before kind cs after) : cs.count '\n' = 0 := by
  rw [List.count_eq_zero]
  intro hMem
  have hNot := h.not_blank _ hMem
  exact absurd hNot (by decide)

theorem Stands.exists_cons (h : Stands before kind cs after) : ∃ c ds, cs = c :: ds := by
  cases h <;> exact ⟨_, _, rfl⟩

/-- Characters that make a token are split off as this token. -/
theorem Stands.first_eq (h : Stands before kind (c :: cs) after) (line : Nat) :
    first line c (cs ++ after) = (⟨kind, String.ofList (c :: cs), line⟩, after) := by
  unfold first
  cases h with
  | run hRun _ hAfter =>
    rw [List.forall_mem_cons] at hRun
    have hWord : isWordChar c = true := isWordChar_eq_true_iff.mpr hRun.1
    have hSymbol : c ∉ symbols := fun hc => by simp [not_wordChar_of_mem_symbols c hc] at hWord
    obtain ⟨hTake, hDrop⟩ : (cs ++ after).takeWhile isWordChar = cs ∧
        (cs ++ after).dropWhile isWordChar = after := by
      apply span_append
      · exact fun x hx => isWordChar_eq_true_iff.mpr (hRun.2 x hx)
      · exact fun x hx => Bool.eq_false_iff.mpr (isWordChar_eq_true_iff.not.mpr (hAfter x hx))
    rw [if_neg hSymbol, if_pos hWord, hTake, hDrop]
    simp only [isDigit_eq_true_iff]
  | symbol hSymbol =>
    rw [if_pos hSymbol, String.singleton_eq_ofList]
    rfl
  | invalid hSymbol hWord _ =>
    rw [if_neg hSymbol, if_neg (isWordChar_eq_true_iff.not.mpr hWord), String.singleton_eq_ofList]
    rfl

/-- No run of word characters goes on from the first text to the second. -/
def Seam (before after : List Char) : Prop :=
  ∀ x ∈ before.getLast?, WordChar x → ∀ y ∈ after.head?, ¬ WordChar y

theorem seam_nil : Seam [] after := by
  simp [Seam]

theorem Seam.append_gap (h : Seam before (gap ++ after))
    (hGap : ∀ x ∈ gap, Text.isBlank x = true) : Seam (before ++ gap) after := by
  rcases gap.eq_nil_or_concat with rfl | ⟨gap, y, rfl⟩
  · simpa using h
  · intro x hx hWord
    obtain rfl : y = x := by simpa using hx
    have hBlank := hGap y (by simp)
    rw [hWord.not_blank] at hBlank
    cases hBlank

/-- A token starts with every character that is not blank, unless a run before it goes on. -/
theorem exists_stands (hBlank : Text.isBlank c = false) (hSeam : Seam before (c :: cs)) :
    ∃ kind ds after, cs = ds ++ after ∧ Stands before kind (c :: ds) after := by
  by_cases hSymbol : c ∈ symbols
  · exact ⟨_, [], cs, rfl, .symbol hSymbol⟩
  by_cases hWord : WordChar c
  · refine ⟨_, cs.takeWhile isWordChar, cs.dropWhile isWordChar,
      List.takeWhile_append_dropWhile.symm, .run ?_ ?_ ?_⟩
    · rw [List.forall_mem_cons]
      exact ⟨hWord, fun x hx => isWordChar_eq_true_iff.mp (List.mem_takeWhile_imp hx)⟩
    · exact fun x hx hRun => hSeam x hx hRun c rfl hWord
    · intro x hx
      rw [← isWordChar_eq_true_iff, of_mem_head?_dropWhile x hx]
      exact Bool.false_ne_true
  · exact ⟨_, [], cs, rfl, .invalid hSymbol hWord hBlank⟩

theorem Stands.seam (h : Stands before kind cs after) : Seam (gap ++ cs) after := by
  cases h with
  | run _ _ hAfter => exact fun _ _ _ => hAfter
  | symbol hSymbol =>
    intro x hx hWord
    obtain rfl : _ = x := by simpa using hx
    have hNot := not_wordChar_of_mem_symbols _ hSymbol
    rw [isWordChar_eq_true_iff.mpr hWord] at hNot
    cases hNot
  | invalid _ hNot _ =>
    intro x hx hWord
    obtain rfl : _ = x := by simpa using hx
    exact absurd hWord hNot

/-- A token with the white space before it. -/
structure Piece where
  gap : List Char
  token : Token

def Piece.chars (p : Piece) : List Char :=
  p.gap ++ p.token.text.toList

def spell (pieces : List Piece) : List Char :=
  pieces.flatMap Piece.chars

/-- A text that follows on `before` consists of the pieces and of white space behind them. -/
structure Factors (before text : List Char) (pieces : List Piece) (tail : List Char) : Prop where
  spelled : spell pieces ++ tail = text
  blank_gap : ∀ p ∈ pieces, ∀ c ∈ p.gap, Text.isBlank c = true
  blank_tail : ∀ c ∈ tail, Text.isBlank c = true
  stands : ∀ front p back, pieces = front ++ p :: back → Stands (before ++ spell front ++ p.gap)
    p.token.kind p.token.text.toList (spell back ++ tail)
  line_eq : ∀ front p back, pieces = front ++ p :: back →
    p.token.line = 1 + (before ++ spell front ++ p.gap).count '\n'

theorem factors_nil_iff {text tail : List Char} :
    Factors before text [] tail ↔ tail = text ∧ ∀ c ∈ tail, Text.isBlank c = true := by
  constructor
  · intro h
    exact ⟨h.spelled, h.blank_tail⟩
  · rintro ⟨h, hBlank⟩
    exact ⟨h, by simp, hBlank, by simp, by simp⟩

theorem factors_cons_iff {text tail : List Char} {p : Piece} {pieces : List Piece} :
    Factors before text (p :: pieces) tail ↔ ∃ rest, p.chars ++ rest = text ∧
      (∀ c ∈ p.gap, Text.isBlank c = true) ∧
      Stands (before ++ p.gap) p.token.kind p.token.text.toList rest ∧
      p.token.line = 1 + (before ++ p.gap).count '\n' ∧
      Factors (before ++ p.chars) rest pieces tail := by
  constructor
  · intro h
    have hFirst := h.stands [] p pieces rfl
    have hLine := h.line_eq [] p pieces rfl
    have hGaps := List.forall_mem_cons.mp h.blank_gap
    simp only [spell, List.flatMap_nil, List.append_nil] at hFirst hLine
    refine ⟨spell pieces ++ tail, ?_, hGaps.1, hFirst, hLine, rfl, hGaps.2, h.blank_tail, ?_, ?_⟩
    · rw [← h.spelled, spell, spell, List.flatMap_cons, List.append_assoc]
    · intro front q back hPieces
      have hLater := h.stands (p :: front) q back (by rw [hPieces]; rfl)
      simpa [spell] using hLater
    · intro front q back hPieces
      have hLater := h.line_eq (p :: front) q back (by rw [hPieces]; rfl)
      simpa [spell] using hLater
  · rintro ⟨rest, rfl, hGap, hFirst, hLine, h⟩
    obtain rfl := h.spelled
    refine ⟨?_, List.forall_mem_cons.mpr ⟨hGap, h.blank_gap⟩, h.blank_tail, ?_, ?_⟩
    · rw [spell, spell, List.flatMap_cons, List.append_assoc]
    · rintro (_ | ⟨q, front⟩) r back hPieces
      · obtain ⟨rfl, rfl⟩ := List.cons.inj hPieces
        simpa [spell] using hFirst
      · obtain ⟨rfl, rfl⟩ := List.cons.inj hPieces
        have hLater := h.stands front r back rfl
        simpa [spell] using hLater
    · rintro (_ | ⟨q, front⟩) r back hPieces
      · obtain ⟨rfl, rfl⟩ := List.cons.inj hPieces
        simpa [spell] using hLine
      · obtain ⟨rfl, rfl⟩ := List.cons.inj hPieces
        have hLater := h.line_eq front r back rfl
        simpa [spell] using hLater

/-- A text splits into the tokens of a factorisation, and splitting counts its lines. -/
theorem exists_factors (before cs : List Char) (hSeam : Seam before cs) :
    ∃ pieces tail, Factors before cs pieces tail ∧ split (1 + before.count '\n') cs =
      (pieces.map Piece.token, 1 + (before ++ cs).count '\n') := by
  generalize hLine : 1 + before.count '\n' = line
  fun_induction split line cs generalizing before with
  | case1 line cs start hSkip =>
    obtain ⟨hBlank, rfl⟩ := of_skipBlanks_eq_nil hSkip
    refine ⟨[], cs, factors_nil_iff.mpr ⟨rfl, hBlank⟩, ?_⟩
    rw [List.count_append, ← hLine, Nat.add_assoc]
    rfl
  | case2 line cs start c rest hSkip _ tokens last hSplit ih =>
    obtain ⟨gap, hGap, hBlank, rfl, rfl⟩ := of_skipBlanks_eq_cons hSkip
    obtain ⟨kind, ds, after, rfl, hStands⟩ := exists_stands hBlank (hSeam.append_gap hGap)
    have hNewlines := hStands.count_newline
    rw [hStands.first_eq] at hSplit ih
    obtain ⟨pieces, tail, hFactors, hRest⟩ := ih (before ++ gap ++ c :: ds) hStands.seam
      (by rw [List.count_append, hNewlines, List.count_append]; omega)
    rw [hSplit] at hRest
    obtain ⟨rfl, rfl⟩ := Prod.mk.inj hRest
    refine ⟨⟨gap, ⟨kind, String.ofList (c :: ds), line + gap.count '\n'⟩⟩ :: pieces, tail, ?_, ?_⟩
    · rw [factors_cons_iff]
      refine ⟨after, by simp [Piece.chars], hGap, by simpa using hStands, ?_, ?_⟩
      · change line + gap.count '\n' = 1 + (before ++ gap).count '\n'
        rw [List.count_append]
        omega
      · simpa [Piece.chars] using hFactors
    · rw [hStands.first_eq]
      simp

/-- The text decides how long a token is. -/
theorem Stands.cut_unique {cs' after' : List Char} {kind' : Kind}
    (h : Stands before kind cs after) (h' : Stands before kind' cs' after')
    (hText : cs ++ after = cs' ++ after') : kind = kind' ∧ cs = cs' ∧ after = after' := by
  obtain ⟨c, ds, rfl⟩ := h.exists_cons
  obtain ⟨c', ds', rfl⟩ := h'.exists_cons
  rw [List.cons_append, List.cons_append] at hText
  obtain ⟨rfl, hRest⟩ := List.cons.inj hText
  have hFirst := h.first_eq 0
  rw [hRest, h'.first_eq] at hFirst
  obtain ⟨hToken, rfl⟩ := Prod.mk.inj hFirst
  obtain ⟨rfl, hChars, -⟩ := Token.mk.inj hToken
  exact ⟨rfl, (String.ofList_injective hChars).symm, rfl⟩

/-- A token ends the white space before it. -/
theorem Stands.gap_unique {gap' cs' after' : List Char} {kind' : Kind}
    (h : Stands (before ++ gap) kind cs after) (h' : Stands (before ++ gap') kind' cs' after')
    (hGap : ∀ c ∈ gap, Text.isBlank c = true) (hGap' : ∀ c ∈ gap', Text.isBlank c = true)
    (hText : gap ++ (cs ++ after) = gap' ++ (cs' ++ after')) : gap = gap' := by
  have hStop : ∀ x ∈ (cs ++ after).head?, Text.isBlank x = false := by
    obtain ⟨c, ds, rfl⟩ := h.exists_cons
    simpa using h.not_blank c List.mem_cons_self
  have hStop' : ∀ x ∈ (cs' ++ after').head?, Text.isBlank x = false := by
    obtain ⟨c, ds, rfl⟩ := h'.exists_cons
    simpa using h'.not_blank c List.mem_cons_self
  rw [← (span_append hGap hStop).1, hText, (span_append hGap' hStop').1]

theorem Factors.not_all_blank {text tail : List Char} {p : Piece} {pieces : List Piece}
    (h : Factors before text (p :: pieces) tail) : ¬ ∀ c ∈ text, Text.isBlank c = true := by
  intro hBlank
  obtain ⟨rest, rfl, -, hStands, -⟩ := factors_cons_iff.mp h
  obtain ⟨c, ds, hText⟩ := hStands.exists_cons
  have hMem : c ∈ p.token.text.toList := by simp [hText]
  have hNot := hStands.not_blank c hMem
  rw [hBlank c (by simp [Piece.chars, hMem])] at hNot
  cases hNot

theorem Factors.head_unique {text tail tail' : List Char} {p p' : Piece}
    {pieces pieces' : List Piece} (h : Factors before text (p :: pieces) tail)
    (h' : Factors before text (p' :: pieces') tail') : p = p' ∧ ∃ rest,
      Factors (before ++ p.chars) rest pieces tail ∧
      Factors (before ++ p.chars) rest pieces' tail' := by
  obtain ⟨rest, rfl, hGap, hStands, hLine, hLater⟩ := factors_cons_iff.mp h
  obtain ⟨rest', hText, hGap', hStands', hLine', hLater'⟩ := factors_cons_iff.mp h'
  obtain ⟨gap, ⟨kind, word, line⟩⟩ := p
  obtain ⟨gap', ⟨kind', word', line'⟩⟩ := p'
  dsimp only [Piece.chars] at *
  rw [List.append_assoc, List.append_assoc] at hText
  obtain rfl := hStands'.gap_unique hStands hGap' hGap hText
  obtain ⟨rfl, hWord, rfl⟩ := hStands'.cut_unique hStands (List.append_cancel_left hText)
  obtain rfl := String.toList_inj.mp hWord
  obtain rfl := hLine.trans hLine'.symm
  exact ⟨rfl, _, hLater, hLater'⟩

/-- There is only one way to split a text. -/
theorem Factors.unique {text tail tail' : List Char} {pieces pieces' : List Piece}
    (h : Factors before text pieces tail) (h' : Factors before text pieces' tail') :
    pieces = pieces' ∧ tail = tail' := by
  induction pieces generalizing before text pieces' with
  | nil =>
    obtain ⟨rfl, hBlank⟩ := factors_nil_iff.mp h
    cases pieces' with
    | nil => exact ⟨rfl, (factors_nil_iff.mp h').1.symm⟩
    | cons p' pieces' => exact absurd hBlank h'.not_all_blank
  | cons p pieces ih =>
    cases pieces' with
    | nil =>
      obtain ⟨rfl, hBlank⟩ := factors_nil_iff.mp h'
      exact absurd hBlank h.not_all_blank
    | cons p' pieces' =>
      obtain ⟨rfl, rest, hLater, hLater'⟩ := h.head_unique h'
      obtain ⟨rfl, rfl⟩ := ih hLater hLater'
      exact ⟨rfl, rfl⟩

end Token

namespace TokenStream

variable {s : TokenStream} {n : Nat}

def Sound (s : TokenStream) : Prop :=
  s.ahead = none → s.rest = []

theorem sound_read (line : Nat) (cs : List Char) : (read line cs).Sound := by
  unfold read
  split <;> simp [Sound]

theorem toCursor_read (line : Nat) (cs : List Char) :
    (read line cs).toCursor = ⟨(Token.split line cs).1, (Token.split line cs).2⟩ := by
  unfold read
  split
  next hSkip => simp [toCursor, Token.split_of_blank hSkip]
  next hSkip => simp [toCursor, Token.split_of_token hSkip]

namespace Sound

theorem toCursor_consume (h : s.Sound) : s.consume.2.toCursor = s.toCursor.advance := by
  obtain ⟨_ | t, rest, reached⟩ := s
  · obtain rfl : rest = [] := h rfl
    rw [consume, toCursor_read]
    simp [toCursor, Cursor.advance]
  · rw [consume, toCursor_read]
    simp [toCursor, Cursor.advance]

theorem peek?_toCursor (h : s.Sound) : s.toCursor.peek? = s.consume.1 := by
  obtain ⟨_ | t, rest, reached⟩ := s
  · obtain rfl : rest = [] := h rfl
    simp [consume, toCursor, Cursor.peek?]
  · simp [consume, toCursor, Cursor.peek?]

theorem line_toCursor (h : s.Sound) : s.toCursor.line = s.line := by
  rw [Cursor.line, h.peek?_toCursor]
  obtain ⟨_ | t, rest, reached⟩ := s
  · obtain rfl : rest = [] := h rfl
    simp [consume, toCursor, line]
  · simp [consume, line]

end Sound

def after (s : TokenStream) : Nat → TokenStream
  | 0 => s
  | n + 1 => (s.after n).consume.2

theorem toCursor_after (text : String) (n : Nat) : ((ofString text).after n).Sound ∧
    ((ofString text).after n).toCursor =
      ⟨(Cursor.ofString text).tokens.drop n, (Cursor.ofString text).endLine⟩ := by
  induction n with
  | zero => exact ⟨sound_read _ _, toCursor_read _ _⟩
  | succ n ih =>
    refine ⟨sound_read _ _, ?_⟩
    rw [after, ih.1.toCursor_consume, ih.2, Cursor.advance, List.tail_drop]

/-- The tokens that a stream gives one after the other cut its text up in the only possible way.
None of its characters is lost, nothing but white space is passed over, and lines are counted right
up to the end. -/
theorem tokens_make_up_text (text : String) : ∃ pieces tail,
    Token.Factors [] text.toList pieces tail ∧
    (∀ pieces' tail', Token.Factors [] text.toList pieces' tail' →
      pieces' = pieces ∧ tail' = tail) ∧
    (∀ n, ((ofString text).after n).consume.1 = (pieces.map Token.Piece.token)[n]?) ∧
    (∀ n ≥ pieces.length, ((ofString text).after n).line = 1 + text.toList.count '\n') ∧
    (Cursor.ofString text).tokens = pieces.map Token.Piece.token := by
  obtain ⟨pieces, tail, hFactors, hSplit⟩ := Token.exists_factors [] text.toList Token.seam_nil
  have hTokens : (Cursor.ofString text).tokens = pieces.map Token.Piece.token :=
    congrArg Prod.fst hSplit
  have hEnd : (Cursor.ofString text).endLine = 1 + text.toList.count '\n' :=
    congrArg Prod.snd hSplit
  refine ⟨pieces, tail, hFactors, fun _ _ h => h.unique hFactors, ?_, ?_, hTokens⟩
  · intro n
    obtain ⟨hSound, hCursor⟩ := toCursor_after text n
    rw [← hSound.peek?_toCursor, hCursor, Cursor.peek?, List.head?_drop, hTokens]
  · intro n hn
    obtain ⟨hSound, hCursor⟩ := toCursor_after text n
    rw [← hSound.line_toCursor, hCursor, hTokens, List.drop_eq_nil_of_le (by simpa using hn)]
    exact hEnd

end TokenStream

end CityCrew
