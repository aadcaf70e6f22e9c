import CityCrew.Text.Blank

/-!
# Tokens

The text of a plan is a sequence of tokens between stretches of white space. A maximal run of
ASCII letters, digits and underscores is a word, or a number if it starts with a digit; every other
character stands alone. Splitting never fails: a character that no plan may hold becomes an
invalid token.
-/

namespace CityCrew

inductive Token.Kind where
  | word
  | number
  | symbol
  | invalid
deriving DecidableEq

structure Token where
  kind : Token.Kind
  text : String
  /-- The number of the line that the token stands on, counted from 1. -/
  line : Nat
deriving DecidableEq

namespace Token

def Is (t : Token) (text : String) : Prop :=
  t.text = text

instance (t : Token) (text : String) : Decidable (t.Is text) :=
  inferInstanceAs (Decidable (t.text = text))

def isWordChar (c : Char) : Bool :=
  c.isAlphanum || c == '_'

def symbols : List Char :=
  ['+', '-', '*', '/', '%', '^', '=', '(', ')', '\x7b', '\x7d']

/-- What is left of `cs` after leading white space, and the line it starts on if `cs` starts on
`line`. -/
def skipBlanks (line : Nat) : List Char → Nat × List Char
  | [] => (line, [])
  | c :: cs =>
    if Text.isBlank c then skipBlanks (if c = '\n' then line + 1 else line) cs
    else (line, c :: cs)

/-- Splits a text that starts with `c` into its first token, which stands on `line`, and the
rest. -/
def first (line : Nat) (c : Char) (cs : List Char) : Token × List Char :=
  if c ∈ symbols then (⟨.symbol, String.singleton c, line⟩, cs)
  else if isWordChar c then
    let kind := if c.isDigit then Kind.number else Kind.word
    (⟨kind, String.ofList (c :: cs.takeWhile isWordChar), line⟩, cs.dropWhile isWordChar)
  else (⟨.invalid, String.singleton c, line⟩, cs)

theorem length_skipBlanks_le (line : Nat) (cs : List Char) :
    (skipBlanks line cs).2.length ≤ cs.length := by
  fun_induction skipBlanks line cs with
  | case1 => simp
  | case2 _ _ _ _ ih => exact Nat.le_succ_of_le ih
  | case3 => simp

theorem length_first_le (line : Nat) (c : Char) (cs : List Char) :
    (first line c cs).2.length ≤ cs.length := by
  unfold first
  split
  · simp
  · split
    · exact (List.dropWhile_sublist _).length_le
    · simp

def split (line : Nat) (cs : List Char) : List Token × Nat :=
  match h : skipBlanks line cs with
  | (start, []) => ([], start)
  | (start, c :: rest) =>
    have : (first start c rest).2.length < cs.length := by
      have hskip := length_skipBlanks_le line cs
      have hfirst := length_first_le start c rest
      rw [h] at hskip
      simp only [List.length_cons] at hskip
      omega
    let (tokens, last) := split start (first start c rest).2
    ((first start c rest).1 :: tokens, last)
termination_by cs.length

end Token

end CityCrew
