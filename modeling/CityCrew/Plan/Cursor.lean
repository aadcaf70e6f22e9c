import CityCrew.Plan.SyntaxError
import CityCrew.Plan.Token

/-!
# Cursors

A cursor is a place in the token list of a text. Past the last token it still knows the line on
which the text ends, so that errors at the end can be placed.
-/

namespace CityCrew

structure Cursor where
  tokens : List Token
  /-- The line on which the text ends. -/
  endLine : Nat
deriving DecidableEq

namespace Cursor

def ofString (text : String) : Cursor :=
  let (tokens, last) := Token.split 1 text.toList
  ⟨tokens, last⟩

def peek? (c : Cursor) : Option Token :=
  c.tokens.head?

def nextIs (c : Cursor) (text : String) : Bool :=
  c.peek?.any (·.Is text)

def line (c : Cursor) : Nat :=
  (c.peek?.map (·.line)).getD c.endLine

def advance (c : Cursor) : Cursor :=
  { c with tokens := c.tokens.tail }

/-- The error of finding the next token, or the end, in place of `expected`. -/
def mismatch (c : Cursor) (expected : String) : SyntaxError :=
  match c.peek? with
  | some t => ⟨t.line, .unexpectedToken expected t.text⟩
  | none => ⟨c.line, .unexpectedEnd⟩

def expect (c : Cursor) (expected : String) : Except SyntaxError (Token × Cursor) :=
  match c.peek? with
  | some t => if t.Is expected then .ok (t, c.advance) else .error (c.mismatch expected)
  | none => .error (c.mismatch expected)

end Cursor

end CityCrew
