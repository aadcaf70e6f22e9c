/-!
# Values and operators

Plans compute with 64-bit words in two's complement. Sums, differences and products wrap around,
quotients are cut off toward zero, and no operation fails: a quotient or remainder that does not
exist is 0, and a power with an exponent below 1 is 1.
-/

namespace CityCrew

abbrev Value := Int64

inductive Operator where
  | add
  | sub
  | mul
  | div
  | rem
  | pow
deriving DecidableEq

namespace Operator

def all : List Operator := [add, sub, mul, div, rem, pow]

def symbol : Operator → String
  | add => "+"
  | sub => "-"
  | mul => "*"
  | div => "/"
  | rem => "%"
  | pow => "^"

def ofSymbol? (symbol : String) : Option Operator :=
  all.find? fun op => op.symbol == symbol

/-- The quotient, cut off toward zero; 0 if the divisor is 0 or the quotient is no word. -/
def quotient (a b : Value) : Value :=
  if b = 0 ∨ a = Int64.minValue ∧ b = -1 then 0 else a / b

/-- The remainder, with the sign of `a`; 0 if the divisor is 0. -/
def remainder (a b : Value) : Value :=
  if b = 0 then 0 else a % b

/-- The `n`-th power of `a`, wrapped around, by repeated squaring. -/
def powerNat (a : Value) (n : Nat) : Value :=
  if n = 0 then 1
  else
    let root := powerNat (a * a) (n / 2)
    if n % 2 = 0 then root else root * a

/-- The greatest exponent that is told apart: larger ones count as this one. -/
def maxExponent : Nat := 4294967295

def power (a b : Value) : Value :=
  if b ≤ 0 then 1 else powerNat a (min b.toNatClampNeg maxExponent)

def apply : Operator → Value → Value → Value
  | add, a, b => a + b
  | sub, a, b => a - b
  | mul, a, b => a * b
  | div, a, b => quotient a b
  | rem, a, b => remainder a b
  | pow, a, b => power a b

theorem ofSymbol?_symbol (op : Operator) : ofSymbol? op.symbol = some op := by
  cases op <;> rfl

theorem symbol_of_ofSymbol?_eq_some {symbol : String} {op : Operator}
    (h : ofSymbol? symbol = some op) : op.symbol = symbol := by
  simpa using List.find?_some h

end Operator

end CityCrew
