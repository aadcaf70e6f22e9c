/-!
# Exact values of floating-point numbers

A finite number is a sign and a natural number times a power of two. All decimal texts are worked
out from this form in exact arithmetic.
-/

namespace CityCrew.Decimal

def twoTo (n : Nat) : Nat :=
  Nat.pow 2 n

def tenTo (n : Nat) : Nat :=
  Nat.pow 10 n

/-- A finite number: `mantissa * 2 ^ exponent`, negated if `negative` holds. -/
structure Binary where
  negative : Bool
  mantissa : Nat
  exponent : Int
  /-- Whether the next smaller magnitude is half as far away as the next greater one. -/
  narrowBelow : Bool
deriving DecidableEq

def Binary.ofFloat? (x : Float) : Option Binary :=
  let bits := x.toBits
  let negative := bits >>> 63 == 1
  let e := ((bits >>> 52) &&& 0x7FF).toNat
  let f := (bits &&& 0xFFFFFFFFFFFFF).toNat
  if e = 0x7FF then none
  else if e = 0 then some ⟨negative, f, -1074, false⟩
  else some ⟨negative, twoTo 52 + f, (e : Int) - 1075, f = 0 ∧ 1 < e⟩

/-- The quotient rounded to the nearest natural number, and to an even one in the middle. -/
def roundDiv (num den : Nat) : Nat :=
  let q := num / den
  match compare (2 * (num % den)) den with
  | .lt => q
  | .gt => q + 1
  | .eq => if q % 2 = 0 then q else q + 1

def mantissaBits : Nat := 53

/-- The natural number nearest to `n` that a floating-point number holds, and in the middle the one
with the even mantissa. -/
def nearestHeld (n : Nat) : Nat :=
  let unit := twoTo (n.log2 + 1 - mantissaBits)
  roundDiv n unit * unit

/-- A number cut off toward zero and held within the 64-bit range. What is no number counts as 0. -/
def wholePart (x : Float) : Int64 :=
  x.toModel.toInt64

def Binary.num (x : Binary) (shift : Int) : Nat :=
  x.mantissa * twoTo x.exponent.toNat * tenTo shift.toNat

def Binary.den (x : Binary) (shift : Int) : Nat :=
  twoTo (-x.exponent).toNat * tenTo (-shift).toNat

def Binary.rounded (x : Binary) (shift : Int) : Nat :=
  roundDiv (x.num shift) (x.den shift)

def digits (n : Nat) : List Char :=
  Nat.toDigits 10 n

/-- The exponent of ten of the first digit of a magnitude other than 0. -/
def Binary.order (x : Binary) : Int :=
  let num := x.num 0
  let den := x.den 0
  if den ≤ num then (digits (num / den)).length - 1
  else -(digits ((den - 1) / num)).length

def Binary.sign (x : Binary) : List Char :=
  if x.negative then ['-'] else []

end CityCrew.Decimal
