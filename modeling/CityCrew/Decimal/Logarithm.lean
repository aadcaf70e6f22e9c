import CityCrew.Decimal.Basic

/-!
# Logarithms

The logarithms of positive integers as floating-point numbers. A number is written as
`2 ^ e * (num / den)` with a ratio from 1 to 2, whose natural logarithm is twice the series
`t + t ^ 3 / 3 + t ^ 5 / 5 + ...` at `t = (num - den) / (num + den)`. All of this is worked out in
fixed point, cut off term by term, and rounded once at the end.
-/

namespace CityCrew.Decimal

def places : Nat := 96

def one : Nat := twoTo places

/-- The number of terms of the series. They leave out less than the last place for ratios up to 2. -/
def terms : Nat := 32

/-- The sum of the powers of `square`, each divided by the next odd number. -/
def oddSeries (square : Nat) : Nat :=
  (List.range terms).foldr (fun i sum => one / (2 * i + 1) + sum * square / one) 0

def lnRatio (num den : Nat) : Nat :=
  let t := (num - den) * one / (num + den)
  2 * t * oddSeries (t * t / one) / one

def lnTwo : Nat :=
  lnRatio 2 1

/-- The natural logarithm of the mantissa of `n`, that is of `n / 2 ^ n.log2`. -/
def lnMantissa (n : Nat) : Nat :=
  lnRatio n (twoTo n.log2)

def ofFixed (n : Nat) : Float :=
  Float.ofNat n / Float.ofNat one

def ln (n : Nat) : Float :=
  ofFixed (n.log2 * lnTwo + lnMantissa n)

/-- The decimal logarithm of `n`, from its exponent and the natural logarithm of its mantissa. The
factor of the exponent is split in two, so that the product with the greater part is exact. -/
def log10 (n : Nat) : Float :=
  let exponent := Float.ofNat n.log2
  let logTwoHigh := Float.ofBits 0x3FD34413509F6000
  let logTwoLow := Float.ofBits 0x3D59FEF311F12B36
  let logE := Float.ofBits 0x3FDBCB7B1526E50E
  exponent * logTwoLow + logE * ofFixed (lnMantissa n) + exponent * logTwoHigh

example : (ln 1, log10 1, log10 1000) = (0, 0, 3) := by decide +kernel

end CityCrew.Decimal
