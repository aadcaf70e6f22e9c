import CityCrew.Decimal.Basic

/-!
# Decimals of a fixed length

Texts with a given number of places behind the point, and texts in scientific form with a given
number of places. The exact value is rounded once, in the middle to an even last digit.
-/

namespace CityCrew.Decimal

/-- The digits of `n` with a point in front of the last `places` of them, and at least one digit in
front of it. Without places there is no point. -/
def withPoint (n places : Nat) : List Char :=
  let ds := digits n
  let padded := List.replicate (places + 1 - ds.length) '0' ++ ds
  let whole := padded.take (padded.length - places)
  if places = 0 then whole else whole ++ '.' :: padded.drop (padded.length - places)

def fixed (places : Nat) (x : Float) : String :=
  match Binary.ofFloat? x with
  | none => if x.isNaN then "NaN" else if x < 0 then "-inf" else "inf"
  | some b => String.ofList (b.sign ++ withPoint (b.rounded places) places)

/-- The exponent of the first digit, and the digits as one number of `places + 1` digits. -/
def Binary.leading (b : Binary) (places : Nat) : Int × Nat :=
  if b.mantissa = 0 then (0, 0)
  else
    let order := b.order
    let n := b.rounded (places - order)
    if n = tenTo (places + 1) then (order + 1, tenTo places) else (order, n)

def scientific (places : Nat) (x : Float) : String :=
  match Binary.ofFloat? x with
  | none => if x.isNaN then "NaN" else if x < 0 then "-inf" else "inf"
  | some b =>
    let (order, n) := b.leading places
    s!"{String.ofList (b.sign ++ withPoint n places)}e{order}"

end CityCrew.Decimal
