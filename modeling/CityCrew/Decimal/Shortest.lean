import CityCrew.Decimal.Basic

/-!
# Shortest decimals

A number is written with the fewest digits that read back to it. Of several decimals of that length
the nearest one is taken. Numbers that are neither tiny nor huge are written without an exponent.
-/

namespace CityCrew.Decimal

/-- Whether `n * 10 ^ -shift` reads back to the magnitude of `x`. It must not be further away than
half the gap to the next number on its side; exactly in the middle, the even mantissa is read. -/
def Binary.readsBack (x : Binary) (shift : Int) (n : Nat) : Bool :=
  let exact := x.num shift
  let written := n * x.den shift
  let near (parts distance : Nat) : Bool :=
    if x.mantissa % 2 = 0 then parts * x.mantissa * distance ≤ exact
    else parts * x.mantissa * distance < exact
  if exact ≤ written then near 2 (written - exact)
  else near (if x.narrowBelow then 4 else 2) (exact - written)

/-- The multiple of `10 ^ -shift` that reads back to `x`. Only the two neighbors of `x` are tried,
the nearer one first. -/
def Binary.onGrid? (x : Binary) (shift : Int) : Option Nat :=
  let below := x.num shift / x.den shift
  let nearer := x.rounded shift
  [nearer, if nearer = below then below + 1 else below].find? (x.readsBack shift)

def maxDigits : Nat := 17

def Binary.shortest (x : Binary) : Nat × Int :=
  let grid (n : Nat) : Option (Nat × Int) :=
    let shift := n - x.order
    (x.onGrid? shift).map (·, shift)
  ((List.range maxDigits).findSome? grid).getD (0, 0)

def significant (ds : List Char) : List Char :=
  (ds.reverse.dropWhile (· == '0')).reverse

def exponent (n : Int) : List Char :=
  (if n < 0 then '-' else '+') :: digits n.natAbs

/-- A decimal with the given digits, of which `point` stand in front of the point. Whole numbers get
a zero behind it. -/
def layout (ds : List Char) (point : Int) : List Char :=
  if 0 < point ∧ point ≤ 16 then
    let whole := ds.take point.toNat
    let behind := ds.drop point.toNat
    whole ++ List.replicate (point.toNat - whole.length) '0' ++
      '.' :: (if behind.isEmpty then ['0'] else behind)
  else if -5 < point ∧ point ≤ 0 then
    '0' :: '.' :: (List.replicate (-point).toNat '0' ++ ds)
  else
    let behind := ds.drop 1
    ds.take 1 ++ (if behind.isEmpty then [] else '.' :: behind) ++ 'e' :: exponent (point - 1)

def shortest? (x : Float) : Option String :=
  (Binary.ofFloat? x).map fun b =>
    let text :=
      if b.mantissa = 0 then ['0', '.', '0']
      else
        let (n, behind) := b.shortest
        layout (significant (digits n)) ((digits n).length - behind)
    String.ofList (b.sign ++ text)

end CityCrew.Decimal
