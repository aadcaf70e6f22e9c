import Mathlib.Algebra.Order.Ring.Int
import Mathlib.Algebra.Ring.Parity
import Mathlib.Data.Int.ModEq
import Mathlib.Logic.Function.Iterate
import Mathlib.RingTheory.Int.Basic
import CityCrew.Amount
import CityCrew.Plan.Operator

/-!
# Powers

A power is worked out by repeated squaring, and its exponent counts no further than `maxExponent`.
Up to there it is the repeated product, wrapped around. An exponent beyond is cut off. That makes no
difference to an even base, whose powers are all 0 by then, and to an odd one only if the factors
left out have the product 1.
-/

namespace CityCrew

namespace Operator

/-- The word that agrees with the exact power modulo 2 ^ 64. -/
def wrappedPower (a : Value) (n : Nat) : Value :=
  Int64.ofInt (a.toInt ^ n)

variable {a b c : Value} {m n : Nat}

theorem ofInt_eq_ofInt_iff {x y : Int} :
    Int64.ofInt x = Int64.ofInt y ↔ ((2 ^ 64 : Nat) : Int) ∣ x - y := by
  rw [← Int64.toInt_inj, Int64.toInt_ofInt, Int64.toInt_ofInt,
    Int.bmod_eq_bmod_iff_bmod_sub_eq_zero, Int.dvd_iff_bmod_eq_zero]
  rfl

theorem wrappedPower_eq_one_iff :
    wrappedPower a n = 1 ↔ ((2 ^ 64 : Nat) : Int) ∣ a.toInt ^ n - 1 := by
  have hOne : (1 : Value) = Int64.ofInt 1 := rfl
  rw [hOne, wrappedPower, ofInt_eq_ofInt_iff]

theorem wrappedPower_zero : wrappedPower a 0 = 1 := by
  rw [wrappedPower, pow_zero]
  rfl

theorem wrappedPower_add : wrappedPower a (m + n) = wrappedPower a m * wrappedPower a n := by
  rw [wrappedPower, pow_add, Int64.ofInt_mul]
  rfl

theorem wrappedPower_succ : wrappedPower a (n + 1) = wrappedPower a n * a := by
  rw [wrappedPower, pow_succ, Int64.ofInt_mul, Int64.ofInt_toInt]
  rfl

theorem wrappedPower_eq_iterate : wrappedPower a n = (· * a)^[n] 1 := by
  induction n with
  | zero => exact wrappedPower_zero
  | succ n ih => rw [wrappedPower_succ, ih, Function.iterate_succ_apply']

theorem wrappedPower_modEq : (wrappedPower a n).toInt ≡ a.toInt ^ n [ZMOD 2 ^ 64] := by
  rw [wrappedPower, Int64.toInt_ofInt]
  exact Int.bmod_emod

theorem powerNat_ofInt (x : Int) (n : Nat) : powerNat (Int64.ofInt x) n = Int64.ofInt (x ^ n) := by
  induction n using Nat.strongRecOn generalizing x with
  | ind n ih =>
    rw [powerNat]
    split
    · subst n
      rw [pow_zero]
      rfl
    · rename_i hn
      have hSquare : (x * x) ^ (n / 2) = x ^ (2 * (n / 2)) := by rw [← pow_two, ← pow_mul]
      have hHalf := ih (n / 2) (by omega) (x * x)
      rw [← Int64.ofInt_mul, hHalf, hSquare]
      dsimp only
      split
      · rename_i hEven
        rw [Nat.mul_div_cancel' (Nat.dvd_of_mod_eq_zero hEven)]
      · rename_i hOdd
        have hSplit : 2 * (n / 2) + 1 = n := by omega
        rw [← Int64.ofInt_mul, ← pow_succ, hSplit]

theorem powerNat_eq : powerNat a n = wrappedPower a n := by
  have h := powerNat_ofInt a.toInt n
  rwa [Int64.ofInt_toInt] at h

theorem apply_pow_eq : pow.apply a b = wrappedPower a (min b.toInt.toNat maxExponent) := by
  change power a b = _
  rw [power]
  split
  · rename_i h
    have hNone : b.toInt.toNat = 0 := Int.toNat_of_nonpos (Int64.le_iff_toInt_le.mp h)
    rw [hNone, Nat.zero_min, wrappedPower_zero]
  · rw [powerNat_eq, Int64.toNat_toInt]

theorem wrappedPower_eq_zero (hEven : Even a.toInt) (hn : 64 ≤ n) : wrappedPower a n = 0 := by
  have hDvd : ((2 ^ 64 : Nat) : Int) ∣ a.toInt ^ n - 0 := by
    rw [Int.sub_zero]
    exact (pow_dvd_pow_of_dvd hEven.two_dvd 64).trans (pow_dvd_pow a.toInt hn)
  exact ofInt_eq_ofInt_iff.mpr hDvd

/-- An odd base can be divided out. -/
theorem wrappedPower_eq_add_iff_of_odd (hOdd : Odd a.toInt) :
    wrappedPower a m = wrappedPower a (m + n) ↔ wrappedPower a n = 1 := by
  have hCoprime : IsCoprime ((2 ^ 64 : Nat) : Int) (a.toInt ^ m) := by
    have hTwo : IsCoprime (2 : Int) a.toInt := Int.isCoprime_two_left.mpr hOdd
    exact hTwo.pow
  have hFactor : a.toInt ^ (m + n) - a.toInt ^ m = a.toInt ^ m * (a.toInt ^ n - 1) := by
    rw [pow_add, Int.mul_sub, Int.mul_one]
  rw [wrappedPower_eq_one_iff, eq_comm, wrappedPower, wrappedPower, ofInt_eq_ofInt_iff, hFactor]
  constructor
  · intro h
    exact hCoprime.dvd_of_dvd_mul_left h
  · intro h
    exact h.mul_left (a.toInt ^ m)

theorem wrappedPower_eq_add_iff (hm : 64 ≤ m) :
    wrappedPower a m = wrappedPower a (m + n) ↔ Even a.toInt ∨ wrappedPower a n = 1 := by
  by_cases hEven : Even a.toInt
  · rw [wrappedPower_eq_zero hEven hm, wrappedPower_eq_zero hEven (Nat.le_add_right_of_le hm)]
    exact iff_of_true rfl (.inl hEven)
  · rw [wrappedPower_eq_add_iff_of_odd (Int.not_even_iff_odd.mp hEven), or_iff_right hEven]

theorem apply_pow_eq_iff (h : 0 < b) : pow.apply a b = wrappedPower a b.toInt.toNat ↔
    b.toInt ≤ maxExponent ∨ Even a.toInt ∨
      wrappedPower a (b.toInt.toNat - maxExponent) = 1 := by
  have hPos : 0 < b.toInt := Int64.lt_iff_toInt_lt.mp h
  rw [apply_pow_eq]
  by_cases hFits : b.toInt.toNat ≤ maxExponent
  · rw [Nat.min_eq_left hFits]
    exact iff_of_true rfl (.inl (by omega))
  · have hCut : maxExponent + (b.toInt.toNat - maxExponent) = b.toInt.toNat := by omega
    have hBeyond : ¬ b.toInt ≤ maxExponent := by omega
    have hLong : 64 ≤ maxExponent := by decide
    rw [Nat.min_eq_right (by omega), or_iff_right hBeyond, ← wrappedPower_eq_add_iff hLong, hCut]

theorem toInt_add_of_isWord (h : IsWord (b.toInt + c.toInt)) : (b + c).toInt = b.toInt + c.toInt := by
  have hSum : Int64.ofInt (b.toInt + c.toInt) = b + c := by
    rw [Int64.ofInt_add, Int64.ofInt_toInt, Int64.ofInt_toInt]
  rw [← hSum]
  exact toInt_ofInt_iff.mpr h

theorem apply_pow_add_iff (hb : 0 ≤ b) (hc : 0 ≤ c) (hSum : IsWord (b.toInt + c.toInt)) :
    pow.apply a (b + c) = pow.apply a b * pow.apply a c ↔
      b.toInt + c.toInt ≤ maxExponent ∨ Even a.toInt ∨
        wrappedPower a (min b.toInt.toNat maxExponent + min c.toInt.toNat maxExponent -
          maxExponent) = 1 := by
  have hb : 0 ≤ b.toInt := Int64.le_iff_toInt_le.mp hb
  have hc : 0 ≤ c.toInt := Int64.le_iff_toInt_le.mp hc
  rw [apply_pow_eq, apply_pow_eq, apply_pow_eq, ← wrappedPower_add, toInt_add_of_isWord hSum]
  generalize hLess : min b.toInt.toNat maxExponent + min c.toInt.toNat maxExponent = n
  by_cases hFits : b.toInt + c.toInt ≤ maxExponent
  · have hWhole : min (b.toInt + c.toInt).toNat maxExponent = n := by omega
    exact iff_of_true (congrArg (wrappedPower a) hWhole) (.inl hFits)
  · -- The power of the sum is cut off, and the product has some factors more.
    have hCut : min (b.toInt + c.toInt).toNat maxExponent = maxExponent := by omega
    have hMore : maxExponent + (n - maxExponent) = n := by omega
    have hLong : 64 ≤ maxExponent := by decide
    have hSame : wrappedPower a maxExponent = wrappedPower a n ↔
        Even a.toInt ∨ wrappedPower a (n - maxExponent) = 1 := by
      rw [← wrappedPower_eq_add_iff hLong, hMore]
    rw [hCut, or_iff_right hFits, hSame]

/-- A power is the repeated product, and the power of a sum is the product of two powers, just if
nothing is cut off the exponent or what is cut off makes no difference. -/
theorem powers_repeat_products (a b c : Value) :
    (b ≤ 0 → pow.apply a b = 1) ∧
    (0 < b → (pow.apply a b = wrappedPower a b.toInt.toNat ↔
      b.toInt ≤ maxExponent ∨ Even a.toInt ∨
        wrappedPower a (b.toInt.toNat - maxExponent) = 1)) ∧
    (∀ n, wrappedPower a n = (· * a)^[n] 1 ∧
      (wrappedPower a n).toInt ≡ a.toInt ^ n [ZMOD 2 ^ 64]) ∧
    (0 ≤ b → 0 ≤ c → IsWord (b.toInt + c.toInt) →
      (pow.apply a (b + c) = pow.apply a b * pow.apply a c ↔
        b.toInt + c.toInt ≤ maxExponent ∨ Even a.toInt ∨
          wrappedPower a (min b.toInt.toNat maxExponent + min c.toInt.toNat maxExponent -
            maxExponent) = 1)) := by
  refine ⟨?_, apply_pow_eq_iff, fun n => ⟨wrappedPower_eq_iterate, wrappedPower_modEq⟩,
    apply_pow_add_iff⟩
  intro h
  exact if_pos h

/-- The greatest exponent that is not cut off, and the sum of two smaller ones. -/
theorem powers_repeat_products_to_the_limit :
    pow.apply (-3) 0 = 1 ∧ pow.apply (-3) 4294967295 = (· * (-3))^[4294967295] 1 ∧
      pow.apply (-3) (4294967292 + 3) = pow.apply (-3) 4294967292 * pow.apply (-3) 3 := by
  obtain ⟨_, hPower, hProduct, _⟩ := powers_repeat_products (-3) 4294967295 0
  obtain ⟨_, _, _, hSum⟩ := powers_repeat_products (-3) 4294967292 3
  refine ⟨(powers_repeat_products (-3) 0 0).1 (by decide), ?_,
    (hSum (by decide) (by decide) (by decide)).mpr (.inl (by decide))⟩
  exact ((hPower (by decide)).mpr (.inl (by decide))).trans (hProduct 4294967295).1

/-- One factor more than counts: an even number of factors -1 is taken for an odd one. -/
theorem power_drops_factor :
    pow.apply (-1) 4294967296 = -1 ∧ wrappedPower (-1) 4294967296 = 1 := by
  have hCut : min (4294967296 : Value).toInt.toNat maxExponent = 4294967295 := by decide
  have hBase : (-1 : Value).toInt = -1 := by decide
  rw [apply_pow_eq, hCut, wrappedPower, wrappedPower, hBase, Odd.neg_one_pow (by decide),
    Even.neg_one_pow (by decide)]
  decide

end Operator

end CityCrew
