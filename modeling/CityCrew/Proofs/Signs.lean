import Mathlib
import CityCrew.Settings.Basic

/-!
# Signs of floating-point numbers

Sums, products and quotients of numbers without a minus sign have none either, and what is cut off
from them is a natural number. With a factor that is nothing, nothing is left. So interest takes
nothing away, and where its coefficient is 0 there is none.
-/

namespace CityCrew

open Float.Model Float.Model.UnpackedFloat

namespace Decimal

/-- The number has no minus sign. What is no number has no sign. -/
def IsUnsigned : UnpackedFloat → Prop
  | .notANumber => True
  | .infinity s => s = .positive
  | .zero s => s = .positive
  | .finite s _ _ _ => s = .positive

def IsNothing (u : UnpackedFloat) : Prop :=
  u = .notANumber ∨ ∃ s, u = .zero s

variable {spec : Float.Model.Format} {u v : UnpackedFloat} {x y : Float}

theorem isUnsigned_unpack (b : BitVec spec.numBits) (h : unpackSign b = 0) :
    IsUnsigned (UnpackedFloat.unpack spec b) := by
  have hSign : Sign.ofBitVec (unpackSign b) = .positive := by
    rw [h]
    rfl
  unfold UnpackedFloat.unpack
  simp only [hSign]
  split
  · split
    · rfl
    · trivial
  · split
    · split <;> rfl
    · rfl

theorem unpackSign_pack (h : IsUnsigned u) : unpackSign (UnpackedFloat.pack spec u) = 0 := by
  have hSign (e : BitVec spec.exponentBits) (m : BitVec spec.mantissaBitsWithoutImplicit) :
      unpackSign (packComponents spec .positive e m) = 0 :=
    unpackSign_packComponents ..
  cases u with
  | notANumber => exact hSign _ _
  | infinity s =>
    obtain rfl : s = .positive := h
    exact hSign _ _
  | zero s =>
    obtain rfl : s = .positive := h
    exact hSign _ _
  | finite s m e _ =>
    obtain rfl : s = .positive := h
    unfold UnpackedFloat.pack
    dsimp only
    split
    · exact hSign _ _
    · split
      · exact hSign _ _
      · exact hSign _ _

theorem isUnsigned_unpack_pack (h : IsUnsigned u) : IsUnsigned (Float.Model.pack u).unpack :=
  isUnsigned_unpack _ (unpackSign_pack h)

theorem isNothing_unpack_pack (h : IsNothing u) : IsNothing (Float.Model.pack u).unpack := by
  obtain rfl | ⟨s, rfl⟩ := h
  · exact .inl rfl
  · exact .inr ⟨s, by cases s <;> rfl⟩

theorem isUnsigned_roundWithAccuracy (m : Nat) (e : Int) (a : Accuracy) :
    IsUnsigned (roundWithAccuracy spec .positive m e a) := by
  unfold roundWithAccuracy
  dsimp only
  split
  · rfl
  · rfl

theorem isUnsigned_normalize {m : Int} (h : 0 ≤ m) (e : Int) :
    IsUnsigned (UnpackedFloat.normalize spec m e .positive) := by
  unfold UnpackedFloat.normalize
  split
  · rename_i hLess
    rw [Int.compare_eq_lt] at hLess
    omega
  · rfl
  · exact isUnsigned_roundWithAccuracy ..

theorem isUnsigned_add (hu : IsUnsigned u) (hv : IsUnsigned v) :
    IsUnsigned (UnpackedFloat.add spec u v) := by
  cases u <;> cases v
  case finite.finite =>
    cases hu
    cases hv
    exact isUnsigned_normalize (Int.add_nonneg (Int.natCast_nonneg _) (Int.natCast_nonneg _)) _
  all_goals
    cases hu
    cases hv
    trivial

theorem isUnsigned_mul (hu : IsUnsigned u) (hv : IsUnsigned v) :
    IsUnsigned (UnpackedFloat.mul spec u v) := by
  cases u <;> cases v
  case finite.finite =>
    cases hu
    cases hv
    exact isUnsigned_roundWithAccuracy ..
  all_goals
    cases hu
    cases hv
    trivial

theorem isUnsigned_div (hu : IsUnsigned u) (hv : IsUnsigned v) :
    IsUnsigned (UnpackedFloat.div spec u v) := by
  cases u <;> cases v
  case finite.finite =>
    cases hu
    cases hv
    exact isUnsigned_roundWithAccuracy ..
  all_goals
    cases hu
    cases hv
    trivial

theorem isNothing_mul_left (hu : IsNothing u) (v : UnpackedFloat) :
    IsNothing (UnpackedFloat.mul spec u v) := by
  obtain rfl | ⟨s, rfl⟩ := hu
  · exact .inl rfl
  · cases v with
    | notANumber => exact .inl rfl
    | infinity => exact .inl rfl
    | zero => exact .inr ⟨_, rfl⟩
    | finite => exact .inr ⟨_, rfl⟩

theorem isNothing_mul_right (u : UnpackedFloat) (hv : IsNothing v) :
    IsNothing (UnpackedFloat.mul spec u v) := by
  obtain rfl | ⟨s, rfl⟩ := hv
  · exact .inl (by cases u <;> rfl)
  · cases u with
    | notANumber => exact .inl rfl
    | infinity => exact .inl rfl
    | zero => exact .inr ⟨_, rfl⟩
    | finite => exact .inr ⟨_, rfl⟩

theorem isNothing_div (hu : IsNothing u) (v : UnpackedFloat) :
    IsNothing (UnpackedFloat.div spec u v) := by
  obtain rfl | ⟨s, rfl⟩ := hu
  · exact .inl rfl
  · cases v with
    | notANumber => exact .inl rfl
    | zero => exact .inl rfl
    | infinity => exact .inr ⟨_, rfl⟩
    | finite => exact .inr ⟨_, rfl⟩

theorem isUnsigned_ofScientific (m : Nat) (e : Int) :
    IsUnsigned (UnpackedFloat.ofScientific spec m e) := by
  unfold UnpackedFloat.ofScientific
  split
  · rfl
  · split
    · rfl
    · split
      · rfl
      · split
        · exact isUnsigned_mul rfl rfl
        · exact isUnsigned_div rfl rfl

structure Unsigned (x : Float) : Prop where
  unpack : IsUnsigned x.toModel.unpack

def Nothing (x : Float) : Prop :=
  IsNothing x.toModel.unpack

theorem Unsigned.add (hx : Unsigned x) (hy : Unsigned y) : Unsigned (x + y) :=
  ⟨isUnsigned_unpack_pack (isUnsigned_add hx.unpack hy.unpack)⟩

theorem Unsigned.mul (hx : Unsigned x) (hy : Unsigned y) : Unsigned (x * y) :=
  ⟨isUnsigned_unpack_pack (isUnsigned_mul hx.unpack hy.unpack)⟩

theorem Unsigned.div (hx : Unsigned x) (hy : Unsigned y) : Unsigned (x / y) :=
  ⟨isUnsigned_unpack_pack (isUnsigned_div hx.unpack hy.unpack)⟩

theorem Nothing.mul_left (hx : Nothing x) (y : Float) : Nothing (x * y) :=
  isNothing_unpack_pack (isNothing_mul_left hx _)

theorem Nothing.mul_right (x : Float) (hy : Nothing y) : Nothing (x * y) :=
  isNothing_unpack_pack (isNothing_mul_right _ hy)

theorem Nothing.div (hx : Nothing x) (y : Float) : Nothing (x / y) :=
  isNothing_unpack_pack (isNothing_div hx _)

theorem unsigned_ofNat (n : Nat) : Unsigned (Float.ofNat n) := by
  change Unsigned (Float.ofScientific n false 0)
  unfold Float.ofScientific
  split
  · have hWord : Unsigned n.toUInt64.toFloat :=
      ⟨isUnsigned_unpack_pack (isUnsigned_normalize (Int.natCast_nonneg _) _)⟩
    have hOne : Unsigned (Float.ofBits 0x3FF0000000000000) := ⟨rfl⟩
    exact hWord.mul hOne
  · exact ⟨isUnsigned_unpack_pack (isUnsigned_ofScientific ..)⟩

theorem unsigned_ofInt {n : Int} (h : 0 ≤ n) : Unsigned (Float.ofInt n) := by
  obtain ⟨k, rfl⟩ := Int.eq_ofNat_of_zero_le h
  exact unsigned_ofNat k

theorem Unsigned.wholePart_nonneg (h : Unsigned x) : 0 ≤ (wholePart x).toInt := by
  have hWhole : 0 ≤ x.toModel.unpack.toInt Int64.minValue.toInt Int64.maxValue.toInt := by
    have hx := h.unpack
    cases hUnpack : x.toModel.unpack with
    | notANumber => exact Int.le_refl 0
    | zero => exact Int.le_refl 0
    | infinity s =>
      rw [hUnpack] at hx
      cases hx
      decide
    | finite s =>
      rw [hUnpack] at hx
      cases hx
      exact Int.natCast_nonneg _
  change 0 ≤ (Int64.ofIntClamp _).toInt
  unfold Int64.ofIntClamp
  split
  · split
    · rwa [Int64.toInt_ofIntLE]
    · decide
  · rename_i hLow
    exact absurd (Int.le_trans (by decide) hWhole) hLow

theorem Nothing.wholePart_eq_zero (h : Nothing x) : wholePart x = 0 := by
  change Int64.ofIntClamp (x.toModel.unpack.toInt Int64.minValue.toInt Int64.maxValue.toInt) = 0
  obtain hx | ⟨s, hx⟩ := h
  · rw [hx]
    rfl
  · rw [hx]
    rfl

theorem unsigned_ofFixed (n : Nat) : Unsigned (ofFixed n) := by
  unfold ofFixed
  exact (unsigned_ofNat n).div (unsigned_ofNat _)

theorem unsigned_ln (n : Nat) : Unsigned (ln n) :=
  unsigned_ofFixed _

theorem unsigned_log10 (n : Nat) : Unsigned (log10 n) := by
  have hExponent := unsigned_ofNat n.log2
  have hMantissa := unsigned_ofFixed (lnMantissa n)
  unfold log10
  refine ((hExponent.mul ?_).add (Unsigned.mul ?_ hMantissa)).add (hExponent.mul ?_)
  · exact ⟨rfl⟩
  · exact ⟨rfl⟩
  · exact ⟨rfl⟩

end Decimal

namespace Settings

variable {s : Settings}

theorem unsigned_interestRate (h : 0 ≤ s.interestPct) (turn deposit : Int) :
    Decimal.Unsigned (s.interestRate turn deposit) := by
  unfold interestRate
  split
  · exact ⟨rfl⟩
  · exact ((Decimal.unsigned_ofInt h).mul (Decimal.unsigned_log10 _)).mul (Decimal.unsigned_ln _)

theorem interest_nonneg (h : 0 ≤ s.interestPct) {deposit : Int} (hDeposit : 0 ≤ deposit)
    (turn : Int) : 0 ≤ s.interest turn deposit := by
  have hRate := unsigned_interestRate h turn deposit
  have hHundred : Decimal.Unsigned 100.0 := ⟨rfl⟩
  exact (((Decimal.unsigned_ofInt hDeposit).mul hRate).div hHundred).wholePart_nonneg

theorem interest_eq_zero (h : s.interestPct = 0) (turn deposit : Int) :
    s.interest turn deposit = 0 := by
  have hRate : Decimal.Nothing (s.interestRate turn deposit) := by
    unfold interestRate
    split
    · exact .inr ⟨.positive, rfl⟩
    · have hPct : Decimal.Nothing (Float.ofInt s.interestPct) := by
        rw [h]
        exact .inr ⟨.positive, rfl⟩
      exact (hPct.mul_left _).mul_left _
  rw [interest, (hRate.mul_right _ |>.div _).wholePart_eq_zero]
  rfl

end Settings

end CityCrew
