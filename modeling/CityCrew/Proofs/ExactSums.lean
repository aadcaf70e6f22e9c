import CityCrew.Proofs.Signs

/-!
# Exact sums

Sums and products of natural numbers with at most 53 bits are exact. Where no sum of some numbers is
rounded, all ways to add them up agree.
-/

namespace CityCrew

open Float.Model Float.Model.UnpackedFloat

namespace Decimal

/-- The form in which a natural number with at most 53 bits is held. -/
def unpackedNat (n : Nat) : UnpackedFloat :=
  if h : 0 < n then
    .finite .positive (n * 2 ^ (52 - n.log2)) (n.log2 - 52) (Nat.mul_pos h (Nat.two_pow_pos _))
  else .zero .positive

variable {a b n k : Nat}

theorem unpackedNat_of_pos (h : 0 < n) :
    unpackedNat n =
      .finite .positive (n * 2 ^ (52 - n.log2)) (n.log2 - 52) (Nat.mul_pos h (Nat.two_pow_pos _)) :=
  dif_pos h

theorem log2_mul_two_pow (h : 0 < n) (k : Nat) : (n * 2 ^ k).log2 = n.log2 + k := by
  have hPos : n * 2 ^ k ≠ 0 := (Nat.mul_pos h (Nat.two_pow_pos k)).ne'
  obtain ⟨hLow, hHigh⟩ := (Nat.log2_eq_iff h.ne').mp rfl
  rw [Nat.log2_eq_iff hPos, Nat.pow_add, Nat.add_right_comm, Nat.pow_add]
  exact ⟨Nat.mul_le_mul_right _ hLow, Nat.mul_lt_mul_of_pos_right hHigh (Nat.two_pow_pos k)⟩

theorem log2_le (h : n < 2 ^ 53) : n.log2 ≤ 52 := by
  obtain rfl | hPos := n.eq_zero_or_pos
  · decide
  · exact Nat.le_of_lt_succ ((Nat.log2_lt hPos.ne').mpr h)

theorem shiftRight_exact (m j : Nat) :
    ExtendedMantissa.mk (m * 2 ^ j) false false >>> j = ⟨m, false, false⟩ := by
  change j.repeat ExtendedMantissa.shiftRightOne _ = _
  induction j generalizing m with
  | zero => simp [Nat.repeat]
  | succ j ih =>
    rw [Nat.repeat, Nat.pow_succ', ← Nat.mul_assoc, ih]
    simp [ExtendedMantissa.shiftRightOne]

theorem targetExponent_nat (h : 0 < n) (k : Nat) :
    Format.binary64.targetExponent (totalExponent (n * 2 ^ k) (-k)) = n.log2 - 52 := by
  unfold Format.targetExponent totalExponent Format.minExponent Format.mantissaBits
  rw [log2_mul_two_pow h]
  simp only
  omega

/-- Where the target exponent cuts off zeros only, nothing is lost. -/
theorem shiftToTargetExponent_nat (h : 0 < n) (hn : n.log2 ≤ 52) (j : Nat) :
    shiftToTargetExponent .binary64 (n * 2 ^ (52 - n.log2 + j)) (-(52 - n.log2 + j : Nat)) .exact =
      (⟨n * 2 ^ (52 - n.log2), false, false⟩, (n.log2 : Int) - 52) := by
  have hShift : ((n.log2 : Int) - 52 - -((52 - n.log2 + j : Nat) : Int)).toNat = j := by omega
  unfold shiftToTargetExponent shiftToExponent
  simp only [targetExponent_nat h, hShift, ExtendedMantissa.ofMantissaAndAccuracy]
  rw [Nat.pow_add, ← Nat.mul_assoc, shiftRight_exact]
  congr 1
  omega

theorem roundWithAccuracy_nat (h : 0 < n) (hn : n.log2 ≤ 52) (hk : 52 - n.log2 ≤ k) :
    roundWithAccuracy .binary64 .positive (n * 2 ^ k) (-k) .exact = unpackedNat n := by
  obtain ⟨j, rfl⟩ := Nat.exists_eq_add_of_le hk
  -- The second shift is for a mantissa that rounding has made longer. Here it does nothing.
  have hAgain := shiftToTargetExponent_nat h hn 0
  have hExponent : -((52 - n.log2 + 0 : Nat) : Int) = n.log2 - 52 := by omega
  rw [hExponent, Nat.add_zero] at hAgain
  have hRounded : (ExtendedMantissa.mk (n * 2 ^ (52 - n.log2)) false false).roundedMantissa =
      n * 2 ^ (52 - n.log2) := rfl
  have hPos : n * 2 ^ (52 - n.log2) ≠ 0 := (Nat.mul_pos h (Nat.two_pow_pos _)).ne'
  unfold roundWithAccuracy
  simp only [shiftToTargetExponent_nat h hn, hRounded, hAgain, hPos, unpackedNat_of_pos h,
    dite_false]

theorem round_nat (h : 0 < n) (hn : n.log2 ≤ 52) (k : Nat) :
    UnpackedFloat.round .binary64 .positive (n * 2 ^ k) (-k) = unpackedNat n := by
  unfold UnpackedFloat.round decreaseExponent
  simp only [targetExponent_nat h, Nat.shiftLeft_eq]
  have hExponent : -(k : Int) - ((-(k : Int) - (n.log2 - 52)).toNat : Int) =
      -((k + (-(k : Int) - (n.log2 - 52)).toNat : Nat) : Int) := by omega
  rw [Nat.mul_assoc, ← Nat.pow_add, hExponent]
  apply roundWithAccuracy_nat h hn
  omega

theorem normalize_nat (hn : n.log2 ≤ 52) (k : Nat) :
    UnpackedFloat.normalize .binary64 ((n * 2 ^ k : Nat) : Int) (-k) .positive = unpackedNat n := by
  obtain rfl | h := n.eq_zero_or_pos
  · simp [UnpackedFloat.normalize, unpackedNat]
  · have hPos : (0 : Int) < (n * 2 ^ k : Nat) := by exact_mod_cast Nat.mul_pos h (Nat.two_pow_pos k)
    have hCompare : compare ((n * 2 ^ k : Nat) : Int) 0 = .gt := Int.compare_eq_gt.mpr hPos
    unfold UnpackedFloat.normalize
    rw [hCompare, Int.toNat_natCast, round_nat h hn]

theorem log2_add_le_log2_mul (ha : 0 < a) (hb : 0 < b) : a.log2 + b.log2 ≤ (a * b).log2 := by
  rw [Nat.le_log2 (Nat.mul_pos ha hb).ne', Nat.pow_add]
  exact Nat.mul_le_mul (Nat.log2_self_le ha.ne') (Nat.log2_self_le hb.ne')

theorem mul_unpackedNat (hab : a * b < 2 ^ 53) :
    UnpackedFloat.mul .binary64 (unpackedNat a) (unpackedNat b) = unpackedNat (a * b) := by
  obtain rfl | ha := a.eq_zero_or_pos
  · rw [Nat.zero_mul]
    by_cases hb : 0 < b <;> simp [unpackedNat, UnpackedFloat.mul, hb] <;> rfl
  obtain rfl | hb := b.eq_zero_or_pos
  · simp [unpackedNat, UnpackedFloat.mul, ha]
    rfl
  have hProduct := log2_add_le_log2_mul ha hb
  have hLog := log2_le hab
  rw [unpackedNat_of_pos ha, unpackedNat_of_pos hb]
  have hMantissa : a * 2 ^ (52 - a.log2) * (b * 2 ^ (52 - b.log2)) =
      a * b * 2 ^ (52 - a.log2 + (52 - b.log2)) := by
    rw [Nat.pow_add, Nat.mul_mul_mul_comm]
  have hExponent : (a.log2 : Int) - 52 + (b.log2 - 52) =
      -((52 - a.log2 + (52 - b.log2) : Nat) : Int) := by omega
  unfold UnpackedFloat.mul
  simp only [hMantissa, hExponent]
  exact roundWithAccuracy_nat (Nat.mul_pos ha hb) hLog (by omega)

theorem decreaseExponent_nat {e : Int} (ha : a.log2 ≤ 52) (he : e ≤ a.log2 - 52) :
    (decreaseExponent (a * 2 ^ (52 - a.log2)) (a.log2 - 52) e).1 = a * 2 ^ (-e).toNat := by
  simp only [decreaseExponent, Nat.shiftLeft_eq]
  rw [Nat.mul_assoc, ← Nat.pow_add]
  congr 2
  omega

theorem add_unpackedNat (hab : a + b < 2 ^ 53) :
    UnpackedFloat.add .binary64 (unpackedNat a) (unpackedNat b) = unpackedNat (a + b) := by
  obtain rfl | ha := a.eq_zero_or_pos
  · rw [Nat.zero_add]
    by_cases hb : 0 < b <;> simp [unpackedNat, UnpackedFloat.add, hb]
  obtain rfl | hb := b.eq_zero_or_pos
  · simp [unpackedNat, UnpackedFloat.add, ha]
  have hA := log2_le ((Nat.le_add_right a b).trans_lt hab)
  have hB := log2_le ((Nat.le_add_left b a).trans_lt hab)
  rw [unpackedNat_of_pos ha, unpackedNat_of_pos hb]
  unfold UnpackedFloat.add
  simp only [decreaseExponent_nat hA (Int.min_le_left _ _),
    decreaseExponent_nat hB (Int.min_le_right _ _), Sign.apply]
  obtain ⟨k, hk⟩ : ∃ k : Nat, min ((a.log2 : Int) - 52) (b.log2 - 52) = -k :=
    ⟨(-min ((a.log2 : Int) - 52) (b.log2 - 52)).toNat, by omega⟩
  rw [hk, Int.neg_neg, Int.toNat_natCast, ← Int.natCast_add, ← Nat.add_mul]
  exact normalize_nat (log2_le hab) k

theorem log2_mantissa (h : 0 < n) (hn : n.log2 ≤ 52) : (n * 2 ^ (52 - n.log2)).log2 = 52 := by
  rw [log2_mul_two_pow h]
  omega

theorem pack_unpackedNat (h : 0 < n) (hn : n.log2 ≤ 52) :
    UnpackedFloat.pack .binary64 (unpackedNat n) =
      packComponents .binary64 .positive (BitVec.ofNat 11 (n.log2 + 1023))
        (BitVec.ofNat 52 (n * 2 ^ (52 - n.log2))) := by
  have hExponent : ((n.log2 : Int) - 52 + Format.binary64.exponentBias +
      Format.binary64.mantissaBitsWithoutImplicit).toNat = n.log2 + 1023 := by
    simp only [Format.exponentBias]
    omega
  rw [unpackedNat_of_pos h]
  simp only [UnpackedFloat.pack, hExponent, log2_mantissa h hn]
  rw [if_neg (by omega)]
  exact if_pos rfl

/-- The leading bit of a mantissa of full length need not be kept. -/
theorem toNat_append_implicit {m : Nat} (hLow : 2 ^ 52 ≤ m) (hHigh : m < 2 ^ 53) :
    (1#1 ++ BitVec.ofNat 52 m).toNat = m := by
  rw [BitVec.toNat_append, BitVec.toNat_ofNat, BitVec.toNat_ofNat,
    ← Nat.shiftLeft_add_eq_or_of_lt (Nat.mod_lt _ (Nat.two_pow_pos 52)), Nat.shiftLeft_eq]
  omega

theorem unpack_pack_unpackedNat (hn : n < 2 ^ 53) :
    (Float.Model.pack (unpackedNat n)).unpack = unpackedNat n := by
  obtain rfl | h := n.eq_zero_or_pos
  · rfl
  have hLog := log2_le hn
  obtain ⟨hLow, hHigh⟩ :=
    (Nat.log2_eq_iff (Nat.mul_pos h (Nat.two_pow_pos _)).ne').mp (log2_mantissa h hLog)
  have hExponent : (BitVec.ofNat 11 (n.log2 + 1023)).toNat = n.log2 + 1023 := by
    rw [BitVec.toNat_ofNat]
    exact Nat.mod_eq_of_lt (by omega)
  have hNotZero : BitVec.ofNat 11 (n.log2 + 1023) ≠ 0#11 := by
    intro hZero
    rw [hZero, BitVec.toNat_ofNat] at hExponent
    omega
  have hNotTop : BitVec.ofNat 11 (n.log2 + 1023) ≠ -1#11 := by
    intro hTop
    rw [hTop] at hExponent
    have hMax : (-1#11).toNat = 2047 := rfl
    omega
  change UnpackedFloat.unpack .binary64 (UnpackedFloat.pack .binary64 (unpackedNat n)) = _
  rw [pack_unpackedNat h hLog, unpackedNat_of_pos h]
  unfold UnpackedFloat.unpack
  simp only [unpackMantissa_packComponents, unpackExponent_packComponents,
    unpackSign_packComponents, hNotTop, hNotZero, if_false, hExponent,
    toNat_append_implicit hLow hHigh]
  simp only [Format.exponentBias, UnpackedFloat.finite.injEq]
  refine ⟨rfl, trivial, ?_⟩
  omega

theorem toModel_ofNat (hn : n < 2 ^ 53) :
    (Float.ofNat n).toModel = Float.Model.pack (unpackedNat n) := by
  have hWord : n.toUInt64.toFloat.toModel = Float.Model.pack (unpackedNat n) := by
    change Float.Model.pack (UnpackedFloat.normalize .binary64 n.toUInt64.toNat 0 .positive) = _
    have hNat : n.toUInt64.toNat = n * 2 ^ 0 := by
      rw [Nat.pow_zero, Nat.mul_one]
      exact UInt64.toNat_ofNat_of_lt' (hn.trans (by decide))
    rw [hNat]
    exact congrArg _ (normalize_nat (log2_le hn) 0)
  have hOne : (Float.exactlyRepresentablePowersOfTen[0]).toModel.unpack = unpackedNat 1 := by
    rfl
  change (Float.ofScientific n false 0).toModel = _
  unfold Float.ofScientific
  rw [dif_pos ⟨hn, by omega⟩]
  change Float.Model.pack (UnpackedFloat.mul _ _ _) = _
  rw [hWord, unpack_pack_unpackedNat hn, hOne, mul_unpackedNat, Nat.mul_one]
  omega

theorem unpack_ofNat (hn : n < 2 ^ 53) : (Float.ofNat n).toModel.unpack = unpackedNat n := by
  rw [toModel_ofNat hn, unpack_pack_unpackedNat hn]

theorem ofNat_add (hab : a + b < 2 ^ 53) : Float.ofNat a + Float.ofNat b = Float.ofNat (a + b) := by
  have hSum := toModel_ofNat hab
  rw [← add_unpackedNat hab, ← unpack_ofNat ((Nat.le_add_right a b).trans_lt hab),
    ← unpack_ofNat ((Nat.le_add_left b a).trans_lt hab)] at hSum
  exact congrArg Float.ofModel hSum.symm

theorem ofNat_mul (ha : a < 2 ^ 53) (hb : b < 2 ^ 53) (hab : a * b < 2 ^ 53) :
    Float.ofNat a * Float.ofNat b = Float.ofNat (a * b) := by
  have hProduct := toModel_ofNat hab
  rw [← mul_unpackedNat hab, ← unpack_ofNat ha, ← unpack_ofNat hb] at hProduct
  exact congrArg Float.ofModel hProduct.symm

end Decimal

/-- The value is a sum of the entries in their order, with any brackets. -/
inductive IsSum {A : Type} [Zero A] [Add A] : List A → A → Prop
  | zero : IsSum [] 0
  | single (x : A) : IsSum [x] x
  | add {xs ys : List A} {x y : A} : IsSum xs x → IsSum ys y → IsSum (xs ++ ys) (x + y)

theorem IsSum.eq_sum {A : Type} [AddCommMonoid A] {xs : List A} {x : A} (h : IsSum xs x) :
    x = xs.sum := by
  induction h with
  | zero => rfl
  | single x => exact (List.sum_singleton).symm
  | add _ _ ihLeft ihRight => rw [ihLeft, ihRight, List.sum_append]

namespace Decimal

/-- No sum of some of the numbers with that of others is rounded. -/
def AddExactly (ns : List Int) : Prop :=
  ∀ left right : List Int, (left ++ right).Subperm ns →
    Float.ofInt left.sum + Float.ofInt right.sum = Float.ofInt (left.sum + right.sum)

theorem AddExactly.subperm {ms ns : List Int} (h : AddExactly ns) (hSub : ms.Subperm ns) :
    AddExactly ms :=
  fun left right hBoth => h left right (hBoth.trans hSub)

/-- The entries are whole numbers, and none of their sums is rounded. -/
def ExactSums (xs : List Float) : Prop :=
  ∃ ns : List Int, xs = ns.map Float.ofInt ∧ AddExactly ns

theorem eq_ofInt_sum {xs : List Float} {x : Float} (h : IsSum xs x) {ns : List Int}
    (hMap : xs = ns.map Float.ofInt) (hExact : AddExactly ns) : x = Float.ofInt ns.sum := by
  induction h generalizing ns with
  | zero =>
    obtain rfl := List.map_eq_nil_iff.mp hMap.symm
    rfl
  | single x =>
    obtain ⟨n, rfl, rfl⟩ := List.map_eq_singleton_iff.mp hMap.symm
    rw [List.sum_singleton]
  | add _ _ ihLeft ihRight =>
    obtain ⟨left, right, rfl, hLeft, hRight⟩ := List.map_eq_append_iff.mp hMap.symm
    rw [ihLeft hLeft.symm (hExact.subperm (List.sublist_append_left left right).subperm),
      ihRight hRight.symm (hExact.subperm (List.sublist_append_right left right).subperm),
      List.sum_append]
    exact hExact left right (List.Subperm.refl _)

/-- Where sums are exact, neither order nor brackets make a difference. -/
theorem ExactSums.eq_of_perm {xs ys : List Float} {x y : Float} (h : ExactSums xs)
    (hPerm : ys.Perm xs) (hx : IsSum xs x) (hy : IsSum ys y) : y = x := by
  obtain ⟨ns, rfl, hExact⟩ := h
  obtain ⟨ms, rfl, hNumbers⟩ := (congrFun₂ (List.eq_map_comp_perm Float.ofInt) ys ns).mpr hPerm
  rw [eq_ofInt_sum hx rfl hExact, eq_ofInt_sum hy rfl (hExact.subperm hNumbers.subperm),
    hNumbers.sum_eq]

theorem addExactly_of_sum_lt {ns : List Int} (hNonneg : ∀ n ∈ ns, 0 ≤ n) (h : ns.sum < 2 ^ 53) :
    AddExactly ns := by
  intro left right hSub
  have hLeft : 0 ≤ left.sum :=
    List.sum_nonneg fun n hn => hNonneg n (hSub.subset (List.mem_append_left right hn))
  have hRight : 0 ≤ right.sum :=
    List.sum_nonneg fun n hn => hNonneg n (hSub.subset (List.mem_append_right left hn))
  have hLess : left.sum + right.sum ≤ ns.sum := by
    obtain ⟨part, hPart, hBelow⟩ := hSub
    rw [← List.sum_append, ← hPart.sum_eq]
    exact hBelow.sum_le_sum hNonneg
  obtain ⟨a, ha⟩ := Int.eq_ofNat_of_zero_le hLeft
  obtain ⟨b, hb⟩ := Int.eq_ofNat_of_zero_le hRight
  rw [ha, hb]
  exact ofNat_add (by omega)

/-- Sums without a minus sign are exact as long as they have at most 53 bits. -/
theorem exactSums_of_sum_lt {ns : List Int} (hNonneg : ∀ n ∈ ns, 0 ≤ n) (h : ns.sum < 2 ^ 53) :
    ExactSums (ns.map Float.ofInt) :=
  ⟨ns, rfl, addExactly_of_sum_lt hNonneg h⟩

theorem exactSums_nil : ExactSums [] :=
  ⟨[], rfl, addExactly_of_sum_lt (by decide) (by decide)⟩

theorem ofInt_mul_self {n : Int} (h : 0 ≤ n) (hSquare : n * n < 2 ^ 53) :
    Float.ofInt n * Float.ofInt n = Float.ofInt (n * n) := by
  obtain ⟨k, rfl⟩ := Int.eq_ofNat_of_zero_le h
  have hSquare' : k * k < 2 ^ 53 := by exact_mod_cast hSquare
  have hSelf : k < 2 ^ 53 := (Nat.le_mul_self k).trans_lt hSquare'
  exact ofNat_mul hSelf hSelf hSquare'

theorem exactSums_squares_of_sum_lt {ns : List Int} (hNonneg : ∀ n ∈ ns, 0 ≤ n)
    (h : (ns.map fun n => n * n).sum < 2 ^ 53) :
    ExactSums (ns.map fun n => Float.ofInt n * Float.ofInt n) := by
  have hSquares : ∀ m ∈ ns.map fun n => n * n, 0 ≤ m := by
    intro m hm
    obtain ⟨n, _, rfl⟩ := List.mem_map.mp hm
    exact mul_self_nonneg n
  have hMap : (ns.map fun n => Float.ofInt n * Float.ofInt n) =
      (ns.map fun n => n * n).map Float.ofInt := by
    rw [List.map_map]
    refine List.map_congr_left fun n hn => ofInt_mul_self (hNonneg n hn) ?_
    have hSelf := List.single_le_sum hSquares (n * n) (List.mem_map_of_mem hn)
    omega
  rw [hMap]
  exact exactSums_of_sum_lt hSquares h

end Decimal
end CityCrew
