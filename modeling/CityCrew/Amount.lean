/-!
# Amounts

Amounts of money are integers up to `maxAmount`. A sum that would be greater counts as
`maxAmount`. A few sums are worked out in plain 64-bit words instead. They are checked: the program
stops at a sum that is no word.
-/

namespace CityCrew

def maxAmount : Int := 9223372036854775807

def capped (n : Int) : Int :=
  min maxAmount n

def IsWord (n : Int) : Prop :=
  -maxAmount - 1 ≤ n ∧ n ≤ maxAmount

instance (n : Int) : Decidable (IsWord n) :=
  inferInstanceAs (Decidable (_ ∧ _))

def word? (n : Int) : Option Int :=
  if IsWord n then some n else none

theorem word?_of_isWord {n : Int} (h : IsWord n) : word? n = some n :=
  if_pos h

theorem word?_of_not_isWord {n : Int} (h : ¬ IsWord n) : word? n = none :=
  if_neg h

theorem isWord_toInt (a : Int64) : IsWord a.toInt := by
  have hLow := a.le_toInt
  have hHigh := a.toInt_lt
  unfold IsWord maxAmount
  omega

theorem toInt_ofInt_iff {n : Int} : (Int64.ofInt n).toInt = n ↔ IsWord n := by
  constructor
  · intro h
    rw [← h]
    exact isWord_toInt _
  · rintro ⟨hLow, hHigh⟩
    unfold maxAmount at hLow hHigh
    exact Int64.toInt_ofInt_of_le (by omega) (by omega)

theorem capped_le (n : Int) : capped n ≤ n := by
  unfold capped
  omega

theorem capped_le_maxAmount (n : Int) : capped n ≤ maxAmount := by
  unfold capped
  omega

theorem capped_eq_self {n : Int} (h : n ≤ maxAmount) : capped n = n := by
  unfold capped
  omega

end CityCrew
