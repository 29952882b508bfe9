import Mathlib.Data.Int.Order.Basic

namespace FixedWidth

-- Arithmetic of machine words, with the results that are exact.

-- `u32::saturating_sub`
def saturatingSub (left right : UInt32) : UInt32 := if left < right then 0 else left - right

-- `<<`, which is an error where the places are as many as the bits of the word
def checkedShl (value : Int64) (places : UInt32) : Option Int64 :=
  if places < 64 then some (value <<< Int64.ofNat places.toNat) else none

-- `i64::saturating_mul`
def saturatingMul (left right : Int64) : Int64 :=
  if left.toBitVec.smulOverflow right.toBitVec then
    if left < 0 ↔ right < 0 then Int64.maxValue else Int64.minValue
  else left * right

def clampInt64 (value : Int) : Int := max (-9223372036854775808) (min value 9223372036854775807)

theorem toNat_saturatingSub (left right : UInt32) :
    (saturatingSub left right).toNat = left.toNat - right.toNat := by
  unfold saturatingSub
  split
  · next less =>
    have numbers := UInt32.lt_iff_toNat_lt.mp less
    exact (Nat.sub_eq_zero_of_le (Nat.le_of_lt numbers)).symm
  · next more =>
    have numbers : right.toNat ≤ left.toNat := UInt32.le_iff_toNat_le.mp (UInt32.not_lt.mp more)
    exact UInt32.toNat_sub_of_le _ _ (UInt32.le_iff_toNat_le.mpr numbers)

theorem toNat_min (left right : UInt32) : (min left right).toNat = min left.toNat right.toNat := by
  rw [show min left right = if left ≤ right then left else right from rfl,apply_ite UInt32.toNat,Nat.min_def]
  simp only [UInt32.le_iff_toNat_le]

theorem toInt_min (left right : Int64) : (min left right).toInt = min left.toInt right.toInt := by
  rw [show min left right = if left ≤ right then left else right from rfl,apply_ite Int64.toInt,Int.min_def]
  simp only [Int64.le_iff_toInt_le]

theorem toInt_max (left right : Int64) : (max left right).toInt = max left.toInt right.toInt := by
  rw [show max left right = if left ≤ right then right else left from rfl,apply_ite Int64.toInt,Int.max_def]
  simp only [Int64.le_iff_toInt_le]

-- A product that fits the word is exact, and one that does not is the end of the range on its side.
theorem toInt_saturatingMul (left right : Int64) :
    (saturatingMul left right).toInt = clampInt64 (left.toInt * right.toInt) := by
  unfold saturatingMul clampInt64
  split
  · next overflows =>
    have beyond : 2 ^ 63 ≤ left.toInt * right.toInt ∨ left.toInt * right.toInt < -2 ^ 63 := by
      simpa [BitVec.smulOverflow] using overflows
    split
    · next alike =>
      have side : 0 ≤ left.toInt * right.toInt := by
        simp only [Int64.lt_iff_toInt_lt,Int64.toInt_zero] at alike
        rcases lt_or_ge left.toInt 0 with low | high
        · exact Int.mul_nonneg_of_nonpos_of_nonpos (Int.le_of_lt low) (Int.le_of_lt (alike.mp low))
        · exact Int.mul_nonneg high (Int.not_lt.mp fun low => absurd (alike.mpr low) (Int.not_lt.mpr high))
      rw [Int64.toInt_maxValue]
      omega
    · next different =>
      have side : left.toInt * right.toInt ≤ 0 := by
        simp only [Int64.lt_iff_toInt_lt,Int64.toInt_zero] at different
        rcases lt_or_ge left.toInt 0 with low | high
        · have other : 0 ≤ right.toInt := Int.not_lt.mp fun low' => different (iff_of_true low low')
          exact Int.mul_nonpos_of_nonpos_of_nonneg (Int.le_of_lt low) other
        · have other : right.toInt < 0 := Int.not_le.mp fun high' =>
            different (iff_of_false (Int.not_lt.mpr high) (Int.not_lt.mpr high'))
          exact Int.mul_nonpos_of_nonneg_of_nonpos high (Int.le_of_lt other)
      rw [Int64.toInt_minValue]
      omega
  · next fits =>
    have within : ¬ (2 ^ 63 ≤ left.toInt * right.toInt ∨ left.toInt * right.toInt < -2 ^ 63) := by
      simpa [BitVec.smulOverflow] using fits
    have exactly : (left * right).toInt = left.toInt * right.toInt :=
      BitVec.toInt_mul_of_not_smulOverflow fits
    omega

-- Division that truncates, by the sign of the number.
theorem tdiv_cases (number base : Int) : (0 ≤ number ∧ number.tdiv base = number / base) ∨
    (number < 0 ∧ number.tdiv base = -(-number / base)) := by
  rcases lt_or_ge number 0 with low | high
  · refine .inr ⟨low,?_⟩
    rw [← Int.tdiv_eq_ediv_of_nonneg (by omega),Int.neg_tdiv,Int.neg_neg]
  · exact .inl ⟨high,Int.tdiv_eq_ediv_of_nonneg high⟩

end FixedWidth
