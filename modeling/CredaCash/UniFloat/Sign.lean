import CredaCash.UniFloat.Bounds

/-! The signs of sums, products and differences of floats. -/

namespace CredaCash
open Rounding

namespace UniFloat

lemma signOf_nonneg {v : ℤ} (h : 0 ≤ v) : (0 : ℤ) ≤ signOf v := by
  unfold signOf
  split_ifs with hpos hneg
  · decide
  · omega
  · decide

lemma recompose_nonneg {x : UniFloatTuple} (h : (0 : ℤ) ≤ x.sign) : 0 ≤ (recompose x).val := by
  rw [recompose]
  exact Int.mul_nonneg h (Int.natCast_nonneg _)

lemma decompose_sign (v : UniFloat) (nbits : ℕ) (rounding : ℤ) :
    (decompose v nbits rounding).sign = signOf v.val := by
  by_cases hzero : v.val = 0
  · simp [decompose, hzero, signOf]
  · have hpos : v.val.natAbs ≠ 0 := Int.natAbs_ne_zero.2 hzero
    simp only [decompose, if_neg hpos]
    split_ifs <;> rfl

/-- A product of floats that are not negative is not negative. -/
theorem multiply_nonneg {a b : UniFloat} (ha : 0 ≤ a) (hb : 0 ≤ b) (rounding : ℤ) : 0 ≤ multiply a b rounding := by
  apply recompose_nonneg
  simp only [normalize, decompose_sign, SignType.coe_mul]
  exact Int.mul_nonneg (signOf_nonneg ha) (signOf_nonneg hb)

lemma addTuples_nonneg {v x : UniFloatTuple} (hv : (0 : ℤ) ≤ v.sign) (hx : (0 : ℤ) ≤ x.sign) (rounding : ℤ) :
    (0 : ℤ) ≤ (addTuples v x rounding).sign := by
  apply signOf_nonneg
  exact Int.add_nonneg (Int.mul_nonneg hv (Int.natCast_nonneg _)) (Int.mul_nonneg hx (Int.natCast_nonneg _))

/-- The tuple of a sum is that of one operand or of the aligned sum. -/
lemma add_eq_recompose (a b : UniFloat) (rounding : ℤ) : ∃ t, add a b rounding false = recompose t ∧
    (t = decompose a 62 0 ∨ t = decompose b 62 0 ∨ t = addTuples (decompose a 62 0) (decompose b 62 0) rounding) := by
  simp only [add, Bool.false_eq_true, if_false]
  refine ⟨_, rfl, ?_⟩
  split_ifs <;> simp

/-- A sum of floats that are not negative is not negative. -/
theorem add_nonneg {a b : UniFloat} (ha : 0 ≤ a) (hb : 0 ≤ b) (rounding : ℤ) : 0 ≤ add a b rounding false := by
  have hva : (0 : ℤ) ≤ (decompose a 62 0).sign := by
    rw [decompose_sign]
    exact signOf_nonneg ha
  have hvb : (0 : ℤ) ≤ (decompose b 62 0).sign := by
    rw [decompose_sign]
    exact signOf_nonneg hb
  obtain ⟨t, heq, ht⟩ := add_eq_recompose a b rounding
  rw [heq]
  apply recompose_nonneg
  rcases ht with rfl | rfl | rfl
  · exact hva
  · exact hvb
  · exact addTuples_nonneg hva hvb rounding

lemma halfUp_le_half {n k : ℕ} (hn : n < 2^62) (hk : 0 < k) : halfUp n k ≤ 2^61 := by
  rw [halfUp_le_iff]
  have hpow : 2^1 ≤ 2^k := Nat.pow_le_pow_right (by decide) hk
  calc 2 * n < 2 * 2^62 := by omega
    _ ≤ (2 * 2^61 + 1) * 2^1 := by decide
    _ ≤ (2 * 2^61 + 1) * 2^k := Nat.mul_le_mul_left _ hpow

/-- The mantissa of the larger of two floats is not less than the other one, shifted to its exponent. -/
lemma shift_mantissa_le {a b : UniFloat} (hb : 0 < b.val) (hab : b ≤ a) :
    shift (mantissa 62 b.val.natAbs) (bitLength a.val.natAbs - bitLength b.val.natAbs) 0 ≤ mantissa 62 a.val.natAbs := by
  have ha : 0 < a.val := lt_of_lt_of_le hb hab
  have hlen := bitLength_mono (natAbs_le hb hab)
  rw [shift_nearest]
  rcases Nat.eq_zero_or_pos (bitLength a.val.natAbs - bitLength b.val.natAbs) with hzero | hpos
  · rw [hzero, halfUp_zero]
    exact mantissa_le_of_length hb hab (by omega)
  · calc halfUp (mantissa 62 b.val.natAbs) _ ≤ 2^61 := halfUp_le_half (mantissa_lt 62 _) hpos
      _ ≤ mantissa 62 a.val.natAbs := le_mantissa (by norm_num : 0 < 62) (natAbs_pos_iff.2 ha.ne')

/-- Subtracting a smaller float leaves nothing negative. -/
theorem sub_nonneg {a b : UniFloat} (hb : 0 ≤ b) (hab : b ≤ a) : 0 ≤ add a (-b) 0 false := by
  rcases (le_iff.1 hb).eq_or_lt with hzero | hpos
  · have hb : b = 0 := UniFloat.ext hzero.symm
    have hneg : -b = 0 := by
      rw [hb]
      apply UniFloat.ext
      rfl
    rw [hneg, add_zero]
    exact hb ▸ hab
  · have ha : 0 < a.val := lt_of_lt_of_le hpos hab
    have hlen := bitLength_mono (natAbs_le hpos hab)
    have hneg : decompose (-b) 62 0 =
        ⟨mantissa 62 b.val.natAbs, (bitLength b.val.natAbs : ℤ) - 62 - 1074, -1⟩ := by
      have hlt : -b.val < 0 := by
        rw [val_zero] at hpos
        omega
      rw [decompose_exact (by rw [val_neg]; exact hlt.ne) (by norm_num), val_neg, Int.natAbs_neg]
      rw [signOf, if_neg (by omega), if_pos hlt]
      rfl
    have hA : 0 < mantissa 62 a.val.natAbs :=
      lt_of_lt_of_le (by decide) (le_mantissa (by norm_num : 0 < 62) (natAbs_pos_iff.2 ha.ne'))
    have hB : 0 < mantissa 62 b.val.natAbs :=
      lt_of_lt_of_le (by decide) (le_mantissa (by norm_num : 0 < 62) (natAbs_pos_iff.2 hpos.ne'))
    have hshift := shift_mantissa_le hpos hab
    have hdiff : ((bitLength a.val.natAbs : ℤ) - 62 - 1074) - ((bitLength b.val.natAbs : ℤ) - 62 - 1074) =
        (bitLength a.val.natAbs - bitLength b.val.natAbs : ℕ) := by omega
    have hsum : (0 : ℤ) ≤ (addTuples ⟨mantissa 62 a.val.natAbs, (bitLength a.val.natAbs : ℤ) - 62 - 1074, 1⟩
        ⟨mantissa 62 b.val.natAbs, (bitLength b.val.natAbs : ℤ) - 62 - 1074, -1⟩ 0).sign := by
      apply signOf_nonneg
      simp only [hdiff, Int.toNat_natCast]
      rw [if_neg (by omega), SignType.coe_one, SignType.coe_neg_one]
      split_ifs with hlt
      · omega
      · have hzero : bitLength a.val.natAbs - bitLength b.val.natAbs = 0 := by omega
        rw [hzero, shift_nearest, halfUp_zero] at hshift
        omega
    simp only [add, decompose_pos ha (by norm_num : 53 ≤ 62), hneg, Bool.false_eq_true, if_false, Nat.cast_ofNat]
    apply recompose_nonneg
    have hboth : mantissa 62 a.val.natAbs ≠ 0 ∧ mantissa 62 b.val.natAbs ≠ 0 := ⟨hA.ne', hB.ne'⟩
    simp only [if_pos hboth, hdiff]
    -- the larger operand is first, so the second one alone is never the result
    split_ifs with hfirst hsecond
    · change (0 : ℤ) ≤ (1 : SignType)
      decide
    · rcases hsecond with hsecond | hsecond
      · exact absurd hsecond hA.ne'
      · omega
    · exact hsum

end UniFloat
end CredaCash
