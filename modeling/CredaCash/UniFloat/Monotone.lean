import CredaCash.UniFloat.Sign

/-! Products by a factor of at most one and sums with a positive float, compared with their operands. -/

namespace CredaCash
open Rounding

namespace UniFloat

/-- An exact value `y * 2^u` is compared with `n` once both are scaled by a common power of two. -/
lemma scaled_le_iff {y n s t : ℕ} {u : ℤ} (h : u = (s : ℤ) - t) :
    y * 2^u.toNat ≤ n * 2^(-u).toNat ↔ y * 2^s ≤ n * 2^t := by
  have hexp : u.toNat + t = s + (-u).toNat := by omega
  calc y * 2^u.toNat ≤ n * 2^(-u).toNat ↔ y * 2^u.toNat * 2^t ≤ n * 2^(-u).toNat * 2^t :=
        (Nat.mul_le_mul_right_iff (by positivity)).symm
    _ ↔ y * 2^s * 2^(-u).toNat ≤ n * 2^t * 2^(-u).toNat := by
        rw [mul_assoc, ← pow_add, hexp, pow_add, ← mul_assoc, mul_right_comm n]
    _ ↔ y * 2^s ≤ n * 2^t := Nat.mul_le_mul_right_iff (by positivity)

lemma le_scaled_iff {y n s t : ℕ} {u : ℤ} (h : u = (s : ℤ) - t) :
    n * 2^(-u).toNat ≤ y * 2^u.toNat ↔ n * 2^t ≤ y * 2^s := by
  have hneg : -u = (t : ℤ) - s := by omega
  have hiff := scaled_le_iff (y := n) (n := y) hneg
  rwa [neg_neg] at hiff

lemma multiply_pos_val {a b : UniFloat} (ha : 0 < a.val) (hb : 0 < b.val) :
    (multiply a b 0).val = store (mantissa 63 a.val.natAbs * mantissa 63 b.val.natAbs)
      ((bitLength a.val.natAbs + bitLength b.val.natAbs : ℕ) - (1200 : ℕ)) := by
  simp only [multiply, decompose_pos ha (by norm_num : 53 ≤ 63), decompose_pos hb (by norm_num : 53 ≤ 63)]
  rw [mul_one, recompose_normalize_val]
  congr 2
  omega

/-- A factor of at most one does not raise a float. -/
theorem multiply_le_right {a b : UniFloat} (ha : 0 < a.val) (hone : a ≤ 1) (hb : IsRateFloat b) :
    multiply a b 0 ≤ b := by
  have hnat : a.val.natAbs ≤ 2^1074 := by
    have h := le_iff.1 hone
    rw [val_one] at h
    omega
  have hexact : mantissa 63 a.val.natAbs * mantissa 63 b.val.natAbs *
      2^(bitLength a.val.natAbs + bitLength b.val.natAbs) ≤ b.val.natAbs * 2^1200 := by
    calc _ = (mantissa 63 a.val.natAbs * 2^bitLength a.val.natAbs) *
          (mantissa 63 b.val.natAbs * 2^bitLength b.val.natAbs) := by
          rw [pow_add]
          ring
      _ = a.val.natAbs * (b.val.natAbs * 2^126) := by
          rw [mantissa_mul a.isDouble (by norm_num), mantissa_mul b.isDouble (by norm_num)]
          ring
      _ ≤ 2^1074 * (b.val.natAbs * 2^126) := Nat.mul_le_mul_right _ hnat
      _ = b.val.natAbs * 2^1200 := by
          rw [mul_left_comm, ← pow_add]
  have hstore := (store_le_iff hb.rate).2 (belowMidpoint_of_le ((scaled_le_iff rfl).2 hexact))
  rw [le_iff, multiply_pos_val ha hb.pos]
  have hpos := hb.pos
  omega

/-- The sum of two positive floats of which neither vanishes beside the other. -/
lemma add_pos_val {a b : UniFloat} (ha : 0 < a.val) (hb : 0 < b.val)
    (hle : bitLength b.val.natAbs ≤ bitLength a.val.natAbs)
    (hnear : bitLength a.val.natAbs < bitLength b.val.natAbs + 62) :
    (add a b 0 false).val = store (mantissa 62 a.val.natAbs +
      halfUp (mantissa 62 b.val.natAbs) (bitLength a.val.natAbs - bitLength b.val.natAbs))
      ((bitLength a.val.natAbs : ℕ) - (62 : ℕ)) := by
  have hma := mantissa_pos ha (by norm_num : 0 < 62)
  have hmb := mantissa_pos hb (by norm_num : 0 < 62)
  simp only [add, decompose_pos ha (by norm_num : 53 ≤ 62), decompose_pos hb (by norm_num : 53 ≤ 62), ne_eq,
    hma.ne', hmb.ne', not_false_eq_true, and_self, if_true, false_or, Bool.false_eq_true, if_false]
  rw [if_neg (by omega), if_neg (by omega), addTuples_pos _ _ hma (by omega), recompose_normalize_val]
  have hdiff : ((bitLength a.val.natAbs : ℤ) - (62 : ℕ) - 1074 - ((bitLength b.val.natAbs : ℤ) - (62 : ℕ) - 1074)).toNat =
      bitLength a.val.natAbs - bitLength b.val.natAbs := by omega
  rw [hdiff]
  congr 2
  omega

lemma add_comm_of_pos {a b : UniFloat} (ha : 0 < a.val) (hb : 0 < b.val) : add a b 0 false = add b a 0 false := by
  have hma := mantissa_pos ha (by norm_num : 0 < 62)
  have hmb := mantissa_pos hb (by norm_num : 0 < 62)
  simp only [add, decompose_pos ha (by norm_num : 53 ≤ 62), decompose_pos hb (by norm_num : 53 ≤ 62), if_true, ne_eq,
    hma.ne', hmb.ne', not_false_eq_true, and_self, false_or, neg_sub, Bool.false_eq_true, if_false]
  rw [addTuples_comm]
  split_ifs <;> first | omega | rfl

/-- A float that vanishes beside another one leaves it as it is. -/
lemma add_of_far {a b : UniFloat} (ha : 0 < a.val) (hb : 0 < b.val)
    (hfar : bitLength b.val.natAbs + 62 ≤ bitLength a.val.natAbs) : add a b 0 false = a := by
  have hma := mantissa_pos ha (by norm_num : 0 < 62)
  have hmb := mantissa_pos hb (by norm_num : 0 < 62)
  rw [← recompose_decompose a]
  conv_lhs => rw [recompose_decompose]
  simp only [add, decompose_pos ha (by norm_num : 53 ≤ 62), decompose_pos hb (by norm_num : 53 ≤ 62), ne_eq,
    hma.ne', hmb.ne', not_false_eq_true, and_self, if_true, false_or, Bool.false_eq_true, if_false]
  rw [if_pos (by omega)]

/-- A shorter float is the smaller one. -/
lemma le_of_bitLength_lt {a b : UniFloat} (ha : 0 < a.val) (hb : 0 < b.val)
    (h : bitLength b.val.natAbs < bitLength a.val.natAbs) : b ≤ a := by
  have hlow := pow_le_of_bitLength_pos (natAbs_pos_iff.2 ha.ne')
  have hhigh := lt_pow_bitLength b.val.natAbs
  have hpow : 2^bitLength b.val.natAbs ≤ 2^(bitLength a.val.natAbs - 1) :=
    Nat.pow_le_pow_right (by decide) (by omega)
  rw [le_iff]
  omega

/-- The sum of two positive floats is not below one that is a rate. -/
theorem le_add_right {a b : UniFloat} (ha : 0 < a.val) (hb : IsRateFloat b) : b ≤ add a b 0 false := by
  have hstore {y k : ℕ} (h : b.val.natAbs * 2^62 ≤ y * 2^k) : b.val ≤ store y ((k : ℕ) - (62 : ℕ)) := by
    have hle := (le_store_iff hb.rate).2 (reachesMidpoint_of_le ((le_scaled_iff rfl).2 h))
    have hpos := hb.pos
    omega
  rcases lt_or_ge (bitLength b.val.natAbs) (bitLength a.val.natAbs) with hlt | hge
  · rcases le_or_gt (bitLength b.val.natAbs + 62) (bitLength a.val.natAbs) with hfar | hnear
    · rw [add_of_far ha hb.pos hfar]
      exact le_of_bitLength_lt ha hb.pos hlt
    · rw [le_iff, add_pos_val ha hb.pos hlt.le hnear]
      apply hstore
      -- the leading bit of the longer operand already exceeds the other one
      calc b.val.natAbs * 2^62 ≤ 2^bitLength b.val.natAbs * 2^62 :=
            Nat.mul_le_mul_right _ (lt_pow_bitLength _).le
        _ ≤ 2^(bitLength a.val.natAbs - 1) * 2^62 :=
            Nat.mul_le_mul_right _ (Nat.pow_le_pow_right (by decide) (by omega))
        _ = 2^(62-1) * 2^bitLength a.val.natAbs := by
            rw [← pow_add, ← pow_add]
            congr 1
            omega
        _ ≤ _ := Nat.mul_le_mul_right _
            ((le_mantissa (by norm_num : 0 < 62) (natAbs_pos_iff.2 ha.ne')).trans (Nat.le_add_right _ _))
  · rw [add_comm_of_pos ha hb.pos]
    rcases le_or_gt (bitLength a.val.natAbs + 62) (bitLength b.val.natAbs) with hfar | hnear
    · rw [add_of_far hb.pos ha hfar]
    · rw [le_iff, add_pos_val hb.pos ha hge hnear]
      apply hstore
      rw [← mantissa_mul b.isDouble (by norm_num : 53 ≤ 62)]
      exact Nat.mul_le_mul_right _ (Nat.le_add_right _ _)

end UniFloat
end CredaCash
