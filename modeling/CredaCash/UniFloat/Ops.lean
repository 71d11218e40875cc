import CredaCash.UniFloat.Midpoint

/-! The operations of the universal float in closed form: exact decompositions, and when a
quotient or an average stays on one side of a stored rate. -/

namespace CredaCash
open Rounding

lemma roundBy_mul_pow (r : ℤ) (m k : ℕ) : roundBy r (m * 2^k) k = m := by
  have hpos : 0 < 2^k := by positivity
  unfold roundBy
  split_ifs
  · exact Nat.mul_div_cancel _ hpos
  · rw [Nat.add_div_of_dvd_right (Dvd.intro_left m rfl), Nat.mul_div_cancel _ hpos,
      Nat.div_eq_of_lt (by omega), add_zero]
  · exact halfUp_mul_pow m k

lemma halfUp_succ_eq (v k : ℕ) :
    halfUp v (k+1) = if v.testBit k then v / 2^(k+1) + 1 else v / 2^(k+1) := by
  have hpos : 0 < 2^k := by positivity
  have hsplit := Nat.div_add_mod v (2^k)
  have hmod := Nat.mod_lt v hpos
  have hdiv : v / 2^(k+1) = v / 2^k / 2 := by rw [pow_succ, Nat.div_div_eq_div_mul]
  have hhalf : 2^(k+1)/2 = 2^k := by rw [pow_succ]; omega
  rw [Nat.testBit_eq_decide_div_mod_eq]
  unfold halfUp
  rw [hhalf, pow_succ, ← Nat.div_div_eq_div_mul, ← Nat.div_div_eq_div_mul,
    Nat.add_div_right _ hpos]
  simp only [decide_eq_true_eq]
  split_ifs <;> omega

/-- `Shift` rounding to nearest is division with halves up. -/
theorem shift_nearest (v k : ℕ) : shift v k 0 = halfUp v k := by
  cases k with
  | zero => simp [shift]
  | succ k => simp [shift, halfUp_succ_eq, Nat.shiftRight_eq_div_pow]

/-- The loop of `Normalize` stops at the least shift that leaves 52 bits. -/
theorem excess_le_iff {p n k : ℕ} : excess p n ≤ k ↔ n >>> k < 2^p := by
  rw [Nat.shiftRight_eq_div_pow, Nat.div_lt_iff_lt_mul (by positivity), ← pow_add,
    ← bitLength_le_iff]
  unfold excess
  omega

/-- The leading `nbits` bits of a number, with zeros appended to a short one. -/
def mantissa (nbits m : ℕ) : ℕ := m * 2^nbits / 2^bitLength m

lemma mantissa_mul {m : ℕ} (h : IsDouble m) {nbits : ℕ} (hn : 53 ≤ nbits) :
    mantissa nbits m * 2^bitLength m = m * 2^nbits := by
  refine Nat.div_mul_cancel ?_
  obtain ⟨c, hc⟩ := h.2
  conv_rhs => rw [hc]
  rw [mul_right_comm, ← pow_add]
  refine Dvd.dvd.mul_right (pow_dvd_pow 2 ?_) c
  unfold excess
  omega

lemma mantissa_lt (nbits m : ℕ) : mantissa nbits m < 2^nbits := by
  rw [mantissa, Nat.div_lt_iff_lt_mul (by positivity), mul_comm]
  exact Nat.mul_lt_mul_of_pos_left (lt_pow_bitLength m) (by positivity)

lemma le_mantissa {nbits m : ℕ} (hn : 0 < nbits) (hm : 0 < m) : 2^(nbits-1) ≤ mantissa nbits m := by
  rw [mantissa, Nat.le_div_iff_mul_le (by positivity)]
  calc 2^(nbits-1) * 2^bitLength m = 2^(bitLength m - 1) * 2^nbits := by
        rw [← pow_add, ← pow_add]
        have := bitLength_pos hm
        congr 1
        omega
    _ ≤ m * 2^nbits := Nat.mul_le_mul_right _ (pow_le_of_bitLength_pos hm)

namespace UniFloat

lemma natAbs_pos_iff {v : UniFloat} : 0 < v.val.natAbs ↔ v.val ≠ 0 := Int.natAbs_pos

/-- `Decompose` to at least 53 bits is exact, whatever its rounding. -/
theorem decompose_exact {v : UniFloat} (hv : v.val ≠ 0) {nbits : ℕ} (hn : 53 ≤ nbits) (r : ℤ) :
    decompose v nbits r = ⟨mantissa nbits v.val.natAbs,
      (bitLength v.val.natAbs : ℤ) - nbits - 1074, signOf v.val⟩ := by
  have hm := natAbs_pos_iff.2 hv
  have hmul := mantissa_mul v.isDouble hn
  have hlt := mantissa_lt nbits v.val.natAbs
  set m := v.val.natAbs with hmdef
  have hy : (if bitLength m ≤ nbits then m * 2^(nbits - bitLength m)
      else roundBy r m (bitLength m - nbits)) = mantissa nbits m := by
    split_ifs with hlen
    · refine Nat.eq_of_mul_eq_mul_right (Nat.two_pow_pos (bitLength m)) ?_
      rw [hmul, mul_assoc, ← pow_add]
      congr 2
      omega
    · have : m = mantissa nbits m * 2^(bitLength m - nbits) := by
        refine Nat.eq_of_mul_eq_mul_right (Nat.two_pow_pos nbits) ?_
        rw [← hmul, mul_assoc, ← pow_add]
        congr 2
        omega
      conv_lhs => rw [this, ← this]
      have h := roundBy_mul_pow r (mantissa nbits m) (bitLength m - nbits)
      rw [← this] at h
      exact h
  simp only [decompose, ← hmdef]
  rw [if_neg (by omega)]
  simp only [hy, if_pos hlt]

@[simp] theorem decompose_zero (nbits : ℕ) (r : ℤ) : decompose 0 nbits r = ⟨0, 0, 0⟩ := rfl

lemma signOf_pos {v : ℤ} (h : 0 < v) : signOf v = 1 := if_pos h

/-- A positive float in decomposed form. -/
lemma decompose_pos {v : UniFloat} (hv : 0 < v.val) {nbits : ℕ} (hn : 53 ≤ nbits) (r : ℤ) :
    decompose v nbits r = ⟨mantissa nbits v.val.natAbs,
      (bitLength v.val.natAbs : ℤ) - nbits - 1074, 1⟩ := by
  rw [decompose_exact hv.ne' hn, signOf_pos hv]

lemma recompose_pos_val (m : ℕ) (e : ℤ) : (recompose ⟨m, e, 1⟩).val = ldexp m e := by
  simp [recompose]

lemma recompose_normalize_val (y : ℕ) (e : ℤ) :
    (recompose (normalize y ⟨0, e, 1⟩ 0)).val = store y (e + 1074) := by
  rw [normalize, recompose_pos_val, shift_nearest, ldexp_eq_store]

lemma recompose_val_nonpos {x : UniFloatTuple} (h : x.sign ≠ 1) : (recompose x).val ≤ 0 := by
  rcases x with ⟨m, e, s⟩
  cases s with
  | zero => simp [recompose]
  | neg => simp [recompose]
  | pos => exact absurd rfl h

lemma mantissa_pos {v : UniFloat} (hv : 0 < v.val) {nbits : ℕ} (hn : 0 < nbits) :
    0 < mantissa nbits v.val.natAbs :=
  lt_of_lt_of_le (by positivity) (le_mantissa hn (natAbs_pos_iff.2 hv.ne'))

lemma divide_pos_val {v x : UniFloat} (hv : 0 < v.val) (hx : 0 < x.val) :
    (divide v x 0).val = store (quotient (mantissa 63 v.val.natAbs) (mantissa 63 x.val.natAbs) 0)
      ((bitLength v.val.natAbs : ℤ) - bitLength x.val.natAbs + 1010) := by
  simp only [divide, decompose_pos hv (by norm_num : 53 ≤ 63), decompose_pos hx (by norm_num : 53 ≤ 63)]
  rw [if_neg (mantissa_pos hx (by norm_num)).ne', mul_one, recompose_normalize_val]
  congr 2
  omega

lemma divide_nonpos_val {v x : UniFloat} (hv : v.val ≤ 0) (hx : 0 < x.val) :
    (divide v x 0).val ≤ 0 := by
  simp only [divide, decompose_pos hx (by norm_num : 53 ≤ 63)]
  rw [if_neg (mantissa_pos hx (by norm_num)).ne']
  refine recompose_val_nonpos ?_
  rw [normalize, mul_one]
  rcases hv.eq_or_lt with h0 | hneg
  · have : v = 0 := UniFloat.ext h0
    rw [this, decompose_zero]
    change (0 : SignType) ≠ 1
    decide
  · rw [decompose_exact hneg.ne (by norm_num), signOf, if_neg hv.not_gt, if_pos hneg]
    change (-1 : SignType) ≠ 1
    decide

end UniFloat

lemma halfEven_mul_pow_of_le {c k j : ℕ} (h : k ≤ j) : halfEven (c * 2^k) j = halfEven c (j-k) := by
  have hpos : 0 < 2^k := by positivity
  have hj : 2^j = 2^(j-k) * 2^k := by rw [← pow_add]; congr 1; omega
  unfold halfEven
  rw [hj, Nat.mul_div_mul_right _ _ hpos, Nat.mul_mod_mul_right]
  have h1 : 2^(j-k) * 2^k < 2*(c % 2^(j-k) * 2^k) ↔ 2^(j-k) < 2*(c % 2^(j-k)) := by
    rw [← mul_assoc, Nat.mul_lt_mul_right hpos]
  have h2 : 2*(c % 2^(j-k) * 2^k) = 2^(j-k) * 2^k ↔ 2*(c % 2^(j-k)) = 2^(j-k) := by
    rw [← mul_assoc, Nat.mul_left_inj hpos.ne']
  simp only [h1, h2]

lemma toDouble_mul_pow {c : ℕ} (hc : c < 2^53) (k : ℕ) : toDouble (c * 2^k) = c * 2^k := by
  have hle : excess 53 (c * 2^k) ≤ k := by
    rw [excess_le_iff, Nat.shiftRight_eq_div_pow, Nat.mul_div_cancel _ (by positivity)]
    exact hc
  rw [toDouble, halfEven_mul_pow hle, mul_assoc, ← pow_add]
  congr 2
  omega

/-- Zeros appended to a mantissa only move its exponent. -/
lemma ldexp_mul_pow {c : ℕ} (hc : c < 2^53) (k : ℕ) (e : ℤ) : ldexp (c * 2^k) e = ldexp c (e + k) := by
  have h0 : toDouble c = c := by simpa using toDouble_mul_pow hc 0
  unfold ldexp
  rw [toDouble_mul_pow hc, h0]
  split_ifs with h1 h2 h2
  · rw [mul_assoc, ← pow_add]
    congr 3
    omega
  · omega
  · rw [halfEven_mul_pow (by omega)]
    congr 3
    omega
  · rw [halfEven_mul_pow_of_le (by omega)]
    congr 2
    omega

/-- A mantissa with at most 52 significant bits is not rounded again. -/
lemma ldexp_eq_store_of_dvd {m k : ℕ} (hm : m < 2^(52+k)) (h : 2^k ∣ m) (e : ℤ) :
    ldexp m e = store m (e + 1074) := by
  obtain ⟨c, rfl⟩ := h
  have hc : c < 2^52 := by
    rw [pow_add, mul_comm (2^k)] at hm
    exact lt_of_mul_lt_mul_right hm (Nat.zero_le _)
  have hle : excess 52 (c * 2^k) ≤ k := by
    rw [excess_le_iff, Nat.shiftRight_eq_div_pow, Nat.mul_div_cancel _ (by positivity)]
    exact hc
  obtain ⟨j, hj⟩ := Nat.exists_eq_add_of_le hle
  have hsplit : c * 2^k = (c * 2^j) * 2^excess 52 (c * 2^k) := by
    rw [mul_assoc, ← pow_add, add_comm j, ← hj]
  have hhalf : halfUp (c * 2^k) (excess 52 (c * 2^k)) = c * 2^j := by
    conv_lhs => rw [hsplit, ← hsplit]
    have := halfUp_mul_pow (c * 2^j) (excess 52 (c * 2^k))
    rwa [← hsplit] at this
  rw [mul_comm, ← ldexp_eq_store, hhalf, ldexp_mul_pow (hc.trans (by norm_num)),
    ldexp_mul_pow (hc.trans (by norm_num))]
  congr 1
  omega

/-- Magnitudes with at most 52 significant bits. -/
def Is52 (n : ℕ) : Prop := 2^excess 52 n ∣ n

lemma dvd_mantissa {m : ℕ} (h : IsDouble m) {p k : ℕ} (hm : 2^excess p m ∣ m) (hk : 53 ≤ p+k) :
    2^k ∣ mantissa (p+k) m := by
  have hmul := mantissa_mul h hk
  obtain ⟨c, hc⟩ := hm
  rcases le_or_gt (bitLength m) p with hle | hgt
  · refine ⟨m * 2^(p - bitLength m), ?_⟩
    refine Nat.eq_of_mul_eq_mul_right (Nat.two_pow_pos (bitLength m)) ?_
    rw [hmul, show 2^k * (m * 2^(p - bitLength m)) * 2^bitLength m =
      m * (2^k * 2^(p - bitLength m) * 2^bitLength m) by ring, ← pow_add, ← pow_add]
    congr 2
    omega
  · refine ⟨c, ?_⟩
    refine Nat.eq_of_mul_eq_mul_right (Nat.two_pow_pos (bitLength m)) ?_
    have hex : bitLength m = p + excess p m := by unfold excess; omega
    rw [hmul, hex, pow_add, pow_add]
    conv_lhs => rw [hc]
    ring

lemma Is52.dvd_mantissa {m : ℕ} (hm : Is52 m) (h : IsDouble m) : 2^10 ∣ mantissa 62 m := by
  have := @CredaCash.dvd_mantissa m h 52 10 hm (by norm_num)
  exact this

namespace UniFloat

/-- Half the sum of two positive floats before it is rounded: the mantissa of the smaller one is
shifted to the exponent of the larger one, and dropped when it lies 62 bits or more below. -/
def halfSum (a b : UniFloat) : ℕ × ℤ :=
  let v := decompose a 62 0
  let x := decompose b 62 0
  (if 62 ≤ v.exp - x.exp then v.mant
    else if 62 ≤ x.exp - v.exp then x.mant
    else halfUp v.mant (x.exp - v.exp).toNat + halfUp x.mant (v.exp - x.exp).toNat,
    Max.max v.exp x.exp + 1073)

lemma addTuples_pos {m n : ℕ} (d e : ℤ) (hm : 0 < m) (hd : 0 ≤ d - e) :
    addTuples ⟨m, d, 1⟩ ⟨n, e, 1⟩ 0 = normalize (m + halfUp n (d-e).toNat) ⟨0, d, 1⟩ 0 := by
  have hshift : (if 0 < d - e then shift n (d-e).toNat 0 else n) = halfUp n (d-e).toNat := by
    split_ifs with h
    · exact shift_nearest n _
    · rw [show (d-e).toNat = 0 by omega, halfUp_zero]
  have hpos : (0:ℤ) < m + halfUp n (d-e).toNat := by omega
  simp only [addTuples, hshift, if_neg hd.not_gt, SignType.coe_one, one_mul, signOf_pos hpos]
  rw [max_eq_left (by omega)]
  rfl

lemma addTuples_comm (v x : UniFloatTuple) (r : ℤ) : addTuples v x r = addTuples x v r := by
  have h : ∀ d e : ℤ, (if d - e < 0 then (-(d - e)).toNat else 0) = if 0 < e - d then (e - d).toNat else 0 := by
    intro d e
    split_ifs <;> omega
  simp only [addTuples, neg_sub, sub_neg, sub_pos]
  rw [max_comm, add_comm]

lemma average_of_exp_le {a b : UniFloat} (ha : 0 < a.val) (hb : 0 < b.val)
    (ha52 : Is52 a.val.natAbs) (hle : bitLength b.val.natAbs ≤ bitLength a.val.natAbs) :
    (average a b 0).val = store (halfSum a b).1 (halfSum a b).2 := by
  have hma := mantissa_pos ha (by norm_num : 0 < 62)
  have hmb := mantissa_pos hb (by norm_num : 0 < 62)
  simp only [average, add, halfSum, decompose_pos ha (by norm_num : 53 ≤ 62),
    decompose_pos hb (by norm_num : 53 ≤ 62), if_true, ne_eq, hma.ne', hmb.ne', not_false_eq_true,
    and_self, false_or]
  set ea : ℤ := (bitLength a.val.natAbs : ℤ) - (62:ℕ) - 1074 with hea
  set eb : ℤ := (bitLength b.val.natAbs : ℤ) - (62:ℕ) - 1074 with heb
  have hexp : eb ≤ ea := by omega
  rw [max_eq_left hexp]
  have h2 : ¬62 ≤ -(ea - eb) := by omega
  have h3 : ¬62 ≤ eb - ea := by omega
  simp only [h2, h3, if_false]
  by_cases h1 : 62 ≤ ea - eb
  · simp only [h1, if_true]
    rw [recompose_pos_val, ldexp_eq_store_of_dvd (mantissa_lt 62 _)
      (ha52.dvd_mantissa a.isDouble)]
    congr 2
    ring
  · simp only [h1, if_false]
    rw [addTuples_pos _ _ hma (by omega), show (eb - ea).toNat = 0 by omega, halfUp_zero]
    set y := mantissa 62 a.val.natAbs + halfUp (mantissa 62 b.val.natAbs) (ea - eb).toNat
    simp only [normalize]
    rw [recompose_pos_val, shift_nearest, show ea + (excess 52 y : ℤ) - 1 = ea - 1 + excess 52 y by ring,
      ldexp_eq_store]
    congr 2
    ring

lemma halfSum_comm {a b : UniFloat} : halfSum a b = halfSum b a := by
  unfold halfSum
  simp only [max_comm (decompose a 62 0).exp, Prod.mk.injEq, and_true]
  split_ifs <;> omega

lemma average_comm {a b : UniFloat} (ha : 0 < a.val) (hb : 0 < b.val) :
    average a b 0 = average b a 0 := by
  have hma := mantissa_pos ha (by norm_num : 0 < 62)
  have hmb := mantissa_pos hb (by norm_num : 0 < 62)
  simp only [average, add, decompose_pos ha (by norm_num : 53 ≤ 62),
    decompose_pos hb (by norm_num : 53 ≤ 62), if_true, ne_eq, hma.ne', hmb.ne', not_false_eq_true,
    and_self, false_or, neg_sub]
  rw [addTuples_comm]
  split_ifs <;> first | omega | rfl

/-- `Average` of two positive floats rounds half their aligned sum. -/
theorem average_val {a b : UniFloat} (ha : 0 < a.val) (hb : 0 < b.val) (ha52 : Is52 a.val.natAbs)
    (hb52 : Is52 b.val.natAbs) :
    (average a b 0).val = store (halfSum a b).1 (halfSum a b).2 := by
  rcases le_total (bitLength b.val.natAbs) (bitLength a.val.natAbs) with h | h
  · exact average_of_exp_le ha hb ha52 h
  · rw [average_comm ha hb, halfSum_comm]
    exact average_of_exp_le hb ha hb52 h

end UniFloat
end CredaCash
