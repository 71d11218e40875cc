import CredaCash.UniFloat.Directed

/-! Directed rounding of sums. `Add` shifts and rounds magnitudes before it applies the signs, so it
keeps the direction asked for only under a condition on its operands. -/

namespace CredaCash
open Rounding

/-- Zeros appended to a number add no significant bits. -/
theorem is52_mul_pow_iff (n k : ℕ) : Is52 (n * 2^k) ↔ Is52 n := by
  rcases Nat.eq_zero_or_pos n with rfl | hn
  · rw [Nat.zero_mul]
  have hlen := bitLength_mul_pow hn k
  rcases le_or_gt (bitLength n) 52 with hle | hgt
  · have hn52 : n ≤ 2^52 := (bitLength_le_iff.1 hle).le
    exact iff_of_true (is52_mul_pow hn52 k) (is52_of_le hn52)
  · have hex : excess 52 (n * 2^k) = excess 52 n + k := by
      unfold excess
      omega
    rw [Is52, Is52, hex, pow_add]
    exact Nat.mul_dvd_mul_iff_right (by positivity)

/-- Rounding to 52 bits moves every number that has more of them. -/
lemma lt_roundBy_of_not_is52 {r : ℤ} (hr : 0 < r) {y : ℕ} (h : ¬Is52 y) :
    y < roundBy r y (excess 52 y) * 2^excess 52 y :=
  lt_of_le_of_ne (le_roundBy y _ hr) fun heq => h (Dvd.intro_left _ heq.symm)

lemma roundBy_lt_of_not_is52 {r : ℤ} (hr : r < 0) {y : ℕ} (h : ¬Is52 y) :
    roundBy r y (excess 52 y) * 2^excess 52 y < y :=
  lt_of_le_of_ne (roundBy_le y _ hr) fun heq => h (Dvd.intro_left _ heq)

namespace UniFloat

/-- `Add` does not depend on the order of its operands, whatever their signs. -/
lemma add_comm (a b : UniFloat) (r : ℤ) : add a b r false = add b a r false := by
  have hzero (v : UniFloat) : (decompose v 62 0).mant = 0 → decompose v 62 0 = ⟨0, 0, 0⟩ := by
    intro h
    rcases eq_or_ne v.val 0 with hv | hv
    · rw [show v = 0 from UniFloat.ext hv, decompose_zero]
    · rw [decompose_exact hv (by norm_num)] at h
      have := le_mantissa (by norm_num : 0 < 62) (natAbs_pos_iff.2 hv)
      simp only [] at h
      omega
  simp only [add, Bool.false_eq_true, if_false]
  rw [addTuples_comm]
  congr 1
  by_cases ha : (decompose a 62 0).mant = 0
  · by_cases hb : (decompose b 62 0).mant = 0
    · simp [hzero a ha, hzero b hb]
    · simp [ha, hb]
  · by_cases hb : (decompose b 62 0).mant = 0
    · simp [ha, hb]
    · simp only [ne_eq, ha, hb, not_false_eq_true, and_self, if_true, false_or, neg_sub]
      split_ifs <;> first | omega | rfl

lemma signOf_neg (v : ℤ) : signOf (-v) = -signOf v := by
  unfold signOf
  split_ifs <;> first | omega | rfl

lemma decompose_neg (v : UniFloat) (nbits : ℕ) (r : ℤ) :
    decompose (-v) nbits r = { decompose v nbits r with sign := -(decompose v nbits r).sign } := by
  simp only [decompose, val_neg, Int.natAbs_neg, signOf_neg]
  split_ifs <;> rfl

lemma recompose_neg (x : UniFloatTuple) : recompose { x with sign := -x.sign } = -recompose x := by
  apply UniFloat.ext
  simp [recompose]

lemma addTuples_neg (v x : UniFloatTuple) (r : ℤ) :
    addTuples { v with sign := -v.sign } { x with sign := -x.sign } r =
      { addTuples v x r with sign := -(addTuples v x r).sign } := by
  simp only [addTuples, normalize, SignType.coe_neg, neg_mul, ← neg_add, Int.natAbs_neg, signOf_neg]

/-- The rounding of a sum does not depend on its sign. -/
lemma add_neg (a b : UniFloat) (r : ℤ) : add (-a) (-b) r false = -add a b r false := by
  simp only [add, Bool.false_eq_true, if_false, decompose_neg]
  rw [← recompose_neg, addTuples_neg]
  congr 1
  split_ifs <;> rfl

lemma toRat_neg (a : UniFloat) : (-a).toRat = -a.toRat := by
  rw [toRat, toRat, val_neg, Int.cast_neg, neg_div]

/-- A number rounded to 52 bits. -/
def round52 (r : ℤ) (y : ℕ) : ℕ := roundBy r y (excess 52 y) * 2^excess 52 y

lemma round52_of_is52 {y : ℕ} (h : Is52 y) (r : ℤ) : round52 r y = y := roundBy_of_dvd r h

/-- The 62-bit mantissa of the smaller operand and how far it lies below that of the larger one. -/
def mant (v : UniFloat) : ℕ := mantissa 62 v.val.natAbs

def gap (a b : UniFloat) : ℕ := bitLength a.val.natAbs - bitLength b.val.natAbs

/-- The sum of the mantissas after the smaller one is aligned to a positive larger one. -/
def alignedSum (a b : UniFloat) (r : ℤ) : ℕ :=
  if 0 < b.val then mant a + shift (mant b) (gap a b) r else mant a - shift (mant b) (gap a b) r

section Aligned
variable {a b : UniFloat} (ha : 0 < a.val) (hb : b.val ≠ 0) (hle : b.val.natAbs ≤ a.val.natAbs)

include hle in
lemma bitLength_add_gap : bitLength b.val.natAbs + gap a b = bitLength a.val.natAbs := by
  have := bitLength_mono hle
  unfold gap
  omega

include ha hb in
lemma mant_bounds : 2^61 ≤ mant a ∧ mant a < 2^62 ∧ 2^61 ≤ mant b ∧ mant b < 2^62 :=
  ⟨le_mantissa (by norm_num : 0 < 62) (natAbs_pos_iff.2 ha.ne'), mantissa_lt 62 _,
    le_mantissa (by norm_num : 0 < 62) (natAbs_pos_iff.2 hb), mantissa_lt 62 _⟩

include ha hb hle

lemma shift_le_mant (r : ℤ) : shift (mant b) (gap a b) r ≤ mant a := by
  have hbounds := mant_bounds ha hb
  rw [shift_eq_roundBy]
  rcases Nat.eq_zero_or_pos (gap a b) with hzero | hpos
  · have hlen := bitLength_add_gap hle
    have hround := roundBy_mul_pow r (mant b) 0
    rw [pow_zero, mul_one] at hround
    rw [hzero, hround, mant, mant, mantissa, mantissa, ← hlen, hzero, Nat.add_zero]
    exact Nat.div_le_div_right (Nat.mul_le_mul_right _ hle)
  · have hlt := roundBy_lt (mant b) (gap a b) r
    have hpow : 2^1 ≤ 2^gap a b := Nat.pow_le_pow_right (by norm_num) hpos
    refine le_trans ?_ hbounds.1
    by_contra hgt
    have := Nat.mul_le_mul_right (2^gap a b) (not_le.1 hgt)
    have hb62 := hbounds.2.2.2
    rw [Nat.succ_mul] at this
    nlinarith

/-- What `Add` computes for a positive larger operand that the other one is not negligible beside. -/
lemma add_eq_normalize (hnear : gap a b < 62) (r : ℤ) : add a b r false =
    recompose (normalize (alignedSum a b r)
      ⟨0, (bitLength a.val.natAbs : ℤ) - 62 - 1074, signOf (alignedSum a b r : ℤ)⟩ r) := by
  have hbounds := mant_bounds ha hb
  have hlen := bitLength_add_gap hle
  have hshift := shift_le_mant ha hb hle r
  have hdiff : ((bitLength a.val.natAbs : ℤ) - 62 - 1074) - ((bitLength b.val.natAbs : ℤ) - 62 - 1074) = gap a b := by
    omega
  have hsmall : (if (0:ℤ) < gap a b then shift (mant b) (gap a b) r else mant b) = shift (mant b) (gap a b) r := by
    split_ifs with h
    · rfl
    · rw [show gap a b = 0 by omega, shift_eq_roundBy]
      simpa using (roundBy_mul_pow r (mant b) 0).symm
  have hsum : (1:ℤ) * mant a + (signOf b.val : ℤ) * shift (mant b) (gap a b) r = alignedSum a b r := by
    unfold alignedSum signOf
    split_ifs with hpos hneg
    · rw [SignType.coe_one, Nat.cast_add]
      ring
    · rw [SignType.coe_neg_one, Nat.cast_sub hshift]
      ring
    · omega
  have ha0 : mant a ≠ 0 := by omega
  have hb0 : mant b ≠ 0 := by omega
  have hda : decompose a 62 0 = ⟨mant a, (bitLength a.val.natAbs : ℤ) - 62 - 1074, 1⟩ := decompose_pos ha (by norm_num) 0
  have hdb : decompose b 62 0 = ⟨mant b, (bitLength b.val.natAbs : ℤ) - 62 - 1074, signOf b.val⟩ :=
    decompose_exact hb (by norm_num) 0
  simp only [add, hda, hdb, Bool.false_eq_true, if_false, ne_eq, ha0, hb0, not_false_eq_true, and_self, if_true,
    false_or, hdiff]
  rw [if_neg (by omega), if_neg (by omega)]
  simp only [addTuples, hdiff, Int.toNat_natCast, SignType.coe_one]
  rw [if_neg (by omega : ¬(gap a b : ℤ) < 0), hsmall, hsum, max_eq_left (by omega), Int.natAbs_natCast]

omit ha hb hle in
lemma mant_scaled (v : UniFloat) : mant v * 2^bitLength v.val.natAbs = v.val.natAbs * 2^62 :=
  mantissa_mul v.isDouble (by norm_num)

omit hb in
/-- An exact alignment leaves the exact sum. -/
lemma alignedSum_scaled (hdvd : 2^gap a b ∣ mant b) (r : ℤ) :
    alignedSum a b r * 2^bitLength a.val.natAbs = (a.val + b.val).natAbs * 2^62 := by
  have hma := mant_scaled a
  have hmb := mant_scaled b
  have hlen := bitLength_add_gap hle
  have hsmall : shift (mant b) (gap a b) r * 2^bitLength a.val.natAbs = b.val.natAbs * 2^62 := by
    rw [← hmb, ← hlen, pow_add, mul_comm (2^bitLength b.val.natAbs), ← mul_assoc, shift_eq_roundBy, roundBy_of_dvd r hdvd]
  unfold alignedSum
  split_ifs with hpos
  · rw [add_mul, hma, hsmall, ← add_mul]
    congr 1
    omega
  · rw [Nat.sub_mul, hma, hsmall, ← Nat.sub_mul]
    congr 1
    omega

omit hb in
lemma is52_alignedSum_iff (hdvd : 2^gap a b ∣ mant b) (r : ℤ) :
    Is52 (alignedSum a b r) ↔ Is52 (a.val + b.val).natAbs := by
  rw [← is52_mul_pow_iff _ (bitLength a.val.natAbs), alignedSum_scaled ha hle hdvd, is52_mul_pow_iff]

omit ha hb hle in
lemma dvd_mant_of_gap_le (h : gap a b ≤ 9) : 2^gap a b ∣ mant b := by
  have := dvd_mantissa b.isDouble b.isDouble.2 (by norm_num : 53 ≤ 53 + 9)
  exact (pow_dvd_pow 2 h).trans this

omit ha hb in
/-- Operands this small are integers of few bits, and alignment drops only zeros. -/
lemma dvd_mant_of_short (h : bitLength a.val.natAbs ≤ 62) : 2^gap a b ∣ mant b := by
  have hmul := mant_scaled b
  have hlen := bitLength_add_gap hle
  refine ⟨b.val.natAbs * 2^(62 - bitLength a.val.natAbs),
    Nat.eq_of_mul_eq_mul_right (Nat.two_pow_pos (bitLength b.val.natAbs)) ?_⟩
  rw [hmul, show 2^gap a b * (b.val.natAbs * 2^(62 - bitLength a.val.natAbs)) * 2^bitLength b.val.natAbs =
    b.val.natAbs * (2^gap a b * 2^bitLength b.val.natAbs * 2^(62 - bitLength a.val.natAbs)) by ring, ← pow_add,
    ← pow_add]
  congr 2
  omega

omit hb in
/-- A sum of 52 bits has no bit below the aligned mantissas. -/
lemma dvd_mant_of_is52 (h : Is52 (a.val + b.val).natAbs) : 2^gap a b ∣ mant b := by
  rcases le_or_gt (gap a b) 9 with hsmall | hlarge
  · exact dvd_mant_of_gap_le hsmall
  have hlen := bitLength_add_gap hle
  have hmul := mant_scaled b
  have hapos : 0 < a.val.natAbs := natAbs_pos_iff.2 ha.ne'
  rcases le_or_gt 53 (bitLength a.val.natAbs) with hlong | hshort
  · have hcut : 2^(bitLength a.val.natAbs - 53) ∣ b.val.natAbs := by
      have hlow := pow_le_of_bitLength_pos hapos
      have hbhigh := lt_pow_bitLength b.val.natAbs
      have hquarter : 2^bitLength b.val.natAbs ≤ 2^(bitLength a.val.natAbs - 2) :=
        Nat.pow_le_pow_right (by norm_num) (by omega)
      have hhalf : 2^(bitLength a.val.natAbs - 1) = 2 * 2^(bitLength a.val.natAbs - 2) := by
        rw [← pow_succ']
        congr 1
        omega
      have hsum : bitLength a.val.natAbs - 2 < bitLength (a.val + b.val).natAbs :=
        lt_bitLength_iff.2 (by omega)
      have hsum52 : 2^(bitLength a.val.natAbs - 53) ∣ (a.val + b.val).natAbs := by
        refine (pow_dvd_pow 2 ?_).trans h
        unfold excess
        omega
      have ha53 : 2^(bitLength a.val.natAbs - 53) ∣ a.val.natAbs := a.isDouble.2
      rw [← Int.natCast_dvd] at hsum52 ha53 ⊢
      have := Int.dvd_sub hsum52 ha53
      rwa [add_sub_cancel_left] at this
    obtain ⟨c, hc⟩ := hcut
    refine ⟨c * 2^9, Nat.eq_of_mul_eq_mul_right (Nat.two_pow_pos (bitLength b.val.natAbs)) ?_⟩
    calc mant b * 2^bitLength b.val.natAbs = b.val.natAbs * 2^62 := hmul
      _ = c * (2^(bitLength a.val.natAbs - 53) * 2^62) := by
          rw [hc]
          ring
      _ = c * (2^gap a b * 2^bitLength b.val.natAbs * 2^9) := by
          rw [← pow_add, ← pow_add, ← pow_add]
          congr 2
          omega
      _ = 2^gap a b * (c * 2^9) * 2^bitLength b.val.natAbs := by ring
  · exact dvd_mant_of_short hle (by omega)

/-- The rounded sum, in units of the larger mantissa's last bit. -/
theorem add_toRat (hnear : gap a b < 62) (r : ℤ) : (add a b r false).toRat =
    min ((round52 r (alignedSum a b r) : ℚ) * 2^((bitLength a.val.natAbs : ℤ) - 62 - 1074)) max.toRat := by
  have hscale : 0 ≤ (bitLength a.val.natAbs : ℤ) - 62 - 1074 + 1074 + excess 52 (alignedSum a b r) ∨
      2^(-((bitLength a.val.natAbs : ℤ) - 62 - 1074 + 1074)).toNat ∣ alignedSum a b r := by
    rcases le_or_gt 62 (bitLength a.val.natAbs) with hlong | hshort
    · exact Or.inl (by omega)
    · have hscaled := alignedSum_scaled ha hle (dvd_mant_of_short hle hshort.le) r
      refine Or.inr ⟨(a.val + b.val).natAbs,
        Nat.eq_of_mul_eq_mul_right (Nat.two_pow_pos (bitLength a.val.natAbs)) ?_⟩
      rw [hscaled, show (-((bitLength a.val.natAbs : ℤ) - 62 - 1074 + 1074)).toNat = 62 - bitLength a.val.natAbs by omega,
        mul_right_comm, ← pow_add, mul_comm]
      congr 2
      omega
  rw [add_eq_normalize ha hb hle hnear, recompose_normalize_toRat _ r hscale, ← round52]
  rcases Nat.eq_zero_or_pos (alignedSum a b r) with hzero | hpos
  · have hmax := toRat_max_nonneg
    simp [hzero, round52_of_is52 (is52_of_le (Nat.zero_le _)) r, signOf, hmax]
  · rw [signOf_pos (by exact_mod_cast hpos), SignType.coe_one, one_mul]

omit ha hb hle in
lemma toRat_of_neg (hneg : b.val < 0) : b.toRat =
    -((mant b : ℚ) * 2^((bitLength b.val.natAbs : ℤ) - 62 - 1074)) := by
  have hpos : 0 < (-b).val := by
    rw [val_neg]
    omega
  have h := toRat_eq_mantissa hpos (by norm_num : 53 ≤ 62)
  rw [toRat_neg, val_neg, Int.natAbs_neg] at h
  rw [← neg_neg b.toRat, h]
  rfl

/-- The exact sum, in units of the larger mantissa's last bit. -/
def alignedExact (a b : UniFloat) : ℚ :=
  if 0 < b.val then mant a + mant b / 2^gap a b else mant a - mant b / 2^gap a b

lemma toRat_add_toRat : a.toRat + b.toRat =
    alignedExact a b * 2^((bitLength a.val.natAbs : ℤ) - 62 - 1074) := by
  have hlen := bitLength_add_gap hle
  have haval : a.toRat = mant a * 2^((bitLength a.val.natAbs : ℤ) - 62 - 1074) :=
    toRat_eq_mantissa ha (by norm_num : 53 ≤ 62)
  have hscale : (mant b : ℚ) * 2^((bitLength b.val.natAbs : ℤ) - 62 - 1074) =
      mant b / 2^gap a b * 2^((bitLength a.val.natAbs : ℤ) - 62 - 1074) := by
    rw [← hlen, Nat.cast_add, show (bitLength b.val.natAbs : ℤ) + gap a b - 62 - 1074 =
      gap a b + ((bitLength b.val.natAbs : ℤ) - 62 - 1074) by ring, zpow_add₀ (by norm_num), zpow_natCast, ← mul_assoc,
      div_mul_cancel₀ _ (by positivity)]
  unfold alignedExact
  split_ifs with hpos
  · have hbval : b.toRat = mant b * 2^((bitLength b.val.natAbs : ℤ) - 62 - 1074) :=
      toRat_eq_mantissa hpos (by norm_num : 53 ≤ 62)
    rw [haval, hbval, hscale, add_mul]
  · rw [haval, toRat_of_neg (by omega), hscale, sub_mul]
    ring

end Aligned

section ShiftCast
variable {m g : ℕ}

lemma shift_up_bounds (m g : ℕ) : (m : ℚ) / 2^g ≤ shift m g 1 ∧ (shift m g 1 : ℚ) < m / 2^g + 1 := by
  have hpos : (0:ℚ) < 2^g := by positivity
  rw [shift_eq_roundBy, div_le_iff₀ hpos, ← sub_lt_iff_lt_add, lt_div_iff₀ hpos, sub_mul, one_mul, sub_lt_iff_lt_add]
  exact ⟨by exact_mod_cast le_roundBy m g (by norm_num : (0:ℤ) < 1), by exact_mod_cast roundBy_lt m g 1⟩

lemma shift_down_bounds (m g : ℕ) : (shift m g (-1) : ℚ) ≤ m / 2^g ∧ (m : ℚ) / 2^g < shift m g (-1) + 1 := by
  have hpos : (0:ℚ) < 2^g := by positivity
  rw [shift_eq_roundBy, le_div_iff₀ hpos, div_lt_iff₀ hpos, add_mul, one_mul]
  exact ⟨by exact_mod_cast roundBy_le m g (by norm_num : (-1:ℤ) < 0), by exact_mod_cast lt_roundBy m g (-1)⟩

lemma shift_exact (h : 2^g ∣ m) (r : ℤ) : (shift m g r : ℚ) = m / 2^g := by
  rw [shift_eq_roundBy, eq_div_iff (by positivity)]
  exact_mod_cast roundBy_of_dvd r h

lemma shift_inexact (h : ¬2^g ∣ m) (r : ℤ) : (shift m g r : ℚ) ≠ m / 2^g := by
  intro heq
  rw [eq_div_iff (by positivity)] at heq
  exact h (Dvd.intro_left _ (by exact_mod_cast heq))

end ShiftCast

/-- `Add` keeps both directions: rounding up is not below the exact sum, rounding down not above. -/
def AddDirected (a b : UniFloat) : Prop :=
  a.toRat + b.toRat ≤ (add a b 1 false).toRat ∧ (add a b (-1) false).toRat ≤ a.toRat + b.toRat

/-- The subtrahend is aligned without dropping a bit, or both differences that its two roundings give
have more than 52 bits and are rounded again. -/
def DifferenceKept (a b : UniFloat) : Prop :=
  2^gap a b ∣ mant b ∨ ¬Is52 (mant a - shift (mant b) (gap a b) 1) ∧ ¬Is52 (mant a - shift (mant b) (gap a b) (-1))

/-- The operands whose sum is rounded in the direction asked for. -/
def AddKeepsDirection (a b : UniFloat) : Prop :=
  a.val = 0 ∨ b.val = 0 ∨ Is52 (a.val + b.val).natAbs ∨
    (0 < a.val + b.val ∧ gap a b < 62 ∧ gap b a < 62 ∧
      (b.val < 0 → DifferenceKept a b) ∧ (a.val < 0 → DifferenceKept b a))

section Near
variable {a b : UniFloat} (ha : 0 < a.val) (hb : b.val ≠ 0) (hle : b.val.natAbs ≤ a.val.natAbs)
  (hnear : gap a b < 62) (hmax : a.toRat + b.toRat ≤ max.toRat)
include ha hb hle

lemma alignedSum_cast (r : ℤ) : (alignedSum a b r : ℚ) =
    if 0 < b.val then (mant a : ℚ) + shift (mant b) (gap a b) r else (mant a : ℚ) - shift (mant b) (gap a b) r := by
  unfold alignedSum
  split_ifs
  · exact Nat.cast_add _ _
  · exact Nat.cast_sub (shift_le_mant ha hb hle r)

lemma alignedSum_exact (hdvd : 2^gap a b ∣ mant b) (r : ℤ) : (alignedSum a b r : ℚ) = alignedExact a b := by
  rw [alignedSum_cast ha hb hle, alignedExact, shift_exact hdvd]

include hnear

include hmax in
lemma le_add_iff (r : ℤ) : a.toRat + b.toRat ≤ (add a b r false).toRat ↔
    alignedExact a b ≤ round52 r (alignedSum a b r) := by
  have hpos : (0:ℚ) < 2^((bitLength a.val.natAbs : ℤ) - 62 - 1074) := by positivity
  rw [add_toRat ha hb hle hnear, le_min_iff, and_iff_left hmax, toRat_add_toRat ha hb hle, mul_le_mul_iff_left₀ hpos]

lemma add_le_iff (hlt : a.toRat + b.toRat < max.toRat) (r : ℤ) : (add a b r false).toRat ≤ a.toRat + b.toRat ↔
    (round52 r (alignedSum a b r) : ℚ) ≤ alignedExact a b := by
  have hpos : (0:ℚ) < 2^((bitLength a.val.natAbs : ℤ) - 62 - 1074) := by positivity
  rw [add_toRat ha hb hle hnear, min_le_iff, or_iff_left hlt.not_ge, toRat_add_toRat ha hb hle,
    mul_le_mul_iff_left₀ hpos]

omit hb hle hnear in
/-- A difference of two floats is below the larger one. -/
lemma add_lt_max (hneg : b.val < 0) : a.toRat + b.toRat < max.toRat := by
  have hb : b.toRat < 0 := div_neg_of_neg_of_pos (by exact_mod_cast hneg) (by positivity)
  have ha : a.toRat ≤ max.toRat := by
    rw [toRat_le_iff, le_iff, val_max]
    have := a.isDouble.1
    omega
  linarith

include hmax in
/-- With the larger operand positive, the direction is lost in a difference only. -/
theorem addDirected_iff_of_near : AddDirected a b ↔ (b.val < 0 → DifferenceKept a b) := by
  have hup := shift_up_bounds (mant b) (gap a b)
  have hdown := shift_down_bounds (mant b) (gap a b)
  have hcast1 := alignedSum_cast ha hb hle 1
  have hcast2 := alignedSum_cast ha hb hle (-1)
  have hle1 : (alignedSum a b 1 : ℚ) ≤ round52 1 (alignedSum a b 1) := by
    exact_mod_cast le_roundBy (alignedSum a b 1) _ (by norm_num : (0:ℤ) < 1)
  have hle2 : (round52 (-1) (alignedSum a b (-1)) : ℚ) ≤ alignedSum a b (-1) := by
    exact_mod_cast roundBy_le (alignedSum a b (-1)) _ (by norm_num : (-1:ℤ) < 0)
  rw [AddDirected, le_add_iff ha hb hle hnear hmax]
  rcases lt_or_gt_of_ne hb with hneg | hpos
  · rw [add_le_iff ha hb hle hnear (add_lt_max ha hneg)]
    rw [if_neg hneg.not_gt] at hcast1 hcast2
    have hexact : alignedExact a b = mant a - mant b / 2^gap a b := if_neg hneg.not_gt
    have hsum (r : ℤ) : alignedSum a b r = mant a - shift (mant b) (gap a b) r := if_neg hneg.not_gt
    rw [DifferenceKept, ← hsum, ← hsum]
    constructor
    · rintro ⟨h1, h2⟩ -
      by_contra hcon
      obtain ⟨hdvd, h52⟩ := not_or.1 hcon
      have hne1 := shift_inexact hdvd 1
      have hne2 := shift_inexact hdvd (-1)
      refine h52 ⟨fun h => hne1 (le_antisymm ?_ hup.1), fun h => hne2 (le_antisymm hdown.1 ?_)⟩
      · rw [round52_of_is52 h] at h1
        linarith
      · rw [round52_of_is52 h] at h2
        linarith
    · intro h
      rcases h hneg with hdvd | ⟨hn1, hn2⟩
      · rw [← alignedSum_exact ha hb hle hdvd 1]
        refine ⟨hle1, ?_⟩
        rw [alignedSum_exact ha hb hle hdvd 1, ← alignedSum_exact ha hb hle hdvd (-1)]
        exact hle2
      · have hlt1 : (alignedSum a b 1 : ℚ) + 1 ≤ round52 1 (alignedSum a b 1) := by
          exact_mod_cast lt_roundBy_of_not_is52 (by norm_num : (0:ℤ) < 1) hn1
        have hlt2 : (round52 (-1) (alignedSum a b (-1)) : ℚ) + 1 ≤ alignedSum a b (-1) := by
          exact_mod_cast roundBy_lt_of_not_is52 (by norm_num : (-1:ℤ) < 0) hn2
        constructor <;> linarith
  · rw [if_pos hpos] at hcast1 hcast2
    have hexact : alignedExact a b = mant a + mant b / 2^gap a b := if_pos hpos
    have hscaled : (round52 (-1) (alignedSum a b (-1)) : ℚ) ≤ alignedExact a b := by linarith
    refine iff_of_true ⟨by linarith, ?_⟩ fun h => absurd h hpos.not_gt
    rw [add_toRat ha hb hle hnear, toRat_add_toRat ha hb hle]
    exact min_le_of_left_le (mul_le_mul_of_nonneg_right hscaled (by positivity))

include hmax in
/-- The other way round the two inequalities hold only when nothing is rounded. -/
theorem flipped_iff_of_near : (add a b 1 false).toRat ≤ a.toRat + b.toRat ∧
    a.toRat + b.toRat ≤ (add a b (-1) false).toRat ↔ Is52 (a.val + b.val).natAbs := by
  have hup := shift_up_bounds (mant b) (gap a b)
  have hdown := shift_down_bounds (mant b) (gap a b)
  have hcast1 := alignedSum_cast ha hb hle 1
  have hcast2 := alignedSum_cast ha hb hle (-1)
  have hle1 : (alignedSum a b 1 : ℚ) ≤ round52 1 (alignedSum a b 1) := by
    exact_mod_cast le_roundBy (alignedSum a b 1) _ (by norm_num : (0:ℤ) < 1)
  have hle2 : (round52 (-1) (alignedSum a b (-1)) : ℚ) ≤ alignedSum a b (-1) := by
    exact_mod_cast roundBy_le (alignedSum a b (-1)) _ (by norm_num : (-1:ℤ) < 0)
  rw [le_add_iff ha hb hle hnear hmax]
  constructor
  · rintro ⟨h1, h2⟩
    -- the sum rounded down reaches the exact sum, so the alignment or the second rounding was exact
    by_cases hdvd : 2^gap a b ∣ mant b
    · rw [← alignedSum_exact ha hb hle hdvd (-1)] at h2
      rw [← is52_alignedSum_iff ha hle hdvd (-1)]
      by_contra h52
      have : (round52 (-1) (alignedSum a b (-1)) : ℚ) < alignedSum a b (-1) := by
        exact_mod_cast roundBy_lt_of_not_is52 (by norm_num : (-1:ℤ) < 0) h52
      linarith
    · exfalso
      have hne1 := shift_inexact hdvd 1
      have hne2 := shift_inexact hdvd (-1)
      have hgt1 : (mant b : ℚ) / 2^gap a b < shift (mant b) (gap a b) 1 := lt_of_le_of_ne hup.1 hne1.symm
      have hlt2 : (shift (mant b) (gap a b) (-1) : ℚ) < mant b / 2^gap a b := lt_of_le_of_ne hdown.1 hne2
      rcases lt_or_gt_of_ne hb with hneg | hpos
      · rw [add_le_iff ha hb hle hnear (add_lt_max ha hneg)] at h1
        rw [if_neg hneg.not_gt] at hcast1 hcast2
        have hexact : alignedExact a b = mant a - mant b / 2^gap a b := if_neg hneg.not_gt
        have hstep : alignedSum a b (-1) = alignedSum a b 1 + 1 := by
          have h3 : (alignedSum a b (-1) : ℚ) < alignedSum a b 1 + 2 := by linarith
          have h4 : (alignedSum a b 1 : ℚ) < alignedSum a b (-1) := by linarith
          have h3' : alignedSum a b (-1) < alignedSum a b 1 + 2 := by exact_mod_cast h3
          have h4' : alignedSum a b 1 < alignedSum a b (-1) := by exact_mod_cast h4
          omega
        have heq1 : round52 1 (alignedSum a b 1) = alignedSum a b 1 := by
          have h3 : (round52 1 (alignedSum a b 1) : ℚ) < alignedSum a b 1 + 1 := by linarith
          have h3' : round52 1 (alignedSum a b 1) < alignedSum a b 1 + 1 := by exact_mod_cast h3
          have h4' : alignedSum a b 1 ≤ round52 1 (alignedSum a b 1) := by exact_mod_cast hle1
          omega
        have heq2 : round52 (-1) (alignedSum a b (-1)) = alignedSum a b (-1) := by
          have h3 : (alignedSum a b (-1) : ℚ) < round52 (-1) (alignedSum a b (-1)) + 1 := by linarith
          have h3' : alignedSum a b (-1) < round52 (-1) (alignedSum a b (-1)) + 1 := by exact_mod_cast h3
          have h4' : round52 (-1) (alignedSum a b (-1)) ≤ alignedSum a b (-1) := by exact_mod_cast hle2
          omega
        -- two neighbours of more than 53 bits are not both even
        have hlarge : 2^53 ≤ alignedSum a b 1 := by
          have hgap : 9 < gap a b := not_le.1 fun h => hdvd (dvd_mant_of_gap_le h)
          have hbounds := mant_bounds ha hb
          have hsmall : (mant b : ℚ) / 2^gap a b < 2^53 := by
            have hpow : (2:ℚ)^9 ≤ 2^gap a b := pow_le_pow_right₀ (by norm_num) hgap.le
            have hb62 : (mant b : ℚ) < 2^62 := by exact_mod_cast hbounds.2.2.2
            rw [div_lt_iff₀ (by positivity)]
            linarith
          have ha61 : (2:ℚ)^61 ≤ mant a := by exact_mod_cast hbounds.1
          have : (2:ℚ)^53 ≤ alignedSum a b 1 := by linarith
          exact_mod_cast this
        have heven (r : ℤ) (y : ℕ) (hy : 2^53 ≤ y) (heq : round52 r y = y) : 2 ∣ y := by
          have hlen : 53 < bitLength y := lt_bitLength_iff.2 hy
          have h2 : 2^1 ∣ 2^excess 52 y := pow_dvd_pow 2 (by unfold excess; omega)
          exact h2.trans (Dvd.intro_left _ heq)
        have he1 := heven 1 _ hlarge heq1
        have he2 := heven (-1) _ (by omega) heq2
        omega
      · rw [if_pos hpos] at hcast2
        have hexact : alignedExact a b = mant a + mant b / 2^gap a b := if_pos hpos
        linarith
  · intro h52
    have hdvd := dvd_mant_of_is52 ha hle h52
    have hround (r : ℤ) : (round52 r (alignedSum a b r) : ℚ) = alignedExact a b := by
      rw [round52_of_is52 ((is52_alignedSum_iff ha hle hdvd r).2 h52), alignedSum_exact ha hb hle hdvd]
    refine ⟨?_, (hround (-1)).ge⟩
    rw [add_toRat ha hb hle hnear, toRat_add_toRat ha hb hle, hround]
    exact min_le_left _ _

end Near

lemma addDirected_comm (a b : UniFloat) : AddDirected a b ↔ AddDirected b a := by
  rw [AddDirected, AddDirected, add_comm a b, add_comm a b, Rat.add_comm a.toRat]

lemma AddKeepsDirection.symm {a b : UniFloat} (h : AddKeepsDirection a b) : AddKeepsDirection b a := by
  unfold AddKeepsDirection
  rw [Int.add_comm b.val]
  rcases h with h | h | h | ⟨hpos, hab, hba, hb, ha⟩
  · exact Or.inr (Or.inl h)
  · exact Or.inl h
  · exact Or.inr (Or.inr (Or.inl h))
  · exact Or.inr (Or.inr (Or.inr ⟨hpos, hba, hab, ha, hb⟩))

lemma addKeepsDirection_comm (a b : UniFloat) : AddKeepsDirection a b ↔ AddKeepsDirection b a :=
  ⟨AddKeepsDirection.symm, AddKeepsDirection.symm⟩

section Larger
variable {a b : UniFloat} (hb : b.val ≠ 0) (hle : b.val.natAbs ≤ a.val.natAbs)
include hb hle

/-- An operand 62 bits or more below the other one is left out. -/
lemma add_of_gap (ha : 0 < a.val) (hfar : 62 ≤ gap a b) (r : ℤ) : add a b r false = a := by
  have hlen := bitLength_add_gap hle
  have hbounds := mant_bounds ha hb
  have hda : decompose a 62 0 = ⟨mant a, (bitLength a.val.natAbs : ℤ) - 62 - 1074, 1⟩ := decompose_pos ha (by norm_num) 0
  have hdb : decompose b 62 0 = ⟨mant b, (bitLength b.val.natAbs : ℤ) - 62 - 1074, signOf b.val⟩ :=
    decompose_exact hb (by norm_num) 0
  have ha0 : mant a ≠ 0 := by omega
  have hb0 : mant b ≠ 0 := by omega
  simp only [add, hda, hdb, Bool.false_eq_true, if_false, ne_eq, ha0, hb0, not_false_eq_true, and_self, if_true,
    false_or]
  rw [if_pos (by omega), ← hda, recompose_decompose]

lemma not_is52_of_gap (ha : 0 < a.val) (hfar : 62 ≤ gap a b) : ¬Is52 (a.val + b.val).natAbs := by
  intro h52
  have hbounds := mant_bounds ha hb
  have hle := Nat.le_of_dvd (by omega) (dvd_mant_of_is52 ha hle h52)
  have : 2^62 ≤ 2^gap a b := Nat.pow_le_pow_right (by norm_num) hfar
  omega

omit hle in
lemma toRat_ne_zero : b.toRat ≠ 0 :=
  div_ne_zero (by exact_mod_cast hb) (by positivity)

omit hb in
lemma gap_eq_zero : gap b a = 0 := by
  have := bitLength_mono hle
  unfold gap
  omega

/-- The larger operand is positive. -/
lemma addDirected_iff_of_pos (ha : 0 < a.val) (hmax : a.toRat + b.toRat ≤ max.toRat) :
    AddDirected a b ↔ AddKeepsDirection a b := by
  have hzero := gap_eq_zero hle
  rcases lt_or_ge (gap a b) 62 with hnear | hfar
  · rw [addDirected_iff_of_near ha hb hle hnear hmax]
    have h52 : Is52 (a.val + b.val).natAbs → DifferenceKept a b := fun h => Or.inl (dvd_mant_of_is52 ha hle h)
    have hsum : a.val + b.val = 0 → Is52 (a.val + b.val).natAbs := by
      intro h
      rw [h]
      exact is52_of_le (Nat.zero_le _)
    constructor
    · intro h
      rcases (by omega : 0 < a.val + b.val ∨ a.val + b.val = 0) with hpos | heq
      · exact Or.inr (Or.inr (Or.inr ⟨hpos, hnear, by omega, h, fun hneg => absurd hneg ha.not_gt⟩))
      · exact Or.inr (Or.inr (Or.inl (hsum heq)))
    · rintro (h | h | h | ⟨-, -, -, h, -⟩) hneg
      · exact absurd h ha.ne'
      · exact absurd h hb
      · exact h52 h
      · exact h hneg
  · refine iff_of_false (fun h => ?_) ?_
    · rw [AddDirected, add_of_gap hb hle ha hfar, add_of_gap hb hle ha hfar] at h
      exact toRat_ne_zero hb (by linarith [h.1, h.2])
    · rintro (h | h | h | ⟨-, hnear, -⟩)
      · exact absurd h ha.ne'
      · exact absurd h hb
      · exact not_is52_of_gap hb hle ha hfar h
      · omega

/-- The larger operand is negative: the sum of the negated operands is rounded the other way. -/
lemma addDirected_iff_of_neg (ha : a.val < 0) (hmax : -(a.toRat + b.toRat) ≤ max.toRat) :
    AddDirected a b ↔ AddKeepsDirection a b := by
  have hzero := gap_eq_zero hle
  have hna : 0 < (-a).val := by
    rw [val_neg]
    omega
  have hnb : (-b).val ≠ 0 := by
    rw [val_neg]
    omega
  have hnle : (-b).val.natAbs ≤ (-a).val.natAbs := by
    rwa [val_neg, val_neg, Int.natAbs_neg, Int.natAbs_neg]
  have hngap : gap (-a) (-b) = gap a b := by
    rw [gap, gap, val_neg, val_neg, Int.natAbs_neg, Int.natAbs_neg]
  have hnsum : ((-a).val + (-b).val).natAbs = (a.val + b.val).natAbs := by
    rw [val_neg, val_neg, ← neg_add, Int.natAbs_neg]
  have hflip : AddDirected a b ↔ (add (-a) (-b) 1 false).toRat ≤ (-a).toRat + (-b).toRat ∧
      (-a).toRat + (-b).toRat ≤ (add (-a) (-b) (-1) false).toRat := by
    rw [add_neg, add_neg, toRat_neg, toRat_neg, toRat_neg, toRat_neg, AddDirected, ← neg_add, neg_le_neg_iff,
      neg_le_neg_iff]
  have hkeeps : AddKeepsDirection a b ↔ Is52 (a.val + b.val).natAbs := by
    constructor
    · rintro (h | h | h | ⟨hpos, -⟩)
      · exact absurd h ha.ne
      · exact absurd h hb
      · exact h
      · omega
    · exact fun h => Or.inr (Or.inr (Or.inl h))
  rw [hflip, hkeeps, ← hnsum]
  rcases lt_or_ge (gap a b) 62 with hnear | hfar
  · refine flipped_iff_of_near hna hnb hnle (by omega) ?_
    rw [toRat_neg, toRat_neg]
    linarith
  · refine iff_of_false (fun h => ?_) (not_is52_of_gap hnb hnle hna (by omega))
    rw [add_of_gap hnb hnle hna (by omega), add_of_gap hnb hnle hna (by omega)] at h
    exact toRat_ne_zero hnb (by linarith [h.1, h.2])

end Larger

/-- `Add` rounds a sum within the range of doubles in the direction asked for exactly on the operands
of `AddKeepsDirection`. -/
theorem addDirected_iff (a b : UniFloat) (hmax : |a.toRat + b.toRat| ≤ max.toRat) :
    AddDirected a b ↔ AddKeepsDirection a b := by
  obtain ⟨hlow, hhigh⟩ := abs_le.1 hmax
  have larger {a b : UniFloat} (hb : b.val ≠ 0) (hle : b.val.natAbs ≤ a.val.natAbs)
      (hlow : -max.toRat ≤ a.toRat + b.toRat) (hhigh : a.toRat + b.toRat ≤ max.toRat) :
      AddDirected a b ↔ AddKeepsDirection a b := by
    rcases lt_or_ge 0 a.val with hpos | hneg
    · exact addDirected_iff_of_pos hb hle hpos hhigh
    · exact addDirected_iff_of_neg hb hle (by omega) (by linarith)
  rcases eq_or_ne b.val 0 with hb | hb
  · rw [show b = 0 from UniFloat.ext hb]
    refine iff_of_true ?_ (Or.inr (Or.inl rfl))
    rw [AddDirected, add_zero, add_zero, toRat_zero, Rat.add_zero]
    exact ⟨le_rfl, le_rfl⟩
  rcases eq_or_ne a.val 0 with ha | ha
  · rw [show a = 0 from UniFloat.ext ha]
    refine iff_of_true ?_ (Or.inl rfl)
    rw [AddDirected, add_comm 0 b 1, add_comm 0 b (-1), add_zero, add_zero, toRat_zero, Rat.zero_add]
    exact ⟨le_rfl, le_rfl⟩
  rcases le_total b.val.natAbs a.val.natAbs with hle | hle
  · exact larger hb hle hlow hhigh
  · rw [addDirected_comm, addKeepsDirection_comm]
    rw [Rat.add_comm] at hlow hhigh
    exact larger ha hle hlow hhigh

/-- `2^-100`. -/
def pow2Neg100 : UniFloat := ⟨(1 * 2^974 : ℕ), isDouble_mul_pow (by norm_num) 974 (by decide +kernel)⟩

lemma pow2Neg100_pos : (0 : UniFloat) < pow2Neg100 := by
  have h : 0 < pow2Neg100.val := by decide +kernel
  exact h

lemma pow2Neg100_le_one : pow2Neg100 ≤ 1 := by
  have h : pow2Neg100.val ≤ (1 : UniFloat).val := by decide +kernel
  exact h

lemma gap_pow2Neg100 : gap 1 pow2Neg100 = 100 := by decide +kernel

lemma one_add_pow2Neg100 : |toRat 1 + pow2Neg100.toRat| ≤ max.toRat := by
  have hpos := toRat_pos pow2Neg100_pos
  have hle : pow2Neg100.toRat ≤ toRat 1 := toRat_le_iff.2 pow2Neg100_le_one
  have htwo : (2:ℚ) ≤ max.toRat := by
    obtain ⟨c, hc⟩ : ∃ c, dblMax = 2 * 2^1074 + c := ⟨dblMax - 2 * 2^1074, by decide +kernel⟩
    rw [toRat, val_max, le_div_iff₀ (by positivity), Int.cast_natCast, hc, Nat.cast_add, Nat.cast_mul, Nat.cast_pow,
      Nat.cast_ofNat]
    exact le_add_of_nonneg_right (Nat.cast_nonneg c)
  rw [toRat_one] at hle ⊢
  rw [abs_of_pos (by linarith)]
  linarith

/-- Rounding up, the sum of `1` and `2^-100` is `1`. -/
theorem add_up_loses : ¬∀ a b : UniFloat, |a.toRat + b.toRat| ≤ max.toRat → AddDirected a b := by
  intro h
  have hb : pow2Neg100.val ≠ 0 := (lt_iff.1 pow2Neg100_pos).ne'
  have hle : pow2Neg100.val.natAbs ≤ (1 : UniFloat).val.natAbs := by decide +kernel
  have hone : 0 < (1 : UniFloat).val := by decide +kernel
  have hup := (h 1 pow2Neg100 one_add_pow2Neg100).1
  rw [add_of_gap hb hle hone (by rw [gap_pow2Neg100]; norm_num)] at hup
  have hpos := toRat_pos pow2Neg100_pos
  linarith

theorem addDirected_iff_pow2Neg100 : AddDirected 1 pow2Neg100 ↔ AddKeepsDirection 1 pow2Neg100 :=
  addDirected_iff 1 pow2Neg100 one_add_pow2Neg100

end UniFloat
end CredaCash
