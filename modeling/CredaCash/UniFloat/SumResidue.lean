import CredaCash.UniFloat.DirectedSum
import CredaCash.UniFloat.Residue

/-! What a sum loses, as signed remainders of its exact operands: the bits that alignment shifts out of the shorter
operand, and those beyond 52 of the aligned sum. -/

namespace CredaCash
open Rounding

/-- What is cut off an operand that is aligned to a length of `L` bits, of which 62 are kept; it is dropped when it is
shorter by 62 bits or more. -/
def alignLost (L : ℕ) (b : ℤ) : ℤ :=
  if bitLength b.natAbs + 62 ≤ L then b else b.sign * Int.bmod b.natAbs (2^(L - 62))

/-- What `Add` cuts off both operands. -/
def cutLost (a b : ℤ) : ℤ :=
  alignLost (Max.max (bitLength a.natAbs) (bitLength b.natAbs)) a +
    alignLost (Max.max (bitLength a.natAbs) (bitLength b.natAbs)) b

/-- What is lost in a sum altogether. -/
def sumLost (a b : ℤ) : ℤ :=
  cutLost a b + (a + b - cutLost a b).sign * lost (a + b - cutLost a b).natAbs 0

/-- The magnitudes that arithmetic leaves: 52 bits, or the largest double. -/
def Rounded (n : ℕ) : Prop := n = dblMax ∨ Is52 n

lemma alignLost_neg (L : ℕ) (b : ℤ) : alignLost L (-b) = -alignLost L b := by
  unfold alignLost
  rw [Int.natAbs_neg, Int.sign_neg]
  split_ifs <;> ring

lemma cutLost_neg (a b : ℤ) : cutLost (-a) (-b) = -cutLost a b := by
  unfold cutLost
  rw [Int.natAbs_neg, Int.natAbs_neg, alignLost_neg, alignLost_neg]
  ring

lemma cutLost_comm (a b : ℤ) : cutLost a b = cutLost b a := by
  unfold cutLost
  rw [max_comm, Int.add_comm]

lemma sumLost_neg (a b : ℤ) : sumLost (-a) (-b) = -sumLost a b := by
  unfold sumLost
  rw [cutLost_neg, show -a + -b - -cutLost a b = -(a + b - cutLost a b) by ring, Int.natAbs_neg, Int.sign_neg]
  ring

lemma sumLost_comm (a b : ℤ) : sumLost a b = sumLost b a := by
  unfold sumLost
  rw [cutLost_comm, Int.add_comm a b]

/-- Nothing is lost of what is stored already. -/
lemma lost_of_rounded {n : ℕ} (h : Rounded n) (hmax : n ≤ dblMax) : lost n 0 = 0 := by
  unfold lost
  rw [if_pos (Nat.zero_le _), pow_zero, mul_one]
  rcases h with h | h
  · have hbmod : Int.bmod dblMax (2^excess 52 dblMax) ≤ 0 := by decide +kernel
    rw [h, sub_self, max_eq_right hbmod]
  · rw [Int.bmod_eq_zero_of_dvd (Int.natCast_dvd_natCast.2 h), max_eq_left]
    omega

lemma store_zero (u : ℤ) : store 0 u = 0 := by
  have heven (k : ℕ) : halfEven 0 k = 0 := Nat.le_zero.1 (halfEven_le_iff.2 (by simp))
  have hex : excess 52 0 = 0 := rfl
  unfold store
  rw [hex, halfUp_zero, heven, zero_mul, Nat.zero_min, ite_self]

lemma alignLost_zero (L : ℕ) : alignLost L 0 = 0 := by
  unfold alignLost
  split_ifs <;> simp

namespace UniFloat
variable {L : ℕ} {a b : UniFloat}

/-- Nothing is cut off an operand that has the full length. -/
lemma alignLost_self (a : UniFloat) : alignLost (bitLength a.val.natAbs) a.val = 0 := by
  have hdvd : 2^(bitLength a.val.natAbs - 62) ∣ a.val.natAbs := by
    refine (pow_dvd_pow 2 ?_).trans a.isDouble.2
    unfold excess
    omega
  rw [alignLost, if_neg (by omega), Int.bmod_eq_zero_of_dvd (Int.natCast_dvd_natCast.2 hdvd), mul_zero]

lemma cutLost_of_le (hle : b.val.natAbs ≤ a.val.natAbs) :
    cutLost a.val b.val = alignLost (bitLength a.val.natAbs) b.val := by
  rw [cutLost, max_eq_left (bitLength_mono hle), alignLost_self, zero_add]

/-- What is left of an operand is its mantissa after the shift. -/
lemma sub_alignLost (hlen : bitLength b.val.natAbs ≤ L) (hnear : L < bitLength b.val.natAbs + 62) :
    (b.val - alignLost L b.val) * 2^62 = b.val.sign * (halfUp (mant b) (L - bitLength b.val.natAbs) * 2^L) := by
  have hscaled : halfUp (mant b) (L - bitLength b.val.natAbs) = halfUp (b.val.natAbs * 2^62) L := by
    rw [← mant_scaled b, ← halfUp_mul_pow_add _ _ (bitLength b.val.natAbs), Nat.sub_add_cancel hlen]
  have hsign : b.val.sign * b.val.natAbs = b.val := Int.sign_mul_natAbs _
  have hpart : ((b.val.natAbs : ℤ) - Int.bmod b.val.natAbs (2^(L - 62))) * 2^62 =
      halfUp (b.val.natAbs * 2^62) L * 2^L := by
    rcases le_or_gt 62 L with hlong | hshort
    · have hround := halfUp_mul_pow_add_bmod b.val.natAbs (L - 62)
      have hL : halfUp (b.val.natAbs * 2^62) L = halfUp b.val.natAbs (L - 62) := by
        conv_lhs => rw [← Nat.sub_add_cancel hlong]
        exact halfUp_mul_pow_add _ _ _
      have hpow : (2:ℤ)^L = 2^(L - 62) * 2^62 := by rw [← pow_add, Nat.sub_add_cancel hlong]
      rw [hL, hpow]
      linear_combination (-2^62 : ℤ) * hround
    · have hL : halfUp (b.val.natAbs * 2^62) L = b.val.natAbs * 2^(62 - L) := by
        rw [← halfUp_mul_pow (b.val.natAbs * 2^(62 - L)) L, mul_assoc, ← pow_add, Nat.sub_add_cancel hshort.le]
      have hpow : (2:ℤ)^62 = 2^(62 - L) * 2^L := by rw [← pow_add, Nat.sub_add_cancel hshort.le]
      rw [Nat.sub_eq_zero_of_le hshort.le, pow_zero, Int.bmod_one, sub_zero, hL, hpow]
      push_cast
      ring
  rw [alignLost, if_neg (by omega), hscaled]
  linear_combination (-2^62 : ℤ) * hsign + b.val.sign * hpart

section Sum
variable (ha : 0 < a.val) (hb : b.val ≠ 0) (hle : b.val.natAbs ≤ a.val.natAbs)
include ha hb hle

/-- The aligned sum is the exact sum without what alignment cuts off. -/
lemma sub_cutLost (hnear : gap a b < 62) :
    (a.val + b.val - cutLost a.val b.val) * 2^62 = alignedSum a b 0 * 2^bitLength a.val.natAbs := by
  have hlen := bitLength_add_gap hle
  have hcut := @sub_alignLost (bitLength a.val.natAbs) b (by omega) (by omega)
  have hshift := shift_le_mant ha hb hle 0
  have hmant : (mant a : ℤ) * 2^bitLength a.val.natAbs = a.val * 2^62 := by
    have hscaled := mant_scaled a
    zify at hscaled
    rwa [abs_of_pos ha] at hscaled
  rw [shift_nearest] at hshift
  rw [cutLost_of_le hle, add_sub_assoc, add_mul, hcut, ← hmant, alignedSum, shift_nearest, ← gap]
  split_ifs with hpos
  · rw [Int.sign_eq_one_of_pos hpos]
    push_cast
    ring
  · rw [Int.sign_eq_neg_one_of_neg (by omega)]
    push_cast [hshift]
    ring

lemma add_val_of_near (hnear : gap a b < 62) :
    (add a b 0 false).val = store (alignedSum a b 0) ((bitLength a.val.natAbs : ℤ) - 62) := by
  rw [add_eq_normalize ha hb hle hnear]
  rcases Nat.eq_zero_or_pos (alignedSum a b 0) with hzero | hpos
  · rw [hzero, store_zero]
    simp [recompose, normalize, signOf]
  · rw [signOf_pos (Int.natCast_pos.2 hpos), recompose_normalize_val]
    congr 2
    ring

lemma add_add_sumLost_of_near (hnear : gap a b < 62) :
    (add a b 0 false).val + sumLost a.val b.val = a.val + b.val := by
  have hsum := sub_cutLost ha hb hle hnear
  obtain ⟨t, ht⟩ : ∃ t : ℕ, a.val + b.val - cutLost a.val b.val = t := by
    refine Int.eq_ofNat_of_zero_le (nonneg_of_mul_nonneg_left (b := 2^62) ?_ (by norm_num))
    rw [hsum]
    positivity
  rw [ht] at hsum
  have hnat : t * 2^62 = alignedSum a b 0 * 2^bitLength a.val.natAbs := by exact_mod_cast hsum
  have hstore : store (alignedSum a b 0) ((bitLength a.val.natAbs : ℤ) - 62) = store t 0 := by
    rw [sub_eq_neg_add, ← store_mul_pow, ← hnat, store_mul_pow]
    rfl
  have hlost := store_mul_pow_add_lost t 0
  rw [pow_zero, mul_one, Nat.cast_zero, neg_zero] at hlost
  have hsign : (t : ℤ).sign * lost t 0 = lost t 0 := by
    rcases Nat.eq_zero_or_pos t with rfl | hpos
    · rw [lost_of_rounded (.inr (is52_of_le (Nat.zero_le _))) (Nat.zero_le _), mul_zero]
    · rw [Int.sign_eq_one_of_pos (Int.natCast_pos.2 hpos), one_mul]
  rw [add_val_of_near ha hb hle hnear, hstore, sumLost, ht, Int.natAbs_natCast, hsign]
  generalize store t 0 = s at hlost ⊢
  generalize lost t 0 = l at hlost ⊢
  omega

end Sum

/-- What `Add` gives and what it loses make up the exact sum. -/
theorem add_add_sumLost (ha : Rounded a.val.natAbs) (hb : Rounded b.val.natAbs) :
    (add a b 0 false).val + sumLost a.val b.val = a.val + b.val := by
  wlog hle : b.val.natAbs ≤ a.val.natAbs generalizing a b
  · rw [UniFloat.add_comm, sumLost_comm, this hb ha (not_le.1 hle).le, Int.add_comm]
  wlog hpos : 0 ≤ a.val generalizing a b
  · have hneg := @this (-a) (-b) (by rwa [val_neg, Int.natAbs_neg]) (by rwa [val_neg, Int.natAbs_neg])
      (by rwa [val_neg, val_neg, Int.natAbs_neg, Int.natAbs_neg]) (by rw [val_neg]; omega)
    rw [add_neg, val_neg, val_neg, val_neg, sumLost_neg] at hneg
    omega
  have hself : sumLost a.val 0 = 0 := by
    have hcut := @cutLost_of_le a 0 (Nat.zero_le _)
    rw [val_zero, alignLost_zero] at hcut
    rw [sumLost, hcut, Int.add_zero, Int.sub_zero, lost_of_rounded ha a.isDouble.1, mul_zero, Int.add_zero]
  rcases eq_or_ne b.val 0 with hzero | hne
  · obtain rfl : b = 0 := UniFloat.ext hzero
    rw [add_zero, val_zero, hself, Int.add_zero]
  have hapos : 0 < a.val := by omega
  rcases lt_or_ge (gap a b) 62 with hnear | hfar
  · exact add_add_sumLost_of_near hapos hne hle hnear
  · -- the shorter operand is dropped whole
    have hlen := bitLength_add_gap hle
    have hcut : cutLost a.val b.val = b.val := by rw [cutLost_of_le hle, alignLost, if_pos (by omega)]
    rw [add_of_gap hne hle hapos hfar, sumLost, hcut, add_sub_cancel_right, lost_of_rounded ha a.isDouble.1, mul_zero,
      Int.add_zero]

end UniFloat
end CredaCash
