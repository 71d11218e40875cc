import CredaCash.UniFloat.Mirror
import CredaCash.UniFloat.SumResidue

/-! The operands whose rounded quotient, sum or product does not exceed a given number are those up to a limit, given
in closed form. -/

namespace CredaCash
open Rounding

/-- Twice the midpoint above `n` on the grid of 52 bits. -/
def twiceMidpoint (n : ℕ) : ℕ := 2*n + 2^excess 52 n

lemma twiceMidpoint_pos (n : ℕ) : 0 < twiceMidpoint n :=
  Nat.add_pos_right _ (Nat.two_pow_pos _)

/-- The largest dividend whose quotient by `a` is rounded to at most `n`. -/
def quotientLimit (a n : ℕ) : ℕ :=
  let limit := (2^(63 + bitLength a) * ((4*n + slackAbove n) * a) - 1) / 2^1074
  (limit - a * 2^bitLength (limit / 2^(65 + bitLength a))) / 2^(65 + bitLength a)

/-- The numbers below it have a sum with `c` that is rounded to at most `n`. A negative `c` is cut as it is beside the
largest one of them. -/
def sumLimit (n : ℕ) (c : ℤ) : ℕ :=
  let k := twiceMidpoint n
  if (k : ℤ) ≤ 2*c then 0
  else if 0 ≤ c then
    let limit := 2^63*k - 2^64*c.natAbs - 1
    (limit - 2^(Max.max (bitLength (limit / 2^64)) (bitLength c.natAbs) + 1)) / 2^64 + 1
  else
    let d := c.natAbs
    ((k + 2*(d - alignLost (bitLength ((k + 2*d) / 2)) d) + 1) / 2).toNat

/-- Exact products below it, in units of `2^-2148`, are rounded to at most `n`. Below `2^51` units of `2^-1074` there
are two roundings, to 52 bits and then to a whole unit, a half going to the even one. -/
def productBound (n : ℕ) : ℕ :=
  if 2^51 ≤ n then twiceMidpoint n * 2^1073
  else if n % 2 = 0 then (2*n + 1)*2^1073 + 2^(bitLength (2*n + 1) + 1020)
  else (2*n + 1)*2^1073 - 2^(bitLength (2*n + 1) + 1020)

section Store
variable {t n : ℕ}

/-- A number longer than 52 bits keeps 52 bits, which are not shifted down when its unit is a whole one. -/
lemma lt_store_of_long {K : ℕ} (hsmall : n < 2^51) (hpos : 0 < excess 52 t) (hge : K ≤ excess 52 t) :
    (2*n + 1)*2^K + 2^K ≤ 2*t ∧ n < store t (-(K : ℤ)) := by
  have hlow := pow_le_of_excess_pos hpos
  have hfull := le_halfUp_excess (p := 52) (n := t) (by norm_num) (by unfold excess at hpos; omega)
  have ht : 2^51*2^K ≤ t := by
    rw [← pow_add]
    exact (Nat.pow_le_pow_right (by norm_num) (by omega)).trans hlow
  have hbound : (2*n + 1)*2^K + 2^K ≤ 2^52*2^K := by
    rw [← Nat.succ_mul]
    exact Nat.mul_le_mul_right _ (by omega)
  have hup : 0 ≤ -(K : ℤ) + excess 52 t := by omega
  refine ⟨by omega, ?_⟩
  rw [store, if_pos hup, lt_min_iff]
  refine ⟨?_, hsmall.trans (by decide +kernel)⟩
  exact hsmall.trans_le (hfull.trans (Nat.le_mul_of_pos_right _ (Nat.two_pow_pos _)))

/-- Rounding a whole number to 52 bits. -/
lemma store_zero_le_iff (h52 : Is52 n) (hfin : n < dblMax) : store t 0 ≤ n ↔ 2*t < twiceMidpoint n := by
  rcases le_or_gt (2^51) n with hlarge | hsmall
  · have hn : IsRate n := ⟨lt_of_lt_of_le (by norm_num) hlarge, hfin, h52⟩
    have hslack : slackAbove n = 2 * 2^excess 52 n := if_neg hlarge.not_gt
    rw [store_le_iff hn, BelowMidpoint, hslack, twiceMidpoint]
    simp only [Int.toNat_zero, neg_zero, pow_zero, mul_one]
    omega
  · have hex : excess 52 n = 0 := by
      have hlen := bitLength_le_iff.2 (hsmall.trans (by norm_num : 2^51 < 2^52))
      unfold excess
      omega
    rw [twiceMidpoint, hex, pow_zero]
    rcases Nat.eq_zero_or_pos (excess 52 t) with h0 | hpos
    · rw [store, if_pos (by omega), min_le_iff, or_iff_left hfin.not_ge, h0, halfUp_zero]
      simp only [Nat.cast_zero, add_zero, Int.toNat_zero, pow_zero, mul_one]
      omega
    · obtain ⟨hfar, hstore⟩ := lt_store_of_long (K := 0) hsmall hpos (Nat.zero_le _)
      rw [Nat.cast_zero, neg_zero] at hstore
      exact iff_of_false hstore.not_ge (by omega)

end Store

section Product
variable {y n : ℕ}

/-- The first rounding is by a unit of the 52 bits of `y`, for which one of the midpoint may be taken. -/
lemma near_midpoint_iff {m e K : ℕ} (hpos : 0 < m) (hm : bitLength m ≤ 52) (he : excess 52 y < K)
    (hE : e + 53 = bitLength m + K) : (2*y < m*2^K + 2^excess 52 y ↔ 2*y < m*2^K + 2^e) ∧
      (m ≠ 2^(bitLength m - 1) → (2*y + 2^excess 52 y < m*2^K ↔ 2*y + 2^e < m*2^K)) := by
  have hmlow := pow_le_of_bitLength_pos hpos
  have hmhigh := lt_pow_bitLength m
  obtain ⟨l, hl⟩ : ∃ l, bitLength m = l + 1 := ⟨bitLength m - 1, by have := bitLength_pos hpos; omega⟩
  rw [hl, Nat.add_sub_cancel] at hmlow
  rw [hl, pow_succ'] at hmhigh
  have hhalf : 2*2^e ≤ 2^K := by
    rw [← pow_succ']
    exact Nat.pow_le_pow_right (by norm_num) (by omega)
  have hhalf' : 2*2^excess 52 y ≤ 2^K := by
    rw [← pow_succ']
    exact Nat.pow_le_pow_right (by norm_num) (by omega)
  have hlow : 2^(l + K) ≤ m*2^K := by
    rw [pow_add]
    exact Nat.mul_le_mul_right _ hmlow
  have hhigh : m*2^K + 2^K ≤ 2*2^(l + K) := by
    rw [pow_add, ← mul_assoc, ← Nat.succ_mul]
    exact Nat.mul_le_mul_right _ hmhigh
  have hKpos : 0 < 2^K := by positivity
  rcases lt_trichotomy (bitLength y) (l + K) with hshort | heq | hlong
  · have hy : 2*y < 2^(l + K) := by
      have hlt := lt_pow_bitLength y
      have hpow : 2*2^bitLength y ≤ 2^(l + K) := by
        rw [← pow_succ']
        exact Nat.pow_le_pow_right (by norm_num) hshort
      omega
    refine ⟨iff_of_true (by omega) (by omega), fun hne => ?_⟩
    have hstep : 2^(l + K) + 2^K ≤ m*2^K := by
      rw [pow_add, ← Nat.succ_mul]
      refine Nat.mul_le_mul_right _ (lt_of_le_of_ne hmlow ?_)
      rwa [hl, Nat.add_sub_cancel, ne_comm] at hne
    exact iff_of_true (by omega) (by omega)
  · have hexp : excess 52 y = e := by
      unfold excess
      omega
    rw [hexp]
    exact ⟨Iff.rfl, fun _ => Iff.rfl⟩
  · have hy : 2^(l + K) ≤ y := lt_bitLength_iff.1 hlong
    exact ⟨iff_of_false (by omega) (by omega), fun _ => iff_of_false (by omega) (by omega)⟩

/-- The two roundings of a number that falls below the full 52 bits. -/
lemma store_le_iff_of_small {K e : ℕ} (hsmall : n < 2^51) (hK : 53 ≤ K) (he : e + 53 = bitLength (2*n + 1) + K) :
    store y (-(K : ℤ)) ≤ n ↔ if n % 2 = 0 then 2*y < (2*n + 1)*2^K + 2^e else 2*y + 2^e < (2*n + 1)*2^K := by
  have hm : bitLength (2*n + 1) ≤ 52 := bitLength_le_iff.2 (by omega)
  rcases lt_or_ge (excess 52 y) K with hlt | hge
  · obtain ⟨heven, hodd⟩ := near_midpoint_iff (by omega : 0 < 2*n + 1) hm hlt he
    obtain ⟨j, hj⟩ : ∃ j, K = excess 52 y + (j + 1) := ⟨K - excess 52 y - 1, by omega⟩
    have hexp : (-(-(K : ℤ) + excess 52 y)).toNat = j + 1 := by omega
    have hdown : ¬0 ≤ -(K : ℤ) + excess 52 y := by omega
    have hround (c : ℕ) := @halfUp_le_iff y (excess 52 y) c
    have hscale : 2*((2*n + 1)*2^j)*2^excess 52 y = (2*n + 1)*2^K := by
      rw [hj, pow_add, pow_succ]
      ring
    have hpos : 0 < (2*n + 1)*2^j := by positivity
    have hfin : n < dblMax := hsmall.trans (by decide +kernel)
    rw [store, if_neg hdown, hexp, min_le_iff, or_iff_left hfin.not_ge, halfEven_le_iff, pow_succ',
      mul_left_comm (2*n + 1)]
    clear hfin
    split_ifs with hpar
    · rw [Nat.mul_le_mul_left_iff (by norm_num), hround, add_mul, hscale, one_mul, heven]
    · rw [Nat.mul_lt_mul_left (by norm_num), ← hodd ?_]
      · have hlast : (2*((2*n + 1)*2^j - 1) + 1)*2^excess 52 y + 2^excess 52 y = (2*n + 1)*2^K := by
          rw [← hscale, ← Nat.succ_mul]
          congr 1
          omega
        rw [← Nat.le_sub_one_iff_lt hpos, hround]
        omega
      · -- an odd number above one is no power of two
        intro hpow
        rcases Nat.eq_zero_or_pos (bitLength (2*n + 1) - 1) with hzero | hlen
        · rw [hzero] at hpow
          omega
        · rw [← Nat.sub_add_cancel hlen, pow_succ] at hpow
          omega
  · obtain ⟨hfar, hstore⟩ := lt_store_of_long hsmall (lt_of_lt_of_le (by omega) hge) hge
    have hunit : 2^e ≤ 2^K := Nat.pow_le_pow_right (by norm_num) (by omega)
    have hpos := Nat.two_pow_pos e
    refine iff_of_false hstore.not_ge ?_
    split_ifs <;> omega

lemma store_le_iff_lt_bound (hn : Is52 n) (hfin : n < dblMax) :
    store y (-(1074 : ℕ)) ≤ n ↔ y < productBound n := by
  have hpow : (2:ℕ)^1074 = 2*2^1073 := by rw [← pow_succ']
  rcases lt_or_ge n (2^51) with hsmall | hlarge
  · have hlen := bitLength_pos (by omega : 0 < 2*n + 1)
    have hunit : 2^(bitLength (2*n + 1) + 1021) = 2*2^(bitLength (2*n + 1) + 1020) := pow_succ' 2 _
    have hiff := store_le_iff_of_small (y := y) (K := 1074) (e := bitLength (2*n + 1) + 1021) hsmall (by norm_num)
      (by omega)
    rw [hiff, productBound, if_neg hsmall.not_ge, hpow, hunit, mul_left_comm]
    clear hfin
    generalize (2*n + 1)*2^1073 = r
    split_ifs <;> omega
  · have hslack : slackAbove n = 2 * 2^excess 52 n := if_neg hlarge.not_gt
    rw [store_le_iff_high ⟨lt_of_lt_of_le (by norm_num) hlarge, hfin, hn⟩ hlarge, BelowMidpoint, hslack, productBound,
      if_pos hlarge, twiceMidpoint, neg_neg, Int.toNat_natCast, Int.toNat_neg_natCast, pow_zero, mul_one, hpow]
    generalize 2^1073 = r
    rw [show (4*n + 2*2^excess 52 n)*(2*r) = 4*((2*n + 2^excess 52 n)*r) by ring]
    omega

end Product

section Aligned
variable {L x g : ℕ}

/-- What is left of an operand once it is aligned to a length of `L` bits. -/
def aligned (L x : ℕ) : ℤ := x - alignLost L x

lemma aligned_far (h : bitLength x + 62 ≤ L) : aligned L x = 0 := by
  rw [aligned, alignLost, Int.natAbs_natCast, if_pos h, sub_self]

lemma aligned_near (h : L < bitLength x + 62) : aligned L x = halfUp x (L - 62) * 2^(L - 62) := by
  have hround := halfUp_mul_pow_add_bmod x (L - 62)
  have hsign : (x : ℤ).sign * Int.bmod x (2^(L - 62)) = Int.bmod x (2^(L - 62)) := by
    rcases Nat.eq_zero_or_pos x with rfl | hpos
    · simp
    · rw [Int.sign_eq_one_of_pos (Int.natCast_pos.2 hpos), one_mul]
  rw [aligned, alignLost, Int.natAbs_natCast, if_neg h.not_ge, hsign]
  linear_combination -hround

/-- Alignment keeps a number at or below a multiple of the unit. -/
lemma aligned_le (hg : 2^(L - 62) ∣ g) (hle : x ≤ g) : aligned L x ≤ g := by
  rcases le_or_gt (bitLength x + 62) L with hfar | hnear
  · rw [aligned_far hfar]
    exact Int.natCast_nonneg g
  · obtain ⟨c, rfl⟩ := hg
    have hup : halfUp x (L - 62) ≤ c := by
      rw [halfUp_le_iff, add_mul, one_mul]
      have hpos : 0 < 2^(L - 62) := by positivity
      linarith
    rw [aligned_near hnear, mul_comm (2^(L - 62)) c]
    exact_mod_cast Nat.mul_le_mul_right _ hup

lemma aligned_of_dvd (hpos : 0 < x) (hx : 2^(L - 62) ∣ x) : aligned L x = x := by
  have hlen := lt_bitLength_iff.2 (Nat.le_of_dvd hpos hx)
  obtain ⟨c, rfl⟩ := hx
  rw [aligned_near (by omega), mul_comm (2^(L - 62)) c, halfUp_mul_pow, Nat.cast_mul, Nat.cast_pow, Nat.cast_ofNat]

lemma aligned_nonneg (L x : ℕ) : 0 ≤ aligned L x := by
  rcases le_or_gt (bitLength x + 62) L with hfar | hnear
  · rw [aligned_far hfar]
  · rw [aligned_near hnear]
    positivity

/-- Less than a unit is lost. -/
lemma le_aligned_add (L x : ℕ) : (x : ℤ) * 2^62 ≤ aligned L x * 2^62 + 2^L := by
  rcases le_or_gt (bitLength x + 62) L with hfar | hnear
  · have hlt := lt_pow_bitLength x
    have hpow : 2^(bitLength x + 62) ≤ 2^L := Nat.pow_le_pow_right (by norm_num) hfar
    rw [pow_add] at hpow
    rw [aligned_far hfar, zero_mul, zero_add]
    zify at hlt hpow
    linarith
  · rw [aligned_near hnear]
    rcases le_or_gt 62 L with hlong | hshort
    · have hup := (halfUp_le_iff (n := x) (k := L - 62)).1 le_rfl
      have hpow : (2:ℤ)^L = 2^(L - 62) * 2^62 := by rw [← pow_add, Nat.sub_add_cancel hlong]
      have hpos : (0:ℤ) < 2^(L - 62) := by positivity
      rw [hpow]
      zify at hup
      linarith
    · rw [Nat.sub_eq_zero_of_le hshort.le, halfUp_zero, pow_zero, mul_one]
      exact le_add_of_nonneg_right (by positivity)

lemma aligned_le_two_mul (L x : ℕ) : aligned L x ≤ 2*x := by
  rcases le_or_gt (bitLength x + 62) L with hfar | hnear
  · rw [aligned_far hfar]
    positivity
  · have hdown := (le_halfUp_iff (n := x) (k := L - 62)).1 le_rfl
    rw [aligned_near hnear]
    rcases Nat.eq_zero_or_pos (halfUp x (L - 62)) with hzero | hpos
    · rw [hzero, Nat.cast_zero, zero_mul]
      positivity
    · have hunit := Nat.mul_le_mul_right (2^(L - 62)) hpos
      zify at hdown hunit
      linarith

@[simp] lemma aligned_zero (L : ℕ) : aligned L 0 = 0 := by
  rw [aligned, Nat.cast_zero, alignLost_zero, sub_zero]

/-- An operand keeps its own length. -/
lemma aligned_self (hx : 2^excess 53 x ∣ x) : aligned (bitLength x) x = x := by
  rcases Nat.eq_zero_or_pos x with rfl | hpos
  · rw [aligned_zero, Nat.cast_zero]
  · refine aligned_of_dvd hpos ((pow_dvd_pow 2 ?_).trans hx)
    unfold excess
    omega

lemma add_sub_cutLost (x y : ℕ) : (y : ℤ) + x - cutLost y x =
    aligned (Max.max (bitLength y) (bitLength x)) y + aligned (Max.max (bitLength y) (bitLength x)) x := by
  rw [aligned, aligned, cutLost, Int.natAbs_natCast, Int.natAbs_natCast]
  ring

lemma sub_sub_cutLost (x y : ℕ) : (y : ℤ) + -x - cutLost y (-x) =
    aligned (Max.max (bitLength y) (bitLength x)) y - aligned (Max.max (bitLength y) (bitLength x)) x := by
  rw [aligned, aligned, cutLost, Int.natAbs_neg, Int.natAbs_natCast, Int.natAbs_natCast, alignLost_neg]
  ring

end Aligned

section Positive
variable {x y n : ℕ} (hy : 2^excess 53 y ∣ y) (hn : Is52 n)

/-- A rounded number stays below a gap of an even number of its units just when the number does with half a unit
added. -/
lemma halfUp_add_lt_iff {j k : ℕ} (hj : 0 < j) : 2*(y + halfUp x k * 2^k) < 2*y + 2^k*2^10*j ↔
    2^64*(x + y) + 2^63*2^k < 2^63*(2*y + 2^k*2^10*j) := by
  have hunit : 0 < 2^k := by positivity
  have hup := @halfUp_le_iff x k (2^9*j - 1)
  have hleft : 2*(y + halfUp x k * 2^k) < 2*y + 2^k*2^10*j ↔ halfUp x k ≤ 2^9*j - 1 := by
    have hscale : halfUp x k * 2^k < 2^9*j*2^k ↔ halfUp x k < 2^9*j := Nat.mul_lt_mul_right hunit
    rw [show 2^k*2^10*j = 2*(2^9*j*2^k) by ring, show halfUp x k ≤ 2^9*j - 1 ↔ halfUp x k < 2^9*j by omega, ← hscale]
    omega
  have hmul : (2*(2^9*j - 1) + 1)*2^k + 2^k = 2^k*2^10*j := by
    calc _ = (2*(2^9*j - 1) + 1 + 1)*2^k := by ring
      _ = 2^10*j*2^k := by
        congr 1
        omega
      _ = _ := by ring
  rw [hleft, hup, ← hmul]
  generalize (2*(2^9*j - 1) + 1)*2^k = w
  omega

include hy hn

/-- The gap to the midpoint is a multiple of the unit of the smaller number. -/
lemma dvd_twiceMidpoint_sub (hlt : 2*y < twiceMidpoint n) : 2^excess 52 y ∣ twiceMidpoint n - 2*y := by
  have hroom := add_unit_le (by norm_num : 0 < 52) hn (lt_pow_bitLength n)
  have hlen : bitLength y ≤ bitLength n := by
    have hpos := Nat.two_pow_pos (bitLength n - 52)
    refine bitLength_le_iff.2 ?_
    unfold twiceMidpoint excess at hlt
    omega
  have hpow : 2^excess 52 y ∣ 2^excess 52 n := pow_dvd_pow 2 (Nat.sub_le_sub_right hlen 52)
  have htwice : 2^(excess 53 y + 1) ∣ 2*y := by
    rw [pow_succ']
    exact Nat.mul_dvd_mul_left 2 hy
  refine Nat.dvd_sub (Nat.dvd_add ((hpow.trans hn).mul_left 2) hpow) ((pow_dvd_pow 2 ?_).trans htwice)
  unfold excess
  omega

/-- Beside a larger operand the comparison is the exact one, with half a unit of the aligned sum added. -/
lemma aligned_add_lt_iff (hle : x ≤ y) : 2*(y + aligned (bitLength y) x) < twiceMidpoint n ↔
    2^64*(x + y) + 2^(bitLength y + 1) < 2^63*twiceMidpoint n := by
  have hpow : 0 < 2^(bitLength y + 1) := by positivity
  rcases lt_or_ge (2*y) (twiceMidpoint n) with hbelow | hge
  swap
  · have hnonneg := aligned_nonneg (bitLength y) x
    generalize 2^(bitLength y + 1) = r at hpow ⊢
    exact iff_of_false (by omega) (by omega)
  have hdvd := dvd_twiceMidpoint_sub hy hn hbelow
  obtain ⟨k, hk⟩ : ∃ k, twiceMidpoint n = 2*y + k := ⟨twiceMidpoint n - 2*y, by omega⟩
  rw [hk] at hbelow hdvd ⊢
  rw [Nat.add_sub_cancel_left] at hdvd
  have hkpos : 0 < k := by omega
  rcases lt_or_ge (bitLength y) 62 with hshort | hlong
  · -- nothing is cut off
    have hlen := bitLength_mono hle
    have hlt : 2^(bitLength y + 1) < 2^63 := Nat.pow_lt_pow_right (by norm_num) (by omega)
    rw [aligned_near (by omega), Nat.sub_eq_zero_of_le hshort.le, halfUp_zero, pow_zero]
    generalize 2^(bitLength y + 1) = r at hpow hlt ⊢
    omega
  obtain ⟨j, rfl⟩ : 2^(bitLength y - 62) * 2^10 ∣ k := by
    rw [← pow_add]
    refine (pow_dvd_pow 2 ?_).trans hdvd
    unfold excess
    omega
  have hsum : 2^(bitLength y + 1) = 2^63 * 2^(bitLength y - 62) := by
    rw [← pow_add]
    congr 1
    omega
  have hunit : 0 < 2^(bitLength y - 62) := by positivity
  have hj : 0 < j := Nat.pos_of_mul_pos_left hkpos
  rw [hsum]
  rcases le_or_gt (bitLength x + 62) (bitLength y) with hfar | hnear
  · have hx : x < 2^(bitLength y - 62) :=
      (lt_pow_bitLength x).trans_le (Nat.pow_le_pow_right (by norm_num) (by omega))
    rw [aligned_far hfar]
    generalize 2^(bitLength y - 62) = u at hunit hx hkpos ⊢
    refine iff_of_true (by omega) ?_
    nlinarith
  · rw [aligned_near hnear]
    exact_mod_cast halfUp_add_lt_iff (x := x) (y := y) (k := bitLength y - 62) hj

omit hy in
lemma sum_lt_iff {p c : ℕ} (hp : 2^excess 53 p ∣ p) (hc : 2^excess 53 c ∣ c) :
    2*((p : ℤ) + c - cutLost p c) < twiceMidpoint n ↔
    2^64*(p + c) + 2^(Max.max (bitLength p) (bitLength c) + 1) < 2^63*twiceMidpoint n := by
  rw [add_sub_cutLost]
  rcases le_total c p with hle | hle
  · rw [max_eq_left (bitLength_mono hle), aligned_self hp, aligned_add_lt_iff hp hn hle, Nat.add_comm c]
  · rw [max_eq_right (bitLength_mono hle), aligned_self hc, Int.add_comm, aligned_add_lt_iff hc hn hle]

omit hy in
/-- A sum of two positive numbers is at most `n` if the one is below the limit for the other. -/
lemma lt_sumLimit_iff_of_nonneg {p c : ℕ} (hp : 2^excess 53 p ∣ p) (hc : 2^excess 53 c ∣ c) :
    2*((p : ℤ) + c - cutLost p c) < twiceMidpoint n ↔ p < sumLimit n c := by
  unfold sumLimit
  simp only [Int.natAbs_natCast]
  rw [sum_lt_iff hn hp hc]
  have hpow : 0 < 2^(Max.max (bitLength p) (bitLength c) + 1) := by positivity
  split_ifs with hover hnonneg
  · refine iff_of_false ?_ (Nat.not_lt_zero p)
    generalize 2^(Max.max (bitLength p) (bitLength c) + 1) = r at hpow ⊢
    omega
  · rcases Nat.eq_zero_or_pos p with rfl | hpos
    · refine iff_of_true ?_ (Nat.succ_pos _)
      have hlt := (aligned_add_lt_iff hc hn (Nat.zero_le c)).1 (by rw [aligned_zero]; omega)
      rwa [bitLength_zero, max_eq_right (Nat.zero_le _)]
    · have hlimit := @le_limit_iff p 53 (2^64) 2 (bitLength c) (2^63*twiceMidpoint n - 2^64*c - 1) (by norm_num) hp
        hpos (by norm_num) (by norm_num)
      simp only [← pow_succ'] at hlimit
      rw [Nat.lt_succ_iff, ← hlimit]
      generalize 2^(Max.max (bitLength p) (bitLength c) + 1) = r at hpow ⊢
      omega
  · exact absurd (Int.natCast_nonneg c) hnonneg

end Positive

section Negative
variable {p d n : ℕ} (hp : 2^excess 53 p ∣ p) (hn : Is52 n)
include hp

omit hp in
lemma midpoint_length (n : ℕ) (hd : 0 < d) : 2^bitLength ((twiceMidpoint n + 2*d)/2) ≤ twiceMidpoint n + 2*d ∧
    twiceMidpoint n + 2*d < 2*2^bitLength ((twiceMidpoint n + 2*d)/2) := by
  have hpos : 0 < (twiceMidpoint n + 2*d)/2 := by omega
  have hlow := pow_le_of_bitLength_pos hpos
  have hhigh := lt_pow_bitLength ((twiceMidpoint n + 2*d)/2)
  have hlen := bitLength_pos hpos
  have htwice : 2^bitLength ((twiceMidpoint n + 2*d)/2) = 2*2^(bitLength ((twiceMidpoint n + 2*d)/2) - 1) := by
    rw [← pow_succ', Nat.sub_add_cancel hlen]
  omega

/-- A difference with a number shorter than the limit is below the midpoint, however `d` is aligned. -/
lemma lt_aligned_of_short {L k : ℕ} (hlow : 2*2^k ≤ twiceMidpoint n + 2*d) (hlen : bitLength p ≤ k) (hL : L ≤ k + 1) :
    2*(p : ℤ) < twiceMidpoint n + 2*aligned L d := by
  have hroom := add_unit_le (by norm_num : 0 < 53) hp (bitLength_le_iff.1 hlen)
  have hunit : 2^k ≤ 2^(k - 53) * 2^53 := by
    rw [← pow_add]
    exact Nat.pow_le_pow_right (by norm_num) (by omega)
  have hlost := le_aligned_add L d
  have hpow : 2^L ≤ 2*2^k := by
    rw [← pow_succ']
    exact Nat.pow_le_pow_right (by norm_num) hL
  have hkpos : 0 < 2^k := by positivity
  zify at hroom hunit hlow hpow hkpos
  generalize (2:ℤ)^k = w at *
  generalize (2:ℤ)^L = v at *
  omega

include hn in
/-- A difference of a longer number reaches the midpoint. Costs of 22 bits that lose bits are short, so the midpoint is
a multiple of the unit unless they are far from making up the difference. -/
lemma aligned_le_of_long {L : ℕ} (hd : 2^excess 22 d ∣ d) (hdpos : 0 < d) (hle : twiceMidpoint n + 2*d ≤ 2*p)
    (hL : L ≤ bitLength p) : twiceMidpoint n + 2*aligned L d ≤ 2*p := by
  by_cases hexact : 2^(L - 62) ∣ d
  · rw [aligned_of_dvd hdpos hexact]
    omega
  have hshort : bitLength d - 22 < L - 62 := not_le.1 fun hlong => hexact ((pow_dvd_pow 2 hlong).trans hd)
  have htwo := aligned_le_two_mul L d
  rcases le_or_gt (twiceMidpoint n + 4*d) (2*p) with hfar | hnear
  · omega
  have hppos : 0 < p := by omega
  have hlow := pow_le_of_bitLength_pos hppos
  have hsmall : d * 2^40 < 2^(bitLength p - 1) := by
    calc d * 2^40 < 2^bitLength d * 2^40 := Nat.mul_lt_mul_of_pos_right (lt_pow_bitLength d) (by norm_num)
      _ = 2^(bitLength d + 40) := (pow_add 2 _ _).symm
      _ ≤ 2^(bitLength p - 1) := Nat.pow_le_pow_right (by norm_num) (by omega)
  have hn52 := lt_pow_excess 52 n
  have hlong : L - 62 + 1 ≤ excess 52 n := by
    have hpow : 2^(bitLength p - 1) < 2^(54 + excess 52 n) := by
      unfold twiceMidpoint at hnear hle
      rw [pow_add] at hn52 ⊢
      omega
    have := (Nat.pow_lt_pow_iff_right (by norm_num)).1 hpow
    omega
  have hdvd : 2^(L - 62 + 1) ∣ 2*p - twiceMidpoint n := by
    have hpow := pow_dvd_pow 2 hlong
    refine Nat.dvd_sub (Dvd.dvd.mul_left (Dvd.dvd.trans (pow_dvd_pow 2 ?_) hp) 2)
      (Nat.dvd_add ((hpow.trans hn).mul_left 2) hpow)
    unfold excess
    omega
  obtain ⟨g, hg⟩ := hdvd
  rw [pow_succ, mul_right_comm] at hg
  have hround := @aligned_le L d (2^(L - 62) * g) (Nat.dvd_mul_right _ _) (by omega)
  omega

include hn in
/-- A difference with costs of 22 bits is at most `n` if the number is below the limit. -/
lemma lt_sumLimit_iff_of_neg (hd : 2^excess 22 d ∣ d) (hdpos : 0 < d) :
    2*((p : ℤ) + -d - cutLost p (-d)) < twiceMidpoint n ↔ p < sumLimit n (-d) := by
  obtain ⟨hlow, hhigh⟩ := midpoint_length n hdpos
  have hmid := twiceMidpoint_pos n
  have hd53 : 2^excess 53 d ∣ d := (pow_dvd_pow 2 (by unfold excess; omega)).trans hd
  have hlimit : p < sumLimit n (-d) ↔
      2*(p : ℤ) < twiceMidpoint n + 2*aligned (bitLength ((twiceMidpoint n + 2*d)/2)) d := by
    have hnonneg := aligned_nonneg (bitLength ((twiceMidpoint n + 2*d)/2)) d
    unfold sumLimit aligned at *
    simp only [Int.natAbs_neg, Int.natAbs_natCast]
    rw [if_neg (by omega), if_neg (by omega)]
    omega
  rw [sub_sub_cutLost, hlimit]
  have hdlen : bitLength d ≤ bitLength ((twiceMidpoint n + 2*d)/2) := bitLength_mono (by omega)
  obtain ⟨k, hk⟩ : ∃ k, bitLength ((twiceMidpoint n + 2*d)/2) = k + 1 :=
    ⟨bitLength ((twiceMidpoint n + 2*d)/2) - 1, by have := bitLength_pos hdpos; omega⟩
  rw [hk] at hlow hhigh hdlen ⊢
  have hshorter {L : ℕ} (hlen : bitLength p < k + 1) (hL : L ≤ k + 1) : 2*(p : ℤ) < twiceMidpoint n + 2*aligned L d :=
    lt_aligned_of_short hp (by rwa [pow_succ'] at hlow) (Nat.lt_succ_iff.1 hlen) hL
  rcases le_or_gt p d with hle | hlt
  · have hunit : 2^(bitLength d - 62) ∣ d := (pow_dvd_pow 2 (by unfold excess; omega)).trans hd53
    have hcut := aligned_le hunit hle
    rw [max_eq_right (bitLength_mono hle), aligned_self hd53]
    refine iff_of_true (by omega) ?_
    rcases ((bitLength_mono hle).trans hdlen).lt_or_eq with hlen | hlen
    · exact hshorter hlen le_rfl
    · rw [show k + 1 = bitLength d by have := bitLength_mono hle; omega, aligned_self hd53]
      omega
  · rw [max_eq_left (bitLength_mono hlt.le), aligned_self hp]
    rcases lt_trichotomy (bitLength p) (k + 1) with hlen | heq | hlong
    · have hcut := hshorter hlen hlen.le
      exact iff_of_true (by omega) (hshorter hlen le_rfl)
    · rw [heq]
      omega
    · have hreach : 2^(k + 1) ≤ p := lt_bitLength_iff.1 hlong
      have hcut := aligned_le_of_long hp hn (L := bitLength p) hd hdpos (by omega) le_rfl
      have hover := aligned_le_of_long hp hn (L := k + 1) hd hdpos (by omega) hlong.le
      exact iff_of_false (by omega) (by omega)

end Negative

namespace UniFloat

section Quotient
variable {q a : UniFloat} {n : ℕ}

theorem divide_le_iff_limit (ha : 0 < a.val) (hn : IsRate n) :
    (divide q a 0).val ≤ n ↔ q.val ≤ quotientLimit a.val.natAbs n := by
  rcases le_or_gt q.val 0 with hq | hq
  · exact iff_of_true ((divide_nonpos_val hq ha).trans (Int.natCast_nonneg n)) (hq.trans (Int.natCast_nonneg _))
  have hqpos : 0 < q.val.natAbs := natAbs_pos_iff.2 hq.ne'
  obtain ⟨A, hA⟩ : ∃ A : ℕ, a.val = A := ⟨a.val.natAbs, by omega⟩
  obtain ⟨Q, hQ⟩ : ∃ Q : ℕ, q.val = Q := ⟨q.val.natAbs, by omega⟩
  have hdouble := q.isDouble.2
  have htwo (k : ℕ) : ((2:ℤ)^k).natAbs = 2^k := Int.natAbs_pow 2 k
  rw [divide_le_iff_exact ha hn rfl, Int.natAbs_mul]
  rw [hA] at ha ⊢
  rw [hQ] at hqpos hdouble ⊢
  simp only [Int.natAbs_natCast] at hqpos hdouble ⊢
  have hApos : 0 < A := by omega
  have hunit : A * 2^(53 + 1) ≤ 2^(65 + bitLength A) := by
    calc A * 2^(53 + 1) ≤ 2^bitLength A * 2^65 :=
          Nat.mul_le_mul (lt_pow_bitLength A).le (Nat.pow_le_pow_right (by norm_num) (by norm_num))
      _ = 2^(65 + bitLength A) := by rw [← pow_add, Nat.add_comm]
  have hlimit := @le_limit_iff Q 53 (2^(65 + bitLength A)) A 0
    ((2^(63 + bitLength A) * ((4*n + slackAbove n) * A) - 1) / 2^1074) (by norm_num) hdouble hqpos
    (by positivity) hunit
  simp only [Nat.max_zero] at hlimit
  rw [Int.ofNat_le, quotientLimit, ← hlimit, Nat.le_div_iff_mul_le (Nat.two_pow_pos _), htwo,
    bitLength_mul_pow hqpos]
  have hsplit : (2:ℤ)^(65 + bitLength A) = 4*2^(63 + bitLength A) := by
    rw [show 65 + bitLength A = 63 + bitLength A + 2 by omega, pow_add]
    ring
  have hpos : 0 < 2^(63 + bitLength A) * ((4*n + slackAbove n) * A) := by
    have := slackAbove_pos n
    positivity
  rw [Nat.le_sub_one_iff_lt hpos, pow_add 2 (bitLength Q)]
  zify
  rw [hsplit]
  generalize (2:ℤ)^1074 = p
  rw [mul_sub, lt_sub_iff_add_lt]
  refine iff_of_eq (congrArg (· < _) ?_)
  ring

end Quotient

section Sum
variable {a b : UniFloat} {n : ℕ}

/-- `Add` rounds the sum of the aligned operands. -/
lemma add_val_of_cut (ha : Rounded a.val.natAbs) (hb : Rounded b.val.natAbs) {s : ℤ}
    (hs : a.val + b.val - cutLost a.val b.val = s) : (add a b 0 false).val = s.sign * store s.natAbs 0 := by
  have hsum := add_add_sumLost ha hb
  have hstore := store_mul_pow_add_lost s.natAbs 0
  have hsign := Int.sign_mul_natAbs s
  rw [pow_zero, mul_one, Nat.cast_zero, neg_zero] at hstore
  rw [sumLost, hs] at hsum
  linear_combination hsum + hs - hsign - s.sign * hstore

lemma add_rounded (ha : Rounded a.val.natAbs) (hb : Rounded b.val.natAbs) : Rounded (add a b 0 false).val.natAbs := by
  rw [add_val_of_cut ha hb rfl]
  generalize a.val + b.val - cutLost a.val b.val = s
  rw [Int.natAbs_mul, Int.natAbs_natCast]
  rcases eq_or_ne s 0 with rfl | hne
  · rw [Int.sign_zero, Int.natAbs_zero, zero_mul]
    exact .inr (is52_of_le (Nat.zero_le _))
  · rw [Int.natAbs_sign_of_ne_zero hne, one_mul]
    exact store_is52 _ _

lemma add_le_iff_cut (ha : Rounded a.val.natAbs) (hb : Rounded b.val.natAbs) (hn : Is52 n) (hfin : n < dblMax) :
    (add a b 0 false).val ≤ n ↔ 2*(a.val + b.val - cutLost a.val b.val) < twiceMidpoint n := by
  have hstore (t : ℕ) := store_zero_le_iff (t := t) hn hfin
  have hround := twiceMidpoint_pos n
  rw [add_val_of_cut ha hb rfl]
  clear hfin
  generalize a.val + b.val - cutLost a.val b.val = s
  rcases le_or_gt s 0 with hneg | hpos
  · refine iff_of_true (le_trans (mul_nonpos_of_nonpos_of_nonneg ?_ (Int.natCast_nonneg _)) (Int.natCast_nonneg n)) ?_
    · exact Int.sign_nonpos_iff.2 hneg
    · omega
  · obtain ⟨t, rfl⟩ := Int.eq_ofNat_of_zero_le hpos.le
    rw [Int.sign_eq_one_of_pos hpos, one_mul, Int.natAbs_natCast, Int.ofNat_le, hstore]
    omega

/-- `Add` of a product and costs of 22 bits. -/
theorem add_le_iff_limit (ha0 : 0 ≤ a.val) (ha : Rounded a.val.natAbs) (hb : 2^excess 22 b.val.natAbs ∣ b.val.natAbs)
    (hn : Is52 n) (hfin : n < dblMax) : (add a b 0 false).val ≤ n ↔ a.val < sumLimit n b.val := by
  have hb52 : Is52 b.val.natAbs := (pow_dvd_pow 2 (by unfold excess; omega)).trans hb
  rw [add_le_iff_cut ha (.inr hb52) hn hfin]
  clear hfin
  have hdouble := a.isDouble.2
  have hcosts := b.isDouble.2
  obtain ⟨p, hp⟩ := Int.eq_ofNat_of_zero_le ha0
  rw [hp, Int.natAbs_natCast] at hdouble
  rw [hp]
  rcases le_or_gt 0 b.val with hpos | hneg
  · obtain ⟨c, hc⟩ := Int.eq_ofNat_of_zero_le hpos
    rw [hc, Int.natAbs_natCast] at hcosts
    rw [hc, lt_sumLimit_iff_of_nonneg hn hdouble hcosts, Int.ofNat_lt]
  · obtain ⟨d, hd⟩ : ∃ d : ℕ, b.val = -d := ⟨b.val.natAbs, by omega⟩
    rw [hd, Int.natAbs_neg, Int.natAbs_natCast] at hb
    rw [hd, lt_sumLimit_iff_of_neg hdouble hn hb (by omega), Int.ofNat_lt]

end Sum

section Product
variable {a m : UniFloat} {n : ℕ}

lemma val_le_floor52_iff {x : UniFloat} {k : ℕ} (hx : Rounded x.val.natAbs) (hk : k < dblMax) :
    x.val ≤ k ↔ x.val ≤ floor52 k := by
  have hfloor : floor52 k ≤ k := Nat.div_mul_le_self _ _
  rcases hx with hmax | h52
  · have hval : x.val ≤ 0 ∨ x.val = dblMax := by
      rw [← hmax]
      clear hk
      omega
    rcases hval with hneg | hval
    · exact iff_of_true (hneg.trans (Int.natCast_nonneg k)) (hneg.trans (Int.natCast_nonneg _))
    · rw [hval, Int.ofNat_le, Int.ofNat_le]
      exact iff_of_false hk.not_ge (hfloor.trans_lt hk).not_ge
  · have hiff := le_floor52_iff (k := k) h52
    omega

theorem multiply_le_iff_limit (ha : 0 < a.val) (hm : 0 < m.val) (hn : Is52 n) (hfin : n < dblMax) :
    (multiply a m 0).val ≤ n ↔ m.val.natAbs < productBound n ⌈/⌉ a.val.natAbs := by
  rw [multiply_val ha hm, Int.ofNat_le, store_le_iff_lt_bound hn hfin, ← not_le (a := _ ⌈/⌉ _),
    ceilDiv_le_iff_le_mul (natAbs_pos_iff.2 ha.ne'), not_le]

lemma val_le_dblMax (x : UniFloat) : x.val ≤ dblMax :=
  Int.le_natAbs.trans (Int.ofNat_le.2 x.isDouble.1)

end Product

end UniFloat
end CredaCash
