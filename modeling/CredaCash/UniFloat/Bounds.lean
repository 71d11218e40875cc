import CredaCash.UniFloat.Ops

/-! Results of the universal float: how many bits they have, where an average lies, and which
values come from the wire. -/

namespace CredaCash
open Rounding

lemma is52_mul_pow {m : ℕ} (h : m ≤ 2^52) (k : ℕ) : Is52 (m * 2^k) := by
  rcases Nat.eq_zero_or_pos m with rfl | hm
  · simp [Is52]
  rcases h.eq_or_lt with rfl | hlt
  · have : excess 52 (2^52 * 2^k) = k + 1 := by
      apply excess_eq (by norm_num)
      · rw [← pow_add]
        exact Nat.pow_le_pow_right (by norm_num) (by omega)
      · rw [← pow_add]
        exact Nat.pow_lt_pow_right (by norm_num) (by omega)
    rw [Is52, this, ← pow_add]
    exact pow_dvd_pow 2 (by omega)
  · have hle : excess 52 (m * 2^k) ≤ k := by
      rw [excess_le_iff, Nat.shiftRight_eq_div_pow, Nat.mul_div_cancel _ (by positivity)]
      exact hlt
    exact Dvd.dvd.mul_left (pow_dvd_pow 2 hle) m

lemma is52_of_le {m : ℕ} (h : m ≤ 2^52) : Is52 m := by
  simpa using is52_mul_pow h 0

/-- A rounded result has 52 bits unless it overflowed. -/
theorem store_is52 (y : ℕ) (u : ℤ) : store y u = dblMax ∨ Is52 (store y u) := by
  have hH := halfUp_excess_le 52 y
  unfold store
  split_ifs with h
  · rcases le_total (halfUp y (excess 52 y) * 2^(u + excess 52 y).toNat) dblMax with hle | hle
    · rw [min_eq_left hle]
      exact Or.inr (is52_mul_pow hH _)
    · exact Or.inl (min_eq_right hle)
  · refine Or.inr (is52_of_le (min_le_of_left_le ?_))
    rw [halfEven_le_iff, if_pos (by norm_num)]
    nlinarith [Nat.two_pow_pos (-(u + excess 52 y)).toNat]

lemma ldexp_mantissa {m : ℕ} (h : IsDouble m) :
    ldexp (mantissa 62 m) ((bitLength m : ℤ) - 62 - 1074) = m := by
  have hmul := mantissa_mul h (by norm_num : 53 ≤ 62)
  have hlt := mantissa_lt 62 m
  obtain ⟨c, hc⟩ : 2^9 ∣ mantissa (53+9) m := dvd_mantissa h h.2 (by norm_num)
  rw [show 53+9 = 62 by norm_num] at hc
  have hc53 : c < 2^53 := by
    rw [hc, show (2:ℕ)^62 = 2^9 * 2^53 by norm_num] at hlt
    exact lt_of_mul_lt_mul_left hlt (Nat.zero_le _)
  have hdouble : toDouble (mantissa 62 m) = mantissa 62 m := by
    rw [hc, mul_comm]
    exact toDouble_mul_pow hc53 9
  unfold ldexp
  rw [hdouble]
  split_ifs with hlen
  · have : mantissa 62 m * 2^((bitLength m : ℤ) - 62 - 1074 + 1074).toNat = m := by
      refine Nat.eq_of_mul_eq_mul_right (Nat.two_pow_pos 62) ?_
      rw [← hmul, mul_assoc, ← pow_add]
      congr 2
      omega
    rw [this, min_eq_left h.1]
  · have : mantissa 62 m = m * 2^(62 - bitLength m) := by
      refine Nat.eq_of_mul_eq_mul_right (Nat.two_pow_pos (bitLength m)) ?_
      rw [hmul, mul_assoc, ← pow_add]
      congr 2
      omega
    rw [this, halfEven_mul_pow (by omega), min_eq_left]
    · rw [show 62 - bitLength m - (-((bitLength m : ℤ) - 62 - 1074 + 1074)).toNat = 0 by omega]
      simp
    · rw [show 62 - bitLength m - (-((bitLength m : ℤ) - 62 - 1074 + 1074)).toNat = 0 by omega]
      simpa using h.1

namespace UniFloat

lemma coe_signOf (v : ℤ) : (signOf v : ℤ) * v.natAbs = v := by
  unfold signOf
  split_ifs with h1 h2
  · simp [abs_of_pos h1]
  · simp [abs_of_neg h2]
  · have : v = 0 := by omega
    simp [this]

/-- Decomposing and recomposing a float gives it back. -/
theorem recompose_decompose (a : UniFloat) : recompose (decompose a 62 0) = a := by
  by_cases ha : a.val = 0
  · have : a = 0 := UniFloat.ext ha
    rw [this, decompose_zero]
    apply UniFloat.ext
    change ((0 : SignType) : ℤ) * (ldexp 0 0 : ℤ) = 0
    rw [SignType.coe_zero, zero_mul]
  · apply UniFloat.ext
    rw [decompose_exact ha (by norm_num)]
    simp only [recompose]
    rw [show ((62:ℕ):ℤ) = 62 by norm_num, ldexp_mantissa a.isDouble, coe_signOf]

@[simp] theorem add_zero (a : UniFloat) (r : ℤ) : add a 0 r false = a := by
  simp only [add, decompose_zero, true_or, if_true, Bool.false_eq_true, if_false]
  exact recompose_decompose a

@[simp] theorem applySign_zero (s : ℤ) : applySign s 0 = 0 := by
  unfold applySign
  split_ifs <;> rfl

end UniFloat

lemma two_mul_lt_halfUp (n k : ℕ) : 2*n < (2*halfUp n k + 1) * 2^k := halfUp_le_iff.1 le_rfl

lemma slackAbove_pos (n : ℕ) : 0 < slackAbove n := by
  unfold slackAbove
  split_ifs <;> positivity

lemma belowMidpoint_of_le {y n : ℕ} {u : ℤ} (h : y * 2^u.toNat ≤ n * 2^(-u).toNat) :
    BelowMidpoint y u n := by
  have hs := slackAbove_pos n
  have : 0 < 2^(-u).toNat := by positivity
  unfold BelowMidpoint
  nlinarith

lemma reachesMidpoint_of_le {y n : ℕ} {u : ℤ} (h : n * 2^(-u).toNat ≤ y * 2^u.toNat) :
    ReachesMidpoint y u n := by
  have : (4*n - slackBelow n) * 2^(-u).toNat ≤ 4*n * 2^(-u).toNat :=
    Nat.mul_le_mul_right _ (Nat.sub_le _ _)
  unfold ReachesMidpoint
  nlinarith

namespace UniFloat

section Between
variable {x y : UniFloat} (hx : 0 < x.val) (hxy : x ≤ y)
include hx hxy

lemma natAbs_le : x.val.natAbs ≤ y.val.natAbs := by
  have := le_iff.1 hxy
  omega

lemma halfSum_of_le : halfSum x y =
    (if 62 ≤ bitLength y.val.natAbs - bitLength x.val.natAbs then mantissa 62 y.val.natAbs
      else halfUp (mantissa 62 x.val.natAbs) (bitLength y.val.natAbs - bitLength x.val.natAbs) +
        mantissa 62 y.val.natAbs, (bitLength y.val.natAbs : ℤ) - 63) := by
  have hlen := bitLength_mono (natAbs_le hx hxy)
  have hy : 0 < y.val := lt_of_lt_of_le hx hxy
  unfold halfSum
  simp only [decompose_pos hx (by norm_num : 53 ≤ 62), decompose_pos hy (by norm_num : 53 ≤ 62)]
  rw [max_eq_right (by omega), if_neg (by omega)]
  refine Prod.ext ?_ (by simp only []; omega)
  simp only []
  rw [show ((bitLength x.val.natAbs : ℤ) - (62:ℕ) - 1074 - ((bitLength y.val.natAbs : ℤ) - (62:ℕ) -
    1074)).toNat = 0 by omega, halfUp_zero]
  split_ifs with h1 h2 h2
  · rfl
  · omega
  · omega
  · congr 2
    omega

lemma mantissa_le_of_length (h : bitLength x.val.natAbs = bitLength y.val.natAbs) :
    mantissa 62 x.val.natAbs ≤ mantissa 62 y.val.natAbs := by
  unfold mantissa
  rw [h]
  exact Nat.div_le_div_right (Nat.mul_le_mul_right _ (natAbs_le hx hxy))

/-- The aligned half sum is at most twice the larger mantissa. -/
lemma halfSum_le : (halfSum x y).1 ≤ 2 * mantissa 62 y.val.natAbs := by
  have hy : 0 < y.val := lt_of_lt_of_le hx hxy
  have hlt := mantissa_lt 62 x.val.natAbs
  have hlow := le_mantissa (by norm_num : 0 < 62) (natAbs_pos_iff.2 hy.ne')
  have hlen := bitLength_mono (natAbs_le hx hxy)
  rw [halfSum_of_le hx hxy]
  simp only []
  split_ifs with h
  · omega
  · suffices halfUp (mantissa 62 x.val.natAbs) (bitLength y.val.natAbs - bitLength x.val.natAbs) ≤
        mantissa 62 y.val.natAbs by omega
    rcases hlen.eq_or_lt with heq | hne
    · rw [heq, Nat.sub_self, halfUp_zero]
      exact mantissa_le_of_length hx hxy heq
    · have hpow : 2^1 ≤ 2^(bitLength y.val.natAbs - bitLength x.val.natAbs) :=
        Nat.pow_le_pow_right (by norm_num) (by omega)
      refine le_trans ?_ hlow
      rw [halfUp_le_iff]
      have : (2*2^(62-1)+1) * 2^1 ≤ (2*2^(62-1)+1) * 2^(bitLength y.val.natAbs - bitLength x.val.natAbs) :=
        Nat.mul_le_mul_left _ hpow
      omega

/-- The aligned half sum is at least twice the smaller mantissa on the larger scale. -/
lemma le_halfSum : 2 * mantissa 62 x.val.natAbs ≤
    (halfSum x y).1 * 2^(bitLength y.val.natAbs - bitLength x.val.natAbs) := by
  have hy : 0 < y.val := lt_of_lt_of_le hx hxy
  have hlt := mantissa_lt 62 x.val.natAbs
  have hlow := le_mantissa (by norm_num : 0 < 62) (natAbs_pos_iff.2 hy.ne')
  have hlen := bitLength_mono (natAbs_le hx hxy)
  have hhalf := two_mul_lt_halfUp (mantissa 62 x.val.natAbs)
    (bitLength y.val.natAbs - bitLength x.val.natAbs)
  rw [halfSum_of_le hx hxy]
  simp only []
  rcases hlen.eq_or_lt with heq | hne
  · have := mantissa_le_of_length hx hxy heq
    rw [heq, Nat.sub_self, if_neg (by norm_num), halfUp_zero]
    omega
  · obtain ⟨d, hd⟩ : ∃ d, bitLength y.val.natAbs - bitLength x.val.natAbs = d + 1 :=
      ⟨bitLength y.val.natAbs - bitLength x.val.natAbs - 1, by omega⟩
    rw [hd] at hhalf ⊢
    have h1 : 1 ≤ 2^d := Nat.one_le_two_pow
    rw [pow_succ] at hhalf ⊢
    have hprod := Nat.mul_le_mul hlow (le_refl (2^d))
    split_ifs with h
    · have : 2^61 ≤ 2^d := Nat.pow_le_pow_right (by norm_num) (by omega)
      have := Nat.mul_le_mul hlow this
      rw [← mul_assoc]
      omega
    · rw [add_mul, show mantissa 62 y.val.natAbs * (2^d * 2) = mantissa 62 y.val.natAbs * 2^d * 2 by ring]
      rw [show (2 * halfUp (mantissa 62 x.val.natAbs) (d+1) + 1) * (2^d * 2) =
        2 * (halfUp (mantissa 62 x.val.natAbs) (d+1) * (2^d * 2)) + 2*2^d by ring] at hhalf
      omega

lemma scaled_mantissa_le : (halfSum x y).1 * 2^(halfSum x y).2.toNat ≤
    y.val.natAbs * 2^(-(halfSum x y).2).toNat := by
  have hmul := mantissa_mul y.isDouble (by norm_num : 53 ≤ 62)
  have hle := halfSum_le hx hxy
  rw [halfSum_of_le hx hxy] at hle ⊢
  simp only [] at hle ⊢
  generalize (if 62 ≤ bitLength y.val.natAbs - bitLength x.val.natAbs then mantissa 62 y.val.natAbs
      else halfUp (mantissa 62 x.val.natAbs) (bitLength y.val.natAbs - bitLength x.val.natAbs) +
        mantissa 62 y.val.natAbs) = s at hle ⊢
  set k := bitLength y.val.natAbs
  refine le_of_mul_le_mul_right ?_ (Nat.two_pow_pos 63)
  calc s * 2^((k:ℤ) - 63).toNat * 2^63 = s * 2^(k + (-((k:ℤ) - 63)).toNat) := by
        rw [mul_assoc, ← pow_add]
        congr 2
        omega
    _ ≤ 2 * mantissa 62 y.val.natAbs * 2^(k + (-((k:ℤ) - 63)).toNat) := Nat.mul_le_mul_right _ hle
    _ = 2 * (mantissa 62 y.val.natAbs * 2^k) * 2^(-((k:ℤ) - 63)).toNat := by rw [pow_add]; ring
    _ = y.val.natAbs * 2^(-((k:ℤ) - 63)).toNat * 2^63 := by rw [hmul]; ring

lemma le_scaled_mantissa : x.val.natAbs * 2^(-(halfSum x y).2).toNat ≤
    (halfSum x y).1 * 2^(halfSum x y).2.toNat := by
  have hmul := mantissa_mul x.isDouble (by norm_num : 53 ≤ 62)
  have hle := le_halfSum hx hxy
  have hlen := bitLength_mono (natAbs_le hx hxy)
  rw [halfSum_of_le hx hxy] at hle ⊢
  simp only [] at hle ⊢
  generalize (if 62 ≤ bitLength y.val.natAbs - bitLength x.val.natAbs then mantissa 62 y.val.natAbs
      else halfUp (mantissa 62 x.val.natAbs) (bitLength y.val.natAbs - bitLength x.val.natAbs) +
        mantissa 62 y.val.natAbs) = s at hle ⊢
  set k := bitLength y.val.natAbs
  set j := bitLength x.val.natAbs
  refine le_of_mul_le_mul_right ?_ (Nat.two_pow_pos 63)
  calc x.val.natAbs * 2^(-((k:ℤ) - 63)).toNat * 2^63
      = 2 * (x.val.natAbs * 2^62) * 2^(-((k:ℤ) - 63)).toNat := by ring
    _ = 2 * mantissa 62 x.val.natAbs * 2^(j + (-((k:ℤ) - 63)).toNat) := by
        rw [← hmul, pow_add]
        ring
    _ ≤ s * 2^(k-j) * 2^(j + (-((k:ℤ) - 63)).toNat) := Nat.mul_le_mul_right _ hle
    _ = s * 2^((k:ℤ) - 63).toNat * 2^63 := by
        rw [mul_assoc, ← pow_add, mul_assoc, ← pow_add]
        congr 2
        omega

end Between

/-- A positive float whose magnitude is a rate. -/
structure IsRateFloat (a : UniFloat) : Prop where
  pos : 0 < a.val
  rate : IsRate a.val.natAbs

/-- The average of two rates lies between them. -/
theorem le_average {x y : UniFloat} (hx : IsRateFloat x) (hy : IsRateFloat y) (hxy : x ≤ y) :
    x ≤ average x y 0 := by
  have h := (le_store_iff hx.rate).2 (reachesMidpoint_of_le (le_scaled_mantissa hx.pos hxy))
  rw [le_iff, average_val hx.pos hy.pos hx.rate.bits hy.rate.bits]
  have := hx.pos
  omega

theorem average_le {x y : UniFloat} (hx : IsRateFloat x) (hy : IsRateFloat y) (hxy : x ≤ y) :
    average x y 0 ≤ y := by
  have h := (store_le_iff hy.rate).2 (belowMidpoint_of_le (scaled_mantissa_le hx.pos hxy))
  rw [le_iff, average_val hx.pos hy.pos hx.rate.bits hy.rate.bits]
  have := hy.pos
  omega

end UniFloat
namespace UniFloat

lemma ldexp_pos {m : ℕ} {e : ℤ} (hm : 0 < m) (he : 0 ≤ e + 1074) (h : m < 2^53) : 0 < ldexp m e := by
  rw [ldexp, if_pos he, show toDouble m = m by simpa using toDouble_mul_pow h 0]
  exact lt_min (by positivity) (by decide +kernel)

/-- The rounding constructor keeps a positive double positive. -/
theorem ofDouble_pos {v : UniFloat} (hv : 0 < v.val) : 0 < (ofDouble v 0).val := by
  have hm := natAbs_pos_iff.2 hv.ne'
  simp only [ofDouble, decompose, if_neg hm.ne', signOf_pos hv]
  set m := v.val.natAbs
  by_cases hlen : bitLength m ≤ 52
  · have hlt : m * 2^(52 - bitLength m) < 2^52 := by
      calc m * 2^(52 - bitLength m) < 2^bitLength m * 2^(52 - bitLength m) :=
            Nat.mul_lt_mul_of_pos_right (lt_pow_bitLength m) (by positivity)
        _ = 2^52 := by rw [← pow_add]; congr 1; omega
    rw [if_pos hlen, if_pos hlt, recompose_pos_val, ldexp_mul_pow]
    · rw [Int.natCast_pos]
      exact ldexp_pos hm (by omega) (by
        have := lt_of_lt_of_le (lt_pow_bitLength m) (Nat.pow_le_pow_right (by norm_num) hlen)
        omega)
    · have := lt_of_lt_of_le (lt_pow_bitLength m) (Nat.pow_le_pow_right (by norm_num) hlen)
      omega
  · have hex : excess 52 m = bitLength m - 52 := rfl
    have hlow := le_halfUp_excess (p := 52) (n := m) (by norm_num) (by omega)
    have hhigh := halfUp_excess_le 52 m
    rw [hex] at hlow hhigh
    simp only [if_neg hlen, roundBy, lt_irrefl, if_false]
    split_ifs with hy
    · rw [recompose_pos_val, Int.natCast_pos]
      exact ldexp_pos (by omega) (by omega) (by omega)
    · rw [recompose_pos_val, Int.natCast_pos]
      have hpow : 2^(bitLength m - 1) ≤ m := pow_le_of_bitLength_pos hm
      have hone : 1 ≤ halfUp m (bitLength m - 52 + 1) := by
        rw [le_halfUp_iff]
        have : 2^(bitLength m - 52 + 1) ≤ 2^(bitLength m - 1) := Nat.pow_le_pow_right (by norm_num) (by omega)
        omega
      have hsmall : halfUp m (bitLength m - 52 + 1) ≤ 2^52 := by
        rw [halfUp_le_iff]
        have := lt_pow_bitLength m
        have : 2^bitLength m = 2^51 * 2^(bitLength m - 52 + 1) := by
          rw [← pow_add]
          congr 1
          omega
        omega
      exact ldexp_pos (by omega) (by omega) (by omega)

lemma recompose_normalize_is52 (y : ℕ) (e : ℤ) (s : SignType) :
    (recompose (normalize y ⟨0, e, s⟩ 0)).val.natAbs = dblMax ∨
      Is52 (recompose (normalize y ⟨0, e, s⟩ 0)).val.natAbs := by
  have h := store_is52 y (e + 1074)
  rw [← ldexp_eq_store, ← shift_nearest] at h
  cases s with
  | zero => exact Or.inr (is52_of_le (by simp [recompose, normalize]))
  | neg => simpa [recompose, normalize] using h
  | pos => simpa [recompose, normalize] using h

theorem divide_is52 (v : UniFloat) {x : UniFloat} (hx : 0 < x.val) :
    (divide v x 0).val.natAbs = dblMax ∨ Is52 (divide v x 0).val.natAbs := by
  simp only [divide, decompose_pos hx (by norm_num : 53 ≤ 63)]
  rw [if_neg (mantissa_pos hx (by norm_num)).ne']
  exact recompose_normalize_is52 _ _ _

/-- A rate that the wire can carry. -/
def IsWire (a : UniFloat) : Prop := ∃ v < 2^32, a = wireDecode v

lemma mul_pow_lt {m k K : ℕ} (hm : m < 2^22) (hk : k ≤ K + 31) :
    m * 2^k < (2^53 - 1) * 2^K := by
  have hK : 0 < 2^K := by positivity
  calc m * 2^k ≤ m * 2^(K + 31) := Nat.mul_le_mul_left _ (Nat.pow_le_pow_right (by norm_num) hk)
    _ = m * 2^31 * 2^K := by rw [pow_add]; ring
    _ < (2^53 - 1) * 2^K := Nat.mul_lt_mul_of_pos_right (by omega) hK

lemma mul_pow_lt_dblMax {m k : ℕ} (hm : m < 2^22) (hk : k ≤ 2076) : m * 2^k < dblMax :=
  mul_pow_lt hm hk

lemma isRate_mul_pow {m k : ℕ} (hlow : 2^21 ≤ m) (hm : m < 2^22) (hk : 29 ≤ k) (hk' : k ≤ 2076)
    (hne : m ≠ 2^21 ∨ k ≠ 29) : IsRate (m * 2^k) := by
  refine ⟨?_, mul_pow_lt_dblMax hm hk', is52_mul_pow (hm.le.trans (by norm_num)) k⟩
  rcases hk.eq_or_lt with rfl | hlt
  · have : 2^21 < m := lt_of_le_of_ne hlow (fun h => by omega)
    omega
  · have : 2^30 ≤ 2^k := Nat.pow_le_pow_right (by norm_num) hlt
    calc 2^50 < 2^21 * 2^30 := by norm_num
      _ ≤ m * 2^k := Nat.mul_le_mul hlow this

lemma wireDecode_val {v : ℕ} (h0 : v ≠ 0) (hv : v < 2^32) :
    (wireDecode v).val = ((v % 2^21 + 2^21) * 2^(v / 2^21 + 29) : ℕ) := by
  have hmod := Nat.mod_lt v (by norm_num : 0 < 2^21)
  have hdiv : v / 2^21 < 2^11 := Nat.div_lt_of_lt_mul (by rw [← pow_add]; exact hv)
  have hdouble := toDouble_mul_pow (by omega : v % 2^21 + 2^21 < 2^53) 0
  rw [pow_zero, mul_one] at hdouble
  rw [wireDecode, if_neg h0, recompose_pos_val, ldexp, if_pos (by omega), hdouble]
  have hexp : (((v / 2^21 : ℕ) : ℤ) - 1024 - 21 + 1074).toNat = v / 2^21 + 29 := by omega
  rw [hexp, min_eq_left (mul_pow_lt_dblMax (by omega) (by omega)).le]

theorem isWire_wireDecode {v : ℕ} (h : v < 2^32) : IsWire (wireDecode v) := ⟨v, h, rfl⟩

theorem isWire_zero : IsWire 0 := isWire_wireDecode (by norm_num : 0 < 2^32)

/-- A positive rate from the wire lies well inside the range of doubles. -/
theorem isRateFloat_of_wire {a : UniFloat} (h : IsWire a) (hpos : 0 < a.val) : IsRateFloat a := by
  obtain ⟨v, hv, rfl⟩ := h
  have hv0 : v ≠ 0 := by
    rintro rfl
    exact lt_irrefl _ hpos
  refine ⟨hpos, ?_⟩
  have hdiv : v / 2^21 < 2^11 := Nat.div_lt_of_lt_mul (by rw [← pow_add]; exact hv)
  rw [wireDecode_val hv0 hv, Int.natAbs_natCast]
  exact isRate_mul_pow (by omega) (by omega) (by omega) (by omega) (by omega)

end UniFloat

end CredaCash
