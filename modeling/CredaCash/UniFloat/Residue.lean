import CredaCash.UniFloat.Monotone

/-! What a stored value loses to rounding, as a signed remainder of the exact value, and comparisons of a quotient with
a rate in exact integers: no rounded value is left in them. -/

namespace Rounding

/-- Division by `2^k`, a half going up, leaves the remainder that is balanced around zero. -/
theorem halfUp_mul_pow_add_bmod (n k : ℕ) : (halfUp n k : ℤ) * 2^k + Int.bmod n (2^k) = n := by
  have hup := (halfUp_le_iff (n := n) (k := k) (m := halfUp n k)).1 le_rfl
  have hdown := (le_halfUp_iff (n := n) (k := k) (m := halfUp n k)).1 le_rfl
  suffices Int.bmod n (2^k) = n - halfUp n k * (2^k : ℕ) by
    rw [this]
    push_cast
    ring
  rw [Int.bmod_eq_iff (Nat.two_pow_pos k)]
  rw [add_mul, one_mul, mul_assoc] at hup
  rw [mul_assoc] at hdown
  refine ⟨?_, ?_, Dvd.intro_left (-(halfUp n k : ℤ)) (by ring)⟩ <;> rw [← Nat.cast_mul] <;> omega

theorem halfUp_mul_pow_add (n k i : ℕ) : halfUp (n * 2^i) (k + i) = halfUp n k := by
  refine eq_of_forall_ge_iff fun m => ?_
  rw [halfUp_le_iff, halfUp_le_iff, pow_add, ← mul_assoc, ← mul_assoc, Nat.mul_lt_mul_right (by positivity)]

/-- The remainder of a division by `2^k`, a half going to the even neighbour. -/
def evenMod (n k : ℕ) : ℤ :=
  if 2^k < 2*(n % 2^k) ∨ (2*(n % 2^k) = 2^k ∧ (n / 2^k) % 2 = 1) then (n % 2^k : ℕ) - 2^k else (n % 2^k : ℕ)

theorem halfEven_mul_pow_add_evenMod (n k : ℕ) : (halfEven n k : ℤ) * 2^k + evenMod n k = n := by
  have hdiv : (2:ℤ)^k * (n / 2^k : ℕ) + (n % 2^k : ℕ) = n := by exact_mod_cast Nat.div_add_mod n (2^k)
  unfold halfEven evenMod
  split_ifs
  · push_cast at hdiv ⊢
    linear_combination hdiv
  · push_cast at hdiv ⊢
    linear_combination hdiv

end Rounding

namespace CredaCash
open Rounding

/-- Scaling the exact value is scaling the unit. -/
lemma store_mul_pow (y i : ℕ) (u : ℤ) : store (y * 2^i) u = store y (u + i) := by
  rcases le_or_gt (2^52) y with hlen | hlen
  · -- the bits beyond 52 are the same ones
    have hy := lt_bitLength_iff.2 hlen
    have hex : excess 52 (y * 2^i) = excess 52 y + i := by
      unfold excess
      rw [bitLength_mul_pow (lt_of_lt_of_le (by norm_num) hlen)]
      omega
    unfold store
    rw [hex, halfUp_mul_pow_add, show u + ((excess 52 y + i : ℕ) : ℤ) = u + i + excess 52 y by push_cast; ring]
  · -- nothing is lost beyond 52 bits
    have hscaled : y * 2^i < 2^(52 + i) := by
      rw [pow_add]
      exact Nat.mul_lt_mul_of_pos_right hlen (by positivity)
    calc store (y * 2^i) u = ldexp (y * 2^i) (u - 1074) := by
          rw [ldexp_eq_store_of_dvd hscaled (Dvd.intro_left y rfl), sub_add_cancel]
      _ = ldexp y (u - 1074 + i) := ldexp_mul_pow (hlen.trans (by norm_num)) i _
      _ = store y (u + i) := by
          rw [ldexp_eq_store_of_dvd (k := 0) hlen (one_dvd _)]
          congr 1
          ring

/-- What is lost when `y` units of `2^-j` are stored: the low bits beyond 52, then those below a whole unit, and
whatever lies above the largest double. -/
def lost (y j : ℕ) : ℤ :=
  if j ≤ excess 52 y then max (Int.bmod y (2^excess 52 y)) (y - dblMax * 2^j)
  else Int.bmod y (2^excess 52 y) + 2^excess 52 y * evenMod (halfUp y (excess 52 y)) (j - excess 52 y)

theorem store_mul_pow_add_lost (y j : ℕ) : (store y (-j) : ℤ) * 2^j + lost y j = y := by
  have hround := halfUp_mul_pow_add_bmod y (excess 52 y)
  unfold store lost
  by_cases hj : j ≤ excess 52 y
  · rw [if_pos (by omega), if_pos hj]
    have hpow : (2:ℤ)^(-(j:ℤ) + excess 52 y).toNat * 2^j = 2^excess 52 y := by
      rw [← pow_add]
      congr 1
      omega
    have hmin : ((min (halfUp y (excess 52 y) * 2^(-(j:ℤ) + excess 52 y).toNat) dblMax : ℕ) : ℤ) * 2^j =
        min ((y : ℤ) - Int.bmod y (2^excess 52 y)) (dblMax * 2^j) := by
      rw [Nat.cast_min, min_mul_of_nonneg _ _ (by positivity)]
      congr 1
      push_cast
      rw [mul_assoc, hpow]
      linear_combination hround
    rw [hmin]
    omega
  · rw [if_neg (by omega), if_neg hj]
    have hle : halfEven (halfUp y (excess 52 y)) (-(-(j:ℤ) + excess 52 y)).toNat ≤ dblMax := by
      refine le_trans (b := 2^52) ?_ (by decide +kernel)
      rw [halfEven_le_iff, if_pos (by norm_num)]
      have hhalf := halfUp_excess_le 52 y
      nlinarith [Nat.two_pow_pos (-(-(j:ℤ) + excess 52 y)).toNat]
    have heven := halfEven_mul_pow_add_evenMod (halfUp y (excess 52 y)) (j - excess 52 y)
    rw [min_eq_left hle, show (-(-(j:ℤ) + excess 52 y)).toNat = j - excess 52 y by omega]
    have hpow : (2:ℤ)^(j - excess 52 y) * 2^excess 52 y = 2^j := by
      rw [← pow_add]
      congr 1
      omega
    rw [← hpow]
    linear_combination hround + (2:ℤ)^excess 52 y * heven

namespace UniFloat
variable {a b v x : UniFloat} {n : ℕ}

/-- `Multiply` stores the exact product. -/
lemma multiply_val (ha : 0 < a.val) (hb : 0 < b.val) :
    (multiply a b 0).val = store (a.val.natAbs * b.val.natAbs) (-(1074 : ℕ)) := by
  have hscaled : mantissa 63 a.val.natAbs * mantissa 63 b.val.natAbs *
      2^(bitLength a.val.natAbs + bitLength b.val.natAbs) = a.val.natAbs * b.val.natAbs * 2^126 := by
    calc _ = (mantissa 63 a.val.natAbs * 2^bitLength a.val.natAbs) *
          (mantissa 63 b.val.natAbs * 2^bitLength b.val.natAbs) := by
          rw [pow_add]
          ring
      _ = a.val.natAbs * b.val.natAbs * 2^126 := by
          rw [mantissa_mul a.isDouble (by norm_num), mantissa_mul b.isDouble (by norm_num)]
          ring
  rw [multiply_pos_val ha hb, sub_eq_neg_add, ← store_mul_pow, hscaled, store_mul_pow]
  rfl

theorem multiply_add_lost (ha : 0 < a.val) (hb : 0 < b.val) :
    (multiply a b 0).val * 2^1074 + lost (a.val.natAbs * b.val.natAbs) 1074 = a.val * b.val := by
  rw [multiply_val ha hb, store_mul_pow_add_lost]
  push_cast
  rw [abs_of_pos ha, abs_of_pos hb]

end UniFloat

section Midpoint
variable {n : ℕ}

/-- The midpoint above a rate has at most 54 significant bits. -/
lemma midpointAbove_bits (hn : IsRate n) : ∃ m t, 4*n + slackAbove n = m * 2^t ∧ m ≤ 2^54 := by
  rcases le_or_gt (2^51) n with h | h
  · obtain ⟨N, -, hhigh, hN⟩ := hn.mantissa h
    refine ⟨2*N + 1, excess 52 n + 1, ?_, by omega⟩
    have hslack : slackAbove n = 2 * 2^excess 52 n := if_neg (by omega)
    have h4 : 4*n = 4*(N * 2^excess 52 n) := congrArg (4 * ·) hN
    rw [hslack, h4, pow_succ]
    ring
  · refine ⟨4*n + slackAbove n, 0, (mul_one _).symm, ?_⟩
    have hslack : slackAbove n ≤ 3 := by
      rw [slackAbove, if_pos h]
      split_ifs <;> omega
    omega

lemma slackBelow_lt (hn : IsRate n) : slackBelow n < 4*n := by
  have hlarge := hn.large
  rcases lt_or_ge (2^51) n with h | h
  · obtain ⟨N, hlow, hhigh, hN⟩ := hn.mantissa_pred h
    have hslack : slackBelow n = 2 * 2^excess 52 (n-1) := if_neg (by omega)
    have hpos : 0 < 2^excess 52 (n-1) := by positivity
    rw [hslack]
    nlinarith
  · rw [slackBelow, if_pos h]
    split_ifs <;> omega

lemma midpointBelow_bits (hn : IsRate n) : ∃ m t, 4*n - slackBelow n = m * 2^t ∧ m ≤ 2^54 := by
  rcases lt_or_ge (2^51) n with h | h
  · obtain ⟨N, hlow, hhigh, hN⟩ := hn.mantissa_pred h
    refine ⟨2*N - 1, excess 52 (n-1) + 1, ?_, by omega⟩
    have hslack : slackBelow n = 2 * 2^excess 52 (n-1) := if_neg (by omega)
    have h4 : 4*n = 4*(N * 2^excess 52 (n-1)) := congrArg (4 * ·) hN
    rw [hslack, h4, pow_succ, ← mul_assoc, ← Nat.sub_mul, mul_comm _ 2, ← mul_assoc]
    congr 1
    omega
  · exact ⟨4*n - slackBelow n, 0, (mul_one _).symm, by omega⟩

end Midpoint

namespace UniFloat

section Quotient
variable {V X n : ℕ} {u : ℤ}

/-- A number with few bits is a multiple of `2^s` units, or it has few units. -/
lemma scaled_multiple {m t c : ℕ} (s : ℕ) (hc : c = m * 2^t) (hm : m ≤ 2^54) :
    (∃ K, c * 2^(-u).toNat = 2^s*K*2^u.toNat) ∨ c * 2^(-u).toNat ≤ 2^(54 + s) * 2^u.toNat := by
  have hscaled : c * 2^(-u).toNat = m * 2^(t + (-u).toNat) := by rw [hc, mul_assoc, ← pow_add]
  rcases le_or_gt (u.toNat + s) (t + (-u).toNat) with h | h
  · left
    refine ⟨m * 2^(t + (-u).toNat - (u.toNat + s)), ?_⟩
    calc c * 2^(-u).toNat = m * 2^(t + (-u).toNat - (u.toNat + s) + (u.toNat + s)) := by
          rw [hscaled, Nat.sub_add_cancel h]
      _ = 2^s*(m * 2^(t + (-u).toNat - (u.toNat + s)))*2^u.toNat := by
          rw [pow_add _ (t + (-u).toNat - (u.toNat + s)), pow_add _ u.toNat]
          ring
  · right
    calc c * 2^(-u).toNat ≤ 2^54 * 2^(s + u.toNat) :=
          hscaled.trans_le (Nat.mul_le_mul hm (Nat.pow_le_pow_right (by norm_num) (by omega)))
      _ = 2^(54 + s) * 2^u.toNat := by rw [← pow_add, ← pow_add, add_assoc]

variable (hV : 2^62 ≤ V) (hX : X < 2^63) (hpos : 0 < X) (heven : 2 ∣ X)
include hV hX hpos

/-- A quotient of 63-bit mantissas has at least 62 bits. -/
lemma le_quotient_mantissa : 2^62 ≤ quotient V X 0 := by
  rw [quotient, if_pos rfl, Nat.le_div_iff_mul_le hpos]
  calc 2^62 * X ≤ 2^62 * 2^64 := Nat.mul_le_mul_left _ (hX.le.trans (by norm_num))
    _ ≤ V * 2^64 + (X + 1)/2 := (Nat.mul_le_mul_right _ hV).trans (Nat.le_add_right _ _)

include heven

/-- A quotient is compared with a number of few bits as the exact fraction is, with half a unit of the quotient
added. -/
lemma quotient_lt_iff {m t c : ℕ} (hc : c = m * 2^t) (hm : m ≤ 2^54) :
    4*quotient V X 0*2^u.toNat < c * 2^(-u).toNat ↔ (4*V*2^64 + 2*X) * 2^u.toNat < c * 2^(-u).toNat * X := by
  have hpow : 0 < 2^u.toNat := by positivity
  rcases scaled_multiple (u := u) 2 hc hm with ⟨K, hK⟩ | hfar
  · have hlt : quotient V X 0 < K ↔ V*2^64 + (X + 1)/2 < K*X := by
      rw [quotient, if_pos rfl, Nat.div_lt_iff_lt_mul hpos]
    rw [hK, show 2^2*K = 4*K from rfl, Nat.mul_lt_mul_right hpow, Nat.mul_lt_mul_left (by norm_num), hlt, mul_right_comm _ _ X,
      Nat.mul_lt_mul_right hpow, mul_assoc 4 K X]
    omega
  · have hquot := le_quotient_mantissa hV hX hpos
    refine iff_of_false (not_lt.2 (hfar.trans ?_)) (not_lt.2 ?_)
    · exact Nat.mul_le_mul_right _ (by omega)
    · calc c * 2^(-u).toNat * X ≤ 2^56 * 2^u.toNat * 2^63 := Nat.mul_le_mul hfar hX.le
        _ = 2^119 * 2^u.toNat := by ring
        _ ≤ (4*V*2^64 + 2*X) * 2^u.toNat := Nat.mul_le_mul_right _ (by omega)

end Quotient

lemma pow_split : (2:ℕ)^1074 = 2^1010 * 2^64 := by rw [← pow_add]

lemma two_dvd_mantissa (a : UniFloat) : 2 ∣ mantissa 63 a.val.natAbs :=
  (by norm_num : 2 ∣ 2^10).trans (dvd_mantissa a.isDouble a.isDouble.2 (by norm_num : 53 ≤ 53 + 10))

section Floats
variable {v x : UniFloat} {n : ℕ}

/-- A quotient of floats before it is rounded to 52 bits, compared as the exact fraction of the floats is. -/
lemma quotient_val_lt_iff (hv : 0 < v.val) (hx : 0 < x.val) {m t c : ℕ} (hc : c = m * 2^t) (hm : m ≤ 2^54) :
    4*quotient (mantissa 63 v.val.natAbs) (mantissa 63 x.val.natAbs) 0 *
        2^((bitLength v.val.natAbs : ℤ) - bitLength x.val.natAbs + 1010).toNat <
      c * 2^(-((bitLength v.val.natAbs : ℤ) - bitLength x.val.natAbs + 1010)).toNat ↔
    2^(63 + bitLength x.val.natAbs) * (4*(v.val.natAbs * 2^1074)) +
        x.val.natAbs * 2^bitLength (v.val.natAbs * 2^1074) <
      2^(63 + bitLength x.val.natAbs) * (c * x.val.natAbs) := by
  have hmv := mantissa_mul v.isDouble (by norm_num : 53 ≤ 63)
  have hmx := mantissa_mul x.isDouble (by norm_num : 53 ≤ 63)
  rw [quotient_lt_iff (@le_mantissa 63 _ (by norm_num) (natAbs_pos_iff.2 hv.ne')) (mantissa_lt 63 _)
      (mantissa_pos hx (by norm_num)) (two_dvd_mantissa x) hc hm,
    bitLength_mul_pow (natAbs_pos_iff.2 hv.ne')]
  generalize mantissa 63 v.val.natAbs = mv at hmv ⊢
  generalize mantissa 63 x.val.natAbs = mx at hmx ⊢
  generalize v.val.natAbs = V at hmv ⊢
  generalize x.val.natAbs = X at hmx ⊢
  have hscaled := le_scaled_iff (y := 4*mv*2^64 + 2*mx) (n := c*mx)
    (rfl : ((bitLength V + 1010 : ℕ) : ℤ) - bitLength X = _)
  rw [show (bitLength V : ℤ) - bitLength X + 1010 = ((bitLength V + 1010 : ℕ) : ℤ) - bitLength X by push_cast; ring,
    mul_right_comm c, ← not_le, hscaled, not_le, ← Nat.mul_lt_mul_right (Nat.two_pow_pos (bitLength X))]
  have hleft : 2^(63 + bitLength X) * (4*(V * 2^1074)) + X * 2^(bitLength V + 1074) =
      (4*mv*2^64 + 2*mx) * 2^(bitLength V + 1010) * 2^bitLength X := by
    rw [pow_add 2 63, pow_add 2 (bitLength V), pow_add 2 (bitLength V), pow_split]
    generalize (2:ℕ)^1010 = p
    calc _ = 4*p*2^64*2^bitLength X*(V * 2^63) + 2*2^bitLength V*p*(X * 2^63) := by ring
      _ = _ := by
          rw [← hmv, ← hmx]
          ring
  have hright : 2^(63 + bitLength X) * (c * X) = c * mx * 2^bitLength X * 2^bitLength X := by
    calc _ = c*2^bitLength X*(X * 2^63) := by
          rw [pow_add]
          ring
      _ = _ := by
          rw [← hmx]
          ring
  rw [hleft, hright]

/-- Where the dividend is not positive, the bound holds for any positive number. -/
lemma exact_of_nonpos {X W c : ℤ} {L : ℕ} (hX : 0 < X) (hL : X < 2^L) (hW : W ≤ 0) (hc : 0 < c) :
    X * 2^bitLength W.natAbs < 2^(63 + L) * (c * X - 4*W) := by
  obtain ⟨k, rfl⟩ : ∃ k : ℕ, W = -k := ⟨W.natAbs, by omega⟩
  have hlen : (2:ℤ)^bitLength k ≤ 2*k + 1 := by
    rcases Nat.eq_zero_or_pos k with rfl | hk
    · simp
    · have hpow := pow_le_of_bitLength_pos hk
      have hsucc : 2^bitLength k = 2*2^(bitLength k - 1) := by
        rw [← pow_succ', Nat.sub_add_cancel (bitLength_pos hk)]
      zify at hpow hsucc
      omega
  have hcX : 0 < c * X := mul_pos hc hX
  rw [Int.natAbs_neg, Int.natAbs_natCast]
  calc X * 2^bitLength k ≤ 2^L * (2*k + 1) := mul_le_mul hL.le hlen (by positivity) (by positivity)
    _ < 2^(63 + L) * (c * X - 4*-k) := by
      rw [pow_add, mul_comm (2^63), mul_assoc]
      refine mul_lt_mul_of_pos_left ?_ (by positivity)
      omega

lemma val_lt_pow_bitLength (hx : 0 < x.val) : x.val < 2^bitLength x.val.natAbs := by
  have h := lt_pow_bitLength x.val.natAbs
  zify at h
  rwa [abs_of_pos hx] at h

variable {W : ℤ}

/-- A positive dividend, with its exact value. -/
lemma exact_natCast (hv : 0 < v.val) (hW : v.val * 2^1074 = W) :
    ∃ w : ℕ, W = w ∧ v.val.natAbs * 2^1074 = w := by
  refine ⟨v.val.natAbs * 2^1074, ?_, rfl⟩
  rw [← hW, Nat.cast_mul, Int.natCast_natAbs, abs_of_pos hv, Nat.cast_pow, Nat.cast_two]

/-- `Divide` by a positive float, compared with a rate as the exact fraction is. -/
theorem divide_le_iff_exact (hx : 0 < x.val) (hn : IsRate n) (hW : v.val * 2^1074 = W) : (divide v x 0).val ≤ n ↔
    x.val * 2^bitLength W.natAbs < 2^(63 + bitLength x.val.natAbs) * ((4*n + slackAbove n) * x.val - 4*W) := by
  rcases le_or_gt v.val 0 with hv | hv
  · refine iff_of_true ((divide_nonpos_val hv hx).trans (Int.natCast_nonneg n))
      (exact_of_nonpos hx (val_lt_pow_bitLength hx) ?_ ?_)
    · rw [← hW]
      exact mul_nonpos_of_nonpos_of_nonneg hv (by positivity)
    · have := slackAbove_pos n
      omega
  · obtain ⟨m, t, hc, hm⟩ := midpointAbove_bits hn
    obtain ⟨w, rfl, hw⟩ := exact_natCast hv hW
    rw [divide_pos_val hv hx, Int.ofNat_le, store_le_iff hn, BelowMidpoint, quotient_val_lt_iff hv hx hc hm, hw,
      Int.natAbs_natCast]
    zify
    rw [abs_of_pos hx, mul_sub, lt_sub_iff_add_lt, Int.add_comm]

theorem le_divide_iff_exact (hx : 0 < x.val) (hn : IsRate n) (hW : v.val * 2^1074 = W) : n ≤ (divide v x 0).val ↔
    2^(63 + bitLength x.val.natAbs) * ((4*n - slackBelow n) * x.val - 4*W) ≤ x.val * 2^bitLength W.natAbs := by
  have hslack := slackBelow_lt hn
  rcases le_or_gt v.val 0 with hv | hv
  · refine iff_of_false ?_ (not_le.2 (exact_of_nonpos hx (val_lt_pow_bitLength hx) ?_ ?_))
    · have hlarge := hn.large
      have hneg := divide_nonpos_val hv hx
      omega
    · rw [← hW]
      exact mul_nonpos_of_nonpos_of_nonneg hv (by positivity)
    · omega
  · obtain ⟨m, t, hc, hm⟩ := midpointBelow_bits hn
    obtain ⟨w, rfl, hw⟩ := exact_natCast hv hW
    rw [divide_pos_val hv hx, Int.ofNat_le, le_store_iff hn, ReachesMidpoint, ← not_lt,
      quotient_val_lt_iff hv hx hc hm, not_lt, hw, Int.natAbs_natCast]
    zify [hslack.le]
    rw [abs_of_pos hx, mul_sub, sub_le_iff_le_add']

end Floats

end UniFloat

end CredaCash
