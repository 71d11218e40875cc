import CredaCash.UniFloat

/-! Comparing a rounded universal float with a stored one: the exact value before rounding is
compared with the midpoint between the stored value and its neighbour. -/

namespace CredaCash
open Rounding

/-- Four times the distance from a stored value to the midpoint above it. Below `2^51` units
the second rounding, to a whole unit, takes ties to even. -/
def slackAbove (n : ℕ) : ℕ :=
  if n < 2^51 then if n % 2 = 0 then 3 else 1 else 2 * 2^excess 52 n

/-- Four times the distance from a stored value to the midpoint below it. -/
def slackBelow (n : ℕ) : ℕ :=
  if n ≤ 2^51 then if n % 2 = 0 then 3 else 1 else 2 * 2^excess 52 (n-1)

/-- The exact value `y * 2^u` lies below the midpoint above `n`. -/
def BelowMidpoint (y : ℕ) (u : ℤ) (n : ℕ) : Prop :=
  4*y*2^u.toNat < (4*n + slackAbove n) * 2^(-u).toNat

/-- The exact value `y * 2^u` reaches the midpoint below `n`. -/
def ReachesMidpoint (y : ℕ) (u : ℤ) (n : ℕ) : Prop :=
  (4*n - slackBelow n) * 2^(-u).toNat ≤ 4*y*2^u.toNat

instance (y : ℕ) (u : ℤ) (n : ℕ) : Decidable (BelowMidpoint y u n) := Nat.decLt _ _
instance (y : ℕ) (u : ℤ) (n : ℕ) : Decidable (ReachesMidpoint y u n) := Nat.decLe _ _

/-- A magnitude that arithmetic on 52-bit mantissas can produce, away from the two ends of
the range of doubles. -/
structure IsRate (n : ℕ) : Prop where
  large : 2^50 < n
  finite : n < dblMax
  bits : 2^excess 52 n ∣ n

lemma toDouble_of_le {m : ℕ} (h : m ≤ 2^52) : toDouble m = m := by
  have : excess 53 m = 0 := by
    have := bitLength_le_iff.2 (lt_of_le_of_lt h (by norm_num : 2^52 < 2^53))
    unfold excess
    omega
  rw [toDouble, this, ← Nat.mul_one m, ← pow_zero 2, halfEven_mul_pow le_rfl]
  simp

/-- Rounding to 52 bits and then to the grid of doubles. -/
def store (y : ℕ) (u : ℤ) : ℕ :=
  if 0 ≤ u + excess 52 y then min (halfUp y (excess 52 y) * 2^(u + excess 52 y).toNat) dblMax
  else min (halfEven (halfUp y (excess 52 y)) (-(u + excess 52 y)).toNat) dblMax

lemma ldexp_eq_store (y : ℕ) (e : ℤ) :
    ldexp (halfUp y (excess 52 y)) (e + excess 52 y) = store y (e + 1074) := by
  unfold ldexp store
  rw [toDouble_of_le (halfUp_excess_le 52 y), show e + excess 52 y + 1074 = e + 1074 + excess 52 y by ring]

lemma lt_pow_excess (p n : ℕ) : n < 2^(p + excess p n) := by
  rw [← bitLength_le_iff]
  unfold excess
  omega

lemma pow_le_of_excess_pos {p n : ℕ} (h : 0 < excess p n) : 2^(p + excess p n - 1) ≤ n := by
  unfold excess at h ⊢
  have hn : 0 < n := by
    rcases Nat.eq_zero_or_pos n with rfl | hn
    · simp at h
    · exact hn
  rw [show p + (bitLength n - p) - 1 = bitLength n - 1 by omega]
  exact pow_le_of_bitLength_pos hn

lemma IsRate.mantissa {n : ℕ} (hn : IsRate n) (h : 2^51 ≤ n) :
    ∃ N, 2^51 ≤ N ∧ N < 2^52 ∧ n = N * 2^excess 52 n := by
  obtain ⟨N, hN⟩ := hn.bits
  have hpos : 0 < 2^excess 52 n := by positivity
  refine ⟨N, ?_, ?_, by rw [mul_comm]; exact hN⟩
  · rcases Nat.eq_zero_or_pos (excess 52 n) with h0 | h0
    · rw [h0] at hN
      omega
    · have := pow_le_of_excess_pos h0
      have hsplit : 2^(52 + excess 52 n - 1) = 2^51 * 2^excess 52 n := by rw [← pow_add]; congr 1; omega
      nlinarith
  · have := lt_pow_excess 52 n
    rw [pow_add] at this
    nlinarith

/-- The part of the range where the 52-bit grid is coarser than the units. -/
lemma store_le_iff_high {y n : ℕ} {u : ℤ} (hn : IsRate n) (h : 2^51 ≤ n) :
    store y u ≤ n ↔ BelowMidpoint y u n := by
  obtain ⟨N, hlow, hhigh, hN⟩ := hn.mantissa h
  have hslack : 4*n + slackAbove n = 2*((2*N+1) * 2^excess 52 n) := by
    have : slackAbove n = 2 * 2^excess 52 n := if_neg (by omega)
    have h4 : 4*n = 4*(N * 2^excess 52 n) := congrArg (4 * ·) hN
    rw [this, h4]
    ring
  have hround := @round_le_iff 52 N y
  rw [BelowMidpoint, hslack]
  unfold store
  split_ifs with hu
  · rw [min_le_iff, or_iff_left (not_le.2 hn.finite)]
    rcases le_or_gt 0 u with hsign | hsign
    · have hr := @hround u.toNat (excess 52 n) (by norm_num) hlow hhigh
      rw [show (u + excess 52 y).toNat = excess 52 y + u.toNat by omega,
        show (-u).toNat = 0 by omega]
      conv_lhs => rw [hN]
      rw [hr]
      constructor <;> intro _ <;> nlinarith
    · have hr := @hround 0 (excess 52 n + (-u).toNat) (by norm_num) hlow hhigh
      have hshift : halfUp y (excess 52 y) * 2^(u + excess 52 y).toNat * 2^(-u).toNat =
          halfUp y (excess 52 y) * 2^(excess 52 y + 0) := by
        rw [mul_assoc, ← pow_add]
        congr 2
        omega
      rw [show u.toNat = 0 by omega, ← Nat.mul_le_mul_right_iff (Nat.two_pow_pos (-u).toNat), hshift]
      conv_lhs => rw [hN, mul_assoc, ← pow_add]
      rw [hr, pow_add]
      constructor <;> intro _ <;> nlinarith
  · -- the stored value has at most 51 bits
    have hj : 1 ≤ (-(u + excess 52 y)).toNat := by omega
    have hpow : 2^1 ≤ 2^(-(u + excess 52 y)).toNat := Nat.pow_le_pow_right (by norm_num) hj
    have hH := halfUp_excess_le 52 y
    have hy := lt_pow_excess 52 y
    refine iff_of_true (min_le_of_left_le ?_) ?_
    · refine le_trans ?_ h
      rw [halfEven_le_iff, if_pos (by norm_num)]
      nlinarith
    · rw [show u.toNat = 0 by omega, pow_zero, mul_one]
      have hb : 2^(excess 52 y + 1) ≤ 2^(-u).toNat := Nat.pow_le_pow_right (by norm_num) (by omega)
      have hx : 1 ≤ 2^excess 52 n := Nat.one_le_two_pow
      calc 4*y < 4*2^(52 + excess 52 y) := by omega
        _ = 2*(2*2^51) * 2^(excess 52 y + 1) := by ring
        _ ≤ 2*((2*N+1) * 2^excess 52 n) * 2^(-u).toNat := by
          refine Nat.mul_le_mul (Nat.mul_le_mul_left _ ?_) hb
          nlinarith

/-- Between `2^50` and `2^51` units the 52-bit grid has half units. -/
lemma store_le_iff_low {y n : ℕ} {u : ℤ} (hlarge : 2^50 ≤ n) (h : n < 2^51) :
    store y u ≤ n ↔ BelowMidpoint y u n := by
  have hfin : n < dblMax := lt_trans h (by decide +kernel)
  have hH := halfUp_excess_le 52 y
  have hy := lt_pow_excess 52 y
  have hslack : slackAbove n = if n % 2 = 0 then 3 else 1 := if_pos h
  have hslack3 : slackAbove n ≤ 3 := by rw [hslack]; split_ifs <;> omega
  unfold store BelowMidpoint
  split_ifs with hu
  · rw [min_le_iff, or_iff_left (not_le.2 hfin)]
    rcases Nat.eq_zero_or_pos (excess 52 y) with hex | hex
    · -- nothing is rounded
      rw [hex] at hu ⊢
      rw [halfUp_zero, show (-u).toNat = 0 by omega, Nat.cast_zero, add_zero]
      have hpos : 0 < slackAbove n := by rw [hslack]; split_ifs <;> omega
      constructor <;> intro _ <;> nlinarith
    · have hfull := le_halfUp_excess (p := 52) (n := y) (by norm_num) (by unfold excess at hex; omega)
      have hylow := pow_le_of_excess_pos hex
      refine iff_of_false ?_ ?_
      · rw [not_le]
        calc n < 2^51 := h
          _ ≤ halfUp y (excess 52 y) := hfull
          _ ≤ _ := Nat.le_mul_of_pos_right _ (Nat.two_pow_pos _)
      · rw [not_lt]
        have hb : 2^(-u).toNat ≤ 2^excess 52 y := Nat.pow_le_pow_right (by norm_num) (by omega)
        calc (4*n + slackAbove n) * 2^(-u).toNat ≤ 2^53 * 2^excess 52 y :=
              Nat.mul_le_mul (by omega) hb
          _ = 4*2^(52 + excess 52 y - 1) := by
              rw [show 52 + excess 52 y - 1 = 51 + excess 52 y by omega]
              ring
          _ ≤ 4*y := by omega
          _ ≤ 4*y*2^u.toNat := Nat.le_mul_of_pos_right _ (Nat.two_pow_pos _)
  · obtain ⟨j, hj⟩ : ∃ j, (-(u + excess 52 y)).toNat = j + 1 :=
      ⟨(-(u + excess 52 y)).toNat - 1, by omega⟩
    have hb : (-u).toNat = excess 52 y + (j + 1) := by omega
    rw [hj, hb, show u.toNat = 0 by omega, min_le_iff, or_iff_left (not_le.2 hfin), halfEven_le_iff]
    rcases Nat.eq_zero_or_pos j with rfl | hjpos
    · -- ties of the second rounding are half units of the first
      have hiff := @halfUp_le_iff y (excess 52 y)
      rw [hslack]
      split_ifs with hpar
      · have := @hiff (2*n+1)
        rw [show (2*n+1) * 2^(0+1) = 2*(2*n+1) by ring, Nat.mul_le_mul_left_iff (by norm_num), this,
          show (4*n+3) * 2^(excess 52 y + (0+1)) = 2*((2*(2*n+1)+1) * 2^excess 52 y) by ring]
        omega
      · have := @hiff (2*n)
        rw [show (2*n+1) * 2^(0+1) = 2*(2*n+1) by ring, Nat.mul_lt_mul_left (by norm_num),
          Nat.lt_succ_iff, this,
          show (4*n+1) * 2^(excess 52 y + (0+1)) = 2*((2*(2*n)+1) * 2^excess 52 y) by ring]
        omega
    · have hp : 2^2 ≤ 2^(j+1) := Nat.pow_le_pow_right (by norm_num) (by omega)
      refine iff_of_true ?_ ?_
      · split_ifs <;> nlinarith
      · have hx : 0 < 2^excess 52 y := by positivity
        rw [pow_zero, mul_one]
        calc 4*y < 4*2^(52 + excess 52 y) := by omega
          _ = 2^52 * (2^excess 52 y * 2^2) := by ring
          _ ≤ (4*n + slackAbove n) * 2^(excess 52 y + (j + 1)) := by
            rw [pow_add 2 (excess 52 y) (j+1)]
            exact Nat.mul_le_mul (by omega) (Nat.mul_le_mul_left _ hp)

/-- Rounding keeps a value at or below a rate exactly when it lies below the midpoint above it. -/
theorem store_le_iff {y n : ℕ} {u : ℤ} (hn : IsRate n) : store y u ≤ n ↔ BelowMidpoint y u n := by
  rcases le_or_gt (2^51) n with h | h
  · exact store_le_iff_high hn h
  · exact store_le_iff_low hn.large.le h

lemma excess_eq {p n s : ℕ} (hp : 0 < p) (hlow : 2^(p - 1 + s) ≤ n) (hhigh : n < 2^(p + s)) :
    excess p n = s := by
  have h1 := bitLength_le_iff.2 hhigh
  have h2 := lt_bitLength_iff.2 hlow
  unfold excess
  omega

lemma IsRate.mantissa_pred {n : ℕ} (hn : IsRate n) (h : 2^51 < n) :
    ∃ N, 2^51 < N ∧ N ≤ 2^52 ∧ n = N * 2^excess 52 (n-1) := by
  obtain ⟨N, hlow, hhigh, hN⟩ := hn.mantissa h.le
  set s := excess 52 n
  have hpos : 0 < 2^s := by positivity
  rcases hlow.eq_or_lt with rfl | hlt
  · -- a power of two ends the binade below it
    obtain ⟨t, ht⟩ : ∃ t, s = t + 1 := by
      refine Nat.exists_eq_succ_of_ne_zero fun h0 => ?_
      rw [h0] at hN
      omega
    have hn' : n = 2^52 * 2^t := by rw [hN, ht]; ring
    have ht1 : 1 ≤ 2^t := Nat.one_le_two_pow
    have : excess 52 (n-1) = t := by
      apply excess_eq (by norm_num)
      · rw [pow_add]
        omega
      · rw [pow_add]
        omega
    exact ⟨2^52, by norm_num, le_rfl, by rw [this]; exact hn'⟩
  · have : excess 52 (n-1) = s := by
      apply excess_eq (by norm_num)
      · rw [pow_add]
        have : (2^51+1) * 2^s ≤ N * 2^s := Nat.mul_le_mul_right _ hlt
        have : 2^51 * 2^s + 2^s ≤ n := by rw [hN]; linarith
        omega
      · rw [pow_add]
        have : N * 2^s < 2^52 * 2^s := Nat.mul_lt_mul_of_pos_right hhigh hpos
        omega
    exact ⟨N, hlt, hhigh.le, by rw [this]; exact hN⟩

lemma le_store_iff_high {y n : ℕ} {u : ℤ} (hn : IsRate n) (h : 2^51 < n) :
    n ≤ store y u ↔ ReachesMidpoint y u n := by
  obtain ⟨N, hlow, hhigh, hN⟩ := hn.mantissa_pred h
  have hslack : 4*n - slackBelow n = 2*((2*N-1) * 2^excess 52 (n-1)) := by
    have : slackBelow n = 2 * 2^excess 52 (n-1) := if_neg (by omega)
    have h4 : 4*n = 4*(N * 2^excess 52 (n-1)) := congrArg (4 * ·) hN
    rw [this, h4, ← mul_assoc, ← Nat.sub_mul, ← mul_assoc]
    congr 1
    omega
  have hround := @le_round_iff 52 N y
  rw [ReachesMidpoint, hslack]
  unfold store
  split_ifs with hu
  · rw [le_min_iff, and_iff_left hn.finite.le]
    rcases le_or_gt 0 u with hsign | hsign
    · have hr := @hround u.toNat (excess 52 (n-1)) (by norm_num) hlow hhigh
      rw [show (u + excess 52 y).toNat = excess 52 y + u.toNat by omega,
        show (-u).toNat = 0 by omega]
      conv_lhs => rw [hN]
      rw [hr]
      constructor <;> intro _ <;> nlinarith
    · have hr := @hround 0 (excess 52 (n-1) + (-u).toNat) (by norm_num) hlow hhigh
      have hshift : halfUp y (excess 52 y) * 2^(u + excess 52 y).toNat * 2^(-u).toNat =
          halfUp y (excess 52 y) * 2^(excess 52 y + 0) := by
        rw [mul_assoc, ← pow_add]
        congr 2
        omega
      rw [show u.toNat = 0 by omega, ← Nat.mul_le_mul_right_iff (Nat.two_pow_pos (-u).toNat), hshift]
      conv_lhs => rw [hN, mul_assoc, ← pow_add]
      rw [hr, pow_add]
      constructor <;> intro _ <;> nlinarith
  · have hj : 1 ≤ (-(u + excess 52 y)).toNat := by omega
    have hpow : 2^1 ≤ 2^(-(u + excess 52 y)).toNat := Nat.pow_le_pow_right (by norm_num) hj
    have hH := halfUp_excess_le 52 y
    have hy := lt_pow_excess 52 y
    refine iff_of_false ?_ ?_
    · rw [not_le]
      refine lt_of_le_of_lt (min_le_of_left_le ?_) h
      rw [halfEven_le_iff, if_pos (by norm_num)]
      nlinarith
    · rw [not_le, show u.toNat = 0 by omega, pow_zero, mul_one]
      have hb : 2^(excess 52 y + 1) ≤ 2^(-u).toNat := Nat.pow_le_pow_right (by norm_num) (by omega)
      have hx : 1 ≤ 2^excess 52 (n-1) := Nat.one_le_two_pow
      calc 4*y < 4*2^(52 + excess 52 y) := by omega
        _ = 2*2^52 * 2^(excess 52 y + 1) := by ring
        _ ≤ 2*((2*N-1) * 2^excess 52 (n-1)) * 2^(-u).toNat := by
          refine Nat.mul_le_mul (Nat.mul_le_mul_left _ ?_) hb
          exact le_trans (by omega) (Nat.le_mul_of_pos_right (2*N-1) hx)

lemma le_store_iff_low {y n : ℕ} {u : ℤ} (hlarge : 2^50 < n) (h : n ≤ 2^51) :
    n ≤ store y u ↔ ReachesMidpoint y u n := by
  have hfin : n ≤ dblMax := le_trans h (by decide +kernel)
  have hH := halfUp_excess_le 52 y
  have hy := lt_pow_excess 52 y
  have hslack : slackBelow n = if n % 2 = 0 then 3 else 1 := if_pos h
  have hslack3 : slackBelow n ≤ 3 := by rw [hslack]; split_ifs <;> omega
  unfold store ReachesMidpoint
  split_ifs with hu
  · rw [le_min_iff, and_iff_left hfin]
    rcases Nat.eq_zero_or_pos (excess 52 y) with hex | hex
    · rw [hex] at hu ⊢
      rw [halfUp_zero, show (-u).toNat = 0 by omega, Nat.cast_zero, add_zero, pow_zero, mul_one]
      have hpos : 0 < slackBelow n := by rw [hslack]; split_ifs <;> omega
      rw [mul_assoc]
      omega
    · have hfull := le_halfUp_excess (p := 52) (n := y) (by norm_num) (by unfold excess at hex; omega)
      have hylow := pow_le_of_excess_pos hex
      refine iff_of_true ?_ ?_
      · calc n ≤ 2^51 := h
          _ ≤ halfUp y (excess 52 y) := hfull
          _ ≤ _ := Nat.le_mul_of_pos_right _ (Nat.two_pow_pos _)
      · have hb : 2^(-u).toNat ≤ 2^excess 52 y := Nat.pow_le_pow_right (by norm_num) (by omega)
        calc (4*n - slackBelow n) * 2^(-u).toNat ≤ 2^53 * 2^excess 52 y :=
              Nat.mul_le_mul (by omega) hb
          _ = 4*2^(52 + excess 52 y - 1) := by
              rw [show 52 + excess 52 y - 1 = 51 + excess 52 y by omega]
              ring
          _ ≤ 4*y := by omega
          _ ≤ 4*y*2^u.toNat := Nat.le_mul_of_pos_right _ (Nat.two_pow_pos _)
  · obtain ⟨j, hj⟩ : ∃ j, (-(u + excess 52 y)).toNat = j + 1 :=
      ⟨(-(u + excess 52 y)).toNat - 1, by omega⟩
    have hb : (-u).toNat = excess 52 y + (j + 1) := by omega
    obtain ⟨m, rfl⟩ : ∃ m, n = m + 1 := ⟨n-1, by omega⟩
    rw [hj, hb, show u.toNat = 0 by omega, le_min_iff, and_iff_left hfin, Nat.succ_le_iff, ← not_le,
      halfEven_le_iff]
    rcases Nat.eq_zero_or_pos j with rfl | hjpos
    · have hiff := @le_halfUp_iff y (excess 52 y)
      have hx : 0 < 2^excess 52 y := by positivity
      rw [hslack]
      split_ifs with hm hpar hpar
      · omega
      · have := @hiff (2*m+2)
        rw [show (2*m+1) * 2^(0+1) = 2*(2*m+1) by ring, Nat.mul_le_mul_left_iff (by norm_num), not_le,
          Nat.lt_iff_add_one_le, this, show 4*(m+1) - 1 = 4*m+3 by omega,
          show (4*m+3) * 2^(excess 52 y + (0+1)) = 2*((4*m+3) * 2^excess 52 y) by ring]
        constructor <;> intro _ <;> nlinarith
      · have := @hiff (2*m+1)
        rw [show (2*m+1) * 2^(0+1) = 2*(2*m+1) by ring, Nat.mul_lt_mul_left (by norm_num), not_lt,
          this, show 4*(m+1) - 3 = 4*m+1 by omega,
          show (4*m+1) * 2^(excess 52 y + (0+1)) = 2*((4*m+1) * 2^excess 52 y) by ring]
        constructor <;> intro _ <;> nlinarith
      · omega
    · have hp : 2^2 ≤ 2^(j+1) := Nat.pow_le_pow_right (by norm_num) (by omega)
      refine iff_of_false ?_ ?_
      · split_ifs
        · rw [not_not]
          nlinarith
        · rw [not_not]
          nlinarith
      · have hx : 0 < 2^excess 52 y := by positivity
        rw [pow_zero, mul_one, not_le]
        calc 4*y < 4*2^(52 + excess 52 y) := by omega
          _ = 2^52 * (2^excess 52 y * 2^2) := by ring
          _ ≤ (4*(m+1) - slackBelow (m+1)) * 2^(excess 52 y + (j + 1)) := by
            rw [pow_add 2 (excess 52 y) (j+1)]
            exact Nat.mul_le_mul (by omega) (Nat.mul_le_mul_left _ hp)

/-- Rounding keeps a value at or above a rate exactly when it reaches the midpoint below it. -/
theorem le_store_iff {y n : ℕ} {u : ℤ} (hn : IsRate n) : n ≤ store y u ↔ ReachesMidpoint y u n := by
  rcases lt_or_ge (2^51) n with h | h
  · exact le_store_iff_high hn h
  · exact le_store_iff_low hn.large h

end CredaCash
