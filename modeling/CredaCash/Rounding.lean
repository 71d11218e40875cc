import Mathlib.Tactic

/-! Rounding of natural numbers to a given number of bits, halves up or halves to even.
Every comparison with a rounded number is reduced to a comparison with the number itself. -/

namespace Rounding

/-- Number of binary digits, zero having none. -/
def bitLength (n : ℕ) : ℕ := if n = 0 then 0 else n.log2 + 1

/-- Division by `2^k`, a half going up. -/
def halfUp (n k : ℕ) : ℕ := (n + 2^k/2) / 2^k

/-- Division by `2^k`, a half going to the even neighbour. -/
def halfEven (n k : ℕ) : ℕ :=
  if 2^k < 2*(n % 2^k) ∨ (2*(n % 2^k) = 2^k ∧ (n / 2^k) % 2 = 1) then n / 2^k + 1 else n / 2^k

@[simp] theorem bitLength_zero : bitLength 0 = 0 := rfl

theorem lt_bitLength_iff {n k : ℕ} : k < bitLength n ↔ 2^k ≤ n := by
  unfold bitLength
  split_ifs with h
  · subst h
    simp
  · rw [Nat.lt_succ_iff, Nat.le_log2 h]

theorem bitLength_le_iff {n k : ℕ} : bitLength n ≤ k ↔ n < 2^k := by
  rw [← not_lt, lt_bitLength_iff, not_le]

theorem lt_pow_bitLength (n : ℕ) : n < 2^bitLength n := bitLength_le_iff.1 le_rfl

theorem pow_le_of_bitLength_pos {n : ℕ} (h : 0 < n) : 2^(bitLength n - 1) ≤ n := by
  have hpos : 0 < bitLength n := lt_bitLength_iff.2 (by simpa using Nat.succ_le_of_lt h)
  exact lt_bitLength_iff.1 (by omega)

theorem bitLength_pos {n : ℕ} (h : 0 < n) : 0 < bitLength n :=
  lt_bitLength_iff.2 (by simpa using Nat.succ_le_of_lt h)

theorem bitLength_mul_pow {n : ℕ} (h : 0 < n) (k : ℕ) :
    bitLength (n * 2^k) = bitLength n + k := by
  apply le_antisymm
  · rw [bitLength_le_iff, pow_add]
    exact Nat.mul_lt_mul_of_pos_right (lt_pow_bitLength n) (by positivity)
  · have hpos := bitLength_pos h
    have hlow : 2^(bitLength n - 1 + k) ≤ n * 2^k := by
      rw [pow_add]
      exact Nat.mul_le_mul_right _ (pow_le_of_bitLength_pos h)
    have := lt_bitLength_iff.2 hlow
    omega

theorem bitLength_mono {m n : ℕ} (h : m ≤ n) : bitLength m ≤ bitLength n :=
  bitLength_le_iff.2 (lt_of_le_of_lt h (lt_pow_bitLength n))

@[simp] theorem halfUp_zero (n : ℕ) : halfUp n 0 = n := by simp [halfUp]

theorem halfUp_le_iff {n k m : ℕ} : halfUp n k ≤ m ↔ 2*n < (2*m+1)*2^k := by
  unfold halfUp
  rw [← Nat.lt_succ_iff, Nat.div_lt_iff_lt_mul (by positivity)]
  cases k with
  | zero => simp
  | succ k =>
    have : 2^(k+1)/2 = 2^k := by rw [pow_succ]; omega
    rw [this, pow_succ, Nat.succ_eq_add_one]
    constructor <;> intro h <;> nlinarith

theorem le_halfUp_iff {n k m : ℕ} : m ≤ halfUp n k ↔ 2*m*2^k ≤ 2*n + 2^k := by
  cases m with
  | zero => simp
  | succ m =>
    rw [← not_lt, Nat.lt_succ_iff, halfUp_le_iff, not_lt]
    constructor <;> intro h <;> nlinarith

theorem halfUp_mul_pow (n k : ℕ) : halfUp (n * 2^k) k = n := by
  apply le_antisymm
  · rw [halfUp_le_iff]
    have : 0 < 2^k := by positivity
    nlinarith
  · rw [le_halfUp_iff]
    nlinarith [Nat.zero_le (2^k)]

theorem halfEven_le_iff {n k m : ℕ} :
    halfEven n k ≤ m ↔ if m % 2 = 0 then 2*n ≤ (2*m+1)*2^k else 2*n < (2*m+1)*2^k := by
  have hpos : 0 < 2^k := by positivity
  have hdiv := Nat.div_add_mod n (2^k)
  have hmod := Nat.mod_lt n hpos
  unfold halfEven
  set q := n / 2^k with hq
  set r := n % 2^k with hr
  set p := 2^k with hp
  have hsplit : (2*m+1)*p = 2*(p*m) + p := by ring
  rw [hsplit]
  rcases lt_trichotomy q m with hlt | rfl | hgt
  · have : p*q + p ≤ p*m := by nlinarith
    split_ifs <;> omega
  · split_ifs <;> omega
  · have : p*m + p ≤ p*q := by nlinarith
    split_ifs <;> omega

/-- Number of low bits that do not fit in `p` bits. -/
def excess (p n : ℕ) : ℕ := bitLength n - p

theorem halfUp_excess_le (p n : ℕ) : halfUp n (excess p n) ≤ 2^p := by
  rw [halfUp_le_iff]
  have hlt := lt_pow_bitLength n
  have hle : 2^bitLength n ≤ 2^p * 2^excess p n := by
    rw [← pow_add]
    exact Nat.pow_le_pow_right (by norm_num) (by unfold excess; omega)
  have : 0 < 2^excess p n := by positivity
  nlinarith

theorem le_halfUp_excess {p n : ℕ} (hp : 0 < p) (h : p ≤ bitLength n) :
    2^(p-1) ≤ halfUp n (excess p n) := by
  rw [le_halfUp_iff]
  have hpos : 0 < n := by
    rcases Nat.eq_zero_or_pos n with rfl | hn
    · simp at h; omega
    · exact hn
  have hlow := pow_le_of_bitLength_pos hpos
  have : 2^(p-1) * 2^excess p n = 2^(bitLength n - 1) := by
    rw [← pow_add]
    congr 1
    unfold excess
    omega
  nlinarith [Nat.zero_le (2^excess p n)]

/-- Rounding to `p` bits stays at or below a `p`-bit number exactly for the numbers below
the midpoint to its successor. The two sides may be scaled by different powers. -/
theorem round_le_iff {p N n a b : ℕ} (hp : 0 < p) (hlow : 2^(p-1) ≤ N) (hhigh : N < 2^p) :
    halfUp n (excess p n) * 2^(excess p n + a) ≤ N*2^b ↔ 2*n*2^a < (2*N+1)*2^b := by
  have hdouble : 2^p = 2*2^(p-1) := by rw [← pow_succ']; congr 1; omega
  rcases lt_trichotomy (excess p n + a) b with hlt | rfl | hgt
  · -- the rounded number is at most one step of the larger scale
    obtain ⟨d, rfl⟩ : ∃ d, b = excess p n + a + 1 + d := ⟨b - (excess p n + a + 1), by omega⟩
    have hd : 0 < 2^d := by positivity
    have ha : 0 < 2^a := by positivity
    have hx : 0 < 2^excess p n := by positivity
    have hn : n < 2^p * 2^excess p n := by
      rw [← pow_add, ← bitLength_le_iff]
      unfold excess
      omega
    have hN : 2^p ≤ N*2*2^d := by nlinarith
    have hleft : halfUp n (excess p n) * 2^(excess p n + a) ≤ N*2^(excess p n + a + 1 + d) := by
      have hr := halfUp_excess_le p n
      calc halfUp n (excess p n) * 2^(excess p n + a)
          ≤ (N*2*2^d) * 2^(excess p n + a) := Nat.mul_le_mul_right _ (hr.trans hN)
        _ = N*2^(excess p n + a + 1 + d) := by ring
    have hright : 2*n*2^a < (2*N+1)*2^(excess p n + a + 1 + d) := by
      calc 2*n*2^a < 2*(2^p * 2^excess p n)*2^a := by nlinarith
        _ ≤ 2*((N*2*2^d) * 2^excess p n)*2^a :=
            Nat.mul_le_mul_right _ (Nat.mul_le_mul_left _ (Nat.mul_le_mul_right _ hN))
        _ = 2*N*2^(excess p n + a + 1 + d) := by ring
        _ ≤ (2*N+1)*2^(excess p n + a + 1 + d) := Nat.mul_le_mul_right _ (by omega)
    exact iff_of_true hleft hright
  · rw [Nat.mul_le_mul_right_iff (by positivity), halfUp_le_iff, pow_add, ← mul_assoc,
      Nat.mul_lt_mul_right (by positivity)]
  · by_cases hbits : p ≤ bitLength n
    · -- the rounded number has a full mantissa on a larger scale
      obtain ⟨d, hd⟩ : ∃ d, excess p n + a = b + 1 + d := ⟨excess p n + a - (b+1), by omega⟩
      have hdpos : 0 < 2^d := by positivity
      have hb : 0 < 2^b := by positivity
      have hfull : 2^(p-1) * 2^excess p n ≤ n := by
        have hpos : 0 < n := by
          rcases Nat.eq_zero_or_pos n with rfl | hn
          · simp at hbits; omega
          · exact hn
        have h := pow_le_of_bitLength_pos hpos
        rw [← pow_add]
        refine le_trans (Nat.pow_le_pow_right (by norm_num) ?_) h
        unfold excess
        omega
      refine iff_of_false ?_ ?_
      · rw [not_le, hd]
        calc N*2^b < 2^p * 2^b := Nat.mul_lt_mul_of_pos_right hhigh hb
          _ ≤ 2^p * 2^b * 2^d := Nat.le_mul_of_pos_right _ hdpos
          _ = 2^(p-1) * 2^(b+1+d) := by rw [hdouble]; ring
          _ ≤ halfUp n (excess p n) * 2^(b+1+d) :=
              Nat.mul_le_mul_right _ (le_halfUp_excess hp hbits)
      · rw [not_lt]
        calc (2*N+1)*2^b ≤ 2*2^p * 2^b := Nat.mul_le_mul_right _ (by omega)
          _ ≤ 2*2^p * 2^b * 2^d := Nat.le_mul_of_pos_right _ hdpos
          _ = 2*(2^(p-1) * 2^(b+1+d)) := by rw [hdouble]; ring
          _ = 2*(2^(p-1) * 2^excess p n)*2^a := by rw [← hd]; ring
          _ ≤ 2*n*2^a := Nat.mul_le_mul_right _ (Nat.mul_le_mul_left _ hfull)
    · -- nothing is rounded, and the two integers differ by no half
      have hex : excess p n = 0 := by unfold excess; omega
      rw [hex] at hgt ⊢
      rw [halfUp_zero, Nat.zero_add]
      obtain ⟨d, rfl⟩ : ∃ d, a = b + d := ⟨a - b, by omega⟩
      rw [pow_add, show n*(2^b*2^d) = n*2^d*2^b by ring,
        show 2*n*(2^b*2^d) = 2*(n*2^d)*2^b by ring,
        Nat.mul_le_mul_right_iff (by positivity), Nat.mul_lt_mul_right (by positivity)]
      omega

/-- The same comparison from below. A power of two counts as the end of the binade under it. -/
theorem le_round_iff {p N n a b : ℕ} (hp : 0 < p) (hlow : 2^(p-1) < N) (hhigh : N ≤ 2^p) :
    N*2^b ≤ halfUp n (excess p n) * 2^(excess p n + a) ↔ (2*N-1)*2^b ≤ 2*n*2^a := by
  obtain ⟨M, rfl⟩ := Nat.exists_eq_succ_of_ne_zero (Nat.ne_zero_of_lt hlow)
  rw [Nat.succ_eq_add_one] at *
  have hdouble : 2^p = 2*2^(p-1) := by rw [← pow_succ']; congr 1; omega
  have hstep : halfUp n (excess p n) * 2^(excess p n + a) < (M+1)*2^b ↔
      halfUp n (excess p n) * 2^(excess p n + a) ≤ M*2^b := by
    refine ⟨fun h => ?_, fun h => lt_of_le_of_lt h (by nlinarith [Nat.two_pow_pos b])⟩
    rcases le_or_gt b (excess p n + a) with hle | hgt
    · obtain ⟨d, hd⟩ := Nat.exists_eq_add_of_le hle
      rw [hd, pow_add, mul_comm (2^b), ← mul_assoc] at h ⊢
      exact Nat.mul_le_mul_right _ (Nat.lt_succ_iff.1 (lt_of_mul_lt_mul_right h (Nat.zero_le _)))
    · obtain ⟨d, rfl⟩ : ∃ d, b = excess p n + a + 1 + d := ⟨b - (excess p n + a + 1), by omega⟩
      have hr := halfUp_excess_le p n
      calc halfUp n (excess p n) * 2^(excess p n + a)
          ≤ (M*2*2^d) * 2^(excess p n + a) :=
            Nat.mul_le_mul_right _ (by nlinarith [Nat.two_pow_pos d])
        _ = M*2^(excess p n + a + 1 + d) := by ring
  rw [← not_lt, hstep, round_le_iff hp (Nat.lt_succ_iff.1 hlow) (Nat.lt_of_succ_le hhigh), not_lt]
  rfl

end Rounding
