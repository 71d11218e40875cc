import CredaCash.UniFloat.Residue
import Mathlib.Algebra.Order.Floor.Div

/-! The average of two rates, compared with a third one in exact integers, and how far the one rate may go until the
average with the other one passes the third. -/

namespace CredaCash
open Rounding

/-- The largest number of 52 bits up to `k`. -/
def floor52 (k : ℕ) : ℕ := k / 2^excess 52 k * 2^excess 52 k

/-- The least number of 52 bits from `k` on. -/
def ceil52 (k : ℕ) : ℕ := (k ⌈/⌉ 2^excess 52 k) * 2^excess 52 k

section Neighbours
variable {x k : ℕ}

lemma is52_floor52 (k : ℕ) : Is52 (floor52 k) := by
  refine is52_mul_pow ?_ _
  have hlt := lt_pow_excess 52 k
  rw [pow_add] at hlt
  exact (Nat.div_lt_of_lt_mul (mul_comm (2^52) _ ▸ hlt)).le

lemma is52_ceil52 (k : ℕ) : Is52 (ceil52 k) := by
  refine is52_mul_pow ?_ _
  have hlt := lt_pow_excess 52 k
  rw [pow_add] at hlt
  exact (ceilDiv_le_iff_le_mul (by positivity)).2 (mul_comm (2^52) _ ▸ hlt.le)

/-- A number of `p` bits below a power of two leaves a unit to it. -/
lemma add_unit_le {p : ℕ} (hp : 0 < p) (hx : 2^excess p x ∣ x) (hlt : x < 2^k) : x + 2^(k - p) ≤ 2^k := by
  rcases (bitLength_le_iff.2 hlt).eq_or_lt with hlen | hlen
  · have hunit : 2^(k - p) ∣ x := by rwa [← hlen]
    have hpow : 2^(k - p) ∣ 2^k := pow_dvd_pow 2 (Nat.sub_le k p)
    obtain ⟨c, hc⟩ := hunit
    obtain ⟨d, hd⟩ := hpow
    rw [hc, hd] at hlt ⊢
    rw [← Nat.mul_succ]
    exact Nat.mul_le_mul_left _ (lt_of_mul_lt_mul_left hlt (Nat.zero_le _))
  · have hhalf : x < 2^(k - 1) := bitLength_le_iff.1 (by omega)
    have hunit : 2^(k - p) ≤ 2^(k - 1) := Nat.pow_le_pow_right (by norm_num) (by omega)
    have htwice : 2^k = 2*2^(k - 1) := by
      rw [← pow_succ']
      congr 1
      omega
    omega

/-- A bound on a number and a unit of its length, or of the length `l` if that is more. The unit may be taken from the
longest number within the bound, whatever the length of `x`. -/
lemma le_limit_iff {p α β l limit : ℕ} (hp : 0 < p) (hx : 2^excess p x ∣ x) (hpos : 0 < x) (hα : 0 < α)
    (hunit : β * 2^(p + 1) ≤ α) : α * x + β * 2^(Max.max (bitLength x) l) ≤ limit ↔
      x ≤ (limit - β * 2^(Max.max (bitLength (limit / α)) l)) / α := by
  rw [Nat.le_div_iff_mul_le hα, mul_comm x]
  have hdiv : α * (limit / α) ≤ limit := Nat.mul_div_le _ _
  have hle : α * x ≤ limit → bitLength x ≤ bitLength (limit / α) := fun h => by
    refine bitLength_mono ?_
    rwa [Nat.le_div_iff_mul_le hα, mul_comm]
  constructor
  · intro h
    have hlen := hle ((Nat.le_add_right _ _).trans h)
    refine Nat.le_sub_of_add_le ?_
    rcases (max_le_max_right l hlen).eq_or_lt with heq | hlt
    · rwa [← heq]
    · -- a shorter number leaves a unit to the power of two that the limit reaches
      obtain ⟨k, hk⟩ : ∃ k, bitLength (limit / α) = k + 1 := ⟨bitLength (limit / α) - 1, by omega⟩
      have hroom := add_unit_le hp hx (bitLength_le_iff.1 (by omega : bitLength x ≤ k))
      have hreach : 2^k ≤ limit / α := lt_bitLength_iff.1 (by omega)
      have hpow : β * 2^(k + 1) ≤ α * 2^(k - p) := by
        calc β * 2^(k + 1) ≤ β * 2^(p + 1 + (k - p)) :=
              Nat.mul_le_mul_left _ (Nat.pow_le_pow_right (by norm_num) (by omega))
          _ = β * 2^(p + 1) * 2^(k - p) := by rw [pow_add, mul_assoc]
          _ ≤ α * 2^(k - p) := Nat.mul_le_mul_right _ hunit
      rw [max_eq_left (by omega : l ≤ bitLength (limit / α)), hk]
      calc α * x + β * 2^(k + 1) ≤ α * (x + 2^(k - p)) := by
            rw [mul_add]
            exact Nat.add_le_add_left hpow _
        _ ≤ α * (limit / α) := Nat.mul_le_mul_left _ (hroom.trans hreach)
        _ ≤ limit := hdiv
  · intro h
    have hlen := hle (h.trans (Nat.sub_le _ _))
    have hpow : β * 2^(Max.max (bitLength x) l) ≤ β * 2^(Max.max (bitLength (limit / α)) l) :=
      Nat.mul_le_mul_left _ (Nat.pow_le_pow_right (by norm_num) (max_le_max_right l hlen))
    have hmul : 0 < α * x := by positivity
    omega

lemma le_floor52_iff (hx : Is52 x) : x ≤ floor52 k ↔ x ≤ k := by
  refine ⟨fun h => h.trans (Nat.div_mul_le_self _ _), fun h => ?_⟩
  rcases (bitLength_mono h).eq_or_lt with hlen | hlen
  · obtain ⟨c, hc⟩ : 2^excess 52 k ∣ x := by rwa [excess, ← hlen]
    rw [floor52, hc, mul_comm]
    refine Nat.mul_le_mul_right _ ((Nat.le_div_iff_mul_le (by positivity)).2 ?_)
    rwa [mul_comm, ← hc]
  · have hhalf : x < 2^(bitLength k - 1) := bitLength_le_iff.1 (by omega)
    rcases Nat.eq_zero_or_pos (excess 52 k) with hzero | hpos
    · rwa [floor52, hzero, pow_zero, Nat.div_one, mul_one]
    · have hpow : 2^(bitLength k - 1) = 2^51 * 2^excess 52 k := by
        rw [← pow_add]
        congr 1
        unfold excess at hpos ⊢
        omega
      have hk : 0 < k := Nat.pos_of_ne_zero fun h0 => by
        rw [h0, bitLength_zero] at hlen
        exact Nat.not_lt_zero _ hlen
      have hlow := pow_le_of_bitLength_pos hk
      rw [hpow] at hhalf hlow
      exact hhalf.le.trans (Nat.mul_le_mul_right _ ((Nat.le_div_iff_mul_le (by positivity)).2 hlow))

lemma ceil52_le_iff (hx : Is52 x) : ceil52 k ≤ x ↔ k ≤ x := by
  have hpos : 0 < 2^excess 52 k := by positivity
  constructor
  · refine le_trans ?_
    rw [ceil52, mul_comm]
    exact (ceilDiv_le_iff_le_mul hpos).1 le_rfl
  · intro h
    obtain ⟨c, hc⟩ : 2^excess 52 k ∣ x := (pow_dvd_pow 2 (Nat.sub_le_sub_right (bitLength_mono h) 52)).trans hx
    rw [ceil52, hc, mul_comm]
    exact Nat.mul_le_mul_left _ ((ceilDiv_le_iff_le_mul hpos).2 (hc ▸ h))

end Neighbours

/-- The shorter mantissa is shifted by `g` bits, a half going up, or dropped; a bound that is a multiple of four tells
no difference. -/
lemma aligned_lt_iff {m d g K : ℕ} (hm : m < 2^62) :
    (if 62 ≤ g then 4*d else halfUp m g + 4*d) < 4*K ↔ 2*m + (8*d + 1)*2^g < 8*K*2^g := by
  rcases le_or_gt K d with hle | hlt
  · have hmul : 8*K*2^g ≤ 8*d*2^g := Nat.mul_le_mul_right _ (by omega)
    refine iff_of_false ?_ ?_
    · split_ifs <;> omega
    · rw [add_mul]
      omega
  · split_ifs with hg
    · have hpow : 2^62 ≤ 2^g := Nat.pow_le_pow_right (by norm_num) hg
      have hmul : (8*d + 8)*2^g ≤ 8*K*2^g := Nat.mul_le_mul_right _ (by omega)
      refine iff_of_true (by omega) (lt_of_lt_of_le ?_ hmul)
      rw [add_mul, add_mul]
      omega
    · obtain ⟨r, hr⟩ : ∃ r, 4*K = 4*d + 1 + r := ⟨4*K - (4*d + 1), by omega⟩
      have hK : 8*K*2^g = (8*d + 1)*2^g + (2*r + 1)*2^g := by
        rw [← add_mul]
        congr 1
        omega
      rw [hr, hK, show halfUp m g + 4*d < 4*d + 1 + r ↔ halfUp m g ≤ r by omega, halfUp_le_iff]
      omega

namespace UniFloat
section HalfSum
variable {x y : UniFloat} {n : ℕ}

/-- Half the sum of two rates, before it is rounded to 52 bits, compared with a number of few bits as the exact half
sum is: half a unit of the 62-bit sum is added to that. -/
lemma halfSum_lt_iff (hx : 0 < x.val) (hxy : x ≤ y) (hy52 : Is52 y.val.natAbs) {m t c : ℕ} (hc : c = m * 2^t)
    (hm : m ≤ 2^54) :
    4*(halfSum x y).1 * 2^(halfSum x y).2.toNat < c * 2^(-(halfSum x y).2).toNat ↔
      2^64 * (x.val.natAbs + y.val.natAbs) + 2^(bitLength y.val.natAbs + 1) < 2^63 * c := by
  have hlen := bitLength_mono (natAbs_le hx hxy)
  have hy : 0 < y.val := lt_of_lt_of_le hx hxy
  have hmx := mantissa_mul x.isDouble (by norm_num : 53 ≤ 62)
  have hmy := mantissa_mul y.isDouble (by norm_num : 53 ≤ 62)
  have hxhigh := mantissa_lt 62 x.val.natAbs
  have hylow := @le_mantissa 62 y.val.natAbs (by norm_num) (natAbs_pos_iff.2 hy.ne')
  obtain ⟨d, hd⟩ : 4 ∣ mantissa 62 y.val.natAbs := (by norm_num : 4 ∣ 2^10).trans (hy52.dvd_mantissa y.isDouble)
  rw [halfSum_of_le hx hxy, hd]
  generalize mantissa 62 x.val.natAbs = mx at hmx hxhigh ⊢
  generalize x.val.natAbs = X at hlen hmx ⊢
  generalize y.val.natAbs = Y at hlen hmy hylow hd ⊢
  rw [hd] at hmy hylow
  obtain ⟨g, hg⟩ : ∃ g, bitLength Y = bitLength X + g := Nat.exists_eq_add_of_le hlen
  set u : ℤ := (bitLength Y : ℤ) - 63 with hu
  have hpow : 2^(-u).toNat * (2^g * 2^bitLength X) = 2^u.toNat * 2^63 := by
    rw [← pow_add, ← pow_add, ← pow_add]
    congr 1
    omega
  -- both sides of the exact comparison have the factor `2^bitLength X`
  have hexact : 2^64 * (X + Y) + 2^(bitLength Y + 1) < 2^63 * c ↔
      2*(2*mx + (8*d + 1)*2^g) * 2^u.toNat < c * 2^(-u).toNat * 2^g := by
    have hleft : 2^64 * (X + Y) + 2^(bitLength Y + 1) = 2*(2*mx + (8*d + 1)*2^g) * 2^bitLength X := by
      calc 2^64 * (X + Y) + 2^(bitLength Y + 1) = 4*(X * 2^62) + 4*(Y * 2^62) + 2*2^bitLength Y := by ring
        _ = _ := by
            rw [← hmx, ← hmy, hg, pow_add]
            ring
    have hright : 2^63 * c * 2^u.toNat = c * 2^(-u).toNat * 2^g * 2^bitLength X := by
      calc 2^63 * c * 2^u.toNat = c * (2^u.toNat * 2^63) := by ring
        _ = _ := by
            rw [← hpow]
            ring
    rw [← Nat.mul_lt_mul_right (Nat.two_pow_pos u.toNat), hleft, hright, mul_right_comm,
      Nat.mul_lt_mul_right (Nat.two_pow_pos _)]
  rw [hexact, show bitLength Y - bitLength X = g by omega]
  rcases scaled_multiple (u := u) 4 hc hm with ⟨K, hK⟩ | hfar
  · rw [hK, show 2^4*K = 4*(4*K) by ring, Nat.mul_lt_mul_right (Nat.two_pow_pos _),
      Nat.mul_lt_mul_left (by norm_num), aligned_lt_iff hxhigh, mul_right_comm _ (2^u.toNat),
      Nat.mul_lt_mul_right (Nat.two_pow_pos _), show 4*(4*K)*2^g = 2*(8*K*2^g) by ring,
      Nat.mul_lt_mul_left (by norm_num)]
  · have hhalf : 4*d ≤ if 62 ≤ g then 4*d else halfUp mx g + 4*d := by split_ifs <;> omega
    refine iff_of_false (not_lt.2 (hfar.trans (Nat.mul_le_mul_right _ ?_))) (not_lt.2 ?_)
    · omega
    · calc c * 2^(-u).toNat * 2^g ≤ 2^58 * 2^u.toNat * 2^g := Nat.mul_le_mul_right _ hfar
        _ ≤ 16*d * 2^u.toNat * 2^g := Nat.mul_le_mul_right _ (Nat.mul_le_mul_right _ (by omega))
        _ = 2*(8*d*2^g) * 2^u.toNat := by ring
        _ ≤ 2*(2*mx + (8*d + 1)*2^g) * 2^u.toNat := by
            refine Nat.mul_le_mul_right _ (Nat.mul_le_mul_left _ ?_)
            rw [add_mul]
            omega

variable (hx : IsRateFloat x) (hy : IsRateFloat y) (hxy : x ≤ y)
include hx hy hxy

/-- `Average` of two rates, compared with a rate in exact integers. -/
theorem average_le_iff_exact (hn : IsRate n) : (average y x 0).val ≤ n ↔
    2^64 * (x.val.natAbs + y.val.natAbs) + 2^(bitLength y.val.natAbs + 1) < 2^63 * (4*n + slackAbove n) := by
  obtain ⟨m, t, hc, hm⟩ := midpointAbove_bits hn
  rw [average_comm hy.pos hx.pos, average_val hx.pos hy.pos hx.rate.bits hy.rate.bits, Int.ofNat_le,
    store_le_iff hn, BelowMidpoint]
  exact halfSum_lt_iff hx.pos hxy hy.rate.bits hc hm

theorem le_average_iff_exact (hn : IsRate n) : n ≤ (average y x 0).val ↔
    2^63 * (4*n - slackBelow n) ≤ 2^64 * (x.val.natAbs + y.val.natAbs) + 2^(bitLength y.val.natAbs + 1) := by
  obtain ⟨m, t, hc, hm⟩ := midpointBelow_bits hn
  rw [average_comm hy.pos hx.pos, average_val hx.pos hy.pos hx.rate.bits hy.rate.bits, Int.ofNat_le,
    le_store_iff hn, ReachesMidpoint, ← not_lt, halfSum_lt_iff hx.pos hxy hy.rate.bits hc hm, not_lt]

end HalfSum
end UniFloat

/-- The largest rate whose average with `s` does not exceed `b`. -/
def mirrorAbove (s b : ℕ) : ℕ :=
  let limit := 2^63 * (4*b + slackAbove b) - 2^64 * s - 1
  floor52 ((limit - 2^(bitLength (limit / 2^64) + 1)) / 2^64)

/-- The least rate whose average with a rate `b` above it reaches `s`. -/
def mirrorBelow (s b : ℕ) : ℕ :=
  ceil52 ((2^63 * (4*s - slackBelow s) - 2^(bitLength b + 1)) ⌈/⌉ 2^64 - b)

lemma IsRate.between {n m k : ℕ} (hn : IsRate n) (hm : IsRate m) (hlow : n ≤ k) (hhigh : k ≤ m) (h52 : Is52 k) :
    IsRate k :=
  ⟨hn.large.trans_le hlow, hhigh.trans_lt hm.finite, h52⟩

section Mirror
variable {x s b : ℕ}

lemma le_mirrorAbove_iff (hx : Is52 x) (hpos : 0 < x) : x ≤ mirrorAbove s b ↔
    2^64 * (s + x) + 2^(bitLength x + 1) < 2^63 * (4*b + slackAbove b) := by
  have hlimit := @le_limit_iff x 52 (2^64) 2 0 (2^63 * (4*b + slackAbove b) - 2^64 * s - 1) (by norm_num) hx hpos
    (by norm_num) (by norm_num)
  simp only [Nat.max_zero, ← pow_succ'] at hlimit
  have hunit : 0 < 2^(bitLength x + 1) := by positivity
  rw [mirrorAbove, le_floor52_iff hx, ← hlimit]
  omega

lemma mirrorBelow_le_iff (hx : Is52 x) : mirrorBelow s b ≤ x ↔
    2^63 * (4*s - slackBelow s) ≤ 2^64 * (x + b) + 2^(bitLength b + 1) := by
  rw [mirrorBelow, ceil52_le_iff hx, Nat.sub_le_iff_le_add, ceilDiv_le_iff_le_mul (by norm_num)]
  omega

end Mirror

end CredaCash
