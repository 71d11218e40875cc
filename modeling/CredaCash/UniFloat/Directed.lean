import CredaCash.UniFloat.Bounds
import Mathlib.Data.Int.Log

/-! Directed rounding of products and quotients: the result of the integer arithmetic compared
with the exact rational. -/

namespace CredaCash
open Rounding

lemma add_pred_div (v : ℕ) {d : ℕ} (hd : 0 < d) :
    (v + (d - 1)) / d = if v % d = 0 then v / d else v / d + 1 := by
  have hsplit := Nat.div_add_mod v d
  have hmod := Nat.mod_lt v hd
  split_ifs with h
  · exact (Nat.div_eq_iff hd).2 (by rw [mul_comm] at hsplit; omega)
  · refine (Nat.div_eq_iff hd).2 ?_
    rw [mul_comm] at hsplit
    rw [add_mul]
    omega

/-- `Shift` in any of its three modes is the division that `Decompose` carries out. -/
theorem shift_eq_roundBy (v k : ℕ) (r : ℤ) : shift v k r = roundBy r v k := by
  have hpos : 0 < 2^k := by positivity
  rcases lt_trichotomy r 0 with hneg | rfl | hup
  · simp [shift, roundBy, hneg, Nat.shiftRight_eq_div_pow]
  · rw [shift_nearest, roundBy, if_neg (lt_irrefl 0), if_neg (lt_irrefl 0)]
  · rw [shift, roundBy, if_neg hup.not_gt, if_pos hup, add_pred_div v hpos, Nat.and_two_pow_sub_one_eq_mod,
      Nat.shiftRight_eq_div_pow]
    rcases Nat.eq_zero_or_pos k with rfl | hk
    · simp [Nat.mod_one]
    · simp [hup, hup.not_gt, hk.ne']

section RoundBy
variable {r : ℤ} (n k : ℕ)

theorem le_roundBy (hr : 0 < r) : n ≤ roundBy r n k * 2^k := by
  have hpos : 0 < 2^k := by positivity
  have hsplit := Nat.div_add_mod n (2^k)
  rw [roundBy, if_neg hr.not_gt, if_pos hr, add_pred_div n hpos]
  have hmod := Nat.mod_lt n hpos
  split_ifs with h
  · rw [mul_comm]
    omega
  · rw [add_mul, mul_comm]
    omega

theorem roundBy_le (hr : r < 0) : roundBy r n k * 2^k ≤ n := by
  rw [roundBy, if_pos hr]
  exact Nat.div_mul_le_self n (2^k)

/-- Every mode is off by less than a unit of the last bit kept. -/
theorem roundBy_lt (r : ℤ) : roundBy r n k * 2^k < n + 2^k := by
  have hpos : 0 < 2^k := by positivity
  unfold roundBy
  split_ifs
  · exact lt_of_le_of_lt (Nat.div_mul_le_self n _) (by omega)
  · exact lt_of_le_of_lt (Nat.div_mul_le_self _ _) (by omega)
  · exact lt_of_le_of_lt (Nat.div_mul_le_self _ _) (by omega)

theorem lt_roundBy (r : ℤ) : n < roundBy r n k * 2^k + 2^k := by
  have hpos : 0 < 2^k := by positivity
  have hlow : n / 2^k ≤ roundBy r n k := by
    unfold roundBy
    split_ifs
    · exact le_rfl
    · exact Nat.div_le_div_right (by omega)
    · exact Nat.div_le_div_right (by omega)
  calc n < (n / 2^k + 1) * 2^k := by rw [mul_comm]; exact Nat.lt_mul_div_succ n hpos
    _ ≤ (roundBy r n k + 1) * 2^k := Nat.mul_le_mul_right _ (by omega)
    _ = roundBy r n k * 2^k + 2^k := by ring

/-- Nothing is rounded when only zeros are dropped. -/
theorem roundBy_of_dvd {n k : ℕ} (r : ℤ) (h : 2^k ∣ n) : roundBy r n k * 2^k = n := by
  obtain ⟨c, rfl⟩ := h
  rw [mul_comm (2^k) c, roundBy_mul_pow]

theorem roundBy_excess_le (p : ℕ) (r : ℤ) : roundBy r n (excess p n) ≤ 2^p := by
  have hlt := roundBy_lt n (excess p n) r
  have hn : n < 2^p * 2^excess p n := by
    rw [← pow_add, ← bitLength_le_iff]
    unfold excess
    omega
  have hsum : roundBy r n (excess p n) * 2^excess p n < (2^p + 1) * 2^excess p n := by
    rw [add_mul]
    omega
  exact Nat.lt_succ_iff.1 (lt_of_mul_lt_mul_right hsum (Nat.zero_le _))

end RoundBy

lemma zpow_toNat {w : ℤ} (h : 0 ≤ w) : (2:ℚ)^w = ((2^w.toNat : ℕ) : ℚ) := by
  rw [Nat.cast_pow, Nat.cast_ofNat, ← zpow_natCast, Int.toNat_of_nonneg h]

/-- A mantissa that fits a double is scaled exactly unless its low bits fall below the least double. -/
lemma ldexp_cast {m : ℕ} {e : ℤ} (hm : m < 2^53) (hdvd : 2^(-(e + 1074)).toNat ∣ m) :
    (ldexp m e : ℚ) = min ((m : ℚ) * 2^(e + 1074)) dblMax := by
  have hdouble : toDouble m = m := by simpa using toDouble_mul_pow hm 0
  unfold ldexp
  rw [hdouble]
  split_ifs with h
  · rw [Nat.cast_min, Nat.cast_mul, zpow_toNat h]
  · obtain ⟨c, hc⟩ := hdvd
    have hneg : (2:ℚ)^(e + 1074) * 2^(-(e + 1074)) = 1 := by
      rw [← zpow_add₀ (by norm_num)]
      simp
    rw [zpow_toNat (by omega : 0 ≤ -(e + 1074))] at hneg
    have hhalf : halfEven m (-(e + 1074)).toNat = c := by
      have := halfEven_mul_pow (m := c) (le_refl (-(e + 1074)).toNat)
      rw [mul_comm, ← hc] at this
      simpa using this
    rw [hhalf, Nat.cast_min, hc, Nat.cast_mul, mul_comm (((2^(-(e + 1074)).toNat : ℕ)) : ℚ), mul_assoc,
      mul_comm ((2^(-(e + 1074)).toNat : ℕ) : ℚ), hneg, mul_one]

namespace UniFloat

/-- The number a float stands for. -/
def toRat (a : UniFloat) : ℚ := a.val / 2^1074

lemma toRat_le_iff {a b : UniFloat} : a.toRat ≤ b.toRat ↔ a ≤ b := by
  rw [toRat, toRat, div_le_div_iff_of_pos_right (by positivity), Int.cast_le, le_iff]

lemma toRat_nonneg {a : UniFloat} (h : 0 ≤ a) : 0 ≤ a.toRat :=
  div_nonneg (by exact_mod_cast le_iff.1 h) (by positivity)

lemma toRat_max_nonneg : 0 ≤ max.toRat := toRat_nonneg (by rw [le_iff]; exact Int.natCast_nonneg _)

/-- A positive float is its mantissa scaled by its exponent. -/
lemma toRat_eq_mantissa {a : UniFloat} (ha : 0 < a.val) {nbits : ℕ} (hn : 53 ≤ nbits) :
    a.toRat = mantissa nbits a.val.natAbs * 2^((bitLength a.val.natAbs : ℤ) - nbits - 1074) := by
  have hmul := mantissa_mul a.isDouble hn
  have hval : (a.val : ℚ) = (a.val.natAbs : ℕ) := by
    rw [Nat.cast_natAbs, Int.cast_abs, abs_of_pos (by exact_mod_cast ha)]
  have hcast : (mantissa nbits a.val.natAbs : ℚ) * 2^bitLength a.val.natAbs = a.val.natAbs * 2^nbits := by
    exact_mod_cast hmul
  rw [toRat, hval, show (1074:ℤ) = ((1074:ℕ) : ℤ) by norm_num, zpow_sub₀ (by norm_num), zpow_sub₀ (by norm_num),
    zpow_natCast, zpow_natCast, zpow_natCast, ← mul_div_assoc, ← mul_div_assoc, hcast]
  rw [mul_div_cancel_right₀ _ (by positivity)]

/-- The normalized mantissa of a result, unless it is clamped to the largest double. -/
theorem recompose_normalize_toRat {y : ℕ} {e : ℤ} (s : SignType) (r : ℤ)
    (h : 0 ≤ e + 1074 + excess 52 y ∨ 2^(-(e + 1074)).toNat ∣ y) :
    (recompose (normalize y ⟨0, e, s⟩ r)).toRat =
      s * min (((roundBy r y (excess 52 y) * 2^excess 52 y : ℕ) : ℚ) * 2^e) max.toRat := by
  have hdvd : 2^(-(e + excess 52 y + 1074)).toNat ∣ roundBy r y (excess 52 y) := by
    rcases le_or_gt 0 (e + 1074 + excess 52 y) with hscale | hscale
    · rw [show (-(e + excess 52 y + 1074)).toNat = 0 by omega]
      exact one_dvd _
    · obtain ⟨c, hc⟩ := h.resolve_left (by omega)
      have hy : y = c * 2^(-(e + excess 52 y + 1074)).toNat * 2^excess 52 y := by
        rw [mul_assoc, ← pow_add]
        conv_lhs => rw [hc, mul_comm]
        congr 2
        omega
      have hround := roundBy_mul_pow r (c * 2^(-(e + excess 52 y + 1074)).toNat) (excess 52 y)
      rw [← hy] at hround
      rw [hround]
      exact Dvd.intro_left c rfl
  have hm : roundBy r y (excess 52 y) < 2^53 :=
    lt_of_le_of_lt (roundBy_excess_le y 52 r) (by norm_num)
  have hcast := ldexp_cast hm hdvd
  have hmax : max.toRat = dblMax / 2^1074 := by
    rw [toRat, val_max, Int.cast_natCast]
  rw [toRat, normalize, recompose, shift_eq_roundBy]
  simp only [Int.cast_mul, Int.cast_natCast]
  rw [hcast, mul_div_assoc, hmax, ← min_div_div_right (by positivity)]
  have hsign : ((s : ℤ) : ℚ) = s := by
    cases s <;> simp
  rw [hsign, show e + (excess 52 y : ℤ) + 1074 = e + ((excess 52 y : ℕ) : ℤ) + ((1074 : ℕ) : ℤ) by norm_num,
    zpow_add₀ (by norm_num), zpow_add₀ (by norm_num), zpow_natCast, zpow_natCast, ← mul_assoc,
    mul_div_cancel_right₀ _ (by positivity), Nat.cast_mul, Nat.cast_pow, Nat.cast_ofNat, mul_comm ((2:ℚ)^e),
    ← mul_assoc]

/-- One unit of the 52-bit mantissa of a positive rational. -/
def unit52 (q : ℚ) : ℚ := 2^(Int.log 2 q - 51)

/-- What an operation that asks for a rounding mode may rely on. -/
structure Directed (r : ℤ) (exact result : ℚ) : Prop where
  up : 0 < r → exact ≤ result
  down : r < 0 → result ≤ exact
  near : |result - exact| ≤ unit52 exact

/-- The positive rationals within the normal range of `double`. -/
def InNormalRange (q : ℚ) : Prop := 2^(-1022:ℤ) ≤ q ∧ q ≤ max.toRat

lemma log_mul_zpow {z : ℚ} (hz : 0 < z) (e : ℤ) : Int.log 2 (z * 2^e) = Int.log 2 z + e := by
  have hpos : 0 < z * 2^e := by positivity
  apply le_antisymm
  · rw [← Int.lt_add_one_iff, ← Int.lt_zpow_iff_log_lt (by norm_num) hpos]
    have hlt := Int.lt_zpow_succ_log_self (b := 2) (by norm_num) z
    calc z * 2^e < 2^(Int.log 2 z + 1) * 2^e := mul_lt_mul_of_pos_right hlt (by positivity)
      _ = 2^(Int.log 2 z + e + 1) := by
          rw [← zpow_add₀ (by norm_num)]
          congr 1
          ring
  · rw [← Int.zpow_le_iff_le_log (by norm_num) hpos]
    have hle := Int.zpow_log_le_self (b := 2) (by norm_num) hz
    calc (2:ℚ)^(Int.log 2 z + e) = 2^Int.log 2 z * 2^e := zpow_add₀ (by norm_num) _ _
      _ ≤ z * 2^e := mul_le_mul_of_nonneg_right hle (by positivity)

section Mantissa
variable {y : ℕ} {z : ℚ} (hlow : ⌊z⌋ ≤ (y : ℤ)) (hhigh : (y : ℤ) ≤ ⌈z⌉)
include hlow hhigh

lemma abs_sub_le_one : |(y : ℚ) - z| ≤ 1 := by
  have h1 : ((⌊z⌋ : ℤ) : ℚ) ≤ y := by exact_mod_cast hlow
  have h2 : (y : ℚ) ≤ ⌈z⌉ := by exact_mod_cast hhigh
  have h3 := Int.lt_floor_add_one z
  have h4 := Int.ceil_lt_add_one z
  rw [abs_le]
  constructor <;> linarith

/-- Rounding an integer next to a rational to 52 bits stays within a unit of the rational's own
mantissa, also when the integer reaches the next power of two. -/
lemma abs_roundBy_sub_le (hz : 2^51 ≤ z) (r : ℤ) :
    |((roundBy r y (excess 52 y) * 2^excess 52 y : ℕ) : ℚ) - z| ≤ unit52 z := by
  have hpos : 0 < z := lt_of_lt_of_le (by norm_num) hz
  have hone := abs_sub_le_one hlow hhigh
  have hlog : 51 ≤ Int.log 2 z := (Int.zpow_le_iff_le_log (by norm_num) hpos).1 (by exact_mod_cast hz)
  obtain ⟨l, hl⟩ : ∃ l : ℕ, Int.log 2 z = 51 + l := ⟨(Int.log 2 z - 51).toNat, by omega⟩
  have hbelow : (2:ℚ)^(51 + l) ≤ z := by
    have h := Int.zpow_log_le_self (b := 2) (by norm_num) hpos
    rw [hl] at h
    exact_mod_cast h
  have habove : z < (2:ℚ)^(52 + l) := by
    have h := Int.lt_zpow_succ_log_self (b := 2) (by norm_num) z
    rw [hl, show (51:ℤ) + l + 1 = ((52 + l : ℕ) : ℤ) by push_cast; ring, zpow_natCast] at h
    exact_mod_cast h
  have hy1 : 2^(51 + l) ≤ y := by
    have h : ((2^(51 + l) : ℕ) : ℤ) ≤ ⌊z⌋ := Int.le_floor.2 (by exact_mod_cast hbelow)
    exact_mod_cast h.trans hlow
  have hy2 : y ≤ 2^(52 + l) := by
    have h : ⌈z⌉ ≤ ((2^(52 + l) : ℕ) : ℤ) := Int.ceil_le.2 (by exact_mod_cast habove.le)
    exact_mod_cast hhigh.trans h
  have hunit : unit52 z = 2^l := by
    rw [unit52, hl, show (51:ℤ) + l - 51 = (l : ℤ) by ring, zpow_natCast]
  rw [hunit]
  rcases hy2.eq_or_lt with heq | hlt
  · have hdvd : 2^excess 52 y ∣ y := by
      conv_rhs => rw [heq]
      refine pow_dvd_pow 2 ?_
      have : bitLength y ≤ 52 + l + 1 := bitLength_le_iff.2 (by rw [heq]; exact Nat.pow_lt_pow_right (by norm_num) (by omega))
      unfold excess
      omega
    rw [roundBy_of_dvd r hdvd]
    exact hone.trans (one_le_pow₀ (by norm_num))
  · have hex : excess 52 y = l := by
      have h1 := bitLength_le_iff.2 hlt
      have h2 : 51 + l < bitLength y := lt_bitLength_iff.2 hy1
      unfold excess
      omega
    have hup := roundBy_lt y l r
    have hdown := lt_roundBy y l r
    rw [hex]
    have h1 : ((roundBy r y l * 2^l : ℕ) : ℚ) + 1 ≤ y + 2^l := by exact_mod_cast hup
    have h2 : (y : ℚ) + 1 ≤ ((roundBy r y l * 2^l : ℕ) : ℚ) + 2^l := by exact_mod_cast hdown
    rw [abs_le] at hone ⊢
    constructor <;> linarith

/-- A mantissa truncated or rounded to an integer beforehand is rounded in the mode asked for. -/
theorem normalize_directed {e r : ℤ} (hz : 2^51 ≤ z) (hup : 0 < r → z ≤ y) (hdown : r < 0 → y ≤ z)
    (hrange : InNormalRange (z * 2^e)) :
    Directed r (z * 2^e) (recompose (normalize y ⟨0, e, 1⟩ r)).toRat := by
  have hpos : 0 < z := lt_of_lt_of_le (by norm_num) hz
  have hscale : 0 ≤ e + 1074 + excess 52 y := by
    have hone := (abs_le.1 (abs_sub_le_one hlow hhigh)).1
    have hy : (y : ℚ) + 1 ≤ 2^bitLength y := by exact_mod_cast lt_pow_bitLength y
    have hlt : (2:ℚ)^(-1022:ℤ) ≤ 2^((bitLength y : ℤ) + e) := by
      calc (2:ℚ)^(-1022:ℤ) ≤ z * 2^e := hrange.1
        _ ≤ 2^bitLength y * 2^e := mul_le_mul_of_nonneg_right (by linarith) (by positivity)
        _ = 2^((bitLength y : ℤ) + e) := by rw [zpow_add₀ (by norm_num), zpow_natCast]
    have hle := (zpow_le_zpow_iff_right₀ (by norm_num : (1:ℚ) < 2)).1 hlt
    unfold excess
    omega
  rw [recompose_normalize_toRat 1 r (Or.inl hscale), SignType.coe_one, one_mul]
  set S := roundBy r y (excess 52 y) * 2^excess 52 y with hS
  have hscaled : (0:ℚ) < 2^e := by positivity
  refine ⟨fun hr => le_min ?_ hrange.2, fun hr => min_le_of_left_le ?_, ?_⟩
  · refine mul_le_mul_of_nonneg_right ((hup hr).trans ?_) hscaled.le
    exact_mod_cast le_roundBy y _ hr
  · refine mul_le_mul_of_nonneg_right (le_trans ?_ (hdown hr)) hscaled.le
    exact_mod_cast roundBy_le y _ hr
  · have hnear := abs_roundBy_sub_le hlow hhigh hz r
    have hunit : unit52 (z * 2^e) = unit52 z * 2^e := by
      rw [unit52, unit52, log_mul_zpow hpos, ← zpow_add₀ (by norm_num)]
      congr 1
      ring
    have hbound : |(S : ℚ) * 2^e - z * 2^e| ≤ unit52 (z * 2^e) := by
      rw [← sub_mul, abs_mul, abs_of_pos hscaled, hunit]
      exact mul_le_mul_of_nonneg_right hnear hscaled.le
    rcases le_total ((S : ℚ) * 2^e) max.toRat with hle | hle
    · rwa [min_eq_left hle]
    · rw [min_eq_right hle, abs_of_nonneg (by linarith [hrange.2])]
      rw [abs_of_nonneg (by linarith [hrange.2])] at hbound
      linarith

end Mantissa

lemma directed_zero (r : ℤ) : Directed r 0 0 := by
  refine ⟨fun _ => le_rfl, fun _ => le_rfl, ?_⟩
  rw [sub_zero, abs_zero]
  exact zpow_nonneg (by norm_num) _

lemma toRat_pos {a : UniFloat} (h : 0 < a) : 0 < a.toRat :=
  div_pos (by exact_mod_cast lt_iff.1 h) (by positivity)

@[simp] lemma toRat_zero : toRat 0 = 0 := by simp [toRat]

lemma recompose_zero_sign (x : UniFloatTuple) (h : x.sign = 0) : recompose x = 0 := by
  apply UniFloat.ext
  simp [recompose, h]

lemma le_mantissa_cast {a : UniFloat} (ha : 0 < a) : (2:ℚ)^62 ≤ mantissa 63 a.val.natAbs := by
  exact_mod_cast le_mantissa (by norm_num : 0 < 63) (natAbs_pos_iff.2 (lt_iff.1 ha).ne')

theorem multiply_directed {a b : UniFloat} (ha : 0 ≤ a) (hb : 0 ≤ b) (r : ℤ)
    (hrange : a.toRat * b.toRat = 0 ∨ InNormalRange (a.toRat * b.toRat)) :
    Directed r (a.toRat * b.toRat) (multiply a b r).toRat := by
  rcases ha.eq_or_lt with rfl | hapos
  · rw [multiply, decompose_zero, recompose_zero_sign _ (by simp [normalize]), toRat_zero, zero_mul]
    exact directed_zero r
  rcases hb.eq_or_lt with rfl | hbpos
  · rw [multiply, decompose_zero, recompose_zero_sign _ (by simp [normalize]), toRat_zero, mul_zero]
    exact directed_zero r
  have hne : a.toRat * b.toRat ≠ 0 := (mul_pos (toRat_pos hapos) (toRat_pos hbpos)).ne'
  have hexact : a.toRat * b.toRat = ((mantissa 63 a.val.natAbs * mantissa 63 b.val.natAbs : ℕ) : ℚ) *
      2^((bitLength a.val.natAbs : ℤ) - (63:ℕ) - 1074 + ((bitLength b.val.natAbs : ℤ) - (63:ℕ) - 1074)) := by
    rw [toRat_eq_mantissa hapos (by norm_num : 53 ≤ 63), toRat_eq_mantissa hbpos (by norm_num : 53 ≤ 63),
      Nat.cast_mul, zpow_add₀ (by norm_num)]
    ring
  have hrange := hrange.resolve_left hne
  simp only [multiply, decompose_pos hapos (by norm_num : 53 ≤ 63), decompose_pos hbpos (by norm_num : 53 ≤ 63),
    mul_one]
  rw [hexact] at hrange ⊢
  refine normalize_directed ?_ ?_ ?_ (fun _ => le_rfl) (fun _ => le_rfl) hrange
  · rw [Int.floor_natCast]
  · rw [Int.ceil_natCast]
  · have h1 := le_mantissa_cast hapos
    have h2 := le_mantissa_cast hbpos
    rw [Nat.cast_mul]
    nlinarith

/-- What `Divide` adds to the dividend before it truncates the quotient. -/
def quotientCarry (x : ℕ) (rounding : ℤ) : ℕ :=
  if rounding = 0 then (x + 1)/2 else if 0 < rounding then x - 1 else 0

lemma quotient_eq (v x : ℕ) (r : ℤ) : quotient v x r = (v * 2^64 + quotientCarry x r) / x := rfl

lemma quotientCarry_lt {x : ℕ} (hx : 1 < x) (r : ℤ) : quotientCarry x r < x := by
  unfold quotientCarry
  split_ifs <;> omega

section Quotient
variable (v : ℕ) {x : ℕ}

lemma quotient_le_ceil (hx : 1 < x) (r : ℤ) : (quotient v x r : ℤ) ≤ ⌈((v * 2^64 : ℕ) : ℚ) / x⌉ := by
  have hpos : (0:ℚ) < x := by exact_mod_cast (by omega : 0 < x)
  have hcarry := quotientCarry_lt hx r
  have hdiv := Nat.div_mul_le_self (v * 2^64 + quotientCarry x r) x
  rw [← quotient_eq] at hdiv
  rw [← not_lt, Int.lt_iff_add_one_le, ← Int.lt_iff_add_one_le, Int.ceil_lt_iff, not_le, lt_div_iff₀ hpos]
  have : (quotient v x r : ℚ) * x < ((v * 2^64 : ℕ) : ℚ) + x := by exact_mod_cast (by omega)
  push_cast at this ⊢
  linarith

lemma floor_le_quotient (r : ℤ) : ⌊((v * 2^64 : ℕ) : ℚ) / x⌋ ≤ (quotient v x r : ℤ) := by
  rw [quotient_eq, Rat.floor_natCast_div_natCast]
  exact_mod_cast Nat.div_le_div_right (Nat.le_add_right _ _)

lemma le_quotient (hx : 1 < x) {r : ℤ} (hr : 0 < r) : ((v * 2^64 : ℕ) : ℚ) / x ≤ quotient v x r := by
  have hpos : (0:ℚ) < x := by exact_mod_cast (by omega : 0 < x)
  have hlt := Nat.lt_mul_div_succ (v * 2^64 + quotientCarry x r) (by omega : 0 < x)
  rw [← quotient_eq, mul_add] at hlt
  have hcarry : quotientCarry x r = x - 1 := by
    rw [quotientCarry, if_neg hr.ne', if_pos hr]
  rw [div_le_iff₀ hpos]
  exact_mod_cast (by rw [mul_comm _ x]; omega : v * 2^64 ≤ quotient v x r * x)

lemma quotient_le {r : ℤ} (hr : r < 0) : (quotient v x r : ℚ) ≤ ((v * 2^64 : ℕ) : ℚ) / x := by
  rw [quotient_eq, quotientCarry, if_neg hr.ne, if_neg hr.not_gt, Nat.add_zero]
  exact Nat.cast_div_le

end Quotient

theorem divide_directed {a b : UniFloat} (ha : 0 ≤ a) (hb : 0 < b) (r : ℤ)
    (hrange : a.toRat / b.toRat = 0 ∨ InNormalRange (a.toRat / b.toRat)) :
    Directed r (a.toRat / b.toRat) (divide a b r).toRat := by
  have hbmant := mantissa_pos (lt_iff.1 hb) (by norm_num : 0 < 63)
  rcases ha.eq_or_lt with rfl | hapos
  · rw [divide, decompose_zero, decompose_pos (lt_iff.1 hb) (by norm_num : 53 ≤ 63), if_neg hbmant.ne',
      recompose_zero_sign _ (by simp [normalize]), toRat_zero, zero_div]
    exact directed_zero r
  have hrange := hrange.resolve_left (div_pos (toRat_pos hapos) (toRat_pos hb)).ne'
  have hexact : a.toRat / b.toRat = ((mantissa 63 a.val.natAbs * 2^64 : ℕ) : ℚ) / mantissa 63 b.val.natAbs *
      2^((bitLength a.val.natAbs : ℤ) - (63:ℕ) - 1074 - ((bitLength b.val.natAbs : ℤ) - (63:ℕ) - 1074 + 64)) := by
    rw [toRat_eq_mantissa hapos (by norm_num : 53 ≤ 63), toRat_eq_mantissa hb (by norm_num : 53 ≤ 63),
      mul_div_mul_comm, ← zpow_sub₀ (by norm_num), Nat.cast_mul, mul_div_right_comm, mul_assoc]
    rw [show ((2^64 : ℕ) : ℚ) = (2:ℚ)^(64:ℤ) by norm_num, ← zpow_add₀ (by norm_num)]
    congr 2
    ring
  have hone : 1 < mantissa 63 b.val.natAbs :=
    lt_of_lt_of_le (by norm_num) (le_mantissa (by norm_num : 0 < 63) (natAbs_pos_iff.2 (lt_iff.1 hb).ne'))
  simp only [divide, decompose_pos hapos (by norm_num : 53 ≤ 63), decompose_pos hb (by norm_num : 53 ≤ 63),
    if_neg hbmant.ne', mul_one]
  rw [hexact] at hrange ⊢
  refine normalize_directed (floor_le_quotient _ r) (quotient_le_ceil _ hone r) ?_ (le_quotient _ hone)
    (quotient_le _) hrange
  have hlow := le_mantissa_cast hapos
  have hhigh : (mantissa 63 b.val.natAbs : ℚ) < 2^63 := by exact_mod_cast mantissa_lt 63 b.val.natAbs
  rw [le_div_iff₀ (by exact_mod_cast hbmant), Nat.cast_mul, Nat.cast_pow, Nat.cast_ofNat]
  linarith

/-- `Multiply` and `Divide` round a non-negative result in the direction asked for, to within a unit of its
52-bit mantissa, and their 128-bit intermediate values do not overflow. -/
theorem multiply_divide_directed (a b : UniFloat) (ha : 0 ≤ a) (hb : 0 ≤ b) (r : ℤ) :
    (a.toRat * b.toRat = 0 ∨ InNormalRange (a.toRat * b.toRat) →
      Directed r (a.toRat * b.toRat) (multiply a b r).toRat) ∧
    (0 < b → a.toRat / b.toRat = 0 ∨ InNormalRange (a.toRat / b.toRat) →
      Directed r (a.toRat / b.toRat) (divide a b r).toRat) ∧
    (decompose a 63 0).mant * (decompose b 63 0).mant < 2^128 ∧
    (decompose a 63 0).mant * 2^64 + quotientCarry (decompose b 63 (-r)).mant r < 2^128 := by
  have hmant (v : UniFloat) (s : ℤ) : (decompose v 63 s).mant < 2^63 := by
    rcases eq_or_ne v.val 0 with hzero | hne
    · rw [show v = 0 from UniFloat.ext hzero, decompose_zero]
      norm_num
    · rw [decompose_exact hne (by norm_num)]
      exact mantissa_lt 63 _
  have ha63 := hmant a 0
  have hb63 := hmant b 0
  refine ⟨multiply_directed ha hb r, fun hpos => divide_directed ha hpos r, ?_, ?_⟩
  · calc (decompose a 63 0).mant * (decompose b 63 0).mant ≤ 2^63 * 2^63 := Nat.mul_le_mul ha63.le hb63.le
      _ < 2^128 := by norm_num
  · have hcarry : quotientCarry (decompose b 63 (-r)).mant r ≤ (decompose b 63 (-r)).mant + 1 := by
      unfold quotientCarry
      split_ifs <;> omega
    have := hmant b (-r)
    omega

lemma toRat_one : toRat 1 = 1 := by
  rw [toRat, val_one, Nat.one_mul, Int.cast_natCast, Nat.cast_pow, Nat.cast_ofNat]
  exact div_self (by positivity)

/-- One and a unit in its last place: neither its product with three nor the quotient is exact. -/
def oneAndUnit : UniFloat := ⟨((2^51 + 1) * 2^1023 : ℕ), isDouble_mul_pow (by norm_num) 1023 (by decide +kernel)⟩

def three : UniFloat := ⟨(3 * 2^1074 : ℕ), isDouble_mul_pow (by norm_num) 1074 (by decide +kernel)⟩

lemma toRat_three : toRat three = 3 := by
  change ((3 * 2^1074 : ℕ) : ℤ) / (2:ℚ)^1074 = 3
  rw [Int.cast_natCast, Nat.cast_mul, Nat.cast_pow, Nat.cast_ofNat, Nat.cast_ofNat]
  exact mul_div_cancel_right₀ _ (by positivity)

lemma toRat_oneAndUnit : toRat oneAndUnit = 1 + 2^(-51:ℤ) := by
  change (((2^51 + 1) * 2^1023 : ℕ) : ℤ) / (2:ℚ)^1074 = 1 + 2^(-51:ℤ)
  rw [div_eq_iff (by positivity), Int.cast_natCast, Nat.cast_mul, Nat.cast_pow _ 1023, Nat.cast_ofNat,
    show (2:ℚ)^1074 = 2^51 * 2^1023 from pow_add 2 51 1023, ← mul_assoc]
  congr 1
  norm_num

lemma toRat_mul_lt {a b c : UniFloat} (h : a.val * b.val < c.val * 2^1074) : a.toRat * b.toRat < c.toRat := by
  have hpow : (0:ℚ) < 2^1074 := by positivity
  have hlt : (a.val * b.val : ℚ) < c.val * 2^1074 := by
    have hcast := Int.cast_lt (R := ℚ).2 h
    rwa [Int.cast_mul, Int.cast_mul, Int.cast_pow, Int.cast_ofNat] at hcast
  unfold toRat
  rwa [div_mul_div_comm, div_lt_div_iff₀ (mul_pos hpow hpow) hpow, ← mul_assoc, mul_lt_mul_iff_left₀ hpow]

lemma lt_toRat_div {a b c : UniFloat} (hb : 0 < b) (h : c.val * b.val < a.val * 2^1074) :
    c.toRat < a.toRat / b.toRat := by
  rw [lt_div_iff₀ (toRat_pos hb)]
  exact toRat_mul_lt h

lemma inNormalRange_of_one_le {q : ℚ} (hone : 1 ≤ q) (hmax : q ≤ 4) : InNormalRange q := by
  refine ⟨(zpow_le_one_of_nonpos₀ (by norm_num) (by norm_num)).trans hone, hmax.trans ?_⟩
  have hpow : 4 * 2^1074 ≤ dblMax := by decide +kernel
  rw [toRat, val_max, Int.cast_natCast, le_div_iff₀ (by positivity)]
  exact_mod_cast hpow

theorem multiply_divide_directed_rounded :
    Directed 1 (oneAndUnit.toRat * three.toRat) (multiply oneAndUnit three 1).toRat ∧
    oneAndUnit.toRat * three.toRat < (multiply oneAndUnit three 1).toRat ∧
    Directed (-1) (three.toRat / oneAndUnit.toRat) (divide three oneAndUnit (-1)).toRat ∧
    (divide three oneAndUnit (-1)).toRat < three.toRat / oneAndUnit.toRat := by
  have hone : 0 < oneAndUnit := by decide +kernel
  have hthree : 0 < three := by decide +kernel
  have hrange : InNormalRange (oneAndUnit.toRat * three.toRat) := by
    rw [toRat_three, toRat_oneAndUnit]
    exact inNormalRange_of_one_le (by norm_num) (by norm_num)
  have hrange' : InNormalRange (three.toRat / oneAndUnit.toRat) := by
    rw [toRat_three, toRat_oneAndUnit]
    exact inNormalRange_of_one_le (by norm_num) (by norm_num)
  refine ⟨(multiply_divide_directed oneAndUnit three hone.le hthree.le 1).1 (Or.inr hrange), ?_,
    (multiply_divide_directed three oneAndUnit hthree.le hone.le (-1)).2.1 hone (Or.inr hrange'), ?_⟩
  · exact toRat_mul_lt (by decide +kernel)
  · exact lt_toRat_div hone (by decide +kernel)

end UniFloat
end CredaCash
