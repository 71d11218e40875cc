import CredaCash.UniFloat.WireCodec

/-! The encoder of the wire format, which searches for an offset and an exponent whose candidate
passes a check against the decoder. The scaling by powers of two and `floor(log2(v))` are exact. -/

namespace CredaCash
open Rounding

namespace UniFloat

/-- The conversion of a `double` to `uint64_t`: it truncates, and a negative number wraps around. -/
def toUInt64 (m : ℚ) : ℕ := ((if 0 ≤ m then ⌊m⌋ else ⌈m⌉) % 2^64).toNat

/-- The mantissa tried with an exponent. -/
def wireMantissa (v : ℚ) (rounding : ℤ) (roundby : ℚ) (exponent : ℤ) : ℕ :=
  let m := v / 2^exponent * 2^21 - 2^21
  toUInt64 (
    if 0 < rounding then m - roundby           -- rounding up, so start low
    else if rounding < 0 then ⌈m + roundby⌉     -- rounding down, so start high
    else m + 1/2)                              -- round to nearest

/-- The inner loop: exponents are tried upwards until a mantissa fits. -/
def wireSearch (mantissa : ℤ → ℕ) : ℕ → ℤ → ℤ × ℕ
  | 0, exponent => (exponent, mantissa exponent)
  | fuel+1, exponent =>
    if 2^21 ≤ mantissa exponent ∧ exponent ≤ 1024 + 3 then wireSearch mantissa fuel (exponent + 1)
    else (exponent, mantissa exponent)

/-- The inner loop of one turn, from below the exponent of the value up to its limit. -/
def wireCandidate (v : ℚ) (rounding : ℤ) (roundby : ℚ) : ℤ × ℕ :=
  wireSearch (wireMantissa v rounding roundby) (1024 + 4 - (Int.log 2 v - 1)).toNat (Int.log 2 v - 1)

/-- The outer loop, by the values of `roundby` that are left. -/
def wireEncodeLoop (v : UniFloat) (rounding : ℤ) (allowZero : Bool) : List ℚ → Except String ℕ
  | [] => .error "rounding failed"
  | roundby :: rest =>
    let check (exponent : ℤ) (mantissa : ℕ) : Except String ℕ :=
      let rv := (exponent + 1024).toNat * 2^21 + mantissa
      if (0 < rounding ∧ wireDecode rv < v) ∨ (rounding < 0 ∧ v < wireDecode rv) then
        wireEncodeLoop v rounding allowZero rest
      else .ok rv
    let (exponent, mantissa) := wireCandidate v.toRat rounding roundby
    if 1024 ≤ exponent then
      if -2 < roundby then wireEncodeLoop v rounding allowZero rest
      else if 0 < rounding then .error "value exceeds limits"
      else check (1024 - 1) (2^21 - 1)
    else if exponent < -1024 then
      if -2 < roundby then wireEncodeLoop v rounding allowZero rest
      else if 0 ≤ rounding then .ok 1
      else if allowZero then .ok 0
      else .error "value exceeds limits"
    else check exponent mantissa

def wireEncode (v : UniFloat) (rounding : ℤ) (allowZero : Bool) : Except String ℕ :=
  if v.val = 0 ∧ 0 < rounding then .ok 1
  else if v.val = 0 ∧ allowZero then .ok 0
  else if v.val ≤ 0 then .error "invalid value"
  else wireEncodeLoop v rounding allowZero [5/2, 3/2, 1/2, -1/2, -3/2, -5/2]

lemma toUInt64_of_nonneg {m : ℚ} (h0 : 0 ≤ m) (h : m < 2^64) : (toUInt64 m : ℤ) = ⌊m⌋ := by
  have hfloor : 0 ≤ ⌊m⌋ := Int.floor_nonneg.2 h0
  have hlt : ⌊m⌋ < 2^64 := Int.floor_lt.2 (by exact_mod_cast h)
  rw [toUInt64, if_pos h0]
  omega

/-- A number below zero by less than one truncates to zero. -/
lemma toUInt64_of_neg {m : ℚ} (h0 : m < 0) (h : -1 < m) : toUInt64 m = 0 := by
  have hceil : ⌈m⌉ = 0 := Int.ceil_eq_iff.2 ⟨by push_cast; linarith, by push_cast; exact h0.le⟩
  rw [toUInt64, if_neg h0.not_ge, hceil]
  rfl

lemma le_toUInt64_of_neg {m : ℚ} (h0 : m ≤ -1) (h : -2^63 ≤ m) : 2^21 ≤ toUInt64 m := by
  have hceil : ⌈m⌉ ≤ -1 := Int.ceil_le.2 (by push_cast; exact h0)
  have hlow : -2^63 ≤ ⌈m⌉ := by
    have := h.trans (Int.le_ceil m)
    exact_mod_cast this
  rw [toUInt64, if_neg (by linarith)]
  omega

section Search
variable {mantissa : ℤ → ℕ} {fuel : ℕ} {exponent : ℤ}

lemma wireSearch_stop (h : mantissa exponent < 2^21) :
    wireSearch mantissa fuel exponent = (exponent, mantissa exponent) := by
  cases fuel with
  | zero => rfl
  | succ fuel => rw [wireSearch, if_neg (fun hc => h.not_ge hc.1)]

lemma wireSearch_next (h : 2^21 ≤ mantissa exponent) (hexp : exponent ≤ 1027) :
    wireSearch mantissa (fuel + 1) exponent = wireSearch mantissa fuel (exponent + 1) := by
  rw [wireSearch, if_pos ⟨h, hexp⟩]

/-- When no mantissa fits, the loop runs into its limit. -/
lemma wireSearch_limit (h : ∀ x, exponent ≤ x → x ≤ 1027 → 2^21 ≤ mantissa x) (hexp : exponent ≤ 1028) :
    (wireSearch mantissa (1028 - exponent).toNat exponent).1 = 1028 := by
  obtain ⟨n, hn⟩ : ∃ n : ℕ, exponent = 1028 - n := ⟨(1028 - exponent).toNat, by omega⟩
  induction n generalizing exponent with
  | zero => simp [hn, wireSearch]
  | succ n ih =>
    have hfuel : (1028 - exponent).toNat = (1028 - (exponent + 1)).toNat + 1 := by omega
    rw [hfuel, wireSearch_next (h exponent le_rfl (by omega)) (by omega)]
    exact ih (fun x hx => h x (by omega)) (by omega) (by omega)

end Search

/-- The binade of a float. -/
def binade (v : UniFloat) : ℤ := Int.log 2 v.toRat

/-- What is left of the mantissa over an exponent, in units of the 21st bit. -/
def offset (v : UniFloat) (exponent : ℤ) : ℚ := v.toRat / 2^exponent * 2^21 - 2^21

/-- The wire value of an exponent and a mantissa. -/
def wireValue (exponent : ℤ) (mantissa : ℕ) : ℕ := (exponent + 1024).toNat * 2^21 + mantissa

section Offset
variable {v : UniFloat}

lemma offset_succ (v : UniFloat) (x : ℤ) : offset v (x + 1) = (offset v x - 2^21) / 2 := by
  rw [offset, offset, zpow_add_one₀ (by norm_num)]
  ring

lemma offset_pred (v : UniFloat) (x : ℤ) : offset v (x - 1) = 2 * offset v x + 2^21 := by
  have h := offset_succ v (x - 1)
  rw [sub_add_cancel] at h
  rw [h]
  ring

lemma toRat_eq_offset (v : UniFloat) (x : ℤ) : v.toRat = (offset v x + 2^21) * 2^(x - 21) := by
  rw [offset, sub_add_cancel, zpow_sub₀ (by norm_num), show (2:ℚ)^(21:ℤ) = 2^21 by norm_num]
  field_simp

lemma offset_binade_nonneg (hv : 0 < v) : 0 ≤ offset v (binade v) := by
  have h := Int.zpow_log_le_self (b := 2) (by norm_num) (toRat_pos hv)
  have hone : (1:ℚ) ≤ v.toRat / 2^binade v := (one_le_div (by positivity)).2 h
  rw [offset]
  linarith

lemma offset_binade_lt (v : UniFloat) : offset v (binade v) < 2^21 := by
  have h := Int.lt_zpow_succ_log_self (b := 2) (by norm_num) v.toRat
  have htwo : v.toRat / 2^binade v < 2 := by
    rw [div_lt_iff₀ (by positivity), mul_comm, ← zpow_add_one₀ (by norm_num)]
    exact h
  rw [offset]
  linarith

/-- Over a larger exponent nothing is left. -/
lemma offset_le_of_lt (hv : 0 < v) {x y : ℤ} (hxy : x ≤ y) : offset v y ≤ offset v x := by
  have hpos := toRat_pos hv
  have hpow : (2:ℚ)^x ≤ 2^y := zpow_le_zpow_right₀ (by norm_num) hxy
  have hdiv : v.toRat / 2^y ≤ v.toRat / 2^x := div_le_div_of_nonneg_left hpos.le (by positivity) hpow
  rw [offset, offset]
  linarith

lemma neg_le_offset (hv : 0 < v) (x : ℤ) : -2^21 ≤ offset v x := by
  have hpos : 0 ≤ v.toRat / 2^x := (div_pos (toRat_pos hv) (by positivity)).le
  rw [offset]
  linarith

end Offset

section WireValue
variable {x : ℤ} {m : ℕ} (hlow : -1024 ≤ x) (hhigh : x < 1024) (hm : m < 2^21)
include hlow hhigh hm

lemma wireValue_lt : wireValue x m < 2^32 := by
  unfold wireValue
  omega

lemma toRat_wireDecode_wireValue (hne : wireValue x m ≠ 0) :
    (wireDecode (wireValue x m)).toRat = (m + 2^21) * 2^(x - 21) := by
  obtain ⟨e, he⟩ : ∃ e : ℕ, x + 1024 = e := ⟨(x + 1024).toNat, by omega⟩
  have hdiv : wireValue x m / 2^21 = e := by
    unfold wireValue
    omega
  have hmod : wireValue x m % 2^21 = m := by
    unfold wireValue
    omega
  rw [toRat, wireDecode_eq hne, hdiv, hmod, recompose_wire_val (by omega) (by omega), Int.cast_natCast, Nat.cast_mul,
    Nat.cast_pow, Nat.cast_ofNat, Nat.cast_add, Nat.cast_pow, Nat.cast_ofNat, mul_div_assoc]
  congr 1
  rw [div_eq_iff (by positivity), ← zpow_natCast, ← zpow_natCast, ← zpow_add₀ (by norm_num)]
  congr 1
  push_cast
  omega

variable {v : UniFloat}

lemma wireDecode_lt_iff (hx : x = binade v) (hne : wireValue x m ≠ 0) :
    wireDecode (wireValue x m) < v ↔ (m : ℚ) < offset v (binade v) := by
  have hpos : (0:ℚ) < 2^(x - 21) := by positivity
  rw [← not_le, ← toRat_le_iff, not_le, toRat_wireDecode_wireValue hlow hhigh hm hne, toRat_eq_offset v x,
    mul_lt_mul_iff_left₀ hpos, add_lt_add_iff_right, hx]

lemma lt_wireDecode_iff (hx : x = binade v) (hne : wireValue x m ≠ 0) :
    v < wireDecode (wireValue x m) ↔ offset v (binade v) < m := by
  have hpos : (0:ℚ) < 2^(x - 21) := by positivity
  rw [← not_le, ← toRat_le_iff, not_le, toRat_wireDecode_wireValue hlow hhigh hm hne, toRat_eq_offset v x,
    mul_lt_mul_iff_left₀ hpos, add_lt_add_iff_right, hx]

/-- A wire value of a lower binade. -/
lemma wireDecode_lt_of_lt (hv : 0 < v) (hx : x < binade v) : wireDecode (wireValue x m) < v := by
  rcases eq_or_ne (wireValue x m) 0 with hzero | hne
  · rw [hzero]
    exact hv
  · have hm' : (m : ℚ) + 2^21 < 2^22 := by
      have : (m : ℚ) < 2^21 := by exact_mod_cast hm
      linarith
    rw [← not_le, ← toRat_le_iff, not_le, toRat_wireDecode_wireValue hlow hhigh hm hne]
    calc ((m : ℚ) + 2^21) * 2^(x - 21) < 2^22 * 2^(x - 21) := mul_lt_mul_of_pos_right hm' (by positivity)
      _ = 2^(x + 1) := by
          rw [show (2:ℚ)^22 = 2^(22:ℤ) by norm_num, ← zpow_add₀ (by norm_num)]
          congr 1
          ring
      _ ≤ 2^binade v := zpow_le_zpow_right₀ (by norm_num) (by omega)
      _ ≤ v.toRat := Int.zpow_log_le_self (by norm_num) (toRat_pos hv)

lemma lt_wireDecode_of_lt (he : -1024 ≤ binade v) (hx : binade v < x) : v < wireDecode (wireValue x m) := by
  have hne : wireValue x m ≠ 0 := by
    unfold wireValue
    omega
  rw [← not_le, ← toRat_le_iff, not_le, toRat_wireDecode_wireValue hlow hhigh hm hne]
  calc v.toRat < 2^(binade v + 1) := Int.lt_zpow_succ_log_self (by norm_num) _
    _ ≤ 2^x := zpow_le_zpow_right₀ (by norm_num) (by omega)
    _ = 2^21 * 2^(x - 21) := by
        rw [show (2:ℚ)^21 = 2^(21:ℤ) by norm_num, ← zpow_add₀ (by norm_num)]
        congr 1
        ring
    _ ≤ ((m : ℚ) + 2^21) * 2^(x - 21) := by
        refine mul_le_mul_of_nonneg_right ?_ (by positivity)
        linarith [(Nat.cast_nonneg m : (0:ℚ) ≤ m)]

end WireValue

/-- The floats between the least and the greatest positive wire value. -/
structure InWireRange (v : UniFloat) : Prop where
  low : wireDecode 1 ≤ v
  high : v ≤ wireDecode (2^32 - 1)

namespace InWireRange
variable {v : UniFloat} (h : InWireRange v)
include h

lemma pos : 0 < v := by
  refine lt_of_lt_of_le ?_ h.low
  rw [lt_iff, wireDecode_val (by norm_num) (by norm_num)]
  simp only [val_zero, Int.natCast_pos]
  positivity

lemma low_toRat : ((1:ℚ) + 2^21) * 2^(-1024 - 21 : ℤ) ≤ v.toRat := by
  have hval := toRat_wireDecode_wireValue (x := -1024) (m := 1) (by norm_num) (by norm_num) (by norm_num) (by decide)
  have hle := toRat_le_iff.2 h.low
  rw [show 1 = wireValue (-1024) 1 from rfl, hval, Nat.cast_one] at hle
  exact hle

lemma high_toRat : v.toRat ≤ ((2^21 - 1 : ℕ) + 2^21 : ℚ) * 2^(1023 - 21 : ℤ) := by
  have hval := toRat_wireDecode_wireValue (x := 1023) (m := 2^21 - 1) (by norm_num) (by norm_num) (by norm_num) (by decide)
  have hle := toRat_le_iff.2 h.high
  rw [show 2^32 - 1 = wireValue 1023 (2^21 - 1) from rfl, hval] at hle
  exact hle

lemma binade_low : -1024 ≤ binade v := by
  refine (Int.zpow_le_iff_le_log (by norm_num) (toRat_pos h.pos)).1 (le_trans ?_ h.low_toRat)
  calc (2:ℚ)^(-1024 : ℤ) = 2^21 * 2^(-1024 - 21 : ℤ) := by
        rw [show (2:ℚ)^21 = 2^(21:ℤ) by norm_num, ← zpow_add₀ (by norm_num)]
        norm_num
    _ ≤ (1 + 2^21) * 2^(-1024 - 21 : ℤ) := mul_le_mul_of_nonneg_right (by norm_num) (by positivity)

lemma binade_high : binade v ≤ 1023 := by
  refine Int.lt_add_one_iff.1 ((Int.lt_zpow_iff_log_lt (by norm_num) (toRat_pos h.pos)).1 (lt_of_le_of_lt h.high_toRat ?_))
  calc ((2^21 - 1 : ℕ) + 2^21 : ℚ) * 2^(1023 - 21 : ℤ) < 2^22 * 2^(1023 - 21 : ℤ) :=
        mul_lt_mul_of_pos_right (by norm_num) (by positivity)
    _ = 2^(1023 + 1 : ℤ) := by
        rw [show (2:ℚ)^22 = 2^(22:ℤ) by norm_num, ← zpow_add₀ (by norm_num)]
        norm_num

lemma offset_low (hx : binade v = -1024) : 1 ≤ offset v (binade v) := by
  have hle := h.low_toRat
  rw [toRat_eq_offset v (binade v), hx, mul_le_mul_iff_left₀ (by positivity)] at hle
  rw [hx]
  linarith

lemma offset_high (hx : binade v = 1023) : offset v (binade v) ≤ 2^21 - 1 := by
  have hle := h.high_toRat
  rw [toRat_eq_offset v (binade v), hx, mul_le_mul_iff_left₀ (by positivity)] at hle
  rw [hx]
  push_cast at hle
  linarith

end InWireRange

section Loop
variable {v : UniFloat} {r : ℤ} {roundby : ℚ} {rest : List ℚ} {x : ℤ} {m : ℕ}
  (hc : wireCandidate v.toRat r roundby = (x, m)) (allowZero : Bool)
include hc

/-- A candidate out of range or on the wrong side of the value is dropped. -/
lemma wireEncodeLoop_skip (hround : -2 < roundby)
    (h : 1024 ≤ x ∨ x < -1024 ∨ (0 < r ∧ wireDecode (wireValue x m) < v) ∨ (r < 0 ∧ v < wireDecode (wireValue x m))) :
    wireEncodeLoop v r allowZero (roundby :: rest) = wireEncodeLoop v r allowZero rest := by
  rw [wireEncodeLoop, hc]
  simp only [hround, if_true]
  split_ifs with h1 h2 h3
  · rfl
  · rfl
  · rfl
  · exact absurd ((h.resolve_left h1).resolve_left h2) h3

lemma wireEncodeLoop_take (hlow : -1024 ≤ x) (hhigh : x < 1024) (hup : 0 < r → v ≤ wireDecode (wireValue x m))
    (hdown : r < 0 → wireDecode (wireValue x m) ≤ v) :
    wireEncodeLoop v r allowZero (roundby :: rest) = .ok (wireValue x m) := by
  have hcheck : ¬((0 < r ∧ wireDecode (wireValue x m) < v) ∨ (r < 0 ∧ v < wireDecode (wireValue x m))) := by
    rintro (⟨hr, hlt⟩ | ⟨hr, hlt⟩)
    · exact hlt.not_ge (hup hr)
    · exact hlt.not_ge (hdown hr)
  rw [wireEncodeLoop, hc]
  simp only [if_neg hhigh.not_ge, if_neg hlow.not_gt]
  exact if_neg hcheck

end Loop

section Candidate
variable {v : UniFloat} {r : ℤ} {roundby : ℚ}

lemma wireCandidate_low (h : wireMantissa v.toRat r roundby (binade v - 1) < 2^21) :
    wireCandidate v.toRat r roundby = (binade v - 1, wireMantissa v.toRat r roundby (binade v - 1)) :=
  wireSearch_stop h

variable (he : binade v ≤ 1023) (h1 : 2^21 ≤ wireMantissa v.toRat r roundby (binade v - 1))
include he h1

lemma wireCandidate_at (h2 : wireMantissa v.toRat r roundby (binade v) < 2^21) :
    wireCandidate v.toRat r roundby = (binade v, wireMantissa v.toRat r roundby (binade v)) := by
  have hfuel : (1024 + 4 - (binade v - 1)).toNat = (1024 + 4 - binade v).toNat + 1 := by omega
  rw [wireCandidate, ← binade, hfuel, wireSearch_next h1 (by omega), sub_add_cancel, wireSearch_stop h2]

lemma wireCandidate_next (h2 : 2^21 ≤ wireMantissa v.toRat r roundby (binade v))
    (h3 : wireMantissa v.toRat r roundby (binade v + 1) < 2^21) :
    wireCandidate v.toRat r roundby = (binade v + 1, wireMantissa v.toRat r roundby (binade v + 1)) := by
  have hfuel : (1024 + 4 - (binade v - 1)).toNat = (1024 + 4 - (binade v + 1)).toNat + 1 + 1 := by omega
  rw [wireCandidate, ← binade, hfuel, wireSearch_next h1 (by omega), sub_add_cancel, wireSearch_next h2 (by omega),
    wireSearch_stop h3]

omit h1 in
lemma wireCandidate_limit (h : ∀ x, binade v - 1 ≤ x → x ≤ 1027 → 2^21 ≤ wireMantissa v.toRat r roundby x) :
    (wireCandidate v.toRat r roundby).1 = 1028 := by
  have hexp : binade v - 1 ≤ 1028 := by omega
  exact wireSearch_limit h hexp

end Candidate

lemma wireMantissa_up {r : ℤ} (hr : 0 < r) (v : UniFloat) (roundby : ℚ) (x : ℤ) :
    wireMantissa v.toRat r roundby x = toUInt64 (offset v x - roundby) := by
  rw [wireMantissa, if_pos hr, offset]

lemma wireMantissa_down {r : ℤ} (hr : r < 0) (v : UniFloat) (roundby : ℚ) (x : ℤ) :
    wireMantissa v.toRat r roundby x = toUInt64 ⌈offset v x + roundby⌉ := by
  rw [wireMantissa, if_neg hr.not_gt, if_pos hr, offset]

lemma wireMantissa_nearest (v : UniFloat) (roundby : ℚ) (x : ℤ) :
    wireMantissa v.toRat 0 roundby x = toUInt64 (offset v x + 1/2) := by
  rw [wireMantissa, if_neg (lt_irrefl 0), if_neg (lt_irrefl 0), offset]

section Bounds
variable {m : ℚ} {k : ℕ}

/-- The comparisons of a converted number that is not negative. -/
lemma toUInt64_lt_iff (h0 : 0 ≤ m) (h : m < 2^64) : toUInt64 m < k ↔ m < k := by
  have heq := toUInt64_of_nonneg h0 h
  rw [← Int.ofNat_lt, heq, Int.floor_lt, Int.cast_natCast]

lemma le_toUInt64_iff (h0 : 0 ≤ m) (h : m < 2^64) : k ≤ toUInt64 m ↔ (k : ℚ) ≤ m := by
  rw [← not_lt, toUInt64_lt_iff h0 h, not_lt]

lemma toUInt64_eq (h0 : (k : ℚ) ≤ m) (h : m < k + 1) (hk : k < 2^63) : toUInt64 m = k := by
  have hk' : (k : ℚ) < 2^63 := by exact_mod_cast hk
  have hnonneg : 0 ≤ m := le_trans (Nat.cast_nonneg k) h0
  apply le_antisymm
  · rw [← Nat.lt_add_one_iff, toUInt64_lt_iff hnonneg (by linarith)]
    exact_mod_cast h
  · exact (le_toUInt64_iff hnonneg (by linarith)).2 h0

end Bounds

section Up
variable {v : UniFloat} (h : InWireRange v) {r : ℤ} (hr : 0 < r) (allowZero : Bool)
include h hr

/-- With a positive offset a candidate that rounds up is below the value. -/
lemma up_skip {roundby : ℚ} (h0 : 0 < roundby) (h1 : roundby ≤ 5/2) (rest : List ℚ) :
    wireEncodeLoop v r allowZero (roundby :: rest) = wireEncodeLoop v r allowZero rest := by
  have ht0 := offset_binade_nonneg h.pos
  have ht1 := offset_binade_lt v
  have he := h.binade_low
  have he' := h.binade_high
  have hbelow :
      wireMantissa v.toRat r roundby (binade v - 1) = toUInt64 (2 * offset v (binade v) + 2^21 - roundby) := by
    rw [wireMantissa_up hr, offset_pred]
  rcases lt_or_ge (2 * offset v (binade v)) roundby with hlt | hge
  · have hm : wireMantissa v.toRat r roundby (binade v - 1) < 2^21 := by
      rw [hbelow, toUInt64_lt_iff (by linarith) (by linarith)]
      push_cast
      linarith
    refine wireEncodeLoop_skip (wireCandidate_low hm) allowZero (by linarith) ?_
    rcases lt_or_ge (binade v - 1) (-1024) with hout | hin
    · exact Or.inr (Or.inl hout)
    · exact Or.inr (Or.inr (Or.inl ⟨hr, wireDecode_lt_of_lt hin (by omega) hm h.pos (by omega)⟩))
  have hM : 2^21 ≤ wireMantissa v.toRat r roundby (binade v - 1) := by
    rw [hbelow, le_toUInt64_iff (by linarith) (by linarith)]
    push_cast
    linarith
  have hat : wireMantissa v.toRat r roundby (binade v) = toUInt64 (offset v (binade v) - roundby) := wireMantissa_up hr v _ _
  -- below -1 the conversion wraps around, and so it does over every larger exponent
  rcases le_or_gt (offset v (binade v) - roundby) (-1) with hneg | hpos
  · have hlimit : (wireCandidate v.toRat r roundby).1 = 1028 := by
      refine wireCandidate_limit he' fun x hx _ => ?_
      rcases hx.eq_or_lt with rfl | hx
      · exact hM
      · have hle := offset_le_of_lt h.pos (by omega : binade v ≤ x)
        have hlow := neg_le_offset h.pos x
        rw [wireMantissa_up hr]
        exact le_toUInt64_of_neg (by linarith) (by linarith)
    have hc : wireCandidate v.toRat r roundby = (1028, (wireCandidate v.toRat r roundby).2) := by
      rw [← hlimit]
    exact wireEncodeLoop_skip hc allowZero (by linarith) (Or.inl (by norm_num))
  · have hm : (wireMantissa v.toRat r roundby (binade v) : ℚ) < offset v (binade v) ∧
        wireMantissa v.toRat r roundby (binade v) < 2^21 := by
      rw [hat]
      rcases lt_or_ge (offset v (binade v) - roundby) 0 with hlt | hge'
      · rw [toUInt64_of_neg hlt hpos]
        exact ⟨by push_cast; linarith, by norm_num⟩
      · refine ⟨?_, (toUInt64_lt_iff hge' (by linarith)).2 (by push_cast; linarith)⟩
        have hle := (le_toUInt64_iff hge' (by linarith)).1 (le_refl (toUInt64 (offset v (binade v) - roundby)))
        linarith
    refine wireEncodeLoop_skip (wireCandidate_at he' hM hm.2) allowZero (by linarith) (Or.inr (Or.inr (Or.inl ⟨hr, ?_⟩)))
    rcases eq_or_ne (wireValue (binade v) (wireMantissa v.toRat r roundby (binade v))) 0 with hzero | hne
    · rw [hzero]
      exact h.pos
    · exact (wireDecode_lt_iff he (by omega) hm.2 rfl hne).2 hm.1

end Up

/-- A larger wire value stands for a larger float. -/
theorem wireDecode_strictMonoOn : StrictMonoOn wireDecode (Set.Iio (2^32)) := by
  intro u hu w hw huw
  have hu32 : u < 2^32 := hu
  have hw32 : w < 2^32 := hw
  rw [lt_iff, wireDecode_val (by omega) hw32]
  rcases Nat.eq_zero_or_pos u with rfl | hpos
  · simp only [wireDecode, if_true, val_zero, Int.natCast_pos]
    positivity
  rw [wireDecode_val hpos.ne' hu32, Int.ofNat_lt]
  rcases (Nat.div_le_div_right huw.le : u / 2^21 ≤ w / 2^21).eq_or_lt with heq | hlt
  · rw [heq]
    exact Nat.mul_lt_mul_of_pos_right (by omega) (by positivity)
  · calc (u % 2^21 + 2^21) * 2^(u / 2^21 + 29) < 2^22 * 2^(u / 2^21 + 29) :=
          Nat.mul_lt_mul_of_pos_right (by omega) (by positivity)
      _ = 2^21 * 2^(u / 2^21 + 1 + 29) := by ring
      _ ≤ 2^21 * 2^(w / 2^21 + 29) := Nat.mul_le_mul_left _ (Nat.pow_le_pow_right (by norm_num) (by omega))
      _ ≤ (w % 2^21 + 2^21) * 2^(w / 2^21 + 29) := Nat.mul_le_mul_right _ (by omega)

/-- The wire values that round a float up, and those that round it down. -/
def atLeast (v : UniFloat) : Set ℕ := {w | w < 2^32 ∧ v ≤ wireDecode w}

def atMost (v : UniFloat) : Set ℕ := {w | w < 2^32 ∧ wireDecode w ≤ v}

lemma isLeast_of_pred {v : UniFloat} {w : ℕ} (hw : w < 2^32) (hle : v ≤ wireDecode w) (hpred : wireDecode (w - 1) < v) :
    IsLeast (atLeast v) w := by
  refine ⟨⟨hw, hle⟩, fun u hu => ?_⟩
  by_contra hlt
  have hmono := wireDecode_strictMonoOn.monotoneOn (hu.1 : u ∈ Set.Iio (2^32))
      (by simp only [Set.mem_Iio]; omega : w - 1 ∈ Set.Iio (2^32))
    (by omega)
  exact (hu.2.trans hmono).not_gt hpred

lemma isGreatest_of_succ {v : UniFloat} {w : ℕ} (hw : w < 2^32) (hle : wireDecode w ≤ v)
    (hsucc : w + 1 < 2^32 → v < wireDecode (w + 1)) : IsGreatest (atMost v) w := by
  refine ⟨⟨hw, hle⟩, fun u hu => ?_⟩
  by_contra hlt
  have hu32 : u < 2^32 := hu.1
  have hmono := wireDecode_strictMonoOn.monotoneOn (by simp only [Set.mem_Iio]; omega : w + 1 ∈ Set.Iio (2^32))
      (hu.1 : u ∈ Set.Iio (2^32))
    (by omega)
  exact (hmono.trans hu.2).not_gt (hsucc (by omega))

lemma wireValue_pred {x : ℤ} {m : ℕ} (hm : 0 < m) : wireValue x m - 1 = wireValue x (m - 1) := by
  unfold wireValue
  omega

lemma wireValue_pred_zero {x : ℤ} (hx : -1024 ≤ x) : wireValue (x + 1) 0 - 1 = wireValue x (2^21 - 1) := by
  unfold wireValue
  omega

/-- A float in the lower half of the last unit below a power of two. -/
def BelowBinade (v : UniFloat) : Prop :=
  2^21 - 1 < offset v (binade v) ∧ offset v (binade v) < 2^21 - 1/2

section UpTake
variable {v : UniFloat} (h : InWireRange v) {r : ℤ} (hr : 0 < r) (allowZero : Bool)
include h

/-- A mantissa of the value's own binade is the least one if it is the first one that suffices. -/
lemma isLeast_at {m : ℕ} (hm : m < 2^21) (hle : offset v (binade v) ≤ m) (hlt : (m : ℚ) < offset v (binade v) + 1) :
    IsLeast (atLeast v) (wireValue (binade v) m) := by
  have he := h.binade_low
  have he' := h.binade_high
  have ht0 := offset_binade_nonneg h.pos
  have hne : wireValue (binade v) m ≠ 0 := by
    intro hzero
    have hx : binade v = -1024 ∧ m = 0 := by
      unfold wireValue at hzero
      omega
    have hone := h.offset_low hx.1
    rw [hx.2, Nat.cast_zero] at hle
    linarith
  refine isLeast_of_pred (wireValue_lt he (by omega) hm) ?_ ?_
  · exact not_lt.1 fun hlt' => ((wireDecode_lt_iff he (by omega) hm rfl hne).1 hlt').not_ge hle
  · rcases Nat.eq_zero_or_pos m with rfl | hpos
    · have hbinade : -1024 < binade v := by
        unfold wireValue at hne
        omega
      have hpred := wireValue_pred_zero (x := binade v - 1) (by omega)
      rw [sub_add_cancel] at hpred
      rw [hpred]
      exact wireDecode_lt_of_lt (by omega) (by omega) (by norm_num) h.pos (by omega)
    · rw [wireValue_pred hpos]
      rcases eq_or_ne (wireValue (binade v) (m - 1)) 0 with hzero | hne'
      · rw [hzero]
        exact h.pos
      · refine (wireDecode_lt_iff he (by omega) (by omega) rfl hne').2 ?_
        rw [Nat.cast_sub hpos, Nat.cast_one]
        linarith

/-- The power of two above the value is the least one if the last mantissa does not suffice. -/
lemma isLeast_next (hlt : 2^21 - 1 < offset v (binade v)) : IsLeast (atLeast v) (wireValue (binade v + 1) 0) := by
  have he := h.binade_low
  have he' := h.binade_high
  have hlast : binade v ≠ 1023 := fun hx => (h.offset_high hx).not_gt hlt
  have hne : wireValue (binade v) (2^21 - 1) ≠ 0 := by
    unfold wireValue
    omega
  refine isLeast_of_pred (wireValue_lt (by omega) (by omega) (by norm_num)) ?_ ?_
  · exact (lt_wireDecode_of_lt (by omega) (by omega) (by norm_num) he (by omega)).le
  · rw [wireValue_pred_zero he]
    refine (wireDecode_lt_iff he (by omega) (by norm_num) rfl hne).2 ?_
    push_cast
    linarith

end UpTake

section UpResult
variable {v : UniFloat} (h : InWireRange v) {r : ℤ} (hr : 0 < r) (allowZero : Bool)
include h hr

/-- With a negative offset the exponent below the value's own is passed over. -/
lemma le_mantissa_below {roundby : ℚ} (h0 : roundby < 0) (h1 : -3 < roundby) :
    2^21 ≤ wireMantissa v.toRat r roundby (binade v - 1) := by
  have ht0 := offset_binade_nonneg h.pos
  have ht1 := offset_binade_lt v
  rw [wireMantissa_up hr, offset_pred, le_toUInt64_iff (by linarith) (by linarith)]
  push_cast
  linarith

/-- An offset whose mantissa fits and suffices ends the search. -/
lemma up_take_at {roundby : ℚ} {m : ℕ} (h0 : roundby < 0) (h1 : -3 < roundby) (hm : m < 2^21)
    (hlow : (m : ℚ) ≤ offset v (binade v) - roundby) (hhigh : offset v (binade v) - roundby < m + 1)
    (hle : offset v (binade v) ≤ m) (rest : List ℚ) :
    wireEncodeLoop v r allowZero (roundby :: rest) = .ok (wireValue (binade v) m) := by
  have hat : wireMantissa v.toRat r roundby (binade v) = m := by
    rw [wireMantissa_up hr]
    exact toUInt64_eq hlow hhigh (by omega)
  have hc := wireCandidate_at h.binade_high (le_mantissa_below h hr h0 h1) (by rw [hat]; exact hm)
  rw [hat] at hc
  have he' := h.binade_high
  refine wireEncodeLoop_take hc allowZero h.binade_low (by omega) (fun _ => ?_) (fun hneg => absurd hneg hr.not_gt)
  refine not_lt.1 fun hlt => ?_
  rcases eq_or_ne (wireValue (binade v) m) 0 with hzero | hne
  · have hx : binade v = -1024 ∧ m = 0 := by
      have he := h.binade_low
      unfold wireValue at hzero
      omega
    have hone := h.offset_low hx.1
    rw [hx.2, Nat.cast_zero] at hle
    linarith
  · exact ((wireDecode_lt_iff h.binade_low (by omega) hm rfl hne).1 hlt).not_ge hle

/-- An offset that carries the mantissa over the binade ends the search in the next one. -/
lemma up_take_next {roundby : ℚ} {m : ℕ} (h0 : roundby < 0) (h1 : -3 < roundby) (hlast : binade v ≠ 1023)
    (hcarry : 2^21 ≤ offset v (binade v) - roundby) (hm : m < 2^21)
    (hlow : (m : ℚ) ≤ (offset v (binade v) - 2^21) / 2 - roundby)
    (hhigh : (offset v (binade v) - 2^21) / 2 - roundby < m + 1) (rest : List ℚ) :
    wireEncodeLoop v r allowZero (roundby :: rest) = .ok (wireValue (binade v + 1) m) := by
  have ht1 := offset_binade_lt v
  have he := h.binade_low
  have he' := h.binade_high
  have hat : 2^21 ≤ wireMantissa v.toRat r roundby (binade v) := by
    rw [wireMantissa_up hr, le_toUInt64_iff (by linarith) (by linarith)]
    exact_mod_cast hcarry
  have hnext : wireMantissa v.toRat r roundby (binade v + 1) = m := by
    rw [wireMantissa_up hr, offset_succ]
    exact toUInt64_eq hlow hhigh (by omega)
  have hc := wireCandidate_next he' (le_mantissa_below h hr h0 h1) hat (by rw [hnext]; exact hm)
  rw [hnext] at hc
  refine wireEncodeLoop_take hc allowZero (by omega) (by omega) (fun _ => ?_) (fun hneg => absurd hneg hr.not_gt)
  exact (lt_wireDecode_of_lt (by omega) (by omega) hm he (by omega)).le

/-- An offset whose mantissa fits but falls short is passed over. -/
lemma up_skip_at {roundby : ℚ} {m : ℕ} (h0 : roundby < 0) (h1 : -2 < roundby) (hm : m < 2^21)
    (hlow : (m : ℚ) ≤ offset v (binade v) - roundby) (hhigh : offset v (binade v) - roundby < m + 1)
    (hlt : (m : ℚ) < offset v (binade v)) (rest : List ℚ) :
    wireEncodeLoop v r allowZero (roundby :: rest) = wireEncodeLoop v r allowZero rest := by
  have hat : wireMantissa v.toRat r roundby (binade v) = m := by
    rw [wireMantissa_up hr]
    exact toUInt64_eq hlow hhigh (by omega)
  have hc := wireCandidate_at h.binade_high (le_mantissa_below h hr h0 (by linarith)) (by rw [hat]; exact hm)
  rw [hat] at hc
  have he' := h.binade_high
  refine wireEncodeLoop_skip hc allowZero h1 (Or.inr (Or.inr (Or.inl ⟨hr, ?_⟩)))
  rcases eq_or_ne (wireValue (binade v) m) 0 with hzero | hne
  · rw [hzero]
    exact h.pos
  · exact (wireDecode_lt_iff h.binade_low (by omega) hm rfl hne).2 hlt

/-- Rounding up finds the least wire value unless the value lies in the lower half of the last unit
below a power of two; there the search skips the power of two itself. -/
theorem wireEncode_up : (∃ w, wireEncode v r allowZero = .ok w ∧ IsLeast (atLeast v) w) ↔ ¬BelowBinade v := by
  have ht0 := offset_binade_nonneg h.pos
  have ht1 := offset_binade_lt v
  have hpos : 0 < v.val := lt_iff.1 h.pos
  have hloop : wireEncode v r allowZero = wireEncodeLoop v r allowZero [-1/2, -3/2, -5/2] := by
    rw [wireEncode, if_neg (by omega), if_neg (by omega), if_neg (by omega),
      up_skip h hr allowZero (by norm_num) (by norm_num),
      up_skip h hr allowZero (by norm_num) (by norm_num), up_skip h hr allowZero (by norm_num) (by norm_num)]
  rw [hloop]
  rcases le_or_gt (2^21 - 1/2) (offset v (binade v)) with htop | hbelow
  · -- the first offset already carries to the next power of two
    have hlast : binade v ≠ 1023 := fun hx => by linarith [h.offset_high hx]
    refine iff_of_true ⟨_, up_take_next h hr allowZero (m := 0) (by norm_num) (by norm_num) hlast (by linarith)
      (by norm_num) (by push_cast; linarith) (by push_cast; linarith) _, isLeast_next h (by linarith)⟩ ?_
    exact fun hcon => hcon.2.not_ge htop
  obtain ⟨m, hm1, hm2⟩ : ∃ m : ℕ, (m : ℚ) ≤ offset v (binade v) + 1/2 ∧ offset v (binade v) + 1/2 < m + 1 :=
    ⟨⌊offset v (binade v) + 1/2⌋₊, Nat.floor_le (by linarith), Nat.lt_floor_add_one _⟩
  have hm : m < 2^21 := by
    have : (m : ℚ) < 2^21 := by linarith
    exact_mod_cast this
  rcases le_or_gt (offset v (binade v)) m with hle | hlt
  · refine iff_of_true ⟨_, up_take_at h hr allowZero (by norm_num) (by norm_num) hm (by linarith) (by linarith) hle _,
      isLeast_at h hm hle (by linarith)⟩ fun hcon => ?_
    have hgt := hcon.1
    have : (2^21 - 1 : ℚ) < m := by linarith
    have hcast : ((2^21 - 1 : ℕ) : ℚ) < m := by
      push_cast
      linarith
    have : 2^21 - 1 < m := by exact_mod_cast hcast
    omega
  · rw [up_skip_at h hr allowZero (by norm_num) (by norm_num) hm (by linarith) (by linarith) hlt]
    rcases Nat.lt_or_ge (m + 1) (2^21) with hfits | hfull
    · refine iff_of_true ⟨_, up_take_at h hr allowZero (m := m + 1) (by norm_num) (by norm_num) hfits (by push_cast; linarith)
        (by push_cast; linarith) (by push_cast; linarith) _, isLeast_at h hfits (by push_cast; linarith)
        (by push_cast; linarith)⟩ fun hcon => ?_
      have hcast : (m : ℚ) + 1 + 1 ≤ 2^21 := by exact_mod_cast hfits
      linarith [hcon.1]
    · have hmtop : (m : ℚ) = 2^21 - 1 := by
        have : m + 1 = 2^21 := by omega
        have hcast : (m : ℚ) + 1 = 2^21 := by exact_mod_cast this
        linarith
      have hlast : binade v ≠ 1023 := fun hx => by linarith [h.offset_high hx]
      have hbad : BelowBinade v := ⟨by linarith, hbelow⟩
      refine iff_of_false ?_ fun hcon => hcon hbad
      rintro ⟨w, hw, hleast⟩
      rw [up_take_next h hr allowZero (m := 1) (by norm_num) (by norm_num) hlast (by linarith) (by norm_num)
        (by push_cast; linarith) (by push_cast; linarith)] at hw
      have heq := hleast.unique (isLeast_next h hbad.1)
      rw [← Except.ok.inj hw] at heq
      unfold wireValue at heq
      omega

end UpResult

section Down
variable {v : UniFloat} (h : InWireRange v) {r : ℤ} (hr : r < 0) (allowZero : Bool)
include h hr

omit h hr in
lemma toUInt64_ceil {q : ℚ} {z : ℕ} (h0 : (z : ℚ) - 1 < q) (h1 : q ≤ z) (hz : z < 2^63) : toUInt64 ⌈q⌉ = z := by
  have hceil : ⌈q⌉ = (z : ℤ) := Int.ceil_eq_iff.2 ⟨by push_cast; exact h0, by push_cast; exact h1⟩
  rw [hceil, Int.cast_natCast]
  exact toUInt64_eq le_rfl (lt_add_one _) hz

omit h in
lemma le_mantissa_below_down {roundby : ℚ} (h0 : -1 < roundby + 2 * offset v (binade v)) (h1 : roundby ≤ 5/2) :
    2^21 ≤ wireMantissa v.toRat r roundby (binade v - 1) := by
  have ht1 := offset_binade_lt v
  have hlow : 2^21 ≤ ⌈2 * offset v (binade v) + 2^21 + roundby⌉ := by
    have : 2^21 - 1 < ⌈2 * offset v (binade v) + 2^21 + roundby⌉ := Int.lt_ceil.2 (by push_cast; linarith)
    omega
  have hhigh : ⌈2 * offset v (binade v) + 2^21 + roundby⌉ ≤ 2^24 := Int.ceil_le.2 (by push_cast; linarith)
  have hlow' : (2:ℚ)^21 ≤ ⌈2 * offset v (binade v) + 2^21 + roundby⌉ := by exact_mod_cast hlow
  have hhigh' : (⌈2 * offset v (binade v) + 2^21 + roundby⌉ : ℚ) ≤ 2^24 := by exact_mod_cast hhigh
  rw [wireMantissa_down hr, offset_pred, le_toUInt64_iff (by linarith) (by linarith)]
  exact_mod_cast hlow

/-- A candidate that rounds down is dropped while it is above the value. -/
lemma down_skip {roundby : ℚ} {z : ℕ} (h0 : -1 < roundby) (h1 : roundby ≤ 5/2)
    (hz : (z : ℚ) - 1 < offset v (binade v) + roundby)
    (hz' : offset v (binade v) + roundby ≤ z) (hlt : offset v (binade v) < z) (rest : List ℚ) :
    wireEncodeLoop v r allowZero (roundby :: rest) = wireEncodeLoop v r allowZero rest := by
  have ht0 := offset_binade_nonneg h.pos
  have ht1 := offset_binade_lt v
  have he := h.binade_low
  have he' := h.binade_high
  have hz63 : z < 2^63 := by
    have : (z : ℚ) < 2^63 := by linarith
    exact_mod_cast this
  have hat : wireMantissa v.toRat r roundby (binade v) = z := by
    rw [wireMantissa_down hr]
    exact toUInt64_ceil hz hz' hz63
  have hbelow := le_mantissa_below_down hr (by linarith) h1
  rcases Nat.lt_or_ge z (2^21) with hfits | hfull
  · have hc := wireCandidate_at he' hbelow (by rw [hat]; exact hfits)
    rw [hat] at hc
    have hne : wireValue (binade v) z ≠ 0 := by
      have : (0:ℚ) < z := by linarith
      have hzpos : 0 < z := by exact_mod_cast this
      unfold wireValue
      omega
    exact wireEncodeLoop_skip hc allowZero (by linarith)
      (Or.inr (Or.inr (Or.inr ⟨hr, (lt_wireDecode_iff he (by omega) hfits rfl hne).2 hlt⟩)))
  · have hfull' : (2:ℚ)^21 ≤ z := by exact_mod_cast hfull
    obtain ⟨y, hy⟩ : ∃ y : ℕ, ⌈(offset v (binade v) - 2^21) / 2 + roundby⌉ = (y : ℤ) := by
      have : -1 < ⌈(offset v (binade v) - 2^21) / 2 + roundby⌉ := Int.lt_ceil.2 (by push_cast; linarith)
      exact ⟨⌈(offset v (binade v) - 2^21) / 2 + roundby⌉.toNat, by omega⟩
    obtain ⟨hy1, hy2⟩ := Int.ceil_eq_iff.1 hy
    rw [Int.cast_natCast] at hy1 hy2
    have hysmall : y < 2^21 := by
      have : (y : ℚ) < 2^21 := by linarith
      exact_mod_cast this
    have hnext : wireMantissa v.toRat r roundby (binade v + 1) = y := by
      rw [wireMantissa_down hr, offset_succ]
      exact toUInt64_ceil hy1 hy2 (by omega)
    have hc := wireCandidate_next he' hbelow (by rw [hat]; exact hfull) (by rw [hnext]; exact hysmall)
    rw [hnext] at hc
    refine wireEncodeLoop_skip hc allowZero (by linarith) ?_
    rcases le_or_gt 1024 (binade v + 1) with hout | hin
    · exact Or.inl hout
    · exact Or.inr (Or.inr (Or.inr ⟨hr, lt_wireDecode_of_lt (by omega) hin hysmall he (by omega)⟩))

lemma down_take {roundby : ℚ} {m : ℕ} (h0 : -1 < roundby + 2 * offset v (binade v)) (h1 : roundby ≤ 5/2) (hm : m < 2^21)
    (hlow : (m : ℚ) - 1 < offset v (binade v) + roundby) (hhigh : offset v (binade v) + roundby ≤ m)
    (hle : (m : ℚ) ≤ offset v (binade v)) (rest : List ℚ) :
    wireEncodeLoop v r allowZero (roundby :: rest) = .ok (wireValue (binade v) m) := by
  have hat : wireMantissa v.toRat r roundby (binade v) = m := by
    rw [wireMantissa_down hr]
    exact toUInt64_ceil hlow hhigh (by omega)
  have hc := wireCandidate_at h.binade_high (le_mantissa_below_down hr h0 h1) (by rw [hat]; exact hm)
  rw [hat] at hc
  have he' := h.binade_high
  refine wireEncodeLoop_take hc allowZero h.binade_low (by omega) (fun hpos => absurd hpos hr.not_gt) (fun _ => ?_)
  refine not_lt.1 fun hlt => ?_
  rcases eq_or_ne (wireValue (binade v) m) 0 with hzero | hne
  · rw [hzero] at hlt
    exact lt_asymm hlt h.pos
  · exact ((lt_wireDecode_iff h.binade_low (by omega) hm rfl hne).1 hlt).not_ge hle

omit hr in
lemma isGreatest_at {m : ℕ} (hm : m < 2^21) (hle : (m : ℚ) ≤ offset v (binade v)) (hlt : offset v (binade v) < m + 1) :
    IsGreatest (atMost v) (wireValue (binade v) m) := by
  have he := h.binade_low
  have he' := h.binade_high
  refine isGreatest_of_succ (wireValue_lt he (by omega) hm) ?_ fun hsucc => ?_
  · refine not_lt.1 fun hlt' => ?_
    rcases eq_or_ne (wireValue (binade v) m) 0 with hzero | hne
    · rw [hzero] at hlt'
      exact lt_asymm hlt' h.pos
    · exact ((lt_wireDecode_iff he (by omega) hm rfl hne).1 hlt').not_ge hle
  · rcases Nat.lt_or_ge (m + 1) (2^21) with hfits | hfull
    · have hnext : wireValue (binade v) m + 1 = wireValue (binade v) (m + 1) := by
        unfold wireValue
        omega
      rw [hnext]
      refine (lt_wireDecode_iff he (by omega) hfits rfl ?_).2 (by push_cast; exact hlt)
      unfold wireValue
      omega
    · have hnext : wireValue (binade v) m + 1 = wireValue (binade v + 1) 0 := by
        unfold wireValue
        omega
      rw [hnext] at hsucc ⊢
      refine lt_wireDecode_of_lt (by omega) ?_ (by norm_num) he (by omega)
      unfold wireValue at hsucc
      omega

/-- Rounding down finds the greatest wire value. -/
theorem wireEncode_down : ∃ w, wireEncode v r allowZero = .ok w ∧ IsGreatest (atMost v) w := by
  have ht0 := offset_binade_nonneg h.pos
  have ht1 := offset_binade_lt v
  have hpos : 0 < v.val := lt_iff.1 h.pos
  have skip {roundby : ℚ} (h0 : 0 < roundby) (h1 : roundby ≤ 5/2) (rest : List ℚ) :
      wireEncodeLoop v r allowZero (roundby :: rest) = wireEncodeLoop v r allowZero rest := by
    have hz := Nat.le_ceil (offset v (binade v) + roundby)
    exact down_skip h hr allowZero (by linarith) h1
      (by linarith [Nat.ceil_lt_add_one (by linarith : 0 ≤ offset v (binade v) + roundby)])
      hz (by linarith) rest
  have hloop : wireEncode v r allowZero = wireEncodeLoop v r allowZero [-1/2, -3/2, -5/2] := by
    rw [wireEncode, if_neg (by omega), if_neg (by omega), if_neg (by omega), skip (by norm_num) (by norm_num),
      skip (by norm_num) (by norm_num), skip (by norm_num) (by norm_num)]
  rw [hloop]
  obtain ⟨m, hm1, hm2⟩ : ∃ m : ℕ, (m : ℚ) ≤ offset v (binade v) ∧ offset v (binade v) < m + 1 :=
    ⟨⌊offset v (binade v)⌋₊, Nat.floor_le ht0, Nat.lt_floor_add_one _⟩
  have hm : m < 2^21 := by
    have : (m : ℚ) < 2^21 := by linarith
    exact_mod_cast this
  rcases le_or_gt (offset v (binade v)) (m + 1/2) with hlow | hhigh
  · exact ⟨_, down_take h hr allowZero (by linarith) (by norm_num) hm (by linarith) (by linarith) hm1 _,
      isGreatest_at h hm hm1 hm2⟩
  · rw [down_skip h hr allowZero (z := m + 1) (by norm_num) (by norm_num) (by push_cast; linarith) (by push_cast; linarith)
      (by push_cast; linarith)]
    have hm0 : (0:ℚ) ≤ m := Nat.cast_nonneg m
    exact ⟨_, down_take h hr allowZero (by linarith) (by norm_num) hm (by linarith) (by linarith) hm1 _,
      isGreatest_at h hm hm1 hm2⟩

end Down

section RoundTrip
variable {w : ℕ} (hw0 : w ≠ 0) (hw : w < 2^32)
include hw0 hw

/-- The decoded float is in the range, and its binade and offset are the two fields. -/
lemma inWireRange_wireDecode : InWireRange (wireDecode w) :=
  ⟨wireDecode_strictMonoOn.monotoneOn (by norm_num) hw (by omega),
    wireDecode_strictMonoOn.monotoneOn hw (by norm_num) (by omega)⟩

omit hw0 in
lemma wireValue_fields : wireValue (w / 2^21 - 1024) (w % 2^21) = w := by
  unfold wireValue
  omega

lemma toRat_wireDecode : (wireDecode w).toRat = ((w % 2^21 : ℕ) + 2^21) * 2^((w : ℤ) / 2^21 - 1024 - 21) := by
  have hval := toRat_wireDecode_wireValue (x := w / 2^21 - 1024) (m := w % 2^21) (by omega) (by omega) (by omega)
    (by rw [wireValue_fields hw]; exact hw0)
  rw [wireValue_fields hw] at hval
  exact hval

lemma binade_wireDecode : binade (wireDecode w) = (w : ℤ) / 2^21 - 1024 := by
  have hmant : ((w % 2^21 : ℕ) : ℚ) < 2^21 := by exact_mod_cast (by omega : w % 2^21 < 2^21)
  have hmant0 : (0:ℚ) ≤ (w % 2^21 : ℕ) := Nat.cast_nonneg _
  have hpow : (2:ℚ)^((w : ℤ) / 2^21 - 1024) = 2^21 * 2^((w : ℤ) / 2^21 - 1024 - 21) := by
    rw [zpow_sub₀ (by norm_num) _ 21]
    norm_num
    ring
  have hpos : (0:ℚ) < 2^((w : ℤ) / 2^21 - 1024 - 21) := by positivity
  have hrange := (inWireRange_wireDecode hw0 hw).pos
  apply le_antisymm
  · refine Int.lt_add_one_iff.1 ((Int.lt_zpow_iff_log_lt (by norm_num) (toRat_pos hrange)).1 ?_)
    rw [toRat_wireDecode hw0 hw, Nat.cast_ofNat, zpow_add_one₀ (by norm_num), hpow, mul_right_comm]
    exact mul_lt_mul_of_pos_right (by linarith) hpos
  · refine (Int.zpow_le_iff_le_log (by norm_num) (toRat_pos hrange)).1 ?_
    rw [toRat_wireDecode hw0 hw, Nat.cast_ofNat, hpow]
    exact mul_le_mul_of_nonneg_right (by linarith) hpos.le

lemma offset_wireDecode : offset (wireDecode w) (binade (wireDecode w)) = (w % 2^21 : ℕ) := by
  have hpos : (0:ℚ) < 2^((w : ℤ) / 2^21 - 1024 - 21) := by positivity
  have heq := toRat_eq_offset (wireDecode w) (binade (wireDecode w))
  rw [binade_wireDecode hw0 hw, toRat_wireDecode hw0 hw] at heq
  rw [binade_wireDecode hw0 hw]
  linarith [mul_right_cancel₀ hpos.ne' heq]

/-- A decoded float is not below a power of two by less than a unit. -/
lemma not_belowBinade_wireDecode : ¬BelowBinade (wireDecode w) := by
  rintro ⟨hlow, hhigh⟩
  rw [offset_wireDecode hw0 hw] at hlow hhigh
  have hle : w % 2^21 ≤ 2^21 - 1 := by omega
  have hcast : ((w % 2^21 : ℕ) : ℚ) ≤ (2^21 - 1 : ℕ) := by exact_mod_cast hle
  rw [Nat.cast_sub (by norm_num), Nat.cast_pow, Nat.cast_ofNat, Nat.cast_one] at hcast
  linarith

/-- Rounding to nearest takes the first candidate. -/
lemma wireEncode_nearest_wireDecode (allowZero : Bool) : wireEncode (wireDecode w) 0 allowZero = .ok w := by
  have h := inWireRange_wireDecode hw0 hw
  have hpos : 0 < (wireDecode w).val := lt_iff.1 h.pos
  have hoff := offset_wireDecode hw0 hw
  have hm : w % 2^21 < 2^21 := Nat.mod_lt _ (by norm_num)
  have hbelow : 2^21 ≤ wireMantissa (wireDecode w).toRat 0 (5/2) (binade (wireDecode w) - 1) := by
    have h0 := offset_binade_nonneg h.pos
    have h1 := offset_binade_lt (wireDecode w)
    rw [wireMantissa_nearest, offset_pred, le_toUInt64_iff (by linarith) (by linarith)]
    push_cast
    linarith
  have hat : wireMantissa (wireDecode w).toRat 0 (5/2) (binade (wireDecode w)) = w % 2^21 := by
    rw [wireMantissa_nearest, hoff]
    exact toUInt64_eq (by linarith) (by linarith) (by omega)
  have hc := wireCandidate_at h.binade_high hbelow (by rw [hat]; exact hm)
  rw [hat] at hc
  have hhigh := h.binade_high
  rw [wireEncode, if_neg (by omega), if_neg (by omega), if_neg (by omega),
    wireEncodeLoop_take hc allowZero h.binade_low (by omega) (fun hr => absurd hr (lt_irrefl 0))
      (fun hr => absurd hr (lt_irrefl 0)), binade_wireDecode hw0 hw, wireValue_fields hw]

/-- A wire value other than zero comes back from its float. -/
theorem wireEncode_wireDecode (r : ℤ) (allowZero : Bool) : wireEncode (wireDecode w) r allowZero = .ok w := by
  have h := inWireRange_wireDecode hw0 hw
  rcases lt_trichotomy r 0 with hneg | rfl | hpos
  · obtain ⟨u, hu, hgreatest⟩ := wireEncode_down h hneg allowZero
    have hself : IsGreatest (atMost (wireDecode w)) w :=
      ⟨⟨hw, le_rfl⟩, fun z hz => wireDecode_strictMonoOn.le_iff_le hz.1 hw |>.1 hz.2⟩
    rw [hu, hgreatest.unique hself]
  · exact wireEncode_nearest_wireDecode hw0 hw allowZero
  · obtain ⟨u, hu, hleast⟩ := (wireEncode_up h hpos allowZero).2 (not_belowBinade_wireDecode hw0 hw)
    have hself : IsLeast (atLeast (wireDecode w)) w :=
      ⟨⟨hw, le_rfl⟩, fun z hz => wireDecode_strictMonoOn.le_iff_le hw hz.1 |>.1 hz.2⟩
    rw [hu, hleast.unique hself]

end RoundTrip

/-- The float of wire value zero: rounded up it gives the least positive wire value, else zero where
that is allowed. -/
theorem wireEncode_wireDecode_zero (r : ℤ) (allowZero : Bool) : wireEncode (wireDecode 0) r allowZero =
    if 0 < r then .ok 1 else if allowZero then .ok 0 else .error "invalid value" := by
  have hzero : (wireDecode 0).val = 0 := rfl
  simp [wireEncode, hzero]

/-- The codec is monotone, every wire value comes back from its float, and rounding gives the least
wire value above or the greatest below a float, just when a float to be rounded up is not in the
lower half of the last unit below a power of two. -/
theorem wireCodec_iff (v : UniFloat) (h : InWireRange v) (r : ℤ) (allowZero : Bool) :
    (StrictMonoOn wireDecode (Set.Iio (2^32)) ∧
      (∀ w, w ≠ 0 → w < 2^32 → wireEncode (wireDecode w) r allowZero = .ok w) ∧
      wireEncode (wireDecode 0) r allowZero =
        (if 0 < r then .ok 1 else if allowZero then .ok 0 else .error "invalid value") ∧
      (0 < r → ∃ w, wireEncode v r allowZero = .ok w ∧ IsLeast (atLeast v) w) ∧
      (r < 0 → ∃ w, wireEncode v r allowZero = .ok w ∧ IsGreatest (atMost v) w)) ↔ (0 < r → ¬BelowBinade v) := by
  constructor
  · rintro ⟨-, -, -, hup, -⟩ hr
    exact (wireEncode_up h hr allowZero).1 (hup hr)
  · intro hcond
    refine ⟨wireDecode_strictMonoOn, fun w hw0 hw => wireEncode_wireDecode hw0 hw r allowZero,
      wireEncode_wireDecode_zero r allowZero, fun hr => ?_, fun hr => wireEncode_down h hr allowZero⟩
    exact (wireEncode_up h hr allowZero).2 (hcond hr)

/-- `2 - 3/2^23`, at a quarter of the last unit below `2`. -/
def belowTwo : UniFloat := ⟨((2^24 - 3) * 2^1051 : ℕ), isDouble_mul_pow (by norm_num) 1051 (by decide +kernel)⟩

lemma inWireRange_belowTwo : InWireRange belowTwo := by
  have hlow : (wireDecode 1).val ≤ belowTwo.val := by decide +kernel
  have hhigh : belowTwo.val ≤ (wireDecode (2^32 - 1)).val := by decide +kernel
  exact ⟨le_iff.2 hlow, le_iff.2 hhigh⟩

lemma toRat_belowTwo : belowTwo.toRat = 2 - 3/2^23 := by
  have hval : belowTwo.toRat = ((2^24 - 3 : ℕ) * 2^1051 : ℚ) / 2^1074 := by
    rw [toRat, belowTwo, Int.cast_natCast, Nat.cast_mul, Nat.cast_pow, Nat.cast_ofNat]
  rw [hval, show (2:ℚ)^1074 = 2^23 * 2^1051 from pow_add 2 23 1051, mul_div_mul_right _ _ (by positivity)]
  norm_num

lemma belowBinade_belowTwo : BelowBinade belowTwo := by
  have hpos := toRat_pos inWireRange_belowTwo.pos
  have hbinade : binade belowTwo = 0 := by
    apply le_antisymm
    · refine Int.lt_add_one_iff.1 ((Int.lt_zpow_iff_log_lt (by norm_num) hpos).1 ?_)
      rw [toRat_belowTwo]
      norm_num
    · refine (Int.zpow_le_iff_le_log (by norm_num) hpos).1 ?_
      rw [toRat_belowTwo]
      norm_num
  rw [BelowBinade, hbinade, offset, toRat_belowTwo]
  norm_num

/-- Rounded up, it is encoded as a float above `2`, although `2` has a wire value. -/
theorem wireEncode_up_misses : ¬∀ v r allowZero, InWireRange v → 0 < r →
    ∃ w, wireEncode v r allowZero = .ok w ∧ IsLeast (atLeast v) w := by
  intro h
  have hleast := h belowTwo 1 true inWireRange_belowTwo (by norm_num)
  exact (wireEncode_up inWireRange_belowTwo (by norm_num) true).1 hleast belowBinade_belowTwo

theorem wireCodec_iff_belowTwo : (∀ w, w ≠ 0 → w < 2^32 → wireEncode (wireDecode w) (-1) true = .ok w) ∧
    ∃ w, wireEncode belowTwo (-1) true = .ok w ∧ IsGreatest (atMost belowTwo) w := by
  have hcond : 0 < (-1 : ℤ) → ¬BelowBinade belowTwo := fun h => absurd h (by norm_num)
  obtain ⟨-, hround, -, -, hdown⟩ := (wireCodec_iff belowTwo inWireRange_belowTwo (-1) true).2 hcond
  exact ⟨hround, hdown (by norm_num)⟩

end UniFloat
end CredaCash
