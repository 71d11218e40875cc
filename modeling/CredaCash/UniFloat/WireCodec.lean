import CredaCash.UniFloat.Directed

/-! The wire codec of the universal float: an 11-bit exponent, which is biased by 1024, over a
21-bit mantissa. `WireDecode` can step from one wire value to another. -/

namespace CredaCash
open Rounding

namespace UniFloat

/-- The loop of `WireDecode` that carries a mantissa into the exponent; `none` is the return from
inside the loop. -/
def carryLoop : ℕ → ℕ → ℕ → Option (ℕ × ℕ)
  | 0, mantissa, exponent => some (mantissa, exponent)
  | fuel+1, mantissa, exponent =>
    if mantissa < 2^22 then some (mantissa, exponent)
    -- the exponent is biased, its limit is not
    else if 1024 < exponent + 1 then none
    else carryLoop fuel (mantissa / 2) (exponent + 1)

/-- `WireDecode`. The two out-parameters, which only a test generator asks for, are left out; a 64-bit
mantissa is shifted fewer than 64 times. -/
def wireDecodeIncr (v : ℕ) (increment : ℤ) (allowZero : Bool) : Except String UniFloat :=
  if allowZero ∧ v = 0 ∧ increment = 0 then .ok 0
  else
    let exponent := v / 2^21
    if 2*1024 ≤ exponent then .error "invalid value"
    else
      let mantissa : ℕ := v % 2^21
      if increment < 0 ∧ (mantissa : ℤ) < -increment ∧ exponent = 0 then .ok (-max)
      else
        let mantissa : ℕ := if v ≠ 0 then mantissa + 2^21 else mantissa
        let mantissa := (((mantissa : ℤ) + increment) % 2^64).toNat
        match carryLoop 64 mantissa exponent with
        | none => .ok max
        | some (mantissa, exponent) => .ok (recompose ⟨mantissa, (exponent : ℤ) - 1024 - 21, 1⟩)

/-- A mantissa that needs no carry ends the loop, and one bit more is shifted out once. -/
lemma carryLoop_of_lt {mantissa : ℕ} (h : mantissa < 2^22) (fuel exponent : ℕ) :
    carryLoop fuel mantissa exponent = some (mantissa, exponent) := by
  cases fuel with
  | zero => rfl
  | succ fuel => rw [carryLoop, if_pos h]

lemma carryLoop_of_ge {mantissa : ℕ} (hlow : 2^22 ≤ mantissa) (hhigh : mantissa < 2^23) (fuel exponent : ℕ) :
    carryLoop (fuel + 1) mantissa exponent =
      if 1024 ≤ exponent then none else some (mantissa / 2, exponent + 1) := by
  rw [carryLoop, if_neg hlow.not_gt, carryLoop_of_lt (by omega)]
  simp only [Nat.lt_add_one_iff]

/-- The value of a mantissa and a biased exponent. -/
lemma recompose_wire_val {mantissa exponent : ℕ} (hm : mantissa < 2^22) (he : exponent < 2^11) :
    (recompose ⟨mantissa, (exponent : ℤ) - 1024 - 21, 1⟩).val = (mantissa * 2^(exponent + 29) : ℕ) := by
  have hdouble := toDouble_mul_pow (by omega : mantissa < 2^53) 0
  rw [pow_zero, mul_one] at hdouble
  rw [recompose_pos_val, ldexp, if_pos (by omega), hdouble]
  have hexp : ((exponent : ℤ) - 1024 - 21 + 1074).toNat = exponent + 29 := by omega
  rw [hexp, min_eq_left (mul_pow_lt_dblMax hm (by omega)).le]

lemma wire_exponent_lt {v : ℕ} (hv : v < 2^32) : v / 2^21 < 2^11 :=
  Nat.div_lt_of_lt_mul (by rw [← pow_add]; exact hv)

/-- The decoder past its checks, on a wire value that is not zero. -/
lemma wireDecodeIncr_eq {v m : ℕ} {i : ℤ} (hv0 : v ≠ 0) (hv : v < 2^32)
    (hborrow : i < 0 → (v % 2^21 : ℕ) < -i → v / 2^21 ≠ 0) (hm : ((v % 2^21 + 2^21 : ℕ) : ℤ) + i = m)
    (hm64 : m < 2^64) (allowZero : Bool) : wireDecodeIncr v i allowZero =
      match carryLoop 64 m (v / 2^21) with
      | none => .ok max
      | some (mantissa, exponent) => .ok (recompose ⟨mantissa, (exponent : ℤ) - 1024 - 21, 1⟩) := by
  have hexp := wire_exponent_lt hv
  have hmant : (((v % 2^21 + 2^21 : ℕ) : ℤ) + i) % 2^64 = m := by
    rw [hm]
    omega
  rw [wireDecodeIncr, if_neg (fun h => hv0 h.2.1)]
  simp only [if_neg (by omega : ¬2*1024 ≤ v / 2^21), if_neg (fun h => hborrow h.1 h.2.1 h.2.2 :
    ¬(i < 0 ∧ ((v % 2^21 : ℕ) : ℤ) < -i ∧ v / 2^21 = 0)), if_pos hv0, hmant, Int.toNat_natCast]

/-- Without an increment the decoder never throws on a wire value. -/
theorem wireDecodeIncr_zero {v : ℕ} (hv : v < 2^32) (allowZero : Bool) :
    wireDecodeIncr v 0 allowZero = .ok (wireDecode v) := by
  rcases Nat.eq_zero_or_pos v with rfl | hpos
  · have hzero : recompose ⟨0, ((0:ℕ) : ℤ) - 1024 - 21, 1⟩ = 0 := by
      apply UniFloat.ext
      simpa using @recompose_wire_val 0 0 (by norm_num) (by norm_num)
    cases allowZero with
    | false =>
      have hloop := carryLoop_of_lt (by norm_num : 0 < 2^22) 64 0
      simp [wireDecodeIncr, wireDecode, hloop, ← hzero]
    | true => simp [wireDecodeIncr, wireDecode]
  · have hmod := Nat.mod_lt v (by norm_num : 0 < 2^21)
    rw [wireDecodeIncr_eq hpos.ne' hv (fun h => absurd h (lt_irrefl 0)) (Int.add_zero _) (by omega) allowZero,
      carryLoop_of_lt (by omega), wireDecode, if_neg hpos.ne']

/-- The value of a wire value that is not zero. -/
lemma wireDecode_eq {v : ℕ} (hv0 : v ≠ 0) : wireDecode v =
    recompose ⟨v % 2^21 + 2^21, ((v / 2^21 : ℕ) : ℤ) - 1024 - 21, 1⟩ := by
  rw [wireDecode, if_neg hv0]

/-- The increments that `WireDecode` handles: within a binade and not down to zero, up to the next power
of two when that is at most one, and from the second binade down to zero. -/
def StepDecoded (v : ℕ) (i : ℤ) : Prop :=
  (0 ≤ (v % 2^21 : ℕ) + i ∧ (v % 2^21 : ℕ) + i < 2^21 ∧ v + i ≠ 0) ∨
    ((v % 2^21 : ℕ) + i = 2^21 ∧ v / 2^21 < 1024) ∨ (v + i = 0 ∧ v / 2^21 = 1)

section Step
variable {v w : ℕ} {i : ℤ} (hv0 : v ≠ 0) (hv : v < 2^32) (hw : w < 2^32) (hstep : v + i = w)
include hv0 hv hw hstep

lemma decoded_within (hlow : 0 ≤ (v % 2^21 : ℕ) + i) (hhigh : (v % 2^21 : ℕ) + i < 2^21) (allowZero : Bool) :
    wireDecodeIncr v i allowZero = .ok (wireDecode w) ↔ w ≠ 0 := by
  have hexp := wire_exponent_lt hv
  obtain ⟨x, hx⟩ : ∃ x : ℕ, (v % 2^21 : ℕ) + i = x := ⟨((v % 2^21 : ℕ) + i).toNat, by omega⟩
  have hwdiv : w / 2^21 = v / 2^21 := by omega
  have hwmod : w % 2^21 = x := by omega
  rw [wireDecodeIncr_eq (m := x + 2^21) hv0 hv (by omega) (by omega) (by omega), carryLoop_of_lt (by omega)]
  simp only [Except.ok.injEq]
  constructor
  · rintro heq rfl
    have hval := congrArg val heq
    rw [recompose_wire_val (by omega) hexp] at hval
    have : 0 < (x + 2^21) * 2^(v / 2^21 + 29) := by positivity
    simp only [wireDecode, if_true, val_zero] at hval
    omega
  · intro hw0
    rw [wireDecode_eq hw0, hwdiv, hwmod]

/-- The mantissa that is carried loses its last bit, and the step goes to an even mantissa. -/
lemma decoded_carry (hlow : 2^21 ≤ (v % 2^21 : ℕ) + i) (hhigh : (v % 2^21 : ℕ) + i < 2^22) (allowZero : Bool) :
    wireDecodeIncr v i allowZero = .ok (wireDecode w) ↔ (v % 2^21 : ℕ) + i = 2^21 ∧ v / 2^21 < 1024 := by
  have hexp := wire_exponent_lt hw
  obtain ⟨x, hx⟩ : ∃ x : ℕ, (v % 2^21 : ℕ) + i = x := ⟨((v % 2^21 : ℕ) + i).toNat, by omega⟩
  have hwdiv : w / 2^21 = v / 2^21 + 1 := by omega
  have hwmod : w % 2^21 + 2^21 = x := by omega
  have hwval : (wireDecode w).val = (x * 2^(v / 2^21 + 1 + 29) : ℕ) := by
    rw [wireDecode_eq (by omega), hwmod, hwdiv, recompose_wire_val (by omega) (by omega)]
  have hloop : carryLoop 64 (x + 2^21) (v / 2^21) = _ := carryLoop_of_ge (by omega) (by omega) 63 (v / 2^21)
  rw [wireDecodeIncr_eq (m := x + 2^21) hv0 hv (by omega) (by omega) (by omega), hloop]
  split_ifs with hlimit
  · refine iff_of_false (fun h => ?_) (fun h => hlimit.not_gt h.2)
    simp only [Except.ok.injEq] at h
    have hval := congrArg val h
    rw [hwval, val_max, Nat.cast_inj] at hval
    exact (mul_pow_lt_dblMax (m := x) (k := v / 2^21 + 1 + 29) (by omega) (by omega)).ne hval.symm
  · simp only [Except.ok.injEq, UniFloat.ext_iff]
    rw [recompose_wire_val (by omega) (by omega), hwval, Nat.cast_inj, Nat.mul_left_inj (by positivity)]
    omega

/-- The mantissa that borrows is not normalized. -/
lemma decoded_borrow (hlow : -2^21 ≤ (v % 2^21 : ℕ) + i) (hhigh : (v % 2^21 : ℕ) + i < 0) (allowZero : Bool) :
    wireDecodeIncr v i allowZero = .ok (wireDecode w) ↔ w = 0 := by
  have hexp := wire_exponent_lt hv
  have hexp0 : v / 2^21 ≠ 0 := by omega
  obtain ⟨x, hx⟩ : ∃ x : ℕ, ((v % 2^21 + 2^21 : ℕ) : ℤ) + i = x := ⟨((v % 2^21 + 2^21 : ℕ) + i).toNat, by omega⟩
  rw [wireDecodeIncr_eq (m := x) hv0 hv (fun _ _ => hexp0) hx (by omega), carryLoop_of_lt (by omega)]
  simp only [Except.ok.injEq, UniFloat.ext_iff]
  rw [recompose_wire_val (by omega) hexp]
  constructor
  · intro hval
    by_contra hw0
    have hwdiv : w / 2^21 + 1 = v / 2^21 := by omega
    have hwmod : w % 2^21 = x := by omega
    rw [wireDecode_eq hw0, recompose_wire_val (by omega) (by omega), hwmod, ← hwdiv, Nat.cast_inj,
      show w / 2^21 + 1 + 29 = 1 + (w / 2^21 + 29) by ring, pow_add, ← mul_assoc, Nat.mul_left_inj (by positivity)] at hval
    omega
  · intro hw0
    have hx0 : x = 0 := by omega
    simp [hw0, hx0, wireDecode]

end Step

/-- Decoding with an increment that crosses at most one binade is decoding the incremented wire value
exactly on the steps of `StepDecoded`. -/
theorem wireDecodeIncr_iff (v : ℕ) (i : ℤ) (allowZero : Bool) (hv0 : 1 ≤ v) (hv : v < 2^32) (hlow : 0 ≤ v + i)
    (hhigh : v + i < 2^32) (hbinade : |(v + i) / 2^21 - v / 2^21| ≤ 1) :
    wireDecodeIncr v i allowZero = wireDecodeIncr (v + i).toNat 0 allowZero ↔ StepDecoded v i := by
  obtain ⟨w, hw⟩ : ∃ w : ℕ, v + i = w := ⟨(v + i).toNat, by omega⟩
  have hw32 : w < 2^32 := by omega
  obtain ⟨hdown, hup⟩ := abs_le.1 hbinade
  rw [hw, Int.toNat_natCast, wireDecodeIncr_zero hw32]
  rcases lt_or_ge ((v % 2^21 : ℕ) + i) 0 with hneg | hnonneg
  · rw [decoded_borrow (by omega) hv hw32 hw (by omega) hneg]
    unfold StepDecoded
    omega
  rcases lt_or_ge ((v % 2^21 : ℕ) + i) (2^21) with hin | hout
  · rw [decoded_within (by omega) hv hw32 hw hnonneg hin]
    unfold StepDecoded
    omega
  · rw [decoded_carry (by omega) hv hw32 hw hout (by omega)]
    unfold StepDecoded
    omega

/-- One step up from the greatest wire value below two. -/
theorem wireDecodeIncr_below_two : ¬∀ (v : ℕ) (i : ℤ), 1 ≤ v → v < 2^32 → 0 ≤ v + i → v + i < 2^32 →
    |(v + i) / 2^21 - v / 2^21| ≤ 1 → wireDecodeIncr v i true = wireDecodeIncr (v + i).toNat 0 true := by
  intro h
  have heq := h (1025 * 2^21 - 1) 1 (by norm_num) (by norm_num) (by norm_num) (by norm_num) (by norm_num)
  revert heq
  decide +kernel

theorem wireDecodeIncr_iff_below_one :
    wireDecodeIncr (1024 * 2^21 - 1) 1 true = wireDecodeIncr (((1024 * 2^21 - 1 : ℕ) : ℤ) + 1).toNat 0 true ↔
      StepDecoded (1024 * 2^21 - 1) 1 :=
  wireDecodeIncr_iff (1024 * 2^21 - 1) 1 true (by norm_num) (by norm_num) (by norm_num) (by norm_num) (by norm_num)

end UniFloat
end CredaCash
