import CredaCash.Rounding
import Mathlib.Data.Sign.Defs

/-! The universal float: doubles whose arithmetic is done on integer mantissas, so that every
node rounds alike. A finite double is stored as an integer number of units of `2^-1074`. -/

namespace CredaCash
open Rounding

/-- The largest finite double, in units of `2^-1074`. -/
def dblMax : ℕ := (2^53 - 1) * 2^2045

/-- The magnitudes of the finite doubles. -/
def IsDouble (n : ℕ) : Prop := n ≤ dblMax ∧ 2^excess 53 n ∣ n

@[ext] structure UniFloat where
  val : ℤ
  isDouble : IsDouble val.natAbs

structure UniFloatTuple where
  mant : ℕ
  exp : ℤ
  sign : SignType
  deriving DecidableEq

lemma isDouble_of_le {n : ℕ} (h : n ≤ 2^53) : IsDouble n := by
  refine ⟨h.trans (by decide +kernel), ?_⟩
  rcases h.eq_or_lt with rfl | hlt
  · decide
  · have : excess 53 n = 0 := by
      have := bitLength_le_iff.2 hlt
      unfold excess
      omega
    simp [this]

lemma isDouble_mul_pow {n : ℕ} (h : n ≤ 2^53) (k : ℕ) (hmax : n * 2^k ≤ dblMax) :
    IsDouble (n * 2^k) := by
  refine ⟨hmax, ?_⟩
  rcases Nat.eq_zero_or_pos n with rfl | hn
  · simp
  rcases h.eq_or_lt with rfl | hlt
  · rw [← pow_add]
    refine pow_dvd_pow 2 ?_
    have := bitLength_le_iff.2 (Nat.pow_lt_pow_right (by norm_num : 1 < 2) (Nat.lt_succ_self (53 + k)))
    unfold excess
    omega
  · refine Dvd.dvd.mul_left (pow_dvd_pow 2 ?_) n
    have := bitLength_le_iff.2 hlt
    unfold excess
    rw [bitLength_mul_pow hn]
    omega

lemma isDouble_dblMax : IsDouble dblMax :=
  isDouble_mul_pow (by norm_num) 2045 le_rfl

lemma isDouble_min {n : ℕ} (h : n ≤ dblMax → IsDouble n) : IsDouble (min n dblMax) := by
  rcases le_total n dblMax with hle | hle
  · rw [min_eq_left hle]
    exact h hle
  · rw [min_eq_right hle]
    exact isDouble_dblMax

/-- Conversion of a 64-bit integer to `double`, ties to even. -/
def toDouble (mant : ℕ) : ℕ := halfEven mant (excess 53 mant) * 2^excess 53 mant

/-- `ldexp((double)mant, exp)` in units of `2^-1074`, an infinite result becoming `DBL_MAX`. -/
def ldexp (mant : ℕ) (exp : ℤ) : ℕ :=
  if 0 ≤ exp + 1074 then min (toDouble mant * 2^(exp + 1074).toNat) dblMax
  else min (halfEven (toDouble mant) (-(exp + 1074)).toNat) dblMax

lemma halfEven_excess_le (n : ℕ) : halfEven n (excess 53 n) ≤ 2^53 := by
  rw [halfEven_le_iff, if_pos (by norm_num)]
  have h := lt_pow_bitLength n
  have : 2^bitLength n ≤ 2^53 * 2^excess 53 n := by
    rw [← pow_add]
    exact Nat.pow_le_pow_right (by norm_num) (by unfold excess; omega)
  nlinarith [Nat.zero_le (2^excess 53 n)]

lemma halfEven_mul_pow {m k j : ℕ} (h : k ≤ j) : halfEven (m * 2^j) k = m * 2^(j-k) := by
  have hj : m * 2^j = 2^k * (m * 2^(j-k)) := by
    rw [mul_left_comm, ← pow_add]
    congr 2
    omega
  unfold halfEven
  have : 0 < 2^k := by positivity
  rw [hj, Nat.mul_mod_right, Nat.mul_div_cancel_left _ this, if_neg (by omega)]

lemma halfEven_mul_pow_le {m k j : ℕ} (h : j ≤ k) (hm : m ≤ 2^53) : halfEven (m * 2^j) k ≤ 2^53 := by
  rw [halfEven_le_iff, if_pos (by norm_num)]
  have : 2^j ≤ 2^k := Nat.pow_le_pow_right (by norm_num) h
  nlinarith [Nat.zero_le (2^j)]

lemma ldexp_isDouble (mant : ℕ) (exp : ℤ) : IsDouble (ldexp mant exp) := by
  unfold ldexp toDouble
  split_ifs with h
  · refine isDouble_min fun hmax => ?_
    rw [mul_assoc, ← pow_add] at hmax ⊢
    exact isDouble_mul_pow (halfEven_excess_le mant) _ hmax
  · refine isDouble_min fun hmax => ?_
    rcases le_total (-(exp + 1074)).toNat (excess 53 mant) with hle | hle
    · rw [halfEven_mul_pow hle] at hmax ⊢
      exact isDouble_mul_pow (halfEven_excess_le mant) _ hmax
    · exact isDouble_of_le (halfEven_mul_pow_le hle (halfEven_excess_le mant))

/-- `floor`, `ceil` or `round` of `n / 2^k`. -/
def roundBy (rounding : ℤ) (n k : ℕ) : ℕ :=
  if rounding < 0 then n / 2^k
  else if 0 < rounding then (n + (2^k - 1)) / 2^k
  else halfUp n k

/-- `Shift`: drop the low `shift` bits of a mantissa. -/
def shift (v shift : ℕ) (rounding : ℤ) : ℕ :=
  if rounding < 0 ∨ shift = 0 then v >>> shift
  else if 0 < rounding then
    if v &&& (2^shift - 1) = 0 then v >>> shift else (v >>> shift) + 1
  else if v.testBit (shift - 1) then (v >>> shift) + 1 else v >>> shift

/-- `Normalize`: the shift is the least one that brings the mantissa below `2^52`. -/
def normalize (mant : ℕ) (x : UniFloatTuple) (rounding : ℤ) : UniFloatTuple :=
  { x with mant := shift mant (excess 52 mant) rounding, exp := x.exp + excess 52 mant }

def signOf (v : ℤ) : SignType := if 0 < v then 1 else if v < 0 then -1 else 0

namespace UniFloat

instance : DecidableEq UniFloat := fun a b =>
  decidable_of_iff (a.val = b.val) UniFloat.ext_iff.symm

instance : LinearOrder UniFloat := LinearOrder.lift' val fun _ _ h => UniFloat.ext h

instance : Zero UniFloat := ⟨⟨0, isDouble_of_le (by norm_num)⟩⟩

instance : One UniFloat := ⟨⟨(1*2^1074 : ℕ), isDouble_mul_pow (by norm_num) 1074 (by decide +kernel)⟩⟩

instance : Neg UniFloat := ⟨fun a => ⟨-a.val, by simpa using a.isDouble⟩⟩

/-- `DBL_MAX`. -/
def max : UniFloat := ⟨dblMax, isDouble_dblMax⟩

theorem le_iff {a b : UniFloat} : a ≤ b ↔ a.val ≤ b.val := Iff.rfl
theorem lt_iff {a b : UniFloat} : a < b ↔ a.val < b.val := Iff.rfl

@[simp] theorem val_zero : (0 : UniFloat).val = 0 := rfl
theorem val_one : (1 : UniFloat).val = (1*2^1074 : ℕ) := rfl
@[simp] theorem val_neg (a : UniFloat) : (-a).val = -a.val := rfl
@[simp] theorem val_max : max.val = dblMax := rfl

def decompose (v : UniFloat) (nbits : ℕ) (rounding : ℤ) : UniFloatTuple :=
  let m := v.val.natAbs
  if m = 0 then ⟨0, 0, 0⟩ else
    let len := bitLength m
    -- `frexp` puts the binary point before the first digit
    let y := if len ≤ nbits then m * 2^(nbits - len) else roundBy rounding m (len - nbits)
    let exp : ℤ := len - nbits - 1074
    if y < 2^nbits then ⟨y, exp, signOf v.val⟩
    else ⟨roundBy rounding m (len - nbits + 1), exp + 1, signOf v.val⟩

def recompose (x : UniFloatTuple) : UniFloat :=
  ⟨x.sign * ldexp x.mant x.exp, by
    rcases x with ⟨m, e, s⟩
    cases s with
    | zero => simpa using isDouble_of_le (Nat.zero_le _)
    | neg => simpa using ldexp_isDouble m e
    | pos => simpa using ldexp_isDouble m e⟩

/-- The constructor `UniFloat(double v, int rounding)`, which keeps 52 bits. -/
def ofDouble (v : UniFloat) (rounding : ℤ) : UniFloat := recompose (decompose v 52 rounding)

def applySign (sign : ℤ) (a : UniFloat) : UniFloat :=
  if 0 < sign then a else if sign < 0 then -a else 0

/-- Check that `a ≤ b`, with an allowance for rounding errors. -/
def checkLE (a b : UniFloat) : Bool :=
  let v := decompose b 52 0
  a ≤ recompose { v with mant := v.mant + 2 }

def checkGE (a b : UniFloat) : Bool := checkLE b a

/-- The sum of two non-zero operands: the smaller one is shifted to the larger exponent. -/
def addTuples (v x : UniFloatTuple) (rounding : ℤ) : UniFloatTuple :=
  let diff := v.exp - x.exp
  let vm := if diff < 0 then shift v.mant (-diff).toNat rounding else v.mant
  let xm := if 0 < diff then shift x.mant diff.toNat rounding else x.mant
  let y : ℤ := v.sign * vm + x.sign * xm
  normalize y.natAbs ⟨0, Max.max v.exp x.exp, signOf y⟩ rounding

def add (a b : UniFloat) (rounding : ℤ) (average : Bool) : UniFloat :=
  let v := decompose a 62 0
  let x := decompose b 62 0
  let diff := if v.mant ≠ 0 ∧ x.mant ≠ 0 then v.exp - x.exp else 0
  let v :=
    if x.mant = 0 ∨ 62 ≤ diff then v
    else if v.mant = 0 ∨ 62 ≤ -diff then x
    else addTuples v x rounding
  recompose (if average then { v with exp := v.exp - 1 } else v)

def average (a b : UniFloat) (rounding : ℤ) : UniFloat := add a b rounding true

def multiply (a b : UniFloat) (rounding : ℤ) : UniFloat :=
  let v := decompose a 63 0
  let x := decompose b 63 0
  recompose (normalize (v.mant * x.mant) ⟨0, v.exp + x.exp, v.sign * x.sign⟩ rounding)

/-- The quotient of two 63-bit mantissas, to 64 more bits. -/
def quotient (v x : ℕ) (rounding : ℤ) : ℕ :=
  (v * 2^64 + (if rounding = 0 then (x + 1)/2 else if 0 < rounding then x - 1 else 0)) / x

def divide (a b : UniFloat) (rounding : ℤ) : UniFloat :=
  let v := decompose a 63 0
  let x := decompose b 63 (-rounding)
  if x.mant = 0 then if v.sign < 0 then -max else max
  else recompose (normalize (quotient v.mant x.mant rounding)
    ⟨0, v.exp - (x.exp + 64), v.sign * x.sign⟩ rounding)

/-- The squarings of `Power`, which consumes one bit of the exponent in each turn. -/
def powerLoop : ℕ → UniFloat → UniFloat → ℕ → UniFloat
  | 0, v, _, _ => v
  | fuel+1, v, fac, b =>
    let v := if b % 2 = 1 then multiply v fac 0 else v
    if b / 2 = 0 then v else powerLoop fuel v (multiply fac fac 0) (b / 2)

def power (a : UniFloat) (b : ℤ) : UniFloat :=
  if b < 0 then 0 else if b = 0 then 1 else powerLoop b.toNat 1 a b.toNat

/-- `WireDecode` with no increment: 11 bits of exponent and 21 of mantissa. -/
def wireDecode (v : ℕ) : UniFloat :=
  if v = 0 then 0
  else recompose ⟨v % 2^21 + 2^21, (v / 2^21 : ℕ) - 1024 - 21, 1⟩

end UniFloat
end CredaCash
