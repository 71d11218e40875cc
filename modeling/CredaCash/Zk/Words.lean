import CredaCash.Zk.ExtractBits
import CredaCash.Chain.TxOutputs
import Mathlib.Data.BitVec
import Mathlib.Data.Nat.Size

/-! The words of the circuit, which are variables with the bits that they are broken into, and the checks of words. -/

namespace CredaCash.Zk
open Chain Circuit FieldBits PlaceValue

/-- The variable of a truth value. -/
def zkBit (b : Bool) : ZkVar := if b then 1 else 0

@[simp] lemma zkBit_true : zkBit true = 1 := rfl

@[simp] lemma zkBit_false : zkBit false = 0 := rfl

@[simp] lemma zkBit_inj {b b' : Bool} : zkBit b = zkBit b' ↔ b = b' := by
  cases b <;> cases b' <;> simp

@[simp] lemma zkBit_eq_zero {b : Bool} : zkBit b = 0 ↔ b = false := by cases b <;> simp [zkBit]

@[simp] lemma zkBit_eq_one {b : Bool} : zkBit b = 1 ↔ b = true := by cases b <;> simp [zkBit]

lemma addBooleanity_allows_iff {x : ZkVar} {u : Unit} : (addBooleanity x).Allows u ↔ ∃ b, x = zkBit b := by
  rw [addBooleanity_allows, Bool.exists_bool, zkBit_false, zkBit_true]

/-- A check that counts only where a flag is set. -/
@[simp] lemma mul_zkBit_eq_zero {x : ZkVar} {b : Bool} : x * zkBit b = 0 ↔ (b = true → x = 0) := by
  cases b <;> simp

@[simp] lemma zkBit_mul_eq_zero {x : ZkVar} {b : Bool} : zkBit b * x = 0 ↔ (b = true → x = 0) := by
  rw [mul_comm, mul_zkBit_eq_zero]

lemma one_sub_zkBit (b : Bool) : 1 - zkBit b = zkBit (!b) := by
  cases b <;> simp

lemma zkBit_mul_zkBit (a b : Bool) : zkBit a * zkBit b = zkBit (a && b) := by
  cases a <;> cases b <;> simp

/-- A variable and its bits. -/
structure ZkWord where
  var : ZkVar
  bits : List ZkVar

/-- The word of a number. -/
def word {n : ℕ} (v : BitVec n) : ZkWord := ⟨v.toNat, zkBits n v.toNat⟩

/-- `extractBits` without anything left, for a variable that keeps its bits. -/
def breakout (x : ZkVar) (nbits : ℕ) : ZkCircuit ZkWord := do
  let e ← extractBits x x.val nbits false false
  return ⟨x, e.bits⟩

section Breakout
variable {x : ZkVar} {n : ℕ} {w : ZkWord}

lemma exists_bitVec {P : ℕ → Prop} : (∃ v : ℕ, v < 2^n ∧ P v) ↔ ∃ v : BitVec n, P v.toNat := by
  constructor
  · rintro ⟨v, hv, h⟩
    exact ⟨BitVec.ofNat n v, by rwa [BitVec.toNat_ofNat, Nat.mod_eq_of_lt hv]⟩
  · rintro ⟨v, h⟩
    exact ⟨v.toNat, v.isLt, h⟩

lemma breakout_allows : (breakout x n).Allows w ↔ ∃ v : BitVec n, (v.toNat : ZkVar) = x ∧ w = word v := by
  refine Iff.trans ?_ (exists_bitVec (P := fun v => (v : ZkVar) = x ∧ w = ⟨(v : ZkVar), zkBits n v⟩))
  simp only [breakout, allows_bind, extractBits_allows_plain, allows_pure]
  constructor
  · rintro ⟨e, ⟨v, hv, hx, he⟩, hw⟩
    exact ⟨v, hv, hx, by rw [hw, he, hx]⟩
  · rintro ⟨v, hv, hx, hw⟩
    exact ⟨_, ⟨v, hv, hx, rfl⟩, by rw [hw, hx]⟩

lemma natCast_toNat_inj (hn : n ≤ 253) {v v' : BitVec n} : (v.toNat : ZkVar) = v'.toNat ↔ v = v' := by
  rw [natCast_inj_of_lt (p := fieldPrime) (lt_fieldPrime v.isLt hn) (lt_fieldPrime v'.isLt hn), BitVec.toNat_inj]

lemma natCast_toNat_eq_zero (hn : n ≤ 253) {v : BitVec n} : (v.toNat : ZkVar) = 0 ↔ v = 0 := by
  rw [natCast_eq_zero_of_lt (p := fieldPrime) (lt_fieldPrime v.isLt hn), ← BitVec.toNat_inj, BitVec.ofNat_eq_ofNat,
    BitVec.toNat_ofNat, Nat.zero_mod]

/-- A word of 253 bits or fewer has the bits of its variable. -/
lemma breakout_allows_of_eq (hn : n ≤ 253) {v : BitVec n} (hx : x = v.toNat) :
    (breakout x n).Allows w ↔ w = word v := by
  rw [breakout_allows]
  constructor
  · rintro ⟨v', hv', hw⟩
    rw [hw, (natCast_toNat_inj hn).1 (hv'.trans hx)]
  · exact fun hw => ⟨v, hx.symm, hw⟩

lemma word_bits_getD {v : BitVec n} {i : ℕ} (hi : i < n) : (word v).bits.getD i 0 = zkBit (v.getLsbD i) := by
  rw [word, zkBits, bits_getD hi, BitVec.getLsbD, Nat.testBit_eq_decide_div_mod_eq]
  rcases Nat.mod_two_eq_zero_or_one (v.toNat / 2^i) with h | h <;> simp [h]

end Breakout

section Compare

def checkGreaterequal (a b : ZkVar) (nbits : ℕ) (orZero : Option ZkVar) : ZkCircuit Unit := do
  let diff ← extractBits (a - b) (a - b).val nbits true false
  let rem := diff.rem.getD 0
  constrainZero (orZero.elim rem (rem * ·))

def checkAnd (val a b : List ZkVar) : ZkCircuit Unit :=
  forM (List.range val.length) fun i => constrainZero (a.getD i 0 * b.getD i 0 - val.getD i 0)

def checkXor (val a b : List ZkVar) : ZkCircuit Unit :=
  forM (List.range val.length) fun i =>
    constrainZero (a.getD i 0 + b.getD i 0 - a.getD i 0 * b.getD i 0 * (2 : ℕ) - val.getD i 0)

/-- The product of a variable with the complements of some of the bits of a word. -/
def mulClear (x : ZkVar) (bits : List ZkVar) (indexes : List ℕ) : ZkVar :=
  indexes.foldl (fun x i => x * (1 - bits.getD i 0)) x

/-- The indexes of the bits of a mask. -/
def maskBits (mask : ℕ) : List ℕ := (List.range mask.size).filter (mask.testBit ·)

/-- The sum of powers of two for bits. -/
def sumBits (bits : List ZkVar) : ZkVar := weighted powerOfTwo bits

def computeIntegerAmount (amountFpBits : List ZkVar) : ZkVar :=
  -- 0 if all exponent bits are 0, and 1 if any exponent bit is 1
  let hidden := 1 - mulClear 1 amountFpBits (List.range txAmountExponentBits)
  let mantissa := hidden + sumBits (amountFpBits.drop txAmountExponentBits)
  (List.range txAmountExponentBits).foldl (fun amount i =>
    amount * (amountFactor (2^i) * amountFpBits.getD i 0 + (1 - amountFpBits.getD i 0))) mantissa

variable {n : ℕ}

/-- The check of two numbers of the field width. -/
lemma checkGreaterequal_allows {a b : ℕ} {z : Option ZkVar} {u : Unit} (hn : n ≤ 252) (ha : a < 2^n) (hb : b < 2^n) :
    (checkGreaterequal a b n z).Allows u ↔ z = some 0 ∨ b ≤ a := by
  have hsum : 2^n + 2^n ≤ fieldPrime := by
    have hle : 2^n ≤ 2^252 := Nat.pow_le_pow_right two_pos hn
    have := two_pow_253_lt
    omega
  simp only [checkGreaterequal, allows_bind, extractBits_allows_rem, allows_constrainZero]
  rw [← exists_natCast_eq_sub (F := ZkVar) (p := fieldPrime) hsum ha hb]
  constructor
  · rintro ⟨e, ⟨v, rem, hv, hdiff, he⟩, hzero⟩
    rw [he, Option.getD_some] at hzero
    have hrem : z = some 0 ∨ rem = 0 := by
      cases z with
      | none => exact .inr hzero
      | some z => exact (mul_eq_zero.1 hzero).symm.imp (congrArg some) id
    refine hrem.imp id fun h => ⟨v, hv, ?_⟩
    rw [← hdiff, h, zero_mul, add_zero]
  · rintro (hz | ⟨v, hv, hdiff⟩)
    · refine ⟨_, ⟨0, (a - b) / 2^n, Nat.two_pow_pos n, ?_, rfl⟩, ?_⟩
      · rw [Nat.cast_zero, zero_add, div_mul_cancel₀ _ (two_pow_ne_zero n)]
      · rw [hz, Option.elim_some, mul_zero]
    · refine ⟨_, ⟨v, 0, hv, by rw [zero_mul, add_zero, hdiff], rfl⟩, ?_⟩
      cases z <;> simp

variable {v a b : BitVec n} {u : Unit} {x : ZkVar}

lemma length_word_bits : (word v).bits.length = n := length_bits

lemma checkAnd_allows : (checkAnd (word v).bits (word a).bits (word b).bits).Allows u ↔ v = a &&& b := by
  simp only [checkAnd, allows_forM, allows_constrainZero, List.mem_range, length_word_bits]
  constructor
  · refine fun h => BitVec.eq_of_getLsbD_eq fun i hi => ?_
    have hbit := h i hi
    rw [word_bits_getD hi, word_bits_getD hi, word_bits_getD hi, zkBit_mul_zkBit, sub_eq_zero, zkBit_inj] at hbit
    rw [BitVec.getLsbD_and, hbit]
  · rintro rfl i hi
    rw [word_bits_getD hi, word_bits_getD hi, word_bits_getD hi, zkBit_mul_zkBit, BitVec.getLsbD_and, sub_self]

lemma zkBit_xor (a b : Bool) : zkBit a + zkBit b - zkBit a * zkBit b * (2 : ℕ) = zkBit (a ^^ b) := by
  cases a <;> cases b <;> norm_num

lemma checkXor_allows : (checkXor (word v).bits (word a).bits (word b).bits).Allows u ↔ v = a ^^^ b := by
  simp only [checkXor, allows_forM, allows_constrainZero, List.mem_range, length_word_bits]
  constructor
  · refine fun h => BitVec.eq_of_getLsbD_eq fun i hi => ?_
    have hbit := h i hi
    rw [word_bits_getD hi, word_bits_getD hi, word_bits_getD hi, zkBit_xor, sub_eq_zero, zkBit_inj] at hbit
    rw [BitVec.getLsbD_xor, hbit]
  · rintro rfl i hi
    rw [word_bits_getD hi, word_bits_getD hi, word_bits_getD hi, zkBit_xor, BitVec.getLsbD_xor, sub_self]

/-- The product is that with zero unless the bits are all clear. -/
lemma mulClear_eq {indexes : List ℕ} (h : ∀ i ∈ indexes, i < n) : mulClear x (word v).bits indexes =
    x * zkBit (indexes.all fun i => !v.getLsbD i) := by
  induction indexes generalizing x with
  | nil => simp [mulClear]
  | cons i indexes ih =>
    obtain ⟨hi, hrest⟩ := List.forall_mem_cons.1 h
    have hstep := ih (x := x * (1 - (word v).bits.getD i 0)) hrest
    rw [mulClear] at hstep ⊢
    rw [List.foldl_cons, hstep, word_bits_getD hi, one_sub_zkBit, mul_assoc, zkBit_mul_zkBit, List.all_cons]

/-- The bits of a mask are all clear. -/
lemma mulClear_maskBits {mask : ℕ} (h : mask < 2^n) : mulClear x (word v).bits (maskBits mask) =
    x * zkBit (v.toNat &&& mask = 0) := by
  have hlt : ∀ i ∈ maskBits mask, i < n := fun i hi =>
    (List.mem_range.1 (List.mem_filter.1 hi).1).trans_le (Nat.size_le.2 h)
  rw [mulClear_eq hlt]
  congr 2
  rw [Bool.eq_iff_iff, List.all_eq_true, decide_eq_true_iff]
  constructor
  · intro hall
    refine Nat.eq_of_testBit_eq fun i => ?_
    rw [Nat.testBit_and, Nat.zero_testBit, Bool.and_eq_false_iff]
    by_cases hmask : mask.testBit i = true
    · have hlt : i < mask.size := Nat.lt_size.2 (Nat.ge_two_pow_of_testBit hmask)
      have hi : i ∈ maskBits mask := List.mem_filter.2 ⟨List.mem_range.2 hlt, hmask⟩
      exact .inl (Bool.not_eq_true' _ ▸ hall i hi)
    · exact .inr (Bool.eq_false_iff.2 hmask)
  · intro hzero i hi
    have hbit := congrArg (Nat.testBit · i) hzero
    simp only [Nat.testBit_and, Nat.zero_testBit, (List.mem_filter.1 hi).2, Bool.and_true] at hbit
    exact Bool.not_eq_true' _ ▸ hbit

/-- All of the lower bits are clear. -/
lemma mulClear_range {m : ℕ} (h : m ≤ n) : mulClear x (word v).bits (List.range m) = x * zkBit (v.toNat % 2^m = 0) := by
  rw [mulClear_eq fun i hi => (List.mem_range.1 hi).trans_le h]
  congr 2
  rw [Bool.eq_iff_iff, List.all_eq_true, decide_eq_true_iff]
  constructor
  · refine fun hall => Nat.eq_of_testBit_eq fun i => ?_
    rw [Nat.testBit_mod_two_pow, Nat.zero_testBit, Bool.and_eq_false_iff, decide_eq_false_iff_not]
    by_cases hi : i < m
    · exact .inr (Bool.not_eq_true' _ ▸ hall i (List.mem_range.2 hi))
    · exact .inl hi
  · intro hzero i hi
    have hbit := congrArg (Nat.testBit · i) hzero
    simp only [Nat.testBit_mod_two_pow, Nat.zero_testBit, List.mem_range.1 hi, decide_true, Bool.true_and] at hbit
    exact Bool.not_eq_true' _ ▸ hbit

lemma sumBits_take {m : ℕ} (h : m ≤ n) : sumBits ((word v).bits.take m) = ((v.toNat % 2^m : ℕ) : ZkVar) := by
  rw [sumBits, powerOfTwo_eq, word, zkBits, bits_take h, ← zkBits, weighted_zkBits]

lemma sumBits_drop {m : ℕ} (h : m ≤ n) : sumBits ((word v).bits.drop m) = ((v.toNat / 2^m : ℕ) : ZkVar) := by
  have hlt : v.toNat / 2^m < 2^(n - m) := by
    rw [Nat.div_lt_iff_lt_mul (Nat.two_pow_pos m), ← pow_add, Nat.sub_add_cancel h]
    exact v.isLt
  rw [sumBits, powerOfTwo_eq, word, zkBits, bits_drop, weighted_bits hlt]

/-- The circuit computes the amount that the wallet and the node decode. -/
theorem computeIntegerAmount_eq (amount : BitVec txAmountBits) :
    computeIntegerAmount (word amount).bits = (txAmountDecode amount.toNat : ZkVar) := by
  have hle : txAmountExponentBits ≤ txAmountBits := by decide
  have hhidden : 1 - mulClear 1 (word amount).bits (List.range txAmountExponentBits) =
      ((if 0 < amount.toNat % 2^txAmountExponentBits then 1 else 0 : ℕ) : ZkVar) := by
    rw [mulClear_range hle, one_mul, one_sub_zkBit]
    rcases Nat.eq_zero_or_pos (amount.toNat % 2^txAmountExponentBits) with h | h
    · simp [h]
    · simp [h, h.ne']
  have hbits : ∀ i < txAmountExponentBits,
      (word amount).bits.getD i 0 = ((amount.toNat / 2^i % 2 : ℕ) : ZkVar) := fun i hi =>
    bits_getD (hi.trans_le hle)
  simp only [computeIntegerAmount, amountFactor, Nat.cast_pow, Nat.cast_ofNat]
  rw [foldl_powers 10 _ hbits, hhidden, sumBits_drop hle, txAmountDecode, amountFactor]
  push_cast
  ring

end Compare

end CredaCash.Zk
