import CredaCash.Amounts.Packed
import CredaCash.Words

/-! Shifts, masks and bit tests of a `bigint_t`, word by word and in place. -/

namespace CredaCash.Amounts
open Words

/-- `numberLimbs()`. -/
def numberLimbs : ℕ := 4

/-- The bits of a word. -/
def bpl : UInt32 := 64

namespace Bigint

/-- `BIGWORD`, which exists for the words of the value only. -/
def word (x : Bigint) : ℕ → Option UInt64
  | 0 => some x.word0
  | 1 => some x.word1
  | 2 => some x.word2
  | 3 => some x.word3
  | _ => none

/-- An assignment to a `BIGWORD`. -/
def setWord (x : Bigint) (i : ℕ) (w : UInt64) : Option Bigint :=
  match i with
  | 0 => some { x with word0 := w }
  | 1 => some { x with word1 := w }
  | 2 => some { x with word2 := w }
  | 3 => some { x with word3 := w }
  | _ => none

end Bigint

/-- Shifts of a word, which are undefined from the width of the word on. -/
def wordShl (w : UInt64) (n : UInt32) : Option UInt64 := if n < bpl then some (w <<< n.toUInt64) else none
def wordShr (w : UInt64) (n : UInt32) : Option UInt64 := if n < bpl then some (w >>> n.toUInt64) else none

def bigintBit (x : Bigint) (bit : UInt32) : Option Bool := do
  let word := bit / bpl
  let shift := bit - word * bpl
  if word.toInt32 < 4 then return ((← x.word word.toNat) &&& (← wordShl 1 shift)) != 0 else return false

/-- A turn of the outer loop of `bigint_shift_up`: every word moves to the next place. -/
def moveWordsUp (x : Bigint) : Option Bigint := do
  let x ← (List.range' 1 (numberLimbs - 1)).reverse.foldlM (fun x i => do x.setWord i (← x.word (i - 1))) x
  x.setWord 0 0

/-- A turn of the last loop of `bigint_shift_up`. -/
def shiftWordUp (nbits : UInt32) (x : Bigint) (i : ℕ) : Option Bigint := do
  let x ← x.setWord i (← wordShl (← x.word i) nbits)
  if i ≠ 0 then x.setWord i ((← x.word i) ||| (← wordShr (← x.word (i - 1)) (bpl - nbits))) else return x

lemma toNat_bpl : bpl.toNat = 64 := rfl

lemma bpl_le_iff {n : UInt32} : bpl ≤ n ↔ 64 ≤ n.toNat := by rw [UInt32.le_iff_toNat_le, toNat_bpl]

lemma toNat_sub_bpl {n : UInt32} (h : bpl ≤ n) : (n - bpl).toNat = n.toNat - 64 := by
  rw [UInt32.toNat_sub_of_le n bpl h, toNat_bpl]

lemma toNat_sub_bpl_lt {n : UInt32} (h : bpl ≤ n) : (n - bpl).toNat < n.toNat := by
  have hle := bpl_le_iff.1 h
  rw [toNat_sub_bpl h]
  omega

def bigintShiftUp (x : Bigint) (nbits : UInt32) : Option Bigint :=
  if _ : bpl ≤ nbits then do bigintShiftUp (← moveWordsUp x) (nbits - bpl)
  else if nbits = 0 then return x
  else (List.range numberLimbs).reverse.foldlM (shiftWordUp nbits) x
termination_by nbits.toNat
decreasing_by exact toNat_sub_bpl_lt ‹_›

/-- A turn of the outer loop of `bigint_shift_down`. -/
def moveWordsDown (x : Bigint) : Option Bigint := do
  let x ← (List.range (numberLimbs - 1)).foldlM (fun x i => do x.setWord i (← x.word (i + 1))) x
  x.setWord (numberLimbs - 1) 0

/-- A turn of the last loop of `bigint_shift_down`. -/
def shiftWordDown (nbits : UInt32) (x : Bigint) (i : ℕ) : Option Bigint := do
  let x ← x.setWord i (← wordShr (← x.word i) nbits)
  if i < numberLimbs - 1 then x.setWord i ((← x.word i) ||| (← wordShl (← x.word (i + 1)) (bpl - nbits))) else return x

def bigintShiftDown (x : Bigint) (nbits : UInt32) : Option Bigint :=
  if _ : bpl ≤ nbits then do bigintShiftDown (← moveWordsDown x) (nbits - bpl)
  else if nbits = 0 then return x
  else (List.range numberLimbs).foldlM (shiftWordDown nbits) x
termination_by nbits.toNat
decreasing_by exact toNat_sub_bpl_lt ‹_›

/-- A turn of the loop of `bigint_mask`, whose products are 32-bit. -/
def maskWord (nbits : UInt32) (x : Bigint) (i : ℕ) : Option Bigint :=
  if nbits ≤ UInt32.ofNat i * bpl then x.setWord i 0
  else if nbits < (UInt32.ofNat i + 1) * bpl then do
    let mask := (← wordShl 1 (nbits - UInt32.ofNat i * bpl)) - 1
    x.setWord i ((← x.word i) &&& mask)
  else return x

def bigintMask (x : Bigint) (nbits : UInt32) : Option Bigint := (List.range numberLimbs).foldlM (maskWord nbits) x

namespace Bigint

/-- The words as numbers. -/
def words (x : Bigint) (i : ℕ) : ℕ := ((x.word i).getD 0).toNat

lemma words_lt (x : Bigint) (i : ℕ) : x.words i < 2^64 := UInt64.toNat_lt _

lemma val_eq_value (x : Bigint) : x.val = value 64 x.words numberLimbs := by
  simp only [val, value, numberLimbs, words, word, Option.getD_some]
  omega

/-- Words that are those of a number give it. -/
lemma val_eq_of_words {x : Bigint} {g : ℕ → ℕ} (h0 : x.word0.toNat = g 0) (h1 : x.word1.toNat = g 1)
    (h2 : x.word2.toNat = g 2) (h3 : x.word3.toNat = g 3) : x.val = value 64 g numberLimbs := by
  simp only [val, value, numberLimbs, ← h0, ← h1, ← h2, ← h3]
  omega

end Bigint

lemma wordShl_of_lt (w : UInt64) {n : UInt32} (h : n.toNat < 64) :
    ∃ v, wordShl w n = some v ∧ v.toNat = w.toNat * 2^n.toNat % 2^64 := by
  refine ⟨w <<< n.toUInt64, if_pos (UInt32.lt_iff_toNat_lt.2 h), ?_⟩
  rw [UInt64.toNat_shiftLeft, UInt32.toNat_toUInt64, Nat.mod_eq_of_lt h, Nat.shiftLeft_eq]

lemma wordShr_of_lt (w : UInt64) {n : UInt32} (h : n.toNat < 64) :
    ∃ v, wordShr w n = some v ∧ v.toNat = w.toNat / 2^n.toNat := by
  refine ⟨w >>> n.toUInt64, if_pos (UInt32.lt_iff_toNat_lt.2 h), ?_⟩
  rw [UInt64.toNat_shiftRight, UInt32.toNat_toUInt64, Nat.mod_eq_of_lt h, Nat.shiftRight_eq_div_pow]

lemma moveWordsUp_eq (x : Bigint) : moveWordsUp x = some ⟨0, x.word0, x.word1, x.word2⟩ := rfl

lemma moveWordsDown_eq (x : Bigint) : moveWordsDown x = some ⟨x.word1, x.word2, x.word3, 0⟩ := rfl

lemma exists_moveWordsUp (x : Bigint) : ∃ y, moveWordsUp x = some y ∧ y.val = x.val * 2^64 % 2^256 := by
  refine ⟨_, moveWordsUp_eq x, ?_⟩
  have h0 := x.word0.toNat_lt
  have h1 := x.word1.toNat_lt
  have h2 := x.word2.toNat_lt
  simp only [Bigint.val, UInt64.toNat_zero]
  omega

lemma exists_moveWordsDown (x : Bigint) : ∃ y, moveWordsDown x = some y ∧ y.val = x.val / 2^64 := by
  refine ⟨_, moveWordsDown_eq x, ?_⟩
  have h0 := x.word0.toNat_lt
  simp only [Bigint.val, UInt64.toNat_zero]
  omega

/-- The last loop of `bigint_shift_up`: downwards, so that a word still finds the one below it as it was. -/
lemma exists_shiftWordsUp (x : Bigint) {n : UInt32} (h0 : n ≠ 0) (h : n.toNat < 64) :
    ∃ y, (List.range numberLimbs).reverse.foldlM (shiftWordUp n) x = some y ∧ y.val = x.val * 2^n.toNat % 2^256 := by
  have hpos : 0 < n.toNat := Nat.pos_of_ne_zero fun hz => h0 (UInt32.toNat_inj.1 hz)
  have hsub : (bpl - n).toNat = 64 - n.toNat :=
    UInt32.toNat_sub_of_le bpl n (UInt32.le_iff_toNat_le.2 (by rw [toNat_bpl]; omega))
  obtain ⟨a0, ha0, hv0⟩ := wordShl_of_lt x.word0 h
  obtain ⟨a1, ha1, hv1⟩ := wordShl_of_lt x.word1 h
  obtain ⟨a2, ha2, hv2⟩ := wordShl_of_lt x.word2 h
  obtain ⟨a3, ha3, hv3⟩ := wordShl_of_lt x.word3 h
  have hlt : (bpl - n).toNat < 64 := by omega
  obtain ⟨b0, hb0, hc0⟩ := wordShr_of_lt x.word0 hlt
  obtain ⟨b1, hb1, hc1⟩ := wordShr_of_lt x.word1 hlt
  obtain ⟨b2, hb2, hc2⟩ := wordShr_of_lt x.word2 hlt
  refine ⟨⟨a0, a1 ||| b0, a2 ||| b1, a3 ||| b2⟩, ?_, ?_⟩
  · simp [numberLimbs, List.range_succ, shiftWordUp, Bigint.word, Bigint.setWord, ha0, ha1, ha2, ha3, hb0, hb1, hb2]
  · rw [Bigint.val_eq_of_words (g := carriedUp 64 n.toNat x.words), value_carriedUp x.words_lt h.le, ← Bigint.val_eq_value]
    · rfl
    all_goals simp [Bigint.words, Bigint.word, carriedUp, UInt64.toNat_or, hv0, hv1, hv2, hv3, hc0, hc1, hc2, hsub]

/-- The last loop of `bigint_shift_down`, upwards for the same reason. -/
lemma exists_shiftWordsDown (x : Bigint) {n : UInt32} (h0 : n ≠ 0) (h : n.toNat < 64) :
    ∃ y, (List.range numberLimbs).foldlM (shiftWordDown n) x = some y ∧ y.val = x.val / 2^n.toNat := by
  have hpos : 0 < n.toNat := Nat.pos_of_ne_zero fun hz => h0 (UInt32.toNat_inj.1 hz)
  have hsub : (bpl - n).toNat = 64 - n.toNat :=
    UInt32.toNat_sub_of_le bpl n (UInt32.le_iff_toNat_le.2 (by rw [toNat_bpl]; omega))
  obtain ⟨a0, ha0, hv0⟩ := wordShr_of_lt x.word0 h
  obtain ⟨a1, ha1, hv1⟩ := wordShr_of_lt x.word1 h
  obtain ⟨a2, ha2, hv2⟩ := wordShr_of_lt x.word2 h
  obtain ⟨a3, ha3, hv3⟩ := wordShr_of_lt x.word3 h
  have hlt : (bpl - n).toNat < 64 := by omega
  obtain ⟨b1, hb1, hc1⟩ := wordShl_of_lt x.word1 hlt
  obtain ⟨b2, hb2, hc2⟩ := wordShl_of_lt x.word2 hlt
  obtain ⟨b3, hb3, hc3⟩ := wordShl_of_lt x.word3 hlt
  refine ⟨⟨a0 ||| b1, a1 ||| b2, a2 ||| b3, a3⟩, ?_, ?_⟩
  · simp [numberLimbs, List.range_succ, shiftWordDown, Bigint.word, Bigint.setWord, ha0, ha1, ha2, ha3, hb1, hb2, hb3]
  · rw [Bigint.val_eq_of_words (g := carriedDown 64 n.toNat numberLimbs x.words), value_carriedDown x.words_lt h.le,
      ← Bigint.val_eq_value]
    all_goals
      simp [Bigint.words, Bigint.word, carriedDown, numberLimbs, UInt64.toNat_or, hv0, hv1, hv2, hv3, hc1, hc2, hc3, hsub]

/-- Mask of the low bits of a word. -/
lemma toNat_and_low (w m : UInt64) {n : UInt32} (h : n.toNat < 64) (hm : m.toNat = (1 : UInt64).toNat * 2^n.toNat % 2^64) :
    (w &&& (m - 1)).toNat = w.toNat % 2^n.toNat := by
  have hlt : 2^n.toNat < 2^64 := Nat.pow_lt_pow_right (by decide) h
  rw [UInt64.toNat_one, Nat.one_mul, Nat.mod_eq_of_lt hlt] at hm
  have hle : (1 : UInt64) ≤ m := by
    rw [UInt64.le_iff_toNat_le, hm]
    exact Nat.one_le_two_pow
  rw [UInt64.toNat_and, UInt64.toNat_sub_of_le m 1 hle, hm, UInt64.toNat_one, Nat.and_two_pow_sub_one_eq_mod]

/-- A turn of the mask sets its word, or leaves it. -/
lemma exists_maskWord (n : UInt32) {i : ℕ} (hi : i < numberLimbs) {f : ℕ → ℕ} {w : UInt64} (hf : f i = w.toNat) :
    ∃ v : UInt64, v.toNat = masked 64 n.toNat f i ∧
      ∀ x : Bigint, x.word i = some w → x.setWord i w = some x → maskWord n x i = x.setWord i v := by
  have hmul : (UInt32.ofNat i * bpl).toNat = i * 64 := by
    unfold numberLimbs at hi
    rw [UInt32.toNat_mul, UInt32.toNat_ofNat', toNat_bpl]
    omega
  have hmul' : ((UInt32.ofNat i + 1) * bpl).toNat = (i + 1) * 64 := by
    unfold numberLimbs at hi
    rw [UInt32.toNat_mul, UInt32.toNat_add, UInt32.toNat_ofNat', toNat_bpl, UInt32.toNat_one]
    omega
  simp only [maskWord, masked, UInt32.le_iff_toNat_le, UInt32.lt_iff_toNat_lt, hmul, hmul', hf]
  split_ifs with hlow hcut
  · exact ⟨0, rfl, fun x _ _ => rfl⟩
  · have hsub : (n - UInt32.ofNat i * bpl).toNat = n.toNat - i * 64 := by
      rw [UInt32.toNat_sub_of_le _ _ (UInt32.le_iff_toNat_le.2 (by omega)), hmul]
    obtain ⟨m, hm, hv⟩ := wordShl_of_lt 1 (n := n - UInt32.ofNat i * bpl) (by omega)
    refine ⟨w &&& (m - 1), ?_, fun x hw _ => by simp [hm, hw]⟩
    rw [toNat_and_low w m (by omega) hv, hsub]
  · exact ⟨w, rfl, fun x _ hset => hset.symm⟩

lemma exists_bigintMask (x : Bigint) (n : UInt32) : ∃ y, bigintMask x n = some y ∧ y.val = x.val % 2^n.toNat := by
  obtain ⟨v0, hv0, h0⟩ := exists_maskWord n (i := 0) (by decide) (f := x.words) (w := x.word0) rfl
  obtain ⟨v1, hv1, h1⟩ := exists_maskWord n (i := 1) (by decide) (f := x.words) (w := x.word1) rfl
  obtain ⟨v2, hv2, h2⟩ := exists_maskWord n (i := 2) (by decide) (f := x.words) (w := x.word2) rfl
  obtain ⟨v3, hv3, h3⟩ := exists_maskWord n (i := 3) (by decide) (f := x.words) (w := x.word3) rfl
  refine ⟨⟨v0, v1, v2, v3⟩, ?_, ?_⟩
  · simp [bigintMask, numberLimbs, List.range_succ, h0, h1, h2, h3, Bigint.word, Bigint.setWord]
  · rw [Bigint.val_eq_of_words hv0 hv1 hv2 hv3, value_masked x.words_lt, ← Bigint.val_eq_value]

lemma exists_bigintShiftUp (x : Bigint) (n : UInt32) :
    ∃ y, bigintShiftUp x n = some y ∧ y.val = x.val * 2^n.toNat % 2^256 := by
  fun_induction bigintShiftUp x n with
  | case1 x n h ih =>
    obtain ⟨y, hy, hyv⟩ := exists_moveWordsUp x
    obtain ⟨z, hz, hzv⟩ := ih y
    refine ⟨z, by rw [hy]; exact hz, ?_⟩
    have hsplit : n.toNat = 64 + (n.toNat - 64) := by
      have hle := bpl_le_iff.1 h
      omega
    rw [hzv, hyv, toNat_sub_bpl h, Nat.mod_mul_mod, Nat.mul_assoc, ← Nat.pow_add, ← hsplit]
  | case2 x h =>
    refine ⟨x, rfl, ?_⟩
    rw [UInt32.toNat_zero, Nat.pow_zero, Nat.mul_one, Nat.mod_eq_of_lt x.val_lt]
  | case3 x n h h0 => exact exists_shiftWordsUp x h0 (not_le.1 fun hle => h (bpl_le_iff.2 hle))

lemma exists_bigintShiftDown (x : Bigint) (n : UInt32) :
    ∃ y, bigintShiftDown x n = some y ∧ y.val = x.val / 2^n.toNat := by
  fun_induction bigintShiftDown x n with
  | case1 x n h ih =>
    obtain ⟨y, hy, hyv⟩ := exists_moveWordsDown x
    obtain ⟨z, hz, hzv⟩ := ih y
    refine ⟨z, by rw [hy]; exact hz, ?_⟩
    have hsplit : n.toNat = 64 + (n.toNat - 64) := by
      have hle := bpl_le_iff.1 h
      omega
    rw [hzv, hyv, toNat_sub_bpl h, Nat.div_div_eq_div_mul, ← Nat.pow_add, ← hsplit]
  | case2 x h => exact ⟨x, rfl, (Nat.div_one _).symm⟩
  | case3 x n h h0 => exact exists_shiftWordsDown x h0 (not_le.1 fun hle => h (bpl_le_iff.2 hle))

/-- The comparison as `int` is that of the numbers, since the index of a word is small. -/
lemma word_lt_iff (n : UInt32) : (n / bpl).toInt32 < 4 ↔ n.toNat / 64 < numberLimbs := by
  have hlt := n.toNat_lt
  have hdiv : (n / bpl).toNat = n.toNat / 64 := rfl
  have hint : (n / bpl).toInt32.toInt = ((n.toNat / 64 : ℕ) : ℤ) := by
    rw [← hdiv]
    apply BitVec.toInt_eq_toNat_of_lt
    rw [show (n / bpl).toInt32.toBitVec.toNat = (n / bpl).toNat from rfl, hdiv]
    omega
  rw [Int32.lt_iff_toInt_lt, hint, numberLimbs]
  exact Int.ofNat_lt

lemma exists_word (x : Bigint) {i : ℕ} (hi : i < numberLimbs) : ∃ w, x.word i = some w ∧ w.toNat = x.words i := by
  unfold numberLimbs at hi
  obtain rfl | rfl | rfl | rfl : i = 0 ∨ i = 1 ∨ i = 2 ∨ i = 3 := by omega
  all_goals exact ⟨_, rfl, rfl⟩

/-- A bit of a word is what its mask leaves. -/
lemma and_ne_zero (w m : UInt64) {n : UInt32} (h : n.toNat < 64) (hm : m.toNat = (1 : UInt64).toNat * 2^n.toNat % 2^64) :
    ((w &&& m) != 0) = w.toNat.testBit n.toNat := by
  rw [UInt64.toNat_one, Nat.one_mul, Nat.mod_eq_of_lt (Nat.pow_lt_pow_right (by decide) h)] at hm
  have hval : (w &&& m).toNat = (w.toNat.testBit n.toNat).toNat * 2^n.toNat := by
    rw [UInt64.toNat_and, hm, Nat.and_two_pow]
  rw [Bool.eq_iff_iff, bne_iff_ne, Ne, ← UInt64.toNat_inj, hval, UInt64.toNat_zero]
  cases w.toNat.testBit n.toNat <;> simp

lemma bigintBit_eq (x : Bigint) (n : UInt32) : bigintBit x n = some (x.val.testBit n.toNat) := by
  have hdiv : (n / bpl).toNat = n.toNat / 64 := rfl
  have hlt := n.toNat_lt
  have hmul : (n / bpl * bpl).toNat = n.toNat / 64 * 64 := by
    rw [UInt32.toNat_mul, hdiv, toNat_bpl]
    omega
  have hshift : (n - n / bpl * bpl).toNat = n.toNat % 64 := by
    rw [UInt32.toNat_sub_of_le _ _ (UInt32.le_iff_toNat_le.2 (by omega)), hmul]
    omega
  rw [bigintBit, Bigint.val_eq_value, testBit_value x.words_lt]
  by_cases hword : n.toNat / 64 < numberLimbs
  · obtain ⟨w, hw, hwv⟩ := exists_word x hword
    obtain ⟨m, hm, hmv⟩ := wordShl_of_lt 1 (n := n - n / bpl * bpl) (by omega)
    have hpos : n.toNat < 64 * numberLimbs := by omega
    have hbit := and_ne_zero w m (by omega) hmv
    rw [hshift, hwv] at hbit
    simp [word_lt_iff, hword, hdiv, hw, hm, hpos, hbit]
  · simp [word_lt_iff, hword, show ¬ n.toNat < 64 * numberLimbs by omega]

/-- Shifts, masks and bit tests of every value by every 32-bit count, none of which shifts a word by its width or more. -/
theorem bigintWordOps (x : Bigint) (n : UInt32) :
    (∃ y, bigintShiftUp x n = some y ∧ y.val = x.val * 2^n.toNat % 2^256) ∧
      (∃ y, bigintShiftDown x n = some y ∧ y.val = x.val / 2^n.toNat) ∧
      (∃ y, bigintMask x n = some y ∧ y.val = x.val % 2^n.toNat) ∧ bigintBit x n = some (x.val.testBit n.toNat) :=
  ⟨exists_bigintShiftUp x n, exists_bigintShiftDown x n, exists_bigintMask x n, bigintBit_eq x n⟩

end CredaCash.Amounts
