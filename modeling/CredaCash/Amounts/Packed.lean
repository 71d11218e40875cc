import CredaCash.BigEndian
import CredaCash.Chain.Donations
import Mathlib.Algebra.Order.Group.Nat
import Mathlib.Algebra.Ring.Int.Defs
import Mathlib.Data.Nat.Bitwise

/-! Amounts, packed so that the order of their bytes in the database is the order of their values. -/

namespace CredaCash.Amounts
open BoundedReader

/-- `bigint_t`: the words that `BIGWORD` gives, the least significant one first. -/
structure Bigint where
  word0 : UInt64
  word1 : UInt64
  word2 : UInt64
  word3 : UInt64
  deriving DecidableEq

namespace Bigint

/-- The unsigned value. -/
def val (x : Bigint) : ℕ :=
  x.word0.toNat + 2^64 * (x.word1.toNat + 2^64 * (x.word2.toNat + 2^64 * x.word3.toNat))

/-- The low words of a number. -/
def ofNat (n : ℕ) : Bigint := ⟨.ofNat n, .ofNat (n / 2^64), .ofNat (n / 2^64 / 2^64), .ofNat (n / 2^64 / 2^64 / 2^64)⟩

/-- `addBigInt` without a modulus. -/
def add (x y : Bigint) : Bigint := ofNat (x.val + y.val)

/-- `subBigInt` without a modulus. -/
def sub (x y : Bigint) : Bigint := ofNat (x.val + 2^256 - y.val)

/-- The value in two's complement. -/
def toInt (x : Bigint) : ℤ := if x.val < 2^255 then x.val else x.val - 2^256

lemma val_lt (x : Bigint) : x.val < 2^256 := by
  have h0 := x.word0.toNat_lt
  have h1 := x.word1.toNat_lt
  have h2 := x.word2.toNat_lt
  have h3 := x.word3.toNat_lt
  unfold val
  omega

@[simp] lemma val_ofNat (n : ℕ) : (ofNat n).val = n % 2^256 := by
  simp only [val, ofNat, UInt64.toNat_ofNat']
  omega

lemma ext_words {x y : Bigint} (h : x.val = y.val) : x.word0 = y.word0 ∧ x.word1 = y.word1 ∧ x.word2 = y.word2 ∧
    x.word3 = y.word3 := by
  have hx0 := x.word0.toNat_lt
  have hx1 := x.word1.toNat_lt
  have hx2 := x.word2.toNat_lt
  have hy0 := y.word0.toNat_lt
  have hy1 := y.word1.toNat_lt
  have hy2 := y.word2.toNat_lt
  simp only [val] at h
  simp only [← UInt64.toNat_inj]
  omega

lemma val_inj {x y : Bigint} : x.val = y.val ↔ x = y := by
  refine ⟨fun h => ?_, fun h => by rw [h]⟩
  cases x
  cases y
  simpa only [mk.injEq] using ext_words h

end Bigint

/-- The test of the highest bit of a word. -/
def topBit (word : UInt64) : Bool := (word &&& 1 <<< (63 : UInt64)) ≠ 0

lemma topBit_eq (word : UInt64) : topBit word = decide (2^63 ≤ word.toNat) := by
  have hlt := word.toNat_lt
  have hand : (word &&& 1 <<< (63 : UInt64)).toNat = (word.toNat.testBit 63).toNat * 2^63 := by
    rw [UInt64.toNat_and, show ((1 : UInt64) <<< 63).toNat = 2^63 from rfl]
    exact Nat.and_two_pow _ _
  have htest : word.toNat.testBit 63 = decide (2^63 ≤ word.toNat) := by
    rw [Nat.testBit_eq_decide_div_mod_eq, decide_eq_decide]
    omega
  rw [htest] at hand
  rw [topBit, decide_eq_decide, ne_eq, ← UInt64.toNat_inj, hand]
  simp

def bswap64 (word : UInt64) : UInt64 := .ofNat (Chain.bswap64 word.toNat)

@[simp] lemma toNat_bswap64 (word : UInt64) : (bswap64 word).toNat = Chain.bswap64 word.toNat := by
  rw [bswap64, UInt64.toNat_ofNat']
  exact Nat.mod_eq_of_lt (Chain.bswap64_lt _)

@[simp] lemma bswap64_bswap64 (word : UInt64) : bswap64 (bswap64 word) = word := by
  rw [← UInt64.toNat_inj, toNat_bswap64, toNat_bswap64, Chain.bswap64_bswap64 word.toNat_lt]

/-- In memory the bytes of a swapped word are those of the word from the most significant one down. -/
lemma leBytes_bswap64 (word : UInt64) : leBytes 8 (bswap64 word).toNat = beBytes 8 word.toNat := by
  have h := leBytes_leNat (leBytes 8 word.toNat).reverse
  rwa [List.length_reverse, leBytes_length, ← Chain.bswap64, ← toNat_bswap64] at h

lemma beBytes_word {v : ℕ} {word : UInt64} (h : v % 2^64 = word.toNat) : beBytes 8 v = beBytes 8 word.toNat := by
  rw [← beBytes_mod, ← h]
  rfl

lemma beBytes_word01 (x : Bigint) : beBytes 16 x.val = beBytes 8 x.word1.toNat ++ beBytes 8 x.word0.toNat := by
  have h0 := x.word0.toNat_lt
  have h1 := x.word1.toNat_lt
  rw [← beBytes_append 8 8, @beBytes_word (x.val / 256^8) x.word1 (by unfold Bigint.val; omega),
    @beBytes_word x.val x.word0 (by unfold Bigint.val; omega)]

lemma beBytes_word012 (x : Bigint) :
    beBytes 24 x.val = beBytes 8 x.word2.toNat ++ (beBytes 8 x.word1.toNat ++ beBytes 8 x.word0.toNat) := by
  have h0 := x.word0.toNat_lt
  have h1 := x.word1.toNat_lt
  have h2 := x.word2.toNat_lt
  rw [← beBytes_append 16 8, beBytes_word01, @beBytes_word (x.val / 256^16) x.word2 (by unfold Bigint.val; omega)]

section Amtint

/-- The left shift of a `checked_int256_t`, which throws when bits are lost. -/
def shiftUp (val : ℕ) : Option ℕ := if val <<< 64 < 2^256 then some (val <<< 64) else none

/-- The words of a big integer, shifted together. -/
def joinWords (amount : Bigint) : Option ℕ := do
  let val ← shiftUp amount.word3.toNat
  let val ← shiftUp (val ||| amount.word2.toNat)
  let val ← shiftUp (val ||| amount.word1.toNat)
  return val ||| amount.word0.toNat

/-- `amount_from_bigint`; none stands for the exception of a checked integer. -/
def amountFromBigint (amount : Bigint) : Option ℤ := do
  let neg := topBit amount.word3
  let adjAmount := if neg then Bigint.sub (.ofNat 0) amount else amount
  let val ← joinWords adjAmount
  return if neg then -(val : ℤ) else val

def amountToBigint (amount : ℤ) : Bigint :=
  let val := Bigint.ofNat amount.natAbs
  if amount < 0 then Bigint.sub (.ofNat 0) val else val

lemma shiftUp_of_lt {val : ℕ} (h : val < 2^192) : shiftUp val = some (val <<< 64) := by
  rw [shiftUp, if_pos]
  rw [Nat.shiftLeft_eq]
  omega

lemma shiftLeft_or (val : ℕ) (word : UInt64) : val <<< 64 ||| word.toNat = word.toNat + 2^64 * val := by
  rw [← Nat.shiftLeft_add_eq_or_of_lt word.toNat_lt, Nat.shiftLeft_eq]
  omega

lemma topBit_word3 (x : Bigint) : topBit x.word3 = decide (2^255 ≤ x.val) := by
  have h0 := x.word0.toNat_lt
  have h1 := x.word1.toNat_lt
  have h2 := x.word2.toNat_lt
  rw [topBit_eq, decide_eq_decide, Bigint.val]
  omega

lemma joinWords_eq (x : Bigint) : joinWords x = some x.val := by
  have h0 := x.word0.toNat_lt
  have h1 := x.word1.toNat_lt
  have h2 := x.word2.toNat_lt
  have h3 := x.word3.toNat_lt
  simp only [joinWords, bind, shiftUp_of_lt (show x.word3.toNat < 2^192 by omega), Option.bind_some, shiftLeft_or]
  simp only [shiftUp_of_lt (show x.word2.toNat + 2^64 * x.word3.toNat < 2^192 by omega), Option.bind_some, shiftLeft_or]
  simp only [shiftUp_of_lt (show x.word1.toNat + 2^64 * (x.word2.toNat + 2^64 * x.word3.toNat) < 2^192 by omega),
    Option.bind_some, shiftLeft_or]
  rfl

/-- Any words are an amount, in two's complement. -/
theorem amountFromBigint_eq (amount : Bigint) : amountFromBigint amount = some amount.toInt := by
  have hlt := amount.val_lt
  simp only [amountFromBigint, topBit_word3, joinWords_eq, decide_eq_true_eq, bind, Option.bind_some, pure,
    Option.some.injEq, Bigint.toInt, Bigint.sub]
  by_cases h : 2^255 ≤ amount.val
  · simp only [if_pos h, if_neg (not_lt.2 h), Bigint.val_ofNat]
    omega
  · simp only [if_neg h, if_pos (not_le.1 h)]

/-- An amount in the range of two's complement comes back from its words. -/
theorem toInt_amountToBigint {amount : ℤ} (hlo : -2^255 ≤ amount) (hhi : amount < 2^255) :
    (amountToBigint amount).toInt = amount := by
  unfold amountToBigint
  by_cases h : amount < 0
  · simp only [if_pos h, Bigint.sub, Bigint.toInt, Bigint.val_ofNat]
    split_ifs <;> omega
  · simp only [if_neg h, Bigint.toInt, Bigint.val_ofNat]
    split_ifs <;> omega

lemma toInt_injective {x y : Bigint} (h : x.toInt = y.toInt) : x = y := by
  have hx := x.val_lt
  have hy := y.val_lt
  rw [← Bigint.val_inj]
  unfold Bigint.toInt at h
  split_ifs at h <;> omega

end Amtint

/-- `packed_unsigned_amount_t`. -/
structure PackedUnsigned where
  hi : UInt64
  lo : UInt64

/-- `packed_signed_amount_t`. -/
structure PackedSigned where
  hi : UInt64
  mid : UInt64
  lo : UInt64

/-- The bytes in memory and in the database. -/
def PackedUnsigned.bytes (p : PackedUnsigned) : List UInt8 := leBytes 8 p.hi.toNat ++ leBytes 8 p.lo.toNat

/-- The bytes in memory and in the database. -/
def PackedSigned.bytes (p : PackedSigned) : List UInt8 :=
  leBytes 8 p.hi.toNat ++ (leBytes 8 p.mid.toNat ++ leBytes 8 p.lo.toNat)

/-- `unpack_unsigned_amount`; the words that it does not write stay as they are in `amount`. -/
def unpackUnsignedAmount (packed : PackedUnsigned) (amount : Bigint) : Bigint :=
  { amount with word0 := bswap64 packed.lo, word1 := bswap64 packed.hi }

def packOffset : Bigint := .ofNat (2^63 * 2^63 * 2^63 * 4)

def unpackSignedAmount (packed : PackedSigned) (amount : Bigint) : Bigint :=
  let amount := { amount with word0 := bswap64 packed.lo, word1 := bswap64 packed.mid, word2 := bswap64 packed.hi }
  let amount := amount.sub packOffset
  { amount with word3 := if topBit amount.word2 then .ofNat (2^64 - 1) else 0 }

section
-- what a `bigint_t` holds that is declared without a value
variable (unset : Bigint)

/-- `pack_unsigned_amount`: its result, and the packed amount. -/
def packUnsignedAmount (amount : Bigint) : ℕ × PackedUnsigned :=
  let packed : PackedUnsigned := ⟨bswap64 amount.word1, bswap64 amount.word0⟩
  (if unpackUnsignedAmount packed unset ≠ amount then 1 else 0, packed)

/-- `pack_signed_amount`: its result, and the packed amount. -/
def packSignedAmount (amount : Bigint) : ℕ × PackedSigned :=
  let adjAmount := amount.add packOffset
  let packed : PackedSigned := ⟨bswap64 adjAmount.word2, bswap64 adjAmount.word1, bswap64 adjAmount.word0⟩
  (if unpackSignedAmount packed unset ≠ amount then 1 else 0, packed)

/-- `pack_unsigned_amount` of a checked integer. -/
def packUnsignedInt (amount : ℤ) : ℕ × PackedUnsigned := packUnsignedAmount unset (amountToBigint amount)

/-- `pack_signed_amount` of a checked integer. -/
def packSignedInt (amount : ℤ) : ℕ × PackedSigned := packSignedAmount unset (amountToBigint amount)

/-- `unpack_unsigned_amount` to a checked integer. -/
def unpackUnsignedInt (packed : PackedUnsigned) : Option ℤ := amountFromBigint (unpackUnsignedAmount packed unset)

/-- `unpack_signed_amount` to a checked integer. -/
def unpackSignedInt (packed : PackedSigned) : Option ℤ := amountFromBigint (unpackSignedAmount packed unset)

end

/-- What a packed form promises: every amount in its range is packed and comes back in whatever the target was, the
bytes compare as the amounts do, and other amounts are refused. -/
structure Packs {P : Type} (value : Bigint → ℤ) (InRange : ℤ → Prop) (pack : Bigint → ℕ × P)
    (packInt : ℤ → ℕ × P) (unpack : P → Bigint) (unpackInt : P → Option ℤ) (bytes : P → List UInt8) : Prop where
  packs : ∀ a, InRange (value a) → (pack a).1 = 0 ∧ unpack (pack a).2 = a ∧ unpackInt (pack a).2 = some (value a)
  packsInt : ∀ v, InRange v → (packInt v).1 = 0 ∧ unpackInt (packInt v).2 = some v
  sorts : ∀ a b, InRange (value a) → InRange (value b) → (bytes (pack a).2 < bytes (pack b).2 ↔ value a < value b)
  refuses : ∀ a, ¬InRange (value a) → (pack a).1 ≠ 0
  refusesInt : ∀ v, -2^255 ≤ v → v < 2^255 → ¬InRange v → (packInt v).1 ≠ 0

section Unsigned
variable {unset target : Bigint}

lemma packUnsignedAmount_eq_zero (hunset : unset = .ofNat 0) (a : Bigint) :
    (packUnsignedAmount unset a).1 = 0 ↔ a.val < 2^128 := by
  subst hunset
  have h0 := a.word0.toNat_lt
  have h1 := a.word1.toNat_lt
  simp only [packUnsignedAmount, unpackUnsignedAmount, bswap64_bswap64, ← Bigint.val_inj, ite_eq_right_iff,
    one_ne_zero, imp_false, not_not, ne_eq]
  simp only [Bigint.val, Bigint.ofNat, UInt64.toNat_ofNat']
  omega

lemma unpackUnsignedAmount_pack (a : Bigint) (h : a.val < 2^128) :
    unpackUnsignedAmount (packUnsignedAmount unset a).2 target = a ↔ target.word2 = 0 ∧ target.word3 = 0 := by
  have h0 := a.word0.toNat_lt
  have h1 := a.word1.toNat_lt
  unfold Bigint.val at h
  obtain ⟨a0, a1, a2, a3⟩ := a
  have h2 : a2 = 0 := UInt64.toNat_inj.1 (show a2.toNat = 0 by dsimp only at h; omega)
  have h3 : a3 = 0 := UInt64.toNat_inj.1 (show a3.toNat = 0 by dsimp only at h; omega)
  subst h2 h3
  simp [unpackUnsignedAmount, packUnsignedAmount]

lemma bytes_packUnsignedAmount (a : Bigint) : (packUnsignedAmount unset a).2.bytes = beBytes 16 a.val := by
  rw [packUnsignedAmount, PackedUnsigned.bytes, leBytes_bswap64, leBytes_bswap64, beBytes_word01]

/-- The unsigned form keeps its promise exactly for the targets without high words. -/
lemma packs_unsigned (hunset : unset = .ofNat 0) :
    Packs (fun a => (a.val : ℤ)) (fun v => 0 ≤ v ∧ v < 2^128) (packUnsignedAmount unset) (packUnsignedInt unset)
      (fun p => unpackUnsignedAmount p target) (unpackUnsignedInt unset) PackedUnsigned.bytes ↔
      target.word2 = 0 ∧ target.word3 = 0 := by
  have hback (a : Bigint) (ha : a.val < 2^128) :
      unpackUnsignedInt unset (packUnsignedAmount unset a).2 = some (a.val : ℤ) := by
    rw [unpackUnsignedInt, (unpackUnsignedAmount_pack a ha).2 (by subst hunset; exact ⟨rfl, rfl⟩), amountFromBigint_eq,
      Bigint.toInt, if_pos (by omega)]
  have hint {v : ℤ} (hlo : 0 ≤ v) (hhi : v < 2^255) : ((amountToBigint v).val : ℤ) = v := by
    unfold amountToBigint
    rw [if_neg (not_lt.2 hlo), Bigint.val_ofNat]
    omega
  refine ⟨fun h => (unpackUnsignedAmount_pack (.ofNat 0) (by decide)).1 (h.packs (.ofNat 0) (by decide)).2.1,
    fun h => ⟨fun a ha => ?_, fun v hv => ?_, fun a b ha hb => ?_, fun a ha => ?_, fun v hlo hhi hv => ?_⟩⟩
  · have ha : a.val < 2^128 := by omega
    exact ⟨(packUnsignedAmount_eq_zero hunset a).2 ha, (unpackUnsignedAmount_pack a ha).2 h, hback a ha⟩
  · have hval := hint hv.1 (by omega)
    have ha : (amountToBigint v).val < 2^128 := by omega
    exact ⟨(packUnsignedAmount_eq_zero hunset _).2 ha, by rw [packUnsignedInt, hback _ ha, hval]⟩
  · rw [bytes_packUnsignedAmount, bytes_packUnsignedAmount, beBytes_lt_iff (by omega) (by omega), Nat.cast_lt]
  · rw [ne_eq, packUnsignedAmount_eq_zero hunset]
    omega
  · rw [packUnsignedInt, ne_eq, packUnsignedAmount_eq_zero hunset]
    by_cases hneg : v < 0
    · rw [amountToBigint, if_pos hneg, Bigint.sub, Bigint.val_ofNat, Bigint.val_ofNat, Bigint.val_ofNat]
      omega
    · have hval := hint (not_lt.1 hneg) hhi
      omega

end Unsigned

section Signed
variable {unset target : Bigint}

lemma val_setWord3 (x : Bigint) (w : UInt64) :
    ({ x with word3 := w } : Bigint).val = x.val % 2^192 + 2^192 * w.toNat := by
  have h0 := x.word0.toNat_lt
  have h1 := x.word1.toNat_lt
  have h2 := x.word2.toNat_lt
  simp only [Bigint.val]
  omega

lemma topBit_word2 (x : Bigint) : topBit x.word2 = decide (2^191 ≤ x.val % 2^192) := by
  have h0 := x.word0.toNat_lt
  have h1 := x.word1.toNat_lt
  have h2 := x.word2.toNat_lt
  rw [topBit_eq, decide_eq_decide, Bigint.val]
  omega

/-- The signed form keeps the three low words and repeats their sign. -/
lemma unpackSignedAmount_pack (a : Bigint) : (unpackSignedAmount (packSignedAmount unset a).2 target).val =
    a.val % 2^192 + 2^192 * if 2^191 ≤ a.val % 2^192 then 2^64 - 1 else 0 := by
  have hoffset : packOffset.val = 2^191 := by decide +kernel
  have hadj : (a.add packOffset).val = (a.val + 2^191) % 2^256 := by rw [Bigint.add, Bigint.val_ofNat, hoffset]
  -- the third word takes part in the subtraction, but not in what is kept of the difference
  have hkept (x : Bigint) (w : UInt64) : ({ x with word3 := w } : Bigint).val % 2^192 = x.val % 2^192 := by
    rw [val_setWord3]
    omega
  have hlow := hkept (a.add packOffset) target.word3
  unfold unpackSignedAmount packSignedAmount
  simp only [bswap64_bswap64]
  rw [val_setWord3, topBit_word2, Bigint.sub, Bigint.val_ofNat, hoffset]
  have hdiff : (Bigint.mk (a.add packOffset).word0 (a.add packOffset).word1 (a.add packOffset).word2
    target.word3).val % 2^192 =
      (a.val + 2^191) % 2^192 := by
    rw [hlow, hadj]
    omega
  have hmod (x : ℕ) (hx : x % 2^192 = (a.val + 2^191) % 2^192) :
      (x + 2^256 - 2^191) % 2^256 % 2^192 = a.val % 2^192 := by
    omega
  rw [hmod _ hdiff]
  by_cases h : 2^191 ≤ a.val % 2^192
  · simp only [h, decide_true, if_true]
    rfl
  · simp only [h, decide_false, Bool.false_eq_true, if_false]
    rfl

lemma unpackSignedAmount_eq {a : Bigint} (h : -2^191 ≤ a.toInt ∧ a.toInt < 2^191) :
    unpackSignedAmount (packSignedAmount unset a).2 target = a := by
  have hlt := a.val_lt
  rw [← Bigint.val_inj, unpackSignedAmount_pack]
  unfold Bigint.toInt at h
  split_ifs at h ⊢ <;> omega

lemma packSignedAmount_eq_zero (a : Bigint) :
    (packSignedAmount unset a).1 = 0 ↔ -2^191 ≤ a.toInt ∧ a.toInt < 2^191 := by
  have hrc : (packSignedAmount unset a).1 = 0 ↔ unpackSignedAmount (packSignedAmount unset a).2 unset = a := by
    simp [packSignedAmount]
  rw [hrc]
  refine ⟨fun h => ?_, unpackSignedAmount_eq⟩
  have hlt := a.val_lt
  have hval := @unpackSignedAmount_pack unset unset a
  rw [h] at hval
  unfold Bigint.toInt
  split_ifs at hval ⊢ <;> omega

lemma bytes_packSignedAmount {a : Bigint} (h : -2^191 ≤ a.toInt ∧ a.toInt < 2^191) :
    (packSignedAmount unset a).2.bytes = beBytes 24 (a.toInt + 2^191).toNat := by
  have hlt := a.val_lt
  have hoffset : packOffset.val = 2^191 := by decide +kernel
  have hadj : (a.add packOffset).val % 256^24 = (a.toInt + 2^191).toNat := by
    rw [Bigint.add, Bigint.val_ofNat, hoffset]
    unfold Bigint.toInt at h ⊢
    split_ifs at h ⊢ <;> omega
  rw [packSignedAmount, PackedSigned.bytes, leBytes_bswap64, leBytes_bswap64, leBytes_bswap64, ← beBytes_word012,
    ← beBytes_mod, hadj]

/-- The signed form keeps its promise for every target. -/
lemma packs_signed : Packs Bigint.toInt (fun v => -2^191 ≤ v ∧ v < 2^191) (packSignedAmount unset) (packSignedInt unset)
    (fun p => unpackSignedAmount p target) (unpackSignedInt unset) PackedSigned.bytes where
  packs a ha := ⟨(packSignedAmount_eq_zero a).2 ha, unpackSignedAmount_eq ha, by
    rw [unpackSignedInt, unpackSignedAmount_eq ha, amountFromBigint_eq]⟩
  packsInt v hv := by
    have htwo := toInt_amountToBigint (show -2^255 ≤ v by omega) (by omega)
    have ha : -2^191 ≤ (amountToBigint v).toInt ∧ (amountToBigint v).toInt < 2^191 := by rwa [htwo]
    refine ⟨(packSignedAmount_eq_zero _).2 ha, ?_⟩
    rw [packSignedInt, unpackSignedInt, unpackSignedAmount_eq ha, amountFromBigint_eq, htwo]
  sorts a b ha hb := by
    rw [bytes_packSignedAmount ha, bytes_packSignedAmount hb, beBytes_lt_iff (by omega) (by omega)]
    omega
  refuses a ha := fun h => ha ((packSignedAmount_eq_zero a).1 h)
  refusesInt v hlo hhi hv := fun h => hv (toInt_amountToBigint hlo hhi ▸ (packSignedAmount_eq_zero _).1 h)

end Signed

/-- Both packed forms keep their promise for a target, and conversions of big integers invert each other. -/
structure AmountsRoundTrip (unset target : Bigint) : Prop where
  unsigned : Packs (fun a => (a.val : ℤ)) (fun v => 0 ≤ v ∧ v < 2^128) (packUnsignedAmount unset) (packUnsignedInt unset)
    (fun p => unpackUnsignedAmount p target) (unpackUnsignedInt unset) PackedUnsigned.bytes
  signed : Packs Bigint.toInt (fun v => -2^191 ≤ v ∧ v < 2^191) (packSignedAmount unset) (packSignedInt unset)
    (fun p => unpackSignedAmount p target) (unpackSignedInt unset) PackedSigned.bytes
  fromTo : ∀ v, -2^255 ≤ v → v < 2^255 → amountFromBigint (amountToBigint v) = some v
  toFrom : ∀ a, (amountFromBigint a).map amountToBigint = some a

/-- With variables that are zero when they are declared without a value, the target of `unpack_unsigned_amount` must
have no high words. -/
theorem amountsRoundTrip_iff {unset : Bigint} (hunset : unset = .ofNat 0) (target : Bigint) :
    AmountsRoundTrip unset target ↔ target.word2 = 0 ∧ target.word3 = 0 := by
  refine ⟨fun h => (packs_unsigned hunset).1 h.unsigned, fun h => ⟨(packs_unsigned hunset).2 h, packs_signed, ?_, ?_⟩⟩
  · intro v hlo hhi
    rw [amountFromBigint_eq, toInt_amountToBigint hlo hhi]
  · intro a
    have hlt := a.val_lt
    rw [amountFromBigint_eq, Option.map_some, Option.some.injEq]
    apply toInt_injective
    apply toInt_amountToBigint
    · unfold Bigint.toInt
      split_ifs <;> omega
    · unfold Bigint.toInt
      split_ifs <;> omega

/-- An amount comes back in a target that holds any value of 128 bits. -/
theorem amountsRoundTrip_lowTarget : AmountsRoundTrip (.ofNat 0) (.ofNat (2^128 - 1)) :=
  (amountsRoundTrip_iff rfl (.ofNat (2^128 - 1))).2 (by decide +kernel)

/-- The amount 1 becomes 2^128 + 1 in a target that held 2^128. -/
theorem unpackUnsignedAmount_keepsHighWords : ¬∀ target, AmountsRoundTrip (.ofNat 0) target := by
  intro h
  have hback := ((h (.ofNat (2^128))).unsigned.packs (.ofNat 1) (by decide +kernel)).2.1
  exact absurd hback (by decide +kernel)

end CredaCash.Amounts
