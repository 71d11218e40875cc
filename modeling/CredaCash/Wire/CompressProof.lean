import CredaCash.Amounts.Packed
import CredaCash.RootSign
import Mathlib.Algebra.BigOperators.Group.Finset.Basic
import Mathlib.Algebra.QuadraticAlgebra.Defs

/-! The compression of proofs: eight points become nine numbers, of which the last byte is not on the wire. Each of the
first eight numbers carries the parity of a y coordinate and a bit of that byte in its two highest bits. -/

namespace CredaCash.Wire
open Amounts BoundedReader RootSign

/-- A point with the coordinates that the library of the groups keeps. -/
@[ext]
structure Point (K : Type) where
  x : K
  y : K
  z : K

/-- The components of the elements of a field: `a[i].asBigInt()`, and the element with the components given, as many of
them as it has. -/
class Components (K : Type) where
  get : K → ℕ → Bigint
  set : Bigint → Bigint → K

/-- The field of the first group. -/
instance (p : ℕ) : Components (ZMod p) where
  get a _ := .ofNat a.val
  set x _ := x.val

/-- The field of the second one, of two dimensions. -/
instance (p : ℕ) (β : ZMod p) : Components (QuadraticAlgebra (ZMod p) β 0) where
  get a i := .ofNat (if i = 0 then a.re.val else a.im.val)
  set x x1 := ⟨x.val, x1.val⟩

/-- What the code uses of a group: the affine form of a point, which is an equal one with z = 1 if it is finite, the
coefficient of the curve and a square root, which is one of the two. -/
structure Group (K : Type) [CommRing K] where
  affineCoordinates : Point K → Point K
  isZero : Point K → Bool
  coeffB : K
  sqrt : K → K
  z_affineCoordinates : ∀ g, isZero (affineCoordinates g) = false → (affineCoordinates g).z = 1
  affineCoordinates_one : ∀ x y, affineCoordinates ⟨x, y, 1⟩ = ⟨x, y, 1⟩
  sqrt_mul_self : ∀ y, sqrt (y * y) = y ∨ sqrt (y * y) = -y

section Code
variable {K : Type} [CommRing K] [Components K]

/-- The parity of the first component. -/
def lsb (y : K) : UInt64 := (Components.get y 0).word0 &&& 1

/-- `G2Int`, with the second component where it is asked for. -/
def g2Int (G : Group K) (second : Bool) (g : Point K) : Option (Bigint × Bigint) :=
  let a := G.affineCoordinates g
  let x := Components.get a.x 0
  let x1 := if second then Components.get a.x 1 else .ofNat 0
  if G.isZero a then none
  else if x.word3 >>> 62 ≠ 0 then none
  else if x1.word3 >>> 62 ≠ 0 then none
  else some ({ x with word3 := x.word3 ||| lsb a.y <<< 62 }, x1)

/-- Without the two highest bits. -/
def clearHigh (x : Bigint) : Bigint := { x with word3 := x.word3 &&& ~~~((3 : UInt64) <<< 62) }

def int2G (G : Group K) (x x1 : Bigint) : Option (Point K) :=
  if x1.word3 >>> 62 ≠ 0 then none
  else
    let yLsb := x.word3 >>> 62 &&& 1
    let aX : K := Components.set (clearHigh x) (clearHigh x1)
    let y := G.sqrt (aX * aX * aX + G.coeffB)
    let y := if lsb y ≠ yLsb then -y else y
    some ⟨aX, y, 1⟩

end Code

/-- A pair of groups, over the field of an odd prime, the elements of which fit into a `bigint_t`, and over its
extension. -/
structure Pairing where
  p : ℕ
  odd : p % 2 = 1
  fits : p < 2^256
  nonresidue : ZMod p
  G1 : Group (ZMod p)
  G2 : Group (QuadraticAlgebra (ZMod p) nonresidue 0)

/-- The eight points of a proof. -/
structure Proof (S : Pairing) where
  aG : Point (ZMod S.p)
  aH : Point (ZMod S.p)
  bG : Point (QuadraticAlgebra (ZMod S.p) S.nonresidue 0)
  bH : Point (ZMod S.p)
  cG : Point (ZMod S.p)
  cH : Point (ZMod S.p)
  h : Point (ZMod S.p)
  k : Point (ZMod S.p)

/-- The points, each with the place of its number, but for the one of the second group. -/
def Proof.g1Points {S : Pairing} (proof : Proof S) : List (ℕ × Point (ZMod S.p)) :=
  [(0, proof.aG), (1, proof.aH), (3, proof.bH), (4, proof.cG), (5, proof.cH), (6, proof.h), (7, proof.k)]

/-- `proof_vec_t`: what stands at the first nine places. -/
abbrev ProofVec := ℕ → Bigint

/-- The bytes of a number in memory. -/
def bigintBytes (x : Bigint) : List UInt8 := leBytes 32 x.val

def ofBigintBytes (bytes : List UInt8) : Bigint := .ofNat (leNat bytes)

def vecBytes (vec : ProofVec) : List UInt8 := (List.range 9).flatMap fun i => bigintBytes (vec i)

def ofVecBytes (bytes : List UInt8) : ProofVec := fun i => ofBigintBytes ((bytes.drop (32 * i)).take 32)

/-- What the wire leaves of the numbers: the last byte is not on it. -/
def wireVec (vec : ProofVec) : ProofVec := ofVecBytes ((vecBytes vec).take 287 ++ [0])

/-- The loop of `Proof2Vec` that copies the last byte into the highest bits. -/
def spreadByte (n : ℕ) (vec : ProofVec) (lastByte : UInt64) : ProofVec × UInt64 :=
  (List.range n).foldl (fun st i =>
    (Function.update st.1 i { st.1 i with word3 := (st.1 i).word3 ||| st.2 <<< 63 }, st.2 >>> 1)) (vec, lastByte)

def proof2Vec (S : Pairing) (proof : Proof S) : Option ProofVec := do
  let (v0, _) ← g2Int S.G1 false proof.aG
  let (v1, _) ← g2Int S.G1 false proof.aH
  let (v2, v8) ← g2Int S.G2 true proof.bG
  let (v3, _) ← g2Int S.G1 false proof.bH
  let (v4, _) ← g2Int S.G1 false proof.cG
  let (v5, _) ← g2Int S.G1 false proof.cH
  let (v6, _) ← g2Int S.G1 false proof.h
  let (v7, _) ← g2Int S.G1 false proof.k
  let vec : ProofVec := fun i => [v0, v1, v2, v3, v4, v5, v6, v7, v8].getD i (.ofNat 0)
  return (spreadByte 8 vec ((vecBytes vec).getD 287 0).toUInt64).1

/-- The loop of `Vec2Proof` that extracts the last byte. -/
def gatherByte (n : ℕ) (vec : ProofVec) : ℕ :=
  (List.range n).foldl (fun lastByte i => (lastByte ||| ((vec i).word3 >>> 63).toNat <<< 8) >>> 1) 0

/-- `Vec2Proof`. A new `bigint_t` is 0. -/
def vec2Proof (S : Pairing) (vec : ProofVec) : Option (Proof S) := do
  let lastByte := gatherByte 8 vec
  let vec8 := ofBigintBytes ((bigintBytes (vec 8)).take 31 ++ [.ofNat lastByte])
  let dummy := .ofNat 0
  return {
    aG := ← int2G S.G1 (vec 0) dummy
    aH := ← int2G S.G1 (vec 1) dummy
    bG := ← int2G S.G2 (vec 2) vec8
    bH := ← int2G S.G1 (vec 3) dummy
    cG := ← int2G S.G1 (vec 4) dummy
    cH := ← int2G S.G1 (vec 5) dummy
    h := ← int2G S.G1 (vec 6) dummy
    k := ← int2G S.G1 (vec 7) dummy }

section Bits
variable {x x' : Bigint} {b w : UInt64}

lemma toNat_mask (w : UInt64) : (w &&& ~~~((3 : UInt64) <<< 62)).toNat = w.toNat % 2^62 := by
  rw [UInt64.toNat_and, show (~~~((3 : UInt64) <<< 62)).toNat = 2^62 - 1 from rfl, Nat.and_two_pow_sub_one_eq_mod]

lemma toNat_bit62 (w : UInt64) : (w >>> 62 &&& 1).toNat = w.toNat / 2^62 % 2 := by
  rw [UInt64.toNat_and, UInt64.toNat_shiftRight, show (62 : UInt64).toNat % 64 = 62 from rfl, Nat.shiftRight_eq_div_pow]
  exact Nat.and_two_pow_sub_one_eq_mod _ 1

lemma toNat_or_bit62 (hw : w.toNat < 2^62) (hb : b.toNat < 2) : (w ||| b <<< 62).toNat = w.toNat + 2^62 * b.toNat := by
  have hshift : (b <<< 62).toNat = 2^62 * b.toNat := by
    rw [UInt64.toNat_shiftLeft, show (62 : UInt64).toNat % 64 = 62 from rfl, Nat.shiftLeft_eq]
    omega
  rw [UInt64.toNat_or, hshift, Nat.or_comm, ← Nat.two_pow_add_eq_or_of_lt hw, Nat.add_comm]

lemma toNat_or_bit63 (b : UInt64) (hw : w.toNat < 2^63) :
    (w ||| b <<< 63).toNat = w.toNat + 2^63 * (b.toNat % 2) := by
  have hshift : (b <<< 63).toNat = 2^63 * (b.toNat % 2) := by
    rw [UInt64.toNat_shiftLeft, show (63 : UInt64).toNat % 64 = 63 from rfl, Nat.shiftLeft_eq]
    omega
  rw [UInt64.toNat_or, hshift, Nat.or_comm, ← Nat.two_pow_add_eq_or_of_lt hw, Nat.add_comm]

/-- The highest word of a number. -/
lemma toNat_word3 (x : Bigint) : x.word3.toNat = x.val / 2^192 := by
  have h0 := x.word0.toNat_lt
  have h1 := x.word1.toNat_lt
  have h2 := x.word2.toNat_lt
  unfold Bigint.val
  omega

lemma toNat_word0 (x : Bigint) : x.word0.toNat = x.val % 2^64 := by
  have h0 := x.word0.toNat_lt
  unfold Bigint.val
  omega

/-- The test for bits above the coordinate. -/
lemma word3_high_ne_zero (x : Bigint) : x.word3 >>> 62 ≠ 0 ↔ 2^254 ≤ x.val := by
  rw [ne_eq, ← UInt64.toNat_inj, UInt64.toNat_shiftRight, show (62 : UInt64).toNat % 64 = 62 from rfl,
    Nat.shiftRight_eq_div_pow, toNat_word3, UInt64.toNat_zero]
  omega

lemma val_clearHigh (x : Bigint) : (clearHigh x).val = x.val % 2^254 := by
  rw [clearHigh, val_setWord3, toNat_mask, toNat_word3]
  omega

lemma val_or_bit62 (hx : x.val < 2^254) (hb : b.toNat < 2) :
    ({ x with word3 := x.word3 ||| b <<< 62 } : Bigint).val = x.val + 2^254 * b.toNat := by
  have hw := toNat_word3 x
  rw [val_setWord3, toNat_or_bit62 (by omega) hb, hw]
  omega

lemma val_or_bit63 (b : UInt64) (hx : x.val < 2^255) :
    ({ x with word3 := x.word3 ||| b <<< 63 } : Bigint).val = x.val + 2^255 * (b.toNat % 2) := by
  have hw := toNat_word3 x
  rw [val_setWord3, toNat_or_bit63 b (by omega), hw]
  omega

/-- What a number carries below the bit of the last byte. -/
def ownBits (x : Bigint) : ℕ := x.val % 2^255

/-- The bit of the last byte. -/
def highBit (x : Bigint) : ℕ := x.val / 2^255

/-- The coordinate and the parity are those of the number's own bits. -/
lemma clearHigh_congr (h : ownBits x = ownBits x') : clearHigh x = clearHigh x' := by
  rw [← Bigint.val_inj, val_clearHigh, val_clearHigh]
  unfold ownBits at h
  omega

lemma parity_congr (h : ownBits x = ownBits x') : x.word3 >>> 62 &&& (1 : UInt64) = x'.word3 >>> 62 &&& 1 := by
  rw [← UInt64.toNat_inj, toNat_bit62, toNat_bit62, toNat_word3, toNat_word3]
  unfold ownBits at h
  omega

end Bits

section LastByte
variable {vec : ProofVec} {n : ℕ} {lastByte : UInt64}

/-- The byte is shifted out bit by bit. -/
lemma spreadByte_snd (n : ℕ) : (spreadByte n vec lastByte).2.toNat = lastByte.toNat / 2^n := by
  induction n with
  | zero => exact (Nat.div_one _).symm
  | succ n ih =>
    rw [spreadByte, List.range_succ, List.foldl_append, List.foldl_cons, List.foldl_nil, ← spreadByte,
      UInt64.toNat_shiftRight, ih, show (1 : UInt64).toNat % 64 = 1 from rfl, Nat.shiftRight_eq_div_pow,
      Nat.div_div_eq_div_mul, ← pow_add]

/-- Each of the first numbers gets a bit of the byte. -/
lemma val_spreadByte (hvec : ∀ i < n, (vec i).val < 2^255) (j : ℕ) :
    ((spreadByte n vec lastByte).1 j).val =
      (vec j).val + if j < n then 2^255 * (lastByte.toNat / 2^j % 2) else 0 := by
  induction n with
  | zero => rfl
  | succ n ih =>
    have hold := ih fun i hi => hvec i (by omega)
    rw [spreadByte, List.range_succ, List.foldl_append, List.foldl_cons, List.foldl_nil, ← spreadByte]
    dsimp only
    by_cases hj : j = n
    · subst hj
      rw [if_neg (lt_irrefl j), Nat.add_zero] at hold
      rw [Function.update_self, val_or_bit63 _ (hold ▸ hvec j (Nat.lt_succ_self j)), spreadByte_snd, hold,
        if_pos (Nat.lt_succ_self j)]
    · rw [Function.update_of_ne hj, hold]
      exact congrArg ((vec j).val + ·) (if_congr (by omega) rfl rfl)

/-- The byte that the highest bits make up. -/
def gathered (vec : ProofVec) : ℕ := ∑ i ∈ Finset.range 8, 2^i * highBit (vec i)

lemma highBit_lt (x : Bigint) : highBit x < 2 := by
  have hlt := x.val_lt
  unfold highBit
  omega

lemma sum_highBit_lt (n : ℕ) : ∑ i ∈ Finset.range n, 2^i * highBit (vec i) < 2^n := by
  induction n with
  | zero => exact Nat.one_pos
  | succ n ih =>
    have hbit := Nat.mul_le_mul_left (2^n) (Nat.le_of_lt_succ (highBit_lt (vec n)))
    rw [Finset.sum_range_succ, pow_succ]
    omega

lemma gatherByte_eq (hn : n ≤ 8) : gatherByte n vec = 2^(8 - n) * ∑ i ∈ Finset.range n, 2^i * highBit (vec i) := by
  induction n with
  | zero => rfl
  | succ n ih =>
    have hbit := highBit_lt (vec n)
    have hshift : ((vec n).word3 >>> 63).toNat = highBit (vec n) := by
      rw [UInt64.toNat_shiftRight, show (63 : UInt64).toNat % 64 = 63 from rfl, Nat.shiftRight_eq_div_pow, toNat_word3,
        highBit]
      omega
    have hsum : ∑ i ∈ Finset.range n, 2^i * highBit (vec i) < 2^n := sum_highBit_lt n
    have hpow : 2^(8 - n) * 2^n = 2^8 := by rw [← pow_add, Nat.sub_add_cancel (by omega)]
    have hhalf : 2^(8 - n) = 2 * 2^(8 - (n + 1)) := by rw [← pow_succ', show 8 - (n + 1) + 1 = 8 - n by omega]
    have htop : 2^(8 - (n + 1)) * 2^n = 2^7 := by rw [← pow_add, show 8 - (n + 1) + n = 7 by omega]
    have hlow : 2^(8 - n) * ∑ i ∈ Finset.range n, 2^i * highBit (vec i) < 2^8 :=
      hpow ▸ Nat.mul_lt_mul_of_pos_left hsum (Nat.two_pow_pos _)
    rw [gatherByte, List.range_succ, List.foldl_append, List.foldl_cons, List.foldl_nil, ← gatherByte, ih (by omega),
      hshift, Nat.shiftLeft_eq, Nat.mul_comm (highBit _), Nat.or_comm, ← Nat.two_pow_add_eq_or_of_lt hlow,
      Nat.shiftRight_eq_div_pow, Finset.sum_range_succ, Nat.mul_add, ← Nat.mul_assoc _ (2^n), htop, hhalf, Nat.mul_assoc]
    omega

end LastByte

section Bytes
variable {x : Bigint} {vec : ProofVec}

@[simp] lemma length_bigintBytes (x : Bigint) : (bigintBytes x).length = 32 := leBytes_length 32 x.val

lemma ofBigintBytes_bigintBytes (x : Bigint) : ofBigintBytes (bigintBytes x) = x := by
  rw [← Bigint.val_inj, ofBigintBytes, bigintBytes, leNat_leBytes (x.val_lt.trans_eq (by norm_num)), Bigint.val_ofNat,
    Nat.mod_eq_of_lt x.val_lt]

/-- Setting the last byte. -/
lemma val_setLast (x : Bigint) (b : UInt8) :
    (ofBigintBytes ((bigintBytes x).take 31 ++ [b])).val = x.val % 2^248 + 2^248 * b.toNat := by
  have hb := b.toNat_lt
  set v := x.val % 2^248 + 2^248 * b.toNat with hv
  have hlow : (bigintBytes x).take 31 = leBytes 31 v := by
    rw [bigintBytes, ← leBytes_append 31 1, List.take_left' (leBytes_length ..), ← leBytes_mod 31 v,
      ← leBytes_mod 31 x.val]
    congr 1
    omega
  have hhigh : [b] = leBytes 1 (v / 256^31) := by
    rw [show v / 256^31 = b.toNat by omega, leBytes, leBytes, UInt8.ofNat_toNat]
  rw [hlow, hhigh, leBytes_append, ofBigintBytes, leNat_leBytes (by omega), Bigint.val_ofNat, Nat.mod_eq_of_lt (by omega)]

lemma length_flatMap_bytes (vec : ProofVec) (n : ℕ) :
    ((List.range n).flatMap fun i => bigintBytes (vec i)).length = 32 * n := by
  induction n with
  | zero => rfl
  | succ n ih =>
    rw [List.range_succ, List.flatMap_append, List.length_append, ih, List.flatMap_singleton, length_bigintBytes]
    rfl

/-- The bytes of a number, among those of all. -/
lemma flatMap_bytes_at {n i : ℕ} (hi : i < n) (rest : List UInt8) :
    ((((List.range n).flatMap fun i => bigintBytes (vec i)) ++ rest).drop (32 * i)).take 32 = bigintBytes (vec i) := by
  induction n generalizing rest with
  | zero => exact absurd hi (Nat.not_lt_zero i)
  | succ n ih =>
    rw [List.range_succ, List.flatMap_append, List.flatMap_singleton, List.append_assoc]
    rcases Nat.lt_succ_iff_lt_or_eq.1 hi with hlt | rfl
    · exact ih hlt _
    · rw [List.drop_left' (length_flatMap_bytes vec i), List.take_left' (length_bigintBytes _)]

lemma vecBytes_eq (vec : ProofVec) :
    vecBytes vec = ((List.range 8).flatMap fun i => bigintBytes (vec i)) ++ bigintBytes (vec 8) := by
  rw [vecBytes, List.range_succ, List.flatMap_append, List.flatMap_singleton]

lemma wireBytes_eq (vec : ProofVec) : (vecBytes vec).take 287 ++ [0] =
    ((List.range 8).flatMap fun i => bigintBytes (vec i)) ++ ((bigintBytes (vec 8)).take 31 ++ [0]) := by
  rw [vecBytes_eq, List.take_append, length_flatMap_bytes, List.append_assoc,
    List.take_of_length_le (by rw [length_flatMap_bytes]; omega)]

/-- All numbers but the last one are on the wire. -/
lemma wireVec_of_lt {i : ℕ} (hi : i < 8) : wireVec vec i = vec i := by
  rw [wireVec, ofVecBytes, wireBytes_eq, flatMap_bytes_at hi, ofBigintBytes_bigintBytes]

/-- The last number is without its last byte. -/
lemma val_wireVec_last (vec : ProofVec) : (wireVec vec 8).val = (vec 8).val % 2^248 := by
  rw [wireVec, ofVecBytes, wireBytes_eq, List.drop_left' (length_flatMap_bytes vec 8), List.take_of_length_le (by simp),
    val_setLast, UInt8.toNat_zero, Nat.mul_zero, Nat.add_zero]

lemma lastByte_eq (vec : ProofVec) : ((vecBytes vec).getD 287 0).toUInt64.toNat = (vec 8).val / 2^248 := by
  have hlt := (vec 8).val_lt
  have hbytes : bigintBytes (vec 8) = leBytes 31 (vec 8).val ++ [UInt8.ofNat ((vec 8).val / 2^248)] :=
    (leBytes_append 31 1 _).symm
  have hget : (vecBytes vec).getD 287 0 = UInt8.ofNat ((vec 8).val / 2^248) := by
    rw [vecBytes_eq, hbytes, ← List.append_assoc, List.getD_append_right _ _ _ _ (by
      rw [List.length_append, length_flatMap_bytes, leBytes_length]), List.length_append, length_flatMap_bytes,
      leBytes_length]
    rfl
  rw [hget, UInt8.toNat_toUInt64, UInt8.toNat_ofNat']
  omega

end Bytes

end CredaCash.Wire
