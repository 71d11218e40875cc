import CredaCash.Circuit
import CredaCash.FieldBits
import CredaCash.Wire.Bn128
import CredaCash.Spend.Secrets
import Mathlib.Tactic.NormNum.Prime

/-! How the circuit of a transaction breaks its variables into bits, and what the constraints leave open. -/

namespace CredaCash.Zk
open Circuit FieldBits LucasTest PlaceValue Spend Wire

section Prime

/-- The modulus of `hash_bases`. -/
abbrev fieldPrime : ℕ := 21888242871839275222246405745257275088548364400416034343698204186575808495617

/-- The factors of the number before it are prime by the same test. -/
lemma fieldPrime_prime : fieldPrime.Prime := by
  have h₁ : Nat.Prime 12048837557 :=
    prime_of_lucasTest (k := 34) (a := 2) [2, 7, 661, 93001] (by norm_num) (by decide +kernel)
  have h₂ : Nat.Prime 5156902474397 := prime_of_lucasTest (k := 43) (a := 2) [12048837557, 2, 107]
    (List.forall_mem_cons.2 ⟨h₁, by norm_num⟩) (by decide +kernel)
  have h₃ : Nat.Prime 1670836401704629 := prime_of_lucasTest (k := 51) (a := 2) [5156902474397, 2, 3]
    (List.forall_mem_cons.2 ⟨h₂, by norm_num⟩) (by decide +kernel)
  have h₄ : Nat.Prime 639533339 :=
    prime_of_lucasTest (k := 30) (a := 2) [2, 229, 853, 1637] (by norm_num) (by decide +kernel)
  have h₅ : Nat.Prime 65865678001877903 := prime_of_lucasTest (k := 56) (a := 5) [639533339, 2, 83, 379, 1637]
    (List.forall_mem_cons.2 ⟨h₄, by norm_num⟩) (by decide +kernel)
  have h₆ : Nat.Prime 13818364434197438864469338081 :=
    prime_of_lucasTest (k := 94) (a := 3) [65865678001877903, 2, 5, 823, 1593227]
      (List.forall_mem_cons.2 ⟨h₅, by norm_num⟩) (by decide +kernel)
  exact prime_of_lucasTest (k := 254) (a := 5)
    [13818364434197438864469338081, 1670836401704629, 405928799, 2, 3, 13, 29, 983, 11003, 237073]
    (List.forall_mem_cons.2 ⟨h₆, List.forall_mem_cons.2 ⟨h₃, List.forall_mem_cons.2 ⟨prime_405928799, by norm_num⟩⟩⟩)
    (by decide +kernel)

instance : Fact fieldPrime.Prime := ⟨fieldPrime_prime⟩

end Prime

/-- `ZKVAR`: a variable of the circuit of a transaction. -/
abbrev ZkVar : Type := ZMod fieldPrime

abbrev ZkCircuit (α : Type) : Type := Circuit ZkVar α

/-- The bits of a number, as variables. -/
abbrev zkBits (n v : ℕ) : List ZkVar := bits ZkVar n v

lemma two_pow_253_lt : 2^253 < fieldPrime := by norm_num

lemma fieldPrime_lt : fieldPrime < 2^txFieldBits := by norm_num [txFieldBits]

lemma lt_fieldPrime {n v : ℕ} (h : v < 2^n) (hn : n ≤ 253) : v < fieldPrime :=
  (h.trans_le (Nat.pow_le_pow_right two_pos hn)).trans two_pow_253_lt

lemma two_pow_ne_zero (n : ℕ) : (2 : ZkVar)^n ≠ 0 := by
  have hne : (2 : ZkVar) ≠ 0 := by decide +kernel
  exact pow_ne_zero n hne

def addBooleanity (a : ZkVar) : ZkCircuit Unit := constrainZero (a * a - a)

/-- `constrainValue`, where the weight of the remainder follows those of the bits. -/
def constrainValue (x : ZkVar) (bits : List ZkVar) (base : ℕ → ZkVar) (rem bitval : Option ZkVar) :
    ZkCircuit Unit := do
  bitval.forM fun bitval => constrainZero (weighted base bits - bitval)
  let lc := bitval.getD (weighted base bits)
  constrainZero (lc + (rem.elim 0 fun rem => rem * base bits.length) - x)

/-- The bits of a variable, and the other results that `extractBits` may be asked for. -/
structure ExtractedBits where
  bits : List ZkVar
  rem : Option ZkVar
  bitval : Option ZkVar

/-- A variable for a bit. -/
def blessBit (bit : ℕ) : ZkCircuit ZkVar := do
  let b ← var (bit : ZkVar)
  addBooleanity b
  return b

/-- A variable that is not always wanted. -/
def blessIf (want : Bool) (val : ℕ) : ZkCircuit (Option ZkVar) :=
  if want then some <$> var (val : ZkVar) else pure none

/-- One of the first 256 of `hash_bases`. -/
def powerOfTwo (i : ℕ) : ZkVar := (2^i : ℕ)

lemma powerOfTwo_eq : powerOfTwo = fun i => 2^i := funext fun i => by rw [powerOfTwo, Nat.cast_pow, Nat.cast_ofNat]

/-- `extractBits` of a variable with a value at hand. -/
def extractBits (x : ZkVar) (val nbits : ℕ) (wantRem wantBitval : Bool) : ZkCircuit ExtractedBits := do
  let bits ← (lowDigits 2 nbits val).mapM blessBit
  let rem ← blessIf wantRem (val / 2^nbits)
  let bitval ← blessIf wantBitval (val % 2^nbits)
  constrainValue x bits powerOfTwo rem bitval
  return ⟨bits, rem, bitval⟩

lemma addBooleanity_allows {b : ZkVar} {u : Unit} : (addBooleanity b).Allows u ↔ b = 0 ∨ b = 1 := by
  rw [addBooleanity, allows_constrainZero, show b * b - b = b * (b - 1) by ring, mul_eq_zero, sub_eq_zero]

lemma blessBit_allows {bit : ℕ} {b : ZkVar} : (blessBit bit).Allows b ↔ b = 0 ∨ b = 1 := by
  simp only [blessBit, allows_bind, allows_var, true_and, addBooleanity_allows, allows_pure, exists_const]
  constructor
  · rintro ⟨b, hb, rfl⟩
    exact hb
  · exact fun h => ⟨b, h, rfl⟩

/-- The variables for bits may have the bits of any number. -/
lemma blessBits_allows {digits : List ℕ} {ys : List ZkVar} :
    (digits.mapM blessBit).Allows ys ↔ ∃ v < 2^digits.length, ys = zkBits digits.length v := by
  simp only [allows_mapM, blessBit_allows, List.forall₂_iff_get]
  constructor
  · rintro ⟨hlen, hbits⟩
    rw [hlen]
    refine exists_eq_bits fun y hy => ?_
    obtain ⟨i, hi, rfl⟩ := List.getElem_of_mem hy
    exact hbits i (hlen ▸ hi) hi
  · rintro ⟨v, hv, rfl⟩
    exact ⟨length_bits.symm, fun i hi hi' => isBit_of_mem_bits (List.get_mem _ _)⟩

section Extract
variable {x : ZkVar} {val n : ℕ} {wantRem wantBitval : Bool} {r : ExtractedBits}

lemma constrainValue_allows {bits : List ZkVar} {base : ℕ → ZkVar} {rem bitval : Option ZkVar} {u : Unit} :
    (constrainValue x bits base rem bitval).Allows u ↔ (∀ b ∈ bitval, b = weighted base bits) ∧
      weighted base bits + (rem.elim 0 fun rem => rem * base bits.length) = x := by
  simp only [constrainValue, allows_bind, allows_optionForM, allows_constrainZero, sub_eq_zero, exists_const]
  cases bitval with
  | none => simp
  | some b =>
    simp only [Option.mem_some_iff, forall_eq', Option.getD_some]
    constructor
    · rintro ⟨rfl, h⟩
      exact ⟨rfl, h⟩
    · rintro ⟨rfl, h⟩
      exact ⟨rfl, h⟩

lemma blessIf_allows {want : Bool} {o : Option ZkVar} : (blessIf want val).Allows o ↔ o.isSome = want := by
  cases want <;> cases o <;> simp [blessIf]

/-- The bits of a variable are those of any number that differs from it by a multiple of the weight of the remainder,
and the remainder is not bounded. -/
theorem extractBits_allows : (extractBits x val n wantRem wantBitval).Allows r ↔ ∃ v : ℕ, v < 2^n ∧
    r.bits = zkBits n v ∧ r.rem.isSome = wantRem ∧ r.bitval = (if wantBitval then some (v : ZkVar) else none) ∧
      (v : ZkVar) + (r.rem.elim 0 fun rem => rem * 2^n) = x := by
  have hlen : (lowDigits 2 n val).length = n := length_lowDigits ..
  simp only [extractBits, powerOfTwo_eq, allows_bind, blessBits_allows, hlen, blessIf_allows, constrainValue_allows,
    allows_pure]
  constructor
  · rintro ⟨_, ⟨v, hv, rfl⟩, rem, hrem, bitval, hbitval, _, ⟨hvalue, hsum⟩, rfl⟩
    rw [length_bits, weighted_bits hv] at hsum
    refine ⟨v, hv, rfl, hrem, ?_, hsum⟩
    cases bitval with
    | none => rw [← hbitval]; rfl
    | some b =>
      rw [← hbitval, hvalue b rfl, weighted_bits hv]
      rfl
  · rintro ⟨v, hv, hbits, hrem, hbitval, hsum⟩
    refine ⟨_, ⟨v, hv, rfl⟩, r.rem, hrem, r.bitval, ?_, (), ⟨fun b hb => ?_, ?_⟩, ?_⟩
    · rw [hbitval]
      cases wantBitval <;> rfl
    · rw [weighted_bits hv]
      rw [hbitval] at hb
      split_ifs at hb
      · exact (Option.mem_some_iff.1 hb).symm
      · cases hb
    · rw [length_bits, weighted_bits hv]
      exact hsum
    · rw [← hbits]

/-- Bits with nothing left. -/
lemma extractBits_allows_plain : (extractBits x val n false false).Allows r ↔
    ∃ v : ℕ, v < 2^n ∧ (v : ZkVar) = x ∧ r = ⟨zkBits n v, none, none⟩ := by
  rw [extractBits_allows]
  refine exists_congr fun v => and_congr_right fun hv => ?_
  obtain ⟨bits, rem, bitval⟩ := r
  cases rem <;> simp [and_left_comm, and_comm]

/-- Bits with a remainder. -/
lemma extractBits_allows_rem : (extractBits x val n true false).Allows r ↔
    ∃ (v : ℕ) (rem : ZkVar), v < 2^n ∧ (v : ZkVar) + rem * 2^n = x ∧ r = ⟨zkBits n v, some rem, none⟩ := by
  rw [extractBits_allows]
  refine exists_congr fun v => ?_
  obtain ⟨bits, rem, bitval⟩ := r
  cases rem <;> simp [and_left_comm, and_comm]

/-- Bits with a remainder and the number that they stand for. -/
lemma extractBits_allows_bitval : (extractBits x val n true true).Allows r ↔
    ∃ (v : ℕ) (rem : ZkVar), v < 2^n ∧ (v : ZkVar) + rem * 2^n = x ∧ r = ⟨zkBits n v, some rem, some (v : ZkVar)⟩ := by
  rw [extractBits_allows]
  refine exists_congr fun v => ?_
  obtain ⟨bits, rem, bitval⟩ := r
  cases rem <;> simp [and_left_comm, and_comm]

lemma weighted_zkBits (n val : ℕ) : weighted (fun i => (2 : ZkVar)^i) (zkBits n val) = ((val % 2^n : ℕ) : ZkVar) := by
  rw [zkBits, ← bits_mod, weighted_bits (Nat.mod_lt _ (Nat.two_pow_pos n))]

end Extract

end CredaCash.Zk
