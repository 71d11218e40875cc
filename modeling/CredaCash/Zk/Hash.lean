import CredaCash.Zk.ExtractBits

/-! The hash of the circuit: knapsacks with bases from a table, powers of the two sums, and a last knapsack. -/

namespace CredaCash.Zk
open Circuit FieldBits PlaceValue Spend

def hashBasesPrfkeys : List (ℕ × ℕ) :=
  [(0x73a83dc8a7f6c299, 0x25c46795627353ff), (0xd5a0588f21f9bf9b, 0x71903c69f6dbc06c),
    (0x6d667f1d45a6b6e8, 0xbb5e38400befa348), (0xec5dacc80521caa4, 0xf74c5d4d6102883e),
    (0xd0676e9bbf73de55, 0x982323fa87e0aa60), (0xf7b76456c551889d, 0xc70ccc3bbc856d79),
    (0x610bfb31a81e1d17, 0x6d71b04574ebe366), (0x7d5d761577ee2f6b, 0x74d49d9cdd2ce11e),
    (0xfad1efb766084c0f, 0x4240056ac9ccdc22), (0xa04cbcc91f6b8874, 0x2eebf6d4ec7066e0),
    (0xe0e642ce5c83ecd3, 0xdbabd31a652cab95), (0x52c42fcfd4c5371a, 0x173c5e2042693a1d),
    (0xb0c31538466e31e7, 0x7e1041191b1528fb), (0x5a475b6d369304d8, 0x4d6ab921d12b932e),
    (0x1a8ac0032c33aaf1, 0x8d45f7123c3eedee), (0x7e47e1cd11e3abb5, 0xe0caf4a10de0368f)]

/-- The basis indexes. -/
inductive HashBasis
  | merkleNode | rootSecret | spendSecret | trustSecret | monitorSecret | receiveSecret | destination | address
  | amountEnc | commitment | merkleLeaf | serialnum
  deriving DecidableEq

namespace HashBasis

/-- The key of a basis; that of a Merkle node is negative, and it has none. -/
def prfkey : HashBasis → Option (ℕ × ℕ)
  | merkleNode => none
  | rootSecret => hashBasesPrfkeys[0]?
  | spendSecret => hashBasesPrfkeys[1]?
  | trustSecret => hashBasesPrfkeys[2]?
  | monitorSecret => hashBasesPrfkeys[3]?
  | receiveSecret => hashBasesPrfkeys[4]?
  | destination => hashBasesPrfkeys[5]?
  | address => hashBasesPrfkeys[6]?
  | amountEnc => hashBasesPrfkeys[7]?
  | commitment => hashBasesPrfkeys[8]?
  | merkleLeaf => hashBasesPrfkeys[9]?
  | serialnum => hashBasesPrfkeys[10]?

end HashBasis

def hashbasesNrandom : ℕ := 2048
def hashbasesRandomStart : ℕ := 256

/-- The random numbers of `hash_bases`, and `siphash` of a 32-bit number with a key. -/
structure HashTable where
  random : ℕ → ℕ
  siphash : ℕ × ℕ → ℕ → ℕ

/-- A table without random numbers. -/
def noRandom : HashTable := ⟨fun _ => 0, fun _ _ => 0⟩

/-- `hash_bases`: the powers of two, and random numbers after them. -/
def HashTable.base (t : HashTable) (i : ℕ) : ZkVar :=
  if i < hashbasesRandomStart then powerOfTwo i else t.random (i - hashbasesRandomStart)

/-- The base for a bit in `Knapsack1`. -/
def knapsackBase (t : HashTable) (prfkey : Option (ℕ × ℕ)) (basisi : ℕ) (sequential : Bool) (i : ℕ) : ZkVar :=
  match prfkey with
  | none => t.base (i + hashbasesRandomStart)
  | some key =>
    let index := if sequential then key.1 % 2^16 + (basisi + i) else t.siphash key (basisi + i)
    t.base (index % hashbasesNrandom + hashbasesRandomStart)

def knapsack1 (t : HashTable) (prfkey : Option (ℕ × ℕ)) (bits : List ZkVar) (basisi : ℕ) (sequential : Bool) :
    ZkCircuit ZkVar := do
  let base := knapsackBase t prfkey basisi sequential
  let sum ← var (weighted base bits)
  constrainValue sum bits base none none
  return sum

/-- The counter of the bases, which `Knapsack1` moves on if there is a key. -/
def nextBasis (prfkey : Option (ℕ × ℕ)) (basisi nbits : ℕ) : ℕ := if prfkey.isNone then basisi else basisi + nbits

/-- The sums of a hash so far. -/
structure HashState where
  acc : ZkVar := 0
  ks0 : ZkVar := 0
  ks1 : ZkVar := 0
  basisi : ℕ := 0

/-- A turn of the loop of `Hash`, with `Knapsack2`. -/
def absorb (t : HashTable) (prfkey : Option (ℕ × ℕ)) (s : HashState) (abits : List ZkVar) : ZkCircuit HashState := do
  let basisi := nextBasis prfkey s.basisi abits.length
  let ks0 ← knapsack1 t prfkey abits s.basisi true
  let ks1 ← knapsack1 t prfkey abits basisi false
  return { acc := s.acc + ks0 + ks1, ks0 := s.ks0 + ks0, ks1 := s.ks1 + ks1
           basisi := nextBasis prfkey basisi abits.length }

/-- The sum before the last knapsack. -/
def HashState.mixed (s : HashState) : ZkVar :=
  s.acc + (fun k => k * k + k + 1)^[8] s.ks0 + (fun k => k * k - k + 1)^[8] s.ks1

/-- The last knapsack of `HashFinish`. -/
def finalKnapsack (t : HashTable) (prfkey : Option (ℕ × ℕ)) (basisi : ℕ) (acc : ZkVar) (outbits : ℕ)
    (skipFinalKnapsack : Bool) : ZkCircuit ZkVar :=
  if skipFinalKnapsack then pure acc
  else do
    let inbits := min (outbits * 2) txFieldBits
    let acc ← extractBits acc acc.val inbits (inbits < txFieldBits) false
    knapsack1 t prfkey acc.bits basisi true

/-- The lower bits of a hash. -/
def truncateHash (acc : ZkVar) (outbits : ℕ) : ZkCircuit ZkVar :=
  if txFieldBits ≤ outbits then pure acc
  else do
    let acc ← extractBits acc acc.val outbits true true
    return acc.bitval.getD 0

def hashFinish (t : HashTable) (prfkey : Option (ℕ × ℕ)) (s : HashState) (outbits : ℕ) (skipFinalKnapsack : Bool) :
    ZkCircuit ZkVar := do
  let acc ← finalKnapsack t prfkey s.basisi s.mixed outbits skipFinalKnapsack
  truncateHash acc outbits

def hashBits (t : HashTable) (a : List (List ZkVar)) (basis : HashBasis) (outbits : ℕ) : ZkCircuit ZkVar := do
  let s ← a.foldlM (absorb t basis.prfkey) {}
  hashFinish t basis.prfkey s outbits false

section Allows
variable {t : HashTable} {prfkey : Option (ℕ × ℕ)} {bits : List ZkVar} {basisi outbits : ℕ} {sequential : Bool}
  {s s' : HashState} {x r : ZkVar}

lemma knapsack1_allows : (knapsack1 t prfkey bits basisi sequential).Allows r ↔
    r = weighted (knapsackBase t prfkey basisi sequential) bits := by
  simp only [knapsack1, allows_bind, allows_var, true_and, constrainValue_allows, allows_pure]
  simp

/-- A turn of the loop of `Hash` in the field. -/
def HashState.absorb (t : HashTable) (prfkey : Option (ℕ × ℕ)) (s : HashState) (abits : List ZkVar) : HashState :=
  let basisi := nextBasis prfkey s.basisi abits.length
  let ks0 := weighted (knapsackBase t prfkey s.basisi true) abits
  let ks1 := weighted (knapsackBase t prfkey basisi false) abits
  { acc := s.acc + ks0 + ks1, ks0 := s.ks0 + ks0, ks1 := s.ks1 + ks1, basisi := nextBasis prfkey basisi abits.length }

lemma absorb_allows : (absorb t prfkey s bits).Allows s' ↔ s' = s.absorb t prfkey bits := by
  simp only [absorb, allows_bind, knapsack1_allows, allows_pure, exists_eq_left, HashState.absorb]

/-- The sums after all inputs. -/
def hashState (t : HashTable) (basis : HashBasis) (a : List (List ZkVar)) : HashState :=
  a.foldl (HashState.absorb t basis.prfkey) {}

/-- The last knapsack of a number of 254 bits. -/
def finishNumber (t : HashTable) (basis : HashBasis) (basisi v : ℕ) : ZkVar :=
  weighted (knapsackBase t basis.prfkey basisi true) (zkBits txFieldBits v)

/-- The numbers of 254 bits that stand for a field element. -/
lemma natCast_eq_iff {v : ℕ} (hv : v < 2^txFieldBits) : (v : ZkVar) = x ↔ v = x.val ∨ v = x.val + fieldPrime := by
  have hlt := ZMod.val_lt x
  have htwice : 2^txFieldBits < 2 * fieldPrime := by norm_num [txFieldBits]
  rw [← ZMod.natCast_zmod_val x, ZMod.natCast_eq_natCast_iff', ZMod.natCast_zmod_val, Nat.mod_eq_of_lt hlt]
  constructor
  · intro h
    have hdiv := Nat.div_add_mod v fieldPrime
    have hle : v / fieldPrime < 2 := Nat.div_lt_of_lt_mul (hv.trans (by rwa [Nat.mul_comm] at htwice))
    interval_cases v / fieldPrime <;> omega
  · rintro (rfl | rfl)
    · exact Nat.mod_eq_of_lt hlt
    · rw [Nat.add_mod_right, Nat.mod_eq_of_lt hlt]

/-- The last knapsack may be that of any number of 254 bits that is the sum in the field. -/
lemma finalKnapsack_allows : (finalKnapsack t prfkey basisi x txFieldBits false).Allows r ↔
    ∃ v : ℕ, v < 2^txFieldBits ∧ (v : ZkVar) = x ∧
      r = weighted (knapsackBase t prfkey basisi true) (zkBits txFieldBits v) := by
  have hinbits : min (txFieldBits * 2) txFieldBits = txFieldBits := rfl
  have hrem : decide (txFieldBits < txFieldBits) = false := decide_eq_false (lt_irrefl _)
  simp only [finalKnapsack, Bool.false_eq_true, if_false, hinbits, hrem, allows_bind, extractBits_allows_plain,
    knapsack1_allows]
  constructor
  · rintro ⟨e, ⟨v, hv, hsum, he⟩, hr⟩
    exact ⟨v, hv, hsum, by rw [hr, he]⟩
  · rintro ⟨v, hv, hsum, hr⟩
    exact ⟨⟨zkBits txFieldBits v, none, none⟩, ⟨v, hv, hsum, rfl⟩, hr⟩

/-- Whatever the sum is, the lower bits may be any number. -/
lemma truncateHash_allows (h : outbits < txFieldBits) :
    (truncateHash x outbits).Allows r ↔ ∃ v : ℕ, v < 2^outbits ∧ r = v := by
  simp only [truncateHash, if_neg (not_le.2 h), allows_bind, extractBits_allows_bitval, allows_pure]
  constructor
  · rintro ⟨e, ⟨v, rem, hv, -, he⟩, hr⟩
    exact ⟨v, hv, by rw [hr, he, Option.getD_some]⟩
  · rintro ⟨v, hv, hr⟩
    refine ⟨_, ⟨v, (x - v) / 2^outbits, hv, ?_, rfl⟩, hr⟩
    rw [div_mul_cancel₀ _ (two_pow_ne_zero outbits), add_sub_cancel]

/-- The last knapsack never fails. -/
lemma exists_finalKnapsack_allows : ∃ r, (finalKnapsack t prfkey basisi x outbits false).Allows r := by
  simp only [finalKnapsack, Bool.false_eq_true, if_false, allows_bind, knapsack1_allows]
  rcases lt_or_ge (min (outbits * 2) txFieldBits) txFieldBits with hlt | hge
  · refine ⟨_, ⟨zkBits (min (outbits * 2) txFieldBits) 0, some (x / 2^(min (outbits * 2) txFieldBits)), none⟩, ?_, rfl⟩
    rw [decide_eq_true hlt, extractBits_allows_rem]
    refine ⟨0, _, Nat.two_pow_pos _, ?_, rfl⟩
    rw [Nat.cast_zero, zero_add, div_mul_cancel₀ _ (two_pow_ne_zero _)]
  · refine ⟨_, ⟨zkBits (min (outbits * 2) txFieldBits) x.val, none, none⟩, ?_, rfl⟩
    rw [decide_eq_false (not_lt.2 hge), extractBits_allows_plain]
    refine ⟨x.val, ?_, ZMod.natCast_zmod_val x, rfl⟩
    rw [min_eq_right (min_eq_right_iff.1 (le_antisymm (min_le_right _ _) hge))]
    exact (ZMod.val_lt x).trans fieldPrime_lt

/-- A number that the circuit takes for a hash of 254 bits: the last knapsack is that of a number of 254 bits which is
the sum in the field, but need not be the smallest one. -/
def Hashes (t : HashTable) (basis : HashBasis) (a : List (List ZkVar)) (r : ZkVar) : Prop :=
  ∃ v : ℕ, v < 2^txFieldBits ∧ (v : ZkVar) = (hashState t basis a).mixed ∧
    r = finishNumber t basis (hashState t basis a).basisi v

/-- The hashes of 254 bits that the circuit allows. -/
theorem hashBits_allows {a : List (List ZkVar)} {basis : HashBasis} :
    (hashBits t a basis txFieldBits).Allows r ↔ Hashes t basis a r := by
  have htruncate (y : ZkVar) : truncateHash y txFieldBits = pure y := if_pos le_rfl
  simp only [hashBits, hashFinish, allows_bind, allows_foldlM (fun _ _ _ => absorb_allows), exists_eq_left, htruncate,
    finalKnapsack_allows, allows_pure, exists_eq_right']
  rfl

lemma exists_hashes (t : HashTable) (basis : HashBasis) (a : List (List ZkVar)) : ∃ r, Hashes t basis a r :=
  ⟨_, _, (ZMod.val_lt _).trans fieldPrime_lt, ZMod.natCast_zmod_val _, rfl⟩

/-- The hashes of fewer bits that the circuit allows: all of them. -/
theorem hashBits_allows_short {a : List (List ZkVar)} {basis : HashBasis} (h : outbits < txFieldBits) :
    (hashBits t a basis outbits).Allows r ↔ ∃ v : ℕ, v < 2^outbits ∧ r = v := by
  simp only [hashBits, hashFinish, allows_bind, allows_foldlM (fun _ _ _ => absorb_allows), exists_eq_left,
    truncateHash_allows h]
  constructor
  · rintro ⟨_, -, hr⟩
    exact hr
  · intro hr
    obtain ⟨y, hy⟩ := exists_finalKnapsack_allows
    exact ⟨y, hy, hr⟩

end Allows

end CredaCash.Zk
