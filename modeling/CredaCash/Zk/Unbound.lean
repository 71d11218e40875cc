import CredaCash.Zk.Unfunded

/-! What the proof of a transaction leaves open: a second hash of the same inputs, and so a second serial number of a
billet, and the numbers that are compared with a hash of fewer bits. -/

namespace CredaCash.Zk
open Chain Circuit FieldBits Spend

variable {c : ZkCounts} {t : HashTable} {pub : TxPayZKPub c} {p : TxNumbers c}

section Hash
variable {basis : HashBasis} {a : List (List ZkVar)} {r : ZkVar}

/-- The sum of a hash has a second number of 254 bits. -/
def HasSecondHash (t : HashTable) (basis : HashBasis) (a : List (List ZkVar)) : Prop :=
  (hashState t basis a).mixed.val + fieldPrime < 2^txFieldBits

/-- The hash with the last knapsack of the second number. -/
def secondHash (t : HashTable) (basis : HashBasis) (a : List (List ZkVar)) : ZkVar :=
  finishNumber t basis (hashState t basis a).basisi ((hashState t basis a).mixed.val + fieldPrime)

lemma exists_number_iff {x : ZkVar} {P : ℕ → Prop} : (∃ v : ℕ, v < 2^txFieldBits ∧ (v : ZkVar) = x ∧ P v) ↔
    P x.val ∨ x.val + fieldPrime < 2^txFieldBits ∧ P (x.val + fieldPrime) := by
  constructor
  · rintro ⟨v, hv, hsum, h⟩
    obtain hval | hval := (natCast_eq_iff hv).1 hsum
    · exact .inl (hval ▸ h)
    · exact .inr ⟨hval ▸ hv, hval ▸ h⟩
  · rintro (h | ⟨hlt, h⟩)
    · exact ⟨_, (ZMod.val_lt _).trans fieldPrime_lt, ZMod.natCast_zmod_val _, h⟩
    · exact ⟨_, hlt, (natCast_eq_iff hlt).2 (.inr rfl), h⟩

/-- A number that the circuit takes for a hash is the hash that nodes compute, or that of the second number. -/
lemma hashes_iff : Hashes t basis a r ↔ r = zkhash t basis a ∨ HasSecondHash t basis a ∧ r = secondHash t basis a :=
  exists_number_iff

lemma hashBits_of_le {outbits : ℕ} (h : txFieldBits ≤ outbits) :
    hashBits t a basis outbits = hashBits t a basis txFieldBits := by
  have hmin : min (outbits * 2) txFieldBits = min (txFieldBits * 2) txFieldBits := by omega
  simp only [hashBits, hashFinish, finalKnapsack, truncateHash, if_pos h, hmin, if_pos (le_refl txFieldBits)]

/-- The circuit of a hash takes one number or two if it is not truncated, and any number if it is. -/
theorem hashBits_allows_iff (t : HashTable) (a : List (List ZkVar)) (basis : HashBasis) (outbits : ℕ) (r : ZkVar) :
    (hashBits t a basis outbits).Allows r ↔
      if txFieldBits ≤ outbits then r = zkhash t basis a ∨ HasSecondHash t basis a ∧ r = secondHash t basis a
      else ∃ v : ℕ, v < 2^outbits ∧ r = v := by
  split_ifs with h
  · rw [hashBits_of_le h, hashBits_allows, hashes_iff]
  · exact hashBits_allows_short (not_le.1 h)

end Hash

section Serialnum
variable {nassets nrouts : ℕ} {txAsset : ℕ → ZkVar} {publics : TxPublics} {outputs : Fin nrouts → TxOutZKPub}
  {q : TxInZKPub} {s : Fin c.nin} {r : ZkVar}

/-- An input whose serial number is not checked. -/
def TxInZKPub.noSerialnum (q : TxInZKPub) : TxInZKPub := { q with enforceSerialnum := false }

/-- The public inputs of a transaction with other ones for an input. -/
def TxPayZKPub.setInput (pub : TxPayZKPub c) (s : Fin c.nin) (q : TxInZKPub) : TxPayZKPub c :=
  { pub with inputs := Function.update pub.inputs s q }

end Serialnum

section Outputs
variable {nassets : ℕ} {txAsset : ℕ → ZkVar} {publics : TxPublics} {outputs : Fin c.nout → TxOutZKPub}
  {o o' : TxOutZKPub}

/-- An encrypted number that may stand for another one: where the encryption is enforced, the bits of the mask are
free. -/
def SameMasked {n : ℕ} (enforce : Bool) (mask enc enc' : BitVec n) : Prop :=
  if enforce = true then enc' &&& ~~~mask = enc &&& ~~~mask else enc' = enc

/-- An output with another address, and with encrypted numbers that may stand for its own. -/
structure Readdresses (o o' : TxOutZKPub) : Prop where
  eq : o' = { o with
    destChain := o'.destChain, address := o'.address, assetEnc := o'.assetEnc, amountEnc := o'.amountEnc }
  assetEnc : SameMasked o.enforceAsset o.assetMask o.assetEnc o'.assetEnc
  amountEnc : SameMasked o.enforceAmount o.amountMask o.amountEnc o'.amountEnc

lemma Readdresses.symm (h : Readdresses o o') : Readdresses o' o := by
  obtain ⟨heq, hasset, hamount⟩ := h
  rw [heq]
  refine ⟨rfl, ?_, ?_⟩
  · simpa only [SameMasked, eq_comm] using hasset
  · simpa only [SameMasked, eq_comm] using hamount

end Outputs

end CredaCash.Zk
