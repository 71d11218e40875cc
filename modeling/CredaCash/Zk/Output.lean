import CredaCash.Zk.Hash
import CredaCash.Zk.TxPayZK
import Mathlib.Algebra.BigOperators.Fin

/-! The constraints of an output, and the rules that they amount to. -/

namespace CredaCash.Zk
open Chain Circuit FieldBits Spend

def txAcceptReqDestMask : ℕ := 0x1F
def txStaticAddressMask : ℕ := 0xFE0

/-- `tx_asset`, where that of index 0 is 0 and the others are private inputs. -/
def assetAt (txAsset : ℕ → ZkVar) (i : ℕ) : ZkVar := if 0 < i then txAsset (i - 1) else 0

/-- The two rules for `is_asset`, which are those of outputs and of inputs. -/
def checkIsAsset {nassets : ℕ} (txAsset : ℕ → ZkVar) (isAsset : Fin nassets → ZkVar) (asset : ZkVar) :
    ZkCircuit Unit := do
  constrainZero ((List.finRange nassets).foldl (fun check i => check - isAsset i) 1)
  forM (List.finRange nassets) fun i : Fin nassets => constrainZero ((asset - assetAt txAsset i) * isAsset i)

def enforceMinmax (enforce : Bool) (asset : ZkWord) : ZkVar :=
  mulClear (zkBit enforce) asset.bits (List.range txAssetBits)

/-- The exponent of an amount. -/
def amountExponent (amountFp : ZkWord) : ZkVar := sumBits (amountFp.bits.take txAmountExponentBits)

/-- The rules for an encrypted number. -/
def checkEncrypted (nbits : ℕ) (pad : ZkVar) (enforce : Bool) (value xor mask enc : ZkWord) : ZkCircuit Unit := do
  let pad ← breakout (pad * zkBit enforce + (1 - zkBit enforce) * value.var) nbits
  checkAnd xor.bits mask.bits pad.bits
  checkXor enc.bits value.bits xor.bits

/-- The bits of the public inputs of an output. -/
structure TxOutBits where
  destChain : ZkWord
  domain : ZkWord
  assetMask : ZkWord
  assetEnc : ZkWord
  amountMask : ZkWord
  amountEnc : ZkWord

/-- `breakout_bits` for the public inputs of an output. -/
def breakoutOutputPublic (pub : TxOutZKPub) : ZkCircuit TxOutBits := do
  let destChain ← breakout (toVar pub.destChain) txChainBits
  let domain ← breakout (toVar pub.domain) txDomainBits
  let assetMask ← breakout (toVar pub.assetMask) txAssetBits
  let assetEnc ← breakout (toVar pub.assetEnc) txAssetBits
  let amountMask ← breakout (toVar pub.amountMask) txAmountBits
  let amountEnc ← breakout (toVar pub.amountEnc) txAmountBits
  return ⟨destChain, domain, assetMask, assetEnc, amountMask, amountEnc⟩

def TxOutZKPub.words (pub : TxOutZKPub) : TxOutBits :=
  ⟨word pub.destChain, word pub.domain, word pub.assetMask, word pub.assetEnc, word pub.amountMask, word pub.amountEnc⟩

/-- The rules for the exponent of an amount. -/
def checkMinmax (publics : TxPublics) (enforceMinmax exponent amountFp : ZkVar) : ZkCircuit Unit := do
  checkGreaterequal exponent (toVar publics.outvalmin * enforceMinmax) txAmountExponentBits (some amountFp)
  checkGreaterequal (toVar publics.outvalmax) (exponent * enforceMinmax) txAmountExponentBits none

/-- The rules for the encrypted asset and amount. -/
def checkEncryption (t : HashTable) (iv : ZkWord) (pub : TxOutZKPub) (bits : TxOutBits)
    (p : TxOutZKPriv nassets ZkVar ZkWords) : ZkCircuit Unit := do
  let oneTimePad ← hashBits t [iv.bits.take txEncIvBits, p.dest.bits, p.paynum.bits] .amountEnc
    (txAssetBits + txAmountBits)
  let pads ← extractBits oneTimePad oneTimePad.val txAssetBits true true
  checkEncrypted txAssetBits (pads.bitval.getD 0) pub.enforceAsset p.asset p.assetXor bits.assetMask bits.assetEnc
  checkEncrypted txAmountBits (pads.rem.getD 0) pub.enforceAmount p.amountFp p.amountXor bits.amountMask bits.amountEnc

/-- The rules for the destination. -/
def checkDestination (pub : TxOutZKPub) (p : TxOutZKPriv nassets ZkVar ZkWords) : ZkCircuit Unit := do
  constrainZero (mulClear (1 - zkBit pub.acceptanceRequired) p.dest.bits (maskBits txAcceptReqDestMask))
  constrainZero (mulClear p.paynum.var p.dest.bits (maskBits txStaticAddressMask))

/-- The rule for the address. -/
def checkAddress (t : HashTable) (pub : TxOutZKPub) (bits : TxOutBits) (p : TxOutZKPriv nassets ZkVar ZkWords) :
    ZkCircuit Unit := do
  let check ← hashBits t [p.dest.bits, bits.destChain.bits, p.paynum.bits] .address txAddressBits
  constrainZero ((check - toVar pub.address) * zkBit pub.enforceAddress)

/-- `compute_output`, which gives the amount as an integer. -/
def computeOutput (t : HashTable) (txAsset : ℕ → ZkVar) (publics : TxPublics) (iv : ZkWord) (pub : TxOutZKPub)
    (bits : TxOutBits) (p : TxOutZKPriv nassets ZkVar ZkWords) : ZkCircuit ZkVar := do
  let amountInt := computeIntegerAmount p.amountFp.bits
  checkIsAsset txAsset p.isAsset p.asset.var
  checkMinmax publics (enforceMinmax pub.enforce p.asset) (amountExponent p.amountFp) p.amountFp.var
  checkEncryption t iv pub bits p
  checkDestination pub p
  checkAddress t pub bits p
  let check ← hashBits t [iv.bits, p.dest.bits, p.paynum.bits, bits.domain.bits, p.asset.bits, p.amountFp.bits]
    .commitment txFieldBits
  constrainZero ((check - pub.commitment) * zkBit pub.enforce)
  return amountInt

/-- The bits of a number. -/
abbrev bitsOf {n : ℕ} (v : BitVec n) : List ZkVar := zkBits n v.toNat

/-- The hash of a billet is a commitment. -/
def Commits (t : HashTable) (iv : BitVec txCommitIvBits) (dest : BitVec txFieldBits) (paynum : BitVec txPaynumBits)
    (domain : BitVec txDomainBits) (asset : BitVec txAssetBits) (amount : BitVec txAmountBits) (commitment : ZkVar) :
    Prop :=
  Hashes t .commitment [bitsOf iv, bitsOf dest, bitsOf paynum, bitsOf domain, bitsOf asset, bitsOf amount] commitment

/-- The asset of a billet is one of those of the transaction. -/
def IsAsset {nassets : ℕ} (txAsset : ℕ → ZkVar) (isAsset : Fin nassets → Bool) (asset : BitVec txAssetBits) : Prop :=
  ∃ k, (∀ i, isAsset i = true ↔ i = k) ∧ toVar asset = assetAt txAsset k

/-- The pad of an encrypted number, which may be any number where the encryption is enforced. -/
def Padded {n : ℕ} (enforce : Bool) (value xor mask : BitVec n) : Prop :=
  ∃ pad, (enforce = false → pad = value) ∧ xor = mask &&& pad

/-- The rules of an output. -/
structure OutputRules {nassets : ℕ} (t : HashTable) (txAsset : ℕ → ZkVar) (publics : TxPublics) (pub : TxOutZKPub)
    (p : TxOutZKPriv nassets Bool BitVec) : Prop where
  isAsset : IsAsset txAsset p.isAsset p.asset
  outvalmin : pub.enforce = true → p.asset = 0 → p.amountFp ≠ 0 →
    publics.outvalmin.toNat ≤ p.amountFp.toNat % 2^txAmountExponentBits
  outvalmax : pub.enforce = true → p.asset = 0 →
    p.amountFp.toNat % 2^txAmountExponentBits ≤ publics.outvalmax.toNat
  assetXor : Padded pub.enforceAsset p.asset p.assetXor pub.assetMask
  assetEnc : pub.assetEnc = p.asset ^^^ p.assetXor
  amountXor : Padded pub.enforceAmount p.amountFp p.amountXor pub.amountMask
  amountEnc : pub.amountEnc = p.amountFp ^^^ p.amountXor
  acceptance : p.dest.toNat &&& txAcceptReqDestMask = 0 → pub.acceptanceRequired = true
  paynum : p.dest.toNat &&& txStaticAddressMask = 0 → p.paynum = 0
  commitment : pub.enforce = true →
    Commits t publics.commitmentIv p.dest p.paynum pub.domain p.asset p.amountFp pub.commitment

section Allows
variable {nassets n : ℕ} {t : HashTable} {txAsset : ℕ → ZkVar} {publics : TxPublics} {pub : TxOutZKPub}
  {p : TxOutZKPriv nassets Bool BitVec} {u : Unit} {r : ZkVar}

lemma breakoutOutputPublic_allows {bits : TxOutBits} : (breakoutOutputPublic pub).Allows bits ↔ bits = pub.words := by
  have hbreakout {n : ℕ} (hn : n ≤ 253) (v : BitVec n) (w : ZkWord) : (breakout (toVar v) n).Allows w ↔ w = word v :=
    breakout_allows_of_eq hn rfl
  simp only [breakoutOutputPublic, allows_bind, hbreakout (show txChainBits ≤ 253 by decide),
    hbreakout (show txDomainBits ≤ 253 by decide), hbreakout (show txAssetBits ≤ 253 by decide),
    hbreakout (show txAmountBits ≤ 253 by decide), exists_eq_left, allows_pure]
  rfl

lemma foldl_sub {ι : Type} (f : ι → ZkVar) (l : List ι) (x : ZkVar) :
    l.foldl (fun check i => check - f i) x = x - (l.map f).sum := by
  induction l generalizing x with
  | nil => simp
  | cons i l ih => rw [List.foldl_cons, ih, List.map_cons, List.sum_cons, sub_sub]

lemma sum_zkBit (b : Fin n → Bool) : ∑ i, zkBit (b i) = ((Finset.univ.filter (b · = true)).card : ZkVar) := by
  rw [Finset.card_filter, Nat.cast_sum]
  exact Finset.sum_congr rfl fun i _ => by cases b i <;> simp

lemma checkIsAsset_allows (hn : n < fieldPrime) {isAsset : Fin n → Bool} {asset : BitVec txAssetBits} :
    (checkIsAsset txAsset (fun i => zkBit (isAsset i)) (toVar asset)).Allows u ↔ IsAsset txAsset isAsset asset := by
  have hone : (List.finRange n).foldl (fun check i => check - zkBit (isAsset i)) 1 = 0 ↔
      ∃ k, ∀ i, isAsset i = true ↔ i = k := by
    have hcard : (Finset.univ.filter (isAsset · = true)).card < fieldPrime :=
      ((Finset.card_filter_le _ _).trans_eq (Finset.card_fin n)).trans_lt hn
    rw [foldl_sub, ← Fin.sum_univ_def, sum_zkBit, sub_eq_zero, ← Nat.cast_one,
      natCast_inj_of_lt (p := fieldPrime) (by decide) hcard, eq_comm, Finset.card_eq_one]
    simp only [Finset.ext_iff, Finset.mem_filter, Finset.mem_univ, true_and, Finset.mem_singleton]
  simp only [checkIsAsset, allows_bind, allows_constrainZero, allows_forM, List.mem_finRange, true_implies,
    mul_zkBit_eq_zero, sub_eq_zero, exists_const, hone, IsAsset]
  constructor
  · rintro ⟨⟨k, hk⟩, hasset⟩
    exact ⟨k, hk, hasset k ((hk k).2 rfl)⟩
  · rintro ⟨k, hk, hasset⟩
    exact ⟨⟨k, hk⟩, fun i hi => (hk i).1 hi ▸ hasset⟩

lemma toVar_mul_zkBit (v : BitVec n) (b : Bool) :
    toVar v * zkBit b = ((if b = true then v.toNat else 0 : ℕ) : ZkVar) := by
  cases b <;> simp [toVar]

lemma enforceMinmax_eq (enforce : Bool) (asset : BitVec txAssetBits) :
    enforceMinmax enforce (word asset) = zkBit (enforce && asset = 0) := by
  rw [enforceMinmax, mulClear_range le_rfl, zkBit_mul_zkBit, Nat.mod_eq_of_lt asset.isLt]
  simp only [← BitVec.toNat_inj, BitVec.ofNat_eq_ofNat, BitVec.toNat_ofNat, Nat.zero_mod]

lemma amountExponent_eq (amount : BitVec txAmountBits) :
    amountExponent (word amount) = ((amount.toNat % 2^txAmountExponentBits : ℕ) : ZkVar) :=
  sumBits_take (by decide)

lemma toVar_eq_zero (hn : n ≤ 253) {v : BitVec n} : toVar v = 0 ↔ v = 0 := natCast_toNat_eq_zero hn

lemma checkMinmax_allows {e : Bool} {amount : BitVec txAmountBits} :
    (checkMinmax publics (zkBit e) (amountExponent (word amount)) (toVar amount)).Allows u ↔
      (e = true → amount ≠ 0 → publics.outvalmin.toNat ≤ amount.toNat % 2^txAmountExponentBits) ∧
        (e = true → amount.toNat % 2^txAmountExponentBits ≤ publics.outvalmax.toNat) := by
  have hexponent : amount.toNat % 2^txAmountExponentBits < 2^txAmountExponentBits := Nat.mod_lt _ (Nat.two_pow_pos _)
  have hmin : (if e = true then publics.outvalmin.toNat else 0) < 2^txAmountExponentBits := by
    split_ifs
    · exact publics.outvalmin.isLt
    · exact Nat.two_pow_pos _
  have hmul : ((amount.toNat % 2^txAmountExponentBits : ℕ) : ZkVar) * zkBit e =
      ((if e = true then amount.toNat % 2^txAmountExponentBits else 0 : ℕ) : ZkVar) := by
    cases e <;> simp
  have hmax : (if e = true then amount.toNat % 2^txAmountExponentBits else 0) < 2^txAmountExponentBits := by
    split_ifs
    · exact hexponent
    · exact Nat.two_pow_pos _
  simp only [checkMinmax, allows_bind, amountExponent_eq, toVar_mul_zkBit, hmul, toVar.eq_def publics.outvalmax,
    checkGreaterequal_allows (n := txAmountExponentBits) (by decide) hexponent hmin,
    checkGreaterequal_allows (n := txAmountExponentBits) (by decide) publics.outvalmax.isLt hmax, exists_const]
  rw [Option.some.injEq, toVar_eq_zero (by decide)]
  cases e
  · simp
  · simp only [if_true, true_implies, or_iff_not_imp_left, reduceCtorEq, not_false_eq_true, ne_eq]

/-- A number that is encrypted with a pad, or with itself where that is not enforced. -/
lemma checkEncrypted_allows (hn : n ≤ 253) {pad : ZkVar} {e : Bool} {value xor mask enc : BitVec n} :
    (checkEncrypted n pad e (word value) (word xor) (word mask) (word enc)).Allows u ↔
      (∃ v : BitVec n, (e = true → pad = toVar v) ∧ (e = false → v = value) ∧ xor = mask &&& v) ∧
        enc = value ^^^ xor := by
  have hpad (v : BitVec n) : toVar v = pad * zkBit e + (1 - zkBit e) * toVar value ↔
      (e = true → pad = toVar v) ∧ (e = false → v = value) := by
    cases e
    · simpa [toVar] using natCast_toNat_inj hn
    · simp [eq_comm]
  simp only [checkEncrypted, allows_bind, breakout_allows_iff]
  constructor
  · rintro ⟨_, ⟨v, hv, rfl⟩, _, hand, hxor⟩
    exact ⟨⟨v, ((hpad v).1 hv.symm).1, ((hpad v).1 hv.symm).2, checkAnd_allows.1 hand⟩, checkXor_allows.1 hxor⟩
  · rintro ⟨⟨v, he, hne, hand⟩, hxor⟩
    exact ⟨_, ⟨v, ((hpad v).2 ⟨he, hne⟩).symm, rfl⟩, (), checkAnd_allows.2 hand, checkXor_allows.2 hxor⟩

/-- The pads come from a hash with less bits than a field element, so they may be any numbers. -/
lemma checkEncryption_allows {iv : ZkWord} :
    (checkEncryption t iv pub pub.words (p.map zkBit word)).Allows u ↔
      (Padded pub.enforceAsset p.asset p.assetXor pub.assetMask ∧ pub.assetEnc = p.asset ^^^ p.assetXor) ∧
        Padded pub.enforceAmount p.amountFp p.amountXor pub.amountMask ∧ pub.amountEnc = p.amountFp ^^^ p.amountXor := by
  have hbits : txAssetBits + txAmountBits < txFieldBits := by decide
  simp only [checkEncryption, allows_bind, hashBits_allows_short hbits, extractBits_allows_bitval, TxOutZKPub.words,
    TxOutZKPriv.map, Padded]
  constructor
  · rintro ⟨_, -, e, ⟨low, high, hlow, -, rfl⟩, _, hasset, hamount⟩
    obtain ⟨⟨v, -, hv, hxor⟩, henc⟩ := (checkEncrypted_allows (by decide)).1 hasset
    obtain ⟨⟨v', -, hv', hxor'⟩, henc'⟩ := (checkEncrypted_allows (by decide)).1 hamount
    exact ⟨⟨⟨v, hv, hxor⟩, henc⟩, ⟨v', hv', hxor'⟩, henc'⟩
  · rintro ⟨⟨⟨v, hv, hxor⟩, henc⟩, ⟨v', hv', hxor'⟩, henc'⟩
    have hlt : v.toNat + v'.toNat * 2^txAssetBits < 2^(txAssetBits + txAmountBits) := by
      have hhigh := Nat.mul_le_mul_right (2^txAssetBits) (Nat.succ_le_of_lt v'.isLt)
      rw [Nat.succ_mul, ← pow_add, Nat.add_comm txAmountBits] at hhigh
      have hlow := v.isLt
      omega
    refine ⟨_, ⟨_, hlt, rfl⟩, _, ⟨v.toNat, toVar v', v.isLt, ?_, rfl⟩, (), ?_, ?_⟩
    · rw [toVar]
      push_cast
      rfl
    · exact (checkEncrypted_allows (by decide)).2 ⟨⟨v, fun _ => rfl, hv, hxor⟩, henc⟩
    · exact (checkEncrypted_allows (by decide)).2 ⟨⟨v', fun _ => rfl, hv', hxor'⟩, henc'⟩

lemma checkDestination_allows : (checkDestination pub (p.map zkBit word)).Allows u ↔
    (p.dest.toNat &&& txAcceptReqDestMask = 0 → pub.acceptanceRequired = true) ∧
      (p.dest.toNat &&& txStaticAddressMask = 0 → p.paynum = 0) := by
  have hmask (mask : ℕ) (hmask : mask < 2^txFieldBits) (x : ZkVar) := mulClear_maskBits (v := p.dest) (x := x) hmask
  simp only [checkDestination, allows_bind, allows_constrainZero, TxOutZKPriv.map, exists_const,
    hmask txAcceptReqDestMask (by decide), hmask txStaticAddressMask (by decide), mul_zkBit_eq_zero, decide_eq_true_iff,
    one_sub_zkBit, zkBit_eq_zero, Bool.not_eq_false']
  exact and_congr_right fun _ => imp_congr_right fun _ => toVar_eq_zero (by decide)

/-- The address comes from a hash with less bits than a field element, so it may be any number. -/
lemma checkAddress_allows {bits : TxOutBits} {q : TxOutZKPriv nassets ZkVar ZkWords} :
    (checkAddress t pub bits q).Allows u := by
  simp only [checkAddress, allows_bind, hashBits_allows_short (show txAddressBits < txFieldBits by decide),
    allows_constrainZero]
  exact ⟨toVar pub.address, ⟨pub.address.toNat, pub.address.isLt, rfl⟩, by rw [sub_self, zero_mul]⟩

/-- A hash that is checked where a condition holds. -/
lemma exists_hashes_iff {basis : HashBasis} {a : List (List ZkVar)} {x : ZkVar} {P : Prop} :
    (∃ check, Hashes t basis a check ∧ (P → check - x = 0)) ↔ (P → Hashes t basis a x) := by
  by_cases h : P
  · simp only [h, true_implies, sub_eq_zero, exists_eq_right]
  · simpa only [h, false_implies, and_true, iff_true] using exists_hashes t basis a

/-- The constraints of an output are its rules. -/
theorem computeOutput_allows (hn : nassets < fieldPrime) :
    (computeOutput t txAsset publics (word publics.commitmentIv) pub pub.words (p.map zkBit word)).Allows r ↔
      OutputRules t txAsset publics pub p ∧ r = (txAmountDecode p.amountFp.toNat : ZkVar) := by
  have hminmax : (checkMinmax publics (enforceMinmax pub.enforce (word p.asset)) (amountExponent (word p.amountFp))
      (toVar p.amountFp)).Allows () ↔
        (pub.enforce = true → p.asset = 0 → p.amountFp ≠ 0 →
          publics.outvalmin.toNat ≤ p.amountFp.toNat % 2^txAmountExponentBits) ∧
        (pub.enforce = true → p.asset = 0 →
          p.amountFp.toNat % 2^txAmountExponentBits ≤ publics.outvalmax.toNat) := by
    rw [enforceMinmax_eq, checkMinmax_allows]
    simp only [Bool.and_eq_true, decide_eq_true_iff, and_imp]
  simp only [computeOutput, allows_bind, exists_unit, hashBits_allows, allows_constrainZero, mul_zkBit_eq_zero,
    allows_pure]
  constructor
  · rintro ⟨hasset, hexponent, hencryption, hdestination, -, check, hcheck, hzero, rfl⟩
    obtain ⟨⟨hassetXor, hassetEnc⟩, hamountXor, hamountEnc⟩ := checkEncryption_allows.1 hencryption
    obtain ⟨hacceptance, hpaynum⟩ := checkDestination_allows.1 hdestination
    refine ⟨?_, computeIntegerAmount_eq p.amountFp⟩
    exact ⟨(checkIsAsset_allows hn).1 hasset, (hminmax.1 hexponent).1, (hminmax.1 hexponent).2, hassetXor, hassetEnc,
      hamountXor, hamountEnc, hacceptance, hpaynum, exists_hashes_iff.1 ⟨check, hcheck, hzero⟩⟩
  · rintro ⟨h, rfl⟩
    obtain ⟨check, hcheck, hzero⟩ := exists_hashes_iff.2 h.commitment
    exact ⟨(checkIsAsset_allows hn).2 h.isAsset, hminmax.2 ⟨h.outvalmin, h.outvalmax⟩,
      checkEncryption_allows.2 ⟨⟨h.assetXor, h.assetEnc⟩, h.amountXor, h.amountEnc⟩,
      checkDestination_allows.2 ⟨h.acceptance, h.paynum⟩, checkAddress_allows, check, hcheck, hzero,
      (computeIntegerAmount_eq p.amountFp).symm⟩

end Allows

end CredaCash.Zk
