import CredaCash.Zk.Conservation

/-! What a proof shows about the amounts of a transaction. The sums of the circuit are over all inputs of the key that
the message names, and an input that the transaction does not have may have any amount. -/

namespace CredaCash.Zk
open Chain Circuit FieldBits Spend
open Wire (TxPay)

variable {c : ZkCounts} {t : HashTable} {pub : TxPayZKPub c} {p : TxNumbers c}

section Verify
variable {tx : TxPay} {amountCarryIn : ℕ}

/-- `CCProof_Compute` up to the public inputs, for the key that the message names. -/
def verifyInputs (tx : TxPay) (amountCarryIn : ℕ) : Option (TxPayZKPub (setTxCounts tx.zkkeyid)) :=
  let c := setTxCounts tx.zkkeyid
  -- the assertion of `GetKeyId`
  if nproof ≤ tx.zkkeyid then none
  else if c.nout < tx.nout ∨ c.nin < tx.nin ∨ c.ninWithPath < tx.ninWithPath then none
  else blessPublicInputs tx amountCarryIn c

/-- There are private inputs that a proof of a message can be made from. -/
def Provable (t : HashTable) (tx : TxPay) (amountCarryIn : ℕ) : Prop :=
  ∃ pub, verifyInputs tx amountCarryIn = some pub ∧ Satisfiable t pub

/-- Where the public inputs come from. -/
structure Blessed (tx : TxPay) (amountCarryIn : ℕ) (pub : TxPayZKPub c) : Prop where
  publics : blessTxPublicInputs tx amountCarryIn = some pub.publics
  outputs : ∀ i : Fin c.nout, blessOutputPublicInputs (tx.outputs.getD i {}) (i.val < tx.nout) = some (pub.outputs i)
  inputs : ∀ i : Fin c.nin, blessInputPublicInputs ((zkInputs tx c.nin).getD i {}) (i.val < tx.nin) = some (pub.inputs i)
  enforcePath : ∀ i, pub.enforcePath i = decide (i.val < tx.ninWithPath)

lemma verifyInputs_eq_some {pub : TxPayZKPub (setTxCounts tx.zkkeyid)} : verifyInputs tx amountCarryIn = some pub ↔
    tx.zkkeyid < nproof ∧ ¬((setTxCounts tx.zkkeyid).nout < tx.nout ∨ (setTxCounts tx.zkkeyid).nin < tx.nin ∨
      (setTxCounts tx.zkkeyid).ninWithPath < tx.ninWithPath) ∧
    ((tx.inputs.filter (·.pathnum ≠ 0)).length = tx.ninWithPath ∧
      (tx.inputs.filter (·.pathnum ≠ 0)).length ≤ (setTxCounts tx.zkkeyid).ninWithPath ∧
      (zkInputs tx (setTxCounts tx.zkkeyid).nin).length = (setTxCounts tx.zkkeyid).nin) ∧
    Blessed tx amountCarryIn pub := by
  rw [verifyInputs]
  split_ifs with hkey hcounts
  · exact iff_of_false (by simp) fun h => h.1.not_ge hkey
  · exact iff_of_false (by simp) fun h => h.2.1 hcounts
  rw [and_iff_right (not_le.1 hkey), and_iff_right hcounts]
  simp only [blessPublicInputs, Option.bind_eq_bind, Option.bind_eq_some_iff, sequenceFin_eq_some, Option.pure_def,
    Option.some.injEq, Option.guard_eq_some']
  constructor
  · rintro ⟨publics, hpublics, outputs, houtputs, _, hguard, inputs, hinputs, rfl⟩
    exact ⟨hguard, hpublics, houtputs, hinputs, fun i => by rw [← hguard.1]⟩
  · rintro ⟨hguard, h⟩
    refine ⟨_, h.publics, _, h.outputs, (), hguard, _, h.inputs, ?_⟩
    have hpaths : pub.enforcePath = fun i => decide (i.val < (tx.inputs.filter (·.pathnum ≠ 0)).length) :=
      funext fun i => by rw [h.enforcePath, hguard.1]
    rw [← hpaths]

end Verify

section Unused
variable {tx : TxPay} {amountCarryIn : ℕ}

/-- The public inputs of an input that the transaction does not have. -/
structure Unused (q : TxInZKPub) : Prop where
  enforce : q.enforce = false
  masterSecret : q.enforceMasterSecret = false
  spendSecrets : q.enforceSpendSecrets = false
  trustSecrets : q.enforceTrustSecrets = false
  freeze : q.enforceFreeze = false
  unfreeze : q.enforceUnfreeze = false
  publicCommitment : q.enforcePublicCommitment = false
  publicCommitnum : q.enforcePublicCommitnum = false
  serialnum : q.enforceSerialnum = false

/-- Numbers for an input that the transaction does not have. -/
def unusedInput {nassets nrouts : ℕ} (k : Fin nassets) (asset : BitVec txAssetBits) (amount : BitVec txAmountBits) :
    TxInNumbers nassets nrouts where
  billet := ⟨fun j => j = k, asset, amount, 0, 0, 0, 0⟩
  params := ⟨false, false, 0, false, false, false, false, false, 0, 0, 0, 0, fun _ => false, fun _ => false, 0, 0, 0⟩
  secrets := ⟨0, 0, false, false, false, fun _ => false, fun _ => 0, fun _ => 0, fun _ => 0⟩
  outputAddressMatches _ _ := false

/-- An input that the transaction does not have may have any amount of any of its assets. -/
lemma unusedInput_rules {nassets nrouts : ℕ} {txAsset : ℕ → ZkVar} {publics : TxPublics}
    {outputs : Fin nrouts → TxOutZKPub} {q : TxInZKPub} (hq : Unused q) {k : Fin nassets} {asset : BitVec txAssetBits}
    (hasset : toVar asset = assetAt txAsset k) (amount : BitVec txAmountBits) :
    InputRules t txAsset publics outputs q (unusedInput k asset amount) where
  isAsset := ⟨k, fun i => decide_eq_true_iff, hasset⟩
  invalmax h := by simp [hq.enforce] at h
  flags := by
    constructor <;> simp [hq.masterSecret, hq.spendSecrets, hq.trustSecrets, hq.freeze, hq.unfreeze, unusedInput]
  hashkey := by constructor <;> simp [unusedInput]
  required := by constructor <;> simp [unusedInput]
  secrets := by constructor <;> simp [unusedInput]
  restricted := by constructor <;> simp [unusedInput, Restricts]
  commitment := by constructor <;> simp [hq.enforce, hq.publicCommitment, hq.publicCommitnum, hq.serialnum]

/-- The sum of the inputs with an asset index, without one of them. -/
def inputSumExcept (p : TxNumbers c) (s : Fin c.nin) (j : Fin c.nassets) : ℕ :=
  ∑ i ∈ Finset.univ.erase s, if (p.inputs i).billet.isAsset j = true then
    txAmountDecode (p.inputs i).billet.amountFp.toNat else 0

lemma inputSum_eq (p : TxNumbers c) (s : Fin c.nin) (j : Fin c.nassets) : inputSum p j = inputSumExcept p s j +
    if (p.inputs s).billet.isAsset j = true then txAmountDecode (p.inputs s).billet.amountFp.toNat else 0 := by
  rw [inputSum, inputSumExcept, Finset.sum_erase_add _ _ (Finset.mem_univ s)]

/-- The rules of a transaction for all inputs but one, and without those for the sums. -/
structure RulesExcept (t : HashTable) (pub : TxPayZKPub c) (p : TxNumbers c) (s : Fin c.nin) : Prop where
  outputs : ∀ i, OutputRules t p.txAsset pub.publics (pub.outputs i) (p.outputs i)
  inputs : ∀ i, i ≠ s → InputRules t p.txAsset pub.publics pub.outputs (pub.inputs i) (p.inputs i)
  paths : ∀ (i : Fin c.nin) (h : i.val < c.ninWithPath), i ≠ s →
    PathRule t (pub.inputs i) (p.inputs i).billet (pub.enforcePath ⟨i, h⟩) (p.merklePaths ⟨i, h⟩)

/-- The numbers of a transaction with other ones for an input. -/
def TxPayZKPriv.setInput (p : TxNumbers c) (s : Fin c.nin) (q : TxInNumbers c.nassets c.nout) : TxNumbers c :=
  { p with inputs := Function.update p.inputs s q }

section SetInput
variable {s : Fin c.nin} {q : TxInNumbers c.nassets c.nout}

@[simp] lemma setInput_self : (p.setInput s q).inputs s = q := Function.update_self ..

lemma setInput_of_ne {i : Fin c.nin} (h : i ≠ s) : (p.setInput s q).inputs i = p.inputs i := Function.update_of_ne h ..

lemma inputSumExcept_setInput (j : Fin c.nassets) : inputSumExcept (p.setInput s q) s j = inputSumExcept p s j :=
  Finset.sum_congr rfl fun i hi => by rw [setInput_of_ne (Finset.ne_of_mem_erase hi)]

end SetInput

lemma RulesExcept.setInput {s : Fin c.nin} (h : RulesExcept t pub p s) (hunused : Unused (pub.inputs s))
    (hpath : ∀ h : s.val < c.ninWithPath, pub.enforcePath ⟨s, h⟩ = false) {k : Fin c.nassets}
    {asset : BitVec txAssetBits} (hasset : toVar asset = assetAt p.txAsset k) (amount : BitVec txAmountBits)
    (hbalance : ∀ j : Fin c.nassets, (if j.val = 0 then pub.publics.donation else 0) + (outputSum pub p j : ZkVar) =
      ((inputSumExcept p s j + if j = k then txAmountDecode amount.toNat else 0 : ℕ) : ZkVar)) :
    TxRules t pub (p.setInput s (unusedInput k asset amount)) where
  outputs := h.outputs
  inputs i := by
    by_cases hi : i = s
    · subst hi
      rw [setInput_self]
      exact unusedInput_rules hunused hasset amount
    · rw [setInput_of_ne hi]
      exact h.inputs i hi
  paths i hlt := by
    by_cases hi : i = s
    · subst hi
      intro henforce
      rw [hpath hlt] at henforce
      cases henforce
    · rw [setInput_of_ne hi]
      exact h.paths i hlt hi
  balance j := by
    have hsame : outputSum pub (p.setInput s (unusedInput k asset amount)) j = outputSum pub p j := rfl
    rw [inputSum_eq _ s, inputSumExcept_setInput, setInput_self, hsame, hbalance j]
    simp only [unusedInput, decide_eq_true_iff]

end Unused

section Unfunded
variable {asset : BitVec txAssetBits} {amount : BitVec txAmountBits}

/-- The commitment to a billet for the destination 0. -/
def unfundedCommitment (t : HashTable) (asset : BitVec txAssetBits) (amount : BitVec txAmountBits) : ZkVar :=
  zkhash t .commitment [bitsOf (0 : BitVec txCommitIvBits), bitsOf (0 : BitVec txFieldBits),
    bitsOf (0 : BitVec txPaynumBits), bitsOf (0 : BitVec txDomainBits), bitsOf asset, bitsOf amount]

/-- A message without inputs and with an output. -/
def unfundedTx (t : HashTable) (asset : BitVec txAssetBits) (amount : BitVec txAmountBits) : TxPay where
  nout := 1
  outvalmax := 31
  outputs := [{ acceptanceRequired := true, assetMask := 2^txAssetBits - 1, amountMask := 2^txAmountBits - 1,
                commitment := (unfundedCommitment t asset amount).val }]

/-- The public inputs of that message for the key 0, which has two outputs and an input. -/
def unfundedPub (t : HashTable) (asset : BitVec txAssetBits) (amount : BitVec txAmountBits) :
    TxPayZKPub (setTxCounts 0) where
  publics := ⟨0, 0, 0, 31, false, 0⟩
  outputs i := ⟨i.val < 1, 0, 0, i.val < 1, 0, true, if i.val < 1 then 1 else 0, i.val < 1, BitVec.allOnes _, 0, 0,
    i.val < 1, BitVec.allOnes _, if i.val < 1 then unfundedCommitment t asset amount else 0⟩
  inputs _ := ⟨false, false, false, false, false, false, 0, 0, 0, 0, false, false, blessField true 0, 0, false,
    blessField true 0, blessField true 0, blessField true 0⟩
  enforcePath _ := false

/-- Private inputs for them: the input that the message does not have has the amount of the output. -/
def unfundedNumbers (asset : BitVec txAssetBits) (amount : BitVec txAmountBits) : TxNumbers (setTxCounts 0) where
  txAsset _ := toVar asset
  outputs _ := ⟨fun j => j.val = 1, 0, 0, asset, amount, asset, amount⟩
  inputs _ := unusedInput ⟨1, by decide⟩ asset amount
  merklePaths _ _ := 0

lemma blessOutputPublicInputs_unfunded (commitment : ℕ) :
    blessOutputPublicInputs
        ⟨0, false, 0, true, 0, 0, false, 2^txAssetBits - 1, 0, false, 2^txAmountBits - 1, 0, commitment⟩ true =
    some ⟨true, 0, 0, true, 0, true, 1, true, BitVec.allOnes _, 0, 0, true, BitVec.allOnes _, commitment⟩ := by
  have hasset : BitVec.ofNat txAssetBits (2^txAssetBits - 1) = BitVec.allOnes txAssetBits := by decide
  have hamount : BitVec.ofNat txAmountBits (2^txAmountBits - 1) = BitVec.allOnes txAmountBits := by decide
  simp [blessOutputPublicInputs, blessInput, hasset, hamount]

lemma unfundedPub_blessed : Blessed (unfundedTx t asset amount) 0 (unfundedPub t asset amount) where
  publics := by
    have hdonation : (txAmountDecode 0 : ZkVar) + (0 : ℕ) - (0 : ℕ) = 0 := by decide +kernel
    exact congrArg (fun donation => some (⟨0, donation, 0, 31, false, 0⟩ : TxPublics)) hdonation
  outputs i := by
    fin_cases i
    · refine (blessOutputPublicInputs_unfunded _).trans ?_
      rw [ZMod.natCast_zmod_val]
      rfl
    · rfl
  inputs i := by
    fin_cases i
    rfl
  enforcePath i := rfl

lemma verifyInputs_unfundedTx : verifyInputs (unfundedTx t asset amount) 0 = some (unfundedPub t asset amount) :=
  verifyInputs_eq_some.2 ⟨Nat.zero_lt_succ _, by change ¬(2 < 1 ∨ 1 < 0 ∨ 1 < 0); decide,
    ⟨rfl, Nat.zero_le _, rfl⟩, unfundedPub_blessed⟩

lemma padded_self {n : ℕ} (enforce : Bool) (value : BitVec n) : Padded enforce value value (BitVec.allOnes n) :=
  ⟨value, fun _ => rfl, BitVec.allOnes_and.symm⟩

lemma unfundedNumbers_rules : TxRules t (unfundedPub t asset amount) (unfundedNumbers asset amount) where
  outputs i :=
    { isAsset := ⟨⟨1, by decide⟩, fun j => by simp [unfundedNumbers, Fin.ext_iff], rfl⟩
      outvalmin := fun _ _ _ => Nat.zero_le _
      outvalmax := fun _ _ => Nat.le_of_lt_succ (Nat.mod_lt _ (Nat.two_pow_pos _))
      assetXor := padded_self _ asset
      assetEnc := (BitVec.xor_self).symm
      amountXor := padded_self _ amount
      amountEnc := (BitVec.xor_self).symm
      acceptance := fun _ => rfl
      paynum := fun _ => rfl
      commitment := fun he => by
        have hcommitment : ((unfundedPub t asset amount).outputs i).commitment = unfundedCommitment t asset amount :=
          if_pos (of_decide_eq_true he)
        rw [hcommitment]
        exact hashes_zkhash t _ _ }
  inputs i := unusedInput_rules (by constructor <;> rfl) rfl amount
  paths i h he := absurd he Bool.false_ne_true
  balance j := by
    have houtput : outputSum (unfundedPub t asset amount) (unfundedNumbers asset amount) j =
        inputSum (unfundedNumbers asset amount) j := by
      have hmul : (if decide (j.val = 1) = true then txAmountDecode amount.toNat * 1 else 0) +
          (if decide (j.val = 1) = true then txAmountDecode amount.toNat * 0 else 0) =
          if decide (j = ⟨1, by decide⟩) = true then txAmountDecode amount.toNat else 0 := by
        simp only [mul_one, mul_zero, ite_self, add_zero, decide_eq_true_iff, Fin.ext_iff]
      have hinput : inputSum (unfundedNumbers asset amount) j =
          if decide (j = ⟨1, by decide⟩) = true then txAmountDecode amount.toNat else 0 := Fin.sum_univ_one _
      rw [hinput, ← hmul]
      exact Fin.sum_univ_two _
    rw [houtput, unfundedPub, ite_self, zero_add]

lemma outputTotal_unfunded :
    outputTotal (unfundedPub t asset amount) (unfundedNumbers asset amount) asset = txAmountDecode amount.toNat := by
  have hsum : outputTotal (unfundedPub t asset amount) (unfundedNumbers asset amount) asset =
      (if asset = asset then txAmountDecode amount.toNat * 1 else 0) +
        if asset = asset then txAmountDecode amount.toNat * 0 else 0 := Fin.sum_univ_two _
  rw [hsum, if_pos rfl, if_pos rfl, mul_one, mul_zero, add_zero]

/-- Whatever the table of hashes is, there is a proof of a message without inputs that has an output of any amount of
any asset. -/
theorem exists_unfunded (t : HashTable) (asset : BitVec txAssetBits) (amount : BitVec txAmountBits) :
    (unfundedTx t asset amount).nin = 0 ∧ Provable t (unfundedTx t asset amount) 0 ∧
      ∃ pub p, verifyInputs (unfundedTx t asset amount) 0 = some pub ∧ TxRules t pub p ∧
        outputTotal pub p asset = txAmountDecode amount.toNat :=
  ⟨rfl, ⟨_, verifyInputs_unfundedTx, satisfiable_iff.2 ⟨_, unfundedNumbers_rules⟩⟩, _, _, verifyInputs_unfundedTx,
    unfundedNumbers_rules, outputTotal_unfunded⟩

end Unfunded

section Amounts
variable {tx : TxPay} {amountCarryIn : ℕ}

end Amounts

end CredaCash.Zk
