import CredaCash.Zk.Merkle

/-! The circuit of a whole transaction, and what there is to be known for a proof of it. -/

namespace CredaCash.Zk
open Chain Circuit FieldBits Spend

/-- The private inputs of a transaction for a key. -/
structure TxPayZKPriv (c : ZkCounts) (B : Type) (W : ℕ → Type) (M : Type) where
  txAsset : ℕ → ZkVar
  outputs : Fin c.nout → TxOutZKPriv c.nassets B W
  inputs : Fin c.nin → TxInZKPriv c.nassets c.nout B W M
  merklePaths : Fin c.ninWithPath → Fin txMerkleDepth → ZkVar

/-- The private inputs of a transaction as numbers. -/
abbrev TxNumbers (c : ZkCounts) : Type := TxPayZKPriv c Bool BitVec (BitVec txInputBits)

variable {c : ZkCounts}

/-- The variables and their bits after `breakout_bits`. -/
structure TxPayBits (c : ZkCounts) where
  commitmentIv : ZkWord
  outputs : Fin c.nout → TxOutBits × TxOutZKPriv c.nassets ZkVar ZkWords
  inputs : Fin c.nin → ZkWord × TxInZKPriv c.nassets c.nout ZkVar ZkWords MonitorWord

def breakoutBits (pub : TxPayZKPub c) (p : TxPayZKPriv c ZkVar ZkVars ZkVar) : ZkCircuit (TxPayBits c) := do
  let commitmentIv ← breakout (toVar pub.publics.commitmentIv) txCommitIvBits
  let outputs ← forFin c.nout fun i => do
    let bits ← breakoutOutputPublic (pub.outputs i)
    let output ← breakoutOutput (p.outputs i)
    return (bits, output)
  let inputs ← forFin c.nin fun i => do
    let domain ← breakout (toVar (pub.inputs i).domain) txDomainBits
    let input ← breakoutInput (p.inputs i)
    return (domain, input)
  return ⟨commitmentIv, outputs, inputs⟩

/-- The path of an input, if it has one. -/
def checkPath (t : HashTable) (pub : TxPayZKPub c) (merklePaths : Fin c.ninWithPath → Fin txMerkleDepth → ZkVar)
    (i : Fin c.nin) (billet : ZkBillet c.nassets ZkVar ZkWords) : ZkCircuit Unit :=
  if h : i.val < c.ninWithPath then
    checkMerkle t (pub.inputs i) billet (pub.enforcePath ⟨i, h⟩) (merklePaths ⟨i, h⟩)
  else pure ()

/-- The sums of an asset that have to be equal. -/
def checkBalance (donation : ZkVar) {nassets nout nin : ℕ} (j : Fin nassets) (outputs : Fin nout → ZkVar)
    (inputs : Fin nin → ZkVar) : ZkVar :=
  let check := if j.val = 0 then donation else 0
  let check := (List.finRange nout).foldl (fun check i => check + outputs i) check
  (List.finRange nin).foldl (fun check i => check - inputs i) check

def computeTx (t : HashTable) (pub : TxPayZKPub c) (txAsset : ℕ → ZkVar)
    (merklePaths : Fin c.ninWithPath → Fin txMerkleDepth → ZkVar) (b : TxPayBits c) : ZkCircuit Unit := do
  let outputAmounts ← forFin c.nout fun i =>
    computeOutput t txAsset pub.publics b.commitmentIv (pub.outputs i) (b.outputs i).1 (b.outputs i).2
  let inputAmounts ← forFin c.nin fun i => do
    let amount ← computeInput t txAsset pub.publics pub.outputs (pub.inputs i) (b.inputs i).1 (b.inputs i).2
    checkPath t pub merklePaths i (b.inputs i).2.billet
    return amount
  forM (List.finRange c.nassets) fun j : Fin c.nassets => constrainZero (checkBalance pub.publics.donation j
    (fun i => (b.outputs i).2.isAsset j * outputAmounts i * toVar (pub.outputs i).multiplier)
    fun i => (b.inputs i).2.billet.isAsset j * inputAmounts i)

/-- The constraints that `CCProof_Compute` makes from the inputs. -/
def ccproofCompute (t : HashTable) (pub : TxPayZKPub c) (p : TxPayZKPriv c ZkVar ZkVars ZkVar) : ZkCircuit Unit := do
  let b ← breakoutBits pub p
  computeTx t pub p.txAsset p.merklePaths b

/-- There are private inputs that meet the constraints for the public ones. -/
def Satisfiable (t : HashTable) (pub : TxPayZKPub c) : Prop := ∃ p, (ccproofCompute t pub p).Allows ()

/-- The sum of the outputs with an asset index. -/
def outputSum (pub : TxPayZKPub c) (p : TxNumbers c) (j : Fin c.nassets) : ℕ :=
  ∑ i, if (p.outputs i).isAsset j = true then
    txAmountDecode (p.outputs i).amountFp.toNat * (pub.outputs i).multiplier.toNat else 0

/-- The sum of the inputs with an asset index. -/
def inputSum (p : TxNumbers c) (j : Fin c.nassets) : ℕ :=
  ∑ i, if (p.inputs i).billet.isAsset j = true then txAmountDecode (p.inputs i).billet.amountFp.toNat else 0

/-- The rules of a transaction. -/
structure TxRules (t : HashTable) (pub : TxPayZKPub c) (p : TxNumbers c) : Prop where
  outputs : ∀ i, OutputRules t p.txAsset pub.publics (pub.outputs i) (p.outputs i)
  inputs : ∀ i, InputRules t p.txAsset pub.publics pub.outputs (pub.inputs i) (p.inputs i)
  paths : ∀ (i : Fin c.nin) (h : i.val < c.ninWithPath),
    PathRule t (pub.inputs i) (p.inputs i).billet (pub.enforcePath ⟨i, h⟩) (p.merklePaths ⟨i, h⟩)
  balance : ∀ j : Fin c.nassets,
    (if j.val = 0 then pub.publics.donation else 0) + (outputSum pub p j : ZkVar) = (inputSum p j : ZkVar)

section Allows
variable {t : HashTable} {pub : TxPayZKPub c} {p : TxNumbers c}

/-- The bits of the numbers of a transaction. -/
def txWords (pub : TxPayZKPub c) (p : TxNumbers c) : TxPayBits c :=
  ⟨word pub.publics.commitmentIv, fun i => ((pub.outputs i).words, (p.outputs i).map zkBit word),
    fun i => (word (pub.inputs i).domain, (p.inputs i).map zkBit word monitorWord)⟩

def TxPayZKPriv.vars (p : TxNumbers c) : TxPayZKPriv c ZkVar ZkVars ZkVar :=
  ⟨p.txAsset, fun i => (p.outputs i).map zkBit toVar, fun i => (p.inputs i).map zkBit toVar toVar, p.merklePaths⟩

lemma breakoutBits_allows {q : TxPayZKPriv c ZkVar ZkVars ZkVar} {b : TxPayBits c} :
    (breakoutBits pub q).Allows b ↔ ∃ p : TxNumbers c, q = p.vars ∧ b = txWords pub p := by
  have hiv (w : ZkWord) : (breakout (toVar pub.publics.commitmentIv) txCommitIvBits).Allows w ↔
      w = word pub.publics.commitmentIv := breakout_allows_of_eq (by decide) rfl
  have hdomain (i : Fin c.nin) (w : ZkWord) : (breakout (toVar (pub.inputs i).domain) txDomainBits).Allows w ↔
      w = word (pub.inputs i).domain := breakout_allows_of_eq (by decide) rfl
  simp only [breakoutBits, allows_bind, allows_forFin, hiv, hdomain, breakoutOutputPublic_allows, breakoutOutput_allows,
    breakoutInput_allows, exists_eq_left, allows_pure]
  constructor
  · rintro ⟨outputs, houtputs, inputs, hinputs, rfl⟩
    choose outs houts houtputs using houtputs
    choose outNumbers houtVars houtWords using houts
    choose ins hins hinputs using hinputs
    choose inNumbers hinVars hinWords using hins
    refine ⟨⟨q.txAsset, outNumbers, inNumbers, q.merklePaths⟩, ?_, ?_⟩
    · rw [TxPayZKPriv.vars, ← funext houtVars, ← funext hinVars]
    · rw [txWords, funext houtputs, funext hinputs, funext houtWords, funext hinWords]
  · rintro ⟨p, rfl, rfl⟩
    exact ⟨_, fun i => ⟨_, ⟨p.outputs i, rfl, rfl⟩, rfl⟩, _, fun i => ⟨_, ⟨p.inputs i, rfl, rfl⟩, rfl⟩, rfl⟩

lemma checkPath_allows {merklePaths : Fin c.ninWithPath → Fin txMerkleDepth → ZkVar} {i : Fin c.nin}
    {billet : ZkBillet c.nassets Bool BitVec} {u : Unit} :
    (checkPath t pub merklePaths i (billet.map zkBit word)).Allows u ↔ ∀ h : i.val < c.ninWithPath,
      PathRule t (pub.inputs i) billet (pub.enforcePath ⟨i, h⟩) (merklePaths ⟨i, h⟩) := by
  rw [checkPath]
  split_ifs with h
  · rw [checkMerkle_allows, forall_prop_of_true h]
  · exact iff_of_true (allows_pure.2 rfl) fun h' => absurd h' h

lemma sum_ite_cast {n : ℕ} (b : Fin n → Bool) (f : Fin n → ℕ) :
    ((∑ i, if b i = true then f i else 0 : ℕ) : ZkVar) = ∑ i, zkBit (b i) * (f i : ZkVar) := by
  rw [Nat.cast_sum]
  exact Finset.sum_congr rfl fun i _ => by cases b i <;> simp

lemma checkBalance_eq_zero {nassets nout nin : ℕ} {donation : ZkVar} {j : Fin nassets} {outputs : Fin nout → ZkVar}
    {inputs : Fin nin → ZkVar} : checkBalance donation j outputs inputs = 0 ↔
      (if j.val = 0 then donation else 0) + ∑ i, outputs i = ∑ i, inputs i := by
  rw [checkBalance, foldl_add, foldl_sub, ← Fin.sum_univ_def, ← Fin.sum_univ_def, sub_eq_zero]

lemma computeTx_allows (hc : c.nassets < fieldPrime) :
    (computeTx t pub p.txAsset p.merklePaths (txWords pub p)).Allows () ↔ TxRules t pub p := by
  have houtput (i : Fin c.nout) (r : ZkVar) :
      (computeOutput t p.txAsset pub.publics (txWords pub p).commitmentIv (pub.outputs i) ((txWords pub p).outputs i).1
        ((txWords pub p).outputs i).2).Allows r ↔
      OutputRules t p.txAsset pub.publics (pub.outputs i) (p.outputs i) ∧
        r = (txAmountDecode (p.outputs i).amountFp.toNat : ZkVar) := computeOutput_allows hc
  have hinput (i : Fin c.nin) (r : ZkVar) :
      (computeInput t p.txAsset pub.publics pub.outputs (pub.inputs i) ((txWords pub p).inputs i).1
        ((txWords pub p).inputs i).2).Allows r ↔
      InputRules t p.txAsset pub.publics pub.outputs (pub.inputs i) (p.inputs i) ∧
        r = (txAmountDecode (p.inputs i).billet.amountFp.toNat : ZkVar) := computeInput_allows hc
  have hpath (i : Fin c.nin) :
      (checkPath t pub p.merklePaths i ((txWords pub p).inputs i).2.billet).Allows () ↔ ∀ h : i.val < c.ninWithPath,
        PathRule t (pub.inputs i) (p.inputs i).billet (pub.enforcePath ⟨i, h⟩) (p.merklePaths ⟨i, h⟩) := checkPath_allows
  have hbalance (j : Fin c.nassets) : checkBalance pub.publics.donation j
      (fun i => ((txWords pub p).outputs i).2.isAsset j * (txAmountDecode (p.outputs i).amountFp.toNat : ZkVar) *
        toVar (pub.outputs i).multiplier)
      (fun i => ((txWords pub p).inputs i).2.billet.isAsset j *
        (txAmountDecode (p.inputs i).billet.amountFp.toNat : ZkVar)) = 0 ↔
      (if j.val = 0 then pub.publics.donation else 0) + (outputSum pub p j : ZkVar) = (inputSum p j : ZkVar) := by
    rw [checkBalance_eq_zero, outputSum, inputSum, sum_ite_cast, sum_ite_cast]
    simp only [Nat.cast_mul, ← mul_assoc]
    rfl
  simp only [computeTx, allows_bind, exists_unit, allows_forFin, allows_forM, List.mem_finRange, true_implies,
    allows_constrainZero, allows_pure, houtput, hinput, hpath]
  constructor
  · rintro ⟨outputAmounts, houtputs, inputAmounts, hinputs, hsum⟩
    choose inputs hinputs hpaths heq using hinputs
    obtain rfl : outputAmounts = _ := funext fun i => (houtputs i).2
    obtain rfl : inputAmounts = _ := funext fun i => (heq i).trans (hinputs i).2
    exact ⟨fun i => (houtputs i).1, fun i => (hinputs i).1, hpaths, fun j => (hbalance j).1 (hsum j)⟩
  · intro h
    exact ⟨_, fun i => ⟨h.outputs i, rfl⟩, _, fun i => ⟨_, ⟨h.inputs i, rfl⟩, h.paths i, rfl⟩,
      fun j => (hbalance j).2 (h.balance j)⟩

lemma satisfiable_iff_of_lt (hc : c.nassets < fieldPrime) : Satisfiable t pub ↔ ∃ p : TxNumbers c, TxRules t pub p := by
  simp only [Satisfiable, ccproofCompute, allows_bind, breakoutBits_allows]
  constructor
  · rintro ⟨_, _, ⟨p, rfl, rfl⟩, h⟩
    exact ⟨p, (computeTx_allows hc).1 h⟩
  · rintro ⟨p, h⟩
    exact ⟨p.vars, txWords pub p, ⟨p, rfl, rfl⟩, (computeTx_allows hc).2 h⟩

end Allows

section Keys
variable {t : HashTable}

lemma setTxCounts_le (keyindex : ℕ) : (setTxCounts keyindex).nout ≤ 2 ∧ (setTxCounts keyindex).nin ≤ 4 := by
  rcases lt_or_ge keyindex nproof with h | h
  · exact (by decide : ∀ k < nproof, (setTxCounts k).nout ≤ 2 ∧ (setTxCounts k).nin ≤ 4) keyindex h
  · rw [setTxCounts, List.getD_eq_default _ _ h]
    exact ⟨Nat.zero_le _, Nat.zero_le _⟩

lemma nassets_lt (keyindex : ℕ) : (setTxCounts keyindex).nassets < fieldPrime := by
  have hle := setTxCounts_le keyindex
  have hprime : 4 < fieldPrime := by decide
  simp only [ZkCounts.nassets]
  split_ifs <;> omega

/-- The constraints of the circuit of a key can be met just when there are private inputs that follow the rules. -/
lemma satisfiable_iff {keyindex : ℕ} {pub : TxPayZKPub (setTxCounts keyindex)} :
    Satisfiable t pub ↔ ∃ p : TxNumbers (setTxCounts keyindex), TxRules t pub p :=
  satisfiable_iff_of_lt (nassets_lt keyindex)

end Keys

end CredaCash.Zk
