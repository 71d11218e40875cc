import CredaCash.Spend.RestrictedAddresses
import CredaCash.Zk.Output

/-! The constraints of an input, and the rules that they amount to. -/

namespace CredaCash.Zk
open Chain Circuit FieldBits Spend

variable {nassets nrouts : ℕ}

lemma restrictedAddressSecretIndex_lt (slot : ℕ) : restrictedAddressSecretIndex slot < txMaxSecretSlots := by
  rw [restrictedAddressSecretIndex_eq, txMaxSecretSlots, txMaxSecrets]
  omega

/-- The secret with a restricted address. -/
def addressSlot (j : Fin txMaxRestrictedAddresses) : Fin txMaxSecretSlots :=
  ⟨restrictedAddressSecretIndex j, restrictedAddressSecretIndex_lt j⟩

section Checks

/-- The rules for the flags of an input. -/
def checkFlags (pub : TxInZKPub) (params : ZkSpendParams ZkVar ZkWords) (secrets : ZkSecrets ZkVar ZkWords MonitorWord) :
    ZkCircuit Unit := do
  constrainZero (zkBit pub.enforceMasterSecret * (1 - secrets.masterSecretValid))
  constrainZero (secrets.masterSecretValid * (1 - params.allowMasterSecret))
  constrainZero (zkBit pub.enforceFreeze * (1 - params.allowFreeze))
  constrainZero (zkBit pub.enforceUnfreeze * (1 - secrets.masterSecretValid) * (1 - secrets.trustSecretsValid))
  constrainZero (zkBit pub.enforceUnfreeze * secrets.trustSecretsValid * (1 - params.allowTrustUnfreeze))
  constrainZero (zkBit pub.enforceSpendSecrets * (1 - secrets.masterSecretValid) * (1 - secrets.spendSecretsValid))
  constrainZero (zkBit pub.enforceTrustSecrets * (1 - secrets.masterSecretValid) * (1 - secrets.spendSecretsValid) *
    (1 - secrets.trustSecretsValid))

/-- The rules for the hash key and the spend specification. -/
def checkHashkey (pub : TxInZKPub) (params : ZkSpendParams ZkVar ZkWords)
    (secrets : ZkSecrets ZkVar ZkWords MonitorWord) : ZkCircuit Unit := do
  constrainZero (params.requirePublicHashkey * secrets.spendSecretsValid * (1 - secrets.secretValid 1))
  constrainZero (params.requirePublicHashkey * secrets.spendSecretsValid * (pub.hashkey - (secrets.spendSecret 1).var))
  let spendspecDiff := pub.spendspecHashed - params.requiredSpendspecHash.var
  constrainZero (secrets.spendSecretsValid * params.enforceSpendspecWithSpendSecrets * spendspecDiff)
  constrainZero (secrets.trustSecretsValid * params.enforceSpendspecWithTrustSecrets * spendspecDiff)

/-- The number of secrets that are valid and used. -/
def countSecrets (valid use : Fin txMaxSecrets → ZkVar) : ZkVar :=
  (List.finRange txMaxSecrets).foldl (fun check i => check + valid i * use i) 0

/-- The rules for the number of secrets and for the times. -/
def checkRequired (publics : TxPublics) (pub : TxInZKPub) (params : ZkSpendParams ZkVar ZkWords)
    (secrets : ZkSecrets ZkVar ZkWords MonitorWord) : ZkCircuit Unit := do
  checkGreaterequal (countSecrets secrets.secretValid params.useSpendSecret)
    (params.requiredSpendSecrets.var * secrets.spendSecretsValid) txMaxSecretsBits none
  checkGreaterequal (countSecrets secrets.secretValid params.useTrustSecret)
    (params.requiredTrustSecrets.var * secrets.trustSecretsValid) txMaxSecretsBits none
  checkGreaterequal (toVar publics.paramTime) (params.spendLocktime.var * secrets.spendSecretsValid) txTimeBits none
  checkGreaterequal (toVar publics.paramTime) (params.trustLocktime.var * secrets.trustSecretsValid) txTimeBits none
  checkGreaterequal (toVar pub.delaytime) (params.spendDelaytime.var * secrets.spendSecretsValid) txDelaytimeBits none
  checkGreaterequal (toVar pub.delaytime) (params.trustDelaytime.var * secrets.trustSecretsValid) txDelaytimeBits none

/-- The rule for the master secret. -/
def checkMasterSecret (t : HashTable) (secrets : ZkSecrets ZkVar ZkWords MonitorWord) : ZkCircuit Unit := do
  let rootSecret ← hashBits t [secrets.masterSecret.bits] .rootSecret txFieldBits
  let rootSecret ← breakout rootSecret txFieldBits
  let check ← hashBits t [rootSecret.bits, secrets.spendSecretNumber.bits] .spendSecret txFieldBits
  constrainZero ((check - (secrets.spendSecret 0).var) * secrets.masterSecretValid)

/-- A hash that a secret has to be where a check counts. -/
def checkSecret (t : HashTable) (basis : HashBasis) (above : ZkWord) (secret enforce : ZkVar) : ZkCircuit Unit := do
  let check ← hashBits t [above.bits] basis txFieldBits
  constrainZero ((check - secret) * enforce)

/-- The rules for the secrets below the spend secrets. -/
def checkSecretChain (t : HashTable) (secrets : ZkSecrets ZkVar ZkWords MonitorWord) : ZkCircuit Unit :=
  forM (List.finRange txMaxSecrets) fun i : Fin txMaxSecrets => do
    let spendValid := secrets.spendSecretsValid * secrets.secretValid i
    let master := if i = 0 then secrets.masterSecretValid else 0
    checkSecret t .trustSecret (secrets.spendSecret i) (secrets.trustSecret i).var (master + spendValid)
    checkSecret t .monitorSecret (secrets.trustSecret i) (secrets.monitorSecret i.castSucc).var
      (master + secrets.secretValid i)

/-- A half of a monitor secret as a restricted address. -/
def monitorHalf (m : MonitorWord) (j : Fin txMaxRestrictedAddresses) : ZkVar :=
  if j.val % 2 = 1 then m.hi.var else m.lo.var

/-- A secret is not used. -/
def checkUnused (flag : ZkVar) (params : ZkSpendParams ZkVar ZkWords) (secreti : ℕ) : ZkCircuit Unit :=
  if h : secreti < txMaxSecrets then do
    constrainZero (flag * params.useSpendSecret ⟨secreti, h⟩)
    constrainZero (flag * params.useTrustSecret ⟨secreti, h⟩)
  else pure ()

/-- The rules for restricted addresses. -/
def checkRestrictedAddresses (publics : TxPublics) (outputs : Fin nrouts → TxOutZKPub) (pub : TxInZKPub)
    (p : TxInZKPriv nassets nrouts ZkVar ZkWords MonitorWord) : ZkCircuit Unit := do
  let enforce := p.params.restrictAddresses * (1 - p.secrets.masterSecretValid) * (1 - zkBit pub.enforceFreeze)
  constrainZero (enforce * (1 - zkBit publics.allowRestrictedAddresses))
  forM (List.finRange nrouts) fun i : Fin nrouts =>
    constrainZero ((List.finRange txMaxRestrictedAddresses).foldl
      (fun check j => check * (1 - p.outputAddressMatches i j)) (enforce * zkBit (outputs i).enforceAddress))
  forM (List.finRange nrouts) fun i : Fin nrouts =>
    forM (List.finRange txMaxRestrictedAddresses) fun j : Fin txMaxRestrictedAddresses => do
      checkUnused (p.outputAddressMatches i j) p.params (addressSlot j)
      constrainZero (p.outputAddressMatches i j *
        (toVar (outputs i).address - monitorHalf (p.secrets.monitorSecret (addressSlot j)) j))

/-- The inputs of the hash that is the receive secret. -/
def receiveInputs (params : ZkSpendParams ZkVar ZkWords) (monitor : MonitorWord) : List (List ZkVar) :=
  [monitor.lo.bits, monitor.hi.bits, [params.enforceSpendspecWithSpendSecrets],
    [params.enforceSpendspecWithTrustSecrets], params.requiredSpendspecHash.bits, [params.allowMasterSecret],
    [params.allowFreeze], [params.allowTrustUnfreeze], [params.requirePublicHashkey], [params.restrictAddresses],
    params.spendLocktime.bits, params.trustLocktime.bits, params.spendDelaytime.bits, params.trustDelaytime.bits]

/-- The inputs of the hash that is the destination. -/
def destinationInputs (receive : ZkWord) (params : ZkSpendParams ZkVar ZkWords)
    (monitor : Fin txMaxSecretSlots → MonitorWord) : List (List ZkVar) :=
  [receive.bits] ++
    (List.finRange txMaxSecrets).flatMap (fun i => [(monitor i.succ).lo.bits, (monitor i.succ).hi.bits]) ++
    [List.ofFn params.useSpendSecret, List.ofFn params.useTrustSecret, params.requiredSpendSecrets.bits,
      params.requiredTrustSecrets.bits, params.destnum.bits]

/-- The rule for the commitment. -/
def checkCommitment (t : HashTable) (pub : TxInZKPub) (domain : ZkWord)
    (p : TxInZKPriv nassets nrouts ZkVar ZkWords MonitorWord) : ZkCircuit Unit := do
  let receiveSecret ← hashBits t (receiveInputs p.params (p.secrets.monitorSecret 0)) .receiveSecret txFieldBits
  let receiveSecret ← breakout receiveSecret txFieldBits
  let dest ← hashBits t (destinationInputs receiveSecret p.params p.secrets.monitorSecret) .destination txFieldBits
  let dest ← breakout dest txFieldBits
  let check ← hashBits t [p.billet.commitmentIv.bits, dest.bits, p.billet.paynum.bits, domain.bits,
    p.billet.asset.bits, p.billet.amountFp.bits] .commitment txFieldBits
  constrainZero ((check - p.billet.commitment.var) * zkBit pub.enforce)

/-- The rules for a commitment that is published. -/
def checkPublicCommitment (pub : TxInZKPub) (billet : ZkBillet nassets ZkVar ZkWords) : ZkCircuit Unit := do
  constrainZero ((pub.commitment - billet.commitment.var) * zkBit pub.enforcePublicCommitment)
  constrainZero ((toVar pub.commitnum - billet.commitnum.var) * zkBit pub.enforcePublicCommitnum)

/-- The rule for the serial number. -/
def checkSerialnum (t : HashTable) (pub : TxInZKPub) (billet : ZkBillet nassets ZkVar ZkWords) (monitor : MonitorWord) :
    ZkCircuit Unit := do
  let check ← hashBits t [monitor.lo.bits, monitor.hi.bits, billet.commitment.bits, billet.commitnum.bits] .serialnum
    txFieldBits
  constrainZero ((check - pub.serialnum) * zkBit pub.enforceSerialnum)

/-- `compute_input`, which gives the amount as an integer. -/
def computeInput (t : HashTable) (txAsset : ℕ → ZkVar) (publics : TxPublics) (outputs : Fin nrouts → TxOutZKPub)
    (pub : TxInZKPub) (domain : ZkWord) (p : TxInZKPriv nassets nrouts ZkVar ZkWords MonitorWord) : ZkCircuit ZkVar := do
  let amountInt := computeIntegerAmount p.billet.amountFp.bits
  checkIsAsset txAsset p.billet.isAsset p.billet.asset.var
  checkGreaterequal (toVar pub.invalmax) (amountExponent p.billet.amountFp * enforceMinmax pub.enforce p.billet.asset)
    txAmountExponentBits none
  checkFlags pub p.params p.secrets
  checkHashkey pub p.params p.secrets
  checkRequired publics pub p.params p.secrets
  checkMasterSecret t p.secrets
  checkSecretChain t p.secrets
  checkRestrictedAddresses publics outputs pub p
  checkCommitment t pub domain p
  checkPublicCommitment pub p.billet
  checkSerialnum t pub p.billet (p.secrets.monitorSecret 0)
  return amountInt

end Checks

end CredaCash.Zk
