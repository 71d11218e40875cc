import CredaCash.Chain.CommitTree
import CredaCash.Spend.SecretsJson
import CredaCash.Zk.Words

/-! The inputs of the circuit of a transaction: the public ones, which come from the message, and the private ones,
which a prover is free to choose, with the bits that they are broken into. -/

namespace CredaCash.Zk
open Chain Circuit FieldBits Spend Wire

def txChainBits : ℕ := 32
def txRevisionBits : ℕ := 32
def txReservedBits : ℕ := 64
def txBlocklevelBits : ℕ := 40
def txMaxSecretsBits : ℕ := 3
def txPaynumBits : ℕ := 20
def txDomainBits : ℕ := 20
def txAssetBits : ℕ := 64
def txCommitIvBits : ℕ := 128
def txEncIvBits : ℕ := 24
def txCommitnumBits : ℕ := txMerkleDepth + 8

instance : NeZero txMaxSecrets := ⟨by decide⟩
instance : NeZero txMaxSecretSlots := ⟨by decide⟩

def txNonfieldHiWord : ℕ := 7 * 2^(txFieldBits - 3 - 3*64)

/-- The counts of a key. -/
structure ZkCounts where
  nout : ℕ
  nin : ℕ
  ninWithPath : ℕ
  deriving DecidableEq

def nproof : ℕ := 4

def keytable : List ZkCounts := (List.range nproof).map fun i => ⟨i / 4 * 3 + 2, i % 4 + 1, i % 4 + 1⟩

def setTxCounts (keyindex : ℕ) : ZkCounts := keytable.getD keyindex ⟨0, 0, 0⟩

/-- The number of assets in a transaction. -/
def ZkCounts.nassets (c : ZkCounts) : ℕ :=
  let n := (if c.nout < c.nin then c.nout else c.nin) + if c.nout ≠ c.nin then 1 else 0
  if n = 0 then n + 1 else n

section Public

/-- `TxPayZK.publics`. -/
structure TxPublics where
  paramTime : BitVec txTimeBits
  donation : ZkVar
  outvalmin : BitVec txAmountExponentBits
  outvalmax : BitVec txAmountExponentBits
  allowRestrictedAddresses : Bool
  commitmentIv : BitVec txCommitIvBits

structure TxOutZKPub where
  enforce : Bool
  destChain : BitVec txChainBits
  domain : BitVec txDomainBits
  enforceAddress : Bool
  address : BitVec txAddressBits
  acceptanceRequired : Bool
  multiplier : BitVec 32
  enforceAsset : Bool
  assetMask : BitVec txAssetBits
  assetEnc : BitVec txAssetBits
  amountEnc : BitVec txAmountBits
  enforceAmount : Bool
  amountMask : BitVec txAmountBits
  commitment : ZkVar

structure TxInZKPub where
  enforce : Bool
  enforceMasterSecret : Bool
  enforceSpendSecrets : Bool
  enforceTrustSecrets : Bool
  enforceFreeze : Bool
  enforceUnfreeze : Bool
  merkleRoot : ZkVar
  invalmax : BitVec txAmountExponentBits
  delaytime : BitVec txDelaytimeBits
  domain : BitVec txDomainBits
  enforcePublicCommitment : Bool
  enforcePublicCommitnum : Bool
  commitment : ZkVar
  commitnum : BitVec txCommitnumBits
  enforceSerialnum : Bool
  serialnum : ZkVar
  hashkey : ZkVar
  spendspecHashed : ZkVar

/-- The public inputs for a key. -/
structure TxPayZKPub (c : ZkCounts) where
  publics : TxPublics
  outputs : Fin c.nout → TxOutZKPub
  inputs : Fin c.nin → TxInZKPub
  enforcePath : Fin c.ninWithPath → Bool

/-- `bless_input` of a public input with less bits than a field element: a number that does not fit fails. -/
def blessInput (anyval : Bool) (nbits val : ℕ) : Option (BitVec nbits) :=
  if anyval then some 0 else if val < 2^nbits then some (BitVec.ofNat nbits val) else none

/-- `bless_input` of a public input with the bits of a field element or more, for which any number will do. -/
def blessField (anyval : Bool) (val : ℕ) : ZkVar := if anyval then (txNonfieldHiWord * 2^(3*64) : ℕ) else val

/-- `bless_tx_public_inputs`; `tx_set_commit_iv` takes the IV from the Merkle root. -/
def blessTxPublicInputs (tx : TxPay) (amountCarryIn : ℕ) : Option TxPublics := do
  let _ ← blessInput false txChainBits tx.sourceChain
  let _ ← blessInput false txBlocklevelBits tx.paramLevel
  let paramTime ← blessInput false txTimeBits tx.paramTime
  let _ ← blessInput false txRevisionBits tx.revision
  let _ ← blessInput false txTimeBits tx.expiration
  let _ ← blessInput false txReservedBits tx.reserved
  let donation : ZkVar := Chain.txAmountDecode tx.donationFp + tx.amountCarryOut - amountCarryIn
  let outvalmin ← blessInput (tx.nout = 0) txAmountExponentBits tx.outvalmin
  let outvalmax ← blessInput (tx.nout = 0) txAmountExponentBits tx.outvalmax
  let commitmentIv ← blessInput (tx.nout = 0) txCommitIvBits (tx.txMerkleRoot % 2^txCommitIvBits)
  return ⟨paramTime, donation, outvalmin, outvalmax, tx.allowRestrictedAddresses, commitmentIv⟩

def blessOutputPublicInputs (txout : TxOut) (enforce : Bool) : Option TxOutZKPub := do
  let enforceAddress := !txout.noAddress && enforce
  let enforceAsset := !txout.noAsset && enforce
  let enforceAmount := !txout.noAmount && enforce
  let destChain ← blessInput (!enforceAddress) txChainBits txout.destChain
  let domain ← blessInput false txDomainBits txout.domain
  let address ← blessInput (!enforceAddress) txAddressBits txout.address
  let assetMask ← blessInput false txAssetBits (if enforceAsset then txout.assetMask else 2^txAssetBits - 1)
  let assetEnc ← blessInput false txAssetBits (if enforceAsset then txout.assetEnc else 0)
  let amountMask ← blessInput false txAmountBits (if enforceAmount then txout.amountMask else 2^txAmountBits - 1)
  let amountEnc ← blessInput false txAmountBits (if enforceAmount then txout.amountEnc else 0)
  return { enforce := enforce
           destChain := destChain
           domain := domain
           enforceAddress := enforceAddress
           address := address
           acceptanceRequired := if enforce then txout.acceptanceRequired else true
           multiplier := if enforce then BitVec.ofNat 32 (1 + txout.repeatCount) else 0
           enforceAsset := enforceAsset
           assetMask := assetMask
           assetEnc := assetEnc
           amountEnc := amountEnc
           enforceAmount := enforceAmount
           amountMask := amountMask
           commitment := txout.commitment }

def blessInputPublicInputs (txin : Wire.TxIn) (enforce : Bool) : Option TxInZKPub := do
  let enforcePublicCommitment := txin.pathnum = 0 && enforce
  let enforcePublicCommitnum := txin.pathnum = 0 && enforce && !txin.noSerialnum
  let invalmax ← blessInput (!enforce) txAmountExponentBits txin.invalmax
  let delaytime ← blessInput (!enforce) txDelaytimeBits txin.delaytime
  let domain ← blessInput (!enforce) txDomainBits txin.domain
  let commitnum ← blessInput (!enforcePublicCommitnum) txCommitnumBits txin.commitnum
  return { enforce := enforce
           enforceMasterSecret := enforce && txin.enforceMasterSecret
           enforceSpendSecrets := enforce && txin.enforceSpendSecrets
           enforceTrustSecrets := enforce && txin.enforceTrustSecrets
           enforceFreeze := enforce && txin.enforceFreeze
           enforceUnfreeze := enforce && txin.enforceUnfreeze
           merkleRoot := blessField enforcePublicCommitment txin.merkleRoot
           invalmax := invalmax
           delaytime := delaytime
           domain := domain
           enforcePublicCommitment := enforcePublicCommitment
           enforcePublicCommitnum := enforcePublicCommitnum
           commitment := blessField (!enforcePublicCommitment) txin.commitment
           commitnum := commitnum
           enforceSerialnum := enforce && !txin.noSerialnum
           serialnum := blessField (txin.noSerialnum || !enforce) txin.serialnum
           hashkey := blessField (!enforce) txin.hashkey
           spendspecHashed := blessField (!enforce) txin.spendspecHashed }

/-- All results, if there is one for each index. -/
def sequenceFin {n : ℕ} {α : Type} (f : Fin n → Option α) : Option (Fin n → α) :=
  if h : ∀ i, (f i).isSome then some fun i => (f i).get (h i) else none

lemma sequenceFin_eq_some {n : ℕ} {α : Type} {f : Fin n → Option α} {y : Fin n → α} :
    sequenceFin f = some y ↔ ∀ i, f i = some (y i) := by
  rw [sequenceFin]
  split_ifs with h
  · rw [Option.some.injEq, funext_iff]
    refine forall_congr' fun i => ⟨fun hi => ?_, fun hi => Option.get_of_eq_some _ hi⟩
    rw [← hi, Option.some_get]
  · refine iff_of_false (by simp) fun hy => h fun i => ?_
    rw [hy i, Option.isSome_some]

/-- The inputs in the order of the circuit, those with Merkle paths first; there are as many as the key has. -/
def zkInputs (tx : TxPay) (nin : ℕ) : List Wire.TxIn :=
  tx.inputs.filter (·.pathnum ≠ 0) ++
    (tx.inputs ++ List.replicate (nin - tx.inputs.length) ({} : Wire.TxIn)).filter (·.pathnum = 0)

def blessPublicInputs (tx : TxPay) (amountCarryIn : ℕ) (c : ZkCounts) : Option (TxPayZKPub c) := do
  let publics ← blessTxPublicInputs tx amountCarryIn
  let outputs ← sequenceFin fun i : Fin c.nout => blessOutputPublicInputs (tx.outputs.getD i {}) (i < tx.nout)
  let npaths := (tx.inputs.filter (·.pathnum ≠ 0)).length
  guard (npaths = tx.ninWithPath ∧ npaths ≤ c.ninWithPath ∧ (zkInputs tx c.nin).length = c.nin)
  let inputs ← sequenceFin fun i : Fin c.nin =>
    blessInputPublicInputs ((zkInputs tx c.nin).getD i {}) (i < tx.nin)
  return ⟨publics, outputs, inputs, fun i => i < npaths⟩

end Public

section Private

/-- A monitor secret with its halves, for variables that are broken into bits. -/
structure MonitorWord where
  var : ZkVar
  lo : ZkWord
  hi : ZkWord

/-- `TxOutZKPriv`, with a type for truth values and types for the numbers of each width. -/
structure TxOutZKPriv (nassets : ℕ) (B : Type) (W : ℕ → Type) where
  isAsset : Fin nassets → B
  dest : W txFieldBits
  paynum : W txPaynumBits
  asset : W txAssetBits
  amountFp : W txAmountBits
  assetXor : W txAssetBits
  amountXor : W txAmountBits

/-- The billet of an input. -/
structure ZkBillet (nassets : ℕ) (B : Type) (W : ℕ → Type) where
  isAsset : Fin nassets → B
  asset : W txAssetBits
  amountFp : W txAmountBits
  commitmentIv : W txCommitIvBits
  commitment : W txFieldBits
  commitnum : W txCommitnumBits
  paynum : W txPaynumBits

/-- The parameters that the secrets of an input are used with. -/
structure ZkSpendParams (B : Type) (W : ℕ → Type) where
  enforceSpendspecWithSpendSecrets : B
  enforceSpendspecWithTrustSecrets : B
  requiredSpendspecHash : W txInputBits
  allowMasterSecret : B
  allowFreeze : B
  allowTrustUnfreeze : B
  requirePublicHashkey : B
  restrictAddresses : B
  spendLocktime : W txTimeBits
  trustLocktime : W txTimeBits
  spendDelaytime : W txDelaytimeBits
  trustDelaytime : W txDelaytimeBits
  useSpendSecret : Fin txMaxSecrets → B
  useTrustSecret : Fin txMaxSecrets → B
  requiredSpendSecrets : W txMaxSecretsBits
  requiredTrustSecrets : W txMaxSecretsBits
  destnum : W txDestnumBits

/-- The secrets of an input, and the flags for those that are known. -/
structure ZkSecrets (B : Type) (W : ℕ → Type) (M : Type) where
  masterSecret : W txInputBits
  spendSecretNumber : W txSpendSecretnumBits
  masterSecretValid : B
  spendSecretsValid : B
  trustSecretsValid : B
  secretValid : Fin txMaxSecrets → B
  spendSecret : Fin txMaxSecrets → W txInputBits
  trustSecret : Fin txMaxSecrets → W txInputBits
  monitorSecret : Fin txMaxSecretSlots → M

/-- `TxInZKPriv`; the flags for output addresses are those of the outputs and restricted addresses. -/
structure TxInZKPriv (nassets nrouts : ℕ) (B : Type) (W : ℕ → Type) (M : Type) where
  billet : ZkBillet nassets B W
  params : ZkSpendParams B W
  secrets : ZkSecrets B W M
  outputAddressMatches : Fin nrouts → Fin txMaxRestrictedAddresses → B

/-- The private inputs as a prover chooses them. -/
abbrev ZkVars (_nbits : ℕ) : Type := ZkVar

/-- The private inputs after `breakout_bits`. -/
abbrev ZkWords (_nbits : ℕ) : Type := ZkWord

/-- The variable of a number. -/
def toVar {n : ℕ} (v : BitVec n) : ZkVar := v.toNat

/-- The halves of a number of 256 bits. -/
def monitorWord (m : BitVec txInputBits) : MonitorWord :=
  ⟨toVar m, word (m.extractLsb' 0 (txInputBits / 2)), word (m.extractLsb' (txInputBits / 2) (txInputBits / 2))⟩

variable {nassets nrouts : ℕ} {B B' M M' : Type} {W W' : ℕ → Type}

def TxOutZKPriv.map (f : B → B') (g : ∀ {n}, W n → W' n) (p : TxOutZKPriv nassets B W) : TxOutZKPriv nassets B' W' :=
  ⟨fun i => f (p.isAsset i), g p.dest, g p.paynum, g p.asset, g p.amountFp, g p.assetXor, g p.amountXor⟩

def ZkBillet.map (f : B → B') (g : ∀ {n}, W n → W' n) (p : ZkBillet nassets B W) : ZkBillet nassets B' W' :=
  ⟨fun i => f (p.isAsset i), g p.asset, g p.amountFp, g p.commitmentIv, g p.commitment, g p.commitnum, g p.paynum⟩

def ZkSpendParams.map (f : B → B') (g : ∀ {n}, W n → W' n) (p : ZkSpendParams B W) : ZkSpendParams B' W' :=
  ⟨f p.enforceSpendspecWithSpendSecrets, f p.enforceSpendspecWithTrustSecrets, g p.requiredSpendspecHash,
    f p.allowMasterSecret, f p.allowFreeze, f p.allowTrustUnfreeze, f p.requirePublicHashkey, f p.restrictAddresses,
    g p.spendLocktime, g p.trustLocktime, g p.spendDelaytime, g p.trustDelaytime, fun i => f (p.useSpendSecret i),
    fun i => f (p.useTrustSecret i), g p.requiredSpendSecrets, g p.requiredTrustSecrets, g p.destnum⟩

def ZkSecrets.map (f : B → B') (g : ∀ {n}, W n → W' n) (h : M → M') (p : ZkSecrets B W M) : ZkSecrets B' W' M' :=
  ⟨g p.masterSecret, g p.spendSecretNumber, f p.masterSecretValid, f p.spendSecretsValid, f p.trustSecretsValid,
    fun i => f (p.secretValid i), fun i => g (p.spendSecret i), fun i => g (p.trustSecret i),
    fun i => h (p.monitorSecret i)⟩

def TxInZKPriv.map (f : B → B') (g : ∀ {n}, W n → W' n) (h : M → M') (p : TxInZKPriv nassets nrouts B W M) :
    TxInZKPriv nassets nrouts B' W' M' :=
  ⟨p.billet.map f g, p.params.map f g, p.secrets.map f g h, fun i j => f (p.outputAddressMatches i j)⟩

end Private

section Breakout
variable {nassets nrouts : ℕ}

/-- `addBooleanity` for a flag that is kept. -/
def booleanity (x : ZkVar) : ZkCircuit ZkVar := do
  addBooleanity x
  return x

/-- `breakout_bits` for an output. -/
def breakoutOutput (p : TxOutZKPriv nassets ZkVar ZkVars) : ZkCircuit (TxOutZKPriv nassets ZkVar ZkWords) := do
  let isAsset ← forFin nassets fun i => booleanity (p.isAsset i)
  let dest ← breakout p.dest txFieldBits
  let paynum ← breakout p.paynum txPaynumBits
  let asset ← breakout p.asset txAssetBits
  let assetXor ← breakout p.assetXor txAssetBits
  let amountFp ← breakout p.amountFp txAmountBits
  let amountXor ← breakout p.amountXor txAmountBits
  return ⟨isAsset, dest, paynum, asset, amountFp, assetXor, amountXor⟩

def breakoutBillet (p : ZkBillet nassets ZkVar ZkVars) : ZkCircuit (ZkBillet nassets ZkVar ZkWords) := do
  let isAsset ← forFin nassets fun i => booleanity (p.isAsset i)
  let asset ← breakout p.asset txAssetBits
  let amountFp ← breakout p.amountFp txAmountBits
  let commitmentIv ← breakout p.commitmentIv txCommitIvBits
  let commitment ← breakout p.commitment txFieldBits
  let commitnum ← breakout p.commitnum txCommitnumBits
  let paynum ← breakout p.paynum txPaynumBits
  return ⟨isAsset, asset, amountFp, commitmentIv, commitment, commitnum, paynum⟩

def breakoutParams (p : ZkSpendParams ZkVar ZkVars) : ZkCircuit (ZkSpendParams ZkVar ZkWords) := do
  let enforceSpendspecWithSpendSecrets ← booleanity p.enforceSpendspecWithSpendSecrets
  let enforceSpendspecWithTrustSecrets ← booleanity p.enforceSpendspecWithTrustSecrets
  let allowMasterSecret ← booleanity p.allowMasterSecret
  let allowFreeze ← booleanity p.allowFreeze
  let allowTrustUnfreeze ← booleanity p.allowTrustUnfreeze
  let requirePublicHashkey ← booleanity p.requirePublicHashkey
  let restrictAddresses ← booleanity p.restrictAddresses
  let requiredSpendspecHash ← breakout p.requiredSpendspecHash txInputBits
  let spendLocktime ← breakout p.spendLocktime txTimeBits
  let trustLocktime ← breakout p.trustLocktime txTimeBits
  let spendDelaytime ← breakout p.spendDelaytime txDelaytimeBits
  let trustDelaytime ← breakout p.trustDelaytime txDelaytimeBits
  let requiredSpendSecrets ← breakout p.requiredSpendSecrets txMaxSecretsBits
  let requiredTrustSecrets ← breakout p.requiredTrustSecrets txMaxSecretsBits
  let destnum ← breakout p.destnum txDestnumBits
  let useSpendSecret ← forFin txMaxSecrets fun i => booleanity (p.useSpendSecret i)
  let useTrustSecret ← forFin txMaxSecrets fun i => booleanity (p.useTrustSecret i)
  return ⟨enforceSpendspecWithSpendSecrets, enforceSpendspecWithTrustSecrets, requiredSpendspecHash,
    allowMasterSecret, allowFreeze, allowTrustUnfreeze, requirePublicHashkey, restrictAddresses, spendLocktime,
    trustLocktime, spendDelaytime, trustDelaytime, useSpendSecret, useTrustSecret, requiredSpendSecrets,
    requiredTrustSecrets, destnum⟩

/-- The halves of a monitor secret. -/
def breakoutMonitorSecret (x : ZkVar) : ZkCircuit MonitorWord := do
  let e ← extractBits x x.val (txInputBits / 2) true true
  let hi ← breakout (e.rem.getD 0) (txInputBits / 2)
  return ⟨x, ⟨e.bitval.getD 0, e.bits⟩, hi⟩

def breakoutSecrets (p : ZkSecrets ZkVar ZkVars ZkVar) : ZkCircuit (ZkSecrets ZkVar ZkWords MonitorWord) := do
  let masterSecretValid ← booleanity p.masterSecretValid
  let spendSecretsValid ← booleanity p.spendSecretsValid
  let trustSecretsValid ← booleanity p.trustSecretsValid
  let masterSecret ← breakout p.masterSecret txInputBits
  let spendSecretNumber ← breakout p.spendSecretNumber txSpendSecretnumBits
  let secretValid ← forFin txMaxSecrets fun i => booleanity (p.secretValid i)
  let spendSecret ← forFin txMaxSecrets fun i => breakout (p.spendSecret i) txInputBits
  let trustSecret ← forFin txMaxSecrets fun i => breakout (p.trustSecret i) txInputBits
  let monitorSecret ← forFin txMaxSecretSlots fun i => breakoutMonitorSecret (p.monitorSecret i)
  return ⟨masterSecret, spendSecretNumber, masterSecretValid, spendSecretsValid, trustSecretsValid, secretValid,
    spendSecret, trustSecret, monitorSecret⟩

/-- `breakout_bits` for an input. -/
def breakoutInput (p : TxInZKPriv nassets nrouts ZkVar ZkVars ZkVar) :
    ZkCircuit (TxInZKPriv nassets nrouts ZkVar ZkWords MonitorWord) := do
  let billet ← breakoutBillet p.billet
  let params ← breakoutParams p.params
  let secrets ← breakoutSecrets p.secrets
  let outputAddressMatches ← forFin nrouts fun i =>
    forFin txMaxRestrictedAddresses fun j => booleanity (p.outputAddressMatches i j)
  return ⟨billet, params, secrets, outputAddressMatches⟩

section Allows

lemma booleanity_allows {x y : ZkVar} : (booleanity x).Allows y ↔ ∃ b, x = zkBit b ∧ y = zkBit b := by
  simp only [booleanity, allows_bind, addBooleanity_allows_iff, allows_pure]
  constructor
  · rintro ⟨_, ⟨b, hb⟩, rfl⟩
    exact ⟨b, hb, hb⟩
  · rintro ⟨b, rfl, rfl⟩
    exact ⟨(), ⟨b, rfl⟩, rfl⟩

lemma breakout_allows_iff {n : ℕ} {x : ZkVar} {w : ZkWord} :
    (breakout x n).Allows w ↔ ∃ v : BitVec n, x = toVar v ∧ w = word v := by
  simp only [breakout_allows, toVar, eq_comm]

/-- A choice for each index is a choice of a function. -/
lemma forall_exists_eq_iff {n : ℕ} {α β γ : Type} {x : Fin n → β} {y : Fin n → γ} {f : α → β} {g : α → γ} :
    (∀ i, ∃ a, x i = f a ∧ y i = g a) ↔ ∃ a : Fin n → α, x = (fun i => f (a i)) ∧ y = fun i => g (a i) := by
  simp only [Classical.skolem, funext_iff, forall_and]

lemma monitorWord_eq {m : BitVec txInputBits} (lo hi : BitVec (txInputBits / 2))
    (h : m.toNat = lo.toNat + hi.toNat * 2^(txInputBits / 2)) : monitorWord m = ⟨toVar m, word lo, word hi⟩ := by
  have hlo : m.extractLsb' 0 (txInputBits / 2) = lo := by
    rw [← BitVec.toNat_inj, BitVec.extractLsb'_toNat, Nat.shiftRight_zero, h, Nat.add_mul_mod_self_right,
      Nat.mod_eq_of_lt lo.isLt]
  have hhi : m.extractLsb' (txInputBits / 2) (txInputBits / 2) = hi := by
    rw [← BitVec.toNat_inj, BitVec.extractLsb'_toNat, Nat.shiftRight_eq_div_pow, h,
      Nat.add_mul_div_right _ _ (Nat.two_pow_pos _), Nat.div_eq_of_lt lo.isLt, Nat.zero_add, Nat.mod_eq_of_lt hi.isLt]
  rw [monitorWord, hlo, hhi]

lemma exists_halves (m : BitVec txInputBits) :
    ∃ lo hi : BitVec (txInputBits / 2), m.toNat = lo.toNat + hi.toNat * 2^(txInputBits / 2) := by
  have hhi : m.toNat / 2^(txInputBits / 2) < 2^(txInputBits / 2) := by
    rw [Nat.div_lt_iff_lt_mul (Nat.two_pow_pos _), ← pow_add]
    exact m.isLt
  refine ⟨BitVec.ofNat _ m.toNat, BitVec.ofNat _ (m.toNat / 2^(txInputBits / 2)), ?_⟩
  rw [BitVec.toNat_ofNat, BitVec.toNat_ofNat, Nat.mod_eq_of_lt hhi, Nat.mod_add_div']

lemma exists_of_halves (lo hi : BitVec (txInputBits / 2)) :
    ∃ m : BitVec txInputBits, m.toNat = lo.toNat + hi.toNat * 2^(txInputBits / 2) := by
  have hwidth : 2^txInputBits = 2^(txInputBits / 2) * 2^(txInputBits / 2) := by
    rw [← pow_add]
    rfl
  have hlt : lo.toNat + hi.toNat * 2^(txInputBits / 2) < 2^txInputBits := by
    have hhi := Nat.mul_le_mul_right (2^(txInputBits / 2)) (Nat.succ_le_of_lt hi.isLt)
    rw [Nat.succ_mul] at hhi
    have hlo := lo.isLt
    omega
  exact ⟨BitVec.ofNat _ _, by rw [BitVec.toNat_ofNat, Nat.mod_eq_of_lt hlt]⟩

lemma toVar_halves {m : BitVec txInputBits} {lo hi : BitVec (txInputBits / 2)}
    (h : m.toNat = lo.toNat + hi.toNat * 2^(txInputBits / 2)) : toVar m = toVar lo + toVar hi * 2^(txInputBits / 2) := by
  rw [toVar, h]
  push_cast
  rfl

/-- The halves of a monitor secret are those of a number of 256 bits, which need not be the smallest. -/
lemma breakoutMonitorSecret_allows {x : ZkVar} {w : MonitorWord} :
    (breakoutMonitorSecret x).Allows w ↔ ∃ m : BitVec txInputBits, x = toVar m ∧ w = monitorWord m := by
  simp only [breakoutMonitorSecret, allows_bind, extractBits_allows_bitval, breakout_allows_iff, allows_pure]
  constructor
  · rintro ⟨e, ⟨v, rem, hv, hx, rfl⟩, _, ⟨hi, hrem, rfl⟩, rfl⟩
    obtain ⟨lo, rfl⟩ : ∃ lo : BitVec (txInputBits / 2), v = lo.toNat :=
      ⟨BitVec.ofNat _ v, by rw [BitVec.toNat_ofNat, Nat.mod_eq_of_lt hv]⟩
    obtain ⟨m, hm⟩ := exists_of_halves lo hi
    have hxm : x = toVar m := by
      rw [toVar_halves hm, ← hx]
      exact congrArg (fun r => toVar lo + r * 2^(txInputBits / 2)) hrem
    exact ⟨m, hxm, by rw [monitorWord_eq lo hi hm, hxm]; rfl⟩
  · rintro ⟨m, rfl, rfl⟩
    obtain ⟨lo, hi, hm⟩ := exists_halves m
    exact ⟨_, ⟨lo.toNat, toVar hi, lo.isLt, (toVar_halves hm).symm, rfl⟩, _, ⟨hi, rfl, rfl⟩, monitorWord_eq lo hi hm⟩

lemma breakoutOutput_allows {p : TxOutZKPriv nassets ZkVar ZkVars} {w : TxOutZKPriv nassets ZkVar ZkWords} :
    (breakoutOutput p).Allows w ↔
      ∃ q : TxOutZKPriv nassets Bool BitVec, p = q.map zkBit toVar ∧ w = q.map zkBit word := by
  simp only [breakoutOutput, allows_bind, allows_forFin, booleanity_allows, breakout_allows_iff, forall_exists_eq_iff,
    allows_pure]
  constructor
  · rintro ⟨_, ⟨isAsset, hisAsset, rfl⟩, _, ⟨dest, hdest, rfl⟩, _, ⟨paynum, hpaynum, rfl⟩, _, ⟨asset, hasset, rfl⟩, _,
      ⟨assetXor, hassetXor, rfl⟩, _, ⟨amountFp, hamountFp, rfl⟩, _, ⟨amountXor, hamountXor, rfl⟩, rfl⟩
    refine ⟨⟨isAsset, dest, paynum, asset, amountFp, assetXor, amountXor⟩, ?_, rfl⟩
    rw [TxOutZKPriv.map, ← hisAsset, ← hdest, ← hpaynum, ← hasset, ← hassetXor, ← hamountFp, ← hamountXor]
  · rintro ⟨q, rfl, rfl⟩
    exact ⟨_, ⟨q.isAsset, rfl, rfl⟩, _, ⟨q.dest, rfl, rfl⟩, _, ⟨q.paynum, rfl, rfl⟩, _, ⟨q.asset, rfl, rfl⟩, _,
      ⟨q.assetXor, rfl, rfl⟩, _, ⟨q.amountFp, rfl, rfl⟩, _, ⟨q.amountXor, rfl, rfl⟩, rfl⟩

lemma breakoutBillet_allows {p : ZkBillet nassets ZkVar ZkVars} {w : ZkBillet nassets ZkVar ZkWords} :
    (breakoutBillet p).Allows w ↔ ∃ q : ZkBillet nassets Bool BitVec, p = q.map zkBit toVar ∧ w = q.map zkBit word := by
  simp only [breakoutBillet, allows_bind, allows_forFin, booleanity_allows, breakout_allows_iff, forall_exists_eq_iff,
    allows_pure]
  constructor
  · rintro ⟨_, ⟨isAsset, hisAsset, rfl⟩, _, ⟨asset, hasset, rfl⟩, _, ⟨amountFp, hamountFp, rfl⟩, _,
      ⟨commitmentIv, hcommitmentIv, rfl⟩, _, ⟨commitment, hcommitment, rfl⟩, _, ⟨commitnum, hcommitnum, rfl⟩, _,
      ⟨paynum, hpaynum, rfl⟩, rfl⟩
    refine ⟨⟨isAsset, asset, amountFp, commitmentIv, commitment, commitnum, paynum⟩, ?_, rfl⟩
    rw [ZkBillet.map, ← hisAsset, ← hasset, ← hamountFp, ← hcommitmentIv, ← hcommitment, ← hcommitnum, ← hpaynum]
  · rintro ⟨q, rfl, rfl⟩
    exact ⟨_, ⟨q.isAsset, rfl, rfl⟩, _, ⟨q.asset, rfl, rfl⟩, _, ⟨q.amountFp, rfl, rfl⟩, _,
      ⟨q.commitmentIv, rfl, rfl⟩, _, ⟨q.commitment, rfl, rfl⟩, _, ⟨q.commitnum, rfl, rfl⟩, _, ⟨q.paynum, rfl, rfl⟩, rfl⟩

lemma breakoutParams_allows {p : ZkSpendParams ZkVar ZkVars} {w : ZkSpendParams ZkVar ZkWords} :
    (breakoutParams p).Allows w ↔ ∃ q : ZkSpendParams Bool BitVec, p = q.map zkBit toVar ∧ w = q.map zkBit word := by
  simp only [breakoutParams, allows_bind, allows_forFin, booleanity_allows, breakout_allows_iff, forall_exists_eq_iff,
    allows_pure]
  constructor
  · rintro ⟨_, ⟨withSpend, hwithSpend, rfl⟩, _, ⟨withTrust, hwithTrust, rfl⟩, _, ⟨allowMaster, hallowMaster, rfl⟩, _,
      ⟨allowFreeze, hallowFreeze, rfl⟩, _, ⟨allowUnfreeze, hallowUnfreeze, rfl⟩, _, ⟨hashkey, hhashkey, rfl⟩, _,
      ⟨restrict, hrestrict, rfl⟩, _, ⟨spendspec, hspendspec, rfl⟩, _, ⟨spendLock, hspendLock, rfl⟩, _,
      ⟨trustLock, htrustLock, rfl⟩, _, ⟨spendDelay, hspendDelay, rfl⟩, _, ⟨trustDelay, htrustDelay, rfl⟩, _,
      ⟨requiredSpend, hrequiredSpend, rfl⟩, _, ⟨requiredTrust, hrequiredTrust, rfl⟩, _, ⟨destnum, hdestnum, rfl⟩, _,
      ⟨useSpend, huseSpend, rfl⟩, _, ⟨useTrust, huseTrust, rfl⟩, rfl⟩
    refine ⟨⟨withSpend, withTrust, spendspec, allowMaster, allowFreeze, allowUnfreeze, hashkey, restrict, spendLock,
      trustLock, spendDelay, trustDelay, useSpend, useTrust, requiredSpend, requiredTrust, destnum⟩, ?_, rfl⟩
    rw [ZkSpendParams.map, ← hwithSpend, ← hwithTrust, ← hallowMaster, ← hallowFreeze, ← hallowUnfreeze, ← hhashkey,
      ← hrestrict, ← hspendspec, ← hspendLock, ← htrustLock, ← hspendDelay, ← htrustDelay, ← hrequiredSpend,
      ← hrequiredTrust, ← hdestnum, ← huseSpend, ← huseTrust]
  · rintro ⟨q, rfl, rfl⟩
    exact ⟨_, ⟨q.enforceSpendspecWithSpendSecrets, rfl, rfl⟩, _, ⟨q.enforceSpendspecWithTrustSecrets, rfl, rfl⟩, _,
      ⟨q.allowMasterSecret, rfl, rfl⟩, _, ⟨q.allowFreeze, rfl, rfl⟩, _, ⟨q.allowTrustUnfreeze, rfl, rfl⟩, _,
      ⟨q.requirePublicHashkey, rfl, rfl⟩, _, ⟨q.restrictAddresses, rfl, rfl⟩, _, ⟨q.requiredSpendspecHash, rfl, rfl⟩, _,
      ⟨q.spendLocktime, rfl, rfl⟩, _, ⟨q.trustLocktime, rfl, rfl⟩, _, ⟨q.spendDelaytime, rfl, rfl⟩, _,
      ⟨q.trustDelaytime, rfl, rfl⟩, _, ⟨q.requiredSpendSecrets, rfl, rfl⟩, _, ⟨q.requiredTrustSecrets, rfl, rfl⟩, _,
      ⟨q.destnum, rfl, rfl⟩, _, ⟨q.useSpendSecret, rfl, rfl⟩, _, ⟨q.useTrustSecret, rfl, rfl⟩, rfl⟩

lemma breakoutSecrets_allows {p : ZkSecrets ZkVar ZkVars ZkVar} {w : ZkSecrets ZkVar ZkWords MonitorWord} :
    (breakoutSecrets p).Allows w ↔ ∃ q : ZkSecrets Bool BitVec (BitVec txInputBits),
      p = q.map zkBit toVar toVar ∧ w = q.map zkBit word monitorWord := by
  simp only [breakoutSecrets, allows_bind, allows_forFin, booleanity_allows, breakout_allows_iff,
    breakoutMonitorSecret_allows, forall_exists_eq_iff, allows_pure]
  constructor
  · rintro ⟨_, ⟨masterValid, hmasterValid, rfl⟩, _, ⟨spendValid, hspendValid, rfl⟩, _, ⟨trustValid, htrustValid, rfl⟩,
      _, ⟨master, hmaster, rfl⟩, _, ⟨number, hnumber, rfl⟩, _, ⟨valid, hvalid, rfl⟩, _, ⟨spend, hspend, rfl⟩, _,
      ⟨trust, htrust, rfl⟩, _, ⟨monitor, hmonitor, rfl⟩, rfl⟩
    refine ⟨⟨master, number, masterValid, spendValid, trustValid, valid, spend, trust, monitor⟩, ?_, rfl⟩
    rw [ZkSecrets.map, ← hmasterValid, ← hspendValid, ← htrustValid, ← hmaster, ← hnumber, ← hvalid, ← hspend, ← htrust,
      ← hmonitor]
  · rintro ⟨q, rfl, rfl⟩
    exact ⟨_, ⟨q.masterSecretValid, rfl, rfl⟩, _, ⟨q.spendSecretsValid, rfl, rfl⟩, _, ⟨q.trustSecretsValid, rfl, rfl⟩, _,
      ⟨q.masterSecret, rfl, rfl⟩, _, ⟨q.spendSecretNumber, rfl, rfl⟩, _, ⟨q.secretValid, rfl, rfl⟩, _,
      ⟨q.spendSecret, rfl, rfl⟩, _, ⟨q.trustSecret, rfl, rfl⟩, _, ⟨q.monitorSecret, rfl, rfl⟩, rfl⟩

/-- What `breakout_bits` leaves of the private inputs of an input is the choice of their numbers. -/
lemma breakoutInput_allows {p : TxInZKPriv nassets nrouts ZkVar ZkVars ZkVar}
    {w : TxInZKPriv nassets nrouts ZkVar ZkWords MonitorWord} : (breakoutInput p).Allows w ↔
      ∃ q : TxInZKPriv nassets nrouts Bool BitVec (BitVec txInputBits),
        p = q.map zkBit toVar toVar ∧ w = q.map zkBit word monitorWord := by
  simp only [breakoutInput, allows_bind, breakoutBillet_allows, breakoutParams_allows, breakoutSecrets_allows,
    allows_forFin, booleanity_allows, forall_exists_eq_iff, allows_pure]
  constructor
  · rintro ⟨_, ⟨billet, hbillet, rfl⟩, _, ⟨params, hparams, rfl⟩, _, ⟨secrets, hsecrets, rfl⟩, _,
      ⟨matches_, hmatches, rfl⟩, rfl⟩
    refine ⟨⟨billet, params, secrets, matches_⟩, ?_, rfl⟩
    rw [TxInZKPriv.map, ← hbillet, ← hparams, ← hsecrets, ← hmatches]
  · rintro ⟨q, rfl, rfl⟩
    exact ⟨_, ⟨q.billet, rfl, rfl⟩, _, ⟨q.params, rfl, rfl⟩, _, ⟨q.secrets, rfl, rfl⟩, _,
      ⟨q.outputAddressMatches, rfl, rfl⟩, rfl⟩

end Allows

end Breakout

end CredaCash.Zk
