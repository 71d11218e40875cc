import CredaCash.ByteFormat
import CredaCash.Checks
import CredaCash.Wire.Transaction

/-! The writer of transaction messages, and their object ids. -/

namespace CredaCash.Wire
open BoundedReader Checks

/-- How the writer ends without a message: an error that it reports, or an assertion that throws. -/
inductive WireError
  | invalidValue (what : String)
  | invalidTxType
  | bufferOverflow
  | assertion (what : String)
  deriving DecidableEq

def typeToWireTag : ObjType → ℕ
  | .block => tagBlock
  | .mint => tagMint
  | .txpay => tagTx
  | .xcx .simpleBuy => tagSimpleBuy
  | .xcx .simpleSell => tagSimpleSell
  | .xcx .miningTrade => tagSimpleTrade
  | .xcx .nakedBuy => tagNakedBuy
  | .xcx .nakedSell => tagNakedSell
  | .xcx .payment => tagPayment
  | _ => 0

def blockTag (tag : ℕ) : ℕ := if tag.testBit 16 then tag else tag + tagBlockFlag

/-- `CCObject::BodySize` of a message, whose header has 8 bytes. -/
def bodySizeOf (size tag : ℕ) : ℕ :=
  let dataSize := if size < 8 then 0 else size - 8
  if hasPOW tag then (dataSize + 2^32 - powSize) % 2^32 else dataSize

/-- `CCObject::ComputeMessageObjId`: a hash of the body with the tag as its key. -/
def messageObjId (blake2b : ℕ → List UInt8 → ℕ) (msg : List UInt8) : ℕ :=
  let size := leNat (msg.take 4)
  let tag := leNat ((msg.drop 4).take 4)
  blake2b (wireTag tag) ((msg.drop (8 + if hasPOW tag then powSize else 0)).take (bodySizeOf size tag))

/-- The outputs that are in use of the array of outputs. -/
def TxPay.outs (tx : TxPay) : List TxOut := (List.range tx.nout).map fun i => tx.outputs.getD i {}

/-- The inputs that are in use of the array of inputs. -/
def TxPay.ins (tx : TxPay) : List TxIn := (List.range tx.nin).map fun i => tx.inputs.getD i {}

/-- An error that is reported only when errors are checked. -/
def errIf (errCheck : ℕ) (c : Prop) [Decidable c] (what : String) : Except WireError Unit :=
  reject (c ∧ errCheck ≠ 0) (.invalidValue what)

/-- The bytes of each member of a list, unless one of them has an error. -/
def concatM {α : Type} (f : α → Except WireError (List UInt8)) : List α → Except WireError (List UInt8)
  | [] => return []
  | a :: l => do
    let b ← f a
    let rest ← concatM f l
    return b ++ rest

/-- The checks of the asset and the amount of an output. -/
def txpayAssetCheck (errCheck : ℕ) (tx : TxPay) (txout : TxOut) : Except WireError Unit := do
  if tx.tagType = .mint then
    errIf errCheck (txout.assetMask ≠ 0) "asset-mask != 0 in mint transaction"
    errIf errCheck (txout.amountMask ≠ 0) "amount-mask != 0 in mint transaction"
    errIf errCheck (txout.assetEnc ≠ 0) "encrypted-asset != 0 in mint transaction"
  else if hasCounts tx.tagType then
    errIf errCheck (txout.assetMask ≠ assetWireMask) "asset-mask != all 1's"
    errIf errCheck (txout.amountMask ≠ amountMask) "amount-mask != all 1's"
    errIf errCheck (assetWireMask < txout.assetEnc) "encrypted-asset upper bits != all 0's"
  else throw .invalidTxType
  errIf errCheck (amountMask < txout.amountEnc) "encrypted-amount upper bits != all 0's"

/-- The checks of `txpay_output_to_wire`; `defaultDomain` is `default_domain__`. -/
def txpayOutputCheck (errCheck defaultDomain : ℕ) (tx : TxPay) (txout : TxOut) : Except WireError Unit := do
  let first := tx.outputs.getD 0 {}
  errIf errCheck (txout.noAddress = true) "no-address != 0"
  errIf errCheck (txout.destChain ≠ first.destChain) "destination-chain values do not all match"
  errIf errCheck (txout.acceptanceRequired ≠ first.acceptanceRequired) "acceptance-required values do not all match"
  reject (txout.acceptanceRequired = true ∧ 1 < errCheck) (.invalidValue "acceptance-required != 0")
  errIf errCheck (txout.repeatCount ≠ 0) "repeat-count != 0"
  reject (tx.wireTag ≠ tagTxXdomain ∧ txout.domain ≠ defaultDomain)
    (.assertion "txout.M_domain == tx.default_domain__")
  errIf errCheck (txout.noAsset = true) "no-asset != 0"
  errIf errCheck (txout.noAmount = true) "no-amount != 0"
  txpayAssetCheck errCheck tx txout

/-- The bytes of an output. -/
def txpayOutputBytes (tx : TxPay) (txout : TxOut) : List UInt8 :=
  (if txout.noAddress then [] else leBytes 16 txout.address) ++
    ((if tx.wireTag = tagTxXdomain then leBytes 3 txout.domain else []) ++
      ((if tx.tagType ≠ .mint then leBytes 4 txout.assetEnc else []) ++
        (leBytes 5 txout.amountEnc ++ leBytes 32 txout.commitment)))

def txpayOutputToWire (errCheck defaultDomain : ℕ) (tx : TxPay) (txout : TxOut) : Except WireError (List UInt8) := do
  txpayOutputCheck errCheck defaultDomain tx txout
  return txpayOutputBytes tx txout

/-- The checks of `txpay_input_to_wire`. -/
def txpayInputCheck (errCheck defaultDomain : ℕ) (tx : TxPay) (txin : TxIn) : Except WireError Unit := do
  let first := tx.inputs.getD 0 {}
  errIf errCheck (txin.enforceMasterSecret = true) "enforce-master-secret != 0"
  errIf errCheck (txin.enforceSpendSecrets = true) "enforce-spend-secrets != 0"
  errIf errCheck (txin.enforceTrustSecrets = false) "enforce-trust-secret != 1"
  errIf errCheck (txin.enforceFreeze = true) "enforce-freeze != 0"
  errIf errCheck (txin.enforceUnfreeze = true) "enforce-unfreeze != 0"
  errIf errCheck (txin.merkleRoot ≠ first.merkleRoot) "merkle-root values do not all match"
  errIf errCheck (txin.invalmax ≠ first.invalmax) "maximum-input-exponent values do not all match"
  errIf errCheck (txin.delaytime ≠ first.delaytime) "delaytime values do not all match"
  reject (txin.delaytime ≠ 0 ∧ 1 < errCheck) (.invalidValue "delaytime != 0")
  reject (tx.wireTag ≠ tagTxXdomain ∧ txin.domain ≠ defaultDomain) (.assertion "txin.M_domain == tx.default_domain__")
  errIf errCheck (txin.noSerialnum = true) "no-serialnum != 0"
  errIf errCheck (txin.spendspecHashed ≠ 0) "hashed-spendspec != 0"
  errIf errCheck (2^128 ≤ txin.hashkey) "hashkey exceeds wire bytes"

/-- The bytes of an input. -/
def txpayInputBytes (tx : TxPay) (txin : TxIn) : List UInt8 :=
  (if tx.wireTag = tagTxXdomain then leBytes 3 txin.domain else []) ++
    ((if txin.pathnum = 0 then leBytes 32 txin.commitment else []) ++
      ((if txin.pathnum = 0 ∧ txin.noSerialnum = false then leBytes 6 txin.commitnum else []) ++
        ((if txin.noSerialnum then [] else leBytes 32 txin.serialnum) ++ leBytes 16 txin.hashkey)))

def txpayInputToWire (errCheck defaultDomain : ℕ) (tx : TxPay) (txin : TxIn) : Except WireError (List UInt8) := do
  txpayInputCheck errCheck defaultDomain tx txin
  return txpayInputBytes tx txin

/-- The inputs of a body, those with a path first. -/
def txpayInputsToWire (errCheck defaultDomain : ℕ) (tx : TxPay) : Except WireError (List UInt8) := do
  if tx.tagType = .mint then return []
  else
    let withPath := tx.ins.filter (·.pathnum ≠ 0)
    let withoutPath := tx.ins.filter (·.pathnum = 0)
    let bytes ← concatM (txpayInputToWire errCheck defaultDomain tx) withPath
    reject (withPath.length ≠ tx.ninWithPath) (.assertion "count == tx.nin_with_path")
    let bytes' ← concatM (txpayInputToWire errCheck defaultDomain tx) withoutPath
    reject (withoutPath.length ≠ tx.nin - tx.ninWithPath) (.assertion "count == nin_without_path")
    return bytes ++ bytes'

/-- The numbers of outputs and inputs, in one byte. -/
def txpayCountsToWire (errCheck : ℕ) (tx : TxPay) : Except WireError (List UInt8) := do
  let ninWithoutPath := tx.nin - tx.ninWithPath
  if hasCounts tx.tagType then
    errIf errCheck (tx.nout = 0) "# outputs = 0"
    errIf errCheck (tx.nin = 0) "# inputs = 0"
    errIf errCheck (ninWithoutPath ≠ 0) "input without Merkle paths"
    reject (tx.nout = 0) (.assertion "tx.nout > 0")
    reject (tx.ninWithPath = 0) (.assertion "tx.nin_with_path > 0")
    reject (ninWithoutPath ≠ 0) (.assertion "nin_without_path == 0")
    reject (16 < tx.nout) (.assertion "tx.nout <= 16")
    reject (16 < tx.ninWithPath) (.assertion "tx.nin_with_path <= 16")
    return leBytes 1 ((tx.nout - 1) * 16 + (tx.ninWithPath - 1))
  else if tx.tagType = .mint then
    errIf errCheck (tx.nout ≠ 1) "invalid # outputs for mint transaction"
    errIf errCheck (tx.nin ≠ 1) "# inputs != 1 for mint transaction"
    return []
  else throw .invalidTxType

def txpayBodyToWire (errCheck defaultDomain : ℕ) (tx : TxPay) : Except WireError (List UInt8) := do
  errIf errCheck (tx.tagType = .mint ∧ tx.zkkeyid ≠ 0) "invalid proof key id for mint transaction"
  reject (tx.nin < tx.ninWithPath) (.assertion "tx.nin >= tx.nin_with_path")
  let counts ← txpayCountsToWire errCheck tx
  let outputs ← concatM (txpayOutputToWire errCheck defaultDomain tx) tx.outs
  let inputs ← txpayInputsToWire errCheck defaultDomain tx
  return leBytes 5 tx.paramLevel ++ (tx.zkproof.take 287 ++
    ((if tx.tagType ≠ .mint then leBytes 1 tx.zkkeyid else []) ++
      (leBytes 2 tx.donationFp ++ (counts ++ (outputs ++ inputs)))))

/-- The tag of a message: that of transfers between domains when a domain is not the default. -/
def chooseWireTag (defaultDomain : ℕ) (tx : TxPay) : ℕ :=
  if tx.tagType = .txpay ∧ (tx.outs.any (·.domain ≠ defaultDomain) || tx.ins.any (·.domain ≠ defaultDomain)) then
    tagTxXdomain
  else typeToWireTag tx.tagType

/-- A message, and the fields of the transaction that its writer sets. -/
structure TxMessage where
  bytes : List UInt8
  wireTag : ℕ
  appendWireOffset : ℕ
  objid : ℕ
  deriving DecidableEq

/-- The header, and the proof of work of zeros. -/
def messageHeader (size tag : ℕ) : List UInt8 := leBytes 4 size ++ (leBytes 4 tag ++ List.replicate powSize 0)

/-- `txpay_to_wire` into a buffer of `binsize` bytes. -/
def txpayToWire (blake2b : ℕ → List UInt8 → ℕ) (errCheck defaultDomain binsize : ℕ) (tx : TxPay) :
    Except WireError TxMessage := do
  reject (typeToWireTag tx.tagType = 0 ∨ typeToWireTag tx.tagType = tagBlock) .invalidTxType
  let tag := chooseWireTag defaultDomain tx
  let tx := { tx with wireTag := tag }
  let body ← if tx.tagType.hasBareMsg then pure [] else txpayBodyToWire errCheck defaultDomain tx
  let append := tx.appendData.take tx.appendDataLength
  let size := 8 + powSize + body.length + append.length
  reject (binsize < size) .bufferOverflow
  let bytes := messageHeader size tag ++ (body ++ append)
  return { bytes := bytes, wireTag := tag,
           appendWireOffset := if tx.appendDataLength ≠ 0 then 8 + powSize + body.length else tx.appendWireOffset,
           objid := messageObjId blake2b bytes }

end CredaCash.Wire
