import CredaCash.Checks
import CredaCash.Chain.Persistent

/-! Validation of a transaction: the rules on its own fields, and the rules that depend on a time and
on the persistent database. -/

namespace CredaCash.Chain
open Wire Checks

def resultParamLevelTooOld : ℤ := -1
def resultExpired : ℤ := -2
def resultAlreadySpent : ℤ := -3
def resultAddressInUse : ℤ := -4
def resultAlreadyPaid : ℤ := -5
def resultForeignError : ℤ := -6
def resultServerError : ℤ := -1001
def resultParamLevelInvalid : ℤ := -1002
def resultDuplicateSerialnum : ℤ := -1003
def resultBinaryDataInvalid : ℤ := -1004
def resultOptionNotSupported : ℤ := -1005
def resultInsufficientDonation : ℤ := -1006
def resultProofVerificationFailed : ℤ := -1007
def resultForeignVerificationFailed : ℤ := -1008
def resultInvalidValue : ℤ := -1009

def donationMask : ℕ := 2^16 - 1
def xreqMinPostholdTime : ℕ := 60
def xreqMaxExpireTime : ℕ := 2*60*60
def foreignTxPastAllowance : ℕ := 4*3600
def foreignTxFutureAllowance : ℕ := 2*3600
def timeDivisor : ℕ := 30

inductive VerifyLevel
  | none | ifPossible | strictRelay | strictBlocks
  deriving DecidableEq

/-- An answer of a foreign blockchain: an error, nothing found, or a result. -/
inductive QueryAnswer (α : Type)
  | error | notFound | found (result : α)

structure ForeignQueryResult where
  amount : UniFloat
  blocktime : ℕ
  confirmations : ℕ

/-- The parameters of a node, and what it asks of code outside it: the proof system, hashes, decoders,
the servers of foreign blockchains and floating point functions of the C library. -/
structure Env where
  blockchain : ℕ
  defaultDomain : ℕ
  maxParamAge : ℤ
  blockFutureTolerance : ℤ
  minimumDonation : ℕ
  donationPerTx : ℕ
  donationPerByte : ℕ
  donationPerOutput : ℕ
  donationPerInput : ℕ
  donationPerXcxReq : ℕ
  outvalmin : ℕ
  outvalmax : ℕ
  invalmax : ℕ
  transactServiceEnabled : Bool
  verifyLevel : ℕ → VerifyLevel
  conv : AmountConv
  codec : Codec
  blake2s : List UInt8 → ℕ
  /-- `CCProof_VerifyProof` fails. -/
  proofFails : TxPay → Bool
  /-- `CheckPow` fails. -/
  powFails : List UInt8 → Bool
  objHash : List UInt8 → ℕ
  addressHash : String → ℕ
  paymentIdHash : Xpay → ℕ
  queryAddress : ℕ → String → QueryAnswer Unit
  queryPayment : ℕ → String → String → String → QueryAnswer ForeignQueryResult
  /-- `WireEncode` of an amount, rounded down. -/
  wireEncodeDown : UniFloat → ℕ

def ignoreError (env : Env) (blockchain : ℕ) (inBlock : Bool) : Bool :=
  match env.verifyLevel blockchain with
  | .strictBlocks => false
  | .strictRelay => inBlock
  | _ => true

/-- What a node has at hand when it validates: the persistent database, the foreign addresses of the
requests in its exchange table, and the time of its last indelible block. -/
structure NodeView where
  db : PersistentDb
  xreqsForeignAddresses : List (ℕ × String) := []
  lastIndelibleTimestamp : ℕ

/-- The size of a transaction without a proof of work. -/
def txSize (wire : List UInt8) : ℕ :=
  wire.length - if hasPOW (BoundedReader.leNat ((wire.drop 4).take 4)) then powSize else 0

section Fields
variable (env : Env) (tx : TxPay)

/-- The values of a transaction that are not on the wire. -/
def setTxDefaults : TxPay :=
  { tx with
    sourceChain := env.blockchain
    allowRestrictedAddresses :=
      tx.allowRestrictedAddresses && tx.nout ≠ 0 && tx.outputs.all (!·.noAddress)
    outputs := tx.outputs.map fun out =>
      { out with destChain := env.blockchain
                 domain := if out.domain = 0 then env.defaultDomain else out.domain }
    inputs := tx.inputs.map fun txin =>
      { txin with domain := if txin.domain = 0 ∧ tx.tagType ≠ .mint then env.defaultDomain else txin.domain } }

/-- The transaction types that are in use. -/
def typeSupported (t : ObjType) : Bool :=
  t = .mint || t = .txpay || t = .xcx .nakedBuy || t = .xcx .nakedSell || t = .xcx .simpleBuy ||
    t = .xcx .simpleSell || t = .xcx .payment || t = .xcx .miningTrade

def checkTxOut (txout : TxOut) : Except ℤ Unit := do
  reject (txout.destChain ≠ env.blockchain) resultOptionNotSupported
  reject (txout.domain ≠ env.defaultDomain) resultOptionNotSupported
  reject (txout.noAddress = true) resultOptionNotSupported
  reject (txout.acceptanceRequired = true) resultOptionNotSupported
  reject (txout.repeatCount ≠ 0) resultOptionNotSupported
  reject (txout.noAsset = true) resultOptionNotSupported
  reject (txout.noAmount = true) resultOptionNotSupported
  if tx.tagType = .mint then do
    reject (txout.assetMask ≠ 0) resultOptionNotSupported
    reject (txout.amountMask ≠ 0) resultOptionNotSupported
    reject (txout.assetEnc ≠ 0) resultOptionNotSupported
  else do
    reject (txout.assetMask ≠ assetWireMask) resultOptionNotSupported
    reject (txout.amountMask ≠ amountMask) resultOptionNotSupported

def checkTxIn (txin : TxIn) : Except ℤ Unit := do
  reject (txin.enforceMasterSecret = true) resultOptionNotSupported
  reject (txin.enforceSpendSecrets = true) resultOptionNotSupported
  reject (txin.enforceTrustSecrets = false) resultOptionNotSupported
  reject (txin.enforceFreeze = true) resultOptionNotSupported
  reject (txin.enforceUnfreeze = true) resultOptionNotSupported
  reject (txin.delaytime ≠ 0) resultOptionNotSupported
  reject (tx.tagType ≠ .mint ∧ txin.noSerialnum = true) resultOptionNotSupported
  reject (tx.tagType = .mint ∧ txin.noSerialnum = false) resultOptionNotSupported
  reject (txin.spendspecHashed ≠ 0) resultOptionNotSupported
  reject (tx.tagType = .mint ∧ txin.pathnum ≠ 0) resultOptionNotSupported
  reject (tx.tagType ≠ .mint ∧ txin.pathnum = 0) resultOptionNotSupported

/-- The rules on the fields of a transaction. -/
def checkTxFields : Except ℤ Unit := do
  reject (typeSupported tx.tagType = false) resultOptionNotSupported
  reject (tx.txType ≠ tx.tagType) resultOptionNotSupported
  reject (tx.sourceChain ≠ env.blockchain) resultOptionNotSupported
  reject (tx.revision ≠ 0) resultOptionNotSupported
  reject (tx.expiration ≠ 0) resultOptionNotSupported
  reject (tx.reserved ≠ 0) resultOptionNotSupported
  reject (tx.tagType = .mint ∧ tx.nin ≠ 1) resultOptionNotSupported
  reject (tx.tagType ≠ .mint ∧ tx.nin ≠ tx.ninWithPath) resultOptionNotSupported
  tx.outputs.forM (checkTxOut env tx)
  tx.inputs.forM (checkTxIn tx)

end Fields

def extractXtxFailed (tx : TxPay) (forPseudoSerialnum : Bool) : Bool :=
  tx.tagType.isXtx && !(forPseudoSerialnum && !tx.tagType.isXpay)

/-- The parsing in `ExtractXtx`; none for a transaction without exchange data, or when it is
invalid. -/
def extractXtx (env : Env) (tx : TxPay) : Option Xtx :=
  match tx.tagType with
  | .xcx type =>
    match (xtxFromWire env.codec type (tx.appendData.take tx.appendDataLength) {}).1 with
    | .ok xtx => some xtx
    | .error _ => none
  | _ => none

def setMatchFieldsInXpay (env : Env) (m : Xmatch) (xpay : Xpay) : Xpay :=
  { xpay with
    matchTimestamp := m.matchTimestamp
    foreignBlockchain := m.xsell.quoteAsset
    foreignAddress := m.xsell.foreignAddress
    foreignConfirmationsRequired := m.xsell.confirmations
    paymentTime := m.xsell.paymentTime
    matchLeftToPay := m.amountToPay env.conv }

/-- `ExtractXtx` with a database: a payment claim gets the fields of its match. -/
def extractXtxWithMatch (env : Env) (db : PersistentDb) (tx : TxPay) : Option Xtx :=
  match extractXtx env tx with
  | some (.xpay xpay) => (db.xmatchSelect xpay.xmatchnum).map fun m => .xpay (setMatchFieldsInXpay env m xpay)
  | xtx => xtx

section Extract
variable {env : Env} {db : PersistentDb} {tx : TxPay}

lemma extractXtx_xpay {xpay : Xpay} (h : extractXtx env tx = some (.xpay xpay)) :
    tx.tagType = .xcx .payment := by
  unfold extractXtx at h
  split at h
  · next type htype =>
    split at h
    · next xtx hparse =>
      obtain rfl := Option.some.inj h
      rw [htype, xtxFromWire_xpay _ _ _ _ _ _ (Prod.ext hparse rfl) xpay rfl]
    · cases h
  · cases h

lemma extractXtxWithMatch_xpay {x : Xpay} (h : extractXtxWithMatch env db tx = some (.xpay x)) :
    ∃ xpay m, extractXtx env tx = some (.xpay xpay) ∧ db.xmatchSelect xpay.xmatchnum = some m ∧
      x = setMatchFieldsInXpay env m xpay := by
  unfold extractXtxWithMatch at h
  split at h
  · next xpay hxtx =>
    obtain ⟨m, hm, heq⟩ := Option.map_eq_some_iff.1 h
    cases heq
    exact ⟨xpay, m, hxtx, hm, rfl⟩
  · next hxtx => exact absurd h (hxtx x)

end Extract

section Dynamic
variable (env : Env) (view : NodeView) (priorBlocktime : ℕ) (inBlock : Bool)

/-- `ValidateXpay`: the claim with the fields of its match, and whether the match is already paid,
which is reported later. -/
def validateXpay (xpay : Xpay) : Except ℤ (Xpay × Bool) := do
  reject (xpay.xmatchnum = 0) resultInvalidValue
  reject (xpay.foreignAmount ≤ 0) resultInvalidValue
  reject (xpay.foreignTxid = "") resultInvalidValue
  match view.db.xmatchSelect xpay.xmatchnum with
  | none => .error resultInvalidValue
  | some m => do
    reject (m.status ≠ .accepted ∧ m.status ≠ .partPaidOpen ∧ m.status ≠ .paid) resultInvalidValue
    reject (m.haveXreqs = false) resultServerError
    reject (m.matchTimestamp = 0) resultServerError
    reject (m.xsell.paymentTime = 0) resultServerError
    reject (m.matchTimestamp + m.xsell.paymentTime < priorBlocktime) resultExpired
    reject (m.xsell.quoteAsset < 1 ∨ blockchainBch < m.xsell.quoteAsset) resultServerError
    reject (m.xsell.foreignAddress = "") resultServerError
    reject (m.xsell.confirmations ≤ 0) resultServerError
    reject (xpay.foreignBlockId = "") resultInvalidValue
    return (setMatchFieldsInXpay env m xpay, m.status = .paid)

/-- `CheckXreqAmount`: zero, or over 128 bits. -/
def checkXreqAmount (amount : ℕ) : Bool := amount = 0 || 2^128 ≤ amount

/-- The rules of `ValidateXreq` on the values of a request. -/
def checkXreqValues (tx : TxPay) (x : Xreq) : Except ℤ Unit := do
  reject (x.foreignAddress ≠ "" ∧ maxIn ≤ tx.nin) resultInvalidValue
  reject (x.destination = 0) resultInvalidValue
  reject (checkXreqAmount x.minAmount = true) resultInvalidValue
  reject (checkXreqAmount x.maxAmount = true) resultInvalidValue
  reject (x.maxAmount < x.minAmount) resultInvalidValue
  reject (x.netRateRequired ≤ 0) resultInvalidValue
  reject (x.waitDiscount < 0 ∨ 1 < x.waitDiscount) resultInvalidValue
  reject (x.quoteCosts < 0) resultInvalidValue
  reject (x.baseCosts < 0) resultInvalidValue
  reject (x.baseAsset ≠ 0) resultInvalidValue
  reject (x.quoteAsset < blockchainBtc ∨ blockchainBch < x.quoteAsset) resultInvalidValue
  -- the range test of the source joins its parts with `&&`, so that it never fails
  reject (x.type.code < 4 ∧ 7 < x.type.code ∧ x.type ≠ .miningTrade) resultOptionNotSupported
  reject (x.considerationRequired ≠ 0) resultInvalidValue
  reject (x.considerationOffered ≠ 0) resultInvalidValue
  reject (x.pledge ≠ if x.type = .simpleBuy ∨ x.type = .simpleSell ∨ x.type = .miningTrade
    then simplePledge else 0) resultInvalidValue
  reject (x.holdTime ≠ simpleHoldTime) resultInvalidValue
  reject (x.holdTimeRequired ≠ simpleHoldTime) resultInvalidValue
  reject (x.minWaitTime ≠ simpleWaitTime) resultInvalidValue
  reject (x.acceptTimeRequired ≠ 0) resultInvalidValue
  reject (x.acceptTimeOffered ≠ 0) resultInvalidValue
  reject (x.paymentTime ≠ defaultPaymentTime env.codec.forTestnet) resultInvalidValue
  reject (x.confirmations ≠ defaultConfirmations env.codec.forTestnet) resultInvalidValue
  reject (x.addImmediatelyToBlockchain = true) resultOptionNotSupported
  reject (x.autoAcceptMatches = false) resultOptionNotSupported
  reject (x.noMinimumAfterFirstMatch = true) resultOptionNotSupported
  reject (x.mustLiquidateCrossingMinimum = true) resultOptionNotSupported
  reject (x.mustLiquidateBelowMinimum = true) resultOptionNotSupported
  reject (x.foreignAsset ≠ "") resultOptionNotSupported

/-- The foreign address of a request: not in use, not blocked, and known to its blockchain. -/
def checkForeignAddressFree (x : Xreq) : Except ℤ Unit :=
  if x.foreignAddress = "" then .ok ()
  else do
    reject (inBlock = false ∧ env.transactServiceEnabled = true ∧
      (x.quoteAsset, x.foreignAddress) ∈ view.xreqsForeignAddresses) resultAddressInUse
    reject (view.db.xmatchingreqForeignAddressSelect priorBlocktime x.quoteAsset x.foreignAddress = true)
      resultAddressInUse
    reject (view.db.xcxBlockedForeignAddressSelect x.quoteAsset x.foreignAddress = true) resultInvalidValue
    match env.queryAddress x.quoteAsset x.foreignAddress with
    | .notFound => .error resultInvalidValue
    | .error => reject (ignoreError env x.quoteAsset inBlock = false) resultForeignError
    | .found _ => .ok ()

/-- The window of times before which a request may be put into a block. -/
def checkExpireTime (x : Xreq) : Except ℤ Unit := do
  reject (priorBlocktime + xreqMaxExpireTime < x.expireTime) resultInvalidValue
  reject (x.expireTime ≤ priorBlocktime + x.holdTime + xreqMinPostholdTime) resultExpired

/-- The donation of a transaction, in the units of amounts. -/
def donationOf (tx : TxPay) : ℕ := Wire.txAmountDecode tx.donationFp

/-- The donation that a request needs. -/
def xreqMinDonation (tx : TxPay) (x : Xreq) (txSize totalNout : ℕ) : ℕ :=
  if x.type.hasBareMsg then 0
  else txSize * env.donationPerByte + totalNout * env.donationPerOutput + tx.nin * env.donationPerInput +
    env.donationPerXcxReq

/-- The amount that a request takes out of its transaction: a sold amount and a pledge, rounded down. -/
def amountCarryOut (x : Xreq) : ℕ :=
  (if x.isSeller then x.maxAmount else 0) +
    if x.isBuyer ∧ x.pledge = 100 then x.maxAmount
    else if x.isBuyer ∧ x.pledge ≠ 0 then x.maxAmount * x.pledge / 100 else 0

def validateXreq (tx : TxPay) (x : Xreq) (txSize totalNout : ℕ) : Except ℤ TxPay := do
  checkXreqValues env tx x
  checkForeignAddressFree env view priorBlocktime inBlock x
  reject (donationOf tx < xreqMinDonation env tx x txSize totalNout ∧ tx.donationFp < donationMask)
    resultInsufficientDonation
  checkExpireTime priorBlocktime x
  reject (x.type = .nakedBuy ∧ env.powFails (tx.appendData.take tx.appendDataLength) = true) resultInvalidValue
  return { tx with amountCarryOut := amountCarryOut x }

/-- The donation that a payment needs. -/
def txpayMinDonation (tx : TxPay) (txSize totalNout : ℕ) : ℕ :=
  Nat.max env.minimumDonation (env.donationPerTx + txSize * env.donationPerByte +
    totalNout * env.donationPerOutput + tx.nin * env.donationPerInput)

/-- The donation of a transaction without exchange data. -/
def checkDonation (tx : TxPay) (txSize totalNout : ℕ) : Except ℤ TxPay :=
  if tx.tagType = .mint then do
    reject (donationOf tx ≠ 0) resultInsufficientDonation
    return tx
  else if tx.tagType = .txpay then do
    let minDonation := txpayMinDonation env tx txSize totalNout
    reject (donationOf tx < minDonation ∧ tx.donationFp < donationMask) resultInsufficientDonation
    return { tx with allowRestrictedAddresses :=
      tx.allowRestrictedAddresses && donationOf tx ≤ minDonation * 4 }
  else .error resultServerError

/-- What validation by type gives: the transaction, its exchange data, and whether it claims a match
that is already paid. -/
structure Typed where
  tx : TxPay
  xtx : Option Xtx
  alreadyPaid : Bool := false

/-- The rules of each type. -/
def validateByType (tx : TxPay) (xtx : Option Xtx) (txSize totalNout : ℕ) : Except ℤ Typed :=
  match xtx with
  | some (.xpay xpay) => do
    let (xpay, alreadyPaid) ← validateXpay env view priorBlocktime xpay
    return { tx := tx, xtx := some (.xpay xpay), alreadyPaid := alreadyPaid }
  | some (.xreq x) => do
    let tx ← validateXreq env view priorBlocktime inBlock tx x txSize totalNout
    return { tx := tx, xtx := xtx }
  | none => do
    let tx ← checkDonation env tx txSize totalNout
    return { tx := tx, xtx := none }

/-- The age of a parameter level: the time since the next root replaced it. -/
def paramAge (paramLevel : ℕ) : ℤ :=
  match view.db.commitRootsSelectLevel (paramLevel + 1) true with
  | some root => priorBlocktime - root.timestamp
  | none => 0

/-- The values of a transaction that come from the root of its parameter level. -/
def setParamLevel (tx : TxPay) (root : CommitRoot) : TxPay :=
  { tx with
    txMerkleRoot := root.merkleRoot
    paramTime := if timeOffset < root.timestamp then (root.timestamp - timeOffset) / timeDivisor else 0
    outvalmin := env.outvalmin
    outvalmax := env.outvalmax
    inputs := tx.inputs.map fun txin =>
      if tx.tagType = .mint then { txin with invalmax := mintExponent }
      else { txin with merkleRoot := root.merkleRoot, invalmax := env.invalmax } }

/-- The parameter level of a transaction: its root is known, and not too old. -/
def checkParamLevel (tx : TxPay) : Except ℤ TxPay := do
  reject (env.maxParamAge < paramAge view priorBlocktime tx.paramLevel ∧ tx.tagType.hasBareMsg = false)
    resultParamLevelTooOld
  match view.db.commitRootsSelectLevel tx.paramLevel false with
  | none => .error resultParamLevelInvalid
  | some root => return setParamLevel env tx root

/-- `CheckCreatePseudoSerialnum`: a transaction without serial numbers gets one from a hash, and a sell
request outside the persistent database also gets one from its foreign address. -/
def pseudoSerialnum (tx : TxPay) (xtx : Option Xtx) (wire : List UInt8) (persistent : Bool) : TxPay :=
  let xchainSell : Bool := !persistent && tx.tagType.isXreq &&
    match tx.tagType with | .xcx t => t.isSeller | _ => false
  if !(xchainSell || tx.tagType = .mint) && tx.inputs.any (!·.noSerialnum) then tx
  else
    let inputs := if tx.tagType = .mint then tx.inputs.dropLast else tx.inputs
    let serialnum := match xchainSell, xtx with
      | true, some (.xreq x) => env.addressHash x.foreignAddress
      | _, some (.xpay xpay) => env.paymentIdHash xpay
      | _, _ => env.objHash wire
    let hashkey := match xtx with
      | some (.xpay _) => env.objHash wire
      | _ => 0
    { tx with inputs := inputs ++ [{ serialnum := serialnum, hashkey := hashkey }] }

/-- The loop over the serial numbers of a transaction, which are to be pairwise different and not
spent: whether they were all spent by this very transaction. -/
def serialnumsSpent (db : PersistentDb) (seen : List ℕ) (foundNotSpent foundSpent : Bool) (txCommitnum : ℕ) :
    List TxIn → Except ℤ Bool
  | [] => .ok foundSpent
  | txin :: rest => do
    reject (txin.serialnum ∈ seen) resultDuplicateSerialnum
    match db.serialnumSelect txin.serialnum with
    | none => do
      reject (foundSpent = true) resultAlreadySpent
      serialnumsSpent db (txin.serialnum :: seen) true foundSpent txCommitnum rest
    | some row => do
      reject (row.hashkey.any (· ≠ txin.hashkey) = true) resultAlreadySpent
      reject (foundSpent = true ∧ row.txCommitnum ≠ 0 ∧ row.txCommitnum ≠ txCommitnum) resultAlreadySpent
      reject (foundNotSpent = true) resultAlreadySpent
      serialnumsSpent db (txin.serialnum :: seen) foundNotSpent true
        (if foundSpent then txCommitnum else row.txCommitnum) rest

/-- A transaction whose serial numbers it spent itself was sent again, which gives the result 1. -/
def checkSerialnums (db : PersistentDb) (inputs : List TxIn) : Except ℤ Unit := do
  let spent ← serialnumsSpent db [] false false 0 inputs
  reject (spent = true) 1

def validateForeign (xpay : Xpay) : Except ℤ Unit :=
  match env.queryPayment xpay.foreignBlockchain xpay.foreignBlockId xpay.foreignAddress xpay.foreignTxid with
  | .notFound => .error resultInvalidValue
  | .error => reject (ignoreError env xpay.foreignBlockchain inBlock = false) resultForeignError
  | .found result => do
    reject (result.confirmations < xpay.foreignConfirmationsRequired / (if inBlock then 2 else 1))
      resultForeignVerificationFailed
    reject (result.amount < xpay.foreignAmount) resultForeignVerificationFailed
    reject (xpay.foreignAmount < result.amount ∧ xpay.foreignAmount < xpay.matchLeftToPay ∧
      xpay.foreignAmount < UniFloat.wireDecode (env.wireEncodeDown result.amount))
      resultForeignVerificationFailed
    reject (foreignTxPastAllowance < (xpay.matchTimestamp : ℤ) - result.blocktime) resultForeignVerificationFailed
    reject (foreignTxFutureAllowance < (result.blocktime : ℤ) - priorBlocktime) resultForeignVerificationFailed

/-- The end of validation, after the serial numbers. -/
def checkPayment (typed : Typed) : Except ℤ Unit := do
  reject (typed.alreadyPaid = true) resultAlreadyPaid
  match typed.xtx with
  | some (.xpay xpay) => validateForeign env priorBlocktime inBlock xpay
  | _ => .ok ()

/-- The checks of a parsed transaction. -/
def checkTx (tx : TxPay) (wire : List UInt8) : Except ℤ Unit := do
  let tx := setTxDefaults env tx
  checkTxFields env tx
  let xtx := extractXtx env tx
  reject (xtx = none ∧ extractXtxFailed tx false = true) resultBinaryDataInvalid
  let typed ← validateByType env view priorBlocktime inBlock tx xtx (txSize wire)
    (tx.outputs.map (·.repeatCount + 1)).sum
  let tx ← checkParamLevel env view priorBlocktime typed.tx
  reject (tx.tagType.hasBareMsg = false ∧ env.proofFails tx = true) resultProofVerificationFailed
  if tx.tagType = .mint then return ()
  else
    checkSerialnums view.db (pseudoSerialnum env tx typed.xtx wire false).inputs
    checkPayment env priorBlocktime inBlock typed

/-- The time that rules are checked at: that of the last indelible block if none is given. -/
def blockchainTime : ℕ := if priorBlocktime = 0 then view.lastIndelibleTimestamp else priorBlocktime

/-- `ProcessTx::TxValidate` on a transaction as it stands in a block. -/
def txValidate (wire : List UInt8) : Except ℤ Unit :=
  match (txFromWire env.blake2s wire {}).1 with
  | .error _ => .error resultBinaryDataInvalid
  | .ok tx => checkTx env view (blockchainTime view priorBlocktime) inBlock tx wire

end Dynamic

end CredaCash.Chain
