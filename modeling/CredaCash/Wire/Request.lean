import CredaCash.Wire.Transaction

/-! The parsers of exchange requests and payment claims, which read the append data of a
transaction. -/

namespace CredaCash.Wire
open BoundedReader Reader

/-- An exchange payment claim; the fields from `matchLeftToPay` on are set from its match. -/
structure Xpay where
  xmatchnum : ℕ := 0
  foreignAmountFp : ℕ := 0
  foreignAmount : UniFloat := 0
  foreignTxid : String := ""
  foreignBlockId : String := ""
  matchLeftToPay : UniFloat := 0
  matchTimestamp : ℕ := 0
  foreignBlockchain : ℕ := 0
  foreignConfirmationsRequired : ℕ := 0
  paymentTime : ℕ := 0
  foreignAddress : String := ""
  deriving DecidableEq

inductive Xtx
  | xreq (x : Xreq)
  | xpay (x : Xpay)
  deriving DecidableEq

/-- The parts of parsing that are decoders of their own: the loop of `cc_alpha_decode` for a table,
some data and a number of symbols, and `map_exp_decode` of a payment time. -/
structure Codec where
  alphaDecode : ℕ → List UInt8 → ℕ → Except Failure String
  mapExpDecode : ℕ → ℕ
  oldTableMapping : Bool := false
  forTestnet : Bool := false

/-- The second and third byte of each decode table, as one number; the table in place 9 is an
encode table. -/
def decodeTableSizes : List ℕ :=
  [106*256+77, 128*256, 160*256, 160*256, 162*256+204, 167*256+239, 187*256+117, 193*256+108,
    210*256+60, 32*256+255, 0]

/-- `cc_table_expected_strlen`. -/
def expectedStrlen (table binlength : ℕ) : ℕ :=
  let resize := decodeTableSizes.getD table 0
  binlength * 2^16 / (if resize = 0 then 2^16 else resize)

/-- `cc_alpha_decode`: nothing to decode gives the empty string. -/
def alphaDecode (codec : Codec) (table : ℕ) (data : List UInt8) (nchars : ℕ) : Except Failure String :=
  if data = [] ∨ nchars = 0 then .ok "" else codec.alphaDecode table data nchars

/-- `cc_alpha_decode_best`; its callers turn the result `-1` into the exception `what`. -/
def alphaDecodeBest (codec : Codec) (what : String) (data : List UInt8) : Except Failure String :=
  match data with
  | [] => .ok ""
  | head :: data =>
    let table := head.toNat / 16
    let table := if table = 9 ∧ codec.oldTableMapping then 10 else table
    if 10 < table then .error (.exception what)
    else
      let lenDiff : ℤ := head.toNat % 16 - 9
      let nchars : ℤ := expectedStrlen table data.length - lenDiff
      if nchars < 0 then .ok "" else alphaDecode codec table data nchars.toNat

/-- `char strbuf[288]`. -/
def strbufSize : ℕ := 288

/-- An item whose length comes as a byte of its own; `extra` is added to the length. -/
def readItem (codec : Codec) (what : String) (extra : ℕ) : Parser String := do
  let encoded ← readNat 8 1
  let encoded := encoded + extra
  let strbuf ← copyFromBuf strbufSize encoded
  ofExcept (alphaDecodeBest codec what (strbuf.take encoded))

/-- The end of `Xpay::DataFromWire`: `foreign_block_id` is what is left of the data by a subtraction
of `uint32_t`s, and is only decoded when the counter is inside the data. -/
def foreignBlockIdFromWire (codec : Codec) (xpay : Xpay) : Parser Xpay := do
  let binsize ← bufsize
  let bufpos ← counter
  let encoded := (binsize + 2^32 - bufpos) % 2^32
  let strbuf ← copyFromBuf strbufSize encoded
  let bufpos ← counter
  if binsize < bufpos then return xpay
  else
    let foreignBlockId ← ofExcept (alphaDecodeBest codec "failure decoding foreign_block_id"
      (strbuf.take encoded))
    return { xpay with foreignBlockId := foreignBlockId }

/-- `Xpay::DataFromWire`. -/
def xpayDataFromWire (codec : Codec) : Parser Xpay := do
  let xmatchnum ← readNat 8 8
  let foreignAmountFp ← readNat 8 4
  let foreignTxid ← readItem codec "failure decoding foreign_txid" 1
  foreignBlockIdFromWire codec
    { xmatchnum := xmatchnum, foreignAmountFp := foreignAmountFp,
      foreignAmount := UniFloat.wireDecode foreignAmountFp, foreignTxid := foreignTxid }

def txAmountDecode (amount : ℕ) : ℕ :=
  let exponent := amount % 2^5
  (amount / 2^5 + if 0 < exponent then 1 else 0) * 10^exponent

/-- `TX_TIME_OFFSET`. -/
def timeOffset : ℕ := 1704067200

def decodeTime (encoded : ℕ) : ℕ := encoded + timeOffset

def simplePledge : ℕ := 50
def simpleHoldTime : ℕ := 60
def simpleWaitTime : ℕ := 60

def defaultPaymentTime (istestnet : Bool) : ℕ :=
  if istestnet then (30 * 2 + 30) * 60 else (60 * 12 + 0) * 60

def defaultConfirmations (istestnet : Bool) : ℕ := if istestnet then 2 else 12

/-- `XREQ_BLOCKCHAIN_BTC`. -/
def blockchainBtc : ℕ := 1
/-- `XREQ_BLOCKCHAIN_BCH`. -/
def blockchainBch : ℕ := 2

/-- The base32 character set of foreign addresses. -/
def isAddressChar (c : Char) : Bool :=
  (('0' ≤ c && c ≤ '9') || ('a' ≤ c && c ≤ 'z')) && !(c = '1' || c = 'b' || c = 'i' || c = 'o')

/-- `Xreq::CheckForeignAddress`: true if the foreign address of a seller is invalid. -/
def checkForeignAddress (x : Xreq) : Bool :=
  let str := x.foreignAddress.toList
  let start := if x.quoteAsset = blockchainBtc then 4 else if x.quoteAsset = blockchainBch then 1 else 0
  x.isSeller &&
    ((x.quoteAsset = blockchainBtc && ((str.length ≠ 42 && str.length ≠ 62) ||
        (str.take 4 ≠ ['b', 'c', '1', 'q'] && str.take 4 ≠ ['t', 'b', '1', 'q']))) ||
      (x.quoteAsset = blockchainBch && (str.length ≠ 42 ||
        (str.take 1 ≠ ['p'] && str.take 1 ≠ ['q']))) ||
      !(str.drop start).all isAddressChar)

/-- A rate or a cost, in four bytes. -/
def readUniFloat (datasize : ℕ) : Parser UniFloat := do
  let encoded ← readNat datasize 4
  return UniFloat.wireDecode encoded

/-- The fields of a request before its packed flags and its strings. -/
def xreqTermsFromWire (codec : Codec) (type : XtxType) : Parser Xreq := do
  let expireTime ← readNat 8 4
  let destination ← readNat 32 32
  let minAmount ← readNat 8 5
  let maxAmount ← readIf (type ≠ .miningTrade) (readNat 8 5) minAmount
  let netRateRequired ← readUniFloat 8
  let waitDiscount ← readIf (type ≠ .miningTrade) (readUniFloat 8) 1
  let quoteAsset ← readNat 8 2
  let quoteCosts ← readIf (type ≠ .miningTrade) (readUniFloat 8) 0
  let x : Xreq :=
    { type := type, expireTime := decodeTime expireTime, destination := destination,
      minAmount := txAmountDecode minAmount, maxAmount := txAmountDecode maxAmount,
      netRateRequired := netRateRequired, waitDiscount := waitDiscount,
      quoteAsset := quoteAsset, quoteCosts := quoteCosts }
  if (4 ≤ type.code ∧ type.code ≤ 7) ∨ type = .miningTrade then
    return { x with
      pledge := if type.isSimple then simplePledge else 0
      holdTime := simpleHoldTime
      holdTimeRequired := simpleHoldTime
      paymentTime := defaultPaymentTime codec.forTestnet
      confirmations := defaultConfirmations codec.forTestnet }
  else
    let considerationRequired ← readNat 2 1
    let considerationOffered ← readNat 2 1
    let pledge ← readNat 2 1
    let holdTime ← readNat 2 1
    let holdTimeRequired ← readNat 2 1
    let acceptTimeRequired ← readNat 2 1
    let acceptTimeOffered ← readNat 2 1
    let paymentTime ← readNat 4 1
    let confirmations ← readNat 2 1
    return { x with
      considerationRequired := considerationRequired
      considerationOffered := considerationOffered
      pledge := pledge
      holdTime := holdTime
      holdTimeRequired := holdTimeRequired
      acceptTimeRequired := acceptTimeRequired
      acceptTimeOffered := acceptTimeOffered
      paymentTime := codec.mapExpDecode paymentTime
      confirmations := confirmations + 1 }

/-- The packed flags, lowest bit last. -/
def unpackFlags (x : Xreq) (encoded : ℕ) : Xreq :=
  { x with
    hasSigningKey := encoded.testBit 0
    mustLiquidateBelowMinimum := encoded.testBit 1
    mustLiquidateCrossingMinimum := encoded.testBit 2
    noMinimumAfterFirstMatch := encoded.testBit 3
    autoAcceptMatches := encoded.testBit 4
    addImmediatelyToBlockchain := encoded.testBit 5 }

/-- The foreign address of a seller. -/
def foreignAddressFromWire (codec : Codec) (x : Xreq) : Parser Xreq := do
  let foreignAddress ← readItem codec "failure decoding foreign_address" 1
  let x := { x with foreignAddress := foreignAddress }
  if checkForeignAddress x then fail (.exception "invalid foreign_address") else pure x

/-- The end of a request: the strings, the signing key and the proof of work of a naked buy. -/
def xreqStringsFromWire (codec : Codec) (x : Xreq) : Parser Xreq := do
  let foreignAsset ← readItem codec "failure decoding foreign_asset" 0
  let x := { x with foreignAsset := foreignAsset }
  let x ← readIf x.isSeller (foreignAddressFromWire codec x) x
  let signingPublicKey ← readIf x.hasSigningKey (readNat 32 32) 0
  let _ ← readIf (x.type = .nakedBuy) (readNat 8 8) 0
  return { x with signingPublicKey := signingPublicKey }

/-- `Xreq::DataFromWire`. -/
def xreqDataFromWire (codec : Codec) (type : XtxType) : Parser Xreq :=
  if type = .miningBuy ∨ type = .miningSell then fail (.exception "type not serializable")
  else do
    let x ← xreqTermsFromWire codec type
    let minWaitTime ← readIf (type ≠ .miningTrade) (readNat 2 1) simpleWaitTime
    let flags ← readNat 8 1
    xreqStringsFromWire codec (unpackFlags { x with minWaitTime := minWaitTime } flags)

/-- `Xtx::DataFromWire` of each class; a bare `Xtx` has no data of its own. -/
def xtxDataFromWire (codec : Codec) (type : XtxType) : Parser Xtx :=
  if type.isXreq then (do
    let x ← xreqDataFromWire codec type
    return .xreq x)
  else if type = .payment then (do
    let x ← xpayDataFromWire codec
    return .xpay x)
  else fail (.exception "assert(TEST_XREQ)")

/-- `Xtx::FromWire`. -/
def xtxFromWire (codec : Codec) (type : XtxType) : Parser Xtx := do
  let xtx ← xtxDataFromWire codec type
  checkEnd xtx

/-- A payment claim only comes from the data of a payment. -/
lemma xtxFromWire_xpay (codec : Codec) (type : XtxType) :
    (xtxFromWire codec type).Ensures fun xtx => ∀ x, xtx = .xpay x → type = .payment := by
  refine .bind (fun xtx => ∀ x, xtx = .xpay x → type = .payment) ?_ fun xtx hxtx => ?_
  · refine .ite (fun _ => .next fun x => .pure fun _ h => (by cases h)) fun _ => ?_
    exact .ite (fun htype => .next fun _ => .pure fun _ _ => htype) fun _ => .fail
  · exact .next fun _ => .next fun _ => .ite (fun _ => .fail) fun _ => .pure hxtx

section Xreqs

/-- The columns of a request that are set when it is added and when it is matched. -/
structure Unmatched (x : Xreq) : Prop where
  seqnum : x.seqnum = 0
  linkedSeqnum : x.linkedSeqnum = 0
  xreqnum : x.xreqnum = 0
  matchingAmount : x.matchingAmount = 0
  pendingMatchOrder : x.pendingMatchOrder = 0

lemma xreqTermsFromWire_unmatched (codec : Codec) (type : XtxType) :
    (xreqTermsFromWire codec type).Ensures Unmatched := by
  refine .next fun _ => .next fun _ => .next fun _ => .next fun _ => .next fun _ => .next fun _ => .next fun _ =>
    .next fun _ => .ite (fun _ => .pure ⟨rfl, rfl, rfl, rfl, rfl⟩) fun _ => ?_
  exact .next fun _ => .next fun _ => .next fun _ => .next fun _ => .next fun _ => .next fun _ => .next fun _ =>
    .next fun _ => .next fun _ => .pure ⟨rfl, rfl, rfl, rfl, rfl⟩

lemma xreqStringsFromWire_new (codec : Codec) {x : Xreq} (h : Unmatched x) :
    (xreqStringsFromWire codec x).Ensures fun x => Unmatched x ∧ checkForeignAddress x = false := by
  refine .next fun foreignAsset => .bind (fun x => Unmatched x ∧ checkForeignAddress x = false) ?_ fun x hx =>
    .next fun _ => .next fun _ => .pure ⟨⟨hx.1.1, hx.1.2, hx.1.3, hx.1.4, hx.1.5⟩, hx.2⟩
  refine .ite (fun _ => ?_) fun hseller => .pure ⟨⟨h.1, h.2, h.3, h.4, h.5⟩, ?_⟩
  · refine .next fun foreignAddress => .ite (fun _ => .fail) fun hvalid => .pure ⟨⟨h.1, h.2, h.3, h.4, h.5⟩, ?_⟩
    exact Bool.eq_false_iff.2 hvalid
  · unfold checkForeignAddress
    rw [Bool.eq_false_iff.2 hseller]
    rfl

/-- A request from the wire has not been matched, and the foreign address of a seller is valid. -/
lemma xtxFromWire_xreq (codec : Codec) (type : XtxType) :
    (xtxFromWire codec type).Ensures fun xtx => ∀ x, xtx = .xreq x → Unmatched x ∧ checkForeignAddress x = false := by
  refine .bind (fun xtx => ∀ x, xtx = .xreq x → Unmatched x ∧ checkForeignAddress x = false) ?_ fun xtx hxtx => ?_
  · refine .ite (fun _ => ?_) fun _ => .ite (fun _ => .next fun _ => .pure fun _ h => (by cases h)) fun _ => .fail
    refine .bind (fun x => Unmatched x ∧ checkForeignAddress x = false) ?_ fun x hx => .pure fun _ h => ?_
    · refine .ite (fun _ => .fail) fun _ => .bind Unmatched (xreqTermsFromWire_unmatched codec type) fun x hx => ?_
      exact .next fun _ => .next fun _ => xreqStringsFromWire_new codec ⟨hx.1, hx.2, hx.3, hx.4, hx.5⟩
    · cases h
      exact hx
  · exact .next fun _ => .next fun _ => .ite (fun _ => .fail) fun _ => .pure hxtx

end Xreqs

end CredaCash.Wire
