import CredaCash.BoundedReader
import CredaCash.Xreq

/-! Transaction messages: the object tags, the transaction record, and the parser that fills it
from the bytes of a message. -/

namespace CredaCash.Wire
open BoundedReader Reader

/-- The network object types. -/
inductive ObjType
  | void | mint | txpay | block
  | xcx (type : XtxType)
  deriving DecidableEq

namespace ObjType

/-- `Xtx::TypeIsXtx`. -/
def isXtx : ObjType → Bool
  | xcx _ => true
  | _ => false

/-- `Xtx::TypeIsXreq`. -/
def isXreq : ObjType → Bool
  | xcx t => t.isXreq
  | _ => false

/-- `Xtx::TypeIsXpay`. -/
def isXpay (t : ObjType) : Bool := t = xcx .payment

/-- `Xtx::TypeHasBareMsg`. -/
def hasBareMsg : ObjType → Bool
  | xcx t => t.hasBareMsg
  | _ => false

end ObjType

def tagBlock : ℕ := 0xCC000001
def tagBlockFlag : ℕ := 0x00010000
def tagMint : ℕ := 0xCC020001
def tagTx : ℕ := 0xCC040001
def tagTxXdomain : ℕ := 0xCC060001
def tagSimpleBuy : ℕ := 0xCC0C0001
def tagSimpleSell : ℕ := 0xCC0E0001
def tagNakedBuy : ℕ := 0xCC100001
def tagNakedSell : ℕ := 0xCC120001
def tagPayment : ℕ := 0xCC180001
def tagSimpleTrade : ℕ := 0xCC1A0001

/-- `CCObject::WireTag`: a tag without its block flag. -/
def wireTag (tag : ℕ) : ℕ := if tag.testBit 16 then tag - tagBlockFlag else tag

/-- `CCObject::HasPOW`: messages have a proof of work, transactions in blocks do not. -/
def hasPOW (tag : ℕ) : Bool := tagMint ≤ tag && tag ≤ tagSimpleTrade && !tag.testBit 16

def objType (tag : ℕ) : ObjType :=
  let tag := wireTag tag
  if tag = tagBlock then .block
  else if tag = tagMint then .mint
  else if tag = tagTx ∨ tag = tagTxXdomain then .txpay
  else if tag = tagSimpleBuy then .xcx .simpleBuy
  else if tag = tagSimpleSell then .xcx .simpleSell
  else if tag = tagSimpleTrade then .xcx .miningTrade
  else if tag = tagNakedBuy then .xcx .nakedBuy
  else if tag = tagNakedSell then .xcx .nakedSell
  else if tag = tagPayment then .xcx .payment
  else .void

def powSize : ℕ := 48
def maxAppend : ℕ := 512
def maxOut : ℕ := 10
def maxIn : ℕ := 8
def maxInPath : ℕ := 8
def assetWireMask : ℕ := 2^32 - 1
def amountMask : ℕ := 2^40 - 1

/-- `TX_CC_MINT_EXPONENT`. -/
def mintExponent : ℕ := 22
/-- The published commitment of every mint input. -/
def mintCommitment : ℕ :=
  973184326264892349829845330310452310635714594783699009126090380917429859595

structure TxOut where
  destChain : ℕ := 0
  noAddress : Bool := false
  address : ℕ := 0
  acceptanceRequired : Bool := false
  repeatCount : ℕ := 0
  domain : ℕ := 0
  noAsset : Bool := false
  assetMask : ℕ := 0
  assetEnc : ℕ := 0
  noAmount : Bool := false
  amountMask : ℕ := 0
  amountEnc : ℕ := 0
  commitment : ℕ := 0
  deriving DecidableEq

structure TxIn where
  enforceMasterSecret : Bool := false
  enforceSpendSecrets : Bool := false
  enforceTrustSecrets : Bool := false
  enforceFreeze : Bool := false
  enforceUnfreeze : Bool := false
  merkleRoot : ℕ := 0
  invalmax : ℕ := 0
  delaytime : ℕ := 0
  domain : ℕ := 0
  commitment : ℕ := 0
  commitnum : ℕ := 0
  noSerialnum : Bool := false
  serialnum : ℕ := 0
  hashkey : ℕ := 0
  spendspecHashed : ℕ := 0
  pathnum : ℕ := 0
  deriving DecidableEq

structure TxPay where
  wireTag : ℕ := 0
  tagType : ObjType := .void
  zkkeyid : ℕ := 0
  zkproof : List UInt8 := []
  amountCarryOut : ℕ := 0
  appendWireOffset : ℕ := 0
  appendDataLength : ℕ := 0
  appendData : List UInt8 := []
  txType : ObjType := .void
  sourceChain : ℕ := 0
  paramLevel : ℕ := 0
  paramTime : ℕ := 0
  revision : ℕ := 0
  expiration : ℕ := 0
  refhash : ℕ := 0
  reserved : ℕ := 0
  donationFp : ℕ := 0
  outvalmin : ℕ := 0
  outvalmax : ℕ := 0
  allowRestrictedAddresses : Bool := false
  txMerkleRoot : ℕ := 0
  nout : ℕ := 0
  nin : ℕ := 0
  ninWithPath : ℕ := 0
  outputs : List TxOut := []
  inputs : List TxIn := []
  deriving DecidableEq

/-- How a parser ends without a result: a non-zero return, or an exception that its caller
catches. -/
inductive Failure
  | rc (code : ℤ)
  | exception (what : String)
  deriving DecidableEq

abbrev Parser (α : Type) := Reader Failure α

/-- `copy_from_buf`, whose position is a `uint32_t`. -/
def copyFromBuf (datasize nbytes : ℕ) : Parser (List UInt8) := copy (2^32) datasize nbytes

/-- `copy_from_buf` into a number of `datasize` bytes. -/
def readNat (datasize nbytes : ℕ) : Parser ℕ := do
  let bytes ← copyFromBuf datasize nbytes
  return leNat bytes

/-- `CCASSERT`, which throws. -/
def ccassert (p : Prop) [Decidable p] (what : String) : Parser Unit :=
  if p then pure () else fail (.exception what)

/-- `txpay_output_from_wire`; the values that `tx_init` leaves zero are not on the wire. -/
def txpayOutputFromWire (tx : TxPay) : Parser TxOut := do
  let address ← readNat 32 16
  let domain ← readIf (tx.wireTag = tagTxXdomain) (readNat 4 3) 0
  let assetEnc ← readIf (tx.tagType ≠ .mint) (readNat 8 4) 0
  let amountEnc ← readNat 8 5
  let commitment ← readNat 32 32
  return { address := address, domain := domain, assetEnc := assetEnc, amountEnc := amountEnc,
           commitment := commitment,
           assetMask := if tx.tagType ≠ .mint then assetWireMask else 0,
           amountMask := if tx.tagType ≠ .mint then amountMask else 0 }

/-- `txpay_input_from_wire` for the input with the given index. -/
def txpayInputFromWire (tx : TxPay) (i : ℕ) : Parser TxIn := do
  let pathnum := if i < tx.ninWithPath then i + 1 else 0
  let domain ← readIf (tx.wireTag = tagTxXdomain) (readNat 4 3) 0
  let commitment ← readIf (pathnum = 0) (readNat 32 32) 0
  let commitnum ← readIf (pathnum = 0) (readNat 8 6) 0
  let serialnum ← readNat 32 32
  let hashkey ← readNat 32 16
  return { enforceTrustSecrets := true, merkleRoot := tx.txMerkleRoot, domain := domain,
           commitment := commitment, commitnum := commitnum, serialnum := serialnum,
           hashkey := hashkey, pathnum := pathnum }

def setMintInputs (tx : TxPay) : Parser TxPay :=
  if tx.tagType ≠ .mint then fail (.rc (-1))
  else if tx.nin ≠ 0 then fail (.rc (-1))
  else pure { tx with
    nin := 1
    inputs := [{ invalmax := mintExponent, commitment := mintCommitment, merkleRoot := tx.txMerkleRoot,
                 enforceTrustSecrets := true, noSerialnum := true }] }

/-- The types whose body carries the numbers of outputs and inputs. -/
def hasCounts (t : ObjType) : Bool :=
  t = .txpay || t = .xcx .simpleBuy || t = .xcx .simpleSell || t = .xcx .miningTrade ||
    t = .xcx .nakedBuy || t = .xcx .nakedSell

/-- The counts of a body: one packed byte, or those of a mint. -/
def txpayCountsFromWire (tx : TxPay) : Parser TxPay := do
  if hasCounts tx.tagType then
    let nadj ← readNat 1 1
    let ninWithPath := nadj % 16 + 1
    return { tx with nout := nadj / 16 + 1, ninWithPath := ninWithPath, nin := ninWithPath }
  else if tx.tagType = .mint then return { tx with nout := 1 }
  else fail (.rc (-1))

/-- The outputs and inputs of a body, whose numbers are limited. -/
def txpayListsFromWire (tx : TxPay) : Parser TxPay :=
  if maxOut < tx.nout then fail (.rc (-1))
  else if maxIn < tx.nin then fail (.rc (-1))
  else if maxInPath < tx.ninWithPath then fail (.rc (-1))
  else do
    let outputs ← forIndices (fun _ => txpayOutputFromWire tx) 0 tx.nout
    let inputs ← forIndices (txpayInputFromWire tx) 0 tx.nin
    let tx := { tx with outputs := outputs, inputs := inputs,
                        allowRestrictedAddresses := decide (tx.nout ≠ 0) }
    if tx.tagType = .mint then setMintInputs tx else pure tx

def txpayBodyFromWire (tx : TxPay) : Parser TxPay := do
  let paramLevel ← readNat 8 5
  let zkproof ← copyFromBuf 288 287
  let zkkeyid ← readIf (tx.tagType ≠ .mint) (readNat 2 1) 0
  let donationFp ← readNat 8 2
  let tx ← txpayCountsFromWire
    { tx with paramLevel := paramLevel, zkproof := zkproof, zkkeyid := zkkeyid, donationFp := donationFp }
  txpayListsFromWire tx

/-- The header: the size word, which may not exceed the message, and the tag. -/
def txHeaderFromWire : Parser (ℕ × TxPay) := do
  let wiresize ← readNat 4 4
  let binsize ← bufsize
  if binsize < wiresize then fail (.rc (-1))
  else
    let tag ← readNat 4 4
    if objType tag = .void ∨ objType tag = .block then fail (.rc (-1))
    else
      let bufpos ← counter
      ccassert (bufpos = 8) "bufpos == sizeof(CCObject::Header)"
      skip (2^32) (if hasPOW tag then powSize else 0)
      return (wiresize, { wireTag := Wire.wireTag tag, tagType := objType tag, txType := objType tag })

/-- The append data: what is left of the `wiresize` bytes by a subtraction of `uint32_t`s. -/
def txAppendFromWire (blake2s : List UInt8 → ℕ) (wiresize : ℕ) (tx : TxPay) : Parser TxPay := do
  let bufpos ← counter
  let nappend := (wiresize + 2^32 - bufpos) % 2^32
  if nappend = 0 then return tx
  else if !tx.tagType.isXtx then fail (.rc (-1))
  else
    let data ← copyFromBuf maxAppend nappend
    return { tx with appendWireOffset := bufpos, appendDataLength := nappend, appendData := data,
                     refhash := blake2s (data.take nappend) }

/-- The check at the end of a parser: it fails if its position is after the end of the buffer. -/
def checkEnd {α : Type} (a : α) : Parser α := do
  let binsize ← bufsize
  let bufpos ← counter
  if binsize < bufpos then fail (.rc 1) else pure a

def txFromWire (blake2s : List UInt8 → ℕ) : Parser TxPay := do
  let (wiresize, tx) ← txHeaderFromWire
  let tx ← readIf (!tx.tagType.hasBareMsg) (txpayBodyFromWire tx) tx
  let tx ← txAppendFromWire blake2s wiresize tx
  checkEnd tx

section Bare
variable {tx : TxPay}

lemma txpayListsFromWire_tagType : (txpayListsFromWire tx).Ensures fun tx' => tx'.tagType = tx.tagType := by
  refine .ite (fun _ => .fail) fun _ => .ite (fun _ => .fail) fun _ => .ite (fun _ => .fail) fun _ => ?_
  refine .next fun outputs => .next fun inputs => .ite (fun _ => ?_) fun _ => .pure rfl
  exact .ite (fun _ => .fail) fun _ => .ite (fun _ => .fail) fun _ => .pure rfl

lemma txpayBodyFromWire_tagType : (txpayBodyFromWire tx).Ensures fun tx' => tx'.tagType = tx.tagType := by
  refine .next fun _ => .next fun _ => .next fun _ =>
    .next fun _ => .bind (fun tx' => tx'.tagType = tx.tagType) ?_ fun tx' htx' => ?_
  · refine .ite (fun _ => .next fun _ => .pure rfl) fun _ => ?_
    exact .ite (fun _ => .pure rfl) fun _ => .fail
  · intro buf s a s' h
    exact (txpayListsFromWire_tagType buf s a s' h).trans htx'

/-- What holds of a message without a body and of every body, whatever the append data, holds of every message. -/
lemma ensures_txFromWire (blake2s : List UInt8 → ℕ) {Q : TxPay → Prop}
    (hbare : ∀ tx : TxPay, tx.inputs = [] → tx.tagType.hasBareMsg = true → Q tx)
    (hbody : ∀ tx : TxPay, tx.tagType.hasBareMsg = false → (txpayBodyFromWire tx).Ensures Q)
    (happend : ∀ (tx : TxPay) (offset length : ℕ) (data : List UInt8) (hash : ℕ), Q tx →
      Q { tx with appendWireOffset := offset, appendDataLength := length, appendData := data, refhash := hash }) :
    (txFromWire blake2s).Ensures Q := by
  refine .bind (fun header => header.2.inputs = []) ?_ fun header hheader => ?_
  · refine .next fun wiresize => .next fun binsize => .ite (fun _ => .fail) fun _ => ?_
    refine .next fun tag => .ite (fun _ => .fail) fun _ => ?_
    exact .next fun _ => .next fun _ => .next fun _ => .pure rfl
  · obtain ⟨wiresize, tx⟩ := header
    refine .bind Q ?_ fun tx htx => ?_
    · refine .ite (fun hbody' => hbody tx (by simpa using hbody')) fun hbare' => .pure ?_
      exact hbare tx hheader (by simpa using hbare')
    · refine .bind Q ?_ fun tx htx => ?_
      · refine .next fun bufpos => .ite (fun _ => .pure htx) fun _ => .ite (fun _ => .fail) fun _ => ?_
        exact .next fun _ => .pure (happend tx _ _ _ _ htx)
      · exact .next fun _ => .next fun _ => .ite (fun _ => .fail) fun _ => .pure htx

/-- A message without a body has no inputs. -/
lemma txFromWire_bare (blake2s : List UInt8 → ℕ) :
    (txFromWire blake2s).Ensures fun tx => tx.tagType.hasBareMsg = true → tx.inputs = [] := by
  refine ensures_txFromWire blake2s (fun _ hinputs _ _ => hinputs) (fun tx hbody => ?_) fun _ _ _ _ _ h => h
  intro buf s a s' h hbare
  rw [txpayBodyFromWire_tagType buf s a s' h, hbody] at hbare
  cases hbare

/-- A mint has its one input, and every other transaction has a serial number on each of its inputs. -/
def WireInputs (tx : TxPay) : Prop :=
  (tx.tagType = .mint → tx.inputs.length = 1) ∧ (tx.tagType ≠ .mint → ∀ txin ∈ tx.inputs, txin.noSerialnum = false)

lemma txpayListsFromWire_inputs : (txpayListsFromWire tx).Ensures WireInputs := by
  refine .ite (fun _ => .fail) fun _ => .ite (fun _ => .fail) fun _ => .ite (fun _ => .fail) fun _ => ?_
  refine .next fun outputs => .bind (fun l => ∀ txin ∈ l, txin.noSerialnum = false) (.forIndices (fun i => ?_) _ _)
    fun inputs hinputs => ?_
  · exact .next fun _ => .next fun _ => .next fun _ => .next fun _ => .next fun _ => .pure rfl
  · refine .ite (fun hmint => ?_) fun hmint => .pure ⟨fun h => absurd h hmint, fun _ => hinputs⟩
    exact .ite (fun _ => .fail) fun _ => .ite (fun _ => .fail) fun _ => .pure ⟨fun _ => rfl, fun h => absurd hmint h⟩

lemma txFromWire_inputs (blake2s : List UInt8 → ℕ) : (txFromWire blake2s).Ensures WireInputs := by
  refine ensures_txFromWire blake2s (fun tx hinputs hbare => ⟨fun hmint => ?_, fun _ => ?_⟩) (fun tx _ => ?_)
    fun _ _ _ _ _ h => h
  · rw [hmint] at hbare
    cases hbare
  · rw [hinputs]
    exact fun _ h => by cases h
  · exact .next fun _ => .next fun _ => .next fun _ => .next fun _ => .next fun _ => txpayListsFromWire_inputs

end Bare

end CredaCash.Wire
