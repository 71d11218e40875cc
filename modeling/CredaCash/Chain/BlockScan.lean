import CredaCash.Logged
import CredaCash.Chain.BlockTime
import CredaCash.Wire.Bounds
import CredaCash.Wire.TxToWire

/-! The loops over the bytes of a block: those of `BlockValidate`, and that of `IndexTxs`, with their
accesses to memory and their assertions. -/

namespace CredaCash.Chain
open BoundedReader Wire Checks Logged

/-- Memory from `TxData()` on: the bytes of the block end at `ObjEndPtr()`, after `size` of them. -/
structure BlockBytes where
  mem : ℕ → UInt8
  size : ℕ

namespace BlockBytes
variable (b : BlockBytes)

def slice (pos nbytes : ℕ) : List UInt8 := (List.range nbytes).map fun i => b.mem (pos + i)

/-- The size word at a position. -/
def txsize (pos : ℕ) : ℕ := leNat (b.slice pos 4)

/-- The transaction that the size word at a position delimits. -/
def wire (pos : ℕ) : List UInt8 := b.slice pos (b.txsize pos)

end BlockBytes

/-- What a loop does with memory. -/
inductive Access
  /-- It reads a size word. -/
  | word (pos : ℕ)
  /-- It takes the bytes from a position on as a transaction of a given size. -/
  | message (pos txsize : ℕ)
  /-- It copies bytes of a buffer. -/
  | copy (bufsize : ℕ) (r : Request)

/-- A size word lies in the block, a transaction is at least as long as a header and ends in the block, and a copy
stays inside its buffers. -/
def Access.Safe (size : ℕ) : Access → Prop
  | word pos => pos + 4 ≤ size
  | message pos txsize => 8 ≤ txsize ∧ pos + txsize ≤ size
  | copy bufsize r => r.Safe bufsize

/-- A part of a loop: how it accesses memory, and how it ends. Assertions and null pointers are exceptions. -/
abbrev Scan (α : Type) := Logged Access Failure α

/-- `tx_from_wire`. -/
def parseTx (blake2s : List UInt8 → ℕ) (wire : List UInt8) : Scan TxPay where
  log := (txFromWire blake2s wire {}).2.requests.map (.copy wire.length)
  result :=
    match (txFromWire blake2s wire {}).1 with
    | .error _ => .error (.rc (-1))
    | .ok tx => .ok tx

/-- `ExtractXtx`. -/
def parseXtx (env : Env) (db : PersistentDb) (tx : TxPay) : Scan (Option Xtx) where
  log :=
    match tx.tagType with
    | .xcx type =>
      let data := tx.appendData.take tx.appendDataLength
      (xtxFromWire env.codec type data {}).2.requests.map (.copy data.length)
    | _ => []
  result := .ok (extractXtxWithMatch env db tx)

/-- `xchain_sell`: outside the persistent database a sell request needs the hash of its foreign address. -/
def xchainSell (tx : TxPay) (persistent : Bool) : Bool :=
  !persistent && tx.tagType.isXreq && match tx.tagType with | .xcx t => t.isSeller | _ => false

/-- The body of a transaction, which is hashed. -/
def bodyRequest (wire : List UInt8) : Request where
  datasize := bodySizeOf wire.length (tagAt wire)
  nbytes := bodySizeOf wire.length (tagAt wire)
  pos := bodyStart wire
  copied := true

/-- `CheckCreatePseudoSerialnum` up to the new serial number: its assertions, and the read of the body if that is
what it hashes. -/
def checkPseudoSerialnum (tx : TxPay) (xtx : Option Xtx) (wire : List UInt8) (persistent : Bool) : Scan Unit :=
  if !(xchainSell tx persistent || tx.tagType = .mint) && tx.inputs.any (!·.noSerialnum) then pure ()
  else do
    let nin := if tx.tagType = .mint then tx.inputs.length - 1 else tx.inputs.length
    lift (reject (¬ nin < maxIn) (.exception "assert(i < TX_MAXIN)"))
    lift (reject (objType (tagAt wire) = .void) (.exception "assert(objtype)"))
    match xchainSell tx persistent, xtx with
    | true, some (.xreq x) =>
      lift (reject (x.foreignAddress = "") (.exception "assert(xreq->foreign_address.length())"))
    | true, _ => lift (.error (.exception "null xreq"))
    | false, some (.xpay xpay) => do
      lift (reject (xpay.foreignBlockchain = 0) (.exception "assert(foreign_blockchain)"))
      note (.copy wire.length (bodyRequest wire))
    | false, _ => note (.copy wire.length (bodyRequest wire))

/-- `ExtractTx`: it copies the transaction into an object of its own. -/
def extractTx (pos : ℕ) (wire : List UInt8) : Scan Unit := do
  lift (reject (wire.length < 8) (.rc (-1)))
  note (.message pos wire.length)
  lift (reject (extractTxFails (headerTx wire) wire = true) (.rc (-1)))

/-- The state of the first loop: its position, the serial numbers so far, and the transactions before the
position. -/
structure ScanState where
  pos : ℕ := 0
  temp : List TempSerialnum
  txs : List (List UInt8) := []

section Loops
variable (env : BlockEnv) (view : BlockView) (chain : BlockChain) (cache : List (List UInt8)) (b : BlockBytes)

/-- A turn of the first loop of `BlockValidate`. -/
def scanTurn (s : ScanState) : Scan ScanState := do
  note (.word s.pos)
  let wire := b.wire s.pos
  note (.message s.pos wire.length)
  let tx ← parseTx env.blake2s wire
  let xtx ← parseXtx env.toEnv view.db tx
  lift (reject (xtx = none ∧ extractXtxFailed tx true = true) (.rc (-1)))
  lift (recheckXtx view chain tx xtx)
  checkPseudoSerialnum tx xtx wire false
  let temp ← lift (insertSerialnums view chain s.temp (pseudoSerialnum env.toEnv tx xtx wire false).inputs)
  extractTx s.pos wire
  return { pos := s.pos + wire.length, temp := temp, txs := s.txs ++ [wire] }

/-- A turn of the second loop, at a position. -/
def validateTurn (pos : ℕ) : Scan ℕ := do
  note (.word pos)
  let wire := b.wire pos
  extractTx pos wire
  lift (validateTx env view chain cache wire)
  return pos + wire.length

/-- The first loop begins without the serial numbers that an earlier block left. -/
def scanStart : ScanState where
  temp := view.tempSerialnums.filter fun row => !(row.blockp = processBlockp && row.level = 0)

/-- The two loops of `BlockValidate`, with a bound on their turns. -/
def validateTxs (n : ℕ) : Option (Scan Unit) := do
  let first ← loop (fun s => s.pos < b.size) (scanTurn env view chain b) n (scanStart view)
  let second ← loop (fun pos => pos < b.size) (validateTurn env view chain cache b) n 0
  return do
    let s ← first
    lift (reject (s.pos ≠ b.size) (.rc (-1)))
    let _ ← second
    return ()

/-- A witness computes the object id of a transaction, a hash of its body. -/
def witnessObjId (isWitness : Bool) (wire : List UInt8) : Scan Unit :=
  if isWitness then note (.copy wire.length (bodyRequest wire)) else pure ()

/-- A turn of the loop of `IndexTxs`, as far as it depends on the bytes of the transaction: the position, and the
transactions before it. -/
def indexTurn (db : PersistentDb) (isWitness : Bool) (s : ℕ × List (List UInt8)) : Scan (ℕ × List (List UInt8)) := do
  note (.word s.1)
  let wire := b.wire s.1
  note (.message s.1 wire.length)
  witnessObjId isWitness wire
  let tx ← parseTx env.blake2s wire
  let xtx ← parseXtx env.toEnv db tx
  lift (reject (xtx = none ∧ extractXtxFailed tx false = true) (.rc 1))
  checkPseudoSerialnum tx xtx wire true
  lift (reject ((pseudoSerialnum env.toEnv tx xtx wire true).inputs.all (·.noSerialnum) = true)
    (.exception "assert(have_serialnum)"))
  return (s.1 + wire.length, s.2 ++ [wire])

end Loops

/-- A loop ends by returning, not by an exception. -/
def Returns : Failure → Prop
  | .rc _ => True
  | .exception _ => False

lemma not_returns_exception (what : String) : ¬ Returns (.exception what) := id

section Bytes
variable {b : BlockBytes} {pos : ℕ}

@[simp] lemma BlockBytes.slice_length (pos nbytes : ℕ) : (b.slice pos nbytes).length = nbytes := by
  simp [BlockBytes.slice]

@[simp] lemma BlockBytes.wire_length (pos : ℕ) : (b.wire pos).length = b.txsize pos := b.slice_length ..

lemma BlockBytes.txsize_lt (pos : ℕ) : b.txsize pos < 2^32 := by
  have h := leNat_lt (b.slice pos 4)
  rw [b.slice_length] at h
  exact h.trans_eq (by norm_num)

lemma BlockBytes.slice_append (pos m n : ℕ) : b.slice pos m ++ b.slice (pos + m) n = b.slice pos (m + n) := by
  simp [BlockBytes.slice, List.range_add, Nat.add_assoc, Function.comp_def]

/-- The size word of a transaction is its length. -/
lemma BlockBytes.wiresizeAt_wire (h : 4 ≤ b.txsize pos) : wiresizeAt (b.wire pos) = b.txsize pos := by
  have htake : (b.wire pos).take 4 = b.slice pos 4 := by
    obtain ⟨n, hn⟩ := Nat.exists_eq_add_of_le h
    rw [BlockBytes.wire, hn, ← b.slice_append pos 4 n]
    exact List.take_left' (b.slice_length ..)
  have hfield : Reader.fieldAt (b.wire pos) 0 4 4 = b.slice pos 4 := by
    rw [Reader.fieldAt, if_pos (by rw [b.wire_length]; omega)]
    unfold Reader.bytesAt
    simp [htake]
  rw [wiresizeAt, hfield, BlockBytes.txsize]

end Bytes

section Parse
variable {env : Env} {db : PersistentDb} {blake2s : List UInt8 → ℕ} {codec : Codec} {wire : List UInt8} {tx : TxPay}
  {size : ℕ}

lemma parseTx_eq_ok : (parseTx blake2s wire).result = .ok tx ↔ (txFromWire blake2s wire {}).1 = .ok tx := by
  unfold parseTx
  cases (txFromWire blake2s wire {}).1 with
  | error e => exact ⟨fun h => (by cases h), fun h => (by cases h)⟩
  | ok tx' => exact Iff.rfl

lemma clean_parseTx : (parseTx blake2s wire).Clean (Access.Safe size) Returns ↔
    ∀ r ∈ (txFromWire blake2s wire {}).2.requests, r.Safe wire.length := by
  have hreturn : ∀ e, (parseTx blake2s wire).result = .error e → Returns e := by
    intro e h
    unfold parseTx at h
    cases hparse : (txFromWire blake2s wire {}).1 with
    | error e' =>
      simp only [hparse] at h
      cases h
      trivial
    | ok tx =>
      simp only [hparse] at h
      cases h
  exact ⟨fun h r hr => h.1 _ (List.mem_map_of_mem hr), fun h => ⟨List.forall_mem_map.2 h, hreturn⟩⟩

lemma clean_parseXtx : (parseXtx env db tx).Clean (Access.Safe size) Returns ↔ ∀ type, tx.tagType = .xcx type →
    ∀ r ∈ (xtxFromWire env.codec type (tx.appendData.take tx.appendDataLength) {}).2.requests,
      r.Safe (tx.appendData.take tx.appendDataLength).length := by
  have hreturn : ∀ e, (parseXtx env db tx).result = .error e → Returns e := fun e h => by cases h
  unfold Clean
  rw [and_iff_left hreturn, parseXtx]
  cases tx.tagType with
  | xcx type =>
    simp only [ObjType.xcx.injEq, forall_eq', List.forall_mem_map]
    exact Iff.rfl
  | _ => simp

/-- A transaction and its exchange data are parsed inside the buffers exactly when the transaction fits. -/
lemma clean_parse (size : ℕ) (env : Env) (db : PersistentDb) (hlen : wire.length < 2^32) :
    ((parseTx env.blake2s wire).Clean (Access.Safe size) Returns ∧
        ∀ tx, (parseTx env.blake2s wire).result = .ok tx → (parseXtx env db tx).Clean (Access.Safe size) Returns) ↔
      MessageFits env.codec wire := by
  simp only [clean_parseTx, clean_parseXtx, parseTx_eq_ok]
  constructor
  · exact fun h => messageFits_of_safe env.blake2s env.codec hlen h.1 h.2
  · intro hfits
    obtain ⟨hrun, hxtx⟩ := parseBounded_of_fits env.blake2s env.codec hlen hfits
    exact ⟨hrun.1, fun tx htx type htype => ((hxtx tx htx).2 type htype).1⟩

/-- The body of a transaction that is accepted lies in it. -/
lemma bodyRequest_safe (hlen : wire.length < 2^32) (hbody : bodyStart wire ≤ wire.length) :
    (bodyRequest wire).Safe wire.length := by
  refine ⟨le_rfl, fun _ => ?_⟩
  simp only [bodyRequest, bodySizeOf, bodyStart, powSize] at hbody ⊢
  split_ifs at hbody ⊢ <;> omega

end Parse

section Assertions
variable {size : ℕ} {tx : TxPay} {xtx : Option Xtx} {wire : List UInt8} {persistent : Bool} {c : Prop} [Decidable c]

lemma clean_reject_rc {code : ℤ} {α : Type} {f : Unit → Scan α} :
    (lift (reject c (.rc code)) >>= f).Clean (Access.Safe size) Returns ↔
          (¬ c → (f ()).Clean (Access.Safe size) Returns) := by
  rw [clean_lift_bind]
  have hreturn : ∀ e, reject c (Failure.rc code) = .error e → Returns e := by
    intro e h
    unfold reject at h
    split_ifs at h
    cases h
    trivial
  rw [and_iff_right hreturn]
  exact ⟨fun h hc => h () (reject_eq_ok.2 hc), fun h _ hc => h (reject_eq_ok.1 hc)⟩

section Exceptions
variable {E : Failure → Prop} (hE : ∀ what, ¬ E (.exception what))
include hE

lemma reject_exception {what : String} : (∀ e, reject c (Failure.exception what) = .error e → E e) ↔ ¬ c := by
  unfold reject
  split_ifs with hc
  · exact ⟨fun h => absurd (h _ rfl) (hE what), fun h => absurd hc h⟩
  · exact ⟨fun _ => hc, fun _ e h => by cases h⟩

lemma clean_reject_exception {what : String} {α : Type} {f : Unit → Scan α} :
    (lift (reject c (.exception what)) >>= f).Clean (Access.Safe size) E ↔ ¬ c ∧ (f ()).Clean (Access.Safe size) E := by
  rw [clean_lift_bind, reject_exception hE]
  exact and_congr_right fun hc => ⟨fun h => h () (reject_eq_ok.2 hc), fun h _ _ => h⟩

/-- The assertions of `CheckCreatePseudoSerialnum` hold when a sell request has room for one more input and names a
foreign address, and a payment claim names a foreign blockchain. -/
lemma clean_checkPseudoSerialnum (hinputs : WireInputs tx) (hvoid : objType (tagAt wire) ≠ .void)
    (hbody : (bodyRequest wire).Safe wire.length)
    (hxpay : ∀ x, xtx = some (.xpay x) → tx.tagType = .xcx .payment ∧ tx.inputs = []) :
    (checkPseudoSerialnum tx xtx wire persistent).Clean (Access.Safe size) E ↔
      (xchainSell tx persistent = true →
        ∃ x, xtx = some (.xreq x) ∧ tx.inputs.length < maxIn ∧ x.foreignAddress ≠ "") ∧
      ∀ x, xtx = some (.xpay x) → x.foreignBlockchain ≠ 0 := by
  have hread : (note (.copy wire.length (bodyRequest wire)) : Scan Unit).Clean (Access.Safe size) E :=
    (clean_note _).2 hbody
  unfold checkPseudoSerialnum
  split_ifs with hearly hmint
  · -- a transaction with a serial number of its own needs no other
    rw [Bool.and_eq_true, Bool.not_eq_true', Bool.or_eq_false_iff] at hearly
    refine iff_of_true clean_pure ⟨fun hsell => ?_, fun x hx => ?_⟩
    · rw [hearly.1.1] at hsell
      cases hsell
    · rw [(hxpay x hx).2] at hearly
      cases hearly.2
  · have hsell : xchainSell tx persistent = false := by
      unfold xchainSell
      rw [hmint]
      simp [ObjType.isXreq]
    have hlen : tx.inputs.length - 1 < maxIn := by rw [hinputs.1 hmint]; decide
    rw [hsell, clean_reject_exception hE, clean_reject_exception hE]
    refine iff_of_true ⟨not_not.2 hlen, hvoid, ?_⟩ ⟨fun h => (by cases h), fun x hx => ?_⟩
    · cases xtx with
      | none => exact hread
      | some xtx =>
        cases xtx with
        | xreq x => exact hread
        | xpay x =>
          rw [(hxpay x rfl).1] at hmint
          cases hmint
    · rw [(hxpay x hx).1] at hmint
      cases hmint
  · rw [clean_reject_exception hE, clean_reject_exception hE, and_iff_right hvoid, not_not]
    cases hsell : xchainSell tx persistent with
    | true =>
      cases xtx with
      | none =>
        refine iff_of_false (fun h => hE _ ((clean_lift _).1 h.2 _ rfl)) fun h => ?_
        obtain ⟨x, hx, -⟩ := h.1 rfl
        cases hx
      | some xtx =>
        cases xtx with
        | xreq x =>
          simp only [clean_lift, reject_exception hE]
          constructor
          · exact fun h => ⟨fun _ => ⟨x, rfl, h.1, h.2⟩, fun y hy => by cases hy⟩
          · rintro ⟨h, -⟩
            obtain ⟨y, hy, hlen, haddress⟩ := h trivial
            cases hy
            exact ⟨hlen, haddress⟩
        | xpay x =>
          unfold xchainSell at hsell
          rw [(hxpay x rfl).1] at hsell
          simp [ObjType.isXreq, XtxType.isXreq, XtxType.code] at hsell
    | false =>
      have hnil : tx.inputs = [] := by
        rw [hsell, Bool.false_or, decide_eq_false hmint, Bool.not_false, Bool.true_and] at hearly
        refine List.eq_nil_iff_forall_not_mem.2 fun txin htxin => hearly (List.any_eq_true.2 ⟨txin, htxin, ?_⟩)
        rw [hinputs.2 hmint txin htxin]
        rfl
      have hlen : tx.inputs.length < maxIn := by rw [hnil]; decide
      rw [and_iff_right hlen]
      cases xtx with
      | none => exact iff_of_true hread ⟨fun h => (by cases h), fun x hx => by cases hx⟩
      | some xtx =>
        cases xtx with
        | xreq x => exact iff_of_true hread ⟨fun h => (by cases h), fun y hy => by cases hy⟩
        | xpay x =>
          simp only [clean_reject_exception hE]
          constructor
          · exact fun h => ⟨fun h => (by cases h), fun y hy => (by cases hy; exact h.1)⟩
          · exact fun h => ⟨h.2 x rfl, hread⟩

end Exceptions

end Assertions

section Turn
variable (env : BlockEnv) (view : BlockView) (chain : BlockChain) (cache : List (List UInt8)) (b : BlockBytes)

/-- The transaction that a turn of the first loop comes to does no harm: its size word lies in the block and is right,
its parts fit their buffers, a request has data that parses, a sell request that is in time has room for one more
input and names a foreign address, and the match of a payment claim names a foreign blockchain. -/
structure TxFits (s : ScanState) : Prop where
  size : 8 ≤ b.txsize s.pos ∧ s.pos + b.txsize s.pos ≤ b.size
  message : MessageFits env.codec (b.wire s.pos)
  request : ∀ tx, (txFromWire env.blake2s (b.wire s.pos) {}).1 = .ok tx → tx.tagType.isXreq = true →
    extractXtx env.toEnv tx ≠ none
  sell : ∀ tx x, (txFromWire env.blake2s (b.wire s.pos) {}).1 = .ok tx → extractXtx env.toEnv tx = some (.xreq x) →
    recheckXreq view chain x = .ok () → xchainSell tx false = true → tx.inputs.length < maxIn ∧ x.foreignAddress ≠ ""
  payment : ∀ tx x, (txFromWire env.blake2s (b.wire s.pos) {}).1 = .ok tx →
    extractXtxWithMatch env.toEnv view.db tx = some (.xpay x) → recheckXpay chain x = .ok () → x.foreignBlockchain ≠ 0

variable {env view chain cache b} {s : ScanState} {size : ℕ} {tx : TxPay} {xtx : Option Xtx}

lemma extractXtxWithMatch_xreq {env : Env} {db : PersistentDb} {x : Xreq} :
    extractXtxWithMatch env db tx = some (.xreq x) ↔ extractXtx env tx = some (.xreq x) := by
  unfold extractXtxWithMatch
  split
  · next xpay hxpay =>
    rw [hxpay]
    constructor <;> intro h
    · obtain ⟨m, -, h⟩ := Option.map_eq_some_iff.1 h
      cases h
    · cases h
  · exact Iff.rfl

lemma extractXtxWithMatch_eq_none (env : Env) (db : PersistentDb) (htype : tx.tagType.isXreq = true) :
    extractXtxWithMatch env db tx = none ↔ extractXtx env tx = none := by
  unfold extractXtxWithMatch
  split
  · next xpay hxpay =>
    rw [extractXtx_xpay hxpay] at htype
    cases htype
  · exact Iff.rfl

lemma recheckXreq_returns {x : Xreq} {e : Failure} (h : recheckXreq view chain x = .error e) : Returns e := by
  unfold recheckXreq reject at h
  split_ifs at h <;> cases h <;> trivial

lemma recheckXpay_returns {x : Xpay} {e : Failure} (h : recheckXpay chain x = .error e) : Returns e := by
  unfold recheckXpay reject at h
  split_ifs at h <;> cases h <;> trivial

/-- The checks of a turn fail with an exception only for a request without data. -/
lemma recheckXtx_returns : (∀ e, recheckXtx view chain tx xtx = .error e → Returns e) ↔
    (xtx = none → tx.tagType.isXreq = false) := by
  cases xtx with
  | none =>
    unfold recheckXtx
    simp only [reject_exception not_returns_exception, true_implies, Bool.not_eq_true]
  | some xtx =>
    refine iff_of_true (fun e h => ?_) fun h => by cases h
    cases xtx with
    | xreq x => exact recheckXreq_returns h
    | xpay x => exact recheckXpay_returns h

lemma insertSerialnums_returns {temp : List TempSerialnum} {inputs : List TxIn} {e : Failure}
    (h : insertSerialnums view chain temp inputs = .error e) : Returns e := by
  induction inputs generalizing temp with
  | nil => cases h
  | cons txin inputs ih =>
    rw [insertSerialnums] at h
    rcases bind_eq_error.1 h with h | ⟨_, -, h⟩
    · unfold reject at h
      split_ifs at h
      cases h
      trivial
    · exact ih h

lemma clean_extractTx {pos : ℕ} {wire : List UInt8} :
    (extractTx pos wire).Clean (Access.Safe size) Returns ↔ (8 ≤ wire.length → pos + wire.length ≤ size) := by
  have hlast : (lift (reject (extractTxFails (headerTx wire) wire = true) (.rc (-1))) : Scan Unit).Clean
      (Access.Safe size) Returns := by
    rw [clean_lift]
    intro e h
    unfold reject at h
    split_ifs at h
    cases h
    trivial
  rw [extractTx, clean_reject_rc, not_lt, clean_note_bind]
  exact ⟨fun h hlen => (h hlen).1.2, fun h hlen => ⟨⟨hlen, h hlen⟩, hlast⟩⟩

lemma extractTx_eq_ok {pos : ℕ} {wire : List UInt8} : (extractTx pos wire).result = .ok () ↔
    8 ≤ wire.length ∧ extractTxFails (headerTx wire) wire = false := by
  rw [extractTx, lift_bind_result_eq_ok]
  constructor
  · rintro ⟨_, hlen, h⟩
    rw [note_bind_result, lift_result, reject_eq_ok] at h
    exact ⟨not_lt.1 (reject_eq_ok.1 hlen), by simpa using h⟩
  · rintro ⟨hlen, h⟩
    refine ⟨(), reject_eq_ok.2 (not_lt.2 hlen), ?_⟩
    rw [note_bind_result, lift_result, reject_eq_ok, h]
    exact Bool.false_ne_true

/-- What the parsers guarantee of a transaction that they accept. -/
lemma parsed_sound {pos : ℕ} (db : PersistentDb) (hsize : 8 ≤ b.txsize pos) (hfits : MessageFits env.codec (b.wire pos))
    (hparse : (txFromWire env.blake2s (b.wire pos) {}).1 = .ok tx) :
    WireInputs tx ∧ objType (tagAt (b.wire pos)) ≠ .void ∧ (bodyRequest (b.wire pos)).Safe (b.wire pos).length ∧
      ∀ x, extractXtxWithMatch env.toEnv db tx = some (.xpay x) → tx.tagType = .xcx .payment ∧ tx.inputs = [] := by
  have hlen : (b.wire pos).length < 2^32 := by
    rw [b.wire_length]
    exact b.txsize_lt pos
  have hrun : txFromWire env.blake2s (b.wire pos) {} = (.ok tx, (txFromWire env.blake2s (b.wire pos) {}).2) := by
    rw [← hparse]
  obtain ⟨htype, hvoid, -⟩ := txFromWire_ok env.blake2s hlen hparse
  have hinputs : WireInputs tx := txFromWire_inputs env.blake2s (b.wire pos) {} tx _ hrun
  have hbare : tx.tagType.hasBareMsg = true → tx.inputs = [] :=
    txFromWire_bare env.blake2s (b.wire pos) {} tx _ hrun
  have hbody : bodyStart (b.wire pos) ≤ (b.wire pos).length := by
    rw [b.wire_length, ← b.wiresizeAt_wire (by omega)]
    exact bodyStart_le_wiresize env.blake2s env.codec hlen hparse hfits
  refine ⟨hinputs, hvoid, bodyRequest_safe hlen hbody, fun x hx => ?_⟩
  obtain ⟨xpay, m, hextract, -, -⟩ := extractXtxWithMatch_xpay hx
  have htag := extractXtx_xpay hextract
  exact ⟨htag, hbare (by rw [htag]; rfl)⟩

/-- A turn of the first loop stays inside its buffers and meets no assertion exactly when its transaction fits. -/
lemma clean_scanTurn :
    (scanTurn env view chain b s).Clean (Access.Safe b.size) Returns ↔ TxFits env view chain b s := by
  have hlen : (b.wire s.pos).length < 2^32 := by
    rw [b.wire_length]
    exact b.txsize_lt s.pos
  rw [scanTurn, clean_note_bind, clean_note_bind]
  constructor
  · rintro ⟨-, hsize, h⟩
    rw [b.wire_length] at hsize
    have hxtx := fun tx htx => clean_bind.1 ((clean_bind.1 h).2 tx htx)
    have hmessage := (clean_parse b.size env.toEnv view.db hlen).1 ⟨(clean_bind.1 h).1, fun tx htx => (hxtx tx htx).1⟩
    -- what a parsed transaction meets after its exchange data
    have hrest : ∀ tx, (txFromWire env.blake2s (b.wire s.pos) {}).1 = .ok tx →
        ¬ (extractXtxWithMatch env.toEnv view.db tx = none ∧ extractXtxFailed tx true = true) →
        (∀ e, recheckXtx view chain tx (extractXtxWithMatch env.toEnv view.db tx) = .error e → Returns e) ∧
        (recheckXtx view chain tx (extractXtxWithMatch env.toEnv view.db tx) = .ok () →
          (checkPseudoSerialnum tx (extractXtxWithMatch env.toEnv view.db tx) (b.wire s.pos) false).Clean
            (Access.Safe b.size) Returns) := by
      intro tx htx hfailed
      have h := clean_reject_rc.1 ((hxtx tx (parseTx_eq_ok.2 htx)).2 _ rfl) hfailed
      rw [clean_lift_bind] at h
      exact ⟨h.1, fun hok => (clean_bind.1 (h.2 () hok)).1⟩
    refine ⟨hsize, hmessage, fun tx htx htype hnone => ?_, fun tx x htx hx hok hsell => ?_, fun tx x htx hx hok => ?_⟩
    · have hnone' := (extractXtxWithMatch_eq_none env.toEnv view.db htype).2 hnone
      have hxpay : tx.tagType.isXpay = false := by
        cases htag : tx.tagType with
        | xcx type =>
          rw [htag] at htype
          cases type <;> first | rfl | cases htype
        | _ => rfl
      have hfailed : extractXtxFailed tx true = false := by simp [extractXtxFailed, hxpay]
      have h := recheckXtx_returns.1 (hrest tx htx (by simp [hfailed])).1 hnone'
      rw [htype] at h
      cases h
    · have hx' : extractXtxWithMatch env.toEnv view.db tx = some (.xreq x) := extractXtxWithMatch_xreq.2 hx
      obtain ⟨hinputs, hvoid, hbody, hxpay⟩ := parsed_sound view.db hsize.1 hmessage htx
      have h := (hrest tx htx (by simp [hx'])).2 (by rw [hx']; exact hok)
      obtain ⟨y, hy, hnin, haddress⟩ :=
          ((clean_checkPseudoSerialnum not_returns_exception hinputs hvoid hbody hxpay).1 h).1 hsell
      rw [hx'] at hy
      cases hy
      exact ⟨hnin, haddress⟩
    · obtain ⟨hinputs, hvoid, hbody, hxpay⟩ := parsed_sound view.db hsize.1 hmessage htx
      have h := (hrest tx htx (by simp [hx])).2 (by rw [hx]; exact hok)
      exact ((clean_checkPseudoSerialnum not_returns_exception hinputs hvoid hbody hxpay).1 h).2 x hx
  · intro h
    obtain ⟨hparse, hparseXtx⟩ := (clean_parse b.size env.toEnv view.db hlen).2 h.message
    refine ⟨(by have := h.size; simp only [Access.Safe]; omega), by rw [b.wire_length]; exact h.size, ?_⟩
    refine clean_bind.2 ⟨hparse, fun tx htx => clean_bind.2 ⟨hparseXtx tx htx, fun xtx hxtx => ?_⟩⟩
    obtain rfl : extractXtxWithMatch env.toEnv view.db tx = xtx := Except.ok.inj hxtx
    rw [parseTx_eq_ok] at htx
    refine clean_reject_rc.2 fun hfailed => clean_lift_bind.2 ⟨?_, fun _ hok => clean_bind.2 ⟨?_, fun _ _ => ?_⟩⟩
    · refine recheckXtx_returns.2 fun hnone => ?_
      by_contra htype
      have htype : tx.tagType.isXreq = true := by simpa using htype
      exact h.request tx htx htype ((extractXtxWithMatch_eq_none env.toEnv view.db htype).1 hnone)
    · obtain ⟨hinputs, hvoid, hbody, hxpay⟩ := parsed_sound view.db h.size.1 h.message htx
      refine (clean_checkPseudoSerialnum not_returns_exception hinputs hvoid hbody hxpay).2 ⟨fun hsell => ?_, fun x hx => ?_⟩
      · have htype : tx.tagType.isXreq = true := by
          unfold xchainSell at hsell
          simp only [Bool.and_eq_true] at hsell
          exact hsell.1.2
        cases hxtx : extractXtxWithMatch env.toEnv view.db tx with
        | none => exact absurd ((extractXtxWithMatch_eq_none env.toEnv view.db htype).1 hxtx) (h.request tx htx htype)
        | some xtx =>
          cases xtx with
          | xreq x =>
            rw [hxtx] at hok
            exact ⟨x, rfl, h.sell tx x htx (extractXtxWithMatch_xreq.1 hxtx) hok hsell⟩
          | xpay x =>
            rw [(hxpay x hxtx).1] at htype
            cases htype
      · rw [hx] at hok
        exact h.payment tx x htx hx hok
    · refine clean_lift_bind.2 ⟨fun e he => insertSerialnums_returns he, fun temp _ => clean_bind.2 ⟨?_, fun _ _ => ?_⟩⟩
      · refine clean_extractTx.2 fun _ => ?_
        rw [b.wire_length]
        exact h.size.2
      · exact clean_pure

/-- What a turn of the first loop leaves. -/
lemma scanTurn_eq_ok {s' : ScanState} (h : (scanTurn env view chain b s).result = .ok s') :
    8 ≤ b.txsize s.pos ∧ s'.pos = s.pos + b.txsize s.pos ∧ s'.txs = s.txs ++ [b.wire s.pos] ∧
      scanTx env view chain s.temp (b.wire s.pos) = .ok s'.temp := by
  rw [scanTurn, note_bind_result, note_bind_result] at h
  obtain ⟨tx, htx, h⟩ := bind_result_eq_ok.1 h
  obtain ⟨xtx, hxtx, h⟩ := bind_result_eq_ok.1 h
  obtain rfl : extractXtxWithMatch env.toEnv view.db tx = xtx := Except.ok.inj hxtx
  obtain ⟨_, hfailed, h⟩ := lift_bind_result_eq_ok.1 h
  obtain ⟨_, hrecheck, h⟩ := lift_bind_result_eq_ok.1 h
  obtain ⟨_, -, h⟩ := bind_result_eq_ok.1 h
  obtain ⟨temp, hinsert, h⟩ := lift_bind_result_eq_ok.1 h
  obtain ⟨_, hextract, h⟩ := bind_result_eq_ok.1 h
  obtain ⟨hlen, hfails⟩ := extractTx_eq_ok.1 hextract
  obtain rfl := Except.ok.inj h
  rw [b.wire_length] at hlen
  refine ⟨hlen, by rw [b.wire_length], rfl, ?_⟩
  rw [parseTx_eq_ok] at htx
  have htype : tx.tagType = (headerTx (b.wire s.pos)).tagType :=
    (txFromWire_ok env.blake2s (by rw [b.wire_length]; exact b.txsize_lt _) htx).1
  have hfails' : ¬ extractTxFails tx (b.wire s.pos) = true := by
    rw [extractTxFails, htype]
    simpa [extractTxFails] using hfails
  rw [scanTx, htx]
  refine reject_bind_eq_ok.2 ⟨reject_eq_ok.1 hfailed, ?_⟩
  refine bind_eq_ok.2 ⟨(), hrecheck, bind_eq_ok.2 ⟨temp, hinsert, reject_bind_eq_ok.2 ⟨hfails', rfl⟩⟩⟩

/-- What a turn of the second loop leaves. -/
lemma validateTurn_eq_ok {pos pos' : ℕ} (h : (validateTurn env view chain cache b pos).result = .ok pos') :
    8 ≤ b.txsize pos ∧ pos' = pos + b.txsize pos ∧ validateTx env view chain cache (b.wire pos) = .ok () := by
  rw [validateTurn, note_bind_result] at h
  obtain ⟨_, hextract, h⟩ := bind_result_eq_ok.1 h
  obtain ⟨_, hvalid, h⟩ := lift_bind_result_eq_ok.1 h
  have hlen := (extractTx_eq_ok.1 hextract).1
  rw [b.wire_length] at hlen
  obtain rfl := Except.ok.inj h
  exact ⟨hlen, by rw [b.wire_length], hvalid⟩

lemma clean_validateTurn {pos : ℕ} (hword : pos + 4 ≤ b.size) (hsize : pos + b.txsize pos ≤ b.size) :
    (validateTurn env view chain cache b pos).Clean (Access.Safe b.size) Returns := by
  rw [validateTurn, clean_note_bind, clean_bind, clean_extractTx, b.wire_length]
  refine ⟨hword, fun _ => hsize, fun _ _ => clean_lift_bind.2 ⟨fun e he => ?_, fun _ _ => clean_pure⟩⟩
  unfold validateTx reject at he
  split_ifs at he
  cases he
  trivial

end Turn

section Index
variable {env : BlockEnv} {view : BlockView} {chain : BlockChain} {b : BlockBytes} {s s' : ScanState}
  {db : PersistentDb} {tx : TxPay} {xtx : Option Xtx} {wire : List UInt8}

/-- The matches of a database are still in another one, with their foreign blockchains. -/
def KeepsMatches (db db' : PersistentDb) : Prop := ∀ xmatchnum m, db.xmatchSelect xmatchnum = some m →
  ∃ m', db'.xmatchSelect xmatchnum = some m' ∧ m'.xsell.quoteAsset = m.xsell.quoteAsset

lemma objType_xcx {tag : ℕ} {type : XtxType} (h : objType tag = .xcx type) : type.isXreq = true ∨ type = .payment := by
  unfold objType at h
  dsimp only at h
  split_ifs at h <;> cases h <;> first | exact .inr rfl | exact .inl rfl

/-- Every transaction that is indexed has a serial number. -/
lemma pseudoSerialnum_have (env : Env) (tx : TxPay) (xtx : Option Xtx) (wire : List UInt8) (persistent : Bool) :
    ∃ txin ∈ (pseudoSerialnum env tx xtx wire persistent).inputs, txin.noSerialnum = false := by
  unfold pseudoSerialnum
  extract_lets xchainSell
  by_cases hearly : (!(xchainSell || decide (tx.tagType = .mint)) && tx.inputs.any (!·.noSerialnum)) = true
  · rw [if_pos hearly]
    obtain ⟨txin, hmem, htxin⟩ := List.any_eq_true.1 (Bool.and_eq_true_iff.1 hearly).2
    exact ⟨txin, hmem, by simpa using htxin⟩
  · rw [if_neg hearly]
    exact ⟨_, List.mem_append_right _ (List.mem_singleton_self _), rfl⟩

/-- A payment claim is found again with its foreign blockchain while its match is kept. -/
lemma extractXtxWithMatch_keeps (env : Env) {db' : PersistentDb} (hkeeps : KeepsMatches db db') {x : Xpay}
    (h : extractXtxWithMatch env db tx = some (.xpay x)) :
    ∃ x', extractXtxWithMatch env db' tx = some (.xpay x') ∧ x'.foreignBlockchain = x.foreignBlockchain := by
  obtain ⟨xpay, m, hxpay, hm, rfl⟩ := extractXtxWithMatch_xpay h
  obtain ⟨m', hm', hasset⟩ := hkeeps _ _ hm
  refine ⟨setMatchFieldsInXpay env m' xpay, ?_, hasset⟩
  rw [extractXtxWithMatch, hxpay]
  simp only [hm', Option.map_some]

/-- What the scan of a block has checked of a transaction holds again when it is indexed. -/
lemma indexed_xtx (hfits : TxFits env view chain b s) (htx : (txFromWire env.blake2s (b.wire s.pos) {}).1 = .ok tx)
    (hfailed : ¬ (extractXtxWithMatch env.toEnv view.db tx = none ∧ extractXtxFailed tx true = true))
    (hrecheck : recheckXtx view chain tx (extractXtxWithMatch env.toEnv view.db tx) = .ok ())
    (hkeeps : KeepsMatches view.db db) :
    ¬ (extractXtxWithMatch env.toEnv db tx = none ∧ extractXtxFailed tx false = true) ∧
      ∀ x, extractXtxWithMatch env.toEnv db tx = some (.xpay x) → x.foreignBlockchain ≠ 0 := by
  have hlen : (b.wire s.pos).length < 2^32 := by
    rw [b.wire_length]
    exact b.txsize_lt s.pos
  have hpayment (htag : tx.tagType = .xcx .payment) : extractXtxWithMatch env.toEnv view.db tx ≠ none := by
    intro hnone
    exact hfailed ⟨hnone, by rw [extractXtxFailed, htag]; rfl⟩
  constructor
  · rintro ⟨hnone, hxtx⟩
    obtain ⟨type, htag⟩ : ∃ type, tx.tagType = .xcx type := by
      cases htag : tx.tagType with
      | xcx type => exact ⟨type, rfl⟩
      | _ => rw [extractXtxFailed, htag] at hxtx; cases hxtx
    have htype := (txFromWire_ok env.blake2s hlen htx).1
    rcases objType_xcx (htype.symm.trans htag) with hxreq | rfl
    · have hisXreq : tx.tagType.isXreq = true := by rw [htag]; exact hxreq
      exact hfits.request tx htx hisXreq ((extractXtxWithMatch_eq_none env.toEnv db hisXreq).1 hnone)
    · cases hxtx : extractXtxWithMatch env.toEnv view.db tx with
      | none => exact hpayment htag hxtx
      | some xtx =>
        cases xtx with
        | xreq x => rw [extractXtxWithMatch_xreq.2 (extractXtxWithMatch_xreq.1 hxtx)] at hnone; cases hnone
        | xpay x =>
          obtain ⟨x', hx', -⟩ := extractXtxWithMatch_keeps env.toEnv hkeeps hxtx
          rw [hx'] at hnone
          cases hnone
  · intro x' hx'
    obtain ⟨xpay, m', hxpay, -, -⟩ := extractXtxWithMatch_xpay hx'
    cases hxtx : extractXtxWithMatch env.toEnv view.db tx with
    | none => exact absurd hxtx (hpayment (extractXtx_xpay hxpay))
    | some xtx =>
      cases xtx with
      | xreq x => rw [extractXtxWithMatch_xreq.1 hxtx] at hxpay; cases hxpay
      | xpay x =>
        obtain ⟨y, hy, hasset⟩ := extractXtxWithMatch_keeps env.toEnv hkeeps hxtx
        cases hy.symm.trans hx'
        rw [hxtx] at hrecheck
        rw [hasset]
        exact hfits.payment tx x htx hxtx hrecheck

/-- A transaction that the scan of its block passed is indexed in the same place. -/
lemma indexTurn_ok (hfits : TxFits env view chain b s) (hok : (scanTurn env view chain b s).result = .ok s')
    (hkeeps : KeepsMatches view.db db) (isWitness : Bool) :
    (indexTurn env b db isWitness (s.pos, s.txs)).result = .ok (s'.pos, s'.txs) ∧
      (indexTurn env b db isWitness (s.pos, s.txs)).Clean (Access.Safe b.size) Returns := by
  obtain ⟨-, hpos, htxs, hscan⟩ := scanTurn_eq_ok hok
  have hlen : (b.wire s.pos).length < 2^32 := by
    rw [b.wire_length]
    exact b.txsize_lt s.pos
  unfold scanTx at hscan
  cases htx : (txFromWire env.blake2s (b.wire s.pos) {}).1 with
  | error e =>
    rw [htx] at hscan
    cases hscan
  | ok tx =>
    rw [htx] at hscan
    obtain ⟨hfailed, hscan⟩ := reject_bind_eq_ok.1 hscan
    obtain ⟨_, hrecheck, -⟩ := bind_eq_ok.1 hscan
    obtain ⟨hxtx, hblockchain⟩ := indexed_xtx hfits htx hfailed hrecheck hkeeps
    obtain ⟨hinputs, hvoid, hbody, hxpay⟩ := parsed_sound db hfits.size.1 hfits.message htx
    have hserialnum : ¬ (pseudoSerialnum env.toEnv tx (extractXtxWithMatch env.toEnv db tx) (b.wire s.pos) true).inputs.all
        (·.noSerialnum) = true := by
      intro hall
      obtain ⟨txin, hmem, htxin⟩ := pseudoSerialnum_have env.toEnv tx (extractXtxWithMatch env.toEnv db tx)
        (b.wire s.pos) true
      rw [List.all_eq_true.1 hall txin hmem] at htxin
      cases htxin
    have hpseudo {E : Failure → Prop} (hE : ∀ what, ¬ E (.exception what)) :
        (checkPseudoSerialnum tx (extractXtxWithMatch env.toEnv db tx) (b.wire s.pos) true).Clean
          (Access.Safe b.size) E :=
      (clean_checkPseudoSerialnum hE hinputs hvoid hbody hxpay).2 ⟨fun hsell => (by cases hsell), hblockchain⟩
    have hpseudo_ok : (checkPseudoSerialnum tx (extractXtxWithMatch env.toEnv db tx) (b.wire s.pos) true).result =
        .ok () := by
      cases hresult : (checkPseudoSerialnum tx (extractXtxWithMatch env.toEnv db tx) (b.wire s.pos) true).result with
      | ok => rfl
      | error e => exact ((hpseudo (E := fun _ => False) fun _ => id).2 e hresult).elim
    have hparse : (parseTx env.blake2s (b.wire s.pos)).result = .ok tx := parseTx_eq_ok.2 htx
    obtain ⟨hclean, hcleanXtx⟩ := (clean_parse b.size env.toEnv db hlen).2 hfits.message
    have hwitness : (witnessObjId isWitness (b.wire s.pos)).result = .ok () := by
      cases isWitness <;> rfl
    have hcleanWitness : (witnessObjId isWitness (b.wire s.pos)).Clean (Access.Safe b.size) Returns := by
      cases isWitness with
      | true => exact (clean_note _).2 hbody
      | false => exact clean_pure
    constructor
    · rw [indexTurn, note_bind_result, note_bind_result]
      refine bind_result_eq_ok.2 ⟨(), hwitness, bind_result_eq_ok.2 ⟨tx, hparse, bind_result_eq_ok.2 ⟨_, rfl, ?_⟩⟩⟩
      refine lift_bind_result_eq_ok.2 ⟨(), reject_eq_ok.2 hxtx, bind_result_eq_ok.2 ⟨(), hpseudo_ok, ?_⟩⟩
      refine lift_bind_result_eq_ok.2 ⟨(), reject_eq_ok.2 hserialnum, ?_⟩
      rw [pure_result, b.wire_length, hpos, htxs]
    · have hsize := hfits.size
      rw [indexTurn, clean_note_bind, clean_note_bind]
      refine ⟨(by simp only [Access.Safe]; omega), (by rw [b.wire_length]; exact hsize), ?_⟩
      refine clean_bind.2 ⟨hcleanWitness, fun _ _ => clean_bind.2 ⟨hclean, fun tx' htx' => ?_⟩⟩
      obtain rfl := Except.ok.inj (hparse.symm.trans htx')
      refine clean_bind.2 ⟨hcleanXtx tx hparse, fun xtx hxtx' => ?_⟩
      obtain rfl : extractXtxWithMatch env.toEnv db tx = xtx := Except.ok.inj hxtx'
      refine clean_reject_rc.2 fun _ => clean_bind.2 ⟨hpseudo not_returns_exception, fun _ _ => ?_⟩
      exact (clean_reject_exception not_returns_exception).2 ⟨hserialnum, clean_pure⟩

end Index

section Block
variable (env : BlockEnv) (view : BlockView) (chain : BlockChain) (cache : List (List UInt8)) (b : BlockBytes)

/-- The bytes of a block are some transactions, one after the other: each is as long as its size word says, and is
accepted by `tx_from_wire`. -/
structure MadeOf (txs : List (List UInt8)) : Prop where
  bytes : txs.flatten = b.slice 0 b.size
  sized : ∀ wire ∈ txs, 8 ≤ wire.length ∧ wiresizeAt wire = wire.length
  parsed : ∀ wire ∈ txs, (txFromWire env.blake2s wire {}).1.isOk = true

/-- Scanning a block is safe: the loops of `BlockValidate` end, whatever the bound on their turns, they stay inside
the block and their buffers, and meet no assertion; and if the block is accepted, it is made of transactions that
`IndexTxs` then finds in the same places, without an error. -/
def SafeScan : Prop :=
  ∃ x, (∀ n, b.size < n → validateTxs env view chain cache b n = some x) ∧ x.Clean (Access.Safe b.size) Returns ∧
    (x.result = .ok () → ∃ txs, MadeOf env b txs ∧ ∀ db isWitness, KeepsMatches view.db db →
      ∃ y, (∀ n, b.size < n → loop (fun s => s.1 < b.size) (indexTurn env b db isWitness) n (0, []) = some y) ∧
        y.Clean (Access.Safe b.size) Returns ∧ y.result = .ok (b.size, txs))

/-- The states that the first loop comes to. -/
abbrev ScanReaches (s : ScanState) : Prop :=
  Reaches (fun s => s.pos < b.size) (scanTurn env view chain b) (scanStart view) s

variable {env view chain cache b} {s s' : ScanState} {db : PersistentDb}

/-- Before its position the first loop has found transactions that make up the bytes. -/
lemma ScanReaches.madeOf (h : ScanReaches env view chain b s) :
    s.txs.flatten = b.slice 0 s.pos ∧ (∀ wire ∈ s.txs, 8 ≤ wire.length ∧ wiresizeAt wire = wire.length) ∧
      ∀ wire ∈ s.txs, (txFromWire env.blake2s wire {}).1.isOk = true := by
  refine Reaches.induct (I := fun s : ScanState => s.txs.flatten = b.slice 0 s.pos ∧
    (∀ wire ∈ s.txs, 8 ≤ wire.length ∧ wiresizeAt wire = wire.length) ∧
    ∀ wire ∈ s.txs, (txFromWire env.blake2s wire {}).1.isOk = true) (fun s s' hs _ hok => ?_) h
    ⟨rfl, fun _ h => (by cases h), fun _ h => by cases h⟩
  obtain ⟨hsize, hpos, htxs, hscan⟩ := scanTurn_eq_ok hok
  obtain ⟨hbytes, hsized, hparsed⟩ := hs
  rw [htxs, hpos]
  refine ⟨?_, List.forall_mem_append.2 ⟨hsized, ?_⟩, List.forall_mem_append.2 ⟨hparsed, ?_⟩⟩
  · rw [List.flatten_append, hbytes, List.flatten_singleton, BlockBytes.wire]
    exact (congrArg _ (by rw [Nat.zero_add])).trans (b.slice_append 0 s.pos (b.txsize s.pos))
  · intro wire hwire
    obtain rfl := List.mem_singleton.1 hwire
    exact ⟨by rw [b.wire_length]; exact hsize, by rw [b.wiresizeAt_wire (by omega), b.wire_length]⟩
  · intro wire hwire
    obtain rfl := List.mem_singleton.1 hwire
    unfold scanTx at hscan
    cases hparse : (txFromWire env.blake2s (b.wire s.pos) {}).1 with
    | ok tx => rfl
    | error e =>
      rw [hparse] at hscan
      cases hscan

/-- What the first loop has done is the scan of the transactions before its position. -/
lemma ScanReaches.scanBlock_ok (h : ScanReaches env view chain b s) :
    scanBlock env view chain (scanStart view).temp s.txs = .ok s.temp := by
  refine Reaches.induct (I := fun s : ScanState => scanBlock env view chain (scanStart view).temp s.txs = .ok s.temp)
    (fun s s' hs _ hok => ?_) h rfl
  obtain ⟨-, -, htxs, hscan⟩ := scanTurn_eq_ok hok
  rw [htxs, scanBlock_append]
  exact bind_eq_ok.2 ⟨s.temp, hs, hscan⟩

lemma scanLoop_total : ∃ x, ∀ n, b.size < n →
    loop (fun s => s.pos < b.size) (scanTurn env view chain b) n (scanStart view) = some x := by
  have hless : ∀ s s' : ScanState, decide (s.pos < b.size) = true → (scanTurn env view chain b s).result = .ok s' →
      b.size - s'.pos < b.size - s.pos := by
    intro s s' hgo hok
    obtain ⟨hsize, hpos, -⟩ := scanTurn_eq_ok hok
    have hgo := of_decide_eq_true hgo
    omega
  exact loop_total (fun s => b.size - s.pos) hless (scanStart view)

/-- Each loop of positions that grow ends, with any bound above the size of the block. -/
lemma validateLoop_total : ∃ x, ∀ n, b.size < n →
    loop (fun pos => pos < b.size) (validateTurn env view chain cache b) n 0 = some x := by
  have hless : ∀ pos pos' : ℕ, decide (pos < b.size) = true →
      (validateTurn env view chain cache b pos).result = .ok pos' → b.size - pos' < b.size - pos := by
    intro pos pos' hgo hok
    obtain ⟨hsize, rfl, -⟩ := validateTurn_eq_ok hok
    have hgo := of_decide_eq_true hgo
    omega
  exact loop_total (fun pos => b.size - pos) hless 0

lemma indexLoop_total (env : BlockEnv) (b : BlockBytes) (db : PersistentDb) (isWitness : Bool) : ∃ x, ∀ n, b.size < n →
    loop (fun s => s.1 < b.size) (indexTurn env b db isWitness) n (0, []) = some x := by
  have hless : ∀ s s' : ℕ × List (List UInt8), decide (s.1 < b.size) = true →
      (indexTurn env b db isWitness s).result = .ok s' → b.size - s'.1 < b.size - s.1 := by
    intro s s' hgo hok
    rw [indexTurn, note_bind_result, note_bind_result] at hok
    obtain ⟨_, -, hok⟩ := bind_result_eq_ok.1 hok
    obtain ⟨tx, htx, hok⟩ := bind_result_eq_ok.1 hok
    obtain ⟨xtx, -, hok⟩ := bind_result_eq_ok.1 hok
    obtain ⟨_, -, hok⟩ := lift_bind_result_eq_ok.1 hok
    obtain ⟨_, -, hok⟩ := bind_result_eq_ok.1 hok
    obtain ⟨_, -, hok⟩ := lift_bind_result_eq_ok.1 hok
    obtain rfl := Except.ok.inj hok
    have hlen := length_of_txFromWire_ok env.blake2s (by rw [b.wire_length]; exact b.txsize_lt _) (parseTx_eq_ok.1 htx)
    rw [b.wire_length] at hlen ⊢
    have hgo := of_decide_eq_true hgo
    omega
  exact loop_total (fun s => b.size - s.1) hless (0, [])

section Accepted
variable {n : ℕ} {first : Scan ScanState} {sₑ : ScanState}
  (hfirst : loop (fun s => s.pos < b.size) (scanTurn env view chain b) n (scanStart view) = some first)
  (hok : first.result = .ok sₑ)
include hfirst hok

/-- The second loop comes to the positions of the first, after transactions that are valid. -/
lemma validateReaches_scanReaches {pos : ℕ}
    (h : Reaches (fun pos => pos < b.size) (validateTurn env view chain cache b) 0 pos) :
    ∃ s, ScanReaches env view chain b s ∧ s.pos = pos ∧ ∀ wire ∈ s.txs, validateTx env view chain cache wire = .ok () := by
  refine Reaches.induct (I := fun pos => ∃ s, ScanReaches env view chain b s ∧ s.pos = pos ∧
    ∀ wire ∈ s.txs, validateTx env view chain cache wire = .ok ()) ?_ h ⟨scanStart view, .refl _, rfl, fun _ h => by cases h⟩
  rintro _ pos' ⟨s, hs, rfl, hvalid⟩ hgo hvalidate
  obtain ⟨s', hs'⟩ := loop_turn_ok hfirst hok hs hgo
  obtain ⟨-, hpos, htxs, -⟩ := scanTurn_eq_ok hs'
  obtain ⟨-, rfl, hwire⟩ := validateTurn_eq_ok hvalidate
  refine ⟨s', hs.trans (.turn hgo hs' (.refl _)), hpos, ?_⟩
  rw [htxs]
  exact List.forall_mem_append.2 ⟨hvalid, List.forall_mem_singleton.2 hwire⟩

/-- The loop of `IndexTxs` comes to the positions of the first loop, with the same transactions before them. -/
lemma indexReaches_scanReaches (hfits : ∀ s, ScanReaches env view chain b s → s.pos < b.size → TxFits env view chain b s)
    (hkeeps : KeepsMatches view.db db) {isWitness : Bool} {t : ℕ × List (List UInt8)}
    (h : Reaches (fun s => s.1 < b.size) (indexTurn env b db isWitness) (0, []) t) :
    ∃ s, ScanReaches env view chain b s ∧ t = (s.pos, s.txs) := by
  refine Reaches.induct (I := fun t => ∃ s, ScanReaches env view chain b s ∧ t = (s.pos, s.txs)) ?_ h
    ⟨scanStart view, .refl _, rfl⟩
  rintro _ t' ⟨s, hs, rfl⟩ hgo hindex
  obtain ⟨s', hs'⟩ := loop_turn_ok hfirst hok hs hgo
  have hturn := (indexTurn_ok (hfits s hs (of_decide_eq_true hgo)) hs' hkeeps isWitness).1
  exact ⟨s', hs.trans (.turn hgo hs' (.refl _)), Except.ok.inj (hindex.symm.trans hturn)⟩

/-- The loop of `IndexTxs` finds the transactions of an accepted block in their places. -/
lemma indexLoop_ok (hfits : ∀ s, ScanReaches env view chain b s → s.pos < b.size → TxFits env view chain b s)
    (hend : sₑ.pos = b.size) (hkeeps : KeepsMatches view.db db) (isWitness : Bool) :
    ∃ y, (∀ n, b.size < n → loop (fun s => s.1 < b.size) (indexTurn env b db isWitness) n (0, []) = some y) ∧
      y.Clean (Access.Safe b.size) Returns ∧ y.result = .ok (b.size, sₑ.txs) := by
  obtain ⟨y, hy⟩ := indexLoop_total env b db isWitness
  have hloop := hy (b.size + 1) (Nat.lt_succ_self _)
  have hturn {t : ℕ × List (List UInt8)} (ht : Reaches (fun s => s.1 < b.size) (indexTurn env b db isWitness) (0, []) t)
      (hgo : decide (t.1 < b.size) = true) : (∃ t', (indexTurn env b db isWitness t).result = .ok t') ∧
        (indexTurn env b db isWitness t).Clean (Access.Safe b.size) Returns := by
    obtain ⟨s, hs, rfl⟩ := indexReaches_scanReaches hfirst hok hfits hkeeps ht
    obtain ⟨s', hs'⟩ := loop_turn_ok hfirst hok hs hgo
    obtain ⟨hresult, hclean⟩ := indexTurn_ok (hfits s hs (of_decide_eq_true hgo)) hs' hkeeps isWitness
    exact ⟨⟨_, hresult⟩, hclean⟩
  refine ⟨y, hy, (clean_loop hloop).2 fun t ht hgo => (hturn ht hgo).2, ?_⟩
  have hnever : y.Clean (fun _ => True) (fun _ => False) := by
    refine (clean_loop hloop).2 fun t ht hgo => ⟨fun _ _ => trivial, fun e he => ?_⟩
    obtain ⟨t', ht'⟩ := (hturn ht hgo).1
    cases he.symm.trans ht'
  cases hresult : y.result with
  | error e => exact (hnever.2 e hresult).elim
  | ok t =>
    obtain ⟨ht, hstop⟩ := loop_ok hloop hresult
    obtain ⟨s, hs, rfl⟩ := indexReaches_scanReaches hfirst hok hfits hkeeps ht
    -- the first loop stops here as well, so this is where it ended
    obtain rfl := Except.ok.inj ((loop_of_reaches hfirst hs hstop).symm.trans hok)
    rw [hend]

end Accepted

/-- With enough turns the two loops have one outcome. -/
lemma validateTxs_total : ∃ first second, (∀ n, b.size < n →
      loop (fun s => s.pos < b.size) (scanTurn env view chain b) n (scanStart view) = some first) ∧
    (∀ n, b.size < n → loop (fun pos => pos < b.size) (validateTurn env view chain cache b) n 0 = some second) ∧
    ∀ n, b.size < n → validateTxs env view chain cache b n = some (do
      let s ← first
      lift (reject (s.pos ≠ b.size) (.rc (-1)))
      let _ ← second
      return ()) := by
  obtain ⟨first, hfirst⟩ := @scanLoop_total env view chain b
  obtain ⟨second, hsecond⟩ := @validateLoop_total env view chain cache b
  refine ⟨first, second, hfirst, hsecond, fun n hn => ?_⟩
  rw [validateTxs, hfirst n hn, hsecond n hn]
  rfl

lemma SafeScan.txFits (h : SafeScan env view chain cache b) (hs : ScanReaches env view chain b s)
    (hpos : s.pos < b.size) : TxFits env view chain b s := by
  obtain ⟨first, second, hfirst, -, hall⟩ := @validateTxs_total env view chain cache b
  obtain ⟨x, hx, hclean, -⟩ := h
  obtain rfl := Option.some.inj ((hall _ (Nat.lt_succ_self _)).symm.trans (hx _ (Nat.lt_succ_self _)))
  have hfirst := hfirst (b.size + 1) (Nat.lt_succ_self _)
  exact clean_scanTurn.1 ((clean_loop hfirst).1 (clean_bind.1 hclean).1 s hs (decide_eq_true hpos))

/-- Scanning a block is safe exactly when every transaction that the first loop comes to fits. -/
theorem safeScan_iff (env : BlockEnv) (view : BlockView) (chain : BlockChain) (cache : List (List UInt8))
    (b : BlockBytes) : SafeScan env view chain cache b ↔
      ∀ s, ScanReaches env view chain b s → s.pos < b.size → TxFits env view chain b s := by
  refine ⟨fun h s hs hpos => h.txFits hs hpos, fun hfits => ?_⟩
  obtain ⟨first, second, hfirst, hsecond, hall⟩ := @validateTxs_total env view chain cache b
  have hfirst := hfirst (b.size + 1) (Nat.lt_succ_self _)
  have hsecond := hsecond (b.size + 1) (Nat.lt_succ_self _)
  have hcleanFirst : first.Clean (Access.Safe b.size) Returns :=
    (clean_loop hfirst).2 fun s hs hgo => clean_scanTurn.2 (hfits s hs (of_decide_eq_true hgo))
  refine ⟨_, hall, clean_bind.2 ⟨hcleanFirst, fun s hok => ?_⟩, fun haccepted => ?_⟩
  · refine clean_reject_rc.2 fun _ => clean_bind.2 ⟨(clean_loop hsecond).2 fun pos hpos hgo => ?_, fun _ _ => clean_pure⟩
    obtain ⟨s', hs', rfl, -⟩ := validateReaches_scanReaches hfirst hok hpos
    have hsize := (hfits s' hs' (of_decide_eq_true hgo)).size
    exact clean_validateTurn (by omega) hsize.2
  · obtain ⟨s, hok, haccepted⟩ := bind_result_eq_ok.1 haccepted
    obtain ⟨_, hend, -⟩ := lift_bind_result_eq_ok.1 haccepted
    have hend : s.pos = b.size := not_not.1 (reject_eq_ok.1 hend)
    obtain ⟨hbytes, hsized, hparsed⟩ := ScanReaches.madeOf (loop_ok hfirst hok).1
    exact ⟨s.txs, ⟨hend ▸ hbytes, hsized, hparsed⟩,
      fun db isWitness hkeeps => indexLoop_ok hfirst hok hfits hend hkeeps isWitness⟩

/-- A block of one payment claim, whose size word says 100 where 8 bytes are left. -/
def overlongBlock : BlockBytes where
  mem := fun i => [100, 0, 0, 0, 1, 0, 0x19, 0xCC].getD i 0
  size := 8

/-- The 92 bytes after the block are taken for the data of the claim. -/
theorem overlongBlock_unsafe : ¬ ∀ (env : BlockEnv) (view : BlockView) (chain : BlockChain)
    (cache : List (List UInt8)) (b : BlockBytes), SafeScan env view chain cache b := by
  intro h
  have hsafe := h (quietEnv 0) { db := {}, lastIndelibleTimestamp := 0 } ⟨soleBlock 0 0, []⟩ [] overlongBlock
  have hsize : overlongBlock.txsize 0 ≤ overlongBlock.size :=
    (Nat.zero_add _).symm.le.trans (hsafe.txFits (.refl _) (by decide : 0 < 8)).size.2
  exact absurd hsize (by decide)

/-- The loops over the bytes of a block find the transactions that validation of a block is about. -/
theorem validateTxs_validates {n : ℕ} {x : Scan Unit} (h : validateTxs env view chain cache b n = some x)
    (hok : x.result = .ok ()) : ∃ txs temp, MadeOf env b txs ∧
      scanBlock env view chain (scanStart view).temp txs = .ok temp ∧
      txs.forM (validateTx env view chain cache) = .ok () := by
  obtain ⟨first, hfirst, h⟩ := Option.bind_eq_some_iff.1 h
  obtain ⟨second, hsecond, h⟩ := Option.bind_eq_some_iff.1 h
  obtain rfl := Option.some.inj h
  obtain ⟨s, hscan, hok⟩ := bind_result_eq_ok.1 hok
  obtain ⟨_, hend, hok⟩ := lift_bind_result_eq_ok.1 hok
  obtain ⟨pos, hvalidate, -⟩ := bind_result_eq_ok.1 hok
  have hend : s.pos = b.size := not_not.1 (reject_eq_ok.1 hend)
  obtain ⟨hreach, hstop⟩ := loop_ok hfirst hscan
  obtain ⟨hbytes, hsized, hparsed⟩ := ScanReaches.madeOf hreach
  obtain ⟨hreach', hstop'⟩ := loop_ok hsecond hvalidate
  obtain ⟨s', hs', rfl, hvalid⟩ := validateReaches_scanReaches hfirst hscan hreach'
  -- both loops stop in the same place
  obtain rfl := Except.ok.inj ((loop_of_reaches hfirst hs' hstop').symm.trans hscan)
  exact ⟨s'.txs, s'.temp, ⟨hend ▸ hbytes, hsized, hparsed⟩, ScanReaches.scanBlock_ok hreach, forM_eq_ok.2 hvalid⟩

end Block

end CredaCash.Chain
