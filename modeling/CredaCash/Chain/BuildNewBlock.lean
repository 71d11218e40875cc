import CredaCash.Chain.NodeRun
import CredaCash.Wire.BlockForm

/-! The selection of transactions for a new block by a witness, and what the validation of blocks makes of the ones
that it selects. -/

namespace CredaCash.Chain
open Wire Checks

/-- `CC_BLOCK_MAX_SIZE` without the headers of an object and of a block: two words, and a signature, an oid, a level, a
timestamp and a witness. -/
def newblockBufsize : ℕ := 32*1024*1024 - 128 - (4 + 4) - (64 + 16 + 4 + 4 + 1)

/-- The block that a witness builds: its buffer with its size, the rows of `Temp_Serials` and `build_status`. -/
structure NewBlock where
  bufpos : ℕ := 0
  temp : List TempSerialnum
  txs : List (List UInt8) := []
  full : Bool := false

/-- `TempSerialnumInsert`: a row has its serial number and its block as its key. -/
def tempSerialnumInsert (temp : List TempSerialnum) (serialnum blockp : ℕ) : Option (List TempSerialnum) :=
  if temp.any fun row => row.serialnum = serialnum && row.blockp = blockp then none
  else some (temp ++ [{ serialnum := serialnum, blockp := blockp }])

/-- The serial numbers of a transaction are inserted until one fails; the rows before it stay. -/
def insertWitnessSerialnums : List TempSerialnum → List TxIn → List TempSerialnum × Bool
  | temp, [] => (temp, false)
  | temp, txin :: rest =>
    match tempSerialnumInsert temp txin.serialnum witnessBlockp with
    | none => (temp, true)
    | some temp => insertWitnessSerialnums temp rest

/-- The arguments of `BuildNewBlock`, apart from its clock, and a parameter for tests. -/
structure BuildArgs where
  nconfsigs : ℕ
  lastIndelibleLevel : ℕ
  test1 : Bool

section
variable (env : Env) (view : BlockView) (chain : BlockChain)

/-- The witness takes a request for expired. -/
def expiredXreq (x : Xreq) : Bool := x.expireTime ≤ chain.tip.timestamp + x.holdTime + xreqMinPostholdTime

/-- The requests that a witness leaves out. -/
def skipsXreq (x : Xreq) : Bool :=
  chain.tip.timestamp + xreqMaxExpireTime < x.expireTime || expiredXreq chain x ||
    (x.foreignAddress ≠ "" &&
      view.db.xmatchingreqForeignAddressSelect chain.tip.timestamp x.quoteAsset x.foreignAddress)

/-- The payment claims that a witness leaves out. -/
def skipsXpay (xpay : Xpay) : Bool :=
  xpay.matchTimestamp = 0 || xpay.paymentTime = 0 || xpay.matchTimestamp + xpay.paymentTime < chain.tip.timestamp

/-- The transactions that a witness leaves out for their type or their exchange data. -/
def skipsTx (args : BuildArgs) (tx : TxPay) (xtx : Option Xtx) : Bool :=
  (xtx = none && extractXtxFailed tx false) || (args.test1 && tx.wireTag = tagTxXdomain) ||
    match xtx with
    | some (.xreq x) => skipsXreq view chain x
    | some (.xpay xpay) => skipsXpay chain xpay
    | none => tx.tagType ≠ .txpay && tx.tagType ≠ .mint

/-- A serial number is spent, in the new block, or in a block of the chain of the prior block. -/
def badSerialnum (temp : List TempSerialnum) (txin : TxIn) : Bool :=
  checkSerialnum view.db temp ((view.lastIndelibleBlock.map (·.level)).getD 0) chain.blocks witnessBlockp
    txin.serialnum ≠ 0

/-- One turn of the loop of `BuildNewBlock` over the transactions that it fetched, and whether it breaks the loop. -/
def buildTurn (args : BuildArgs) (d : NewBlock) (obj : List UInt8) : NewBlock × Bool :=
  let newsize := bodySizeOf (wiresizeAt obj) (tagAt obj) + 8
  let full := d.full || newblockBufsize < d.bufpos + newsize
  match (txFromWire env.blake2s obj {}).1 with
  | .error _ => ({ d with full := full }, false)
  | .ok tx =>
    let full := full || chain.tip.level < tx.paramLevel + args.nconfsigs - 1 || args.lastIndelibleLevel < tx.paramLevel
    if full then ({ d with full := true }, true)
    else
      let xtx := extractXtxWithMatch env view.db tx
      if skipsTx view chain args tx xtx then (d, false)
      else
        let inputs := (pseudoSerialnum env tx xtx obj false).inputs
        if inputs.any (badSerialnum view chain d.temp) then (d, false)
        else
          let (temp, badinsert) := insertWitnessSerialnums d.temp inputs
          if badinsert then ({ d with temp := temp }, false)
          else ({ d with bufpos := d.bufpos + newsize, temp := temp, txs := d.txs ++ [blockForm obj] }, false)

/-- The loop over the transactions that were fetched at once. -/
def buildBatch (args : BuildArgs) : NewBlock → List (List UInt8) → NewBlock
  | d, [] => d
  | d, obj :: rest =>
    match buildTurn env view chain args d obj with
    | (d, true) => d
    | (d, false) => buildBatch args d rest

/-- A call of `BuildNewBlock`, which fetches transactions until its clock or other work ends it. -/
def buildNewBlock (d : NewBlock) (call : BuildArgs × List (List (List UInt8))) : NewBlock :=
  call.2.foldl (buildBatch env view chain call.1) { d with full := false }

def startNewBlock : NewBlock where
  temp := tempSerialnumClear view.tempSerialnums witnessBlockp

/-- The calls for one prior block. -/
def newBlock (calls : List (BuildArgs × List (List (List UInt8)))) : NewBlock :=
  calls.foldl (buildNewBlock env view chain) (startNewBlock view)

end

/-- The row of a serial number in the block that a witness builds. -/
def witnessRow (serialnum : ℕ) : TempSerialnum where
  serialnum := serialnum
  blockp := witnessBlockp

section Rows
variable {temp temp' : List TempSerialnum}

lemma tempSerialnumInsert_eq_some {serialnum blockp : ℕ} : tempSerialnumInsert temp serialnum blockp = some temp' ↔
    (∀ row ∈ temp, row.serialnum = serialnum → row.blockp ≠ blockp) ∧
      temp' = temp ++ [{ serialnum := serialnum, blockp := blockp }] := by
  unfold tempSerialnumInsert
  simp only [List.any_eq_true, Bool.and_eq_true, decide_eq_true_eq]
  split_ifs with h
  · obtain ⟨row, hrow, hserial, hblockp⟩ := h
    exact ⟨fun h => (by cases h), fun h => absurd hblockp (h.1 row hrow hserial)⟩
  · exact ⟨fun hsome => ⟨fun row hrow hserial hblockp => h ⟨row, hrow, hserial, hblockp⟩, (Option.some.inj hsome).symm⟩,
      fun hsome => congrArg some hsome.2.symm⟩

/-- A failed insertion leaves the rows of the inputs before it. -/
lemma insertWitnessSerialnums_prefix (temp : List TempSerialnum) (inputs : List TxIn) :
    ∃ serialnums : List ℕ, (insertWitnessSerialnums temp inputs).1 = temp ++ serialnums.map witnessRow := by
  induction inputs generalizing temp with
  | nil => exact ⟨[], (List.append_nil _).symm⟩
  | cons txin rest ih =>
    rw [insertWitnessSerialnums]
    cases hinsert : tempSerialnumInsert temp txin.serialnum witnessBlockp with
    | none => exact ⟨[], (List.append_nil _).symm⟩
    | some temp' =>
      obtain ⟨-, rfl⟩ := tempSerialnumInsert_eq_some.1 hinsert
      obtain ⟨serialnums, hrows⟩ := ih (temp ++ [witnessRow txin.serialnum])
      exact ⟨txin.serialnum :: serialnums, hrows.trans (List.append_assoc ..)⟩

lemma insertWitnessSerialnums_ok {inputs : List TxIn} (h : insertWitnessSerialnums temp inputs = (temp', false)) :
    temp' = temp ++ (inputs.map (·.serialnum)).map witnessRow ∧ (inputs.map (·.serialnum)).Nodup ∧
      ∀ txin ∈ inputs, witnessRow txin.serialnum ∉ temp := by
  induction inputs generalizing temp with
  | nil =>
    obtain rfl := (Prod.mk.inj h).1
    exact ⟨(List.append_nil _).symm, List.nodup_nil, fun _ h => (by cases h)⟩
  | cons txin rest ih =>
    rw [insertWitnessSerialnums] at h
    cases hinsert : tempSerialnumInsert temp txin.serialnum witnessBlockp with
    | none => rw [hinsert] at h; cases h
    | some temp₁ =>
      rw [hinsert] at h
      obtain ⟨hnew, rfl⟩ := tempSerialnumInsert_eq_some.1 hinsert
      obtain ⟨hrows, hnodup, hrest⟩ := ih h
      refine ⟨hrows.trans (List.append_assoc ..), List.nodup_cons.2 ⟨fun hmem => ?_, hnodup⟩, fun txin' hmem => ?_⟩
      · obtain ⟨txin', hmem', hserial⟩ := List.mem_map.1 hmem
        exact hrest txin' hmem' (List.mem_append_right _ (List.mem_singleton.2 (congrArg witnessRow hserial)))
      · rcases List.mem_cons.1 hmem with rfl | hmem
        · exact fun hold => hnew _ hold rfl rfl
        · exact fun hold => hrest txin' hmem (List.mem_append_left _ hold)

end Rows

section Turn
variable (env : Env) (view : BlockView) (chain : BlockChain) (args : BuildArgs)

/-- The serial numbers that a transaction spends. -/
def spends (obj : List UInt8) (tx : TxPay) : List ℕ :=
  (pseudoSerialnum env tx (extractXtxWithMatch env view.db tx) obj false).inputs.map (·.serialnum)

/-- A transaction that a witness adds to its block. -/
structure Selects (temp : List TempSerialnum) (obj : List UInt8) (tx : TxPay) : Prop where
  parses : (txFromWire env.blake2s obj {}).1 = .ok tx
  keeps : skipsTx view chain args tx (extractXtxWithMatch env view.db tx) = false
  unspent : ∀ s ∈ spends env view obj tx, checkSerialnum view.db temp
    ((view.lastIndelibleBlock.map (·.level)).getD 0) chain.blocks witnessBlockp s = 0
  nodup : (spends env view obj tx).Nodup

/-- A turn adds a transaction, or only rows of the witness. -/
lemma buildTurn_cases (d : NewBlock) (obj : List UInt8) :
    (∃ serialnums : List ℕ, (buildTurn env view chain args d obj).1.txs = d.txs ∧
      (buildTurn env view chain args d obj).1.temp = d.temp ++ serialnums.map witnessRow) ∨
    ∃ tx, Selects env view chain args d.temp obj tx ∧
      (buildTurn env view chain args d obj).1.txs = d.txs ++ [blockForm obj] ∧
      (buildTurn env view chain args d obj).1.temp = d.temp ++ (spends env view obj tx).map witnessRow := by
  have hsame : ∃ serialnums : List ℕ, d.temp = d.temp ++ serialnums.map witnessRow := ⟨[], (List.append_nil _).symm⟩
  obtain ⟨none', hnone⟩ := hsame
  unfold buildTurn
  cases hparse : (txFromWire env.blake2s obj {}).1 with
  | error e => exact Or.inl ⟨none', rfl, hnone⟩
  | ok tx =>
    simp only
    split_ifs with hfull hskip hbad hinsert
    · exact Or.inl ⟨none', rfl, hnone⟩
    · exact Or.inl ⟨none', rfl, hnone⟩
    · exact Or.inl ⟨none', rfl, hnone⟩
    · obtain ⟨serialnums, hrows⟩ := insertWitnessSerialnums_prefix d.temp
        (pseudoSerialnum env tx (extractXtxWithMatch env view.db tx) obj false).inputs
      exact Or.inl ⟨serialnums, rfl, hrows⟩
    · obtain ⟨hrows, hnodup, -⟩ := insertWitnessSerialnums_ok
        (Prod.ext rfl (Bool.eq_false_of_not_eq_true hinsert))
      refine Or.inr ⟨tx, ⟨hparse, by simpa using hskip, fun s hs => ?_, hnodup⟩, rfl, hrows⟩
      obtain ⟨txin, hmem, rfl⟩ := List.mem_map.1 hs
      by_contra hspent
      exact hbad (List.any_eq_true.2 ⟨txin, hmem, by simpa [badSerialnum] using hspent⟩)

/-- An invariant that each turn keeps holds of the block after any calls. -/
lemma newBlock_induct {I : NewBlock → Prop} {calls : List (BuildArgs × List (List (List UInt8)))}
    (hstart : I (startNewBlock view)) (hfull : ∀ d full, I d → I { d with full := full })
    (hturn : ∀ call ∈ calls, ∀ batch ∈ call.2, ∀ obj ∈ batch, ∀ d, I d → I (buildTurn env view chain call.1 d obj).1) :
    I (newBlock env view chain calls) := by
  have hbatch (args : BuildArgs) (batch : List (List UInt8)) (d : NewBlock) (hd : I d)
      (h : ∀ obj ∈ batch, ∀ d, I d → I (buildTurn env view chain args d obj).1) :
      I (buildBatch env view chain args d batch) := by
    induction batch generalizing d with
    | nil => exact hd
    | cons obj rest ih =>
      have hone := h obj (List.mem_cons_self ..) d hd
      rw [buildBatch]
      generalize buildTurn env view chain args d obj = result at hone ⊢
      obtain ⟨d', _ | _⟩ := result
      · exact ih d' hone fun obj hobj => h obj (List.mem_cons_of_mem _ hobj)
      · exact hone
  unfold newBlock
  refine List.foldlRecOn calls _ hstart fun d hd call hcall => ?_
  exact List.foldlRecOn call.2 _ (hfull d false hd) fun d hd batch hmem =>
    hbatch call.1 batch d hd (hturn call hcall batch hmem)

end Turn

/-- The hash of an object is one of its type and its body. -/
def HashesBody (env : Env) : Prop :=
  ∃ hash : ObjType → List UInt8 → ℕ, ∀ wire, env.objHash wire = hash (objType (tagAt wire)) (objBody wire)

/-- The markers in the table of serial numbers: rows of a block at hand have no level, and no block of the chain has
the marker of the witness for its address. -/
structure Markers (view : BlockView) (chain : BlockChain) : Prop where
  process : ∀ row ∈ view.tempSerialnums, row.blockp = processBlockp → row.level = 0
  witness : ∀ b ∈ chain.blocks, b.bufp ≠ witnessBlockp

/-- The rules of validation on the times and the foreign address of a transaction of a block. -/
structure TimeRules (env : BlockEnv) (view : BlockView) (chain : BlockChain) (wire : List UInt8) : Prop where
  request : ∀ tx x, (txFromWire env.blake2s wire {}).1 = .ok tx → extractXtx env.toEnv tx = some (.xreq x) →
    recheckXreq view chain x = .ok () ∧
      checkExpireTime (blockchainTime view.toNodeView chain.tip.timestamp) x = .ok () ∧
      checkForeignAddressFree env.toEnv view.toNodeView (blockchainTime view.toNodeView chain.tip.timestamp) true x =
        .ok ()
  payment : ∀ tx xpay, (txFromWire env.blake2s wire {}).1 = .ok tx → extractXtx env.toEnv tx = some (.xpay xpay) →
    ∃ m, view.db.xmatchSelect xpay.xmatchnum = some m ∧
      recheckXpay chain (setMatchFieldsInXpay env.toEnv m xpay) = .ok () ∧
      blockchainTime view.toNodeView chain.tip.timestamp ≤ m.matchTimestamp + m.xsell.paymentTime

section Agree
variable {env : BlockEnv} {view : BlockView} {chain : BlockChain} {args : BuildArgs}

lemma recheckXreq_eq_ok {x : Xreq} : recheckXreq view chain x = .ok () ↔ skipsXreq view chain x = false := by
  simp only [recheckXreq, bind_eq_ok, reject_eq_ok, skipsXreq, expiredXreq]
  simp [and_assoc]

lemma recheckXpay_eq_ok {xpay : Xpay} : recheckXpay chain xpay = .ok () ↔ skipsXpay chain xpay = false := by
  simp only [recheckXpay, bind_eq_ok, reject_eq_ok, skipsXpay]
  simp [and_assoc]

/-- What a witness keeps passes the checks of a block again. -/
lemma recheckXtx_of_keeps {tx : TxPay} {xtx : Option Xtx} (h : skipsTx view chain args tx xtx = false) :
    recheckXtx view chain tx xtx = .ok () ∧ ¬ (xtx = none ∧ extractXtxFailed tx true = true) := by
  simp only [skipsTx, Bool.or_eq_false_iff] at h
  obtain ⟨⟨hfailed, -⟩, hrules⟩ := h
  obtain - | ⟨x | xpay⟩ := xtx
  · have hxtx : tx.tagType.isXtx = false := by simpa [extractXtxFailed] using hfailed
    have hxreq : tx.tagType.isXreq = false := by
      revert hxtx
      cases tx.tagType <;> simp [ObjType.isXtx, ObjType.isXreq]
    exact ⟨reject_eq_ok.2 (by simp [hxreq]), by simp [extractXtxFailed, hxtx]⟩
  · exact ⟨recheckXreq_eq_ok.2 hrules, fun h => (by cases h.1)⟩
  · exact ⟨recheckXpay_eq_ok.2 hrules, fun h => (by cases h.1)⟩

lemma blockInChain_eq_false {find level : ℕ} {blocks : List Block} (h : ∀ b ∈ blocks, b.bufp ≠ find) :
    blockInChain find level blocks = false := by
  induction blocks with
  | nil => rfl
  | cons b rest ih =>
    rw [blockInChain, if_neg (h b (List.mem_cons_self ..))]
    split_ifs
    · rfl
    · exact ih fun b hb => h b (List.mem_cons_of_mem _ hb)

lemma spends_congr {tx tx' : TxPay} {obj obj' : List UInt8} (htype : tx.tagType = tx'.tagType)
    (hinputs : tx.inputs = tx'.inputs)
    (hxtx : extractXtxWithMatch env.toEnv view.db tx = extractXtxWithMatch env.toEnv view.db tx')
    (hhash : env.objHash obj = env.objHash obj') : spends env.toEnv view obj tx = spends env.toEnv view obj' tx' := by
  simp only [spends, pseudoSerialnum, htype, hinputs, hxtx, hhash]
  split_ifs
  · rw [hinputs]
  · rfl
  · rfl

/-- The block form of an object spends the serial numbers of the object. -/
lemma spends_blockForm (hhash : HashesBody env.toEnv) {obj : List UInt8} (hobj : IsTxObject obj) (tx : TxPay)
    (offset : ℕ) : spends env.toEnv view (blockForm obj) { tx with appendWireOffset := offset } =
      spends env.toEnv view obj tx := by
  obtain ⟨hash, hhash⟩ := hhash
  refine spends_congr rfl rfl rfl ?_
  rw [hhash, hhash, tagAt_blockForm, objType_blockTag, objBody_blockForm hobj]

/-- A transaction that a witness selects passes the scan of its block wherever its serial numbers are fresh. -/
lemma Selects.scanTx (hhash : HashesBody env.toEnv) {obj : List UInt8} (hobj : IsTxObject obj) {tx : TxPay}
    {temp start temp' : List TempSerialnum} (h : Selects env.toEnv view chain args temp obj tx)
    (hsupported : typeSupported tx.tagType = true)
    (hinsert : Inserts view chain start (spends env.toEnv view obj tx) temp') :
    scanTx env view chain start (blockForm obj) = .ok temp' := by
  obtain ⟨offset, hparse⟩ := txFromWire_blockForm env.blake2s hobj h.parses
  obtain ⟨hrecheck, hextracts⟩ := recheckXtx_of_keeps h.keeps
  rw [← spends_blockForm hhash hobj tx offset] at hinsert
  have hextract : extractTxFails { tx with appendWireOffset := offset } (blockForm obj) = false := by
    have hbody := hobj.body
    have hlen := blockForm_length hobj
    rw [hobj.bodySize.2] at hbody
    have hsize : txSize (blockForm obj) ≤ (blockForm obj).length := Nat.sub_le _ _
    simp only [extractTxFails, hsupported, Bool.not_true, Bool.or_false, Bool.or_eq_false_iff, decide_eq_false_iff_not]
    have hmax : txMaxBodySize = txMaxSize := rfl
    omega
  unfold Chain.scanTx
  rw [hparse]
  exact reject_bind_eq_ok.2 ⟨hextracts, bind_eq_ok.2 ⟨(), hrecheck, bind_eq_ok.2 ⟨temp', hinsert.insertSerialnums,
    reject_bind_eq_ok.2 ⟨by simp [hextract], rfl⟩⟩⟩⟩

/-- A serial number that a witness finds unspent is fresh in a scan of its block by its own node, if the block does not
spend it yet. -/
lemma fresh_of_unspent (hmarkers : Markers view chain) {temp start : List TempSerialnum} {done : List ℕ} {s : ℕ}
    (hstart : ∀ row ∈ start, row.blockp ≠ processBlockp ∧ (row ∈ temp ∨ row.blockp = witnessBlockp))
    (hdone : ∀ s ∈ done, witnessRow s ∈ temp)
    (h : checkSerialnum view.db temp ((view.lastIndelibleBlock.map (·.level)).getD 0) chain.blocks witnessBlockp s = 0) :
    Fresh view chain (start ++ done.map processRow) s := by
  obtain ⟨hdb, hrows⟩ := checkSerialnum_eq_zero.1 h
  refine Fresh.append (checkSerialnum_eq_zero.2 ⟨hdb, fun row hrow hserial => ?_⟩) fun hmem => ?_
  · obtain ⟨hprocess, hrow⟩ := hstart row hrow
    refine ⟨hprocess, hrow.elim (fun hrow => (hrows row hrow hserial).2) fun hwitness => ?_⟩
    rw [hwitness]
    exact blockInChain_eq_false hmarkers.witness
  · exact (hrows _ (hdone s hmem) rfl).1 rfl

lemma ignoreError_inBlock {env : Env} {blockchain : ℕ} {inBlock : Bool} (h : ignoreError env blockchain inBlock = true) :
    ignoreError env blockchain true = true := by
  unfold ignoreError at h ⊢
  split at h <;> simp_all

/-- A foreign address that was valid once is valid in a block if no request has it. -/
lemma checkForeignAddressFree_again {env : Env} {view view' : NodeView} {time time' : ℕ} {inBlock : Bool} {x : Xreq}
    (hblocked : view.db.blockedForeignAddresses = view'.db.blockedForeignAddresses)
    (h : checkForeignAddressFree env view time inBlock x = .ok ())
    (hfree : ¬ (x.foreignAddress ≠ "" ∧
      view'.db.xmatchingreqForeignAddressSelect time' x.quoteAsset x.foreignAddress = true)) :
    checkForeignAddressFree env view' time' true x = .ok () := by
  unfold checkForeignAddressFree at h ⊢
  split_ifs at h ⊢ with hempty
  · rfl
  · simp only [reject_bind_eq_ok] at h ⊢
    obtain ⟨-, -, hblock, hquery⟩ := h
    refine ⟨by simp, fun hfound => hfree ⟨hempty, hfound⟩, ?_, ?_⟩
    · rwa [PersistentDb.xcxBlockedForeignAddressSelect, ← hblocked]
    · cases hresult : env.queryAddress x.quoteAsset x.foreignAddress with
      | notFound => rw [hresult] at hquery; cases hquery
      | error =>
        rw [hresult] at hquery
        have hignore := reject_eq_ok.1 hquery
        exact reject_eq_ok.2 (by simp [ignoreError_inBlock (by simpa using hignore)])
      | found result => rfl

/-- The rules that a transaction which was valid once meets when a witness keeps it. -/
lemma Selects.timeRules (htime : timeOffset ≤ chain.tip.timestamp) {obj : List UInt8} (hobj : IsTxObject obj)
    (hvalid : EverValid env.toEnv view.db obj) {tx : TxPay} {temp : List TempSerialnum}
    (h : Selects env.toEnv view chain args temp obj tx) :
    typeSupported tx.tagType = true ∧ TimeRules env view chain (blockForm obj) := by
  obtain ⟨p, hp⟩ := hvalid
  obtain ⟨offset, hparse⟩ := txFromWire_blockForm env.blake2s hobj h.parses
  have hclock : blockchainTime view.toNodeView chain.tip.timestamp = chain.tip.timestamp :=
    if_neg (by rintro hzero; rw [hzero] at htime; cases htime)
  unfold txValidate at hp
  rw [h.parses] at hp
  obtain ⟨typed, root, hpasses⟩ := (checkTx_eq_ok ..).1 hp
  have hInTime := hpasses.inTime
  obtain ⟨hrecheck, -⟩ := recheckXtx_of_keeps h.keeps
  refine ⟨?_, fun tx' x hparse' hx => ?_, fun tx' xpay hparse' hxpay => ?_⟩
  · have hfields := hpasses.fields
    simp only [checkTxFields, reject_bind_eq_ok] at hfields
    simpa [setTxDefaults] using hfields.1
  · obtain rfl := Except.ok.inj (hparse.symm.trans hparse')
    have hx : extractXtx env.toEnv tx = some (.xreq x) := hx
    rw [extractXtxWithMatch, hx] at hrecheck
    have hrules : recheckXreq view chain x = .ok () := hrecheck
    obtain ⟨-, hfree⟩ := hInTime.request x hx
    rw [hclock]
    simp only [recheckXreq, bind_eq_ok, reject_eq_ok] at hrules ⊢
    obtain ⟨_, hlate, _, hexpired, haddress⟩ := hrules
    refine ⟨⟨(), hlate, (), hexpired, haddress⟩, ?_, checkForeignAddressFree_again p.earlier.blocked hfree haddress⟩
    simp only [checkExpireTime, bind_eq_ok, reject_eq_ok]
    exact ⟨(), hlate, hexpired⟩
  · obtain rfl := Except.ok.inj (hparse.symm.trans hparse')
    have hxpay : extractXtx env.toEnv tx = some (.xpay xpay) := hxpay
    rw [extractXtxWithMatch, hxpay] at hrecheck
    have hkeeps := h.keeps
    rw [extractXtxWithMatch, hxpay] at hkeeps
    cases hselect : view.db.xmatchSelect xpay.xmatchnum with
    | none =>
      simp [skipsTx, hselect, extractXtxFailed, extractXtx_xpay hxpay, ObjType.isXtx] at hkeeps
    | some m =>
      simp only [hselect, Option.map_some] at hrecheck
      have hrules : recheckXpay chain (setMatchFieldsInXpay env.toEnv m xpay) = .ok () := hrecheck
      refine ⟨m, rfl, hrules, ?_⟩
      simp only [recheckXpay, bind_eq_ok, reject_eq_ok] at hrules
      obtain ⟨_, -, _, -, hdeadline⟩ := hrules
      rw [hclock]
      exact not_lt.1 hdeadline

/-- What holds of the block that a witness builds: a scan of it from a given table succeeds, and its transactions meet
the rules on times and addresses. -/
structure Built (env : BlockEnv) (view : BlockView) (chain : BlockChain) (start : List TempSerialnum) (d : NewBlock) :
    Prop where
  rows : ∀ row ∈ start, row.blockp ≠ processBlockp ∧ (row ∈ d.temp ∨ row.blockp = witnessBlockp)
  scans : ∃ done : List ℕ, scanBlock env view chain start d.txs = .ok (start ++ done.map processRow) ∧
    ∀ s ∈ done, witnessRow s ∈ d.temp
  rules : ∀ wire ∈ d.txs, TimeRules env view chain wire

lemma Built.turn (hhash : HashesBody env.toEnv) (hmarkers : Markers view chain)
    (htime : timeOffset ≤ chain.tip.timestamp) {obj : List UInt8} (hobj : IsTxObject obj)
    (hvalid : EverValid env.toEnv view.db obj) {start : List TempSerialnum} {d : NewBlock}
    (h : Built env view chain start d) :
    Built env view chain start (buildTurn env.toEnv view chain args d obj).1 := by
  obtain ⟨done, hscan, hdone⟩ := h.scans
  have hcases := buildTurn_cases env.toEnv view chain args d obj
  generalize (buildTurn env.toEnv view chain args d obj).1 = d' at hcases ⊢
  rcases hcases with ⟨serialnums, htxs, htemp⟩ | ⟨tx, hsel, htxs, htemp⟩
  · refine ⟨fun row hrow => ?_, ⟨done, htxs ▸ hscan, fun s hs => ?_⟩, fun wire hwire => h.rules wire (htxs ▸ hwire)⟩
    · rw [htemp]
      exact ⟨(h.rows row hrow).1, (h.rows row hrow).2.imp_left (List.mem_append_left _)⟩
    · rw [htemp]
      exact List.mem_append_left _ (hdone s hs)
  · obtain ⟨hsupported, hrules⟩ := hsel.timeRules htime hobj hvalid
    have hinsert : Inserts view chain (start ++ done.map processRow) (spends env.toEnv view obj tx)
        (start ++ done.map processRow ++ (spends env.toEnv view obj tx).map processRow) :=
      ⟨rfl, hsel.nodup, fun s hs => fresh_of_unspent hmarkers h.rows hdone (hsel.unspent s hs)⟩
    have htx := hsel.scanTx hhash hobj hsupported hinsert
    refine ⟨fun row hrow => ?_, ⟨done ++ spends env.toEnv view obj tx, ?_, fun s hs => ?_⟩, fun wire hwire => ?_⟩
    · rw [htemp]
      exact ⟨(h.rows row hrow).1, (h.rows row hrow).2.imp_left (List.mem_append_left _)⟩
    · rw [htxs, scanBlock_append, List.map_append, ← List.append_assoc]
      exact bind_eq_ok.2 ⟨_, hscan, htx⟩
    · rw [htemp]
      rcases List.mem_append.1 hs with hs | hs
      · exact List.mem_append_left _ (hdone s hs)
      · exact List.mem_append_right _ (List.mem_map_of_mem hs)
    · rw [htxs] at hwire
      rcases List.mem_append.1 hwire with hwire | hwire
      · exact h.rules wire hwire
      · exact List.mem_singleton.1 hwire ▸ hrules

/-- A request that has expired for the witness fails the scan of any block. -/
lemma scanBlock_expired {obj : List UInt8} (hobj : IsTxObject obj) {tx : TxPay} {x : Xreq}
    (hparse : (txFromWire env.blake2s obj {}).1 = .ok tx) (hx : extractXtx env.toEnv tx = some (.xreq x))
    (hexpired : expiredXreq chain x = true) {temp temp' : List TempSerialnum} {txs : List (List UInt8)}
    (hmem : blockForm obj ∈ txs) : scanBlock env view chain temp txs ≠ .ok temp' := by
  obtain ⟨offset, hform⟩ := txFromWire_blockForm env.blake2s hobj hparse
  induction txs generalizing temp with
  | nil => cases hmem
  | cons wire rest ih =>
    intro hscan
    obtain ⟨temp'', hwire, hrest⟩ := bind_eq_ok.1 hscan
    rcases List.mem_cons.1 hmem with rfl | hmem
    · unfold scanTx at hwire
      rw [hform] at hwire
      obtain ⟨-, hwire⟩ := reject_bind_eq_ok.1 hwire
      obtain ⟨_, hrecheck, -⟩ := bind_eq_ok.1 hwire
      have hx' : extractXtxWithMatch env.toEnv view.db { tx with appendWireOffset := offset } = some (.xreq x) := by
        rw [extractXtxWithMatch, show extractXtx env.toEnv { tx with appendWireOffset := offset } = _ from hx]
      rw [hx'] at hrecheck
      have hskips := recheckXreq_eq_ok.1 (show recheckXreq view chain x = .ok () from hrecheck)
      simp [skipsXreq, hexpired] at hskips
    · exact ih hmem hrest

end Agree

/-- A witness and the validation of blocks agree: what a witness selects for a block passes the scan of that block and the
rules of validation on times and addresses, and a request that it takes for expired is in no valid block. -/
theorem newBlock_agrees (env : BlockEnv) (view : BlockView) (chain : BlockChain)
    (calls : List (BuildArgs × List (List (List UInt8)))) (temp : List TempSerialnum)
    (hhash : HashesBody env.toEnv) (hmarkers : Markers view chain) (htime : timeOffset ≤ chain.tip.timestamp)
    (hpool : ∀ call ∈ calls, ∀ batch ∈ call.2, ∀ obj ∈ batch, IsTxObject obj ∧ EverValid env.toEnv view.db obj)
    (htemp : ∀ row ∈ temp, row ∈ view.tempSerialnums ∨ row.blockp = witnessBlockp) :
    (∃ temp', scanBlock env view chain (tempSerialnumClear temp processBlockp)
      (newBlock env.toEnv view chain calls).txs = .ok temp') ∧
    (∀ wire ∈ (newBlock env.toEnv view chain calls).txs, TimeRules env view chain wire) ∧
    ∀ call ∈ calls, ∀ batch ∈ call.2, ∀ obj ∈ batch, ∀ tx x, (txFromWire env.blake2s obj {}).1 = .ok tx →
      extractXtx env.toEnv tx = some (.xreq x) → expiredXreq chain x = true →
      ∀ cache block, view.validBlocks.find? (·.tip.oid = block.priorOid) = some chain → blockForm obj ∈ block.txs →
        (blockValidate env view cache block).isOk = false := by
  have hbuilt : Built env view chain (tempSerialnumClear temp processBlockp) (newBlock env.toEnv view chain calls) := by
    refine newBlock_induct env.toEnv view chain ⟨fun row hrow => ?_, ⟨[], (by simp [startNewBlock, scanBlock]),
      fun _ hs => (by cases hs)⟩, fun _ hwire => (by cases hwire)⟩ (fun d full h => ⟨h.rows, h.scans, h.rules⟩)
      fun call hcall batch hbatch obj hobj d h => ?_
    · obtain ⟨hrow, hclear⟩ := List.mem_filter.1 hrow
      have hcleared : row.blockp = processBlockp → row.level ≠ 0 := by
        simpa [imp_iff_not_or] using hclear
      rcases htemp row hrow with hrow | hrow
      · refine ⟨fun hprocess => hcleared hprocess (hmarkers.process row hrow hprocess), or_iff_not_imp_right.2 fun hne => ?_⟩
        exact List.mem_filter.2 ⟨hrow, by simp [hne]⟩
      · exact ⟨by rw [hrow]; decide, Or.inr hrow⟩
    · obtain ⟨hobject, hvalid⟩ := hpool call hcall batch hbatch obj hobj
      exact h.turn hhash hmarkers htime hobject hvalid
  refine ⟨?_, hbuilt.rules, fun call hcall batch hbatch obj hobj tx x hparse hx hexpired cache block hchain hmem => ?_⟩
  · obtain ⟨done, hscan, -⟩ := hbuilt.scans
    exact ⟨_, hscan⟩
  · refine Bool.eq_false_of_not_eq_true fun hok => ?_
    obtain ⟨b, hb⟩ := isOk_eq_true.1 hok
    simp only [blockValidate, reject_bind_eq_ok, hchain] at hb
    obtain ⟨hrecent, hwitness, hb⟩ := hb
    obtain ⟨hrules, -⟩ := (validateOnChain_eq_ok env view chain block hrecent hwitness).1 ⟨b, hb⟩
    obtain ⟨temp', hscan⟩ := hrules.scan
    exact scanBlock_expired (hpool call hcall batch hbatch obj hobj).1 hparse hx hexpired hmem hscan

section Example

/-- The payment claim of `latePayment` as an object, with the bytes of its proof of work. -/
def paymentObject : List UInt8 := [73, 0, 0, 0, 1, 0, 0x18, 0xCC] ++ List.replicate 48 0 ++ latePayment.drop 8

/-- A node while the match is open. -/
def openView : BlockView := { paidView with db := matchDb .accepted }

/-- A call that fetches the claim twice. -/
def paymentCalls : List (BuildArgs × List (List (List UInt8))) := [(⟨1, 0, false⟩, [[paymentObject, paymentObject]])]

/-- The witness selects the claim once, and its block passes the scan and the rules. -/
theorem newBlock_agrees_payment :
    (newBlock (payingEnv (mainnetMiningStart + 60)).toEnv openView ⟨soleBlock 0 mainnetMiningStart, []⟩
      paymentCalls).txs = [latePayment] ∧
    (∃ temp', scanBlock (payingEnv (mainnetMiningStart + 60)) openView ⟨soleBlock 0 mainnetMiningStart, []⟩ []
      [latePayment] = .ok temp') ∧
    TimeRules (payingEnv (mainnetMiningStart + 60)) openView ⟨soleBlock 0 mainnetMiningStart, []⟩ latePayment := by
  have htxs : (newBlock (payingEnv (mainnetMiningStart + 60)).toEnv openView ⟨soleBlock 0 mainnetMiningStart, []⟩
      paymentCalls).txs = [latePayment] := by decide +kernel
  have hpool : ∀ call ∈ paymentCalls, ∀ batch ∈ call.2, ∀ obj ∈ batch, IsTxObject obj ∧
      EverValid (payingEnv (mainnetMiningStart + 60)).toEnv openView.db obj := by
    intro call hcall batch hbatch obj hobj
    obtain rfl := List.mem_singleton.1 hcall
    obtain rfl := List.mem_singleton.1 hbatch
    obtain rfl : obj = paymentObject := by simpa using hobj
    obtain ⟨_, hvalid⟩ := isOk_eq_true.1 (show (txValidate (payingEnv (mainnetMiningStart + 60)).toEnv
      openView.toNodeView (mainnetMiningStart + 60) false paymentObject).isOk = true by decide +kernel)
    exact ⟨⟨by decide, by decide, by decide, by decide⟩, ⟨openView.toNodeView, mainnetMiningStart + 60, false, .refl _⟩,
      hvalid⟩
  have hagrees := newBlock_agrees (payingEnv (mainnetMiningStart + 60)) openView ⟨soleBlock 0 mainnetMiningStart, []⟩
    paymentCalls [] ⟨fun _ _ => 0, fun _ => rfl⟩ ⟨fun _ hrow => (by cases hrow), by decide⟩ (by decide) hpool
    (fun _ hrow => (by cases hrow))
  rw [htxs] at hagrees
  exact ⟨htxs, hagrees.1, hagrees.2.1 latePayment (List.mem_singleton.2 rfl)⟩

end Example

end CredaCash.Chain
