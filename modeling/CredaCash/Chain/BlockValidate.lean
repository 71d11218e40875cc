import CredaCash.Chain.TxValidate

/-! Validation of a block against its chain, the serial numbers of earlier blocks and the transactions
that are known to be valid. -/

namespace CredaCash.Chain
open Wire Checks

def maxNwitnesses : ℕ := 21
def maxNconfsigs : ℕ := maxNwitnesses + (maxNwitnesses - 1) / 2
def blockPruneRounds : ℕ := 5
def txMaxSize : ℕ := 512*1024 - 128

/-- `TEMP_SERIALS_PROCESS_BLOCKP`. -/
def processBlockp : ℕ := 1
/-- `TEMP_SERIALS_WITNESS_BLOCKP`. -/
def witnessBlockp : ℕ := 2

/-- A block: its address, its wire header, its transactions cut by their size words, the number of
bytes that are left after them, and what a node derives from its prior block. -/
structure Block where
  bufp : ℕ
  oid : ℕ
  priorOid : ℕ
  level : ℕ
  timestamp : ℕ
  witness : ℕ
  txs : List (List UInt8) := []
  extraBytes : ℕ := 0
  skip : ℕ := 0
  nwitnesses : ℕ := 0
  maxmal : ℕ := 0
  nconfsigs : ℕ := 0
  nseqconfsigs : ℕ := 0
  nskipconfsigs : ℕ := 0
  nextNwitnesses : ℕ := 0
  nextMaxmal : ℕ := 0
  deriving DecidableEq

/-- A block with its prior blocks, the newest first. -/
structure BlockChain where
  tip : Block
  priors : List Block
  deriving DecidableEq

def BlockChain.blocks (c : BlockChain) : List Block := c.tip :: c.priors

def setConfSigs (b : Block) : Block :=
  let nwitnesses := Nat.max b.nwitnesses 1
  let maxmal := if (nwitnesses + 1) / 2 ≤ b.maxmal then (nwitnesses - 1) / 2 else b.maxmal
  let nconfsigs := (nwitnesses - maxmal) / 2 + maxmal + 1
  let nskipconfsigs := nwitnesses + maxmal
  { b with
    nwitnesses := nwitnesses
    maxmal := maxmal
    nconfsigs := Nat.min nconfsigs maxNconfsigs
    nseqconfsigs := Nat.min (if maxmal ≠ 0 then nskipconfsigs else nconfsigs) maxNconfsigs
    nskipconfsigs := Nat.min nskipconfsigs maxNconfsigs }

/-- `Block::ComputeSkip`, in 32-bit arithmetic. -/
def computeSkip (prevWitness nextWitness nwitnesses : ℕ) : ℕ :=
  (nextWitness + 2^32 - (prevWitness + 1) % nwitnesses + nwitnesses) % 2^32 % nwitnesses

def chainToPriorBlock (prior b : Block) : Block :=
  let b := setConfSigs { b with nwitnesses := prior.nextNwitnesses, maxmal := prior.nextMaxmal
                                nextNwitnesses := prior.nextNwitnesses, nextMaxmal := prior.nextMaxmal }
  { b with skip := computeSkip prior.witness b.witness b.nwitnesses }

section
variable (prior b : Block)

lemma chainToPriorBlock_level : (chainToPriorBlock prior b).level = b.level := by
  unfold chainToPriorBlock setConfSigs
  rfl

@[simp] lemma chainToPriorBlock_txs : (chainToPriorBlock prior b).txs = b.txs := by
  unfold chainToPriorBlock setConfSigs
  rfl

@[simp] lemma chainToPriorBlock_witness : (chainToPriorBlock prior b).witness = b.witness := by
  unfold chainToPriorBlock setConfSigs
  rfl

@[simp] lemma chainToPriorBlock_timestamp : (chainToPriorBlock prior b).timestamp = b.timestamp := by
  unfold chainToPriorBlock setConfSigs
  rfl

@[simp] lemma chainToPriorBlock_extraBytes : (chainToPriorBlock prior b).extraBytes = b.extraBytes := by
  unfold chainToPriorBlock setConfSigs
  rfl

end

/-- The loop of `CheckBadSigOrder`: the sum of the skips of the last blocks, none if the chain ends too
early or its levels have a gap. -/
def skipSum : ℕ → Block → List Block → Option ℕ
  | 0, _, _ => some 0
  | _+1, b, [] => if b.level ≠ 0 then none else some b.skip
  | n+1, b, prior :: rest =>
    if prior.level ≠ (b.level + 2^64 - 1) % 2^64 then none
    else (skipSum n prior rest).map (b.skip + ·)

/-- `Block::CheckBadSigOrder(-1)`. -/
def checkBadSigOrder (b : Block) (priors : List Block) : Bool :=
  match skipSum b.nconfsigs b priors with
  | none => true
  | some sum => b.nwitnesses < sum + b.nconfsigs

/-- A row of `Temp_Serials`. -/
structure TempSerialnum where
  serialnum : ℕ
  blockp : ℕ
  level : ℕ := 0
  deriving DecidableEq

/-- `BlockInChain`: the search for a block, which ends at the level of the last indelible block. -/
def blockInChain (findBlock lastIndelibleLevel : ℕ) : List Block → Bool
  | [] => false
  | b :: rest =>
    if b.bufp = findBlock then true
    else if b.level ≤ lastIndelibleLevel then false
    else blockInChain findBlock lastIndelibleLevel rest

/-- `CheckSerialnum` with the rows of `Temp_Serials` in their order: 4 if the serial number is spent in
the persistent database, 2 if in the block at hand, 3 if in a block of the chain. -/
def checkSerialnum (db : PersistentDb) (temp : List TempSerialnum) (lastIndelibleLevel : ℕ)
    (topblock : List Block) (type serialnum : ℕ) : ℤ :=
  if (db.serialnumSelect serialnum).isSome then 4
  else
    ((temp.filter (·.serialnum = serialnum)).findSome? fun row =>
      if row.blockp = type then some 2
      else if blockInChain row.blockp lastIndelibleLevel topblock then some 3
      else none).getD 0

/-- The parameters of a node with its clock and the check of signatures. -/
structure BlockEnv extends Env where
  unixtime : ℕ
  badSignature : Block → Bool

/-- What a node has at hand when it validates a block: besides its database the valid blocks with their
chains, the serial numbers of blocks that are not indelible, and the transactions that are requests in
its exchange table. -/
structure BlockView extends NodeView where
  lastIndelibleBlock : Option Block := none
  startupPruneLevel : ℕ := 0
  validBlocks : List BlockChain := []
  tempSerialnums : List TempSerialnum := []
  xreqs : List (List UInt8) := []

def computePruneLevel (lastIndelibleBlock : Option Block) (startupPruneLevel minLevel trailingRounds : ℕ) : ℕ :=
  let pruneLevel := match lastIndelibleBlock with
    | some b => b.level - trailingRounds * b.nwitnesses
    | none => 0
  Nat.max (Nat.max pruneLevel minLevel) startupPruneLevel

section
variable (env : BlockEnv) (view : BlockView) (chain : BlockChain)

/-- What `BlockValidate` checks again for an exchange request. -/
def recheckXreq (x : Xreq) : Except Failure Unit := do
  reject (chain.tip.timestamp + xreqMaxExpireTime < x.expireTime) (.rc (-1))
  reject (x.expireTime ≤ chain.tip.timestamp + x.holdTime + xreqMinPostholdTime) (.rc (-1))
  reject (x.foreignAddress ≠ "" ∧
    view.db.xmatchingreqForeignAddressSelect chain.tip.timestamp x.quoteAsset x.foreignAddress = true) (.rc (-1))

/-- What `BlockValidate` checks again for a payment claim. -/
def recheckXpay (xpay : Xpay) : Except Failure Unit := do
  reject (xpay.matchTimestamp = 0) (.rc (-1))
  reject (xpay.paymentTime = 0) (.rc (-1))
  reject (xpay.matchTimestamp + xpay.paymentTime < chain.tip.timestamp) (.rc (-1))

/-- A request that does not parse is only met when its fields are read. -/
def recheckXtx (tx : TxPay) (xtx : Option Xtx) : Except Failure Unit :=
  match xtx with
  | some (.xreq x) => recheckXreq view chain x
  | some (.xpay xpay) => recheckXpay chain xpay
  | none => reject (tx.tagType.isXreq = true) (.exception "null xreq")

/-- The serial numbers of a transaction are checked and inserted one after the other. -/
def insertSerialnums (temp : List TempSerialnum) : List TxIn → Except Failure (List TempSerialnum)
  | [] => .ok temp
  | txin :: rest => do
    reject (checkSerialnum view.db temp ((view.lastIndelibleBlock.map (·.level)).getD 0) chain.blocks
      processBlockp txin.serialnum ≠ 0) (.rc 1)
    insertSerialnums (temp ++ [{ serialnum := txin.serialnum, blockp := processBlockp }]) rest

/-- `ExtractTx` fails: the size or the type of an object is invalid. -/
def extractTxFails (tx : TxPay) (wire : List UInt8) : Bool :=
  wire.length < 8 || !typeSupported tx.tagType || txMaxSize < txSize wire - 8

/-- The first scan of a transaction of a block. -/
def scanTx (temp : List TempSerialnum) (wire : List UInt8) : Except Failure (List TempSerialnum) :=
  match (txFromWire env.blake2s wire {}).1 with
  | .error _ => .error (.rc (-1))
  | .ok tx => do
    let xtx := extractXtxWithMatch env.toEnv view.db tx
    reject (xtx = none ∧ extractXtxFailed tx true = true) (.rc (-1))
    recheckXtx view chain tx xtx
    let temp ← insertSerialnums view chain temp (pseudoSerialnum env.toEnv tx xtx wire false).inputs
    reject (extractTxFails tx wire = true) (.rc (-1))
    return temp

/-- The first scan of a block; what an earlier block left under its address is deleted first. -/
def scanBlock : List TempSerialnum → List (List UInt8) → Except Failure (List TempSerialnum)
  | temp, [] => .ok temp
  | temp, wire :: rest => do
    let temp ← scanTx env view chain temp wire
    scanBlock temp rest

lemma scanBlock_append (txs : List (List UInt8)) (wire : List UInt8) (temp : List TempSerialnum) :
    scanBlock env view chain temp (txs ++ [wire]) =
      scanBlock env view chain temp txs >>= fun temp => scanTx env view chain temp wire := by
  induction txs generalizing temp with
  | nil =>
    simp only [List.nil_append, scanBlock]
    change _ = scanTx env view chain temp wire
    generalize scanTx env view chain temp wire = result
    cases result with
    | error e => rfl
    | ok temp => rfl
  | cons tx txs ih =>
    simp only [List.cons_append, scanBlock]
    generalize scanTx env view chain temp tx = result
    cases result with
    | error e => rfl
    | ok temp => exact ih temp

/-- A transaction is known to be valid: it was so before, or the validation threads found it valid at
the time of the last indelible block while the block was scanned. -/
def knownValid (cache : List (List UInt8)) (wire : List UInt8) : Bool :=
  wire ∈ cache || (wire ∉ view.xreqs && (txValidate env.toEnv view.toNodeView 0 false wire).isOk)

/-- The second scan: a transaction that is not known to be valid is validated at the time of the prior
block. -/
def validateTx (cache : List (List UInt8)) (wire : List UInt8) : Except Failure Unit :=
  reject (knownValid env view cache wire = false ∧
    (txValidate env.toEnv view.toNodeView chain.tip.timestamp true wire).isOk = false) (.rc (-1))

/-- The checks of a block on the chain of its prior block. -/
def validateOnChain (cache : List (List UInt8)) (block : Block) : Except Failure Block := do
  let block := chainToPriorBlock chain.tip block
  reject (chain.tip.nextNwitnesses ≤ block.witness) (.rc (-1))
  reject (checkBadSigOrder block chain.blocks = true) (.rc (-1))
  reject (env.badSignature block = true) (.rc (-1))
  reject (env.blockFutureTolerance < (block.timestamp : ℤ) - env.unixtime) (.rc (-1))
  let _ ← scanBlock env view chain (view.tempSerialnums.filter fun row =>
    !(row.blockp = processBlockp && row.level = 0)) block.txs
  reject (block.extraBytes ≠ 0) (.rc (-1))
  block.txs.forM (validateTx env view chain cache)
  return block

/-- `ProcessBlock::BlockValidate`, with the transactions that are in the cache of valid objects. -/
def blockValidate (cache : List (List UInt8)) (block : Block) : Except Failure Block := do
  reject (block.level < computePruneLevel view.lastIndelibleBlock view.startupPruneLevel 1 blockPruneRounds)
    (.rc 1)
  reject (maxNwitnesses ≤ block.witness) (.rc (-1))
  match view.validBlocks.find? (·.tip.oid = block.priorOid) with
  | none => .error (.rc 2)
  | some chain => validateOnChain env view chain cache block

end

end CredaCash.Chain
