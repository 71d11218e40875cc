import CredaCash.Chain.Confirmations
import CredaCash.Chain.SpentSerialnums

/-! The two threads that enter blocks onto the blockchain: one validates blocks, the other one builds them as a
witness. They share the databases, and each step is what a thread does between two of its accesses to them. -/

namespace CredaCash.Chain
open Wire Checks

def blockArraySize : ℕ := 100

/-- The threads of `ProcessBlock` and of `Witness`. -/
inductive BlockThread
  | process | witness
  deriving DecidableEq

namespace BlockThread

/-- The address that stands for the block at hand in `Temp_Serials`. -/
def blockp : BlockThread → ℕ
  | process => processBlockp
  | witness => witnessBlockp

def other : BlockThread → BlockThread
  | process => witness
  | witness => process

end BlockThread

/-- What a thread does with a serial number of the transaction at hand. -/
inductive SerialOp
  | check (serialnum : ℕ)
  | insert (serialnum : ℕ)
  deriving DecidableEq

/-- `BlockValidate` inserts each serial number after its check, a witness checks all of them first. -/
def BlockThread.ops (serialnums : List ℕ) : BlockThread → List SerialOp
  | process => serialnums.flatMap fun s => [.check s, .insert s]
  | witness => serialnums.map .check ++ serialnums.map .insert

/-- How far `CheckSerialnum` has come: with its snapshot of the last indelible block, and with the last address that
`TempSerialnumSelect` gave. -/
inductive CheckProgress
  | start
  | snapshot (lastIndelible : ScannedChain)
  | temp (lastIndelible : ScannedChain) (lastBlockp : Option ℕ)

/-- A block that is put together from its transactions; one that is validated was received. -/
structure BlockTask where
  prior : ScannedChain
  received : Option Block
  txs : List ScannedTx := []

/-- Where a thread is. -/
inductive ThreadPhase
  | idle
  /-- Between two transactions. -/
  | scan (task : BlockTask)
  | spend (task : BlockTask) (tx : ScannedTx) (ops : List SerialOp) (progress : CheckProgress)
  /-- After `TempSerialnumUpdate`. -/
  | updated (chain : ScannedChain)
  /-- After `ValidObjsInsert`. -/
  | inserted (chain : ScannedChain)
  /-- `DoConfirmOne` waits for the write lock, to make a block indelible. -/
  | waiting (chain next : ScannedChain)
  /-- In a write transaction, with the database as it will be committed. -/
  | writing (chain : ScannedChain) (db : PersistentDb)
  | committed
  | confirmed
  | pruning (level : ℕ)

/-- What the threads share: the persistent database as it was committed, `Temp_Serials`, the blocks that were put into
the valid objects since the start, the chains of the last indelible block and of the last block that is
`marked_for_indelible`, and who has the write lock. -/
structure SharedState where
  db : PersistentDb
  temp : List TempSerialnum := []
  chains : List ScannedChain
  indelible : ScannedChain
  marked : ScannedChain
  startupPruneLevel : ℕ := 0
  writer : Option BlockThread := none

namespace SharedState
variable (sh : SharedState)

/-- What a thread has at hand when it reads transactions. -/
def view : BlockView where
  db := sh.db
  lastIndelibleTimestamp := sh.indelible.tip.block.timestamp
  lastIndelibleBlock := some sh.indelible.tip.block
  startupPruneLevel := sh.startupPruneLevel
  validBlocks := sh.chains.map ScannedChain.toBlockChain
  tempSerialnums := sh.temp

/-- What `DoConfirmOne` sees of the marks. -/
def confirmState : ConfirmState where
  marked := chainNodes sh.marked.tip.block (sh.marked.priors.map (·.block))
  lastIndelibleBlock := some sh.indelible.tip.block

/-- The level below which `Temp_Serials` is pruned once a block is the last indelible one. -/
def pruneLevel (indelible : ScannedChain) : ℕ :=
  computePruneLevel (some indelible.tip.block) sh.startupPruneLevel 0 (blockPruneRounds + 2)

end SharedState

/-- `TempSerialnumSelect`: the blocks of a serial number after a given one, in the order of the table's key. -/
def tempSerialnumSelect (keyOrder : ℕ ↪ ℕ) (temp : List TempSerialnum) (serialnum : ℕ) (lastBlockp : Option ℕ) :
    List ℕ :=
  ((temp.filter fun row => row.serialnum = serialnum && lastBlockp.all (keyOrder · < keyOrder row.blockp)).map
    (·.blockp)).insertionSort fun p q => keyOrder p ≤ keyOrder q

/-- `ChainToPriorBlock`, with the change of the witnesses at the end of the mint. -/
def SpendWorld.chainBlock (w : SpendWorld) (prior b : Block) : Block :=
  let b := chainToPriorBlock prior b
  if w.mintEnd = some b.level then { b with nextNwitnesses := w.genesisNwitnesses, nextMaxmal := w.genesisMaxmal }
  else b

/-- `SetNewlyIndelibleBlock` after its check of the sequence: `IndexTxs`, and what follows it leaves the serial numbers
alone. New matches are made of open requests only, so that no row comes back once `PruneMatchingReqs` has deleted it. -/
def SpendWorld.Indexes (w : SpendWorld) (db : PersistentDb) (b : Block) (db' : PersistentDb) : Prop :=
  ∃ commitnum db₁ credited, indexTxs w.env.toEnv commitnum db b.txs = .ok (db₁, credited) ∧
    db'.serialnums = db₁.serialnums ∧ db₁.Ages db'

/-- A page of `TempSerialnumSelect` gives no reason to reject a serial number. -/
def PageFree (thread : BlockThread) (prior lastIndelible : ScannedChain) (page : List ℕ) : Prop :=
  ∀ p ∈ page, p ≠ thread.blockp ∧ blockInChain p lastIndelible.tip.block.level prior.toBlockChain.blocks = false

/-- The steps of a thread. A thread may stop at any of them, as it does at a fatal error. -/
inductive ThreadStep (w : SpendWorld) : BlockThread → SharedState → ThreadPhase → SharedState → ThreadPhase → Prop
  /-- `BlockValidate` begins with a block whose prior block is valid; `TempSerialnumClear` may fail. -/
  | validate {sh : SharedState} (prior : ScannedChain) (received : Block) (temp : List TempSerialnum)
      (hprior : prior ∈ sh.chains) (hlink : prior.tip.block.oid = received.priorOid)
      (hlevel : computePruneLevel (some sh.indelible.tip.block) sh.startupPruneLevel 1 blockPruneRounds ≤
        received.level) (hword : received.level < 2^64)
      (horder : checkBadSigOrder (w.chainBlock prior.tip.block received) prior.toBlockChain.blocks = false)
      (htemp : temp = sh.temp ∨ temp = tempSerialnumClear sh.temp processBlockp) :
      ThreadStep w .process sh .idle { sh with temp := temp } (.scan ⟨prior, some received, []⟩)
  /-- A witness begins a block, also when it has not finished an earlier one. -/
  | startNewBlock {sh : SharedState} {phase : ThreadPhase} (prior : ScannedChain) (temp : List TempSerialnum)
      (hphase : phase = .idle ∨ ∃ task, phase = .scan task) (hprior : prior ∈ sh.chains)
      (htemp : temp = sh.temp ∨ temp = tempSerialnumClear sh.temp witnessBlockp) :
      ThreadStep w .witness sh phase { sh with temp := temp } (.scan ⟨prior, none, []⟩)
  /-- The next transaction of a block is read. -/
  | scanTx {sh : SharedState} {task : BlockTask} (received : Block) (wire : List UInt8) (tx : TxPay)
      (hreceived : task.received = some received) (hnext : task.txs.map (·.wire) ++ [wire] <+: received.txs)
      (hparse : (txFromWire w.env.blake2s wire {}).1 = .ok tx)
      (hextract : ¬ (extractXtxWithMatch w.env.toEnv sh.db tx = none ∧ extractXtxFailed tx true = true))
      (hrecheck : recheckXtx sh.view task.prior.toBlockChain tx (extractXtxWithMatch w.env.toEnv sh.db tx) = .ok ()) :
      ThreadStep w .process sh (.scan task) sh (.spend task (scannedTx w.env.toEnv sh.db wire)
        (BlockThread.process.ops (scannedTx w.env.toEnv sh.db wire).serialnums) .start)
  /-- A witness takes a transaction for its block. -/
  | selectTx {sh : SharedState} {task : BlockTask} (obj : List UInt8) (tx : TxPay) (args : BuildArgs)
      (hreceived : task.received = none) (hobj : IsTxObject obj)
      (hparse : (txFromWire w.env.blake2s obj {}).1 = .ok tx)
      (hkeeps : skipsTx sh.view task.prior.toBlockChain args tx (extractXtxWithMatch w.env.toEnv sh.db tx) = false) :
      ThreadStep w .witness sh (.scan task) sh (.spend task (scannedTx w.env.toEnv sh.db (blockForm obj))
        (BlockThread.witness.ops (spends w.env.toEnv sh.view obj tx)) .start)
  | checkSnapshot {thread : BlockThread} {sh : SharedState} {task : BlockTask} {tx : ScannedTx} {s : ℕ}
      {ops : List SerialOp} :
      ThreadStep w thread sh (.spend task tx (.check s :: ops) .start) sh
        (.spend task tx (.check s :: ops) (.snapshot sh.indelible))
  | checkPersistent {thread : BlockThread} {sh : SharedState} {task : BlockTask} {tx : ScannedTx} {s : ℕ}
      {ops : List SerialOp} {lastIndelible : ScannedChain} (hselect : sh.db.serialnumSelect s = none) :
      ThreadStep w thread sh (.spend task tx (.check s :: ops) (.snapshot lastIndelible)) sh
        (.spend task tx (.check s :: ops) (.temp lastIndelible none))
  /-- A full page of `Temp_Serials` is checked, and there is more. -/
  | checkPage {thread : BlockThread} {sh : SharedState} {task : BlockTask} {tx : ScannedTx} {s : ℕ}
      {ops : List SerialOp} {lastIndelible : ScannedChain} {lastBlockp : Option ℕ}
      (hmore : blockArraySize < (tempSerialnumSelect w.keyOrder sh.temp s lastBlockp).length)
      (hfree : PageFree thread task.prior lastIndelible
        ((tempSerialnumSelect w.keyOrder sh.temp s lastBlockp).take blockArraySize)) :
      ThreadStep w thread sh (.spend task tx (.check s :: ops) (.temp lastIndelible lastBlockp)) sh
        (.spend task tx (.check s :: ops) (.temp lastIndelible
          ((tempSerialnumSelect w.keyOrder sh.temp s lastBlockp).take blockArraySize).getLast?))
  /-- The last page is checked, and `CheckSerialnum` returns 0. -/
  | checkLastPage {thread : BlockThread} {sh : SharedState} {task : BlockTask} {tx : ScannedTx} {s : ℕ}
      {ops : List SerialOp} {lastIndelible : ScannedChain} {lastBlockp : Option ℕ}
      (hfree : PageFree thread task.prior lastIndelible (tempSerialnumSelect w.keyOrder sh.temp s lastBlockp)) :
      ThreadStep w thread sh (.spend task tx (.check s :: ops) (.temp lastIndelible lastBlockp)) sh
        (.spend task tx ops .start)
  | insert {thread : BlockThread} {sh : SharedState} {task : BlockTask} {tx : ScannedTx} {s : ℕ}
      {ops : List SerialOp} (temp : List TempSerialnum)
      (hinsert : tempSerialnumInsert sh.temp s thread.blockp = some temp) :
      ThreadStep w thread sh (.spend task tx (.insert s :: ops) .start) { sh with temp := temp }
        (.spend task tx ops .start)
  | addTx {thread : BlockThread} {sh : SharedState} {task : BlockTask} {tx : ScannedTx} :
      ThreadStep w thread sh (.spend task tx [] .start) sh (.scan { task with txs := task.txs ++ [tx] })
  /-- A witness leaves out a transaction with a serial number that is spent, or whose insertion fails. -/
  | skipTx {sh : SharedState} {task : BlockTask} {tx : ScannedTx} {ops : List SerialOp} {progress : CheckProgress} :
      ThreadStep w .witness sh (.spend task tx ops progress) sh (.scan task)
  /-- The transactions of a block are valid. -/
  | validated {sh : SharedState} {task : BlockTask} (received : Block) (hreceived : task.received = some received)
      (htxs : task.txs.map (·.wire) = received.txs) :
      ThreadStep w .process sh (.scan task)
        { sh with temp := tempSerialnumUpdate sh.temp processBlockp received.bufp received.level }
        (.updated ⟨⟨w.chainBlock task.prior.tip.block received, task.txs⟩, task.prior.blocks⟩)
  /-- `FinishNewBlock`. -/
  | finishNewBlock {sh : SharedState} {task : BlockTask} (b : Block) (hreceived : task.received = none)
      (htxs : task.txs.map (·.wire) = b.txs) (hlevel : b.level = task.prior.tip.block.level + 1) :
      ThreadStep w .witness sh (.scan task)
        { sh with temp := tempSerialnumUpdate sh.temp witnessBlockp b.bufp b.level }
        (.updated ⟨⟨w.chainBlock task.prior.tip.block b, task.txs⟩, task.prior.blocks⟩)
  /-- A block is not valid, or an update fails. -/
  | giveUp {thread : BlockThread} {sh : SharedState} {phase : ThreadPhase}
      (hphase : (∃ task, phase = .scan task) ∨ (∃ task tx ops progress, phase = .spend task tx ops progress) ∨
        ∃ chain, phase = .updated chain) : ThreadStep w thread sh phase sh .idle
  | validObjsInsert {thread : BlockThread} {sh : SharedState} {chain : ScannedChain} :
      ThreadStep w thread sh (.updated chain) { sh with chains := chain :: sh.chains } (.inserted chain)
  /-- `DoConfirmOne` finds nothing to do. -/
  | confirmNone {thread : BlockThread} {sh : SharedState} {chain : ScannedChain}
      (hscan : confirmScan sh.confirmState chain.toBlockChain = .none) :
      ThreadStep w thread sh (.inserted chain) sh .idle
  | confirmFound {thread : BlockThread} {sh : SharedState} {chain next : ScannedChain} (nconfsigs : ℕ)
      (hscan : confirmScan sh.confirmState chain.toBlockChain = .found nconfsigs next.toBlockChain)
      (hnext : next.blocks <:+ chain.blocks) :
      ThreadStep w thread sh (.inserted chain) sh (.waiting chain next)
  /-- The other thread has made the block indelible in the meantime. -/
  | alreadyMarked {thread : BlockThread} {sh : SharedState} {chain next : ScannedChain} (hlock : sh.writer = none)
      (hmarked : next.toBlockChain ∈ sh.confirmState.marked) :
      ThreadStep w thread sh (.waiting chain next) sh .idle
  /-- `BeginWrite`, and the first block is indexed, if it follows the last indelible one. -/
  | beginWrite {thread : BlockThread} {sh : SharedState} {chain next : ScannedChain} (db : PersistentDb)
      (hlock : sh.writer = none) (hmarked : next.toBlockChain ∉ sh.confirmState.marked)
      (hsequence : next.priors = sh.marked.blocks) (hindex : w.Indexes sh.db next.tip.block db) :
      ThreadStep w thread sh (.waiting chain next) { sh with marked := next, writer := some thread }
        (.writing chain db)
  | writeNext {thread : BlockThread} {sh : SharedState} {chain next : ScannedChain} {db : PersistentDb}
      (nconfsigs : ℕ) (db' : PersistentDb)
      (hscan : confirmScan sh.confirmState chain.toBlockChain = .found nconfsigs next.toBlockChain)
      (hnext : next.blocks <:+ chain.blocks) (hsequence : next.priors = sh.marked.blocks)
      (hindex : w.Indexes db next.tip.block db') :
      ThreadStep w thread sh (.writing chain db) { sh with marked := next } (.writing chain db')
  /-- `EndWrite`. -/
  | commit {thread : BlockThread} {sh : SharedState} {chain : ScannedChain} {db : PersistentDb}
      (hscan : confirmScan sh.confirmState chain.toBlockChain = .none) :
      ThreadStep w thread sh (.writing chain db) { sh with db := db } .committed
  | setLastIndelible {thread : BlockThread} {sh : SharedState} :
      ThreadStep w thread sh .committed { sh with indelible := sh.marked, writer := none } .confirmed
  | computePruneLevel {thread : BlockThread} {sh : SharedState} :
      ThreadStep w thread sh .confirmed sh (.pruning (sh.pruneLevel sh.indelible))
  /-- `last_pruned_level` is not thread safe, so that a thread may prune whatever it is. -/
  | prune {thread : BlockThread} {sh : SharedState} {level : ℕ} (hthird : level % 3 = 0) :
      ThreadStep w thread sh (.pruning level) { sh with temp := tempSerialnumPruneLevel sh.temp level } .idle
  | keepTemp {thread : BlockThread} {sh : SharedState} {level : ℕ} : ThreadStep w thread sh (.pruning level) sh .idle

/-- A node with its two threads. -/
structure ThreadState where
  shared : SharedState
  phase : BlockThread → ThreadPhase

/-- The steps of a node: those of its threads in any order, and restarts. -/
inductive ThreadsStep (w : SpendWorld) (st : ThreadState) : ThreadState → Prop
  | thread (thread : BlockThread) {shared : SharedState} {phase : ThreadPhase}
      (hstep : ThreadStep w thread st.shared (st.phase thread) shared phase) :
      ThreadsStep w st ⟨shared, Function.update st.phase thread phase⟩
  /-- After a restart only the persistent database is left. -/
  | restart (last : ScannedChain)
      (hlast : (∃ thread, st.phase thread = .committed) ∧ last = st.shared.marked ∨
        (∀ thread, st.phase thread ≠ .committed) ∧ last = st.shared.indelible) :
      ThreadsStep w st ⟨{ db := st.shared.db, chains := [last], indelible := last, marked := last
                          startupPruneLevel := last.tip.block.level }, fun _ => .idle⟩

/-- The block of `SetGenesisBlock`, with the parameters of the genesis data, or with those of the mint before them. -/
structure SpendWorld.Genesis (w : SpendWorld) (genesis : Block) : Prop where
  level : genesis.level = 0
  txs : genesis.txs = []
  confSigs : setConfSigs genesis = genesis
  nwitnesses : genesis.nwitnesses ≤ genesis.nextNwitnesses ∧ genesis.nextNwitnesses ≤ w.genesisNwitnesses
  maxmal : genesis.maxmal ≤ genesis.nextMaxmal ∧ genesis.nextMaxmal ≤ w.genesisMaxmal

/-- The states that a node reaches from its genesis block; the history file may have serial numbers. -/
inductive ThreadsRun (w : SpendWorld) : ThreadState → Prop
  | start (genesis : Block) (db : PersistentDb) (hgenesis : w.Genesis genesis) :
      ThreadsRun w ⟨{ db := db, chains := [⟨⟨genesis, []⟩, []⟩], indelible := ⟨⟨genesis, []⟩, []⟩
                      marked := ⟨⟨genesis, []⟩, []⟩ }, fun _ => .idle⟩
  | step {st st' : ThreadState} (hrun : ThreadsRun w st) (hstep : ThreadsStep w st st') : ThreadsRun w st'

end CredaCash.Chain
