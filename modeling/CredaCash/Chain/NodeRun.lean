import CredaCash.Chain.SigOrder
import CredaCash.Chain.TxCache

/-! A node that validates blocks, makes them indelible and forgets what it no longer needs: what its tables of
serial numbers hold of the chains that it knows. -/

namespace CredaCash.Chain
open Wire Checks

/-- A transaction as the scan of its block saw it: its exchange data, and its serial numbers. -/
structure ScannedTx where
  wire : List UInt8
  xtx : Option Xtx
  serialnums : List ℕ
  deriving DecidableEq

def scannedTx (env : Env) (db : PersistentDb) (wire : List UInt8) : ScannedTx :=
  match (txFromWire env.blake2s wire {}).1 with
  | .error _ => ⟨wire, none, []⟩
  | .ok tx =>
    let xtx := extractXtxWithMatch env db tx
    ⟨wire, xtx, (pseudoSerialnum env tx xtx wire false).inputs.map (·.serialnum)⟩

structure ScannedBlock where
  block : Block
  txs : List ScannedTx
  deriving DecidableEq

/-- A valid block with its prior blocks, the newest first, as they were scanned. -/
structure ScannedChain where
  tip : ScannedBlock
  priors : List ScannedBlock
  deriving DecidableEq

def ScannedChain.blocks (c : ScannedChain) : List ScannedBlock := c.tip :: c.priors

def ScannedChain.toBlockChain (c : ScannedChain) : BlockChain := ⟨c.tip.block, c.priors.map (·.block)⟩

@[simp] lemma ScannedChain.toBlockChain_blocks (c : ScannedChain) :
    c.toBlockChain.blocks = c.blocks.map (·.block) := rfl

/-- `TempSerialnumUpdate` of the rows that the scan of a block left under `TEMP_SERIALS_PROCESS_BLOCKP`. -/
def tempSerialnumUpdate (temp : List TempSerialnum) (oldBlockp newBlockp level : ℕ) : List TempSerialnum :=
  temp.map fun row => if row.blockp = oldBlockp ∧ row.level = 0 then { row with blockp := newBlockp, level := level }
    else row

def tempSerialnumClear (temp : List TempSerialnum) (blockp : ℕ) : List TempSerialnum :=
  temp.filter fun row => !(row.blockp = blockp && row.level = 0)

def tempSerialnumPruneLevel (temp : List TempSerialnum) (level : ℕ) : List TempSerialnum :=
  temp.filter fun row => !(0 < row.level && row.level < level)

/-- The row of a serial number in a block that is being validated. -/
def processRow (serialnum : ℕ) : TempSerialnum where
  serialnum := serialnum
  blockp := processBlockp

section Scan
variable {env : BlockEnv} {view : BlockView} {chain : BlockChain} {temp temp' : List TempSerialnum}

lemma blockInChain_eq_true {find level : ℕ} {above : List Block} {b : Block} {below : List Block}
    (habove : ∀ c ∈ above, level < c.level) (hb : b.bufp = find) :
    blockInChain find level (above ++ b :: below) = true := by
  induction above with
  | nil => rw [List.nil_append, blockInChain, if_pos hb]
  | cons c above ih =>
    rw [List.cons_append, blockInChain]
    split_ifs with hfind hlevel
    · rfl
    · exact absurd (habove c (List.mem_cons_self ..)) (not_lt.2 hlevel)
    · exact ih fun d hd => habove d (List.mem_cons_of_mem _ hd)

/-- A serial number is accepted when it is neither in the persistent database, nor in a row of the block at hand or of
a block of the chain. -/
lemma checkSerialnum_eq_zero {db : PersistentDb} {level : ℕ} {topblock : List Block} {type serialnum : ℕ} :
    checkSerialnum db temp level topblock type serialnum = 0 ↔ db.serialnumSelect serialnum = none ∧
      ∀ row ∈ temp, row.serialnum = serialnum → row.blockp ≠ type ∧
        blockInChain row.blockp level topblock = false := by
  unfold checkSerialnum
  cases hselect : db.serialnumSelect serialnum with
  | some row => simp
  | none =>
    simp only [Option.isSome_none, Bool.false_eq_true, if_false, true_and]
    constructor
    · intro h row hrow hserial
      by_contra hfound
      cases hsome : (temp.filter (·.serialnum = serialnum)).findSome? fun row =>
          if row.blockp = type then some (2 : ℤ) else if blockInChain row.blockp level topblock then some 3
          else none with
      | none =>
        have hnone := List.findSome?_eq_none_iff.1 hsome row (List.mem_filter.2 ⟨hrow, by simpa using hserial⟩)
        split_ifs at hnone with htype hchain
        exact hfound ⟨htype, by simpa using hchain⟩
      | some rc =>
        rw [hsome] at h
        obtain ⟨row', -, hrc⟩ := List.exists_of_findSome?_eq_some hsome
        split_ifs at hrc <;> obtain rfl := Option.some.inj hrc <;> cases h
    · intro h
      rw [List.findSome?_eq_none_iff.2]
      · rfl
      · intro row hrow
        obtain ⟨hmem, hserial⟩ := List.mem_filter.1 hrow
        obtain ⟨htype, hchain⟩ := h row hmem (by simpa using hserial)
        rw [if_neg htype, hchain]
        rfl

/-- A serial number that the scan of a block accepts. -/
def Fresh (view : BlockView) (chain : BlockChain) (temp : List TempSerialnum) (serialnum : ℕ) : Prop :=
  checkSerialnum view.db temp ((view.lastIndelibleBlock.map (·.level)).getD 0) chain.blocks processBlockp
    serialnum = 0

lemma Fresh.of_append {more : List TempSerialnum} {serialnum : ℕ}
    (h : Fresh view chain (temp ++ more) serialnum) : Fresh view chain temp serialnum := by
  obtain ⟨hdb, hrows⟩ := checkSerialnum_eq_zero.1 h
  exact checkSerialnum_eq_zero.2 ⟨hdb, fun row hrow => hrows row (List.mem_append_left _ hrow)⟩

lemma Fresh.not_mem {serialnums : List ℕ} {serialnum : ℕ}
    (h : Fresh view chain (temp ++ serialnums.map processRow) serialnum) : serialnum ∉ serialnums := by
  intro hmem
  obtain ⟨-, hrows⟩ := checkSerialnum_eq_zero.1 h
  exact (hrows (processRow serialnum) (List.mem_append_right _ (List.mem_map_of_mem hmem)) rfl).1 rfl

lemma Fresh.append {serialnums : List ℕ} {serialnum : ℕ} (h : Fresh view chain temp serialnum)
    (hnew : serialnum ∉ serialnums) : Fresh view chain (temp ++ serialnums.map processRow) serialnum := by
  obtain ⟨hdb, hrows⟩ := checkSerialnum_eq_zero.1 h
  refine checkSerialnum_eq_zero.2 ⟨hdb, fun row hrow hserial => ?_⟩
  rcases List.mem_append.1 hrow with hrow | hrow
  · exact hrows row hrow hserial
  · obtain ⟨s, hs, rfl⟩ := List.mem_map.1 hrow
    exact absurd (hserial ▸ hs) hnew

/-- What a scan adds: a row for each of some serial numbers, which are different and fresh. -/
structure Inserts (view : BlockView) (chain : BlockChain) (temp : List TempSerialnum) (serialnums : List ℕ)
    (temp' : List TempSerialnum) : Prop where
  rows : temp' = temp ++ serialnums.map processRow
  nodup : serialnums.Nodup
  fresh : ∀ s ∈ serialnums, Fresh view chain temp s

lemma Inserts.append {serialnums more : List ℕ} {temp'' : List TempSerialnum}
    (h : Inserts view chain temp serialnums temp') (h' : Inserts view chain temp' more temp'') :
    Inserts view chain temp (serialnums ++ more) temp'' := by
  have hfresh (s) (hs : s ∈ more) : Fresh view chain (temp ++ serialnums.map processRow) s := h.rows ▸ h'.fresh s hs
  refine ⟨?_, List.nodup_append.2 ⟨h.nodup, h'.nodup, ?_⟩, fun s hs => ?_⟩
  · rw [h'.rows, h.rows, List.map_append, List.append_assoc]
  · rintro s hs _ hs' rfl
    exact (hfresh s hs').not_mem hs
  · rcases List.mem_append.1 hs with hs | hs
    · exact h.fresh s hs
    · exact (hfresh s hs).of_append

lemma insertSerialnums_inserts {inputs : List TxIn} (h : insertSerialnums view chain temp inputs = .ok temp') :
    Inserts view chain temp (inputs.map (·.serialnum)) temp' := by
  induction inputs generalizing temp with
  | nil =>
    obtain rfl := Except.ok.inj h
    exact ⟨(List.append_nil _).symm, List.nodup_nil, fun _ hs => (by cases hs)⟩
  | cons txin rest ih =>
    obtain ⟨hfresh, h⟩ := reject_bind_eq_ok.1 h
    have hone : Inserts view chain temp [txin.serialnum] (temp ++ [processRow txin.serialnum]) :=
      ⟨rfl, List.nodup_singleton _, fun s hs => (List.mem_singleton.1 hs) ▸ not_not.1 hfresh⟩
    exact hone.append (ih h)

lemma Inserts.insertSerialnums {inputs : List TxIn} (h : Inserts view chain temp (inputs.map (·.serialnum)) temp') :
    insertSerialnums view chain temp inputs = .ok temp' := by
  induction inputs generalizing temp with
  | nil => exact congrArg Except.ok (h.rows.trans (List.append_nil _)).symm
  | cons txin rest ih =>
    obtain ⟨hnew, hnodup⟩ := List.nodup_cons.1 h.nodup
    refine reject_bind_eq_ok.2 ⟨not_not.2 (h.fresh _ (List.mem_cons_self ..)), ih ⟨?_, hnodup, fun s hs => ?_⟩⟩
    · exact h.rows.trans (List.append_assoc temp [processRow txin.serialnum] _).symm
    · have hne : s ∉ [txin.serialnum] := by
        rintro heq
        obtain rfl := List.mem_singleton.1 heq
        exact hnew hs
      exact (h.fresh s (List.mem_cons_of_mem _ hs)).append hne

lemma scanTx_inserts {wire : List UInt8} (h : scanTx env view chain temp wire = .ok temp') :
    Inserts view chain temp (scannedTx env.toEnv view.db wire).serialnums temp' := by
  unfold scanTx at h
  unfold scannedTx
  generalize (txFromWire env.blake2s wire {}).1 = parsed at h ⊢
  cases parsed with
  | error e => cases h
  | ok tx =>
    simp only at h
    obtain ⟨-, h⟩ := reject_bind_eq_ok.1 h
    obtain ⟨_, -, h⟩ := bind_eq_ok.1 h
    obtain ⟨temp'', hinsert, h⟩ := bind_eq_ok.1 h
    obtain ⟨-, h⟩ := reject_bind_eq_ok.1 h
    obtain rfl := Except.ok.inj h
    exact insertSerialnums_inserts hinsert

lemma scanBlock_inserts {txs : List (List UInt8)} (h : scanBlock env view chain temp txs = .ok temp') :
    Inserts view chain temp (txs.flatMap fun wire => (scannedTx env.toEnv view.db wire).serialnums) temp' := by
  induction txs generalizing temp with
  | nil =>
    obtain rfl := Except.ok.inj h
    exact ⟨(List.append_nil _).symm, List.nodup_nil, fun _ hs => (by cases hs)⟩
  | cons wire rest ih =>
    obtain ⟨temp'', hwire, h⟩ := bind_eq_ok.1 h
    exact (scanTx_inserts hwire).append (ih h)

end Scan

section Valid
variable {env : BlockEnv} {view : BlockView} {chain : BlockChain} {block b : Block} {cache : List (List UInt8)}

lemma chainToPriorBlock_nconfsigs_pos (prior b : Block) : 0 < (chainToPriorBlock prior b).nconfsigs := by
  rw [chainToPriorBlock_nconfsigs]
  exact lt_min (Nat.succ_pos _) (by decide)

/-- The order of signatures is only in order when the levels are. -/
lemma level_lt_of_sigOrder (hpos : 0 < block.level)
    (h : checkBadSigOrder (chainToPriorBlock chain.tip block) chain.blocks = false) : chain.tip.level < block.level := by
  have hsum : skipSum (chainToPriorBlock chain.tip block).nconfsigs (chainToPriorBlock chain.tip block) chain.blocks ≠
      none := by
    intro hnone
    rw [checkBadSigOrder, hnone] at h
    cases h
  obtain ⟨n, hn⟩ := Nat.exists_eq_succ_of_ne_zero (chainToPriorBlock_nconfsigs_pos chain.tip block).ne'
  rw [hn, BlockChain.blocks, skipSum, chainToPriorBlock_level] at hsum
  split_ifs at hsum with hlevel
  · exact absurd rfl hsum
  · have hle (n : ℕ) : (block.level + n - 1) % n ≤ block.level - 1 := by
      rw [show block.level + n - 1 = block.level - 1 + n by omega, Nat.add_mod_right]
      exact Nat.mod_le _ _
    have := (not_not.1 hlevel).trans_le (hle (2^64))
    omega

/-- What holds of a block that `BlockValidate` accepts on a chain. -/
structure ValidOn (env : BlockEnv) (view : BlockView) (cache : List (List UInt8)) (chain : BlockChain)
    (received b : Block) : Prop where
  chained : b = chainToPriorBlock chain.tip received
  level : chain.tip.level < b.level
  scan : ∃ temp, scanBlock env view chain (tempSerialnumClear view.tempSerialnums processBlockp) b.txs = .ok temp
  txs : ∀ wire ∈ b.txs, wire ∈ cache ∨ FreshlyValid env view chain wire

lemma blockValidate_validOn (h : blockValidate env view cache block = .ok b)
    (hlink : view.validBlocks.find? (·.tip.oid = block.priorOid) = some chain) :
    ValidOn env view cache chain block b := by
  obtain ⟨hrecent, h⟩ := reject_bind_eq_ok.1 h
  obtain ⟨hwitness, h⟩ := reject_bind_eq_ok.1 h
  rw [hlink] at h
  simp only at h
  obtain ⟨hrules, htxs⟩ := (validateOnChain_eq_ok env view chain block hrecent hwitness).1 ⟨b, h⟩
  have hchained : b = chainToPriorBlock chain.tip block := by
    simp only [validateOnChain, bind_eq_ok, reject_eq_ok] at h
    obtain ⟨_, -, _, -, _, -, _, -, _, -, _, -, _, -, h⟩ := h
    exact (Except.ok.inj h).symm
  have hpos : 0 < block.level := by
    have hone : 1 ≤ computePruneLevel view.lastIndelibleBlock view.startupPruneLevel 1 blockPruneRounds :=
      (Nat.le_max_right _ 1).trans (Nat.le_max_left _ _)
    omega
  have htx : b.txs = block.txs := by rw [hchained, chainToPriorBlock_txs]
  refine ⟨hchained, ?_, ?_, fun wire hwire => ?_⟩
  · rw [hchained, chainToPriorBlock_level]
    exact level_lt_of_sigOrder hpos hrules.sigOrder
  · rw [htx]
    exact hrules.scan
  · exact (validateTx_eq_ok env view chain).1 (htxs wire (htx ▸ hwire))

end Valid

section Index
variable (env : Env) (db : PersistentDb)

/-- `SerialnumInsert`, which fails for a serial number that is there. -/
def serialnumInsert (txin : TxIn) (txCommitnum : ℕ) : Except Failure PersistentDb :=
  if (db.serialnumSelect txin.serialnum).isSome then .error (.rc (-1))
  else .ok { db with serialnums :=
    db.serialnums ++ [{ serialnum := txin.serialnum, hashkey := some txin.hashkey, txCommitnum := txCommitnum }] }

/-- The serial numbers of a transaction, one after the other. -/
def indexSerialnums (txCommitnum : ℕ) : PersistentDb → List TxIn → Except Failure PersistentDb
  | db, [] => .ok db
  | db, txin :: rest =>
    if txin.noSerialnum then indexSerialnums txCommitnum db rest
    else do
      let db ← serialnumInsert db txin txCommitnum
      indexSerialnums txCommitnum db rest

/-- `ProcessXpayment` up to the settlement of a match that is paid in full: whether the payment was credited. The
query of the match needs the rows of its requests in both tables. -/
def processXpayment (xpay : Xpay) : Except Failure (PersistentDb × Bool) :=
  if xpay.foreignAmount ≤ 0 then .error (.rc 1)
  else
    match db.xmatchSelect xpay.xmatchnum with
    | none => .error (.rc 1)
    | some m =>
      if m.haveXreqs = false ∨ m.xsell.foreignAddress = "" then .error (.rc 1)
      else if m.status ≠ .accepted ∧ m.status ≠ .partPaidOpen then .ok (db, false)
      else
        let m := { m with amountPaid := UniFloat.add m.amountPaid xpay.foreignAmount 0 false }
        let m := { m with status := if 0 < m.amountToPay env.conv then .partPaidOpen else .paid }
        .ok ({ db with matches_ := db.matches_.map fun row => if row.xmatchnum = m.xmatchnum then m else row }, true)

/-- What `IndexTxs` does with the serial numbers and the payment claim of a transaction; the claim is returned if it
was credited. -/
def indexTx (txCommitnum : ℕ) (wire : List UInt8) : Except Failure (PersistentDb × Option Xpay) :=
  match (txFromWire env.blake2s wire {}).1 with
  | .error e => .error e
  | .ok tx => do
    reject ((db.commitRootsSelectLevel tx.paramLevel false).isNone = true) (.rc 1)
    let xtx := extractXtxWithMatch env db tx
    reject (xtx = none ∧ extractXtxFailed tx false = true) (.rc 1)
    let db ← indexSerialnums txCommitnum db (pseudoSerialnum env tx xtx wire true).inputs
    match xtx with
    | some (.xpay xpay) => do
      let (db, credited) ← processXpayment env db xpay
      return (db, if credited then some xpay else none)
    | _ => return (db, none)

/-- The transactions of a block, each with the number of the commitment that follows it. -/
def indexTxs (commitnum : ℕ → ℕ) : PersistentDb → List (List UInt8) → Except Failure (PersistentDb × List Xpay)
  | db, [] => .ok (db, [])
  | db, wire :: rest => do
    let (db, credited) ← indexTx env db (commitnum rest.length) wire
    let (db, more) ← indexTxs commitnum db rest
    return (db, more ++ credited.toList)

end Index

/-- The state of a node: its databases, the valid blocks with their chains, the chain of the last indelible block,
the cache of valid transactions, and the payment claims that were credited, the newest first. -/
structure NodeState where
  db : PersistentDb
  temp : List TempSerialnum := []
  chains : List ScannedChain
  indelible : ScannedChain
  cache : List (List UInt8) := []
  credited : List Xpay := []

/-- A node looks at its state when it validates; it also has its exchange table and its times at hand. -/
structure NodeState.Shows (st : NodeState) (view : BlockView) : Prop where
  db : view.db = st.db
  temp : view.tempSerialnums = st.temp
  validBlocks : view.validBlocks = st.chains.map ScannedChain.toBlockChain
  lastIndelibleBlock : view.lastIndelibleBlock = some st.indelible.tip.block

/-- A valid block is kept with its chain, and its serial numbers under its address. -/
def NodeState.insertBlock (st : NodeState) (env : Env) (chain : ScannedChain) (b : Block)
    (temp : List TempSerialnum) : NodeState :=
  { st with
    chains := ⟨⟨b, b.txs.map (scannedTx env st.db)⟩, chain.blocks⟩ :: st.chains
    temp := tempSerialnumUpdate temp processBlockp b.bufp b.level }

/-- What is left open of a node: its parameters with the replies that it gets from outside, which may change from
step to step, and what its exchange tables always satisfy. -/
structure NodeWorld where
  env : BlockEnv → Prop
  tables : PersistentDb → Prop

/-- The steps of a node that is not a witness. -/
inductive NodeStep (world : NodeWorld) (st : NodeState) : NodeState → Prop
  /-- A transaction is found valid. -/
  | cacheTx (env : BlockEnv) (view : BlockView) (priorBlocktime : ℕ) (inBlock : Bool) (wire : List UInt8)
      (henv : world.env env) (hview : st.Shows view)
      (hvalid : txValidate env.toEnv view.toNodeView priorBlocktime inBlock wire = .ok ()) :
      NodeStep world st { st with cache := wire :: st.cache }
  /-- A block is found valid on the chain of its prior block. -/
  | validateBlock (env : BlockEnv) (view : BlockView) (received b : Block) (chain : ScannedChain)
      (temp : List TempSerialnum) (henv : world.env env) (hview : st.Shows view)
      (hlink : st.chains.find? (·.tip.block.oid = received.priorOid) = some chain)
      (hvalid : blockValidate env view st.cache received = .ok b)
      (hscan : scanBlock env view chain.toBlockChain (tempSerialnumClear st.temp processBlockp) b.txs = .ok temp) :
      NodeStep world st (st.insertBlock env.toEnv chain b temp)
  /-- The block after the last indelible block becomes indelible. -/
  | confirm (env : BlockEnv) (b : ScannedBlock) (commitnum : ℕ → ℕ) (db : PersistentDb) (credited : List Xpay)
      (henv : world.env env) (hnext : (⟨b, st.indelible.blocks⟩ : ScannedChain) ∈ st.chains)
      (hindex : indexTxs env.toEnv commitnum st.db b.block.txs = .ok (db, credited)) :
      NodeStep world st { st with db := db, indelible := ⟨b, st.indelible.blocks⟩, credited := credited ++ st.credited }
  /-- Matching, settlement and pruning change other tables. -/
  | exchange (db : PersistentDb) (hserialnums : db.serialnums = st.db.serialnums) (htables : world.tables db) :
      NodeStep world st { st with db := db }
  /-- Serial numbers of blocks before the last indelible block are pruned. -/
  | prune (level : ℕ) (hlevel : level ≤ st.indelible.tip.block.level) :
      NodeStep world st { st with temp := tempSerialnumPruneLevel st.temp level }
  /-- After a restart only the persistent database is left. -/
  | restart : NodeStep world st { st with temp := [], chains := [st.indelible], cache := [] }

/-- The states that a node reaches from its genesis block. -/
inductive NodeRun (world : NodeWorld) : NodeState → Prop
  | start (genesis : Block) (db : PersistentDb) (hlevel : genesis.level = 0) (htxs : genesis.txs = [])
      (hserialnums : db.serialnums = []) (htables : world.tables db) :
      NodeRun world { db := db, chains := [⟨⟨genesis, []⟩, []⟩], indelible := ⟨⟨genesis, []⟩, []⟩ }
  | step {st st' : NodeState} (hrun : NodeRun world st) (hstep : NodeStep world st st') : NodeRun world st'

/-- What the table of temporary serial numbers keeps: a row for each serial number in the blocks of a chain that are
above the last indelible block. -/
structure NodeState.Kept (st : NodeState) : Prop where
  known : st.indelible ∈ st.chains
  levels : ∀ c ∈ st.chains, c.blocks.Pairwise fun b older => older.block.level < b.block.level
  rows : ∀ c ∈ st.chains, ∀ above, c.blocks = above ++ st.indelible.blocks → ∀ b ∈ above, ∀ tx ∈ b.txs,
    ∀ s ∈ tx.serialnums, { serialnum := s, blockp := b.block.bufp, level := b.block.level } ∈ st.temp

section Kept
variable {world : NodeWorld} {st st' : NodeState}

lemma NodeState.Kept.level_lt (h : st.Kept) {c : ScannedChain} {above : List ScannedBlock} {b : ScannedBlock}
    (hc : c ∈ st.chains) (hblocks : c.blocks = above ++ st.indelible.blocks) (hb : b ∈ above) :
    st.indelible.tip.block.level < b.block.level := by
  have hlevels := h.levels c hc
  rw [hblocks] at hlevels
  exact (List.pairwise_append.1 hlevels).2.2 b hb _ (List.mem_cons_self ..)

/-- A serial number that the scan of a block accepts is not in a block of the chain that is above the last indelible
block. -/
lemma NodeState.Kept.not_mem (h : st.Kept) {view : BlockView} (hview : st.Shows view) {c : ScannedChain}
    {above : List ScannedBlock} {s : ℕ} (hc : c ∈ st.chains) (hblocks : c.blocks = above ++ st.indelible.blocks)
    (hfresh : Fresh view c.toBlockChain (tempSerialnumClear st.temp processBlockp) s) :
    ∀ b ∈ above, ∀ tx ∈ b.txs, s ∉ tx.serialnums := by
  intro b hb tx htx hs
  have hrow := h.rows c hc above hblocks b hb tx htx s hs
  have hlt := h.level_lt hc hblocks hb
  obtain ⟨-, hrows⟩ := checkSerialnum_eq_zero.1 hfresh
  have hkept : { serialnum := s, blockp := b.block.bufp, level := b.block.level } ∈
      tempSerialnumClear st.temp processBlockp := by
    refine List.mem_filter.2 ⟨hrow, ?_⟩
    simp only [Bool.not_eq_true', Bool.and_eq_false_iff, decide_eq_false_iff_not]
    exact Or.inr (by omega)
  have hfalse := (hrows _ hkept rfl).2
  obtain ⟨newer, older, rfl⟩ := List.append_of_mem hb
  rw [hview.lastIndelibleBlock, ScannedChain.toBlockChain_blocks, hblocks, List.append_assoc, List.map_append,
    List.cons_append, List.map_cons, blockInChain_eq_true _ rfl] at hfalse
  · cases hfalse
  · intro block hblock
    obtain ⟨d, hd, rfl⟩ := List.mem_map.1 hblock
    exact h.level_lt hc hblocks (List.mem_append_left _ hd)

lemma mem_tempSerialnumUpdate {temp : List TempSerialnum} {old new level : ℕ} {row : TempSerialnum}
    (hrow : row ∈ temp) (hlevel : row.level ≠ 0) : row ∈ tempSerialnumUpdate temp old new level :=
  List.mem_map.2 ⟨row, hrow, if_neg fun h => hlevel h.2⟩

lemma processRow_update {temp : List TempSerialnum} {s bufp level : ℕ} (hrow : processRow s ∈ temp) :
    { serialnum := s, blockp := bufp, level := level } ∈ tempSerialnumUpdate temp processBlockp bufp level :=
  List.mem_map.2 ⟨processRow s, hrow, if_pos ⟨rfl, rfl⟩⟩

lemma NodeState.Kept.insertBlock (h : st.Kept) {env : BlockEnv} {view : BlockView} {b : Block}
    {c : ScannedChain} {temp : List TempSerialnum} (hview : st.Shows view) (hc : c ∈ st.chains)
    (hlevel : c.tip.block.level < b.level)
    (hscan : scanBlock env view c.toBlockChain (tempSerialnumClear st.temp processBlockp) b.txs = .ok temp) :
    (st.insertBlock env.toEnv c b temp).Kept := by
  have hinserts := scanBlock_inserts hscan
  rw [hview.db] at hinserts
  have hold {row : TempSerialnum} (hrow : row ∈ st.temp) (hpos : row.level ≠ 0) :
      row ∈ tempSerialnumUpdate temp processBlockp b.bufp b.level := by
    refine mem_tempSerialnumUpdate ?_ hpos
    rw [hinserts.rows]
    refine List.mem_append_left _ (List.mem_filter.2 ⟨hrow, ?_⟩)
    simp only [Bool.not_eq_true', Bool.and_eq_false_iff, decide_eq_false_iff_not]
    exact Or.inr hpos
  have hrows {d : ScannedChain} (hd : d ∈ st.chains) {above : List ScannedBlock}
      (hblocks : d.blocks = above ++ st.indelible.blocks) : ∀ e ∈ above, ∀ tx ∈ e.txs, ∀ s ∈ tx.serialnums,
        { serialnum := s, blockp := e.block.bufp, level := e.block.level } ∈
          tempSerialnumUpdate temp processBlockp b.bufp b.level := by
    intro e he tx htx s hs
    refine hold (h.rows d hd above hblocks e he tx htx s hs) ?_
    have := h.level_lt hd hblocks he
    simp only
    omega
  refine ⟨List.mem_cons_of_mem _ h.known, ?_, ?_⟩
  · intro d hd
    rcases List.mem_cons.1 hd with rfl | hd
    · refine List.pairwise_cons.2 ⟨fun e he => ?_, h.levels c hc⟩
      rcases List.mem_cons.1 he with rfl | he
      · exact hlevel
      · exact ((List.pairwise_cons.1 (h.levels c hc)).1 e he).trans hlevel
    · exact h.levels d hd
  · intro d hd above hblocks
    rcases List.mem_cons.1 hd with rfl | hd
    · cases above with
      | nil => exact fun e he => (by cases he)
      | cons e above =>
        obtain ⟨rfl, hrest⟩ := List.cons_eq_cons.1 (hblocks : (_ : ScannedBlock) :: c.blocks = _)
        intro e' he' tx htx s hs
        rcases List.mem_cons.1 he' with rfl | he'
        · obtain ⟨wire, hwire, rfl⟩ := List.mem_map.1 htx
          refine processRow_update ?_
          rw [hinserts.rows]
          exact List.mem_append_right _ (List.mem_map_of_mem (List.mem_flatMap.2 ⟨wire, hwire, hs⟩))
        · exact hrows hc hrest e' he' tx htx s hs
    · exact hrows hd hblocks

lemma NodeState.Shows.find?_eq {view : BlockView} (hview : st.Shows view) {oid : ℕ} {c : ScannedChain}
    (h : st.chains.find? (·.tip.block.oid = oid) = some c) :
    view.validBlocks.find? (·.tip.oid = oid) = some c.toBlockChain := by
  rw [hview.validBlocks, List.find?_map]
  exact congrArg (Option.map _) h

/-- What one step keeps. -/
lemma NodeState.Kept.step (h : st.Kept) (hstep : NodeStep world st st') : st'.Kept := by
  cases hstep with
  | cacheTx env view priorBlocktime inBlock wire henv hview hvalid => exact ⟨h.known, h.levels, h.rows⟩
  | validateBlock env view received b c temp henv hview hlink hvalid hscan =>
    have hvalidOn := blockValidate_validOn hvalid (hview.find?_eq hlink)
    exact h.insertBlock hview (List.mem_of_find?_eq_some hlink) hvalidOn.level hscan
  | confirm env b commitnum db credited henv hnext hindex =>
    refine ⟨hnext, h.levels, fun c hc above hblocks e he => ?_⟩
    refine h.rows c hc (above ++ [b]) ?_ e (List.mem_append_left _ he)
    rw [hblocks, List.append_assoc]
    rfl
  | exchange db hserialnums htables => exact ⟨h.known, h.levels, h.rows⟩
  | prune level hlevel =>
    refine ⟨h.known, h.levels, fun c hc above hblocks e he tx htx s hs => List.mem_filter.2
      ⟨h.rows c hc above hblocks e he tx htx s hs, ?_⟩⟩
    have := h.level_lt hc hblocks he
    simp only [Bool.not_eq_true', Bool.and_eq_false_iff, decide_eq_false_iff_not]
    exact Or.inr (by omega)
  | restart =>
    refine ⟨List.mem_singleton_self _, fun c hc => ?_, fun c hc above hblocks => ?_⟩
    · rw [List.mem_singleton.1 hc]
      exact h.levels _ h.known
    · rw [List.mem_singleton.1 hc] at hblocks
      obtain rfl : above = [] := by simpa using congrArg List.length hblocks
      exact fun e he => (by cases he)

theorem NodeRun.kept (h : NodeRun world st) : st.Kept := by
  induction h with
  | start genesis db hlevel htxs hserialnums htables =>
    refine ⟨List.mem_singleton_self _, fun c hc => ?_, fun c hc above hblocks => ?_⟩
    · rw [List.mem_singleton.1 hc]
      exact List.pairwise_singleton _ _
    · rw [List.mem_singleton.1 hc] at hblocks
      obtain rfl : above = [] := by simpa using congrArg List.length hblocks
      exact fun e he => (by cases he)
  | step _ hstep ih => exact ih.step hstep

end Kept

end CredaCash.Chain
