import CredaCash.Settlement.IndexBlock

/-! A node whose exchange tables decide on the validity of payments: in every run each match is settled once, and the
payments of an accepted block reach their matches in time. -/

namespace CredaCash.Settlement
open Wire Chain Checks

/-- Nodes that read transactions in the same way. -/
structure SameReading (env env' : Env) : Prop where
  codec : env.codec = env'.codec
  blake2s : env.blake2s = env'.blake2s

/-- A node: its exchange tables, the valid blocks with their chains, the chain of the last indelible block, and the
cache of valid transactions. -/
structure LedgerNode where
  tables : Tables := {}
  chains : List BlockChain
  indelible : BlockChain
  cache : List (List UInt8) := []

namespace LedgerNode

/-- A node looks at its tables and its chains when it validates; what else it has at hand is left open. -/
structure Shows (st : LedgerNode) (view : BlockView) : Prop where
  db : ∃ db, view.db = st.tables.toDb db
  validBlocks : view.validBlocks = st.chains

/-- A block that was accepted on the last indelible block. -/
def AcceptedNext (st : LedgerNode) (b : Block) : Prop := ⟨b, st.indelible.blocks⟩ ∈ st.chains

/-- What is asked of a block that becomes indelible, with the matches that matching has found. A block that was not
accepted may hold any payments, but only requests that leave time for one. -/
structure CanIndex (env₀ : Env) (st : LedgerNode) (env : LedgerEnv) (b : Block) (pairs : List (Xreq × Xreq)) :
    Prop where
  reading : SameReading env.toEnv env₀
  time : st.indelible.tip.timestamp ≤ b.timestamp
  requests : st.AcceptedNext b ∨ TimedRequests env₀ b.txs
  pairs : ∀ t₁, b.txs.foldlM (Tables.indexXtx env b.timestamp) st.tables = .ok t₁ →
    ∀ pair ∈ pairs, t₁.Added pair.1 ∧ t₁.Added pair.2

end LedgerNode

/-- The steps of a node. -/
inductive LedgerStep (env₀ : Env) (st : LedgerNode) : LedgerNode → Prop
  /-- A transaction is found valid. -/
  | cacheTx (env : Env) (view : BlockView) (priorBlocktime : ℕ) (inBlock : Bool) (wire : List UInt8)
      (henv : SameReading env env₀) (hview : st.Shows view)
      (hvalid : txValidate env view.toNodeView priorBlocktime inBlock wire = .ok ()) :
      LedgerStep env₀ st { st with cache := wire :: st.cache }
  /-- A block is accepted on the chain of its prior block. -/
  | validateBlock (env : BlockEnv) (view : BlockView) (received b : Block) (chain : BlockChain)
      (henv : SameReading env.toEnv env₀) (hview : st.Shows view)
      (hlink : st.chains.find? (·.tip.oid = received.priorOid) = some chain)
      (hvalid : blockValidate env view st.cache received = .ok b) :
      LedgerStep env₀ st { st with chains := ⟨b, chain.blocks⟩ :: st.chains }
  /-- A block becomes indelible. -/
  | index (env : LedgerEnv) (b : Block) (matchtime : ℕ) (pairs : List (Xreq × Xreq)) (tables : Tables)
      (hcan : st.CanIndex env₀ env b pairs)
      (hindex : st.tables.indexBlock env b.timestamp b.txs matchtime pairs = .ok tables) :
      LedgerStep env₀ st { st with tables := tables, indelible := ⟨b, st.indelible.blocks⟩ }
  /-- Blocks and transactions are pruned, or lost in a restart. -/
  | forget (chains : List BlockChain) (cache : List (List UInt8)) (hchains : chains ⊆ st.chains)
      (hcache : cache ⊆ st.cache) : LedgerStep env₀ st { st with chains := chains, cache := cache }

/-- The states that a node reaches from its genesis block. -/
inductive LedgerRun (env₀ : Env) : LedgerNode → Prop
  | start (genesis : Block) (htxs : genesis.txs = []) :
      LedgerRun env₀ { chains := [⟨genesis, []⟩], indelible := ⟨genesis, []⟩ }
  | step {st st' : LedgerNode} (hrun : LedgerRun env₀ st) (hstep : LedgerStep env₀ st st') : LedgerRun env₀ st'

/-- The exchange data of a valid transaction. -/
structure ValidValues (env : Env) (wire : List UInt8) : Prop where
  request : ∀ x, wireXtx env wire = some (.xreq x) → 0 < x.paymentTime
  payment : ∀ xpay, wireXtx env wire = some (.xpay xpay) → 0 < xpay.foreignAmount

section Valid
variable {env env₀ : Env} {t : Tables} {db : PersistentDb} {wire : List UInt8}

lemma SameReading.wireXtx_eq (h : SameReading env env₀) (wire : List UInt8) : wireXtx env wire = wireXtx env₀ wire := by
  unfold wireXtx extractXtx
  rw [h.codec, h.blake2s]

lemma SameReading.paidMatch_eq (h : SameReading env env₀) (wire : List UInt8) :
    paidMatch env wire = paidMatch env₀ wire := by
  rw [paidMatch, h.wireXtx_eq, paidMatch]

lemma SameReading.timedRequests (h : SameReading env env₀) {txs : List (List UInt8)} (hreq : TimedRequests env₀ txs) :
    TimedRequests env txs := fun wire hwire x hx => hreq wire hwire x (h.wireXtx_eq wire ▸ hx)

lemma SameReading.validValues (h : SameReading env env₀) (hvalid : ValidValues env wire) : ValidValues env₀ wire :=
  ⟨fun x hx => hvalid.request x (h.wireXtx_eq wire ▸ hx), fun xpay hx => hvalid.payment xpay (h.wireXtx_eq wire ▸ hx)⟩

lemma SameReading.accepts_iff (h : SameReading env env₀) {time : ℕ} :
    t.Accepts env time wire ↔ t.Accepts env₀ time wire := by
  constructor
  · rintro ⟨hparses, hpayment⟩
    exact ⟨h.blake2s ▸ hparses, fun xpay hx => hpayment xpay (h.wireXtx_eq wire ▸ hx)⟩
  · rintro ⟨hparses, hpayment⟩
    exact ⟨h.blake2s ▸ hparses, fun xpay hx => hpayment xpay (h.wireXtx_eq wire ▸ hx)⟩

lemma defaultPaymentTime_pos (forTestnet : Bool) : 0 < defaultPaymentTime forTestnet := by
  cases forTestnet <;> decide

lemma checkXreqValues_paymentTime {tx : TxPay} {x : Xreq} (h : checkXreqValues env tx x = .ok ()) :
    x.paymentTime = defaultPaymentTime env.codec.forTestnet := by
  simp only [checkXreqValues, reject_bind_eq_ok] at h
  obtain ⟨-, -, -, -, -, -, -, -, -, -, -, -, -, -, -, -, -, -, -, -, htime, -⟩ := h
  exact not_not.1 htime

/-- Validation sees to the values of exchange data. -/
lemma txValidate_values {view : NodeView} {priorBlocktime : ℕ} {inBlock : Bool}
    (h : txValidate env view priorBlocktime inBlock wire = .ok ()) : ValidValues env wire := by
  unfold txValidate at h
  cases hparse : (txFromWire env.blake2s wire {}).1 with
  | error e =>
    rw [hparse] at h
    cases h
  | ok tx =>
    rw [hparse] at h
    obtain ⟨typed, root, hpasses⟩ := (checkTx_eq_ok ..).1 h
    have hbyType := hpasses.byType
    have hwire : wireXtx env wire = extractXtx env (setTxDefaults env tx) := by
      rw [wireXtx, hparse]
      rfl
    refine ⟨fun x hx => ?_, fun xpay hx => ?_⟩
    · rw [← hwire, hx] at hbyType
      obtain ⟨_, hreq, -⟩ := bind_eq_ok.1 hbyType
      obtain ⟨hvalues, -⟩ := (validateXreq_eq_ok ..).1 hreq
      rw [checkXreqValues_paymentTime hvalues]
      exact defaultPaymentTime_pos _
    · rw [← hwire, hx] at hbyType
      obtain ⟨_, hpay, -⟩ := bind_eq_ok.1 hbyType
      obtain ⟨m, -, hterms, -⟩ := (validateXpay_eq_ok ..).1 hpay
      exact not_le.1 hterms.foreignAmount

/-- A match as validation finds it in the tables. -/
lemma toDb_xmatchSelect (t : Tables) (db : PersistentDb) (n : ℕ) :
    (t.toDb db).xmatchSelect n = (t.xmatches.select n).map t.xmatch := by
  rw [PersistentDb.xmatchSelect, Tables.toDb, List.find?_map, KeyedTable.select]
  rfl

/-- A payment that is checked again with its block names a match that can be paid at the time of the prior block. -/
lemma scanTx_accepts {env : BlockEnv} {view : BlockView} {chain : BlockChain} {temp temp' : List TempSerialnum}
    (h : scanTx env view chain temp wire = .ok temp') (hdb : view.db = t.toDb db)
    (hvalid : ValidValues env.toEnv wire) : t.Accepts env.toEnv chain.tip.timestamp wire := by
  unfold scanTx at h
  cases hparse : (txFromWire env.blake2s wire {}).1 with
  | error e =>
    rw [hparse] at h
    cases h
  | ok tx =>
    simp only [hparse] at h
    refine ⟨⟨tx, hparse⟩, fun xpay hxpay => ⟨hvalid.payment xpay hxpay, ?_⟩⟩
    have hextract : extractXtx env.toEnv tx = some (.xpay xpay) := by
      rw [wireXtx, hparse] at hxpay
      exact hxpay
    obtain ⟨hfound, h⟩ := reject_bind_eq_ok.1 h
    obtain ⟨_, hrecheck, -⟩ := bind_eq_ok.1 h
    have hxtx : extractXtxWithMatch env.toEnv view.db tx =
        (view.db.xmatchSelect xpay.xmatchnum).map fun m => .xpay (setMatchFieldsInXpay env.toEnv m xpay) := by
      rw [extractXtxWithMatch, hextract]
    rw [hdb, toDb_xmatchSelect] at hxtx
    rw [hdb] at hfound hrecheck
    rw [hxtx] at hfound hrecheck
    cases hrow : t.xmatches.select xpay.xmatchnum with
    | none =>
      have hfailed : extractXtxFailed tx true = true := by
        rw [extractXtxFailed, extractXtx_xpay hextract]
        rfl
      rw [hrow] at hfound
      exact absurd ⟨rfl, hfailed⟩ hfound
    | some row =>
      rw [hrow] at hrecheck
      obtain ⟨-, hrecheck⟩ := reject_bind_eq_ok.1 hrecheck
      obtain ⟨hpaytime, hrecheck⟩ := reject_bind_eq_ok.1 hrecheck
      have hintime := not_lt.1 (reject_eq_ok.1 hrecheck)
      change ¬ ((t.reqs.select row.sellXreqnum).elim {} _ : Xmatchreq).paymentTime = 0 at hpaytime
      change _ ≤ row.matchTimestamp + ((t.reqs.select row.sellXreqnum).elim {} _ : Xmatchreq).paymentTime at hintime
      refine ⟨row, hrow, ?_, ?_⟩
      · rw [Tables.deadline]
        cases hsell : t.reqs.select row.sellXreqnum with
        | none =>
          rw [hsell] at hpaytime
          exact absurd rfl hpaytime
        | some sell =>
          rw [hsell] at hintime
          exact hintime
      · cases hsell : t.reqs.select row.sellXreqnum with
        | none =>
          rw [hsell] at hpaytime
          exact absurd rfl hpaytime
        | some sell => rfl

lemma scanBlock_scanTx {env : BlockEnv} {view : BlockView} {chain : BlockChain} {temp temp' : List TempSerialnum}
    {txs : List (List UInt8)} (h : scanBlock env view chain temp txs = .ok temp') (hwire : wire ∈ txs) :
    ∃ temp₁ temp₂, scanTx env view chain temp₁ wire = .ok temp₂ := by
  induction txs generalizing temp with
  | nil => cases hwire
  | cons w txs ih =>
    obtain ⟨temp₁, hfirst, hrest⟩ := bind_eq_ok.1 h
    rcases List.mem_cons.1 hwire with rfl | hwire
    · exact ⟨temp, temp₁, hfirst⟩
    · exact ih hrest hwire

end Valid

/-- What a node keeps: the invariant of its tables, the values of the transactions in its cache, and, along its chains,
that the payments of each block could be made at the time of the prior block. -/
structure LedgerNode.Kept (env₀ : Env) (st : LedgerNode) : Prop where
  tables : TablesInv st.tables st.indelible.tip.timestamp
  cache : ∀ wire ∈ st.cache, ValidValues env₀ wire
  chains : ∀ c ∈ st.chains, c.blocks.IsChain fun b prior => ∀ wire ∈ b.txs,
    ValidValues env₀ wire ∧ st.tables.Accepts env₀ prior.timestamp wire

namespace LedgerNode.Kept
variable {env₀ : Env} {st st' : LedgerNode}

/-- An accepted block is sound on its chain. -/
lemma validateBlock (h : st.Kept env₀) {env : BlockEnv} {view : BlockView} {received b : Block} {chain : BlockChain}
    (henv : SameReading env.toEnv env₀) (hview : st.Shows view)
    (hlink : st.chains.find? (·.tip.oid = received.priorOid) = some chain)
    (hvalid : blockValidate env view st.cache received = .ok b) :
    LedgerNode.Kept env₀ { st with chains := ⟨b, chain.blocks⟩ :: st.chains } := by
  obtain ⟨db, hdb⟩ := hview.db
  have hvalidOn := blockValidate_validOn hvalid (hview.validBlocks.symm ▸ hlink)
  obtain ⟨temp, hscan⟩ := hvalidOn.scan
  refine ⟨h.tables, h.cache, fun c hc => ?_⟩
  rcases List.mem_cons.1 hc with rfl | hc
  · refine List.isChain_cons_cons.2 ⟨fun wire hwire => ?_, h.chains chain (List.mem_of_find?_eq_some hlink)⟩
    have hvalues : ValidValues env₀ wire := by
      rcases hvalidOn.txs wire hwire with hcached | ⟨-, hfresh⟩ | hfresh
      · exact h.cache wire hcached
      · exact henv.validValues (txValidate_values hfresh)
      · exact henv.validValues (txValidate_values hfresh)
    obtain ⟨temp₁, temp₂, htx⟩ := scanBlock_scanTx hscan hwire
    have hvalues' : ValidValues env.toEnv wire :=
      ⟨fun x hx => hvalues.request x (henv.wireXtx_eq wire ▸ hx),
        fun xpay hx => hvalues.payment xpay (henv.wireXtx_eq wire ▸ hx)⟩
    exact ⟨hvalues, henv.accepts_iff.1 (scanTx_accepts htx hdb hvalues')⟩
  · exact h.chains c hc

/-- What is known of the block that follows the last indelible block, if it was accepted. -/
lemma acceptedNext (h : st.Kept env₀) {b : Block} (hnext : st.AcceptedNext b) :
    ∀ wire ∈ b.txs, ValidValues env₀ wire ∧ st.tables.Accepts env₀ st.indelible.tip.timestamp wire :=
  (List.isChain_cons_cons.1 (h.chains _ hnext)).1

/-- A block that becomes indelible keeps the tables. -/
lemma indexBlock (h : st.Kept env₀) {env : LedgerEnv} {b : Block} (matchtime : ℕ) {pairs : List (Xreq × Xreq)}
    (hcan : st.CanIndex env₀ env b pairs) :
    Ends (fun e => BlockStops e ∧ (st.AcceptedNext b → MatchStops e))
      (fun t' => TablesInv t' b.timestamp ∧ st.tables.Extends t' ∧
        PaidSince st.tables t' (b.txs.filterMap (paidMatch env₀)) (st.AcceptedNext b))
      (st.tables.indexBlock env b.timestamp b.txs matchtime pairs) := by
  have haccepts (hnext : st.AcceptedNext b) (wire) (hwire : wire ∈ b.txs) :
      st.tables.Accepts env.toEnv st.indelible.tip.timestamp wire :=
    hcan.reading.accepts_iff.2 (h.acceptedNext hnext wire hwire).2
  have hreq : TimedRequests env₀ b.txs :=
    hcan.requests.elim (fun hnext wire hwire => (h.acceptedNext hnext wire hwire).1.request) id
  have hnums : b.txs.filterMap (paidMatch env.toEnv) = b.txs.filterMap (paidMatch env₀) :=
    congrArg (b.txs.filterMap ·) (funext hcan.reading.paidMatch_eq)
  refine ((h.tables.indexBlock hcan.time (hcan.reading.timedRequests hreq) matchtime hcan.pairs).mapError ?_).mono ?_
  · rintro e ⟨hstops, hmatch⟩
    exact ⟨hstops, fun hnext => hmatch (haccepts hnext)⟩
  · rintro t' ⟨hinv, hext, hpaid⟩
    exact ⟨hinv, hext, hnums ▸ hpaid.imp haccepts⟩

/-- What one step keeps. -/
lemma step (h : st.Kept env₀) (hstep : LedgerStep env₀ st st') : st'.Kept env₀ := by
  cases hstep with
  | cacheTx env view priorBlocktime inBlock wire henv hview hvalid =>
    refine ⟨h.tables, fun w hw => ?_, h.chains⟩
    rcases List.mem_cons.1 hw with rfl | hw
    · exact henv.validValues (txValidate_values hvalid)
    · exact h.cache w hw
  | validateBlock env view received b chain henv hview hlink hvalid => exact h.validateBlock henv hview hlink hvalid
  | index env b matchtime pairs tables hcan hindex =>
    obtain ⟨hinv, hext, -⟩ := (h.indexBlock matchtime hcan).2 tables hindex
    exact ⟨hinv, h.cache, fun c hc => (h.chains c hc).imp fun _ _ hsound wire hwire =>
      (hsound wire hwire).imp_right fun haccepts => ⟨haccepts.parses, fun xpay hxpay =>
        (haccepts.payment xpay hxpay).imp_right fun hpayable => hpayable.extends hext⟩⟩
  | forget chains cache hchains hcache =>
    exact ⟨h.tables, fun w hw => h.cache w (hcache hw), fun c hc => h.chains c (hchains hc)⟩

end LedgerNode.Kept

lemma LedgerRun.kept {env₀ : Env} {st : LedgerNode} (h : LedgerRun env₀ st) : st.Kept env₀ := by
  induction h with
  | start genesis htxs =>
    refine ⟨⟨?_, ?_, ?_, ?_⟩, fun _ hw => (by cases hw), fun c hc => ?_⟩
    · exact fun row hrow => absurd hrow (KeyedTable.not_mem_empty row)
    · exact fun row hrow => absurd hrow (KeyedTable.not_mem_empty row)
    · exact fun e he => (by cases he)
    · exact fun x hx => absurd hx (KeyedTable.not_mem_empty x)
    · rw [List.mem_singleton.1 hc]
      exact List.isChain_singleton _
  | step _ hstep ih => exact ih.step hstep

/-- How a node deals with matches. -/
structure LedgerNode.SettlesOnce (env₀ : Env) (st : LedgerNode) : Prop where
  /-- What happened to a match is a life that ends in its status. -/
  life : ∀ row ∈ st.tables.xmatches, MatchLife row.status (st.tables.events row.xmatchnum)
  /-- The statuses written to a match: accepted, then part-paid any number of times, then a final one. -/
  statuses : ∀ row ∈ st.tables.xmatches, (isOpen row.status = true ∨ row.status = .paid ∨ isExpired row.status = true) ∧
    ∃ k, written (st.tables.events row.xmatchnum) =
      .accepted :: List.replicate k .partPaidOpen ++ if isOpen row.status then [] else [row.status]
  /-- It is settled once, with its final status. -/
  settled : ∀ row ∈ st.tables.xmatches,
    settlements (st.tables.events row.xmatchnum) = if isOpen row.status then [] else [row.status]
  deadline : ∀ row ∈ st.tables.xmatches, 0 < row.nextDeadline ↔ isOpen row.status = true
  /-- As the next block becomes indelible, no assertion of `ExpireMatches` fails and its loop ends. If the block was
  accepted, each of its payments is processed, and finds its match open or paid. -/
  next : ∀ (env : LedgerEnv) (b : Block) (matchtime : ℕ) (pairs : List (Xreq × Xreq)), st.CanIndex env₀ env b pairs →
    Ends (fun e => e ≠ .status ∧ e ≠ .donation ∧ e ≠ .endless ∧ (st.AcceptedNext b → MatchStops e))
      (fun t' => PaidSince st.tables t' (b.txs.filterMap (paidMatch env₀)) (st.AcceptedNext b))
      (st.tables.indexBlock env b.timestamp b.txs matchtime pairs)

lemma BlockStops.ne {e : LedgerError} (h : BlockStops e) : e ≠ .status ∧ e ≠ .donation ∧ e ≠ .endless := by
  rcases h with (rfl | rfl | rfl | ⟨e, rfl⟩) | rfl | ⟨e, rfl⟩ <;>
    exact ⟨LedgerError.noConfusion, LedgerError.noConfusion, LedgerError.noConfusion⟩

/-- In every run of a node a match is settled exactly once, and the payments of accepted blocks reach it before it
expires. -/
theorem LedgerRun.settlesOnce {env₀ : Env} {st : LedgerNode} (h : LedgerRun env₀ st) : st.SettlesOnce env₀ := by
  have hkept := h.kept
  refine ⟨fun row hrow => ?_, fun row hrow => ?_, fun row hrow => ?_, fun row hrow => ?_, ?_⟩
  · exact (hkept.tables.rows row hrow).life
  · have hlife := (hkept.tables.rows row hrow).life
    obtain ⟨k, hwritten, -⟩ := hlife.written_eq
    exact ⟨hlife.status_cases, k, hwritten⟩
  · exact (hkept.tables.rows row hrow).life.settlements_eq
  · have hinv := hkept.tables.rows row hrow
    refine ⟨fun hpos => ?_, fun hopen => (hinv.openDeadline hopen).2⟩
    exact Bool.eq_true_of_not_eq_false fun hclosed => hpos.ne' (hinv.closed hclosed)
  · intro env b matchtime pairs hcan
    refine ((hkept.indexBlock matchtime hcan).mapError ?_).mono fun t' h => h.2.2
    rintro e ⟨hstops, hmatch⟩
    obtain ⟨hstatus, hdonation, hendless⟩ := hstops.ne
    exact ⟨hstatus, hdonation, hendless, hmatch⟩

section Example

/-- A node looks at its own state, and at a root that is there from the start. -/
def LedgerNode.view (st : LedgerNode) : BlockView where
  db := st.tables.toDb { commitRoots := [{ level := 0, timestamp := mainnetMiningStart, merkleRoot := 0 }] }
  lastIndelibleTimestamp := st.indelible.tip.timestamp
  validBlocks := st.chains

/-- A node receives a block. -/
def LedgerNode.receive (st : LedgerNode) (env : BlockEnv) (received : Block) : Option LedgerNode := do
  let chain ← st.chains.find? (·.tip.oid = received.priorOid)
  let b ← (blockValidate env st.view st.cache received).toOption
  return { st with chains := ⟨b, chain.blocks⟩ :: st.chains }

def Tables.hasAdded (t : Tables) (x : Xreq) : Bool :=
  (t.reqs.select x.xreqnum).any fun y => y.paymentTime = x.paymentTime

/-- A node makes the next accepted block indelible, and some pairs of requests to matches. -/
def LedgerNode.settle (st : LedgerNode) (env : LedgerEnv) (matchtime : ℕ) (pairs : List (Xreq × Xreq)) :
    Option LedgerNode := do
  let chain ← st.chains.find? fun c => c.priors = st.indelible.blocks ∧ st.indelible.tip.timestamp ≤ c.tip.timestamp
  let t₁ ← (chain.tip.txs.foldlM (Tables.indexXtx env chain.tip.timestamp) st.tables).toOption
  let tables ← (st.tables.indexBlock env chain.tip.timestamp chain.tip.txs matchtime pairs).toOption
  if pairs.all fun pair => t₁.hasAdded pair.1 && t₁.hasAdded pair.2 then
    some { st with tables := tables, indelible := ⟨chain.tip, st.indelible.blocks⟩ }
  else none

lemma LedgerRun.receive {env₀ : Env} {st st' : LedgerNode} (hrun : LedgerRun env₀ st) {env : BlockEnv}
    (henv : SameReading env.toEnv env₀) {received : Block} (h : st.receive env received = some st') :
    LedgerRun env₀ st' := by
  obtain ⟨chain, hlink, h⟩ := Option.bind_eq_some_iff.1 h
  obtain ⟨b, hvalid, h⟩ := Option.bind_eq_some_iff.1 h
  obtain rfl := Option.some.inj h
  exact hrun.step (.validateBlock env st.view received b chain henv ⟨⟨_, rfl⟩, rfl⟩ hlink (ok_of_toOption hvalid))

lemma Tables.added_of_hasAdded {t : Tables} {x : Xreq} (h : t.hasAdded x = true) : t.Added x := by
  obtain ⟨y, hy, htime⟩ := (Option.any_eq_true _ _).1 h
  exact ⟨y, hy, of_decide_eq_true htime⟩

lemma LedgerRun.settle {env₀ : Env} {st st' : LedgerNode} (hrun : LedgerRun env₀ st) {env : LedgerEnv}
    (henv : SameReading env.toEnv env₀) {matchtime : ℕ} {pairs : List (Xreq × Xreq)}
    (h : st.settle env matchtime pairs = some st') : LedgerRun env₀ st' := by
  obtain ⟨chain, hnext, h⟩ := Option.bind_eq_some_iff.1 h
  obtain ⟨t₁, ht₁, h⟩ := Option.bind_eq_some_iff.1 h
  obtain ⟨tables, htables, h⟩ := Option.bind_eq_some_iff.1 h
  split_ifs at h with hadded
  obtain rfl := Option.some.inj h
  have hfound : chain.priors = st.indelible.blocks ∧ st.indelible.tip.timestamp ≤ chain.tip.timestamp := by
    simpa using List.find?_some hnext
  have haccepted : st.AcceptedNext chain.tip := by
    rw [LedgerNode.AcceptedNext, ← hfound.1]
    exact List.mem_of_find?_eq_some hnext
  refine hrun.step (.index env chain.tip matchtime pairs tables ⟨henv, hfound.2, .inl haccepted, ?_⟩
    (ok_of_toOption htables))
  intro t₂ ht₂ pair hpair
  obtain rfl := Except.ok.inj ((ok_of_toOption ht₁).symm.trans ht₂)
  have hboth := List.all_eq_true.1 hadded pair hpair
  rw [Bool.and_eq_true] at hboth
  exact hboth.imp Tables.added_of_hasAdded Tables.added_of_hasAdded

/-- A node to which each foreign payment of one coin is confirmed. -/
def tradeEnv (time : ℕ) : LedgerEnv where
  toBlockEnv :=
    { quietEnv time with
      codec :=
        { alphaDecode := fun _ _ _ => .ok (String.ofList ("bc1q".toList ++ List.replicate 38 'q'))
          mapExpDecode := id }
      queryPayment := fun _ _ _ _ => .found ⟨UniFloat.wireDecode (1024 * 2^21), time, 12⟩
      addressHash := fun _ => 100
      paymentIdHash := fun _ => 101 }
  scaled := fun _ => 0
  miningStartTime := mainnetMiningStart
  donationPerXcxPay := 10^25
  outputEnv := fun _ _ => mainnetOutputs

/-- A simple request for one coin at the rate one, with a given tag, size and serial number, and with the foreign
address of a seller. -/
def tradeWire (tag size : UInt8) (serialnum : UInt8) (address : List UInt8) : List UInt8 :=
  [size, 1, 0, 0, 1, 0, tag, 0xCC] ++ List.replicate 353 0 ++ serialnum :: List.replicate 47 0 ++
    [0x10, 0xC8, 0xDB, 0, 1] ++ List.replicate 31 0 ++
    [27, 0, 0, 0, 0, 27, 0, 0, 0, 0, 0, 0, 0, 0x80, 0, 0, 0, 0x80, 1, 0, 0, 0, 0, 0, 60, 16, 0] ++ address

/-- A request as matching pairs it, with one coin at the rate one. -/
def tradeHalf (type : XtxType) (num other : ℕ) : Xreq where
  type := type
  xreqnum := num
  seqnum := num
  bestOtherSeqnum := other
  bestAmount := 10^27
  bestRate := 1
  maxAmount := 10^27
  netRateRequired := 1
  quoteAsset := 1
  pledge := simplePledge
  paymentTime := defaultPaymentTime false
  confirmations := defaultConfirmations false
  autoAcceptMatches := true
  destination := 1
  expireTime := mainnetMiningStart + 3600

/-- Two requests, their match, and its payment in full. -/
def tradeRun : Option LedgerNode := do
  let env := tradeEnv (mainnetMiningStart + 200)
  let genesis := soleBlock 0 mainnetMiningStart
  let st : LedgerNode := { chains := [⟨genesis, []⟩], indelible := ⟨genesis, []⟩ }
  let requests := [tradeWire 0x0D 0xD8 5 [], tradeWire 0x0F 0xDB 6 [1, 0x19, 0]]
  let st ← st.receive env.toBlockEnv { soleBlock 1 (mainnetMiningStart + 20) with txs := requests }
  let st ← st.settle env mainnetMiningStart []
  let st ← st.receive env.toBlockEnv (soleBlock 2 (mainnetMiningStart + 120))
  let st ← st.settle env (mainnetMiningStart + 20) [(tradeHalf .simpleBuy 1 2, tradeHalf .simpleSell 2 1)]
  let st ← st.receive env.toBlockEnv { soleBlock 3 (mainnetMiningStart + 150) with txs := [latePayment] }
  st.settle env (mainnetMiningStart + 120) []

lemma tradeRun_run {st : LedgerNode} (h : tradeRun = some st) :
    LedgerRun (tradeEnv (mainnetMiningStart + 200)).toEnv st := by
  have henv : SameReading (tradeEnv (mainnetMiningStart + 200)).toEnv (tradeEnv (mainnetMiningStart + 200)).toEnv :=
    ⟨rfl, rfl⟩
  simp only [tradeRun, Option.bind_eq_bind, Option.bind_eq_some_iff] at h
  obtain ⟨st₁, h₁, st₂, h₂, st₃, h₃, st₄, h₄, st₅, h₅, h⟩ := h
  have hstart : LedgerRun (tradeEnv (mainnetMiningStart + 200)).toEnv _ := .start (soleBlock 0 mainnetMiningStart) rfl
  exact (((((hstart.receive henv h₁).settle henv h₂).receive henv h₃).settle henv h₄).receive henv h₅).settle henv h

/-- The match is made, paid and settled. -/
theorem tradeRun_settlesOnce : ∃ st, tradeRun = some st ∧
    st.tables.events 1 = [.insert .accepted, .payment .accepted, .settle .paid, .insert .paid] ∧
      st.SettlesOnce (tradeEnv (mainnetMiningStart + 200)).toEnv := by
  have hany : tradeRun.any (fun st => st.tables.events 1 =
      [.insert .accepted, .payment .accepted, .settle .paid, .insert .paid]) = true := by decide +kernel
  obtain ⟨st, hst, hevents⟩ := (Option.any_eq_true _ _).1 hany
  exact ⟨st, hst, of_decide_eq_true hevents, LedgerRun.settlesOnce (tradeRun_run hst)⟩

end Example

end CredaCash.Settlement
