import CredaCash.Chain.GrownChain

/-! How far the chains of a node can get ahead of the last block that it marked as indelible, while two threads enter
blocks and make them indelible. -/

namespace CredaCash.Chain
open Wire Checks

namespace BlockThread

@[simp] lemma other_other (thread : BlockThread) : thread.other.other = thread := by
  cases thread <;> rfl

lemma other_ne (thread : BlockThread) : thread.other ≠ thread := by
  cases thread <;> decide

lemma eq_or_eq_other (thread thread' : BlockThread) : thread' = thread ∨ thread' = thread.other := by
  cases thread <;> cases thread' <;> decide

lemma blockp_other_ne (thread : BlockThread) : thread.other.blockp ≠ thread.blockp := by
  cases thread <;> decide

end BlockThread

/-- The chain of the block that a thread has put into the valid objects, until its confirmations are done. -/
def ThreadPhase.entering : ThreadPhase → Option ScannedChain
  | .inserted chain => some chain
  | .waiting chain _ => some chain
  | .writing chain _ => some chain
  | _ => none

/-- The thread has the write lock. -/
def ThreadPhase.Locks : ThreadPhase → Prop
  | .writing .. => True
  | .committed => True
  | _ => False

section Scan
variable {w : SpendWorld} {db : PersistentDb} {sh : SharedState} {c next : ScannedChain}

lemma chainNodes_priors_length {b : Block} {priors : List Block} {node : BlockChain} (h : node ∈ chainNodes b priors) :
    node.priors.length ≤ priors.length := by
  induction priors generalizing b with
  | nil =>
    obtain rfl := List.mem_singleton.1 h
    exact le_rfl
  | cons prior rest ih =>
    rcases List.mem_cons.1 h with rfl | h
    · exact le_rfl
    · exact (ih h).trans (Nat.le_succ _)

/-- The scan ends above the newest block that is marked. -/
lemma scanBack_above {marked : List BlockChain} {m b : Block} {above rest : List Block} {n : ℕ} {oldest : BlockChain}
    (hm : ⟨m, rest⟩ ∈ marked) (hlen : ∀ node ∈ marked, node.priors.length ≤ rest.length)
    (h : scanBack marked b (above ++ m :: rest) = some (n, oldest)) :
    n = above.length + 1 ∧ oldest.priors = m :: rest := by
  induction above generalizing b n with
  | nil =>
    simp only [List.nil_append, scanBack] at h
    split_ifs at h
    obtain ⟨rfl, rfl⟩ := Prod.mk.inj (Option.some.inj h)
    exact ⟨rfl, rfl⟩
  | cons a above ih =>
    simp only [List.cons_append, scanBack] at h
    split_ifs at h with hlevel hmarked
    · have := hlen _ hmarked
      simp only [List.length_append, List.length_cons] at this
      omega
    · obtain ⟨⟨n', oldest'⟩, hscan, heq⟩ := Option.map_eq_some_iff.1 h
      obtain ⟨rfl, rfl⟩ := Prod.mk.inj heq
      obtain ⟨hn, holdest⟩ := ih hscan
      exact ⟨congrArg (· + 1) hn, holdest⟩

lemma SharedState.marked_mem (sh : SharedState) : sh.marked.toBlockChain ∈ sh.confirmState.marked := mem_chainNodes _ _

lemma SharedState.marked_length {node : BlockChain} (h : node ∈ sh.confirmState.marked) :
    node.priors.length ≤ sh.marked.priors.length :=
  (chainNodes_priors_length h).trans_eq (List.length_map _)

/-- The blocks that are counted are those above the last one that is marked. -/
lemma scanBack_marked (hc : w.Grown db c) (hmarked : sh.marked.Under c) (hne : sh.marked ≠ c) {n : ℕ} {oldest : BlockChain}
    (h : scanBack sh.confirmState.marked c.toBlockChain.tip c.toBlockChain.priors = some (n, oldest)) :
    n + sh.marked.level = c.level ∧ oldest.priors.length = sh.marked.priors.length + 1 := by
  obtain ⟨p, hp, above, habove⟩ := hc.exists_prior hmarked hne
  have hpriors : c.toBlockChain.priors =
      above.map (·.block) ++ sh.marked.tip.block :: sh.marked.priors.map (·.block) := by
    rw [ScannedChain.toBlockChain, hp, ← habove, List.map_append]
    rfl
  rw [hpriors] at h
  obtain ⟨rfl, holdest⟩ := scanBack_above sh.marked_mem
    (fun node hnode => (sh.marked_length hnode).trans_eq (List.length_map _).symm) h
  have hlen := congrArg List.length habove
  rw [List.length_append, ScannedChain.blocks, ScannedChain.blocks, List.length_cons, List.length_cons,
    ← hp.length] at hlen
  rw [hc.level_eq, (hc.under hmarked).1.level_eq, ← hlen, List.length_map]
  refine ⟨by omega, ?_⟩
  rw [holdest, List.length_cons, List.length_map]

/-- A chain without enough blocks is not far ahead. -/
lemma confirmScan_none (hc : w.Grown db c) (hmarked : sh.marked.Under c)
    (h : confirmScan sh.confirmState c.toBlockChain = .none) : c.level + 1 ≤ sh.marked.level + c.nskip := by
  have hparams := hc.handed
  by_cases hne : sh.marked = c
  · rw [hne]
    exact Nat.add_le_add_left hparams.pos _
  unfold confirmScan at h
  split_ifs at h with hmem
  · exact absurd (hmarked.eq_of_length ((List.length_map _).symm.trans_le (sh.marked_length hmem))) hne
  split at h
  · cases h
  · next n oldest hscan =>
    obtain ⟨hn, -⟩ := scanBack_marked hc hmarked hne hscan
    split_ifs at h with hstop
    have hfew : n < c.nskip := by
      by_contra hmany
      have henough : enoughConfSigs c.toBlockChain.tip oldest.tip n = true :=
        enoughConfSigs_eq_true.2 ⟨hparams.nseq.trans (not_lt.1 hmany), fun _ => not_lt.1 hmany⟩
      rw [henough] at hstop
      simp at hstop
    omega

/-- What is found is the block after the last one that is marked. -/
lemma confirmScan_next (hc : w.Grown db c) (hmarked : sh.marked.Under c) {n : ℕ} (hnext : next.Under c)
    (h : confirmScan sh.confirmState c.toBlockChain = .found n next.toBlockChain) : sh.marked.IsPrior next := by
  have hne : sh.marked ≠ c := by
    rintro heq
    rw [confirmScan, if_pos (heq ▸ sh.marked_mem)] at h
    cases h
  unfold confirmScan at h
  split_ifs at h with hmem
  split at h
  · cases h
  · next n' oldest hscan =>
    split_ifs at h
    obtain ⟨rfl, rfl⟩ := ConfirmScan.found.inj h
    obtain ⟨-, hlen⟩ := scanBack_marked hc hmarked hne hscan
    have hlen : next.priors.length = sh.marked.priors.length + 1 := (List.length_map _).symm.trans hlen
    have hunder : sh.marked.Under next := (hmarked.total hnext).resolve_right fun hle => by
      have := hle.length_le
      omega
    obtain ⟨p, hp, hpm⟩ := (hc.under hnext).1.exists_prior hunder (fun heq => by rw [heq] at hlen; omega)
    obtain rfl : sh.marked = p := hpm.eq_of_length (by have := hp.length; omega)
    exact hp

end Scan

/-- The levels at which `Temp_Serials` may have been pruned are not above a level. -/
def SharedState.Unpruned (sh : SharedState) (level : ℕ) : Prop :=
  ∀ d : ScannedChain, d.Under sh.indelible → sh.startupPruneLevel ≤ d.level → sh.pruneLevel d ≤ level

/-- What each step of a thread keeps of the shared state. -/
structure SharedState.Grows (sh sh' : SharedState) : Prop where
  chains : sh.chains ⊆ sh'.chains
  startup : sh'.startupPruneLevel = sh.startupPruneLevel
  indelible : sh.indelible.Under sh'.indelible
  marked : sh.marked.Under sh'.marked
  ages : sh.db.Ages sh'.db
  rows : ∀ row ∈ sh.temp, row.level ≠ 0 → sh'.Unpruned row.level → row ∈ sh'.temp

/-- What a step of one thread leaves alone for the other thread. -/
structure SharedState.Spares (thread : BlockThread) (sh sh' : SharedState) : Prop where
  markers : ∀ row ∈ sh.temp, row.blockp = thread.blockp → row.level = 0 → row ∈ sh'.temp
  lock : sh'.writer = some thread ↔ sh.writer = some thread
  kept : sh.writer = some thread → sh'.marked = sh.marked ∧ sh'.indelible = sh.indelible ∧ sh'.db = sh.db

section Rows
variable {sh : SharedState} {rows : List TempSerialnum} {thread : BlockThread} {row : TempSerialnum}

lemma SharedState.Grows.refl (sh : SharedState) : sh.Grows sh :=
  ⟨fun _ h => h, rfl, .refl _, .refl _, .refl _, fun _ h _ _ => h⟩

lemma SharedState.Grows.temp (h : ∀ row ∈ sh.temp, row.level ≠ 0 → row ∈ rows) : sh.Grows { sh with temp := rows } :=
  ⟨fun _ h => h, rfl, .refl _, .refl _, .refl _, fun row hrow hlevel _ => h row hrow hlevel⟩

lemma SharedState.Spares.refl (thread : BlockThread) (sh : SharedState) : sh.Spares thread sh :=
  ⟨fun _ h _ _ => h, Iff.rfl, fun _ => ⟨rfl, rfl, rfl⟩⟩

lemma SharedState.Spares.temp (h : ∀ row ∈ sh.temp, row.blockp = thread.blockp → row.level = 0 → row ∈ rows) :
    sh.Spares thread { sh with temp := rows } :=
  ⟨h, Iff.rfl, fun _ => ⟨rfl, rfl, rfl⟩⟩

lemma mem_tempSerialnumClear {blockp : ℕ} (hrow : row ∈ rows) (h : row.blockp ≠ blockp ∨ row.level ≠ 0) :
    row ∈ tempSerialnumClear rows blockp :=
  List.mem_filter.2 ⟨hrow, by rcases h with h | h <;> simp [h]⟩

lemma mem_tempSerialnumUpdate_other {old new level : ℕ} (hrow : row ∈ rows) (h : row.blockp ≠ old) :
    row ∈ tempSerialnumUpdate rows old new level :=
  List.mem_map.2 ⟨row, hrow, if_neg fun hold => h hold.1⟩

lemma mem_tempSerialnumPruneLevel {level : ℕ} (hrow : row ∈ rows) (h : row.level = 0 ∨ level ≤ row.level) :
    row ∈ tempSerialnumPruneLevel rows level := by
  refine List.mem_filter.2 ⟨hrow, ?_⟩
  rcases h with h | h <;> simp [h]

/-- `TempSerialnumClear` of a thread, also when it fails. -/
lemma cleared_mem {rows' : List TempSerialnum} {blockp : ℕ} (h : rows' = rows ∨ rows' = tempSerialnumClear rows blockp)
    (hrow : row ∈ rows) (hkept : row.blockp ≠ blockp ∨ row.level ≠ 0) : row ∈ rows' := by
  rcases h with rfl | rfl
  · exact hrow
  · exact mem_tempSerialnumClear hrow hkept

end Rows

/-- The chains of a node: they grew from the genesis block, and the blocks between the last indelible one and the last
one that is marked are few. -/
structure ChainsOk (w : SpendWorld) (sh : SharedState) : Prop where
  grown : ∀ c ∈ sh.chains, w.Grown sh.db c
  closed : ∀ c ∈ sh.chains, ∀ d : ScannedChain, d.Under c → sh.startupPruneLevel ≤ d.level → d ∈ sh.chains
  marked : sh.marked ∈ sh.chains
  indelible : sh.indelible.Under sh.marked
  startup : sh.startupPruneLevel ≤ sh.indelible.level
  batch : ∀ d : ScannedChain, sh.indelible.Under d → d.Under sh.marked → d.level ≤ sh.indelible.level + d.nskip + 2
  unlocked : sh.writer = none → sh.indelible = sh.marked

/-- A chain through the last block that is marked is not far ahead of it. -/
def SharedState.Within (sh : SharedState) (c : ScannedChain) (n : ℕ) : Prop :=
  sh.marked.Under c → c.level ≤ sh.marked.level + c.nskip + n

/-- A task of a thread: its prior block is valid, and so are its transactions. -/
structure BlockTask.Ok (w : SpendWorld) (sh : SharedState) (task : BlockTask) : Prop where
  prior : task.prior ∈ sh.chains
  level : ∀ received, task.received = some received → received.level = task.prior.level + 1
  txs : ∀ t ∈ task.txs, w.Sound sh.db t

/-- A write transaction: what it marks is on the chain that confirms it, and that chain is not far ahead. -/
structure WritingOk (w : SpendWorld) (sh : SharedState) (c : ScannedChain) (db : PersistentDb) : Prop where
  mem : c ∈ sh.chains
  marked : sh.marked.Under c
  within : sh.Within c 1
  batch : ∀ d : ScannedChain, sh.indelible.Under d → d.Under c → d.level ≤ sh.indelible.level + d.nskip + 2
  ages : sh.db.Ages db

/-- What holds where a thread is. -/
def ThreadPhase.Ok (w : SpendWorld) (sh : SharedState) : ThreadPhase → Prop
  | .idle => True
  | .scan task => task.Ok w sh
  | .spend task tx _ _ => task.Ok w sh ∧ w.Sound sh.db tx
  | .updated c => w.Grown sh.db c ∧ ∃ p ∈ sh.chains, p.IsPrior c
  | .inserted c => c ∈ sh.chains
  | .waiting c next => c ∈ sh.chains ∧ next.Under c
  | .writing c db => WritingOk w sh c db
  | .committed => True
  | .confirmed => True
  | .pruning level => ∃ d : ScannedChain, d.Under sh.indelible ∧ sh.startupPruneLevel ≤ d.level ∧
      level = sh.pruneLevel d

section Steps
variable {w : SpendWorld} {thread : BlockThread} {sh sh' : SharedState} {phase phase' : ThreadPhase}

lemma ThreadStep.grows (hchains : ChainsOk w sh) (hphase : phase.Ok w sh)
    (h : ThreadStep w thread sh phase sh' phase') : sh.Grows sh' := by
  cases h with
  | validate prior received temp hprior hlink hlevel hword horder htemp =>
    exact .temp fun row hrow hlevel => cleared_mem htemp hrow (.inr hlevel)
  | startNewBlock prior temp hold hprior htemp =>
    exact .temp fun row hrow hlevel => cleared_mem htemp hrow (.inr hlevel)
  | insert temp hinsert =>
    obtain ⟨-, rfl⟩ := tempSerialnumInsert_eq_some.1 hinsert
    exact .temp fun row hrow _ => List.mem_append_left _ hrow
  | validated received hreceived htxs => exact .temp fun row hrow hlevel => mem_tempSerialnumUpdate hrow hlevel
  | finishNewBlock b hreceived htxs hlevel =>
    exact .temp fun row hrow hlevel => mem_tempSerialnumUpdate hrow hlevel
  | validObjsInsert =>
    exact ⟨List.subset_cons_self _ _, rfl, .refl _, .refl _, .refl _, fun _ h _ _ => h⟩
  | beginWrite db hlock hmarked hsequence hindex =>
    exact ⟨fun _ h => h, rfl, .refl _, ScannedChain.IsPrior.under hsequence, .refl _, fun _ h _ _ => h⟩
  | writeNext nconfsigs db' hscan hnext hsequence hindex =>
    exact ⟨fun _ h => h, rfl, .refl _, ScannedChain.IsPrior.under hsequence, .refl _, fun _ h _ _ => h⟩
  | commit hscan => exact ⟨fun _ h => h, rfl, .refl _, .refl _, WritingOk.ages hphase, fun _ h _ _ => h⟩
  | setLastIndelible => exact ⟨fun _ h => h, rfl, hchains.indelible, .refl _, .refl _, fun _ h _ _ => h⟩
  | prune hthird =>
    obtain ⟨d, hd, hstartup, rfl⟩ := hphase
    exact ⟨fun _ h => h, rfl, .refl _, .refl _, .refl _, fun row hrow _ hunpruned =>
      mem_tempSerialnumPruneLevel hrow (.inr (hunpruned d hd hstartup))⟩
  | _ => exact .refl _

lemma ThreadStep.spares (hlock : sh.writer = some thread ↔ phase.Locks)
    (h : ThreadStep w thread sh phase sh' phase') : sh.Spares thread.other sh' := by
  have hne := thread.blockp_other_ne
  have hwriter (writer : Option BlockThread) (hw : writer = none ∨ writer = some thread) :
      ¬ writer = some thread.other := by
    rintro rfl
    rcases hw with hw | hw
    · cases hw
    · exact thread.other_ne (Option.some.inj hw)
  cases h with
  | validate prior received temp hprior hlink hlevel hword horder htemp =>
    exact .temp fun row hrow hblockp _ => cleared_mem htemp hrow (.inl fun h => hne (hblockp.symm.trans h))
  | startNewBlock prior temp hphase hprior htemp =>
    exact .temp fun row hrow hblockp _ => cleared_mem htemp hrow (.inl fun h => hne (hblockp.symm.trans h))
  | insert temp hinsert =>
    obtain ⟨-, rfl⟩ := tempSerialnumInsert_eq_some.1 hinsert
    exact .temp fun row hrow _ _ => List.mem_append_left _ hrow
  | validated received hreceived htxs =>
    exact .temp fun row hrow hblockp _ => mem_tempSerialnumUpdate_other hrow fun h => hne (hblockp.symm.trans h)
  | finishNewBlock b hreceived htxs hlevel =>
    exact .temp fun row hrow hblockp _ => mem_tempSerialnumUpdate_other hrow fun h => hne (hblockp.symm.trans h)
  | validObjsInsert => exact ⟨fun _ h _ _ => h, Iff.rfl, fun _ => ⟨rfl, rfl, rfl⟩⟩
  | beginWrite db hlock' hmarked hsequence hindex =>
    have hnot := hwriter _ (.inl hlock')
    exact ⟨fun _ h _ _ => h, iff_of_false (hwriter _ (.inr rfl)) hnot, fun h => absurd h hnot⟩
  | writeNext nconfsigs db' hscan hnext hsequence hindex =>
    have hnot := hwriter _ (.inr (hlock.2 trivial))
    exact ⟨fun _ h _ _ => h, Iff.rfl, fun h => absurd h hnot⟩
  | commit hscan =>
    have hnot := hwriter _ (.inr (hlock.2 trivial))
    exact ⟨fun _ h _ _ => h, Iff.rfl, fun h => absurd h hnot⟩
  | setLastIndelible =>
    have hnot := hwriter _ (.inr (hlock.2 trivial))
    exact ⟨fun _ h _ _ => h, iff_of_false (hwriter _ (.inl rfl)) hnot, fun h => absurd h hnot⟩
  | prune hthird =>
    exact ⟨fun row hrow _ hlevel => mem_tempSerialnumPruneLevel hrow (.inl hlevel), Iff.rfl, fun _ => ⟨rfl, rfl, rfl⟩⟩
  | _ => exact .refl _ _

/-- What holds where a thread is, the steps of the other thread keep. -/
lemma ThreadPhase.Ok.stable (h : phase.Ok w sh) (hgrows : sh.Grows sh') (hspares : sh.Spares thread sh')
    (hlock : sh.writer = some thread ↔ phase.Locks) : phase.Ok w sh' := by
  have htask {task : BlockTask} (h : task.Ok w sh) : task.Ok w sh' :=
    ⟨hgrows.chains h.prior, h.level, fun t ht => (h.txs t ht).ages hgrows.ages⟩
  cases phase with
  | scan task => exact htask h
  | spend task tx ops progress => exact ⟨htask h.1, h.2.ages hgrows.ages⟩
  | updated c =>
    obtain ⟨hgrown, p, hp, hprior⟩ := h
    exact ⟨hgrown.ages hgrows.ages, p, hgrows.chains hp, hprior⟩
  | inserted c => exact hgrows.chains h
  | waiting c next => exact ⟨hgrows.chains h.1, h.2⟩
  | writing c db =>
    obtain ⟨hmarked, hindelible, hdb⟩ := hspares.kept (hlock.2 trivial)
    have hwriting : WritingOk w sh c db := h
    refine ⟨hgrows.chains hwriting.mem, hmarked ▸ hwriting.marked, ?_, hindelible ▸ hwriting.batch,
      hdb ▸ hwriting.ages⟩
    unfold SharedState.Within
    rw [hmarked]
    exact hwriting.within
  | pruning level =>
    obtain ⟨d, hd, hstartup, hlevel⟩ := h
    exact ⟨d, hd.trans hgrows.indelible, hgrows.startup.trans_le hstartup,
      by rw [hlevel, SharedState.pruneLevel, SharedState.pruneLevel, hgrows.startup]⟩
  | _ => trivial

/-- The levels of a chain follow each other when the order of its signatures is right. -/
lemma level_of_sigOrder {prior received : Block} {priors : List Block} (hpos : 0 < received.level)
    (hword : received.level < 2^64) (h : checkBadSigOrder (w.chainBlock prior received) (prior :: priors) = false) :
    received.level = prior.level + 1 := by
  have hnconfsigs : (w.chainBlock prior received).nconfsigs = (chainToPriorBlock prior received).nconfsigs := by
    unfold SpendWorld.chainBlock
    dsimp only
    split_ifs <;> rfl
  obtain ⟨n, hn⟩ := Nat.exists_eq_succ_of_ne_zero (chainToPriorBlock_nconfsigs_pos prior received).ne'
  rw [checkBadSigOrder, hnconfsigs, hn, skipSum, (w.chainBlock_wire ..).1] at h
  split_ifs at h with hlevel
  rw [show received.level + 2^64 - 1 = received.level - 1 + 2^64 by omega, Nat.add_mod_right,
    Nat.mod_eq_of_lt (by omega)] at hlevel
  omega

/-- A transaction whose exchange data could be extracted. -/
lemma SpendWorld.sound_of_extract (db : PersistentDb) {wire : List UInt8} {tx : TxPay}
    (hparse : (txFromWire w.env.blake2s wire {}).1 = .ok tx)
    (hextract : ¬ (extractXtxWithMatch w.env.toEnv db tx = none ∧ extractXtxFailed tx true = true)) :
    w.Sound db (scannedTx w.env.toEnv db wire) := by
  have hwire : (scannedTx w.env.toEnv db wire).wire = wire := by rw [scannedTx, hparse]
  refine ⟨db, tx, ⟨hwire.symm ▸ hparse, by rw [hwire], fun xpay hxpay => ?_⟩, .refl _⟩
  cases hselect : db.xmatchSelect xpay.xmatchnum with
  | none =>
    refine absurd ⟨by rw [extractXtxWithMatch, hxpay]; simp [hselect], ?_⟩ hextract
    rw [extractXtxFailed, extractXtx_xpay hxpay]
    rfl
  | some m => exact ⟨m, rfl⟩

/-- What holds where a thread is, after its own step. -/
lemma ThreadStep.ok (hchains : ChainsOk w sh) (hphase : phase.Ok w sh) (hdeep : ∀ c ∈ sh.chains, sh.Within c 2)
    (h : ThreadStep w thread sh phase sh' phase') : phase'.Ok w sh' := by
  cases h with
  | validate prior received temp hprior hlink hlevel hword horder htemp =>
    have hone : 1 ≤ received.level :=
      ((Nat.le_max_right _ 1).trans (Nat.le_max_left _ _)).trans hlevel
    refine ⟨hprior, fun received' hreceived => ?_, fun t ht => by cases ht⟩
    obtain rfl := Option.some.inj hreceived
    exact level_of_sigOrder hone hword horder
  | startNewBlock prior temp hphase hprior htemp =>
    exact ⟨hprior, fun received h => (by cases h), fun t ht => by cases ht⟩
  | @scanTx _ task received wire tx hreceived hnext hparse hextract hrecheck =>
    exact ⟨hphase, w.sound_of_extract sh.db hparse hextract⟩
  | @selectTx _ task obj tx args hreceived hobj hparse hkeeps =>
    obtain ⟨offset, hform⟩ := txFromWire_blockForm w.env.blake2s hobj hparse
    obtain ⟨-, hextract⟩ := recheckXtx_of_keeps hkeeps
    exact ⟨hphase, w.sound_of_extract sh.db hform hextract⟩
  | checkSnapshot => exact hphase
  | checkPersistent hselect => exact hphase
  | checkPage hmore hfree => exact hphase
  | checkLastPage hfree => exact hphase
  | insert temp hinsert => exact ⟨⟨hphase.1.prior, hphase.1.level, hphase.1.txs⟩, hphase.2⟩
  | addTx =>
    refine ⟨hphase.1.prior, hphase.1.level, fun t ht => ?_⟩
    rcases List.mem_append.1 ht with ht | ht
    · exact hphase.1.txs t ht
    · exact List.mem_singleton.1 ht ▸ hphase.2
  | skipTx => exact hphase.1
  | @validated _ task received hreceived htxs =>
    have htask : task.Ok w sh := hphase
    exact ⟨.block received task.txs (hchains.grown _ htask.prior) (htask.level received hreceived) htxs htask.txs,
      task.prior, htask.prior, rfl⟩
  | @finishNewBlock _ task b hreceived htxs hlevel =>
    have htask : task.Ok w sh := hphase
    exact ⟨.block b task.txs (hchains.grown _ htask.prior) hlevel htxs htask.txs, task.prior, htask.prior, rfl⟩
  | validObjsInsert => exact List.mem_cons_self ..
  | confirmFound nconfsigs hscan hnext => exact ⟨hphase, hnext⟩
  | @beginWrite _ _ chain next db hlock hmarked hsequence hindex =>
    have hprior : sh.marked.IsPrior next := hsequence
    have hgrown := hchains.grown chain hphase.1
    have hmarked := hprior.under.trans hphase.2
    refine ⟨hphase.1, hphase.2, fun hunder => ?_, fun d hindelible hd => ?_, ?_⟩
    · have hwithin := hdeep chain hphase.1 hmarked
      have hlevel := (hgrown.under hphase.2).1.level_prior hprior
      dsimp only
      omega
    · have hd' : d ∈ sh.chains := hchains.closed chain hphase.1 d hd
        (hchains.startup.trans ((hgrown.under hd).1.level_le hindelible))
      dsimp only at hindelible ⊢
      rw [hchains.unlocked hlock] at hindelible ⊢
      exact hdeep d hd' hindelible
    · exact (hindex.spends (hgrown.under hphase.2).1).1
  | @writeNext _ _ chain next db nconfsigs db' hscan hnext hsequence hindex =>
    have hwriting : WritingOk w sh chain db := hphase
    have hprior : sh.marked.IsPrior next := hsequence
    have hgrown := hchains.grown chain hwriting.mem
    refine ⟨hwriting.mem, hnext, fun hunder => ?_, hwriting.batch, ?_⟩
    · have hwithin := hwriting.within hwriting.marked
      have hlevel := (hgrown.under hnext).1.level_prior hprior
      dsimp only
      omega
    · exact hwriting.ages.trans (hindex.spends ((hgrown.under hnext).1.ages hwriting.ages)).1
  | computePruneLevel => exact ⟨_, .refl _, hchains.startup, rfl⟩
  | _ => trivial

lemma ThreadStep.lock (hlock : sh.writer = some thread ↔ phase.Locks)
    (h : ThreadStep w thread sh phase sh' phase') : sh'.writer = some thread ↔ phase'.Locks := by
  cases h with
  | startNewBlock prior temp hphase hprior htemp =>
    refine iff_of_false (fun hwriter => ?_) id
    have hlocks := hlock.1 hwriter
    rcases hphase with rfl | ⟨task, rfl⟩ <;> exact hlocks
  | giveUp hphase =>
    refine iff_of_false (fun hwriter => ?_) id
    have hlocks := hlock.1 hwriter
    rcases hphase with ⟨task, rfl⟩ | ⟨task, tx, ops, progress, rfl⟩ | ⟨chain, rfl⟩ <;> exact hlocks
  | beginWrite db hlock' hmarked hsequence hindex => exact iff_of_true rfl trivial
  | setLastIndelible => exact iff_of_false (fun h => by cases h) id
  | _ => exact hlock

/-- The chains of a node, after a step. -/
lemma ThreadStep.chainsOk (hchains : ChainsOk w sh) (hphase : phase.Ok w sh) (hphase' : phase'.Ok w sh')
    (hlock : sh.writer = some thread ↔ phase.Locks) (h : ThreadStep w thread sh phase sh' phase') :
    ChainsOk w sh' := by
  have htemp (temp : List TempSerialnum) : ChainsOk w { sh with temp := temp } :=
    ⟨hchains.grown, hchains.closed, hchains.marked, hchains.indelible, hchains.startup, hchains.batch, hchains.unlocked⟩
  have hmarks {c next : ScannedChain} (hc : c ∈ sh.chains) (hnext : next.Under c) (hprior : sh.marked.IsPrior next) :
      next ∈ sh.chains := by
    have hgrown := ((hchains.grown c hc).under hnext).1
    exact hchains.closed c hc next hnext
      (hchains.startup.trans (hgrown.level_le (hchains.indelible.trans hprior.under)))
  cases h with
  | validate prior received temp hprior hlink hlevel hword horder htemp' => exact htemp _
  | startNewBlock prior temp hphase hprior htemp' => exact htemp _
  | insert temp hinsert => exact htemp _
  | validated received hreceived htxs => exact htemp _
  | finishNewBlock b hreceived htxs hlevel => exact htemp _
  | prune hthird => exact htemp _
  | @validObjsInsert _ _ chain =>
    obtain ⟨hgrown, p, hp, hprior⟩ := hphase
    refine ⟨fun c hc => ?_, fun c hc d hd hlevel => ?_, List.mem_cons_of_mem _ hchains.marked, hchains.indelible,
      hchains.startup, hchains.batch, hchains.unlocked⟩
    · rcases List.mem_cons.1 hc with rfl | hc
      · exact hgrown
      · exact hchains.grown c hc
    · rcases List.mem_cons.1 hc with rfl | hc
      · rcases hprior.under_iff.1 hd with rfl | hd
        · exact List.mem_cons_self ..
        · exact List.mem_cons_of_mem _ (hchains.closed p hp d hd hlevel)
      · exact List.mem_cons_of_mem _ (hchains.closed c hc d hd hlevel)
  | @beginWrite _ _ chain next db hlock' hmarked hsequence hindex =>
    have hwriting : WritingOk w { sh with marked := next, writer := some thread } chain db := hphase'
    exact ⟨hchains.grown, hchains.closed, hmarks hphase.1 hphase.2 hsequence,
      hchains.indelible.trans (ScannedChain.IsPrior.under hsequence), hchains.startup,
      fun d hindelible hd => hwriting.batch d hindelible (hd.trans hphase.2), fun h => by cases h⟩
  | @writeNext _ _ chain next db nconfsigs db' hscan hnext hsequence hindex =>
    have hwriting : WritingOk w { sh with marked := next } chain db' := hphase'
    refine ⟨hchains.grown, hchains.closed, hmarks hwriting.mem hnext hsequence,
      hchains.indelible.trans (ScannedChain.IsPrior.under hsequence), hchains.startup,
      fun d hindelible hd => hwriting.batch d hindelible (hd.trans hnext), fun hnone => ?_⟩
    have hwriter : sh.writer = some thread := hlock.2 trivial
    rw [hwriter] at hnone
    cases hnone
  | @commit _ _ chain db hscan =>
    have hwriting : WritingOk w sh chain db := hphase
    exact ⟨fun c hc => (hchains.grown c hc).ages hwriting.ages, hchains.closed, hchains.marked, hchains.indelible,
      hchains.startup, hchains.batch, hchains.unlocked⟩
  | setLastIndelible =>
    have hgrown := hchains.grown _ hchains.marked
    refine ⟨hchains.grown, hchains.closed, hchains.marked, .refl _,
      hchains.startup.trans (hgrown.level_le hchains.indelible), fun d hindelible hd => ?_, fun _ => rfl⟩
    have := hgrown.level_le hd
    dsimp only
    omega
  | _ => exact hchains

end Steps

/-- The other thread has put the prior block into the valid objects, and its confirmations are not done. -/
def ThreadState.PriorEntering (st : ThreadState) (thread : BlockThread) (c : ScannedChain) : Prop :=
  ∃ p : ScannedChain, p.IsPrior c ∧ (st.phase thread.other).entering = some p

/-- No chain is far ahead of the last block that is marked, but for the blocks that threads are just entering. -/
structure EnterOk (st : ThreadState) : Prop where
  settled : ∀ c ∈ st.shared.chains, st.shared.Within c 0 ∨ ∃ thread, (st.phase thread).entering = some c
  inserted : ∀ thread c, st.phase thread = .inserted c → st.shared.Within c 1 ∨ st.PriorEntering thread c
  /-- The block that is to be marked still follows the last one that is marked, or the other thread has marked it, and
  goes on with the confirmations. -/
  waiting : ∀ thread c next, st.phase thread = .waiting c next → st.shared.Within c 0 ∨
    st.shared.marked.IsPrior next ∧ (st.shared.Within c 1 ∨ st.PriorEntering thread c) ∨
    st.PriorEntering thread c ∧ ∃ p db, st.phase thread.other = .writing p db

/-- What holds of the threads of a node. -/
structure ConfirmOk (w : SpendWorld) (st : ThreadState) : Prop where
  chains : ChainsOk w st.shared
  lock : ∀ thread, st.shared.writer = some thread ↔ (st.phase thread).Locks
  phases : ∀ thread, (st.phase thread).Ok w st.shared
  enter : EnterOk st

section Within
variable {w : SpendWorld} {db : PersistentDb} {sh sh' : SharedState} {c p : ScannedChain} {n m : ℕ}

lemma SharedState.Within.mono (h : sh.Within c n) (hle : n ≤ m) : sh.Within c m :=
  fun hunder => (h hunder).trans (Nat.add_le_add_left hle _)

lemma SharedState.Within.grow (h : sh.Within c n) (hmarked : sh.marked.Under sh'.marked) (hgrown : w.Grown db sh'.marked) :
    sh'.Within c n := fun hunder =>
  (h (hmarked.trans hunder)).trans (Nat.add_le_add_right (Nat.add_le_add_right (hgrown.level_le hmarked) _) _)

lemma SharedState.Within.next (h : sh.Within c (n + 1)) (hprior : sh.marked.IsPrior sh'.marked)
    (hgrown : w.Grown db sh'.marked) : sh'.Within c n := by
  intro hunder
  have hwithin := h (hprior.under.trans hunder)
  have hlevel := hgrown.level_prior hprior
  omega

/-- A block that follows another one is at most one block farther ahead. -/
lemma SharedState.Within.above (h : sh.Within p n) (hgrown : w.Grown db c) (hprior : p.IsPrior c) :
    sh.Within c (n + 1) := by
  intro hunder
  rcases hprior.under_iff.1 hunder with heq | hunder
  · rw [heq]
    omega
  · have hwithin := h hunder
    have hlevel := hgrown.level_prior hprior
    have hnskip := (hgrown.prior hprior).2
    omega

end Within

section Deep
variable {w : SpendWorld} {st : ThreadState} {thread : BlockThread} {c p : ScannedChain}

lemma ConfirmOk.entering_mem (h : ConfirmOk w st) (hentering : (st.phase thread).entering = some c) :
    c ∈ st.shared.chains := by
  have hphase := h.phases thread
  revert hentering hphase
  cases st.phase thread with
  | inserted c' =>
    rintro ⟨⟩ hphase
    exact hphase
  | waiting c' next =>
    rintro ⟨⟩ hphase
    exact hphase.1
  | writing c' db =>
    rintro ⟨⟩ hphase
    exact WritingOk.mem hphase
  | _ => exact fun h => by cases h

lemma ConfirmOk.entering_within (h : ConfirmOk w st) (hentering : (st.phase thread).entering = some c) :
    st.shared.Within c 1 ∨ st.PriorEntering thread c := by
  have hphase := h.phases thread
  cases hp : st.phase thread with
  | inserted c' =>
    rw [hp] at hentering
    obtain rfl := Option.some.inj hentering
    exact h.enter.inserted thread c' hp
  | waiting c' next =>
    rw [hp] at hentering
    obtain rfl := Option.some.inj hentering
    rcases h.enter.waiting thread c' next hp with hwithin | ⟨-, hwithin⟩ | ⟨hentering, -⟩
    · exact .inl (hwithin.mono (Nat.zero_le _))
    · exact hwithin
    · exact .inr hentering
  | writing c' db =>
    rw [hp] at hentering hphase
    obtain rfl := Option.some.inj hentering
    exact .inl (WritingOk.within hphase)
  | _ =>
    rw [hp] at hentering
    cases hentering

/-- The threads are not each other's prior block. -/
lemma ConfirmOk.prior_within (h : ConfirmOk w st) (hentering : (st.phase thread).entering = some c)
    (hprior : p.IsPrior c) (hother : (st.phase thread.other).entering = some p) : st.shared.Within p 1 := by
  refine (h.entering_within hother).resolve_right ?_
  rintro ⟨p', hprior', hentering'⟩
  rw [thread.other_other, hentering] at hentering'
  obtain rfl := Option.some.inj hentering'
  have := hprior.length
  have := hprior'.length
  omega

/-- No chain is far ahead of the last block that is marked. -/
lemma ConfirmOk.deep (h : ConfirmOk w st) : ∀ c ∈ st.shared.chains, st.shared.Within c 2 := by
  intro c hc
  rcases h.enter.settled c hc with hwithin | ⟨thread, hentering⟩
  · exact hwithin.mono (Nat.zero_le _)
  · rcases h.entering_within hentering with hwithin | ⟨p, hprior, hother⟩
    · exact hwithin.mono one_le_two
    · exact (h.prior_within hentering hprior hother).above (h.chains.grown c hc) hprior

end Deep

/-- What a step of a thread does to the chains that are just being entered. -/
structure EnterStep (st : ThreadState) (thread : BlockThread) (sh' : SharedState) (phase' : ThreadPhase) : Prop where
  chains : ∀ c ∈ sh'.chains, c ∈ st.shared.chains ∨ phase'.entering = some c
  leaves : ∀ c, (st.phase thread).entering = some c → phase'.entering = some c ∨ sh'.Within c 0
  /-- A block is only marked in a write transaction. -/
  marks : sh'.marked = st.shared.marked ∨ st.shared.marked.IsPrior sh'.marked ∧
    ∃ c db, phase' = .writing c db ∧ (st.phase thread).entering = some c
  writes : ∀ c db, st.phase thread = .writing c db → (∃ db', phase' = .writing c db') ∨
    ∀ c' : ScannedChain, c.IsPrior c' → c' ∈ st.shared.chains → sh'.Within c' 0
  inserted : ∀ c, phase' = .inserted c → sh'.Within c 1 ∨ st.PriorEntering thread c
  waiting : ∀ c next, phase' = .waiting c next → sh'.Within c 0 ∨
    sh'.marked.IsPrior next ∧ (sh'.Within c 1 ∨ st.PriorEntering thread c)

section Enter
variable {w : SpendWorld} {st : ThreadState} {thread : BlockThread} {sh' : SharedState} {phase' : ThreadPhase}

lemma EnterStep.quiet (hchains : sh'.chains = st.shared.chains) (hmarked : sh'.marked = st.shared.marked)
    (hold : (st.phase thread).entering = none) (hnew : phase'.entering = none) : EnterStep st thread sh' phase' where
  chains c hc := .inl (hchains ▸ hc)
  leaves c hc := by
    rw [hold] at hc
    cases hc
  marks := .inl hmarked
  writes c db hc := by
    rw [hc] at hold
    cases hold
  inserted c hc := by
    rw [hc] at hnew
    cases hnew
  waiting c next hc := by
    rw [hc] at hnew
    cases hnew

/-- The chains that are just being entered, after a step. -/
lemma EnterStep.enterOk (h : ConfirmOk w st) (hchains : ChainsOk w sh') (hgrows : st.shared.Grows sh')
    (hstep : EnterStep st thread sh' phase') : EnterOk ⟨sh', Function.update st.phase thread phase'⟩ := by
  have hmarked := hchains.grown _ hchains.marked
  have hself : Function.update st.phase thread phase' thread = phase' := Function.update_self ..
  have hother : Function.update st.phase thread phase' thread.other = st.phase thread.other :=
    Function.update_of_ne thread.other_ne ..
  -- a chain whose prior block the thread was entering
  have hprior {c : ScannedChain} (hentering : (st.phase thread.other).entering = some c)
      (hpe : st.PriorEntering thread.other c) : sh'.Within c 1 ∨ ∃ p : ScannedChain, p.IsPrior c ∧
        (st.phase thread).entering = some p ∧ phase'.entering = some p := by
    obtain ⟨p, hp, hpe⟩ := hpe
    rw [thread.other_other] at hpe
    rcases hstep.leaves p hpe with hp' | hwithin
    · exact .inr ⟨p, hp, hpe, hp'⟩
    · exact .inl (hwithin.above (h.chains.grown c (h.entering_mem hentering)) hp)
  have hkept {c : ScannedChain} (hpe : ∃ p : ScannedChain, p.IsPrior c ∧ (st.phase thread).entering = some p ∧
      phase'.entering = some p) :
      ThreadState.PriorEntering ⟨sh', Function.update st.phase thread phase'⟩ thread.other c := by
    obtain ⟨p, hp, -, hp'⟩ := hpe
    refine ⟨p, hp, ?_⟩
    dsimp only
    rwa [thread.other_other, hself]
  have hown {c : ScannedChain} (hpe : st.PriorEntering thread c) :
      ThreadState.PriorEntering ⟨sh', Function.update st.phase thread phase'⟩ thread c := by
    obtain ⟨p, hp, hp'⟩ := hpe
    refine ⟨p, hp, ?_⟩
    dsimp only
    rwa [hother]
  refine ⟨fun c hc => ?_, fun thread' c hc => ?_, fun thread' c next hc => ?_⟩
  · rcases hstep.chains c hc with hc | hentering
    · rcases h.enter.settled c hc with hwithin | ⟨thread', hentering⟩
      · exact .inl (hwithin.grow hgrows.marked hmarked)
      · rcases thread.eq_or_eq_other thread' with rfl | rfl
        · rcases hstep.leaves c hentering with hentering | hwithin
          · exact .inr ⟨thread', (congrArg ThreadPhase.entering hself).trans hentering⟩
          · exact .inl hwithin
        · exact .inr ⟨thread.other, (congrArg ThreadPhase.entering hother).trans hentering⟩
    · exact .inr ⟨thread, (congrArg ThreadPhase.entering hself).trans hentering⟩
  · rcases thread.eq_or_eq_other thread' with rfl | rfl
    · exact (hstep.inserted c (hself ▸ hc)).imp_right hown
    · replace hc : st.phase thread.other = .inserted c := hother ▸ hc
      rcases h.enter.inserted _ c hc with hwithin | hpe
      · exact .inl (hwithin.grow hgrows.marked hmarked)
      · exact (hprior (by rw [hc]; rfl) hpe).imp_right hkept
  · rcases thread.eq_or_eq_other thread' with rfl | rfl
    · rcases hstep.waiting c next (hself ▸ hc) with hwithin | ⟨hnext, hwithin⟩
      · exact .inl hwithin
      · exact .inr (.inl ⟨hnext, hwithin.imp_right hown⟩)
    · replace hc : st.phase thread.other = .waiting c next := hother ▸ hc
      have hentering : (st.phase thread.other).entering = some c := by rw [hc]; rfl
      rcases h.enter.waiting _ c next hc with hwithin | ⟨hnext, hwithin⟩ | ⟨hpe, p, db, hwriting⟩
      · exact .inl (hwithin.grow hgrows.marked hmarked)
      · rcases hstep.marks with hsame | ⟨hnew, c', db, hwriting, hold⟩
        · refine .inr (.inl ⟨hsame ▸ hnext, ?_⟩)
          rcases hwithin with hwithin | hpe
          · exact .inl (hwithin.grow hgrows.marked hmarked)
          · exact (hprior hentering hpe).imp_right hkept
        · -- the thread has just marked the block
          rcases hwithin with hwithin | hpe
          · exact .inl (hwithin.next hnew hmarked)
          · obtain ⟨p, hp, hpe⟩ := hpe
            rw [thread.other_other] at hpe
            have hp' : phase'.entering = some p := by
              rw [hold] at hpe
              rw [hwriting, ← hpe]
              rfl
            refine .inr (.inr ⟨hkept ⟨p, hp, hpe, hp'⟩, c', db, ?_⟩)
            dsimp only
            rw [thread.other_other, hself, hwriting]
      · rw [thread.other_other] at hwriting
        obtain ⟨p', hp, hpe⟩ := hpe
        rw [thread.other_other, hwriting] at hpe
        obtain rfl := Option.some.inj hpe
        rcases hstep.writes p db hwriting with ⟨db', hwriting'⟩ | hdone
        · refine .inr (.inr ⟨hkept ⟨p, hp, by rw [hwriting]; rfl, by rw [hwriting']; rfl⟩, p, db', ?_⟩)
          dsimp only
          rw [thread.other_other, hself, hwriting']
        · exact .inl (hdone c hp (h.entering_mem hentering))

lemma ThreadStep.enterStep (h : ConfirmOk w st)
    (hstep : ThreadStep w thread st.shared (st.phase thread) sh' phase') : EnterStep st thread sh' phase' := by
  have hphase' := h.phases thread
  generalize hphase : st.phase thread = phase at hstep hphase'
  have hnone {c : ScannedChain} (hc : c ∈ st.shared.chains)
      (hscan : confirmScan st.shared.confirmState c.toBlockChain = .none) : st.shared.Within c 0 := fun hunder =>
    (Nat.le_succ _).trans (confirmScan_none (h.chains.grown c hc) hunder hscan)
  generalize hsh : st.shared = sh at hstep hphase' hnone
  have hquiet (hchains : sh'.chains = sh.chains) (hmarked : sh'.marked = sh.marked) (hold : phase.entering = none)
      (hnew : phase'.entering = none) : EnterStep st thread sh' phase' :=
    .quiet (hsh ▸ hchains) (hsh ▸ hmarked) (hphase ▸ hold) hnew
  cases hstep with
  | startNewBlock prior temp hold hprior htemp =>
    refine hquiet rfl rfl ?_ rfl
    rcases hold with rfl | ⟨task, rfl⟩ <;> rfl
  | giveUp hold =>
    refine hquiet rfl rfl ?_ rfl
    rcases hold with ⟨task, rfl⟩ | ⟨task, tx, ops, progress, rfl⟩ | ⟨chain, rfl⟩ <;> rfl
  | @validObjsInsert _ _ chain =>
    obtain ⟨hgrown, p, hp, hprior⟩ := hphase'
    refine ⟨fun c hc => ?_, fun c hc => ?_, .inl (hsh ▸ rfl), fun c db hc => ?_, fun c hc => ?_, fun c next hc => ?_⟩
    · rcases List.mem_cons.1 hc with rfl | hc
      · exact .inr rfl
      · exact .inl (hsh ▸ hc)
    · rw [hphase] at hc
      cases hc
    · rw [hphase] at hc
      cases hc
    · obtain rfl := ThreadPhase.inserted.inj hc
      rcases h.enter.settled p (hsh ▸ hp) with hwithin | ⟨thread', hentering⟩
      · exact .inl ((hsh ▸ hwithin : sh.Within p 0).above hgrown hprior)
      · rcases thread.eq_or_eq_other thread' with rfl | rfl
        · rw [hphase] at hentering
          cases hentering
        · exact .inr ⟨p, hprior, hentering⟩
    · cases hc
  | @confirmNone _ _ chain hscan =>
    refine ⟨fun c hc => .inl (hsh ▸ hc), fun c hc => .inr ?_, .inl (hsh ▸ rfl), fun c db hc => ?_,
      fun c hc => (by cases hc), fun c next hc => by cases hc⟩
    · rw [hphase] at hc
      obtain rfl := Option.some.inj hc
      exact hnone (hsh ▸ hphase') hscan
    · rw [hphase] at hc
      cases hc
  | @confirmFound _ _ chain next nconfsigs hscan hnext =>
    refine ⟨fun c hc => .inl (hsh ▸ hc), fun c hc => .inl ?_, .inl (hsh ▸ rfl), fun c db hc => ?_,
      fun c hc => (by cases hc), fun c next' hc => ?_⟩
    · rw [hphase] at hc
      exact hc
    · rw [hphase] at hc
      cases hc
    · obtain ⟨rfl, rfl⟩ := ThreadPhase.waiting.inj hc
      by_cases hmarked : sh'.marked.Under chain
      · refine .inr ⟨confirmScan_next (h.chains.grown chain (hsh ▸ hphase')) hmarked hnext hscan, ?_⟩
        exact hsh ▸ h.enter.inserted thread chain hphase
      · exact .inl fun hunder => absurd hunder hmarked
  | @alreadyMarked _ _ chain next hlock hmarked =>
    refine ⟨fun c hc => .inl (hsh ▸ hc), fun c hc => .inr ?_, .inl (hsh ▸ rfl), fun c db hc => ?_,
      fun c hc => (by cases hc), fun c next hc => by cases hc⟩
    · rw [hphase] at hc
      obtain rfl := Option.some.inj hc
      rcases h.enter.waiting thread chain next hphase with hwithin | ⟨hnext, -⟩ | ⟨-, p, db, hwriting⟩
      · exact hsh ▸ hwithin
      · have hlen := ScannedChain.IsPrior.length hnext
        have hle : next.priors.length ≤ sh'.marked.priors.length :=
          (List.length_map _).symm.trans_le (sh'.marked_length hmarked)
        rw [hsh] at hlen
        omega
      · have hlock' := (h.lock thread.other).2 (by rw [hwriting]; trivial)
        rw [hsh, hlock] at hlock'
        cases hlock'
    · rw [hphase] at hc
      cases hc
  | @beginWrite _ _ chain next db hlock hmarked hsequence hindex =>
    refine ⟨fun c hc => .inl (hsh ▸ hc), fun c hc => .inl ?_, .inr ⟨?_, chain, db, rfl, ?_⟩, fun c db hc => ?_,
      fun c hc => (by cases hc), fun c next hc => by cases hc⟩
    · rw [hphase] at hc
      exact hc
    · rw [hsh]
      exact hsequence
    · rw [hphase]
      rfl
    · rw [hphase] at hc
      cases hc
  | @writeNext _ _ chain next db nconfsigs db' hscan hnext hsequence hindex =>
    refine ⟨fun c hc => .inl (hsh ▸ hc), fun c hc => .inl ?_, .inr ⟨?_, chain, db', rfl, ?_⟩, fun c db hc => .inl ?_,
      fun c hc => (by cases hc), fun c next hc => by cases hc⟩
    · rw [hphase] at hc
      exact hc
    · rw [hsh]
      exact hsequence
    · rw [hphase]
      rfl
    · rw [hphase] at hc
      obtain ⟨rfl, -⟩ := ThreadPhase.writing.inj hc
      exact ⟨db', rfl⟩
  | @commit _ _ chain db hscan =>
    have hwriting : WritingOk w sh chain db := hphase'
    refine ⟨fun c hc => .inl (hsh ▸ hc), fun c hc => .inr ?_, .inl (hsh ▸ rfl), fun c db' hc => .inr ?_,
      fun c hc => (by cases hc), fun c next hc => by cases hc⟩
    · rw [hphase] at hc
      obtain rfl := Option.some.inj hc
      exact hnone (hsh ▸ hwriting.mem) hscan
    · rw [hphase] at hc
      obtain ⟨rfl, -⟩ := ThreadPhase.writing.inj hc
      rintro c' hprior hc' hunder
      have hdone := confirmScan_none (h.chains.grown chain (hsh ▸ hwriting.mem)) hwriting.marked hscan
      have hgrown := h.chains.grown c' hc'
      have hlevel := hgrown.level_prior hprior
      have hnskip := (hgrown.prior hprior).2
      dsimp only
      omega
  | _ => exact hquiet rfl rfl rfl rfl

/-- What holds of the threads of a node, after a step. -/
lemma ConfirmOk.step (h : ConfirmOk w st) (hstep : ThreadStep w thread st.shared (st.phase thread) sh' phase') :
    ConfirmOk w ⟨sh', Function.update st.phase thread phase'⟩ := by
  have hgrows := hstep.grows h.chains (h.phases thread)
  have hspares := hstep.spares (h.lock thread)
  have hok := hstep.ok h.chains (h.phases thread) h.deep
  have hchains := hstep.chainsOk h.chains (h.phases thread) hok (h.lock thread)
  refine ⟨hchains, fun thread' => ?_, fun thread' => ?_, (hstep.enterStep h).enterOk h hchains hgrows⟩ <;>
    rcases thread.eq_or_eq_other thread' with rfl | rfl <;> dsimp only
  · rw [Function.update_self]
    exact hstep.lock (h.lock thread')
  · rw [Function.update_of_ne thread.other_ne]
    exact hspares.lock.trans (h.lock _)
  · rw [Function.update_self]
    exact hok
  · rw [Function.update_of_ne thread.other_ne]
    exact (h.phases _).stable hgrows hspares (h.lock _)

/-- In every run, no chain is far ahead of the last block that is marked. -/
theorem ThreadsRun.confirmOk (h : ThreadsRun w st) : ConfirmOk w st := by
  induction h with
  | start genesis db hgenesis =>
    have hgrown : w.Grown db ⟨⟨genesis, []⟩, []⟩ := .genesis genesis hgenesis
    refine ⟨⟨fun c hc => ?_, fun c hc d hd _ => ?_, List.mem_singleton_self _, .refl _, Nat.zero_le _,
      fun d _ hd => ?_, fun _ => rfl⟩, fun _ => iff_of_false (fun h => by cases h) id, fun _ => trivial, ?_⟩
    · exact List.mem_singleton.1 hc ▸ hgrown
    · obtain rfl := List.mem_singleton.1 hc
      exact List.mem_singleton.2 (hd.eq_of_length (Nat.zero_le _))
    · exact (hgrown.level_le hd).trans (Nat.le_add_right_of_le (Nat.le_add_right _ _))
    · refine ⟨fun c hc => .inl fun _ => ?_, fun _ _ hc => (by cases hc), fun _ _ _ hc => by cases hc⟩
      rw [List.mem_singleton.1 hc]
      exact Nat.le_add_right_of_le (Nat.le_add_right _ _)
  | @step st st' hrun hstep ih =>
    cases hstep with
    | thread thread hstep => exact ih.step hstep
    | restart last hlast =>
      have hmem : w.Grown st.shared.db last := by
        rcases hlast with ⟨-, rfl⟩ | ⟨-, rfl⟩
        · exact ih.chains.grown _ ih.chains.marked
        · exact ((ih.chains.grown _ ih.chains.marked).under ih.chains.indelible).1
      refine ⟨⟨fun c hc => ?_, fun c hc d hd hlevel => ?_, List.mem_singleton_self _, .refl _, le_rfl,
        fun d _ hd => ?_, fun _ => rfl⟩, fun _ => iff_of_false (fun h => by cases h) id, fun _ => trivial, ?_⟩
      · exact List.mem_singleton.1 hc ▸ hmem
      · obtain rfl := List.mem_singleton.1 hc
        exact List.mem_singleton.2 (hmem.eq_of_level_le hd hlevel)
      · exact (hmem.level_le hd).trans (Nat.le_add_right_of_le (Nat.le_add_right _ _))
      · refine ⟨fun c hc => .inl fun _ => ?_, fun _ _ hc => (by cases hc), fun _ _ _ hc => by cases hc⟩
        rw [List.mem_singleton.1 hc]
        exact Nat.le_add_right_of_le (Nat.le_add_right _ _)

/-- However the threads are interleaved, a chain through the last block that is marked for indelible is ahead of it by
no more blocks than a block needs to be confirmed past a skipped witness, and two. -/
theorem ThreadsRun.level_le_marked (h : ThreadsRun w st) : ∀ c ∈ st.shared.chains,
    st.shared.marked.blocks <:+ c.blocks →
      c.tip.block.level ≤ st.shared.marked.tip.block.level + c.tip.block.nskipconfsigs + 2 :=
  h.confirmOk.deep

end Enter

section Example

/-- The world of the example of the payments, with a sole witness and no end of the mint. -/
def exampleSpendWorld : SpendWorld where
  env := exampleNow
  hash := exampleSystem.hash
  paymentIdHash := rfl
  hashesBody := ⟨fun _ _ => 0, fun _ => rfl⟩
  keyOrder := Function.Embedding.refl ℕ
  mintEnd := none
  genesisNwitnesses := 1
  genesisMaxmal := 0

/-- A block with a payment claim. -/
def claimBlock : Block := { soleBlock 1 mainnetMiningStart with txs := [exampleClaim 1] }

/-- The genesis block, and what the threads share after it. -/
def claimPrior : ScannedChain := ⟨⟨soleBlock 0 mainnetMiningStart, []⟩, []⟩

def claimStart : SharedState where
  db := matchDb .accepted
  chains := [claimPrior]
  indelible := claimPrior
  marked := claimPrior

/-- A step of the thread that validates blocks, while the other one is idle. -/
lemma ThreadsRun.process {w : SpendWorld} {sh sh' : SharedState} {phase phase' : ThreadPhase}
    (h : ThreadsRun w ⟨sh, Function.update (fun _ => .idle) .process phase⟩)
    (hstep : ThreadStep w .process sh phase sh' phase') :
    ThreadsRun w ⟨sh', Function.update (fun _ => .idle) .process phase'⟩ := by
  have hself : Function.update (fun _ => ThreadPhase.idle) BlockThread.process phase .process = phase :=
    Function.update_self ..
  have hnext := h.step (.thread .process (hself.symm ▸ hstep))
  dsimp only at hnext
  rwa [Function.update_idem] at hnext

lemma claimStart_run :
    ThreadsRun exampleSpendWorld ⟨claimStart, Function.update (fun _ => .idle) .process .idle⟩ := by
  have hgenesis : exampleSpendWorld.Genesis (soleBlock 0 mainnetMiningStart) := ⟨rfl, rfl, by decide, by decide, by decide⟩
  have hstart := ThreadsRun.start (soleBlock 0 mainnetMiningStart) (matchDb .accepted) hgenesis
  rwa [Function.update_eq_self]

/-- The chain of the block with the payment claim, as it was found. -/
def claimChain : ScannedChain :=
  ⟨⟨exampleSpendWorld.chainBlock claimPrior.tip.block claimBlock,
    [scannedTx exampleNow.toEnv claimStart.db (exampleClaim 1)]⟩, claimPrior.blocks⟩

/-- The block is validated, step by step. -/
lemma claimRun : ∃ temp, ThreadsRun exampleSpendWorld
    ⟨{ claimStart with temp := temp, chains := [claimChain, claimPrior] },
      Function.update (fun _ => .idle) .process (.inserted claimChain)⟩ := by
  obtain ⟨tx, hparse⟩ : ∃ tx, (txFromWire exampleNow.blake2s (exampleClaim 1) {}).1 = .ok tx :=
    isOk_eq_true.1 (by decide +kernel)
  have hchecks : (txFromWire exampleNow.blake2s (exampleClaim 1) {}).1.toOption.any (fun tx =>
      (extractXtxWithMatch exampleNow.toEnv claimStart.db tx).isSome &&
        (recheckXtx claimStart.view claimPrior.toBlockChain tx
          (extractXtxWithMatch exampleNow.toEnv claimStart.db tx)).isOk) = true := by decide +kernel
  rw [hparse] at hchecks
  obtain ⟨hextract, hrecheck⟩ := Bool.and_eq_true_iff.1 hchecks
  obtain ⟨_, hrecheck⟩ := isOk_eq_true.1 hrecheck
  obtain ⟨s, hs⟩ : ∃ s, (scannedTx exampleSpendWorld.env.toEnv claimStart.db (exampleClaim 1)).serialnums = [s] :=
    List.length_eq_one_iff.1 (by decide +kernel)
  have hvalidate := claimStart_run.process <| .validate claimPrior claimBlock [] (List.mem_singleton_self _) rfl
    (by decide) (by decide) (by decide +kernel) (.inl rfl)
  have hscan := hvalidate.process <| .scanTx claimBlock (exampleClaim 1) tx rfl List.prefix_rfl hparse
    (fun h => Option.isSome_iff_ne_none.1 hextract h.1) hrecheck
  rw [hs] at hscan
  have hfree : tempSerialnumSelect exampleSpendWorld.keyOrder [] s none = [] := rfl
  have hcheck := ((hscan.process .checkSnapshot).process (.checkPersistent rfl)).process
    (.checkLastPage (by simp [PageFree, tempSerialnumSelect]))
  have hinsert := hcheck.process (.insert _ rfl)
  exact ⟨_, ((hinsert.process .addTx).process (.validated claimBlock rfl rfl)).process .validObjsInsert⟩

/-- The chain with the payment claim is one block ahead of the genesis block. -/
theorem claimRun_level_le_marked : claimChain.level = 1 ∧ claimChain.level ≤ 0 + claimChain.nskip + 2 := by
  obtain ⟨temp, hrun⟩ := claimRun
  exact ⟨rfl, hrun.level_le_marked claimChain (List.mem_cons_self ..) ⟨[_], rfl⟩⟩

end Example

end CredaCash.Chain
