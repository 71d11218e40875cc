import CredaCash.Chain.SigOrder

/-! How blocks become indelible: a block is confirmed by the blocks that follow it on a chain. -/

namespace CredaCash.Chain
open Rotation

/-- How the indexing of a new indelible block ends, after its place in the sequence was checked: a failure
need not set a fatal error. -/
inductive IndexResult
  | ok | failed | fatal
  deriving DecidableEq

/-- What the database does: the indexing of a block after the earlier ones, and the commit of a write. -/
structure ConfirmEnv where
  index : List Block → Block → IndexResult
  commits : List Block → Bool
  /-- `IndexTxs` only ends without a fatal error in its loop over the transactions. -/
  failed_txs : ∀ earlier b, index earlier b = .failed → b.txs ≠ []

/-- What a node keeps of indelible blocks: the marks `marked_for_indelible`, the last and the new indelible
block, and the `Blockchain` table, the newest block first. -/
structure ConfirmState where
  marked : List BlockChain := []
  lastIndelibleBlock : Option Block := none
  newIndelibleBlock : Option Block := none
  blockchain : List Block := []
  fatalError : Bool := false

/-- The scan back from a block to the oldest one that is not marked, which counts the blocks; none for an
error in the sequence of their levels. -/
def scanBack (marked : List BlockChain) : Block → List Block → Option (ℕ × BlockChain)
  | b, [] => some (1, ⟨b, []⟩)
  | b, prior :: rest =>
    if prior.level ≠ (b.level + 2^64 - 1) % 2^64 then none
    else if ⟨prior, rest⟩ ∈ marked then some (1, ⟨b, prior :: rest⟩)
    else (scanBack marked prior rest).map fun scan => (scan.1 + 1, scan.2)

/-- The number of blocks is enough to confirm the oldest one. -/
def enoughConfSigs (tip oldest : Block) (nconfsigs : ℕ) : Bool :=
  !(nconfsigs < tip.nseqconfsigs || (oldest.skip ≠ 0 && nconfsigs < tip.nskipconfsigs))

/-- What `DoConfirmOne` finds: nothing to do, an error, or the number of blocks back to the one to be made
indelible. -/
inductive ConfirmScan
  | none | error
  | found (nconfsigs : ℕ) (oldest : BlockChain)
  deriving DecidableEq

def confirmScan (st : ConfirmState) (chain : BlockChain) : ConfirmScan :=
  if chain ∈ st.marked then .none
  else
    match scanBack st.marked chain.tip chain.priors with
    | none => .error
    | some (nconfsigs, oldest) =>
      if st.lastIndelibleBlock.isSome && !enoughConfSigs chain.tip oldest.tip nconfsigs then .none
      else .found nconfsigs oldest

/-- A block does not follow the last indelible one. The assertion on the first block throws, which is
taken as a fatal error too. -/
def badSequence (last : Option Block) (b : Block) : Bool :=
  match last with
  | none => b.level ≠ 0
  | some last => b.level ≠ last.level + 1 || b.priorOid ≠ last.oid

/-- `SetNewlyIndelibleBlock`: true at an error. -/
def setNewlyIndelibleBlock (env : ConfirmEnv) (st : ConfirmState) (node : BlockChain) : Bool × ConfirmState :=
  if node ∈ st.marked then (true, st)
  else
    let last := st.newIndelibleBlock <|> st.lastIndelibleBlock
    let st := { st with marked := node :: st.marked }
    if badSequence last node.tip then (true, { st with fatalError := true })
    else
      match env.index st.blockchain node.tip with
      | .fatal => (true, { st with fatalError := true })
      | .failed => (true, st)
      | .ok => (false, { st with newIndelibleBlock := some node.tip, blockchain := node.tip :: st.blockchain })

/-- `DoConfirmOne`: true if there is no other block to make indelible. -/
def doConfirmOne (env : ConfirmEnv) (st : ConfirmState) (chain : BlockChain) : Bool × ConfirmState :=
  match confirmScan st chain with
  | .none => (true, st)
  | .error => (true, { st with fatalError := true })
  | .found _ oldest => setNewlyIndelibleBlock env st oldest

/-- The loop of `DoConfirmationLoop`, which makes at most as many blocks indelible as the chain has. -/
def confirmLoop (env : ConfirmEnv) (chain : BlockChain) : ℕ → ConfirmState → ConfirmState
  | 0, st => st
  | n+1, st =>
    match doConfirmOne env st chain with
    | (true, st) => st
    | (false, st) => confirmLoop env chain n st

def doConfirmations (env : ConfirmEnv) (st : ConfirmState) (chain : BlockChain) : ConfirmState :=
  if st.fatalError then st
  else
    let st := confirmLoop env chain (chain.priors.length + 1) st
    if st.fatalError then st
    else
      match st.newIndelibleBlock with
      | none => st
      | some b =>
        if env.commits st.blockchain then { st with lastIndelibleBlock := some b, newIndelibleBlock := none }
        else { st with fatalError := true }

/-- The block of `SetGenesisBlock`. -/
structure Genesis where
  block : Block
  level_eq : block.level = 0
  txs_eq : block.txs = []

/-- `BlockChain::Init` of a new node, which makes the genesis block indelible. -/
def initConfirmations (env : ConfirmEnv) (genesis : Genesis) : ConfirmState :=
  doConfirmations env {} ⟨genesis.block, []⟩

/-- The blocks that are passed to `DoConfirmations`, each with its chain. -/
def confirmAll (env : ConfirmEnv) (genesis : Genesis) (chains : List BlockChain) : ConfirmState :=
  chains.foldl (doConfirmations env) (initConfirmations env genesis)

/-- The blocks of a chain, each with its prior blocks. -/
def chainNodes : Block → List Block → List BlockChain
  | b, [] => [⟨b, []⟩]
  | b, prior :: rest => ⟨b, prior :: rest⟩ :: chainNodes prior rest

/-- The result of a scan: a block of the chain that is not marked, with its place. -/
structure Scanned (marked : List BlockChain) (chain : BlockChain) (nconfsigs : ℕ) (oldest : BlockChain) : Prop where
  mem : oldest ∈ chainNodes chain.tip chain.priors
  unmarked : oldest ∉ marked
  pos : 0 < nconfsigs
  blocks : oldest.blocks = chain.blocks.drop (nconfsigs - 1)

lemma scanBack_scanned {marked : List BlockChain} {b : Block} {priors : List Block} {nconfsigs : ℕ}
    {oldest : BlockChain} (hb : ⟨b, priors⟩ ∉ marked) (h : scanBack marked b priors = some (nconfsigs, oldest)) :
    Scanned marked ⟨b, priors⟩ nconfsigs oldest := by
  induction priors generalizing b nconfsigs with
  | nil =>
    obtain ⟨rfl, rfl⟩ := Prod.mk.inj (Option.some.inj h)
    exact ⟨List.mem_singleton_self _, hb, Nat.one_pos, rfl⟩
  | cons prior rest ih =>
    simp only [scanBack] at h
    split_ifs at h with hlevel hmarked
    · obtain ⟨rfl, rfl⟩ := Prod.mk.inj (Option.some.inj h)
      exact ⟨List.mem_cons_self .., hb, Nat.one_pos, rfl⟩
    · obtain ⟨⟨n, oldest'⟩, hscan, heq⟩ := Option.map_eq_some_iff.1 h
      obtain ⟨rfl, rfl⟩ := Prod.mk.inj heq
      have hrest := ih hmarked hscan
      refine ⟨List.mem_cons_of_mem _ hrest.mem, hrest.unmarked, Nat.succ_pos _, ?_⟩
      obtain ⟨n, rfl⟩ : ∃ k, n = k + 1 := ⟨n - 1, by have := hrest.pos; omega⟩
      exact hrest.blocks

/-- A block is confirmed by the tip of a chain: enough blocks follow it, itself counted. -/
def ConfirmedBy (chain : BlockChain) (b : Block) : Prop :=
  ∃ nconfsigs, (chain.blocks.drop (nconfsigs - 1)).head? = some b ∧ chain.tip.nseqconfsigs ≤ nconfsigs ∧
    (b.skip ≠ 0 → chain.tip.nskipconfsigs ≤ nconfsigs)

lemma enoughConfSigs_eq_true {tip oldest : Block} {n : ℕ} : enoughConfSigs tip oldest n = true ↔
    tip.nseqconfsigs ≤ n ∧ (oldest.skip ≠ 0 → tip.nskipconfsigs ≤ n) := by
  simp only [enoughConfSigs, Bool.not_eq_true', Bool.or_eq_false_iff, Bool.and_eq_false_iff, decide_eq_false_iff_not,
    not_lt, ne_eq, not_not]
  tauto

lemma confirmScan_found {st : ConfirmState} {chain oldest : BlockChain} {nconfsigs : ℕ}
    (h : confirmScan st chain = .found nconfsigs oldest) : Scanned st.marked chain nconfsigs oldest ∧
      (st.lastIndelibleBlock.isSome = true → enoughConfSigs chain.tip oldest.tip nconfsigs = true) := by
  unfold confirmScan at h
  split_ifs at h with hmarked
  split at h
  · cases h
  · rename_i n oldest' hscan
    split_ifs at h with hstop
    obtain ⟨rfl, rfl⟩ := ConfirmScan.found.inj h
    refine ⟨scanBack_scanned hmarked hscan, fun hsome => ?_⟩
    simpa [hsome] using hstop

/-- What holds of the blocks that were made indelible. -/
structure Indelible (env : ConfirmEnv) (genesis : Block) (chains : List BlockChain) (st : ConfirmState) : Prop where
  root : st.blockchain.getLast? = some genesis
  sequence : st.blockchain.IsChain fun b prior => b.level = prior.level + 1 ∧ b.priorOid = prior.oid
  confirmed : ∀ b ∈ st.blockchain, b = genesis ∨ ∃ chain ∈ chains, ConfirmedBy chain b
  marked : ∀ node ∈ st.marked, node.tip ∈ st.blockchain ∨ ∃ earlier, env.index earlier node.tip = .failed

/-- What a run keeps: besides, the last indelible block is known. -/
structure Confirming (env : ConfirmEnv) (genesis : Block) (chains : List BlockChain) (st : ConfirmState) : Prop
    extends Indelible env genesis chains st where
  started : st.lastIndelibleBlock.isSome = true
  last : (st.newIndelibleBlock <|> st.lastIndelibleBlock) = st.blockchain.head?

section Step
variable {env : ConfirmEnv} {genesis : Block} {chains : List BlockChain} {st : ConfirmState}

lemma Confirming.setNewlyIndelibleBlock (h : Confirming env genesis chains st) {node : BlockChain}
    (hnode : ∃ chain ∈ chains, ConfirmedBy chain node.tip) :
    (setNewlyIndelibleBlock env st node).1 = true ∧ (setNewlyIndelibleBlock env st node).2.fatalError = true ∨
      Confirming env genesis chains (setNewlyIndelibleBlock env st node).2 := by
  unfold Chain.setNewlyIndelibleBlock
  dsimp only
  split_ifs with hmarked hbad
  · exact Or.inr h
  · exact Or.inl ⟨rfl, rfl⟩
  cases hindex : env.index st.blockchain node.tip with
  | fatal => exact Or.inl ⟨rfl, rfl⟩
  | failed =>
    refine Or.inr ⟨⟨h.root, h.sequence, h.confirmed, fun other hother => ?_⟩, h.started, h.last⟩
    rcases List.mem_cons.1 hother with rfl | hother
    · exact Or.inr ⟨_, hindex⟩
    · exact h.marked other hother
  | ok =>
    obtain ⟨b, rest, hchain⟩ := List.exists_cons_of_ne_nil (show st.blockchain ≠ [] from fun hnil => by
      have := h.root
      rw [hnil] at this
      cases this)
    have hlast : (st.newIndelibleBlock <|> st.lastIndelibleBlock) = some b := by rw [h.last, hchain]; rfl
    rw [hlast] at hbad
    simp only [badSequence, ne_eq, Bool.or_eq_true, decide_eq_true_eq, not_or, not_not] at hbad
    refine Or.inr ⟨⟨?_, ?_, ?_, ?_⟩, h.started, rfl⟩
    · dsimp only
      rw [List.getLast?_cons, h.root]
      rfl
    · dsimp only
      rw [hchain]
      exact List.isChain_cons_cons.2 ⟨hbad, hchain ▸ h.sequence⟩
    · intro c hc
      rcases List.mem_cons.1 hc with rfl | hc
      · exact Or.inr hnode
      · exact h.confirmed c hc
    · intro other hother
      rcases List.mem_cons.1 hother with rfl | hother
      · exact Or.inl (List.mem_cons_self ..)
      · exact (h.marked other hother).imp_left (List.mem_cons_of_mem _)

lemma Confirming.doConfirmOne (h : Confirming env genesis chains st) {chain : BlockChain} (hchain : chain ∈ chains) :
    (doConfirmOne env st chain).1 = true ∧ (doConfirmOne env st chain).2.fatalError = true ∨
      Confirming env genesis chains (doConfirmOne env st chain).2 := by
  unfold Chain.doConfirmOne
  cases hscan : confirmScan st chain with
  | none => exact Or.inr h
  | error => exact Or.inl ⟨rfl, rfl⟩
  | found nconfsigs oldest =>
    obtain ⟨hscanned, henough⟩ := confirmScan_found hscan
    refine h.setNewlyIndelibleBlock ⟨chain, hchain, nconfsigs, ?_, enoughConfSigs_eq_true.1 (henough h.started)⟩
    rw [← hscanned.blocks]
    rfl

lemma Confirming.confirmLoop (h : Confirming env genesis chains st) {chain : BlockChain} (hchain : chain ∈ chains)
    (n : ℕ) : (confirmLoop env chain n st).fatalError = true ∨
      Confirming env genesis chains (confirmLoop env chain n st) := by
  induction n generalizing st with
  | zero => exact Or.inr h
  | succ n ih =>
    have hstep := h.doConfirmOne hchain
    unfold Chain.confirmLoop
    split
    · rename_i st' heq
      rw [heq] at hstep
      exact hstep.imp_left And.right
    · rename_i st' heq
      rw [heq] at hstep
      exact ih (hstep.resolve_left fun hfatal => Bool.false_ne_true hfatal.1)

lemma Confirming.doConfirmations (h : Confirming env genesis chains st) {chain : BlockChain} (hchain : chain ∈ chains) :
    (doConfirmations env st chain).fatalError = true ∨ Confirming env genesis chains (doConfirmations env st chain) := by
  unfold Chain.doConfirmations
  by_cases hfatal : st.fatalError = true
  · rw [if_pos hfatal]
    exact Or.inl hfatal
  rw [if_neg hfatal]
  dsimp only
  by_cases hfatal' : (Chain.confirmLoop env chain (chain.priors.length + 1) st).fatalError = true
  · rw [if_pos hfatal']
    exact Or.inl hfatal'
  rw [if_neg hfatal']
  have hloop := (h.confirmLoop hchain _).resolve_left hfatal'
  cases hnew : (Chain.confirmLoop env chain (chain.priors.length + 1) st).newIndelibleBlock with
  | none => exact Or.inr hloop
  | some b =>
    dsimp only
    split_ifs
    · have hlast := hloop.last
      rw [hnew] at hlast
      exact Or.inr ⟨⟨hloop.root, hloop.sequence, hloop.confirmed, hloop.marked⟩, rfl, hlast⟩
    · exact Or.inl rfl

end Step

/-- The genesis block is made indelible as it is, for want of a last indelible block. -/
lemma initConfirmations_confirming (env : ConfirmEnv) (genesis : Genesis) (chains : List BlockChain) :
    (initConfirmations env genesis).fatalError = true ∨
      Confirming env genesis.block chains (initConfirmations env genesis) := by
  have hbad : badSequence none genesis.block = false := by simp [badSequence, genesis.level_eq]
  have hone : doConfirmOne env {} ⟨genesis.block, []⟩ = setNewlyIndelibleBlock env {} ⟨genesis.block, []⟩ := rfl
  have hfirst : setNewlyIndelibleBlock env {} ⟨genesis.block, []⟩ =
      match env.index [] genesis.block with
      | .fatal => (true, { marked := [⟨genesis.block, []⟩], fatalError := true })
      | .failed => (true, { marked := [⟨genesis.block, []⟩] })
      | .ok => (false, { marked := [⟨genesis.block, []⟩], newIndelibleBlock := some genesis.block,
                         blockchain := [genesis.block] }) := by
    simp only [setNewlyIndelibleBlock, List.not_mem_nil, if_false]
    rw [show ((none : Option Block) <|> none) = none from rfl, hbad]
    rfl
  unfold initConfirmations Chain.doConfirmations
  simp only [Chain.confirmLoop, List.length_nil, hone, hfirst]
  cases hindex : env.index [] genesis.block with
  | fatal => exact Or.inl rfl
  | failed => exact absurd genesis.txs_eq (env.failed_txs _ _ hindex)
  | ok =>
    simp only [Bool.false_eq_true, if_false]
    split_ifs
    · refine Or.inr ⟨⟨rfl, List.isChain_singleton _, fun b hb => Or.inl (List.mem_singleton.1 hb), fun node hnode => ?_⟩,
        rfl, rfl⟩
      rw [List.mem_singleton.1 hnode]
      exact Or.inl (List.mem_singleton_self _)
    · exact Or.inl rfl

lemma confirmAll_confirming (env : ConfirmEnv) (genesis : Genesis) (chains : List BlockChain) {done : List BlockChain}
    (hdone : done ⊆ chains) : (confirmAll env genesis done).fatalError = true ∨
      Confirming env genesis.block chains (confirmAll env genesis done) := by
  induction done using List.reverseRecOn with
  | nil => exact initConfirmations_confirming env genesis chains
  | append_singleton done chain ih =>
    rw [confirmAll, List.foldl_append]
    rcases ih (fun c hc => hdone (List.mem_append_left _ hc)) with hfatal | hconfirming
    · left
      change (doConfirmations env (confirmAll env genesis done) chain).fatalError = true
      unfold Chain.doConfirmations
      rwa [if_pos hfatal]
    · exact hconfirming.doConfirmations (hdone (List.mem_append_right _ (List.mem_singleton_self _)))

lemma Indelible.nodup {env : ConfirmEnv} {genesis : Block} {chains : List BlockChain} {st : ConfirmState}
    (h : Indelible env genesis chains st) : st.blockchain.Nodup := by
  have hlevels : (st.blockchain.map (·.level)).Pairwise (· > ·) := by
    rw [← List.isChain_iff_pairwise, List.isChain_map]
    exact h.sequence.imp fun b prior hb => by rw [hb.1]; exact Nat.lt_succ_self _
  exact List.Nodup.of_map _ (hlevels.imp fun hgt => hgt.ne')

/-- In whatever order blocks are passed to `DoConfirmations`, there is a fatal error, or the blocks that were
made indelible are one chain from the genesis block, without a block twice, each confirmed by enough blocks;
other blocks are only marked when their indexing failed. -/
theorem confirmAll_indelible (env : ConfirmEnv) (genesis : Genesis) (chains : List BlockChain) :
    (confirmAll env genesis chains).fatalError = true ∨
      Indelible env genesis.block chains (confirmAll env genesis chains) ∧
        (confirmAll env genesis chains).blockchain.Nodup :=
  (confirmAll_confirming env genesis chains (List.Subset.refl _)).imp_right fun h =>
    ⟨h.toIndelible, h.toIndelible.nodup⟩


section Fuel
variable {env : ConfirmEnv} {st : ConfirmState} {chain : BlockChain}

/-- The blocks of a chain that are not marked. -/
def unmarkedNodes (st : ConfirmState) (chain : BlockChain) : List BlockChain :=
  (chainNodes chain.tip chain.priors).filter (· ∉ st.marked)

lemma chainNodes_length (b : Block) (priors : List Block) : (chainNodes b priors).length = priors.length + 1 := by
  induction priors generalizing b with
  | nil => rfl
  | cons prior rest ih => rw [chainNodes, List.length_cons, ih, List.length_cons]

lemma mem_chainNodes (b : Block) (priors : List Block) : ⟨b, priors⟩ ∈ chainNodes b priors := by
  cases priors with
  | nil => exact List.mem_singleton_self _
  | cons prior rest => exact List.mem_cons_self ..

/-- A block that was made indelible was not marked before. -/
lemma doConfirmOne_marks {st' : ConfirmState} (h : doConfirmOne env st chain = (false, st')) :
    ∃ node ∈ unmarkedNodes st chain, st'.marked = node :: st.marked := by
  unfold doConfirmOne at h
  cases hscan : confirmScan st chain with
  | none => rw [hscan] at h; cases h
  | error => rw [hscan] at h; cases h
  | found nconfsigs oldest =>
    rw [hscan] at h
    obtain ⟨hscanned, -⟩ := confirmScan_found hscan
    refine ⟨oldest, List.mem_filter.2 ⟨hscanned.mem, by simpa using hscanned.unmarked⟩, ?_⟩
    simp only [setNewlyIndelibleBlock, hscanned.unmarked, if_false] at h
    split_ifs at h
    · cases h
    · split at h
      · cases h
      · cases h
      · exact (Prod.mk.inj h).2 ▸ rfl

/-- Each round of the loop marks a block, so that the loop ends by itself. -/
lemma confirmLoop_succ {n : ℕ} (h : (unmarkedNodes st chain).length ≤ n) :
    confirmLoop env chain (n + 1) st = confirmLoop env chain n st := by
  induction n generalizing st with
  | zero =>
    have hmarked : chain ∈ st.marked := by
      by_contra hnot
      have hmem : chain ∈ unmarkedNodes st chain :=
        List.mem_filter.2 ⟨mem_chainNodes chain.tip chain.priors, by simpa using hnot⟩
      rw [List.length_eq_zero_iff.1 (Nat.le_zero.1 h)] at hmem
      cases hmem
    have hone : doConfirmOne env st chain = (true, st) := by
      rw [doConfirmOne, confirmScan, if_pos hmarked]
    simp only [confirmLoop, hone]
  | succ n ih =>
    rw [confirmLoop]
    conv_rhs => rw [confirmLoop]
    rcases hone : doConfirmOne env st chain with ⟨_ | _, st'⟩
    · obtain ⟨node, hnode, hmarked⟩ := doConfirmOne_marks hone
      refine ih (Nat.lt_succ_iff.1 (Nat.lt_of_lt_of_le ?_ h))
      have hsub : unmarkedNodes st' chain = (unmarkedNodes st chain).filter (· ≠ node) := by
        unfold unmarkedNodes
        rw [List.filter_filter, hmarked]
        refine List.filter_congr fun other _ => ?_
        simp [not_or]
      rw [hsub]
      exact List.length_filter_lt_length_iff_exists.2 ⟨node, hnode, by simp⟩
    · rfl

/-- More rounds than the chain has blocks change nothing. -/
theorem confirmLoop_enough (extra : ℕ) :
    confirmLoop env chain (chain.priors.length + 1 + extra) st = confirmLoop env chain (chain.priors.length + 1) st := by
  induction extra with
  | zero => rfl
  | succ extra ih =>
    rw [← ih]
    refine confirmLoop_succ (n := chain.priors.length + 1 + extra) ?_
    exact ((List.length_filter_le _ _).trans_eq (chainNodes_length ..)).trans (Nat.le_add_right _ _)

end Fuel

section Quorum
variable {p : WitnessParams}

/-- `nseqconfsigs` of `SetConfSigs`. -/
def WitnessParams.nseqconfsigs (p : WitnessParams) : ℕ :=
  Nat.min (if p.maxmal ≠ 0 then p.nwitnesses + p.maxmal else (p.nwitnesses - p.maxmal) / 2 + p.maxmal + 1) maxNconfsigs

/-- A chain as `BlockValidate` lets it grow while the parameters of the witnesses stay the same: the signing
order holds, and each block is signed by one of the witnesses. -/
structure SignedChain (p : WitnessParams) extends BlockChain where
  sigChain : SigChain toBlockChain.blocks
  hasParams : HasParams p toBlockChain.blocks
  signers : ∀ b ∈ toBlockChain.blocks, b.witness < p.nwitnesses ∧ b.witness < maxNwitnesses
  confSigs : ∀ b, toBlockChain.blocks = [b] → setConfSigs b = b

/-- The witnesses that signed some blocks. -/
def signersOf (blocks : List Block) : Finset ℕ := (blocks.map (·.witness)).toFinset

lemma WitnessParams.nconfsigs_le_nseqconfsigs (p : WitnessParams) : p.nconfsigs ≤ p.nseqconfsigs := by
  have hlt := p.maxmal_lt
  unfold nconfsigs nseqconfsigs
  generalize maxNconfsigs = cap
  split_ifs with hm
  · refine Nat.le_min.2 ⟨(Nat.min_le_left ..).trans ?_, Nat.min_le_right ..⟩
    omega
  · exact le_refl _

lemma setConfSigs_nseqconfsigs {b : Block} (hn : b.nwitnesses = p.nwitnesses) (hm : b.maxmal = p.maxmal) :
    (setConfSigs b).nseqconfsigs = p.nseqconfsigs := by
  have hmax : Nat.max b.nwitnesses 1 = p.nwitnesses := by
    rw [hn]
    exact Nat.max_eq_left p.nwitnesses_pos
  have hmal : ¬ (p.nwitnesses + 1) / 2 ≤ p.maxmal := not_le.2 p.maxmal_lt
  simp only [setConfSigs, hmax, hm, if_neg hmal]
  rfl

lemma chainToPriorBlock_nseqconfsigs {prior b : Block}
    (hn : (chainToPriorBlock prior b).nwitnesses = p.nwitnesses) (hm : (chainToPriorBlock prior b).maxmal = p.maxmal) :
    (chainToPriorBlock prior b).nseqconfsigs = p.nseqconfsigs := by
  rw [WitnessParams.nseqconfsigs, ← hn, ← hm]
  unfold chainToPriorBlock setConfSigs
  rfl

lemma SignedChain.tip_nseqconfsigs (c : SignedChain p) : c.tip.nseqconfsigs = p.nseqconfsigs := by
  obtain ⟨hn, hm⟩ := c.hasParams c.tip (List.mem_cons_self ..)
  have hsig := c.sigChain
  have hfirst := c.confSigs
  unfold BlockChain.blocks at hsig hfirst
  generalize c.tip = tip at hn hm hsig hfirst ⊢
  generalize c.priors = priors at hsig hfirst
  cases hsig with
  | genesis =>
    rw [← hfirst tip rfl]
    exact setConfSigs_nseqconfsigs hn hm
  | block received => exact chainToPriorBlock_nseqconfsigs hn hm

/-- The margin behind indelibility: two quorums have more than `maxmal` witnesses in common. -/
lemma WitnessParams.two_quorums (p : WitnessParams) {common : ℕ} (hcap : p.nconfsigs ≤ maxNwitnesses)
    (h : p.nconfsigs + p.nconfsigs ≤ p.nwitnesses + common) : p.maxmal + 1 ≤ common := by
  have hlt := p.maxmal_lt
  have hle : (p.nwitnesses - p.maxmal) / 2 + p.maxmal + 1 ≤ p.nconfsigs := by
    unfold nconfsigs at hcap ⊢
    rcases le_total ((p.nwitnesses - p.maxmal) / 2 + p.maxmal + 1) maxNconfsigs with hmin | hmin
    · exact (Nat.min_eq_left hmin).ge
    · exact absurd ((Nat.min_eq_right hmin).ge.trans hcap) (by decide)
  omega

/-- When `DoConfirmOne` confirms a block on each of two chains, any `nconfsigs` consecutive confirming blocks
of the one and of the other have more than `maxmal` signers in common. -/
theorem confirmed_common_signers {c c' : SignedChain p} {st st' : ConfirmState} {n n' : ℕ} {oldest oldest' : BlockChain}
    (hstarted : st.lastIndelibleBlock.isSome = true) (hstarted' : st'.lastIndelibleBlock.isSome = true)
    (hfound : confirmScan st c.toBlockChain = .found n oldest)
    (hfound' : confirmScan st' c'.toBlockChain = .found n' oldest') :
    p.nconfsigs ≤ n ∧ p.nconfsigs ≤ n' ∧ ∀ window window', window <:+: c.blocks.take n → window' <:+: c'.blocks.take n' →
      window.length = p.nconfsigs → window'.length = p.nconfsigs →
        p.maxmal + 1 ≤ (signersOf window ∩ signersOf window').card := by
  have hcount {c : SignedChain p} {st : ConfirmState} {n : ℕ} {oldest : BlockChain}
      (hstarted : st.lastIndelibleBlock.isSome = true) (hfound : confirmScan st c.toBlockChain = .found n oldest) :
      p.nconfsigs ≤ n := by
    have henough := (enoughConfSigs_eq_true.1 ((confirmScan_found hfound).2 hstarted)).1
    rw [c.tip_nseqconfsigs] at henough
    exact p.nconfsigs_le_nseqconfsigs.trans henough
  refine ⟨hcount hstarted hfound, hcount hstarted' hfound', fun window window' hw hw' hlen hlen' => ?_⟩
  have hw := hw.trans (List.take_prefix ..).isInfix
  have hw' := hw'.trans (List.take_prefix ..).isInfix
  have hnodup := c.sigChain.signers_nodup c.hasParams hw hlen
  have hnodup' := c'.sigChain.signers_nodup c'.hasParams hw' hlen'
  have hbound {c : SignedChain p} {window : List Block} (hw : window <:+: c.blocks) (k : ℕ)
      (hk : ∀ b ∈ c.blocks, b.witness < k) : ∀ x ∈ window.map (·.witness), x < k := by
    intro x hx
    obtain ⟨b, hb, rfl⟩ := List.mem_map.1 hx
    exact hk b (hw.subset hb)
  refine p.two_quorums ?_ ?_
  · -- different witnesses below `MAX_NWITNESSES`
    have hsub : (window.map (·.witness)).length ≤ (List.range maxNwitnesses).length :=
      (hnodup.subperm fun x hx => List.mem_range.2 (hbound hw _ (fun b hb => (c.signers b hb).2) x hx)).length_le
    rwa [List.length_map, hlen, List.length_range] at hsub
  · have hcommon := common_places hnodup hnodup' (hbound hw _ fun b hb => (c.signers b hb).1)
      (hbound hw' _ fun b hb => (c'.signers b hb).1)
    rwa [List.length_map, List.length_map, hlen, hlen'] at hcommon

end Quorum

section Example

/-- A chain after the first block of four witnesses, whose signers are given with the newest first. -/
def fourFork : List ℕ → BlockChain
  | [] => ⟨fourGenesis, []⟩
  | witness :: witnesses => ⟨fourNext (fourFork witnesses).tip witness, (fourFork witnesses).blocks⟩

/-- A chain without skips. -/
def straightFork : SignedChain fourWitnesses where
  toBlockChain := fourFork [1, 0, 3, 2, 1]
  sigChain := .block _ (.block _ (.block _ (.block _ (.block _ (.genesis _) (by decide +kernel) (by decide +kernel))
    (by decide +kernel) (by decide +kernel)) (by decide +kernel) (by decide +kernel)) (by decide +kernel)
    (by decide +kernel)) (by decide +kernel) (by decide +kernel)
  hasParams := by unfold HasParams; decide +kernel
  signers := by decide +kernel
  confSigs b h := by cases h

/-- A fork of it whose first block skips a witness. -/
def skippingFork : SignedChain fourWitnesses where
  toBlockChain := fourFork [2, 1, 0, 3, 2]
  sigChain := .block _ (.block _ (.block _ (.block _ (.block _ (.genesis _) (by decide +kernel) (by decide +kernel))
    (by decide +kernel) (by decide +kernel)) (by decide +kernel) (by decide +kernel)) (by decide +kernel)
    (by decide +kernel)) (by decide +kernel) (by decide +kernel)
  hasParams := by unfold HasParams; decide +kernel
  signers := by decide +kernel
  confSigs b h := by cases h

/-- A node on which only the first block is indelible. -/
def fourStarted : ConfirmState :=
  { marked := [⟨fourGenesis, []⟩], lastIndelibleBlock := some fourGenesis, blockchain := [fourGenesis] }

/-- On both forks the fifth block confirms the first one, and two witnesses signed both times. -/
theorem fourForks_common_signers :
    2 ≤ (signersOf (straightFork.blocks.take 3) ∩ signersOf (skippingFork.blocks.take 3)).card := by
  have hfound : confirmScan fourStarted straightFork.toBlockChain = .found 5 (fourFork [1]) := by decide +kernel
  have hfound' : confirmScan fourStarted skippingFork.toBlockChain = .found 5 (fourFork [2]) := by decide +kernel
  obtain ⟨-, -, hcommon⟩ := confirmed_common_signers rfl rfl hfound hfound'
  have htake (blocks : List Block) : blocks.take 3 <:+: blocks.take 5 :=
    (List.take_prefix_take_left (by decide)).isInfix
  exact hcommon _ _ (htake _) (htake _) rfl rfl

end Example

end CredaCash.Chain
