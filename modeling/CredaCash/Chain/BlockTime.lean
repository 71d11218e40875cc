import CredaCash.Chain.BlockValidate

/-! The timestamps along a chain, and the matching and mining times that are derived from them as its
blocks become indelible. -/

namespace CredaCash.Chain
open Wire Checks

def matchingSecsPerEpoch : ℕ := 20
def miningUpdateTimeIncrement : ℕ := 4*60

/-- The times of exchange matching and mining. -/
structure MatchingState where
  lastMatchingEpoch : ℕ
  matchingBlockTime : ℕ
  miningPeriod : ℕ := 0

/-- `ProcessXreqs::Init`. -/
def initMatching (blockTime : ℕ) : MatchingState where
  lastMatchingEpoch := blockTime / matchingSecsPerEpoch
  matchingBlockTime := blockTime / matchingSecsPerEpoch * matchingSecsPerEpoch

/-- The mining period of a time. -/
def miningPeriodAt (miningStartTime timestamp : ℕ) : ℕ :=
  (timestamp - miningStartTime) / miningUpdateTimeIncrement + 1

/-- `UpdateMiningTime`: the period after the loop that raises it, step by step, to that of the time. -/
def updateMiningTime (miningStartTime period timestamp : ℕ) : Except Failure ℕ :=
  if timestamp < miningStartTime ∨ miningStartTime = 0 then .ok period
  else do
    reject (miningPeriodAt miningStartTime timestamp < period) (.exception "period >= saved.mining_period")
    return miningPeriodAt miningStartTime timestamp

/-- The mining amounts of the matches that become persistent, all with the time of the matching round. -/
def setMiningAmounts (miningStartTime matchTimestamp : ℕ) : ℕ → ℕ → Except Failure ℕ
  | 0, period => .ok period
  | n+1, period => do
    let period ← updateMiningTime miningStartTime period matchTimestamp
    setMiningAmounts miningStartTime matchTimestamp n period

/-- `SynchronizeMatching` for a block with a given time, when `mined` matches of the last round get a
mining amount. -/
def synchronizeMatching (miningStartTime : ℕ) (st : MatchingState) (blockTime mined : ℕ) :
    Except Failure MatchingState :=
  let epoch := blockTime / matchingSecsPerEpoch
  if epoch = st.lastMatchingEpoch then .ok st
  else do
    let period ← setMiningAmounts miningStartTime st.matchingBlockTime mined st.miningPeriod
    let period ← updateMiningTime miningStartTime period st.matchingBlockTime
    return { lastMatchingEpoch := epoch, matchingBlockTime := epoch * matchingSecsPerEpoch, miningPeriod := period }

/-- The state after all blocks of a chain became indelible, one after the other. -/
def matchingStateAfter (miningStartTime : ℕ) (mined : Block → ℕ) : Block → List Block → Except Failure MatchingState
  | b, [] => .ok (initMatching b.timestamp)
  | b, prior :: rest => do
    let st ← matchingStateAfter miningStartTime mined prior rest
    synchronizeMatching miningStartTime st b.timestamp (mined b)

/-- The chains whose blocks were all accepted, each on the chain before it. -/
inductive Accepted : Block → List Block → Prop
  | genesis (b : Block) : Accepted b []
  | block {prior b : Block} {priors : List Block} (env : BlockEnv) (view : BlockView)
      (cache : List (List UInt8)) (received : Block) (hprior : Accepted prior priors)
      (hlink : view.validBlocks.find? (·.tip.oid = received.priorOid) = some ⟨prior, priors⟩)
      (hvalid : blockValidate env view cache received = .ok b) : Accepted b (prior :: priors)

structure AcceptedChain extends BlockChain where
  accepted : Accepted tip priors

/-- Block time never runs backwards on a chain: its timestamps do not decrease, neither do the matching
epochs, and no assertion fails. -/
structure NeverRunsBack (miningStartTime : ℕ) (tip : Block) (priors : List Block) : Prop where
  times : ((tip :: priors).map (·.timestamp)).Pairwise (· ≥ ·)
  runs : ∀ mined, ∃ st, matchingStateAfter miningStartTime mined tip priors = .ok st
  epochs : ∀ mined older olders st st', (older :: olders) <:+ (tip :: priors) →
    matchingStateAfter miningStartTime mined older olders = .ok st →
    matchingStateAfter miningStartTime mined tip priors = .ok st' → st.lastMatchingEpoch ≤ st'.lastMatchingEpoch

/-- Each block of the chain has a timestamp that is not below that of its prior block. -/
def TimesFollow (blocks : List Block) : Prop := blocks.IsChain fun b prior => prior.timestamp ≤ b.timestamp

/-- What one step keeps: the mining period is not after the time of the matching round. -/
structure MatchingState.Aligned (miningStartTime : ℕ) (st : MatchingState) (blockTime : ℕ) : Prop where
  epoch : st.lastMatchingEpoch = blockTime / matchingSecsPerEpoch
  time : st.matchingBlockTime = st.lastMatchingEpoch * matchingSecsPerEpoch
  period : miningStartTime ≤ st.matchingBlockTime ∧ st.miningPeriod ≤ miningPeriodAt miningStartTime st.matchingBlockTime ∨
    st.miningPeriod = 0

lemma aligned_init (miningStartTime blockTime : ℕ) :
    (initMatching blockTime).Aligned miningStartTime blockTime :=
  ⟨rfl, rfl, Or.inr rfl⟩

lemma miningPeriodAt_mono {miningStartTime a b : ℕ} (h : a ≤ b) :
    miningPeriodAt miningStartTime a ≤ miningPeriodAt miningStartTime b :=
  Nat.add_le_add_right (Nat.div_le_div_right (Nat.sub_le_sub_right h _)) 1

/-- A period that is not after a time is raised to it. -/
lemma updateMiningTime_ok {miningStartTime period timestamp : ℕ}
    (h : miningStartTime ≤ timestamp ∧ period ≤ miningPeriodAt miningStartTime timestamp ∨ period = 0) :
    ∃ period', updateMiningTime miningStartTime period timestamp = .ok period' ∧
      (miningStartTime ≤ timestamp ∧ period' ≤ miningPeriodAt miningStartTime timestamp ∨ period' = 0) := by
  unfold updateMiningTime
  split_ifs with hoff
  · exact ⟨period, rfl, h⟩
  · rw [not_or, not_lt] at hoff
    have hle : ¬ miningPeriodAt miningStartTime timestamp < period := by
      rcases h with h | h
      · exact h.2.not_gt
      · omega
    exact ⟨_, reject_bind_eq_ok.2 ⟨hle, rfl⟩, Or.inl ⟨hoff.1, le_refl _⟩⟩

lemma setMiningAmounts_ok {miningStartTime timestamp : ℕ} (n : ℕ) {period : ℕ}
    (h : miningStartTime ≤ timestamp ∧ period ≤ miningPeriodAt miningStartTime timestamp ∨ period = 0) :
    ∃ period', setMiningAmounts miningStartTime timestamp n period = .ok period' ∧
      (miningStartTime ≤ timestamp ∧ period' ≤ miningPeriodAt miningStartTime timestamp ∨ period' = 0) := by
  induction n generalizing period with
  | zero => exact ⟨period, rfl, h⟩
  | succ n ih =>
    obtain ⟨period', hrun, h'⟩ := updateMiningTime_ok h
    obtain ⟨period'', hrun', h''⟩ := ih h'
    exact ⟨period'', bind_eq_ok.2 ⟨period', hrun, hrun'⟩, h''⟩

/-- One block whose time does not run back. -/
lemma synchronizeMatching_aligned {miningStartTime priorTime blockTime : ℕ} {st : MatchingState}
    (h : st.Aligned miningStartTime priorTime) (htime : priorTime ≤ blockTime) (mined : ℕ) :
    ∃ st', synchronizeMatching miningStartTime st blockTime mined = .ok st' ∧
      st'.Aligned miningStartTime blockTime := by
  unfold synchronizeMatching
  dsimp only
  split_ifs with hepoch
  · exact ⟨st, rfl, hepoch.symm, h.time, h.period⟩
  · obtain ⟨period, hrun, hperiod⟩ := setMiningAmounts_ok mined h.period
    obtain ⟨period', hrun', hperiod'⟩ := updateMiningTime_ok hperiod
    refine ⟨_, bind_eq_ok.2 ⟨period, hrun, bind_eq_ok.2 ⟨period', hrun', rfl⟩⟩, rfl, rfl, ?_⟩
    have hle : st.matchingBlockTime ≤ blockTime / matchingSecsPerEpoch * matchingSecsPerEpoch := by
      rw [h.time, h.epoch]
      exact Nat.mul_le_mul_right _ (Nat.div_le_div_right htime)
    exact hperiod'.imp (fun hp => ⟨hp.1.trans hle, hp.2.trans (miningPeriodAt_mono hle)⟩) id

/-- A whole chain whose times follow each other. -/
lemma matchingStateAfter_aligned {miningStartTime : ℕ} (mined : Block → ℕ) {tip : Block} {priors : List Block}
    (h : TimesFollow (tip :: priors)) : ∃ st, matchingStateAfter miningStartTime mined tip priors = .ok st ∧
      st.Aligned miningStartTime tip.timestamp := by
  induction priors generalizing tip with
  | nil => exact ⟨_, rfl, aligned_init miningStartTime tip.timestamp⟩
  | cons prior rest ih =>
    obtain ⟨htime, hrest⟩ := List.isChain_cons_cons.1 h
    obtain ⟨st, hrun, hst⟩ := ih hrest
    obtain ⟨st', hrun', hst'⟩ := synchronizeMatching_aligned hst htime (mined tip)
    exact ⟨st', bind_eq_ok.2 ⟨st, hrun, hrun'⟩, hst'⟩

lemma timesFollow_iff (blocks : List Block) :
    TimesFollow blocks ↔ (blocks.map (·.timestamp)).Pairwise (· ≥ ·) := by
  rw [List.pairwise_map, TimesFollow]
  exact List.isChain_iff_pairwise

theorem timesFollow_neverRunsBack (miningStartTime : ℕ) {tip : Block} {priors : List Block}
    (h : TimesFollow (tip :: priors)) : NeverRunsBack miningStartTime tip priors where
  times := (timesFollow_iff _).1 h
  runs mined := (matchingStateAfter_aligned mined h).imp fun _ hst => hst.1
  epochs := by
    intro mined older olders st st' hsuffix hrun hrun'
    obtain ⟨s, hs, haligned⟩ : ∃ s, matchingStateAfter miningStartTime mined older olders = .ok s ∧ _ :=
      matchingStateAfter_aligned mined (List.IsChain.suffix h hsuffix)
    obtain ⟨s', hs', haligned'⟩ : ∃ s, matchingStateAfter miningStartTime mined tip priors = .ok s ∧ _ :=
      matchingStateAfter_aligned mined h
    obtain rfl := Except.ok.inj (hs.symm.trans hrun)
    obtain rfl := Except.ok.inj (hs'.symm.trans hrun')
    rw [haligned.epoch, haligned'.epoch]
    refine Nat.div_le_div_right ?_
    rcases List.mem_cons.1 (hsuffix.subset (List.mem_cons_self ..)) with rfl | hmem
    · exact le_refl _
    · exact (List.pairwise_cons.1 ((timesFollow_iff _).1 h)).1 _ (List.mem_map_of_mem hmem)

/-- On an accepted chain time never runs back exactly when no block has a timestamp before that of its
prior block, which validation does not check. -/
theorem acceptedChain_neverRunsBack_iff (miningStartTime : ℕ) (c : AcceptedChain) :
    NeverRunsBack miningStartTime c.tip c.priors ↔ TimesFollow c.blocks :=
  ⟨fun h => (timesFollow_iff _).2 h.times, fun h => timesFollow_neverRunsBack miningStartTime h⟩

section Example

/-- A node that asks nothing of the outside, at a given time. -/
def quietEnv (unixtime : ℕ) : BlockEnv where
  blockchain := 1
  defaultDomain := 1
  maxParamAge := 16*60*60
  blockFutureTolerance := 3900
  minimumDonation := 0
  donationPerTx := 0
  donationPerByte := 0
  donationPerOutput := 0
  donationPerInput := 0
  donationPerXcxReq := 0
  outvalmin := 23
  outvalmax := 23
  invalmax := 23
  transactServiceEnabled := false
  verifyLevel := fun _ => .none
  conv := roundingConv
  codec := { alphaDecode := fun _ _ _ => .ok "", mapExpDecode := id }
  blake2s := fun _ => 0
  proofFails := fun _ => false
  powFails := fun _ => false
  objHash := fun _ => 0
  addressHash := fun _ => 0
  paymentIdHash := fun _ => 0
  queryAddress := fun _ _ => .error
  queryPayment := fun _ _ _ _ => .error
  wireEncodeDown := fun _ => 0
  unixtime := unixtime
  badSignature := fun _ => false

/-- The start of mining on the main network. -/
def mainnetMiningStart : ℕ := 1718467200

/-- A block of a sole witness at a given level and time. -/
def soleBlock (level timestamp : ℕ) : Block :=
  { bufp := 16 * (level + 1), oid := level + 1, priorOid := level, level := level, timestamp := timestamp,
    witness := 0, nwitnesses := 1, nconfsigs := 1, nseqconfsigs := 1, nskipconfsigs := 1, nextNwitnesses := 1 }

lemma soleBlock_chained (level priorTime time : ℕ) :
    chainToPriorBlock (soleBlock level priorTime) (soleBlock (level + 1) time) = soleBlock (level + 1) time := by
  simp [chainToPriorBlock, soleBlock, setConfSigs, computeSkip, maxNconfsigs, maxNwitnesses]

lemma soleBlock_sigOrder (level priorTime time : ℕ) (priors : List Block) (hlevel : level + 1 < 2^64) :
    checkBadSigOrder (soleBlock (level + 1) time) (soleBlock level priorTime :: priors) = false := by
  have hsum : skipSum 1 (soleBlock (level + 1) time) (soleBlock level priorTime :: priors) = some 0 := by
    rw [skipSum, if_neg (not_not.2 _)]
    · rfl
    · change level = (level + 1 + 2^64 - 1) % 2^64
      omega
  have hconf : (soleBlock (level + 1) time).nconfsigs = 1 := rfl
  rw [checkBadSigOrder, hconf, hsum]
  rfl

/-- Whatever its time, the next block of the sole witness is accepted. -/
lemma soleBlock_accepted {level priorTime : ℕ} (time : ℕ) {priors : List Block} (hlevel : level + 1 < 2^64)
    (hprior : Accepted (soleBlock level priorTime) priors) :
    Accepted (soleBlock (level + 1) time) (soleBlock level priorTime :: priors) := by
  let view : BlockView :=
    { db := {}, lastIndelibleTimestamp := 0, validBlocks := [⟨soleBlock level priorTime, priors⟩] }
  have hlink : view.validBlocks.find? (·.tip.oid = (soleBlock (level + 1) time).priorOid) =
      some ⟨soleBlock level priorTime, priors⟩ := by simp [view, soleBlock]
  have hlevel' : ¬ (soleBlock (level + 1) time).level < computePruneLevel none 0 1 blockPruneRounds :=
    not_lt.2 (Nat.succ_le_succ (Nat.zero_le level))
  have hwitness : ¬ maxNwitnesses ≤ (soleBlock (level + 1) time).witness := not_le.2 (Nat.zero_lt_succ 20)
  have hauthorized : ¬ 1 ≤ (soleBlock (level + 1) time).witness := not_le.2 Nat.one_pos
  have htime : ¬ (3900 : ℤ) < (time : ℤ) - time := by omega
  refine .block (quietEnv time) view [] (soleBlock (level + 1) time) hprior hlink ?_
  refine reject_bind_eq_ok.2 ⟨hlevel', reject_bind_eq_ok.2 ⟨hwitness, ?_⟩⟩
  rw [hlink]
  dsimp only
  rw [validateOnChain, soleBlock_chained]
  refine reject_bind_eq_ok.2 ⟨hauthorized, reject_bind_eq_ok.2 ⟨?_, reject_bind_eq_ok.2 ⟨Bool.false_ne_true,
    reject_bind_eq_ok.2 ⟨htime, rfl⟩⟩⟩⟩
  rw [BlockChain.blocks, soleBlock_sigOrder level priorTime time priors hlevel]
  exact Bool.false_ne_true

/-- The block times of a sole witness whose clock is far behind at the second block. -/
def backwardChain : AcceptedChain where
  tip := soleBlock 3 (mainnetMiningStart + 40)
  priors := [soleBlock 2 (mainnetMiningStart + 20), soleBlock 1 (mainnetMiningStart + 1000),
    soleBlock 0 mainnetMiningStart]
  accepted := soleBlock_accepted _ (by decide) <| soleBlock_accepted _ (by decide) <|
    soleBlock_accepted _ (by decide) <| .genesis _

/-- On this chain time runs backwards, and the assertion of `UpdateMiningTime` fails. -/
theorem backwardChain_fails : ¬ ∀ (miningStartTime : ℕ) (c : AcceptedChain),
    NeverRunsBack miningStartTime c.tip c.priors := by
  intro h
  obtain ⟨st, hrun⟩ := (h mainnetMiningStart backwardChain).runs fun _ => 0
  have hfails : matchingStateAfter mainnetMiningStart (fun _ => 0) backwardChain.tip backwardChain.priors =
      .error (.exception "period >= saved.mining_period") := by rfl
  rw [hfails] at hrun
  cases hrun

end Example

section Witness
variable (unixtime witness : ℕ) (prior : Block) (txs : List (List UInt8))

/-- The header that `Witness::FinishNewBlock` writes: a clock behind the prior block is corrected. -/
def finishNewBlock : Block :=
  chainToPriorBlock prior
    { bufp := 0, oid := 0, priorOid := prior.oid, level := prior.level + 1, witness := witness, txs := txs,
      timestamp := if (unixtime : ℤ) - prior.timestamp < 0 then prior.timestamp else unixtime }

lemma finishNewBlock_timestamp : prior.timestamp ≤ (finishNewBlock unixtime witness prior txs).timestamp := by
  change prior.timestamp ≤ if (unixtime : ℤ) - prior.timestamp < 0 then prior.timestamp else unixtime
  split_ifs <;> omega

end Witness

/-- Blocks with the timestamps of `FinishNewBlock` never run back, whatever the clocks of their
witnesses. -/
theorem finished_neverRunsBack (miningStartTime : ℕ) {tip : Block} {priors : List Block}
    (h : (tip :: priors).IsChain fun b prior => ∃ unixtime witness txs,
      b.timestamp = (finishNewBlock unixtime witness prior txs).timestamp) :
    NeverRunsBack miningStartTime tip priors := by
  refine timesFollow_neverRunsBack miningStartTime (h.imp ?_)
  rintro b prior ⟨unixtime, witness, txs, hb⟩
  rw [hb]
  exact finishNewBlock_timestamp unixtime witness prior txs

end CredaCash.Chain
