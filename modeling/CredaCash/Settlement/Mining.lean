import CredaCash.Chain.TxOutputs
import CredaCash.Checks
import CredaCash.UniFloat.Sign

/-! Exchange mining: the amounts that matches and settlements mine. -/

namespace CredaCash.Settlement
open UniFloat Chain

/-- A double given by its mantissa and exponent. -/
def double (mant : ℕ) (exp : ℤ) : UniFloat := recompose ⟨mant, exp, 1⟩

/-- `MINING_MIN_CUTOFF_FACTOR`, 0.05. -/
def miningMinCutoffFactor : UniFloat := ofDouble (double 3602879701896397 (-56)) 0
def miningMaxCutoffFactor : UniFloat := double 2 0
/-- `MINING_MULTIPLIER_INC_THRESHOLD`, 0.5. -/
def miningMultiplierIncThreshold : UniFloat := double 1 (-1)
/-- `MINING_MULTIPLIER_INC_AMOUNT`, 0.02. -/
def miningMultiplierIncAmount : UniFloat := ofDouble (double 5764607523034235 (-58)) 0
def miningMultiplierMax : UniFloat := 1
/-- `MINING_MULTIPLIER_DEC_THRESHOLD`, 0.5. -/
def miningMultiplierDecThreshold : UniFloat := double 1 (-1)
/-- `MINING_MULTIPLIER_DEC_MULTIPLIER`, 0.98. -/
def miningMultiplierDecMultiplier : UniFloat := ofDouble (double 2206763817411543 (-51)) 0
/-- `MINING_MULTIPLIER_MIN`, 0.01, as a double. -/
def miningMultiplierMin : UniFloat := double 5764607523034235 (-59)
def miningMinCutoffAmount : UniFloat := 1
def miningAmountMinMax : UniFloat := 1
def xreqBlockchainBch : ℕ := 2

structure ExchangeMatchStats where
  avgAmount : UniFloat
  avgAmountWeight : UniFloat
  avgMatchRateRequired : UniFloat
  avgMatchRateRequiredWeight : UniFloat
  avgMatchRate : UniFloat := 0
  avgMatchRateWeight : UniFloat := 0

structure ExchangeMiningParams where
  totalMined : ℕ
  totalRemainingToMine : ℕ
  miningStats : ExchangeMatchStats
  miningRemainingFractionPerInterval : UniFloat
  miningMinAmountPerInterval : UniFloat
  miningMaxCurrentlyMineableIntervals : UniFloat
  lastNominalMineableAmountIncrease : UniFloat := 0
  currentlyMineableAmount : UniFloat := 0
  maxCurrentlyMineableAmount : UniFloat := 0
  miningShortDecayFactor : UniFloat
  miningLongDecayFactor : UniFloat
  miningAmountMultiplier : UniFloat
  miningMaxFractionPerMatch : UniFloat
  miningMinFractionPerMatch : UniFloat
  miningPeriod : ℕ := 0
  miningUpdateTimeIncrement : ℕ

/-- The start of mining, and the conversions between amounts and floats, which decimal floats of an outside
library carry out: `scaled` is the integer closest to the decimal digits of a float, in units of the mined
asset. -/
structure MiningEnv where
  conv : AmountConv
  scaled : UniFloat → ℤ
  miningStartTime : ℕ

def amountIntMax : ℤ := 2^255 - 1

/-- `amount_from_float` to an integer, with whether it fails. -/
def amountFromFloat (scaled : ℤ) : ℤ × Bool :=
  if scaled < -amountIntMax then (-amountIntMax, true)
  else if amountIntMax < scaled then (amountIntMax, true)
  else (scaled, false)

/-- `amount_to_bigint`: a negative amount wraps around in 256 bits. -/
def amountToBigint (amount : ℤ) : ℕ := if amount < 0 then 2^256 - amount.natAbs else amount.natAbs

/-- `ExchangeMining::Init`. -/
def initMining : ExchangeMiningParams where
  totalMined := 0
  totalRemainingToMine := amountToBigint (amountFromFloat (2000000000 * 10^27)).1
  miningStats :=
    { avgAmount := double 500 0
      avgAmountWeight := double 100 0
      avgMatchRateRequired := ofDouble (double 7378697629483821 (-65)) 0
      avgMatchRateRequiredWeight := multiply (double 100 0) (double 500 0) 0
      avgMatchRate := ofDouble (double 7378697629483821 (-65)) 0 }
  miningRemainingFractionPerInterval := ofDouble (double 8303633079208173 (-72)) 0
  miningMinAmountPerInterval := double 100 0
  miningMaxCurrentlyMineableIntervals := divide (double 3600 0) (double 240 0) 1
  miningShortDecayFactor := ofDouble (double 2200368705940677 (-51)) 0
  miningLongDecayFactor := ofDouble (double 560786305940833 (-49)) 0
  miningAmountMultiplier := miningMultiplierMax
  miningMaxFractionPerMatch := miningMinCutoffFactor
  miningMinFractionPerMatch := ofDouble miningMultiplierMin 0
  miningUpdateTimeIncrement := 240

/-- What settlement reads of the request of a party to a match. -/
structure MatchParty where
  type : XtxType
  baseAsset : ℕ := 0
  quoteAsset : ℕ
  netRateRequired : UniFloat := 0
  baseCosts : UniFloat := 0
  quoteCosts : UniFloat := 0
  pledge : ℕ
  destination : ℕ
  haveMatching : Bool

/-- A match with what its settlement reads. -/
structure MatchRecord extends Xmatch where
  miningAmount : UniFloat := 0
  matchPledge : ℕ
  buyer : MatchParty
  seller : MatchParty

/-- The assertions of mining and settlement; a node that fails one stops. -/
inductive SettleError
  | period | haveMatching | destination | amountConversion | mineable | paid | remaining
  | buyerPledge
  /-- A subtraction of amounts below zero, which the code does not check. -/
  | negative
  | outputs
  deriving DecidableEq

section Functions
variable (env : MiningEnv) (saved : ExchangeMiningParams)

/-- Whether a match takes part in mining. -/
def MatchRecord.isMineable (m : MatchRecord) : Bool :=
  (m.buyer.type = .simpleBuy || m.buyer.type = .miningBuy) && m.buyer.quoteAsset = xreqBlockchainBch &&
    m.buyer.baseAsset = 0

/-- One turn of the loop of `UpdateMiningTime`. -/
def updateMiningPeriod : ExchangeMiningParams :=
  let stats := saved.miningStats
  let increase := multiply (env.conv.asUniFloat saved.totalRemainingToMine) saved.miningRemainingFractionPerInterval 0
  let increase := if increase < saved.miningMinAmountPerInterval then saved.miningMinAmountPerInterval else increase
  let maxMineable := multiply increase saved.miningMaxCurrentlyMineableIntervals 0
  let mineable := add saved.currentlyMineableAmount increase 0 false
  let mineable := if maxMineable < mineable then maxMineable else mineable
  let multiplier := add saved.miningAmountMultiplier miningMultiplierIncAmount 0 false
  { saved with
    miningPeriod := saved.miningPeriod + 1
    miningStats :=
      { stats with
        avgAmountWeight := multiply stats.avgAmountWeight saved.miningLongDecayFactor 0
        avgMatchRateRequiredWeight := multiply stats.avgMatchRateRequiredWeight saved.miningShortDecayFactor 0
        avgMatchRateWeight := multiply stats.avgMatchRateWeight saved.miningLongDecayFactor 0 }
    lastNominalMineableAmountIncrease := increase
    maxCurrentlyMineableAmount := maxMineable
    currentlyMineableAmount := mineable
    miningAmountMultiplier :=
      if miningMultiplierIncThreshold < divide mineable maxMineable 0 then
        if miningMultiplierMax < multiplier then miningMultiplierMax else multiplier
      else saved.miningAmountMultiplier }

/-- `UpdateMiningTime`, with true before the start of mining. -/
def updateMiningTime (timestamp : ℕ) : Except SettleError (Bool × ExchangeMiningParams) :=
  if timestamp < env.miningStartTime ∨ env.miningStartTime = 0 then .ok (true, saved)
  else
    let period := (timestamp - env.miningStartTime) / saved.miningUpdateTimeIncrement + 1
    if period < saved.miningPeriod then .error .period
    else .ok (false, (updateMiningPeriod env)^[period - saved.miningPeriod] saved)

/-- `UpdateWeightedAverage`: the average and its weight. -/
def updateWeightedAverage (avg weight amt newWeight : UniFloat) : UniFloat × UniFloat :=
  let weight' := add weight newWeight 0 false
  (divide (add (multiply avg weight 0) amt 0 false) weight' 0, weight')

/-- The rate that the buyer of a match requires. -/
def MatchRecord.buyerMatchRateRequired (m : MatchRecord) (baseAmount : UniFloat) : UniFloat :=
  let xreq : Xreq :=
    { type := m.buyer.type, baseCosts := m.buyer.baseCosts, quoteCosts := m.buyer.quoteCosts,
      netRateRequired := m.buyer.netRateRequired }
  let rate := xreq.matchRateRequired baseAmount 0
  if m.buyer.type = .miningBuy then multiply rate (double 2 0) 0 else rate

/-- `UpdateMiningStats`, with the base amount and the rate of a match that is mineable. -/
def updateMiningStats (m : MatchRecord) : ExchangeMiningParams × Option (UniFloat × UniFloat) :=
  let baseAmount := env.conv.asUniFloat m.baseAmount
  if baseAmount ≤ 0 then (saved, none)
  else
    let avg := updateWeightedAverage saved.miningStats.avgAmount saved.miningStats.avgAmountWeight baseAmount 1
    let saved := { saved with miningStats := { saved.miningStats with avgAmount := avg.1, avgAmountWeight := avg.2 } }
    -- neither very small matches nor those far above the average
    if baseAmount < multiply avg.1 miningMinCutoffFactor 0 then (saved, none)
    else if multiply avg.1 miningMaxCutoffFactor 0 < baseAmount then (saved, none)
    else if m.buyer.netRateRequired ≤ 0 then (saved, none)
    else
      let rate := m.buyerMatchRateRequired baseAmount
      if rate ≤ 0 then (saved, none)
      else
        let avg := updateWeightedAverage saved.miningStats.avgMatchRateRequired
          saved.miningStats.avgMatchRateRequiredWeight (multiply baseAmount rate 0) baseAmount
        ({ saved with miningStats :=
            { saved.miningStats with avgMatchRateRequired := avg.1, avgMatchRateRequiredWeight := avg.2 } },
          some (baseAmount, rate))

/-- The caps of `ComputeMiningAmount`: on the fraction for a match, and on what is mineable. -/
def cappedMiningAmount (baseAmount : UniFloat) : UniFloat :=
  let miningAmount := multiply baseAmount saved.miningAmountMultiplier 0
  let maxAmount := multiply saved.currentlyMineableAmount saved.miningMaxFractionPerMatch 0
  let minMax := multiply saved.maxCurrentlyMineableAmount saved.miningMinFractionPerMatch 0
  let minMax := if minMax < miningAmountMinMax then miningAmountMinMax else minMax
  let maxAmount := if maxAmount < minMax then minMax else maxAmount
  let miningAmount := if maxAmount < miningAmount then maxAmount else miningAmount
  if saved.currentlyMineableAmount < miningAmount then saved.currentlyMineableAmount else miningAmount

def computeMiningAmount (baseAmount buyerMatchRateRequired : UniFloat) : UniFloat × ExchangeMiningParams :=
  if saved.currentlyMineableAmount ≤ 0 then (0, saved)
  else if buyerMatchRateRequired ≤ saved.miningStats.avgMatchRateRequired then (0, saved)
  else
    let currentFrac := divide saved.currentlyMineableAmount saved.maxCurrentlyMineableAmount 0
    let miningAmount := cappedMiningAmount saved baseAmount
    if miningAmount < miningMinCutoffAmount then (0, saved)
    else if currentFrac < miningMultiplierDecThreshold then
      let multiplier := multiply saved.miningAmountMultiplier miningMultiplierDecMultiplier 0
      (miningAmount, { saved with miningAmountMultiplier :=
        if multiplier < miningMultiplierMin then ofDouble miningMultiplierMin 0 else multiplier })
    else (miningAmount, saved)

/-- The end of `SetMiningAmount`, where the amount of a match is charged to what is mineable. -/
def chargeMiningAmount (m : MatchRecord) (baseAmount buyerMatchRateRequired : UniFloat) :
    Except SettleError (MatchRecord × ExchangeMiningParams) :=
  let (miningAmount, saved) := computeMiningAmount saved baseAmount buyerMatchRateRequired
  if (amountFromFloat (env.scaled miningAmount)).2 then .error .amountConversion
  else if saved.currentlyMineableAmount < miningAmount then .error .mineable
  else .ok ({ m with miningAmount := miningAmount },
    { saved with currentlyMineableAmount := add saved.currentlyMineableAmount (-miningAmount) 0 false })

/-- `SetMiningAmount`: the amount that a new match may mine. -/
def setMiningAmount (m : MatchRecord) : Except SettleError (MatchRecord × ExchangeMiningParams) :=
  if saved.totalRemainingToMine = 0 then .ok (m, saved)
  else if !m.isMineable then .ok (m, saved)
  else if !m.buyer.haveMatching then .error .haveMatching
  else if m.buyer.destination = 0 then .error .destination
  else do
    let (early, saved) ← updateMiningTime env saved m.matchTimestamp
    if early then return (m, saved)
    else
      match updateMiningStats env saved m with
      | (saved, none) => return (m, saved)
      | (saved, some (baseAmount, rate)) => chargeMiningAmount env saved m baseAmount rate

def getAdjustedMiningAmount (m : MatchRecord) : Except SettleError ℕ :=
  if m.miningAmount = 0 then .ok 0
  else if m.status ≠ .paid then .error .paid
  else
    let (amount, failed) := amountFromFloat (env.scaled m.miningAmount)
    if failed then .error .amountConversion
    else if saved.totalRemainingToMine < amountToBigint amount then .ok saved.totalRemainingToMine
    else .ok (amountToBigint amount)

def finalizeMiningAmount (m : MatchRecord) (adjMiningAmount : ℕ) :
    Except SettleError (MatchRecord × ExchangeMiningParams) :=
  if m.miningAmount = 0 then .ok (m, saved)
  else if m.status ≠ .paid then .error .paid
  else if saved.totalRemainingToMine < adjMiningAmount then .error .remaining
  else
    let remaining := saved.totalRemainingToMine - adjMiningAmount
    .ok ({ m with miningAmount := env.conv.asUniFloat adjMiningAmount },
      { saved with
        totalRemainingToMine := remaining
        totalMined := saved.totalMined + adjMiningAmount
        currentlyMineableAmount := if remaining = 0 then 0 else saved.currentlyMineableAmount })

def updateMatchStats (m : MatchRecord) (buyerAmount : ℕ) : ExchangeMiningParams :=
  if !m.isMineable ∨ buyerAmount = 0 then saved
  else
    let baseAmount := env.conv.asUniFloat buyerAmount
    let rate := divide m.amountPaid baseAmount 0
    let avg := updateWeightedAverage saved.miningStats.avgMatchRate saved.miningStats.avgMatchRateWeight
      (multiply baseAmount rate 0) baseAmount
    { saved with miningStats := { saved.miningStats with avgMatchRate := avg.1, avgMatchRateWeight := avg.2 } }

end Functions

/-- The accounts of mining: what is mined and what remains make up a fixed total, and no amount that is
mineable is negative. -/
structure MiningInv (total : ℕ) (saved : ExchangeMiningParams) : Prop where
  total : saved.totalMined + saved.totalRemainingToMine = total
  mineable : 0 ≤ saved.currentlyMineableAmount
  minAmount : 0 ≤ saved.miningMinAmountPerInterval
  intervals : 0 ≤ saved.miningMaxCurrentlyMineableIntervals

section Invariant
variable {env : MiningEnv} {saved saved' : ExchangeMiningParams} {total : ℕ} {m m' : MatchRecord}

theorem initMining_inv : MiningInv initMining.totalRemainingToMine initMining where
  total := Nat.zero_add _
  mineable := le_refl 0
  minAmount := by decide +kernel
  intervals := by decide +kernel

/-- The statistics do not enter the accounts. -/
lemma MiningInv.withStats (h : MiningInv total saved) (stats : ExchangeMatchStats) :
    MiningInv total { saved with miningStats := stats } :=
  ⟨h.total, h.mineable, h.minAmount, h.intervals⟩

lemma ite_nonneg {p : Prop} [Decidable p] {a b : UniFloat} (ha : 0 ≤ a) (hb : 0 ≤ b) : 0 ≤ if p then a else b := by
  split_ifs
  · exact ha
  · exact hb

lemma updateMiningPeriod_inv (h : MiningInv total saved) : MiningInv total (updateMiningPeriod env saved) := by
  have hincrease (increase : UniFloat) : 0 ≤ if increase < saved.miningMinAmountPerInterval
      then saved.miningMinAmountPerInterval else increase := by
    split_ifs with hlt
    · exact h.minAmount
    · exact h.minAmount.trans (not_lt.1 hlt)
  refine ⟨h.total, ?_, h.minAmount, h.intervals⟩
  exact ite_nonneg (multiply_nonneg (hincrease _) h.intervals 0) (add_nonneg h.mineable (hincrease _) 0)

lemma iterate_updateMiningPeriod_inv (h : MiningInv total saved) (n : ℕ) :
    MiningInv total ((updateMiningPeriod env)^[n] saved) := by
  induction n with
  | zero => exact h
  | succ n ih =>
    rw [Function.iterate_succ_apply']
    exact updateMiningPeriod_inv ih

lemma updateMiningTime_inv (h : MiningInv total saved) {timestamp : ℕ} {early : Bool}
    (hrun : updateMiningTime env saved timestamp = .ok (early, saved')) : MiningInv total saved' := by
  rw [updateMiningTime] at hrun
  split_ifs at hrun
  · cases hrun
    exact h
  · simp only at hrun
    split_ifs at hrun
    cases hrun
    exact iterate_updateMiningPeriod_inv h _

lemma updateMiningStats_inv (h : MiningInv total saved) : MiningInv total (updateMiningStats env saved m).1 := by
  simp only [updateMiningStats]
  split_ifs
  · exact h
  all_goals exact h.withStats _

lemma cap_le (a cap : UniFloat) : (if cap < a then cap else a) ≤ cap := by
  split_ifs with hlt
  · exact le_refl _
  · exact not_lt.1 hlt

lemma cappedMiningAmount_le (saved : ExchangeMiningParams) (baseAmount : UniFloat) :
    cappedMiningAmount saved baseAmount ≤ saved.currentlyMineableAmount := cap_le _ _

/-- The amount that a match may mine never exceeds what is mineable, and is not negative. -/
lemma computeMiningAmount_spec (h : MiningInv total saved) (baseAmount rate : UniFloat) :
    MiningInv total (computeMiningAmount saved baseAmount rate).2 ∧
      0 ≤ (computeMiningAmount saved baseAmount rate).1 ∧
      (computeMiningAmount saved baseAmount rate).1 ≤
        (computeMiningAmount saved baseAmount rate).2.currentlyMineableAmount := by
  have hcutoff {amount : UniFloat} (hnot : ¬ amount < miningMinCutoffAmount) : 0 ≤ amount :=
    le_trans (by decide +kernel) (not_lt.1 hnot)
  simp only [computeMiningAmount]
  split_ifs with hzero hrate hcut hfrac hmin
  · exact ⟨h, le_refl 0, h.mineable⟩
  · exact ⟨h, le_refl 0, h.mineable⟩
  · exact ⟨h, le_refl 0, h.mineable⟩
  · exact ⟨⟨h.total, h.mineable, h.minAmount, h.intervals⟩, hcutoff hcut, cappedMiningAmount_le saved baseAmount⟩
  · exact ⟨⟨h.total, h.mineable, h.minAmount, h.intervals⟩, hcutoff hcut, cappedMiningAmount_le saved baseAmount⟩
  · exact ⟨h, hcutoff hcut, cappedMiningAmount_le saved baseAmount⟩

/-- A new match charges what it may mine to the mineable amount. -/
lemma chargeMiningAmount_inv (h : MiningInv total saved) {baseAmount rate : UniFloat}
    (hrun : chargeMiningAmount env saved m baseAmount rate = .ok (m', saved')) : MiningInv total saved' := by
  obtain ⟨hinv, hnonneg, hle⟩ := computeMiningAmount_spec h baseAmount rate
  simp only [chargeMiningAmount] at hrun
  split_ifs at hrun
  cases hrun
  exact ⟨hinv.total, sub_nonneg hnonneg hle, hinv.minAmount, hinv.intervals⟩

/-- The assertion that the amount is mineable never fails. -/
lemma chargeMiningAmount_mineable (h : MiningInv total saved) (baseAmount rate : UniFloat) :
    chargeMiningAmount env saved m baseAmount rate ≠ .error .mineable := by
  obtain ⟨-, -, hle⟩ := computeMiningAmount_spec h baseAmount rate
  simp only [chargeMiningAmount, if_neg (not_lt.2 hle)]
  split_ifs <;> simp

lemma setMiningAmount_inv (h : MiningInv total saved) (hrun : setMiningAmount env saved m = .ok (m', saved')) :
    MiningInv total saved' := by
  rw [setMiningAmount] at hrun
  split_ifs at hrun
  · cases hrun
    exact h
  · cases hrun
    exact h
  · obtain ⟨⟨early, next⟩, htime, hrun⟩ := Checks.bind_eq_ok.1 hrun
    have hnext := updateMiningTime_inv h htime
    have hstats : MiningInv total (updateMiningStats env next m).1 := updateMiningStats_inv hnext
    simp only at hrun
    split_ifs at hrun
    · cases hrun
      exact hnext
    · split at hrun
      · next stats hsome =>
        rw [hsome] at hstats
        cases hrun
        exact hstats
      · next stats baseAmount rate hsome =>
        rw [hsome] at hstats
        exact chargeMiningAmount_inv hstats hrun

lemma setMiningAmount_mineable (h : MiningInv total saved) : setMiningAmount env saved m ≠ .error .mineable := by
  rw [setMiningAmount]
  split_ifs
  · simp
  · simp
  · simp
  · simp
  · intro hrun
    rcases Checks.bind_eq_error.1 hrun with htime | ⟨⟨early, next⟩, htime, hrun⟩
    · rw [updateMiningTime] at htime
      split_ifs at htime
      simp only at htime
      split_ifs at htime
      cases htime
    · have hstats : MiningInv total (updateMiningStats env next m).1 :=
        updateMiningStats_inv (updateMiningTime_inv h htime)
      simp only at hrun
      split_ifs at hrun
      · cases hrun
      · split at hrun
        · cases hrun
        · next stats baseAmount rate hsome =>
          rw [hsome] at hstats
          exact chargeMiningAmount_mineable hstats baseAmount rate hrun

/-- The amount that a new match may mine has a conversion, which the settlement of the match repeats. -/
theorem setMiningAmount_converts (hrun : setMiningAmount env saved m = .ok (m', saved')) :
    m'.miningAmount = m.miningAmount ∨ (amountFromFloat (env.scaled m'.miningAmount)).2 = false := by
  rw [setMiningAmount] at hrun
  split_ifs at hrun
  · cases hrun
    exact .inl rfl
  · cases hrun
    exact .inl rfl
  · obtain ⟨⟨early, next⟩, htime, hrun⟩ := Checks.bind_eq_ok.1 hrun
    simp only at hrun
    split_ifs at hrun
    · cases hrun
      exact .inl rfl
    · split at hrun
      · cases hrun
        exact .inl rfl
      · simp only [chargeMiningAmount] at hrun
        split_ifs at hrun with hfails hlt
        cases hrun
        exact .inr (Bool.eq_false_iff.2 hfails)

/-- Finalizing moves an amount from what remains to what is mined. -/
lemma finalizeMiningAmount_inv (h : MiningInv total saved) {adjMiningAmount : ℕ}
    (hrun : finalizeMiningAmount env saved m adjMiningAmount = .ok (m', saved')) : MiningInv total saved' := by
  rw [finalizeMiningAmount] at hrun
  split_ifs at hrun with hzero hpaid hle
  · cases hrun
    exact h
  · cases hrun
    refine ⟨?_, ite_nonneg (le_refl 0) h.mineable, h.minAmount, h.intervals⟩
    have htotal := h.total
    simp only
    omega

lemma updateMatchStats_inv (h : MiningInv total saved) (buyerAmount : ℕ) :
    MiningInv total (updateMatchStats env saved m buyerAmount) := by
  rw [updateMatchStats]
  split_ifs
  · exact h
  · exact h.withStats _

end Invariant

end CredaCash.Settlement
