import CredaCash.Settlement.SettleMatch
import CredaCash.UniFloat.Monotone

/-! The bounds of what matches may mine, over calls whose timestamps do not go back. -/

namespace CredaCash.Settlement
open UniFloat Chain

/-- The bounds of the multiplier. -/
def MultiplierInBounds (saved : ExchangeMiningParams) : Prop :=
  miningMultiplierMin ≤ saved.miningAmountMultiplier ∧ saved.miningAmountMultiplier ≤ miningMultiplierMax

/-- The period of a timestamp. -/
def periodAt (env : MiningEnv) (timestamp : ℕ) : ℕ :=
  (timestamp - env.miningStartTime) / initMining.miningUpdateTimeIncrement + 1

/-- The loop of `UpdateMiningTime`, from the state before it to the state after it. -/
inductive PeriodLoop (env : MiningEnv) (period : ℕ) : ExchangeMiningParams → ExchangeMiningParams → Prop
  | done {saved : ExchangeMiningParams} (h : ¬ saved.miningPeriod < period) : PeriodLoop env period saved saved
  | turn {saved saved' : ExchangeMiningParams} (h : saved.miningPeriod < period)
      (rest : PeriodLoop env period (updateMiningPeriod env saved) saved') : PeriodLoop env period saved saved'

/-- The timestamp that a call brings. -/
def MiningCall.timestamp : MiningCall → Option ℕ
  | .updateMiningTime timestamp => some timestamp
  | .setMiningAmount m => some m.matchTimestamp
  | .settleMatch .. => none

/-- What is kept by calls up to a timestamp. -/
structure MiningUpTo (env : MiningEnv) (timestamp : ℕ) (saved : ExchangeMiningParams) : Prop where
  inv : MiningInv initMining.totalRemainingToMine saved
  increment : saved.miningUpdateTimeIncrement = initMining.miningUpdateTimeIncrement
  period : saved.miningPeriod ≤ periodAt env timestamp
  multiplier : MultiplierInBounds saved

/-- The assertions other than those on the period and on what is mineable. -/
def OtherAssertion (e : SettleError) : Prop := e ≠ .period ∧ e ≠ .mineable

section Multiplier

lemma isRateFloat_incAmount : IsRateFloat miningMultiplierIncAmount :=
  ⟨by decide +kernel, ⟨by decide +kernel, by decide +kernel, by decide +kernel⟩⟩

lemma isRateFloat_decMultiplier : IsRateFloat miningMultiplierDecMultiplier :=
  ⟨by decide +kernel, ⟨by decide +kernel, by decide +kernel, by decide +kernel⟩⟩

variable {env : MiningEnv} {saved : ExchangeMiningParams}

lemma MultiplierInBounds.pos (h : MultiplierInBounds saved) : 0 < saved.miningAmountMultiplier.val :=
  lt_of_lt_of_le (by decide +kernel : 0 < miningMultiplierMin.val) (le_iff.1 h.1)

/-- A period leaves the multiplier as it is or raises it up to its maximum. -/
lemma updateMiningPeriod_multiplier_eq (env : MiningEnv) (saved : ExchangeMiningParams) :
    let raised := add saved.miningAmountMultiplier miningMultiplierIncAmount 0 false
    (updateMiningPeriod env saved).miningAmountMultiplier =
        (if miningMultiplierMax < raised then miningMultiplierMax else raised) ∨
      (updateMiningPeriod env saved).miningAmountMultiplier = saved.miningAmountMultiplier :=
  ite_eq_or_eq _ _ _

lemma updateMiningPeriod_multiplier (h : MultiplierInBounds saved) :
    MultiplierInBounds (updateMiningPeriod env saved) := by
  have hraised : miningMultiplierMin ≤ add saved.miningAmountMultiplier miningMultiplierIncAmount 0 false := by
    have hinc : miningMultiplierMin ≤ miningMultiplierIncAmount := by decide +kernel
    exact hinc.trans (le_add_right h.pos isRateFloat_incAmount)
  have hmax : miningMultiplierMin ≤ miningMultiplierMax := by decide +kernel
  rw [MultiplierInBounds]
  rcases updateMiningPeriod_multiplier_eq env saved with hcapped | hsame
  · rw [hcapped]
    refine ⟨?_, cap_le _ _⟩
    split_ifs
    · exact hmax
    · exact hraised
  · rw [hsame]
    exact h

/-- A match lowers the multiplier at most to its minimum, which the rounding of the constant does not pass. -/
lemma computeMiningAmount_multiplier (h : MultiplierInBounds saved) (baseAmount rate : UniFloat) :
    MultiplierInBounds (computeMiningAmount saved baseAmount rate).2 := by
  have hlowered : multiply saved.miningAmountMultiplier miningMultiplierDecMultiplier 0 ≤ miningMultiplierMax := by
    have hdec : miningMultiplierDecMultiplier ≤ miningMultiplierMax := by decide +kernel
    exact (multiply_le_right h.pos h.2 isRateFloat_decMultiplier).trans hdec
  have hfloor : miningMultiplierMin ≤ ofDouble miningMultiplierMin 0 := by decide +kernel
  have hfloorMax : ofDouble miningMultiplierMin 0 ≤ miningMultiplierMax := by decide +kernel
  simp only [computeMiningAmount]
  split_ifs with hzero hrate hcut hfrac hmin
  · exact h
  · exact h
  · exact h
  · exact ⟨hfloor, hfloorMax⟩
  · exact ⟨not_lt.1 hmin, hlowered⟩
  · exact h

end Multiplier

section Steps
variable {env : MiningEnv} {saved saved' : ExchangeMiningParams} {timestamp : ℕ} {m m' : MatchRecord}

lemma initMining_upTo : MiningUpTo env timestamp initMining where
  inv := initMining_inv
  increment := rfl
  period := Nat.zero_le _
  multiplier := ⟨by decide +kernel, le_refl _⟩

lemma periodAt_mono {timestamp' : ℕ} (h : timestamp ≤ timestamp') : periodAt env timestamp ≤ periodAt env timestamp' :=
  Nat.succ_le_succ (Nat.div_le_div_right (Nat.sub_le_sub_right h _))

lemma MiningUpTo.mono {timestamp' : ℕ} (h : MiningUpTo env timestamp saved) (hle : timestamp ≤ timestamp') :
    MiningUpTo env timestamp' saved :=
  ⟨h.inv, h.increment, h.period.trans (periodAt_mono hle), h.multiplier⟩

lemma MiningUpTo.withStats (h : MiningUpTo env timestamp saved) (stats : ExchangeMatchStats) :
    MiningUpTo env timestamp { saved with miningStats := stats } :=
  ⟨h.inv.withStats stats, h.increment, h.period, h.multiplier⟩

/-- The states of the loop differ by their period. -/
lemma iterate_updateMiningPeriod_period (n : ℕ) :
    ((updateMiningPeriod env)^[n] saved).miningPeriod = saved.miningPeriod + n := by
  induction n with
  | zero => rfl
  | succ n ih =>
    rw [Function.iterate_succ_apply']
    exact congrArg (· + 1) ih

lemma iterate_updateMiningPeriod_increment (n : ℕ) :
    ((updateMiningPeriod env)^[n] saved).miningUpdateTimeIncrement = saved.miningUpdateTimeIncrement := by
  induction n with
  | zero => rfl
  | succ n ih =>
    rw [Function.iterate_succ_apply']
    exact ih

lemma iterate_updateMiningPeriod_multiplier (h : MultiplierInBounds saved) (n : ℕ) :
    MultiplierInBounds ((updateMiningPeriod env)^[n] saved) := by
  induction n with
  | zero => exact h
  | succ n ih =>
    rw [Function.iterate_succ_apply']
    exact updateMiningPeriod_multiplier ih

/-- What is mineable after a period is at most its maximum. -/
lemma updateMiningPeriod_mineable_le (env : MiningEnv) (saved : ExchangeMiningParams) :
    (updateMiningPeriod env saved).currentlyMineableAmount ≤ (updateMiningPeriod env saved).maxCurrentlyMineableAmount :=
  cap_le _ _

/-- The loop makes one turn for each period that has passed, and ends. -/
lemma periodLoop_iterate (env : MiningEnv) (n : ℕ) (saved : ExchangeMiningParams) :
    PeriodLoop env (saved.miningPeriod + n) saved ((updateMiningPeriod env)^[n] saved) := by
  induction n generalizing saved with
  | zero => exact .done (Nat.lt_irrefl _)
  | succ n ih =>
    have hrest := ih (updateMiningPeriod env saved)
    have hperiod : (updateMiningPeriod env saved).miningPeriod + n = saved.miningPeriod + (n + 1) :=
      Nat.add_right_comm saved.miningPeriod 1 n
    rw [hperiod] at hrest
    exact .turn (by omega) hrest

/-- `UpdateMiningTime` at a timestamp that does not go back: before the start nothing changes, and from then on the
loop runs to its end. -/
lemma updateMiningTime_upTo (h : MiningUpTo env timestamp saved) : ∃ early saved',
    updateMiningTime env saved timestamp = .ok (early, saved') ∧ MiningUpTo env timestamp saved' ∧
      if early then saved' = saved else PeriodLoop env (periodAt env timestamp) saved saved' := by
  rw [updateMiningTime]
  split_ifs with hstart
  · exact ⟨true, saved, rfl, h, rfl⟩
  · have hperiod := h.period
    simp only [h.increment]
    rw [← periodAt, if_neg (not_lt.2 hperiod)]
    have hloop := periodLoop_iterate env (periodAt env timestamp - saved.miningPeriod) saved
    rw [Nat.add_sub_of_le hperiod] at hloop
    refine ⟨false, _, rfl, ⟨?_, ?_, ?_, iterate_updateMiningPeriod_multiplier h.multiplier _⟩, hloop⟩
    · exact iterate_updateMiningPeriod_inv h.inv _
    · rw [iterate_updateMiningPeriod_increment, h.increment]
    · rw [iterate_updateMiningPeriod_period, Nat.add_sub_of_le hperiod]

lemma updateMiningStats_upTo (h : MiningUpTo env timestamp saved) (m : MatchRecord) :
    MiningUpTo env timestamp (updateMiningStats env saved m).1 := by
  simp only [updateMiningStats]
  split_ifs
  · exact h
  all_goals exact h.withStats _

/-- Computing the amount of a match changes no more than the multiplier. -/
lemma computeMiningAmount_fields (saved : ExchangeMiningParams) (baseAmount rate : UniFloat) :
    (computeMiningAmount saved baseAmount rate).2 = { saved with
      miningAmountMultiplier := (computeMiningAmount saved baseAmount rate).2.miningAmountMultiplier } := by
  simp only [computeMiningAmount]
  split_ifs <;> rfl

lemma chargeMiningAmount_upTo (h : MiningUpTo env timestamp saved) {baseAmount rate : UniFloat}
    (hrun : chargeMiningAmount env saved m baseAmount rate = .ok (m', saved')) : MiningUpTo env timestamp saved' := by
  have hinv := chargeMiningAmount_inv h.inv hrun
  have hmultiplier := computeMiningAmount_multiplier h.multiplier baseAmount rate
  have hfields := computeMiningAmount_fields saved baseAmount rate
  simp only [chargeMiningAmount] at hrun
  split_ifs at hrun
  cases hrun
  exact ⟨hinv, (congrArg (·.miningUpdateTimeIncrement) hfields).trans h.increment,
    (congrArg (·.miningPeriod) hfields).trans_le h.period, hmultiplier⟩

lemma chargeMiningAmount_error (h : MiningUpTo env timestamp saved) {baseAmount rate : UniFloat} {e : SettleError}
    (hrun : chargeMiningAmount env saved m baseAmount rate = .error e) : OtherAssertion e := by
  obtain ⟨-, -, hle⟩ := computeMiningAmount_spec h.inv baseAmount rate
  simp only [chargeMiningAmount, if_neg (not_lt.2 hle)] at hrun
  split_ifs at hrun
  cases hrun
  exact ⟨by decide, by decide⟩

/-- A new match at a timestamp that does not go back. -/
lemma setMiningAmount_upTo (h : MiningUpTo env m.matchTimestamp saved) :
    Checks.Ends OtherAssertion (fun r => MiningUpTo env m.matchTimestamp r.2) (setMiningAmount env saved m) := by
  obtain ⟨early, next, htime, hnext, -⟩ := updateMiningTime_upTo h
  have hstats := updateMiningStats_upTo hnext m
  rw [setMiningAmount]
  split_ifs with hnone hmineable hhave hdest
  · exact .ok h
  · exact .ok h
  · exact .error ⟨by decide, by decide⟩
  · exact .error ⟨by decide, by decide⟩
  · rw [htime]
    change Checks.Ends _ _ (if early = true then _ else _)
    split_ifs
    · exact .ok hnext
    · split
      · next stats hsome =>
        rw [hsome] at hstats
        exact .ok hstats
      · next stats baseAmount rate hsome =>
        rw [hsome] at hstats
        exact ⟨fun e he => chargeMiningAmount_error hstats he, fun r hr => chargeMiningAmount_upTo hstats hr⟩

/-- A settlement changes neither the period nor the multiplier. -/
lemma settleMatch_upTo (h : MiningUpTo env timestamp saved) {buyerEnv sellerEnv : OutputEnv}
    {donationPerXcxPay donation : ℕ} {r : SettleResult}
    (hrun : settleMatch env saved m buyerEnv sellerEnv donationPerXcxPay donation = .ok r) :
    MiningUpTo env timestamp r.saved := by
  have hinv := (settleMatch_spec h.inv hrun).1
  obtain ⟨⟨buyerAmount, sellerAmount⟩, -, hrun⟩ := Checks.bind_eq_ok.1 hrun
  obtain ⟨amounts, -, hrun⟩ := Checks.bind_eq_ok.1 hrun
  obtain ⟨⟨outputs, adjMiningAmount⟩, -, hrun⟩ := Checks.bind_eq_ok.1 hrun
  have hstats : MiningUpTo env timestamp (updateMatchStats env saved m buyerAmount) := by
    rw [updateMatchStats]
    split_ifs
    · exact h
    · exact h.withStats _
  simp only at hrun
  split_ifs at hrun with hpaid
  · obtain ⟨⟨settled, next⟩, hfinal, hrun⟩ := Checks.bind_eq_ok.1 hrun
    cases hrun
    rw [finalizeMiningAmount] at hfinal
    split_ifs at hfinal
    · cases hfinal
      exact hstats
    · cases hfinal
      exact ⟨hinv, hstats.increment, hstats.period, hstats.multiplier⟩
  · cases hrun
    exact hstats

end Steps

section Runs
variable {env : MiningEnv} {saved : ExchangeMiningParams} {timestamp : ℕ}

/-- A call at a timestamp that does not go back. -/
lemma runCall_upTo (h : MiningUpTo env timestamp saved) {call : MiningCall} (hcall : ∀ t ∈ call.timestamp, t = timestamp) :
    Checks.Ends OtherAssertion (MiningUpTo env timestamp) (runCall env saved call) := by
  cases call with
  | updateMiningTime t =>
    obtain rfl := hcall t rfl
    obtain ⟨early, next, htime, hnext, -⟩ := updateMiningTime_upTo h
    simp only [runCall, htime]
    exact .ok hnext
  | setMiningAmount m =>
    obtain rfl := hcall m.matchTimestamp rfl
    exact (setMiningAmount_upTo h).bind fun r hr => .ok hr
  | settleMatch m buyerEnv sellerEnv donationPerXcxPay donation =>
    refine Checks.Ends.bind (P := fun r => MiningUpTo env timestamp r.saved) ⟨fun e he => ?_, fun r hr => ?_⟩
      fun r hr => .ok hr
    · rcases settleMatch_error he with rfl | rfl | rfl <;> exact ⟨by decide, by decide⟩
    · exact settleMatch_upTo h hr

/-- The timestamps of calls, in the order of the calls. -/
def timestamps (calls : List MiningCall) : List ℕ := calls.filterMap MiningCall.timestamp

/-- Calls whose timestamps do not go back, up to that of the next call. -/
lemma runCalls_upTo {calls : List MiningCall} {next : ℕ} (h : MiningUpTo env timestamp saved)
    (hmono : (timestamp :: (timestamps calls ++ [next])).Pairwise (· ≤ ·)) :
    Checks.Ends OtherAssertion (MiningUpTo env next) (calls.foldlM (runCall env) saved) := by
  induction calls generalizing saved timestamp with
  | nil => exact .ok (h.mono (List.rel_of_pairwise_cons hmono (List.mem_singleton_self next)))
  | cons call calls ih =>
    rw [List.foldlM_cons]
    cases htime : call.timestamp with
    | none =>
      rw [timestamps, List.filterMap_cons_none htime] at hmono
      exact (runCall_upTo h (by simp [htime])).bind fun saved' h' => ih h' hmono
    | some t =>
      rw [timestamps, List.filterMap_cons_some htime, List.cons_append, List.pairwise_cons] at hmono
      have hle := hmono.1 t (List.mem_cons_self ..)
      exact (runCall_upTo (h.mono hle) (by simp [htime])).bind fun saved' h' => ih h' hmono.2

/-- What mining promises the next call at a timestamp: its assertions hold, its loop ends, and the amounts and the
multiplier keep to their bounds. -/
structure MiningBounded (env : MiningEnv) (saved : ExchangeMiningParams) (timestamp : ℕ) : Prop where
  multiplier : MultiplierInBounds saved
  /-- Also after the statistics took in the match. -/
  amount : ∀ (stats : ExchangeMatchStats) (baseAmount rate : UniFloat),
    let amount := (computeMiningAmount { saved with miningStats := stats } baseAmount rate).1
    0 ≤ amount ∧ amount ≤ saved.currentlyMineableAmount
  period : ∀ n, let saved := (updateMiningPeriod env)^[n + 1] saved
    saved.currentlyMineableAmount ≤ saved.maxCurrentlyMineableAmount ∧ MultiplierInBounds saved
  time : ∃ early saved', updateMiningTime env saved timestamp = .ok (early, saved') ∧
    if early then saved' = saved else PeriodLoop env (periodAt env timestamp) saved saved'
  newMatch : ∀ m : MatchRecord, m.matchTimestamp = timestamp →
    Checks.Ends OtherAssertion (fun r => 0 ≤ r.2.currentlyMineableAmount) (setMiningAmount env saved m)

lemma MiningUpTo.bounded (h : MiningUpTo env timestamp saved) : MiningBounded env saved timestamp where
  multiplier := h.multiplier
  amount stats baseAmount rate := by
    obtain ⟨-, hnonneg, hle⟩ := computeMiningAmount_spec (h.inv.withStats stats) baseAmount rate
    rw [computeMiningAmount_fields] at hle
    exact ⟨hnonneg, hle⟩
  period n := by
    refine ⟨?_, iterate_updateMiningPeriod_multiplier h.multiplier (n + 1)⟩
    rw [Function.iterate_succ_apply']
    exact updateMiningPeriod_mineable_le _ _
  time := by
    obtain ⟨early, saved', htime, -, hloop⟩ := updateMiningTime_upTo h
    exact ⟨early, saved', htime, hloop⟩
  newMatch m hm := by
    subst hm
    exact (setMiningAmount_upTo h).mono fun r hr => hr.inv.mineable

/-- For calls whose timestamps do not go back, of matching, settlement and the passing of time in any order, no call
fails an assertion on the period or on what is mineable, and the state keeps to the bounds of mining. -/
theorem miningCalls_bounded (env : MiningEnv) (calls : List MiningCall) (next : ℕ)
    (hmono : (timestamps calls ++ [next]).Pairwise (· ≤ ·)) :
    Checks.Ends OtherAssertion (fun saved => MiningBounded env saved next) (calls.foldlM (runCall env) initMining) := by
  have hstart : (0 :: (timestamps calls ++ [next])).Pairwise (· ≤ ·) :=
    List.pairwise_cons.2 ⟨fun t _ => Nat.zero_le t, hmono⟩
  exact (runCalls_upTo initMining_upTo hstart).mono fun saved h => h.bounded

lemma timestamps_simpleCalls : timestamps simpleCalls = [1718467200, 1718467500] := rfl

/-- A match five minutes after the start, before one an hour later. -/
theorem simpleCalls_bounded : ∃ saved, simpleCalls.foldlM (runCall mainnetMining) initMining = .ok saved ∧
    MiningBounded mainnetMining saved 1718471100 := by
  have hmono : (timestamps simpleCalls ++ [1718471100]).Pairwise (· ≤ ·) := by
    rw [timestamps_simpleCalls]
    decide
  have hok : (simpleCalls.foldlM (runCall mainnetMining) initMining).isOk = true := by decide +kernel
  obtain ⟨saved, hsaved⟩ := Checks.isOk_eq_true.1 hok
  exact ⟨saved, hsaved, (miningCalls_bounded mainnetMining simpleCalls 1718471100 hmono).2 saved hsaved⟩

end Runs

end CredaCash.Settlement
