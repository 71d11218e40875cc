import CredaCash.Settlement.Mining

/-! The settlement of a match: how its base amount, the pledge of the buyer and the mined amount are split,
and what is paid out. -/

namespace CredaCash.Settlement
open UniFloat Chain

/-- A subtraction of amounts. -/
def subAmount (a b : ℕ) : Except SettleError ℕ := if a < b then .error .negative else .ok (a - b)

@[simp] lemma subAmount_of_le {a b : ℕ} (h : b ≤ a) : subAmount a b = .ok (a - b) := if_neg (not_lt.2 h)

section Functions
variable (env : MiningEnv) (saved : ExchangeMiningParams) (m : MatchRecord)

/-- The base amount that keeps the seller's net rate when the buyer has paid only part. -/
def MatchRecord.netBaseAmount : UniFloat :=
  let baseAmount := env.conv.asUniFloat m.baseAmount
  let netBaseAmount := add m.amountPaid (-m.seller.quoteCosts) 0 false
  let netBaseAmount := multiply netBaseAmount (add baseAmount m.seller.baseCosts 0 false) 0
  let temp := add (multiply baseAmount m.rate 0) (-m.seller.quoteCosts) 0 false
  let netBaseAmount := add (divide netBaseAmount temp 0) (-m.seller.baseCosts) 0 false
  if netBaseAmount ≤ 0 then 0 else netBaseAmount

/-- `ComputeMatchSplit`: the parts of the buyer and the seller. -/
def computeMatchSplit : Except SettleError (ℕ × ℕ) :=
  if m.status = .paid then .ok (m.baseAmount, 0)
  else if m.amountPaid ≤ 0 then .ok (0, m.baseAmount)
  else do
    -- the conversion may fail, and then leaves the largest amount
    let buyerAmount := amountToBigint (amountFromFloat (env.scaled (m.netBaseAmount env))).1
    let buyerAmount := if m.baseAmount < buyerAmount then m.baseAmount else buyerAmount
    let sellerAmount ← subAmount m.baseAmount buyerAmount
    return (buyerAmount, sellerAmount)

/-- The amounts of a settlement before its outputs are created. -/
structure SettleAmounts where
  buyerAmount : ℕ
  sellerAmount : ℕ
  donation : ℕ
  adjMiningAmount : ℕ
  deriving DecidableEq

/-- The pledge of a match, rounded down. -/
def MatchRecord.pledgeAmount : ℕ := if m.matchPledge = 0 then 0 else m.baseAmount * m.matchPledge / 100

/-- Settle the match pledge amount. -/
def settlePledge (buyerAmount sellerAmount : ℕ) : Except SettleError SettleAmounts :=
  if m.matchPledge = 0 then .ok ⟨buyerAmount, sellerAmount, 0, 0⟩
  else if m.amountPaid = 0 then .ok ⟨buyerAmount, sellerAmount + m.pledgeAmount, 0, 0⟩
  else if m.status = .paid then do
    let adjMiningAmount ← getAdjustedMiningAmount env saved m
    return ⟨buyerAmount + m.pledgeAmount + adjMiningAmount, sellerAmount, 0, adjMiningAmount⟩
  else do
    let sellerSplit := (sellerAmount * m.matchPledge + 99) / 100
    let sellerSplit := if m.pledgeAmount < sellerSplit then m.pledgeAmount else sellerSplit
    let buyerAmount ← subAmount (buyerAmount + m.pledgeAmount) sellerSplit
    return ⟨buyerAmount, sellerAmount + sellerSplit, 0, 0⟩

/-- Revert any excess buyer's pledge. -/
def settleExtraPledge (buyerAmount : ℕ) : Except SettleError ℕ :=
  if m.matchPledge < m.buyer.pledge then
    if m.baseAmount * m.buyer.pledge / 100 < m.pledgeAmount then .error .buyerPledge
    else do
      let extraPledge ← subAmount (m.baseAmount * m.buyer.pledge / 100) m.pledgeAmount
      return buyerAmount + extraPledge
  else .ok buyerAmount

/-- The donation, out of the buyer's amount. -/
def settleDonation (donation buyerAmount : ℕ) : Except SettleError (ℕ × ℕ) :=
  if buyerAmount ≤ donation then .ok (buyerAmount, 0)
  else do
    let rest ← subAmount buyerAmount donation
    return (donation, rest)

/-- The part of `SettleMatch` after the split and before the outputs. -/
def settleAmounts (donationPerXcxPay donation buyerAmount sellerAmount : ℕ) : Except SettleError SettleAmounts := do
  let amounts ← settlePledge env saved m buyerAmount sellerAmount
  let buyerAmount ← settleExtraPledge m amounts.buyerAmount
  let (donation, buyerAmount) ← settleDonation (if m.status = .paid then donationPerXcxPay else donation) buyerAmount
  return { amounts with buyerAmount := buyerAmount, donation := donation }

/-- The result of a settlement. -/
structure SettleResult where
  saved : ExchangeMiningParams
  settled : MatchRecord
  donation : ℕ
  outputs : List TxOutput

/-- The outputs of `SettleMatch`, and the mined amount without what the outputs leave. -/
def settleOutputs (buyerEnv sellerEnv : OutputEnv) (amounts : SettleAmounts) : Except SettleError (List TxOutput × ℕ) :=
  if !m.buyer.haveMatching || !m.seller.haveMatching then .error .haveMatching
  else
    match createTxOutputs buyerEnv m.buyer.baseAsset amounts.buyerAmount m.buyer.destination true false with
    | none => .error .outputs
    | some (buyerOutputs, rest) =>
      -- any buyer residual amount goes first to the seller
      match createTxOutputs sellerEnv m.seller.baseAsset (amounts.sellerAmount + rest) m.seller.destination true false with
      | none => .error .outputs
      | some (sellerOutputs, rest) =>
        -- subtract residual from amount mined
        if amounts.adjMiningAmount < rest then .ok (buyerOutputs ++ sellerOutputs, 0)
        else do
          let adjMiningAmount ← subAmount amounts.adjMiningAmount rest
          return (buyerOutputs ++ sellerOutputs, adjMiningAmount)

def settleMatch (buyerEnv sellerEnv : OutputEnv) (donationPerXcxPay donation : ℕ) : Except SettleError SettleResult := do
  let (buyerAmount, sellerAmount) ← computeMatchSplit env m
  let saved := updateMatchStats env saved m buyerAmount
  let amounts ← settleAmounts env saved m donationPerXcxPay donation buyerAmount sellerAmount
  let (outputs, adjMiningAmount) ← settleOutputs m buyerEnv sellerEnv amounts
  if m.status = .paid then do
    let (settled, saved) ← finalizeMiningAmount env saved m adjMiningAmount
    return ⟨saved, settled, amounts.donation, outputs⟩
  else return ⟨saved, m, amounts.donation, outputs⟩

end Functions

section Split
variable (env : MiningEnv) (saved : ExchangeMiningParams) (m : MatchRecord)

/-- The two parts are the base amount, also where the recomputed base amount has no conversion. -/
theorem computeMatchSplit_spec : ∃ buyerAmount sellerAmount,
    computeMatchSplit env m = .ok (buyerAmount, sellerAmount) ∧ buyerAmount + sellerAmount = m.baseAmount := by
  rw [computeMatchSplit]
  split_ifs with hpaid hnone
  · exact ⟨m.baseAmount, 0, rfl, Nat.add_zero _⟩
  · exact ⟨0, m.baseAmount, rfl, Nat.zero_add _⟩
  · generalize amountToBigint (amountFromFloat (env.scaled (m.netBaseAmount env))).1 = amount
    have hle : (if m.baseAmount < amount then m.baseAmount else amount) ≤ m.baseAmount := by
      split_ifs <;> omega
    exact ⟨_, _, Checks.bind_eq_ok.2 ⟨_, subAmount_of_le hle, rfl⟩, Nat.add_sub_of_le hle⟩

lemma pledgeAmount_eq : m.pledgeAmount = m.baseAmount * m.matchPledge / 100 := by
  rw [MatchRecord.pledgeAmount]
  split_ifs with hzero
  · rw [hzero, Nat.mul_zero, Nat.zero_div]
  · rfl

/-- The adjusted amount never exceeds what remains to be mined, and is found when the conversion of the stored
amount does not fail. -/
lemma getAdjustedMiningAmount_spec (hpaid : m.status = .paid) :
    (getAdjustedMiningAmount env saved m = .error .amountConversion ∧
      m.miningAmount ≠ 0 ∧ (amountFromFloat (env.scaled m.miningAmount)).2 = true) ∨
    ∃ amount, getAdjustedMiningAmount env saved m = .ok amount ∧ amount ≤ saved.totalRemainingToMine ∧
      (m.miningAmount = 0 → amount = 0) := by
  rw [getAdjustedMiningAmount]
  by_cases hzero : m.miningAmount = 0
  · rw [if_pos hzero]
    exact .inr ⟨0, rfl, Nat.zero_le _, fun _ => rfl⟩
  · rw [if_neg hzero, if_neg (not_not.2 hpaid)]
    by_cases hfails : (amountFromFloat (env.scaled m.miningAmount)).2 = true
    · exact .inl ⟨if_pos hfails, hzero, hfails⟩
    · refine .inr ?_
      simp only [if_neg hfails]
      split_ifs with hcap
      · exact ⟨_, rfl, le_refl _, fun h => absurd h hzero⟩
      · exact ⟨_, rfl, not_lt.1 hcap, fun h => absurd h hzero⟩

/-- What a settlement distributes before the donation: the base amount, a pledge and the adjusted mining amount,
which is zero unless the match is paid. -/
structure Distributes (saved : ExchangeMiningParams) (m : MatchRecord) (total pledge : ℕ) (r : SettleAmounts) : Prop where
  sum : r.buyerAmount + r.sellerAmount + r.donation = total + pledge + r.adjMiningAmount
  mining : r.adjMiningAmount ≤ saved.totalRemainingToMine
  unpaid : m.status ≠ .paid → r.adjMiningAmount = 0
  notMined : m.miningAmount = 0 → r.adjMiningAmount = 0

/-- The settlement of the pledge fails only in the conversion of a mining amount. -/
lemma settlePledge_spec (buyerAmount sellerAmount : ℕ) :
    (settlePledge env saved m buyerAmount sellerAmount = .error .amountConversion ∧
      m.miningAmount ≠ 0 ∧ (amountFromFloat (env.scaled m.miningAmount)).2 = true) ∨
    ∃ r, settlePledge env saved m buyerAmount sellerAmount = .ok r ∧ r.donation = 0 ∧
      Distributes saved m (buyerAmount + sellerAmount) m.pledgeAmount r := by
  rw [settlePledge]
  split_ifs with hzero hpaid hstatus
  · refine .inr ⟨_, rfl, rfl, ?_, Nat.zero_le _, fun _ => rfl, fun _ => rfl⟩
    rw [MatchRecord.pledgeAmount, if_pos hzero]
    rfl
  · refine .inr ⟨_, rfl, rfl, ?_, Nat.zero_le _, fun _ => rfl, fun _ => rfl⟩
    exact (Nat.add_assoc _ _ _).symm
  · rcases getAdjustedMiningAmount_spec env saved m hstatus with ⟨herror, hfails⟩ | ⟨amount, hok, hle, hmined⟩
    · exact .inl ⟨by rw [herror]; rfl, hfails⟩
    · refine .inr ⟨_, by rw [hok]; rfl, rfl, ?_, hle, fun h => absurd hstatus h, hmined⟩
      simp only
      omega
  · have hle : (if m.pledgeAmount < (sellerAmount * m.matchPledge + 99) / 100 then m.pledgeAmount
        else (sellerAmount * m.matchPledge + 99) / 100) ≤ m.pledgeAmount := by
      split_ifs with hcap
      · exact le_refl _
      · exact not_lt.1 hcap
    refine .inr ⟨_, Checks.bind_eq_ok.2 ⟨_, subAmount_of_le (hle.trans (Nat.le_add_left _ buyerAmount)), rfl⟩, rfl, ?_,
      Nat.zero_le _, fun _ => rfl, fun _ => rfl⟩
    generalize (if m.pledgeAmount < (sellerAmount * m.matchPledge + 99) / 100 then m.pledgeAmount
      else (sellerAmount * m.matchPledge + 99) / 100) = sellerSplit at hle
    simp only
    omega

/-- The pledge beyond that of the match goes back to the buyer. -/
lemma settleExtraPledge_spec (buyerAmount : ℕ) : ∃ amount, settleExtraPledge m buyerAmount = .ok amount ∧
    amount + m.pledgeAmount = buyerAmount + m.baseAmount * max m.matchPledge m.buyer.pledge / 100 := by
  rw [settleExtraPledge, pledgeAmount_eq]
  by_cases hextra : m.matchPledge < m.buyer.pledge
  · have hle : m.baseAmount * m.matchPledge / 100 ≤ m.baseAmount * m.buyer.pledge / 100 :=
      Nat.div_le_div_right (Nat.mul_le_mul_left _ hextra.le)
    rw [if_pos hextra, if_neg (not_lt.2 hle), subAmount_of_le hle, max_eq_right hextra.le]
    refine ⟨_, rfl, ?_⟩
    omega
  · rw [if_neg hextra, max_eq_left (not_lt.1 hextra)]
    exact ⟨_, rfl, rfl⟩

lemma settleDonation_spec (donation buyerAmount : ℕ) : ∃ r, settleDonation donation buyerAmount = .ok r ∧
    r.2 + r.1 = buyerAmount := by
  rw [settleDonation]
  split_ifs with hall
  · exact ⟨_, rfl, Nat.zero_add _⟩
  · exact ⟨_, Checks.bind_eq_ok.2 ⟨_, subAmount_of_le (not_le.1 hall).le, rfl⟩, Nat.sub_add_cancel (not_le.1 hall).le⟩

lemma settleAmounts_spec (donationPerXcxPay donation buyerAmount sellerAmount : ℕ) :
    (settleAmounts env saved m donationPerXcxPay donation buyerAmount sellerAmount = .error .amountConversion ∧
      m.miningAmount ≠ 0 ∧ (amountFromFloat (env.scaled m.miningAmount)).2 = true) ∨
    ∃ r, settleAmounts env saved m donationPerXcxPay donation buyerAmount sellerAmount = .ok r ∧
      Distributes saved m (buyerAmount + sellerAmount) (m.baseAmount * max m.matchPledge m.buyer.pledge / 100) r := by
  rcases settlePledge_spec env saved m buyerAmount sellerAmount with ⟨herror, hfails⟩ | ⟨amounts, hok, hzero, hsum⟩
  · exact .inl ⟨by rw [settleAmounts, herror]; rfl, hfails⟩
  · obtain ⟨extra, hextra, hpledge⟩ := settleExtraPledge_spec m amounts.buyerAmount
    obtain ⟨⟨given, rest⟩, hdonation, hrest⟩ :=
      settleDonation_spec (if m.status = .paid then donationPerXcxPay else donation) extra
    refine .inr ⟨{ amounts with buyerAmount := rest, donation := given }, ?_, ?_, hsum.mining, hsum.unpaid, hsum.notMined⟩
    · exact Checks.bind_eq_ok.2 ⟨_, hok, Checks.bind_eq_ok.2 ⟨_, hextra, Checks.bind_eq_ok.2 ⟨_, hdonation, rfl⟩⟩⟩
    · have hsum := hsum.sum
      simp only at hrest ⊢
      omega

/-- Settlement conserves coins: the two parts of a match are its base amount, and what the buyer, the seller and
the donation get are the base amount, the larger pledge and the adjusted mining amount. No subtraction goes
below zero; only an amount mined that has no conversion stops the settlement. -/
theorem settleAmounts_conserves (donationPerXcxPay donation : ℕ) : ∃ buyerAmount sellerAmount,
    computeMatchSplit env m = .ok (buyerAmount, sellerAmount) ∧ buyerAmount + sellerAmount = m.baseAmount ∧
    ((settleAmounts env (updateMatchStats env saved m buyerAmount) m donationPerXcxPay donation buyerAmount sellerAmount =
        .error .amountConversion ∧ m.miningAmount ≠ 0 ∧ (amountFromFloat (env.scaled m.miningAmount)).2 = true) ∨
      ∃ r, settleAmounts env (updateMatchStats env saved m buyerAmount) m donationPerXcxPay donation buyerAmount
          sellerAmount = .ok r ∧
        r.buyerAmount + r.sellerAmount + r.donation =
          m.baseAmount + m.baseAmount * max m.matchPledge m.buyer.pledge / 100 + r.adjMiningAmount) := by
  obtain ⟨buyerAmount, sellerAmount, hsplit, hsum⟩ := computeMatchSplit_spec env m
  refine ⟨buyerAmount, sellerAmount, hsplit, hsum, ?_⟩
  rcases settleAmounts_spec env (updateMatchStats env saved m buyerAmount) m donationPerXcxPay donation buyerAmount
    sellerAmount with herror | ⟨r, hok, hr⟩
  · exact .inl herror
  · refine .inr ⟨r, hok, ?_⟩
    rw [hr.sum, hsum]

end Split

section Outputs
variable {env : MiningEnv} {saved : ExchangeMiningParams} {m : MatchRecord} {buyerEnv sellerEnv : OutputEnv}

lemma paidOut_append (outputs outputs' : List TxOutput) :
    paidOut (outputs ++ outputs') = paidOut outputs + paidOut outputs' := by
  rw [paidOut, List.map_append, List.sum_append]
  rfl

/-- What the outputs leave comes off the amount mined, so that they never exceed what is distributed without it
by more than that. -/
lemma settleOutputs_spec {amounts : SettleAmounts} {outputs : List TxOutput} {adjMiningAmount : ℕ}
    (h : settleOutputs m buyerEnv sellerEnv amounts = .ok (outputs, adjMiningAmount)) :
    adjMiningAmount ≤ amounts.adjMiningAmount ∧
      paidOut outputs + amounts.adjMiningAmount ≤ amounts.buyerAmount + amounts.sellerAmount + adjMiningAmount := by
  rw [settleOutputs] at h
  split_ifs at h
  split at h
  · cases h
  · next buyerOutputs rest hbuyer =>
    obtain ⟨hsum, -, -⟩ := createTxOutputs_spec hbuyer
    split at h
    · cases h
    · next sellerOutputs rest' hseller =>
      obtain ⟨hsum', -, -⟩ := createTxOutputs_spec hseller
      split_ifs at h with hrest
      · cases h
        rw [paidOut_append]
        omega
      · rw [subAmount_of_le (not_lt.1 hrest)] at h
        cases h
        rw [paidOut_append]
        omega

/-- The subtractions of the outputs do not go below zero either. -/
lemma settleOutputs_error {amounts : SettleAmounts} {e : SettleError}
    (h : settleOutputs m buyerEnv sellerEnv amounts = .error e) : e = .haveMatching ∨ e = .outputs := by
  rw [settleOutputs] at h
  split_ifs at h
  · cases h
    exact .inl rfl
  · split at h
    · cases h
      exact .inr rfl
    · split at h
      · cases h
        exact .inr rfl
      · next rest' _ =>
        split_ifs at h with hrest
        rw [subAmount_of_le (not_lt.1 hrest)] at h
        cases h

end Outputs

section Runs
variable {env : MiningEnv} {saved saved' : ExchangeMiningParams} {m m' : MatchRecord} {total : ℕ}

/-- What finalizing charges: the adjusted amount, which is zero for a match that mines nothing. -/
lemma finalizeMiningAmount_charges {adjMiningAmount : ℕ} (hzero : m.miningAmount = 0 → adjMiningAmount = 0)
    (h : finalizeMiningAmount env saved m adjMiningAmount = .ok (m', saved')) :
    saved'.totalRemainingToMine + adjMiningAmount = saved.totalRemainingToMine := by
  rw [finalizeMiningAmount] at h
  split_ifs at h with hmined hpaid hle
  · cases h
    rw [hzero hmined, Nat.add_zero]
  · cases h
    exact Nat.sub_add_cancel (not_lt.1 hle)

lemma updateMatchStats_remaining (buyerAmount : ℕ) :
    (updateMatchStats env saved m buyerAmount).totalRemainingToMine = saved.totalRemainingToMine := by
  rw [updateMatchStats]
  split_ifs <;> rfl

/-- Nothing is donated for a match that was not paid. -/
lemma settleMatch_donation {buyerEnv sellerEnv : OutputEnv} {donationPerXcxPay : ℕ} {r : SettleResult}
    (hpaid : m.status ≠ .paid) (h : settleMatch env saved m buyerEnv sellerEnv donationPerXcxPay 0 = .ok r) :
    r.donation = 0 := by
  obtain ⟨⟨buyerAmount, sellerAmount⟩, -, h⟩ := Checks.bind_eq_ok.1 h
  obtain ⟨amounts, hamounts, h⟩ := Checks.bind_eq_ok.1 h
  obtain ⟨_, -, h⟩ := Checks.bind_eq_ok.1 h
  obtain ⟨pledged, -, hamounts⟩ := Checks.bind_eq_ok.1 hamounts
  obtain ⟨amount, -, hamounts⟩ := Checks.bind_eq_ok.1 hamounts
  obtain ⟨⟨donation, rest⟩, hdonation, hamounts⟩ := Checks.bind_eq_ok.1 hamounts
  rw [if_neg hpaid, settleDonation] at hdonation
  simp only [if_neg hpaid] at h
  cases h
  cases hamounts
  split_ifs at hdonation with hnone
  · cases hdonation
    exact Nat.le_zero.1 hnone
  · obtain ⟨_, -, hdonation⟩ := Checks.bind_eq_ok.1 hdonation
    cases hdonation
    rfl

/-- A settlement keeps the accounts, and pays out no more than what was locked for the match and what it charges
to the amount that remains to be mined. -/
theorem settleMatch_spec {buyerEnv sellerEnv : OutputEnv} {donationPerXcxPay donation : ℕ} {r : SettleResult}
    (hinv : MiningInv total saved)
    (h : settleMatch env saved m buyerEnv sellerEnv donationPerXcxPay donation = .ok r) :
    MiningInv total r.saved ∧ ∃ charged, r.saved.totalRemainingToMine + charged = saved.totalRemainingToMine ∧
      paidOut r.outputs + r.donation ≤
        m.baseAmount + m.baseAmount * max m.matchPledge m.buyer.pledge / 100 + charged := by
  obtain ⟨⟨buyerAmount, sellerAmount⟩, hsplit, h⟩ := Checks.bind_eq_ok.1 h
  obtain ⟨amounts, hamounts, h⟩ := Checks.bind_eq_ok.1 h
  obtain ⟨⟨outputs, adjMiningAmount⟩, houtputs, h⟩ := Checks.bind_eq_ok.1 h
  have hsum : buyerAmount + sellerAmount = m.baseAmount := by
    obtain ⟨_, _, hsplit', hsum⟩ := computeMatchSplit_spec env m
    rw [hsplit] at hsplit'
    cases hsplit'
    exact hsum
  have hdist : Distributes (updateMatchStats env saved m buyerAmount) m m.baseAmount
      (m.baseAmount * max m.matchPledge m.buyer.pledge / 100) amounts := by
    rcases settleAmounts_spec env (updateMatchStats env saved m buyerAmount) m donationPerXcxPay donation buyerAmount
      sellerAmount with ⟨herror, -⟩ | ⟨_, hok, hr⟩
    · rw [herror] at hamounts
      cases hamounts
    · rw [hok] at hamounts
      cases hamounts
      rwa [hsum] at hr
  obtain ⟨hle, hpaidOut⟩ := settleOutputs_spec houtputs
  have hstats : MiningInv total (updateMatchStats env saved m buyerAmount) := updateMatchStats_inv hinv buyerAmount
  have hremaining : (updateMatchStats env saved m buyerAmount).totalRemainingToMine = saved.totalRemainingToMine :=
    updateMatchStats_remaining buyerAmount
  have hdsum := hdist.sum
  simp only at h
  split_ifs at h with hpaid
  · obtain ⟨⟨settled, next⟩, hfinal, h⟩ := Checks.bind_eq_ok.1 h
    cases h
    have hcharge := finalizeMiningAmount_charges (fun hzero => by have := hdist.notMined hzero; omega) hfinal
    refine ⟨finalizeMiningAmount_inv hstats hfinal, adjMiningAmount, hcharge.trans hremaining, ?_⟩
    simp only
    omega
  · cases h
    have hunpaid := hdist.unpaid hpaid
    refine ⟨hstats, 0, hremaining, ?_⟩
    simp only
    omega

lemma finalizeMiningAmount_isOk {adjMiningAmount : ℕ} (hpaid : m.status = .paid)
    (hle : adjMiningAmount ≤ saved.totalRemainingToMine) :
    ∃ r, finalizeMiningAmount env saved m adjMiningAmount = .ok r := by
  rw [finalizeMiningAmount]
  by_cases hmined : m.miningAmount = 0
  · exact ⟨_, if_pos hmined⟩
  · rw [if_neg hmined, if_neg (not_not.2 hpaid), if_neg (not_lt.2 hle)]
    exact ⟨_, rfl⟩

/-- The ways in which a settlement may fail: no subtraction goes below zero, and the amount that remains to be
mined is never too small for what is charged to it. -/
theorem settleMatch_error {buyerEnv sellerEnv : OutputEnv} {donationPerXcxPay donation : ℕ} {e : SettleError}
    (h : settleMatch env saved m buyerEnv sellerEnv donationPerXcxPay donation = .error e) :
    e = .amountConversion ∨ e = .haveMatching ∨ e = .outputs := by
  rcases Checks.bind_eq_error.1 h with herror | ⟨⟨buyerAmount, sellerAmount⟩, hsplit, h⟩
  · obtain ⟨_, _, hsplit, -⟩ := computeMatchSplit_spec env m
    rw [hsplit] at herror
    cases herror
  · have hamounts := settleAmounts_spec env (updateMatchStats env saved m buyerAmount) m donationPerXcxPay donation
      buyerAmount sellerAmount
    rcases Checks.bind_eq_error.1 h with herror | ⟨amounts, hok, h⟩
    · rcases hamounts with ⟨herror', -⟩ | ⟨_, hok, -⟩
      · rw [herror'] at herror
        cases herror
        exact .inl rfl
      · rw [hok] at herror
        cases herror
    · rcases hamounts with ⟨herror, -⟩ | ⟨_, hok', hdist⟩
      · rw [herror] at hok
        cases hok
      · rw [hok'] at hok
        cases hok
        rcases Checks.bind_eq_error.1 h with herror | ⟨⟨outputs, adjMiningAmount⟩, houtputs, h⟩
        · exact .inr (settleOutputs_error herror)
        · obtain ⟨hle, -⟩ := settleOutputs_spec houtputs
          simp only at h
          split_ifs at h with hpaid
          · obtain ⟨r, hfinal⟩ := finalizeMiningAmount_isOk hpaid (hle.trans hdist.mining)
            rw [hfinal] at h
            cases h
          · cases h

/-- A call that matching or settlement makes. -/
inductive MiningCall
  | updateMiningTime (timestamp : ℕ)
  | setMiningAmount (m : MatchRecord)
  | settleMatch (m : MatchRecord) (buyerEnv sellerEnv : OutputEnv) (donationPerXcxPay donation : ℕ)

/-- The accounts after a call. -/
def runCall (env : MiningEnv) (saved : ExchangeMiningParams) : MiningCall → Except SettleError ExchangeMiningParams
  | .updateMiningTime timestamp => do
    let (_, saved) ← updateMiningTime env saved timestamp
    return saved
  | .setMiningAmount m => do
    let (_, saved) ← setMiningAmount env saved m
    return saved
  | .settleMatch m buyerEnv sellerEnv donationPerXcxPay donation => do
    let r ← settleMatch env saved m buyerEnv sellerEnv donationPerXcxPay donation
    return r.saved

lemma runCall_inv {call : MiningCall} (hinv : MiningInv total saved) (h : runCall env saved call = .ok saved') :
    MiningInv total saved' := by
  cases call with
  | updateMiningTime timestamp =>
    obtain ⟨⟨early, next⟩, htime, h⟩ := Checks.bind_eq_ok.1 h
    cases h
    exact updateMiningTime_inv hinv htime
  | setMiningAmount m =>
    obtain ⟨⟨m', next⟩, hset, h⟩ := Checks.bind_eq_ok.1 h
    cases h
    exact setMiningAmount_inv hinv hset
  | settleMatch m buyerEnv sellerEnv donationPerXcxPay donation =>
    obtain ⟨r, hsettle, h⟩ := Checks.bind_eq_ok.1 h
    cases h
    exact (settleMatch_spec hinv hsettle).1

lemma runCalls_inv {calls : List MiningCall} (hinv : MiningInv total saved)
    (h : calls.foldlM (runCall env) saved = .ok saved') : MiningInv total saved' := by
  induction calls generalizing saved with
  | nil =>
    cases h
    exact hinv
  | cons call calls ih =>
    rw [List.foldlM_cons] at h
    obtain ⟨next, hcall, h⟩ := Checks.bind_eq_ok.1 h
    exact ih (runCall_inv hinv hcall) h

/-- The accounts of mining are sound: the total to mine is accounted for, and what is mineable is not negative. No
call fails because a subtraction goes below zero or an account is too small, and a settlement pays out, with its
donation, no more than the base amount and the pledge of the match and what it charges to the amount that remains
to be mined. -/
structure SoundAccounts (env : MiningEnv) (saved : ExchangeMiningParams) : Prop where
  total : saved.totalMined + saved.totalRemainingToMine = initMining.totalRemainingToMine
  mineable : 0 ≤ saved.currentlyMineableAmount
  newMatch : ∀ m : MatchRecord, setMiningAmount env saved m ≠ .error .mineable
  settlement : ∀ (m : MatchRecord) (buyerEnv sellerEnv : OutputEnv) (donationPerXcxPay donation : ℕ),
    match settleMatch env saved m buyerEnv sellerEnv donationPerXcxPay donation with
    | .error e => e ≠ .remaining ∧ e ≠ .negative ∧ e ≠ .buyerPledge
    | .ok r => ∃ charged, r.saved.totalRemainingToMine + charged = saved.totalRemainingToMine ∧
        r.saved.totalMined = saved.totalMined + charged ∧
        paidOut r.outputs + r.donation ≤ m.baseAmount + m.baseAmount * max m.matchPledge m.buyer.pledge / 100 + charged

/-- After any calls of matching and settlement the accounts of mining are sound. -/
theorem miningCalls_accounts (env : MiningEnv) (calls : List MiningCall) (saved : ExchangeMiningParams)
    (h : calls.foldlM (runCall env) initMining = .ok saved) : SoundAccounts env saved := by
  have hinv := runCalls_inv initMining_inv h
  refine ⟨hinv.total, hinv.mineable, fun m => setMiningAmount_mineable hinv, ?_⟩
  intro m buyerEnv sellerEnv donationPerXcxPay donation
  split
  · next e herror =>
    rcases settleMatch_error herror with rfl | rfl | rfl <;> simp
  · next r hok =>
    obtain ⟨hinv', charged, hcharged, hpaid⟩ := settleMatch_spec hinv hok
    have htotal := hinv.total
    have htotal' := hinv'.total
    exact ⟨charged, hcharged, by omega, hpaid⟩

/-- Mining as on the main network, with a conversion that rounds exactly. -/
def mainnetMining : MiningEnv where
  conv := roundingConv
  scaled v := (v.val * 10^27 + 2^1073) / 2^1074
  miningStartTime := 1718467200

/-- A match of 500 coins between simple requests. -/
def simpleMatch (status : XmatchStatus) (miningAmount : UniFloat) : MatchRecord where
  xmatchnum := 1
  status := status
  matchTimestamp := 1718467500
  baseAmount := 500 * 10^27
  rate := 1
  amountPaid := double 500 0
  haveXreqs := true
  xsell := {}
  miningAmount := miningAmount
  matchPledge := 50
  buyer := { type := .simpleBuy, quoteAsset := xreqBlockchainBch, netRateRequired := 1, pledge := 50, destination := 1,
             haveMatching := true }
  seller := { type := .simpleSell, quoteAsset := xreqBlockchainBch, pledge := 50, destination := 2, haveMatching := true }

def mainnetOutputs : OutputEnv := ⟨23, 23, fun _ => false, fun _ => false⟩

/-- A match is made, and settled once it is paid, which mines 10 coins. -/
def simpleCalls : List MiningCall :=
  [.updateMiningTime 1718467200, .setMiningAmount (simpleMatch .accepted 0),
    .settleMatch (simpleMatch .paid (double 10 0)) mainnetOutputs mainnetOutputs (10^25) 0]

theorem simpleCalls_accounts :
    ∃ saved, simpleCalls.foldlM (runCall mainnetMining) initMining = .ok saved ∧ SoundAccounts mainnetMining saved := by
  have hok : (simpleCalls.foldlM (runCall mainnetMining) initMining).isOk = true := by decide +kernel
  obtain ⟨saved, h⟩ := Checks.isOk_eq_true.1 hok
  exact ⟨saved, h, miningCalls_accounts mainnetMining simpleCalls saved h⟩

end Runs

end CredaCash.Settlement
