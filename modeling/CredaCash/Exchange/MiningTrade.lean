import CredaCash.Exchange.MatchRate

/-! Mining trades, which match themselves exactly when a quotient rounds back to their rate. -/

namespace CredaCash.Exchange
open UniFloat Rounding

/-- A mining trade that the wire and validation accept. -/
structure MiningTrade (trade : Xreq) : Prop where
  type : trade.type = .miningTrade
  request : WireRequest trade
  noQuoteCosts : trade.quoteCosts = 0
  waitDiscount : trade.waitDiscount = 1
  amount : 0 < trade.minAmount
  maxAmount : trade.maxAmount = trade.minAmount

/-- The place of a half in the table: the numbers that it gets when it is added. -/
structure RowNumbers where
  seqnum : ℕ
  linkedSeqnum : ℕ
  xreqnum : ℕ
  blocktime : ℕ

def numbered (x : Xreq) (n : RowNumbers) : Xreq :=
  { x with seqnum := n.seqnum, linkedSeqnum := n.linkedSeqnum, xreqnum := n.xreqnum,
           blocktime := n.blocktime }

/-- The unmatched buy half as `AddMiningMatches` passes it on. -/
def miningMajor (conv : AmountConv) (trade : Xreq) (n : RowNumbers) : Xreq :=
  { resetMatching (addRequest conv (numbered trade.convertTradeToBuy n)) with recalc := true, bestAmount := 0 }

/-- The unmatched sell half as `AddMiningMatches` passes it on. -/
def miningMinor (conv : AmountConv) (trade : Xreq) (n : RowNumbers) : Xreq :=
  { resetMatching (addRequest conv (numbered trade.convertTradeToSell n)) with bestAmount := 0 }

/-- What the product of an amount and a rate loses to rounding is less than half a unit in the last place of the rate,
times the amount; the other side is half a unit of the 64-bit quotient, which is added to it. -/
def LostWithinSlack (a rate : UniFloat) : Prop :=
  let e := lost (a.val.natAbs * rate.val.natAbs) 1074
  let half := a.val * 2^bitLength (a.val * rate.val - e).natAbs
  half < 2^(63 + bitLength a.val.natAbs) * (slackAbove rate.val.natAbs * a.val + 4*e) ∧
    2^(63 + bitLength a.val.natAbs) * (4*e - slackBelow rate.val.natAbs * a.val) ≤ half

instance (a rate : UniFloat) : Decidable (LostWithinSlack a rate) :=
  inferInstanceAs (Decidable (_ ∧ _))

/-- Then the product, divided by the amount, is the rate again. -/
lemma lostWithinSlack_iff {a rate : UniFloat} (ha : 0 < a.val) (hr : IsRateFloat rate) :
    LostWithinSlack a rate ↔ divide (multiply a rate 0) a 0 = rate := by
  have hexact := eq_sub_of_add_eq (multiply_add_lost ha hr.pos)
  have hle := divide_le_iff_exact ha hr.rate hexact
  have hge := le_divide_iff_exact ha hr.rate hexact
  rw [natCast_natAbs hr.pos] at hle hge
  rw [UniFloat.ext_iff, le_antisymm_iff, hle, hge]
  unfold LostWithinSlack
  generalize lost (a.val.natAbs * rate.val.natAbs) 1074 = e
  rw [show (4*rate.val + slackAbove rate.val.natAbs) * a.val - 4*(a.val * rate.val - e) =
      slackAbove rate.val.natAbs * a.val + 4*e by ring,
    show (4*rate.val - slackBelow rate.val.natAbs) * a.val - 4*(a.val * rate.val - e) =
      4*e - slackBelow rate.val.natAbs * a.val by ring]

/-- Without costs the clamp keeps the smaller or the larger of the rate and its round trip through
the amount. -/
lemma matchRateRequired_free {x : Xreq} (hq : x.quoteCosts = 0) (hb : x.baseCosts = 0) {a : UniFloat}
    (ha : a ≠ 0) : x.matchRateRequired a 0 =
      let result := divide (multiply a x.netRateRequired 0) a 0
      if x.isBuyer then (if x.netRateRequired < result then x.netRateRequired else result)
      else (if result < x.netRateRequired then x.netRateRequired else result) := by
  cases h : x.isBuyer with
  | true => simp [Xreq.matchRateRequired, hq, hb, Xreq.rateSign_buyer h, ha]
  | false => simp [Xreq.matchRateRequired, hq, hb, Xreq.rateSign_seller h, ha]

section Mining
variable {conv : AmountConv} {trade : Xreq} (h : MiningTrade trade) (nb ns : RowNumbers)
include h

/-- The buy half asks for the smaller of its rate and the round trip of the rate. -/
lemma miningMajor_rate : (miningMajor conv trade nb).matchingRateRequired =
    let result := divide (multiply (conv.asUniFloat trade.minAmount) trade.netRateRequired 0)
      (conv.asUniFloat trade.minAmount) 0
    if trade.netRateRequired < result then trade.netRateRequired else result := by
  rw [← h.maxAmount]
  have hq : (numbered trade.convertTradeToBuy nb).quoteCosts = 0 := h.noQuoteCosts
  exact matchRateRequired_free hq h.request.baseCosts
    (ne_zero_of_pos (conv.asUniFloat_pos (h.maxAmount ▸ h.amount)))

/-- The sell half asks for the larger one. -/
lemma miningMinor_rate : (miningMinor conv trade ns).matchingRateRequired =
    let result := divide (multiply (conv.asUniFloat trade.minAmount) trade.netRateRequired 0)
      (conv.asUniFloat trade.minAmount) 0
    if result < trade.netRateRequired then trade.netRateRequired else result := by
  rw [← h.maxAmount]
  have hq : (numbered trade.convertTradeToSell ns).quoteCosts = 0 := h.noQuoteCosts
  exact matchRateRequired_free hq h.request.baseCosts
    (ne_zero_of_pos (conv.asUniFloat_pos (h.maxAmount ▸ h.amount)))

/-- The halves meet only where the round trip gives the rate back. -/
lemma miningRates_meet_iff :
    (miningMinor conv trade ns).matchingRateRequired ≤ (miningMajor conv trade nb).matchingRateRequired ↔
      LostWithinSlack (conv.asUniFloat trade.minAmount) trade.netRateRequired := by
  rw [lostWithinSlack_iff (conv.asUniFloat_pos h.amount) h.request.rateFloat, miningMajor_rate h,
    miningMinor_rate h]
  rcases lt_trichotomy trade.netRateRequired
    (divide (multiply (conv.asUniFloat trade.minAmount) trade.netRateRequired 0)
      (conv.asUniFloat trade.minAmount) 0) with hlt | heq | hgt
  · simp [hlt, hlt.not_gt, hlt.ne', hlt.not_ge]
  · simp [← heq]
  · simp [hgt, hgt.not_gt, hgt.ne, hgt.not_ge]

omit h in
variable (conv) in
lemma miningAmounts (h : MiningTrade trade) :
    (miningMajor conv trade nb).matchingAmount = trade.minAmount ∧
      (miningMinor conv trade ns).matchingAmount = trade.minAmount :=
  ⟨h.maxAmount, h.maxAmount⟩

/-- Of the assertions at the head of `CheckMatch` only the one about the rates can fail. -/
lemma checkMatchPre_mining :
    checkMatchPre conv (miningMajor conv trade nb) (miningMinor conv trade ns) =
      ccassert ((miningMinor conv trade ns).matchingRateRequired ≤
        (miningMajor conv trade nb).matchingRateRequired) .matchingRates := by
  have hpos := conv.asUniFloat_pos h.amount
  have hne : conv.asUniFloat trade.minAmount ≠ 0 := ne_zero_of_pos hpos
  have hbuy : (miningMajor conv trade nb).isBuyer = true := rfl
  have hsell : (miningMinor conv trade ns).isSeller = true := rfl
  have hrecalc : (miningMajor conv trade nb).recalc = true := rfl
  have hopen : (miningMajor conv trade nb).matchingAmount ≤ (miningMajor conv trade nb).openAmount := le_rfl
  have hopen' : (miningMinor conv trade ns).matchingAmount ≤ (miningMinor conv trade ns).openAmount := le_rfl
  have hbase : (miningMajor conv trade nb).baseCosts = 0 := h.request.baseCosts
  have hle : (0 : UniFloat) ≤ conv.asUniFloat trade.minAmount := hpos.le
  obtain ⟨hmajor, hminor⟩ := miningAmounts conv nb ns h
  have hamount := h.amount.ne'
  unfold checkMatchPre
  rw [hbuy, hsell, hrecalc, hbase]
  simp only [hmajor, hminor] at hopen hopen' ⊢
  simp [ccassert, hne, hle, hopen, hopen', hamount, bind, Except.bind]

section Meets
variable (hback : LostWithinSlack (conv.asUniFloat trade.minAmount) trade.netRateRequired)
include hback

lemma miningRates_eq :
    (miningMajor conv trade nb).matchingRateRequired = trade.netRateRequired ∧
      (miningMinor conv trade ns).matchingRateRequired = trade.netRateRequired := by
  rw [lostWithinSlack_iff (conv.asUniFloat_pos h.amount) h.request.rateFloat] at hback
  rw [miningMajor_rate h, miningMinor_rate h]
  simp [hback]

lemma matchTerms_mining : matchTerms conv (miningMajor conv trade nb) (miningMinor conv trade ns) =
    some ⟨trade.minAmount, trade.netRateRequired, trade.netRateRequired⟩ := by
  obtain ⟨hmajor, hminor⟩ := miningAmounts conv nb ns h
  obtain ⟨hrate, hrate'⟩ := miningRates_eq h nb ns hback
  rw [matchTerms_of_eq (hminor.trans hmajor.symm), hmajor, hrate, hrate']

/-- At its own rate the net rate of a request without costs is the round trip of the rate. -/
lemma netRate_free {x : Xreq} (hb : x.baseCosts = 0) (hq : x.quoteCosts = 0) :
    x.netRate (conv.asUniFloat trade.minAmount) trade.netRateRequired 0 = trade.netRateRequired := by
  have hpos := conv.asUniFloat_pos h.amount
  rw [lostWithinSlack_iff hpos h.request.rateFloat] at hback
  rw [Xreq.netRate_eq hb (ne_zero_of_pos hpos), Xreq.totalQuote, hq, applySign_zero, add_zero, hback]

end Meets

/-- Once the rates meet, the pair passes the other assertions and becomes the best match of both
halves. -/
lemma checkMatch_mining (hback : LostWithinSlack (conv.asUniFloat trade.minAmount) trade.netRateRequired)
    {blockTime : ℕ} (hexpire : blockTime < trade.expireTime)
    (hhold : computeMatchHold (miningMajor conv trade nb) (miningMinor conv trade ns) blockTime = 0) :
    ∃ b s, checkMatch conv (miningMajor conv trade nb) (miningMinor conv trade ns) blockTime =
      .ok (true, b, s) := by
  have htypes : typesMatch (miningMajor conv trade nb) (miningMinor conv trade ns) = true := rfl
  have hpre : checkMatchPre conv (miningMajor conv trade nb) (miningMinor conv trade ns) = .ok () := by
    rw [checkMatchPre_mining h, ccassert_eq_ok]
    exact (miningRates_meet_iff h nb ns).2 hback
  have hrate : MatchTerms.matchRate ⟨trade.minAmount, trade.netRateRequired, trade.netRateRequired⟩ =
      trade.netRateRequired := average_self h.request.rateFloat
  have hbuyer : (miningMajor conv trade nb).netRate (conv.asUniFloat trade.minAmount)
      trade.netRateRequired 0 = trade.netRateRequired :=
    netRate_free h hback h.request.baseCosts h.noQuoteCosts
  have hseller : (miningMinor conv trade ns).netRate (conv.asUniFloat trade.minAmount)
      trade.netRateRequired 0 = trade.netRateRequired :=
    netRate_free h hback h.request.baseCosts h.noQuoteCosts
  have hexp : ¬ ((miningMajor conv trade nb).expireTime ≤ blockTime ∨
      (miningMinor conv trade ns).expireTime ≤ blockTime) := by
    rw [not_or, not_le, not_le]
    exact ⟨hexpire, hexpire⟩
  have hnonneg : (0 : UniFloat) ≤ trade.netRateRequired := le_of_lt h.request.ratePos
  have hterms : checkMatchTerms ⟨trade.minAmount, trade.netRateRequired, trade.netRateRequired⟩
      trade.netRateRequired trade.netRateRequired = .ok () := by
    simp [checkMatchTerms, ccassert, hrate, hnonneg, h.amount.ne', bind, Except.bind]
  simp only [checkMatch, htypes, hpre, matchTerms_mining h nb ns hback, hrate, hbuyer, hseller, hterms,
    hhold, Nat.add_zero, if_neg hexp, compareRates, bind, Except.bind]
  exact ⟨_, _, rfl⟩

end Mining

/-- A mining trade matches itself exactly when the product of its amount and rate loses little enough. -/
theorem checkMatch_miningTrade_iff (conv : AmountConv) (trade : Xreq) (h : MiningTrade trade)
    (nb ns : RowNumbers) (blockTime : ℕ) (hexpire : blockTime < trade.expireTime)
    (hhold : computeMatchHold (miningMajor conv trade nb) (miningMinor conv trade ns) blockTime = 0) :
    (∃ b s, checkMatch conv (miningMajor conv trade nb) (miningMinor conv trade ns) blockTime =
      .ok (true, b, s)) ↔ LostWithinSlack (conv.asUniFloat trade.minAmount) trade.netRateRequired := by
  refine ⟨?_, fun hback => checkMatch_mining h nb ns hback hexpire hhold⟩
  rintro ⟨b, s, hok⟩
  rw [← miningRates_meet_iff h nb ns]
  by_contra hrates
  have htypes : typesMatch (miningMajor conv trade nb) (miningMinor conv trade ns) = true := rfl
  simp [checkMatch, htypes, checkMatchPre_mining h, ccassert, hrates, bind, Except.bind] at hok

/-- A mining trade at `3867597 * 2^-21`. -/
def exampleTrade (n : ℕ) : Xreq :=
  { type := .miningTrade, netRateRequired := wireDecode (1024 * 2^21 + 1770445), waitDiscount := 1,
    minAmount := n, maxAmount := n, expireTime := 100 }

lemma miningTrade_example {n : ℕ} (hn : 0 < n) : MiningTrade (exampleTrade n) where
  type := rfl
  request :=
    { rate := (isWire_wireDecode (by norm_num) : IsWire (wireDecode (1024 * 2^21 + 1770445)))
      ratePos := by
        change 0 < (wireDecode (1024 * 2^21 + 1770445)).val
        decide +kernel
      quoteCosts := isWire_zero
      baseCosts := rfl }
  noQuoteCosts := rfl
  waitDiscount := rfl
  amount := hn
  maxAmount := rfl

def buyNumbers : RowNumbers := ⟨1, 2, 1, 10⟩
def sellNumbers : RowNumbers := ⟨2, 1, 2, 10⟩

theorem checkMatch_oneCoin :
    ∃ b s, checkMatch roundingConv (miningMajor roundingConv (exampleTrade (coins 1)) buyNumbers)
      (miningMinor roundingConv (exampleTrade (coins 1)) sellNumbers) 20 = .ok (true, b, s) :=
  (checkMatch_miningTrade_iff roundingConv (exampleTrade (coins 1)) (miningTrade_example (by decide))
    buyNumbers sellNumbers 20 (by decide) (by decide)).2 (by decide +kernel)

/-- For 201414962645 coins the product with the rate is rounded up so far that the buy half and
the sell half do not meet. -/
theorem miningTrade_rates_apart :
    ¬ ∀ (conv : AmountConv) (trade : Xreq), MiningTrade trade → ∀ (nb ns : RowNumbers) (blockTime : ℕ),
      blockTime < trade.expireTime →
      computeMatchHold (miningMajor conv trade nb) (miningMinor conv trade ns) blockTime = 0 →
      ∃ b s, checkMatch conv (miningMajor conv trade nb) (miningMinor conv trade ns) blockTime =
        .ok (true, b, s) := by
  intro h
  obtain ⟨b, s, hok⟩ := h roundingConv (exampleTrade (coins 201414962645)) (miningTrade_example (by decide))
    buyNumbers sellNumbers 20 (by decide) (by decide)
  have herror : checkMatch roundingConv
      (miningMajor roundingConv (exampleTrade (coins 201414962645)) buyNumbers)
      (miningMinor roundingConv (exampleTrade (coins 201414962645)) sellNumbers) 20 =
      .error .matchingRates := by decide +kernel
  rw [herror] at hok
  cases hok

end CredaCash.Exchange
