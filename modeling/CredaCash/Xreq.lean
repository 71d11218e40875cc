import CredaCash.UniFloat.Bounds

/-! Exchange requests: the record that the wire, the persistent database and the matching table
share, and the two rates computed from it. -/

namespace CredaCash
open UniFloat Rounding

/-- The exchange transaction types, `CC_TYPE_XCX_NAKED_BUY` to `CC_TYPE_XCX_MINING_SELL`. -/
inductive XtxType
  | nakedBuy | nakedSell | simpleBuy | simpleSell | reqBuy | reqSell
  | accept | cancel | payment | miningTrade | miningBuy | miningSell
  deriving DecidableEq, Repr

namespace XtxType

/-- The numeric value of a type, used by range tests on types. -/
def code : XtxType → ℕ
  | nakedBuy => 4 | nakedSell => 5 | simpleBuy => 6 | simpleSell => 7 | reqBuy => 8 | reqSell => 9
  | accept => 10 | cancel => 11 | payment => 12 | miningTrade => 13 | miningBuy => 14
  | miningSell => 15

/-- `TypeIsXreq`. -/
def isXreq (t : XtxType) : Bool :=
  (4 ≤ t.code && t.code ≤ 9) || (13 ≤ t.code && t.code ≤ 15)

/-- `TypeHasBareMsg`. -/
def hasBareMsg (t : XtxType) : Bool :=
  t = nakedBuy || t = accept || t = cancel || t = payment

/-- `TypeIsBuyer`; a mining trade request is both a buy and a sell request. -/
def isBuyer (t : XtxType) : Bool :=
  t = reqBuy || t = simpleBuy || t = nakedBuy || t = miningBuy || t = miningTrade

/-- `TypeIsSeller`. -/
def isSeller (t : XtxType) : Bool :=
  t = reqSell || t = simpleSell || t = nakedSell || t = miningSell || t = miningTrade

/-- `TypeIsSimple`. -/
def isSimple (t : XtxType) : Bool :=
  t = simpleBuy || t = simpleSell || t = miningBuy || t = miningSell || t = miningTrade

end XtxType

/-- A request, also as a row of the table `Xreqs`, where an amount of zero is stored as null. -/
structure Xreq where
  type : XtxType
  destination : ℕ := 0
  expireTime : ℕ := 0
  minAmount : ℕ := 0
  maxAmount : ℕ := 0
  openAmount : ℕ := 0
  matchingAmount : ℕ := 0
  bestAmount : ℕ := 0
  bestOtherMatchingAmount : ℕ := 0
  pendingMatchAmount : ℕ := 0
  objid : ℕ := 0
  seqnum : ℕ := 0
  linkedSeqnum : ℕ := 0
  bestOtherSeqnum : ℕ := 0
  blocktime : ℕ := 0
  xreqnum : ℕ := 0
  recalcTime : ℕ := 0
  lastMatched : ℕ := 0
  bestOtherXreqnum : ℕ := 0
  pendingMatchEpoch : ℕ := 0
  pendingMatchOrder : ℕ := 0
  baseAsset : ℕ := 0
  quoteAsset : ℕ := 0
  /-- Buyer's max; Seller's min -/
  netRateRequired : UniFloat := 0
  waitDiscount : UniFloat := 0
  baseCosts : UniFloat := 0
  quoteCosts : UniFloat := 0
  openRateRequired : UniFloat := 0
  matchingRateRequired : UniFloat := 0
  bestRate : UniFloat := 0
  bestNetRate : UniFloat := 0
  bestOtherNetRate : UniFloat := 0
  pendingMatchRate : UniFloat := 0
  pendingMatchHoldTime : ℕ := 0
  recalc : Bool := false
  considerationRequired : ℕ := 0
  considerationOffered : ℕ := 0
  pledge : ℕ := 0
  holdTime : ℕ := 0
  holdTimeRequired : ℕ := 0
  minWaitTime : ℕ := 0
  acceptTimeRequired : ℕ := 0
  acceptTimeOffered : ℕ := 0
  paymentTime : ℕ := 0
  confirmations : ℕ := 0
  addImmediatelyToBlockchain : Bool := false
  autoAcceptMatches : Bool := false
  noMinimumAfterFirstMatch : Bool := false
  mustLiquidateCrossingMinimum : Bool := false
  mustLiquidateBelowMinimum : Bool := false
  hasSigningKey : Bool := false
  signingPublicKey : ℕ := 0
  changed : Bool := false
  foreignAsset : String := ""
  foreignAddress : String := ""
  deriving DecidableEq

/-- The conversion of an amount of the base asset to `double`, which the decimal floats of an
outside library carry out: zero stays zero and a positive amount stays positive. -/
structure AmountConv where
  asDouble : ℕ → UniFloat
  asDouble_zero : asDouble 0 = 0
  asDouble_pos : ∀ n, 0 < n → 0 < (asDouble n).val

/-- `asUniFloat`: the double goes through the rounding constructor of `UniFloat`. -/
def AmountConv.asUniFloat (conv : AmountConv) (amount : ℕ) : UniFloat :=
  ofDouble (conv.asDouble amount) 0

lemma toDouble_pos {m : ℕ} (h : 0 < m) : 0 < toDouble m := by
  refine Nat.mul_pos (Nat.pos_of_ne_zero fun h0 => ?_) (by positivity)
  have hle := halfEven_le_iff.1 (le_of_eq h0)
  rw [if_pos (by norm_num)] at hle
  rcases Nat.eq_zero_or_pos (excess 53 m) with hex | hex
  · rw [hex] at hle
    omega
  · have hlow := pow_le_of_excess_pos hex
    have : 2^(excess 53 m) * 2^1 ≤ 2^(53 + excess 53 m - 1) := by
      rw [← pow_add]
      exact Nat.pow_le_pow_right (by norm_num) (by omega)
    omega

/-- A conversion that rounds `amount / 10^27` to a double; on whole coins it is exact. -/
def roundingConv : AmountConv where
  asDouble n := recompose ⟨n * 2^1074 / 10^27, -1074, 1⟩
  asDouble_zero := by
    apply UniFloat.ext
    rw [Nat.zero_mul, Nat.zero_div, recompose_pos_val]
    decide +kernel
  asDouble_pos n h := by
    rw [recompose_pos_val, Int.natCast_pos, ldexp, if_pos (by norm_num)]
    have hq : 0 < n * 2^1074 / 10^27 := by
      refine Nat.div_pos ?_ (by positivity)
      exact le_trans (by decide +kernel) (Nat.le_mul_of_pos_left (2^1074) h)
    exact lt_min (Nat.mul_pos (toDouble_pos hq) (by positivity)) (by decide +kernel)

namespace Xreq

def isBuyer (x : Xreq) : Bool := x.type.isBuyer
def isSeller (x : Xreq) : Bool := x.type.isSeller

def rateSign (isbuyer : Bool) : ℤ := if isbuyer then -1 else 1

/-- `sign * DBL_MAX`. -/
def signedMax (sign : ℤ) : UniFloat := applySign sign UniFloat.max

/-- The net rate of a request at a given exchange rate. -/
def netRate (x : Xreq) (baseAmount rate : UniFloat) (rounding : ℤ) : UniFloat :=
  let sign := rateSign x.isBuyer
  let base := add baseAmount (applySign sign x.baseCosts) (-rounding) false
  if base = 0 then signedMax sign
  else
    let quote := multiply baseAmount rate rounding
    let quote := add quote (applySign (-sign) x.quoteCosts) rounding false
    divide quote base rounding

/-- The match rate that satisfies the request's `net_rate_required`. -/
def matchRateRequired (x : Xreq) (baseAmount : UniFloat) (rounding : ℤ) : UniFloat :=
  let sign := rateSign x.isBuyer
  if baseAmount = 0 then signedMax sign
  else
    let result := add baseAmount (applySign sign x.baseCosts) rounding false
    let result := multiply result x.netRateRequired 0
    let result := add result (applySign sign x.quoteCosts) rounding false
    let result := divide result baseAmount rounding
    -- constrain results so rate comparisons work
    if (sign < 0 ∧ x.netRateRequired < result) ∨ (0 < sign ∧ result < x.netRateRequired)
    then x.netRateRequired else result

theorem rateSign_buyer {x : Xreq} (h : x.isBuyer = true) : rateSign x.isBuyer = -1 := by simp [rateSign, h]
theorem rateSign_seller {x : Xreq} (h : x.isBuyer = false) : rateSign x.isBuyer = 1 := by simp [rateSign, h]

/-- A buyer never pays more than its net rate, whatever the rounding did. -/
theorem matchRateRequired_le {x : Xreq} (h : x.isBuyer = true) {a : UniFloat} (ha : a ≠ 0) (r : ℤ) :
    x.matchRateRequired a r ≤ x.netRateRequired := by
  simp only [matchRateRequired, rateSign_buyer h, if_neg ha]
  split_ifs with hc
  · exact le_rfl
  · rw [not_or, not_and] at hc
    exact not_lt.1 (hc.1 (by norm_num))

theorem le_matchRateRequired {x : Xreq} (h : x.isBuyer = false) {a : UniFloat} (ha : a ≠ 0) (r : ℤ) :
    x.netRateRequired ≤ x.matchRateRequired a r := by
  simp only [matchRateRequired, rateSign_seller h, if_neg ha]
  split_ifs with hc
  · exact le_rfl
  · rw [not_or, not_and, not_and] at hc
    exact not_lt.1 (hc.2 (by norm_num))

/-- The total quote of a match: the quote itself with the request's own costs. -/
def totalQuote (x : Xreq) (baseAmount rate : UniFloat) : UniFloat :=
  add (multiply baseAmount rate 0) (applySign (-rateSign x.isBuyer) x.quoteCosts) 0 false

theorem netRate_eq {x : Xreq} (hc : x.baseCosts = 0) {a : UniFloat} (ha : a ≠ 0) (rate : UniFloat) :
    x.netRate a rate 0 = divide (x.totalQuote a rate) a 0 := by
  simp [netRate, totalQuote, hc, ha]

/-- The buy half of a mining trade. -/
def convertTradeToBuy (x : Xreq) : Xreq := { x with type := .miningBuy, foreignAddress := "" }

/-- The sell half of a mining trade, which gets numbers and an object id of its own. -/
def convertTradeToSell (x : Xreq) : Xreq :=
  { x with type := .miningSell, seqnum := 0, xreqnum := 0, objid := x.objid ^^^ 1 }

end Xreq

theorem AmountConv.asUniFloat_pos (conv : AmountConv) {n : ℕ} (h : 0 < n) :
    0 < (conv.asUniFloat n).val :=
  ofDouble_pos (conv.asDouble_pos n h)

end CredaCash
