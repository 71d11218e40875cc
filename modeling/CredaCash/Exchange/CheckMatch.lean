import CredaCash.Xreq

/-! One step of exchange matching: the evaluation of a buyer against a seller, and the update of
the best potential match that each of them has stored. -/

namespace CredaCash.Exchange
open UniFloat

/-- `XCX_MATCHING_SECS_PER_EPOCH`. -/
def matchingSecsPerEpoch : ℕ := 20
/-- `XREQ_WAIT_DISCOUNT_INTERVAL`. -/
def waitDiscountInterval : ℕ := matchingSecsPerEpoch
/-- `XREQ_RECALC_NOT`: do not set the recalc flag. -/
def recalcNot : ℕ := 0
/-- `XREQ_RECALC_NEXT`: set the recalc flag at the start of the next matching round. -/
def recalcNext : ℕ := 1

/-- The assertions of exchange matching; a node that fails one stops. -/
inductive Assertion
  | recalc | isBuyer | isSeller
  | sellerMatchingAmount | sellerOpenAmount | sellerFloatAmount
  | buyerMatchingAmount | buyerOpenAmount | buyerFloatAmount
  | matchingRates | rateReqs | amountPos | matchRateNonneg | buyerNetRateNonneg | sellerNetRateNonneg
  | majorRateClamp | majorBestAmount | majorBestRate
  | minorRateClamp | minorMatchingAmount | minorBestRate
  | sameBestAmount | sameBestRate | majorOtherMatchingAmount | minorOtherMatchingAmount
  | sameAssets | terms | majorNetRate | majorCheckLE | minorNetRate | minorCheckGE
  | pendingMatchOrder | pendingMatchEpoch
  | xreqnum | bestOtherSeqnum | bestOtherXreqnum | bestOtherNetRate | bestAmount | bestRate
  | matchAmountPos | matchAmountLe | matchingAmountLe | openAmountLe
  | ratesNonneg | matchRatePos
  | miningType | miningAmount | miningRate | haveMatch
  | pendingPair | pendingAmount | openAmountGe
  deriving DecidableEq

def ccassert (p : Prop) [Decidable p] (a : Assertion) : Except Assertion Unit :=
  if p then .ok () else .error a

@[simp] theorem ccassert_eq_ok {p : Prop} [Decidable p] {a : Assertion} {u : Unit} :
    ccassert p a = .ok u ↔ p := by
  unfold ccassert
  split_ifs with h <;> simp [h]

/-- `AddRequest`: the columns that a request starts with. -/
def addRequest (conv : AmountConv) (x : Xreq) : Xreq :=
  { x with
    openAmount := x.maxAmount
    openRateRequired := x.matchRateRequired (conv.asUniFloat x.maxAmount) 0
    recalcTime := recalcNext }

/-- The matching columns at the start of a round. -/
def resetMatching (x : Xreq) : Xreq :=
  { x with matchingAmount := x.openAmount, matchingRateRequired := x.openRateRequired }

/-- Returns true if `other` is better than the current best. A buyer wants a lower rate, a seller
a higher one. -/
def compareRates (self : Xreq) (selfNetRate : UniFloat) (other : Xreq) (otherNetRate : UniFloat)
    (amount : ℕ) : Bool :=
  if self.bestAmount = 0 then true
  else if selfNetRate ≠ self.bestNetRate then
    self.isBuyer ^^ decide (self.bestNetRate < selfNetRate)
  -- this tie-breaker promotes mutual matches
  else if otherNetRate ≠ self.bestOtherNetRate then
    self.isBuyer ^^ decide (otherNetRate < self.bestOtherNetRate)
  else if amount ≠ self.bestAmount then decide (self.bestAmount < amount)
  -- this tie-breaker spreads matches as the matching amount decreases
  else if other.matchingAmount ≠ self.bestOtherMatchingAmount then
    decide (self.bestOtherMatchingAmount < other.matchingAmount)
  -- first in, for the requests that have been added to the blockchain
  else if other.xreqnum ≠ self.bestOtherXreqnum then
    decide (self.bestOtherXreqnum = 0 ∨ (other.xreqnum ≠ 0 ∧ other.xreqnum < self.bestOtherXreqnum))
  else decide (other.seqnum < self.bestOtherSeqnum)

def computeElapsed (xreqTime blockTime : ℕ) : ℕ := if blockTime ≤ xreqTime then 0 else blockTime - xreqTime

def computeHold (elapsed required : ℕ) : ℕ := if required ≤ elapsed then 0 else required - elapsed

def computeNetHold (xreq other : Xreq) (blockTime : ℕ) : ℕ :=
  let elapsed := computeElapsed xreq.blocktime blockTime
  max (computeHold elapsed xreq.holdTime) (computeHold elapsed other.holdTimeRequired)

def computeMatchHold (buyer seller : Xreq) (blockTime : ℕ) : ℕ :=
  max (computeNetHold buyer seller blockTime) (computeNetHold seller buyer blockTime)

/-- The discounted rate of a request whose match is on hold. -/
def discountedRate (xreq : Xreq) (rate : UniFloat) (hold : ℕ) : UniFloat :=
  let factor := add 1 (-xreq.waitDiscount) 0 false
  let factor := power factor (1 + hold / waitDiscountInterval : ℕ)
  if xreq.isBuyer then divide rate factor 0 else multiply rate factor 0

/-- `ComputeDiscount`: the discounted rate, and the request with its `recalc_time` moved to the
time when the discount changes. -/
def computeDiscount (xreq : Xreq) (rate : UniFloat) (hold blockTime : ℕ) : Xreq × UniFloat :=
  if hold ≤ xreq.minWaitTime ∨ rate = 0 ∨ xreq.waitDiscount = 0 then (xreq, rate)
  else
    let hold := hold + 1 - xreq.minWaitTime
    let newRate := discountedRate xreq rate hold
    if newRate = rate then (xreq, rate)
    else
      let recalcTime := blockTime + waitDiscountInterval - hold % waitDiscountInterval
      if xreq.recalcTime = recalcNot ∨ recalcTime < xreq.recalcTime then
        ({ xreq with recalcTime := recalcTime, changed := true }, newRate)
      else (xreq, newRate)

/-- `SetMatch`: store `other` as the best potential match of `self`. -/
def setMatch (amount : ℕ) (rate : UniFloat) (hold : Bool) (self : Xreq) (selfNetRate : UniFloat)
    (other : Xreq) (otherNetRate : UniFloat) : Xreq :=
  { self with
    bestAmount := amount
    bestRate := rate
    bestNetRate := selfNetRate
    bestOtherSeqnum := other.seqnum
    bestOtherXreqnum := other.xreqnum
    bestOtherMatchingAmount := other.matchingAmount
    bestOtherNetRate := otherNetRate
    recalcTime := if hold then recalcNext else self.recalcTime
    changed := true }

/-- The amount of a potential match and the rates that its two sides require at that amount. -/
structure MatchTerms where
  amount : ℕ
  buyerRateReq : UniFloat
  sellerRateReq : UniFloat
  deriving DecidableEq

namespace MatchTerms

def matchRate (t : MatchTerms) : UniFloat := average t.buyerRateReq t.sellerRateReq 0

end MatchTerms

/-- The part of `CheckMatch` that finds the terms; it finds none where `CheckMatch` returns false
because a rate recomputed at the smaller amount no longer meets the other one. -/
def matchTerms (conv : AmountConv) (buyer seller : Xreq) : Option MatchTerms :=
  let amount := if seller.matchingAmount < buyer.matchingAmount then seller.matchingAmount
    else buyer.matchingAmount
  if seller.matchingAmount < buyer.matchingAmount ∧ conv.asUniFloat amount ≤ buyer.baseCosts then none
  else
    let buyerRateReq := if amount < buyer.matchingAmount
      then buyer.matchRateRequired (conv.asUniFloat amount) 0 else buyer.matchingRateRequired
    if amount < buyer.matchingAmount ∧ buyerRateReq < seller.matchingRateRequired then none
    else
      let sellerRateReq := if amount < seller.matchingAmount
        then seller.matchRateRequired (conv.asUniFloat amount) 0 else seller.matchingRateRequired
      if amount < seller.matchingAmount ∧ buyerRateReq < sellerRateReq then none
      else some ⟨amount, buyerRateReq, sellerRateReq⟩

section Terms
variable {conv : AmountConv} {buyer seller : Xreq}

theorem matchTerms_of_seller_lt (h : seller.matchingAmount < buyer.matchingAmount)
    (hbase : buyer.baseCosts < conv.asUniFloat seller.matchingAmount) :
    matchTerms conv buyer seller =
      if buyer.matchRateRequired (conv.asUniFloat seller.matchingAmount) 0 < seller.matchingRateRequired
      then none
      else some ⟨seller.matchingAmount, buyer.matchRateRequired (conv.asUniFloat seller.matchingAmount) 0,
        seller.matchingRateRequired⟩ := by
  simp [matchTerms, h, not_le.2 hbase]

theorem matchTerms_of_buyer_lt (h : buyer.matchingAmount < seller.matchingAmount) :
    matchTerms conv buyer seller =
      if buyer.matchingRateRequired < seller.matchRateRequired (conv.asUniFloat buyer.matchingAmount) 0
      then none
      else some ⟨buyer.matchingAmount, buyer.matchingRateRequired,
        seller.matchRateRequired (conv.asUniFloat buyer.matchingAmount) 0⟩ := by
  simp [matchTerms, h, h.not_gt]

theorem matchTerms_of_eq (h : seller.matchingAmount = buyer.matchingAmount) :
    matchTerms conv buyer seller =
      some ⟨buyer.matchingAmount, buyer.matchingRateRequired, seller.matchingRateRequired⟩ := by
  simp [matchTerms, h]

end Terms

/-- To ensure the integrity of mining, simple and mining buyers only match simple and mining sellers. -/
def typesMatch (buyer seller : Xreq) : Bool :=
  !((buyer.type = .simpleBuy || buyer.type = .miningBuy) &&
    (seller.type ≠ .simpleSell && seller.type ≠ .miningSell))

/-- The assertions at the head of `CheckMatch`. -/
def checkMatchPre (conv : AmountConv) (buyer seller : Xreq) : Except Assertion Unit := do
  ccassert (buyer.recalc ∨ seller.recalc) .recalc
  ccassert (buyer.isBuyer = true) .isBuyer
  ccassert (seller.isSeller = true) .isSeller
  ccassert (seller.matchingAmount ≠ 0) .sellerMatchingAmount
  ccassert (seller.matchingAmount ≤ seller.openAmount) .sellerOpenAmount
  ccassert (conv.asUniFloat seller.matchingAmount ≠ 0) .sellerFloatAmount
  ccassert (buyer.matchingAmount ≠ 0) .buyerMatchingAmount
  ccassert (buyer.matchingAmount ≤ buyer.openAmount) .buyerOpenAmount
  ccassert (buyer.baseCosts ≤ conv.asUniFloat buyer.matchingAmount) .buyerFloatAmount
  ccassert (seller.matchingRateRequired ≤ buyer.matchingRateRequired) .matchingRates

/-- The assertions of `CheckMatch` on the terms that it found. -/
def checkMatchTerms (t : MatchTerms) (buyerNetRate sellerNetRate : UniFloat) : Except Assertion Unit := do
  ccassert (t.sellerRateReq ≤ t.buyerRateReq) .rateReqs
  ccassert (t.amount ≠ 0) .amountPos
  ccassert (0 ≤ t.matchRate) .matchRateNonneg
  ccassert (0 ≤ buyerNetRate) .buyerNetRateNonneg
  ccassert (0 ≤ sellerNetRate) .sellerNetRateNonneg

/-- `CheckMatch`: returns whether a best match changed, with the new buyer and seller. -/
def checkMatch (conv : AmountConv) (buyer seller : Xreq) (blockTime : ℕ) :
    Except Assertion (Bool × Xreq × Xreq) := do
  if !typesMatch buyer seller then return (false, buyer, seller)
  checkMatchPre conv buyer seller
  match matchTerms conv buyer seller with
  | none => return (false, buyer, seller)
  | some t =>
    let buyerNetRate := buyer.netRate (conv.asUniFloat t.amount) t.matchRate 0
    let sellerNetRate := seller.netRate (conv.asUniFloat t.amount) t.matchRate 0
    checkMatchTerms t buyerNetRate sellerNetRate
    let hold := computeMatchHold buyer seller blockTime
    if buyer.expireTime ≤ blockTime + hold ∨ seller.expireTime ≤ blockTime + hold then
      return (false, buyer, seller)
    let (buyer, buyerNetRate) :=
      if hold ≠ 0 then computeDiscount buyer buyerNetRate hold blockTime else (buyer, buyerNetRate)
    let (seller, sellerNetRate) :=
      if hold ≠ 0 then computeDiscount seller sellerNetRate hold blockTime else (seller, sellerNetRate)
    let betterForBuyer := compareRates buyer buyerNetRate seller sellerNetRate t.amount
    let buyer := if betterForBuyer
      then setMatch t.amount t.matchRate (decide (hold ≠ 0)) buyer buyerNetRate seller sellerNetRate
      else buyer
    let betterForSeller := compareRates seller sellerNetRate buyer buyerNetRate t.amount
    let seller := if betterForSeller
      then setMatch t.amount t.matchRate (decide (hold ≠ 0)) seller sellerNetRate buyer buyerNetRate
      else seller
    return (betterForBuyer || betterForSeller, buyer, seller)

end CredaCash.Exchange
