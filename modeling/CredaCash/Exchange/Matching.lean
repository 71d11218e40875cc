import CredaCash.Exchange.Table

/-! A round of matching: the passes of `MatchReqs`, with the search for the best potential matches and the
mutual matches found in them, and the matches of mining trades at its end. -/

namespace CredaCash.Exchange
open UniFloat

/-- The expression of `Xreqs_set_recalc`; a best match that is no longer in the table counts as matched. -/
def recalcFlag (t : XreqTable) (firstPass : Bool) (priorPassnum blockTime : ℕ) (x : Xreq) : Bool :=
  (firstPass && recalcNext ≤ x.recalcTime && x.recalcTime ≤ blockTime) || x.lastMatched = priorPassnum ||
    (x.bestAmount ≠ 0 && ((xreqsSelectSeqnum t x.bestOtherSeqnum).map fun other =>
      decide (other.lastMatched = priorPassnum)).getD true)

/-- `Xreqs_set_recalc`. -/
def setRecalc (t : XreqTable) (firstPass : Bool) (priorPassnum blockTime maxXreqnum : ℕ) : XreqTable :=
  t.map (fun x =>
    if x.xreqnum ≤ maxXreqnum then { x with recalc := recalcFlag t firstPass priorPassnum blockTime x } else x)
    fun x => by split_ifs <;> rfl

/-- The columns that `Xreqs_init_matching` sets where the best match is to be found again; the requests of
the best match are kept, since they serve to retrieve final matches. -/
def resetBest (x : Xreq) : Xreq :=
  { x with
    bestAmount := 0
    bestOtherMatchingAmount := 0
    bestRate := Xreq.signedMax (-Xreq.rateSign x.isBuyer)
    bestNetRate := Xreq.signedMax (-Xreq.rateSign x.isBuyer)
    bestOtherNetRate := Xreq.signedMax (Xreq.rateSign x.isBuyer) }

/-- A row in `Xreqs_init_matching`. -/
def initMatchingRow (firstPass : Bool) (x : Xreq) : Xreq :=
  let x := if firstPass then
      { resetMatching x with recalcTime := if x.recalc then recalcNot else x.recalcTime } else x
  if x.recalc then resetBest x else x

/-- `Xreqs_init_matching` keeps everything but the columns of matching. -/
theorem statics_initMatchingRow (firstPass : Bool) (x : Xreq) : statics (initMatchingRow firstPass x) = statics x := by
  unfold initMatchingRow
  dsimp only
  split_ifs <;> rfl

/-- `Xreqs_init_matching`. -/
def initMatching (t : XreqTable) (firstPass : Bool) (maxXreqnum : ℕ) : XreqTable :=
  t.map (fun x => if x.xreqnum ≤ maxXreqnum then initMatchingRow firstPass x else x)
    fun x => by
      split_ifs
      · exact seqnum_of_statics (statics_initMatchingRow firstPass x)
      · rfl

def matchingInit (t : XreqTable) (firstPass : Bool) (priorPassnum blockTime maxXreqnum : ℕ) : XreqTable :=
  initMatching (setRecalc t firstPass priorPassnum blockTime maxXreqnum) firstPass maxXreqnum

section Candidates

/-- The rows that take part in the search for pairs of assets. -/
def hasPair (maxXreqnum : ℕ) (x : Xreq) : Bool := x.openAmount ≠ 0 && 1 ≤ x.xreqnum && x.xreqnum ≤ maxXreqnum

/-- The scan of the base assets in ascending order: one that is found moves the cursor beyond its successor. -/
def scanBases : ℤ → List ℕ → List ℕ
  | _, [] => []
  | cursor, base :: rest => if cursor < base then base :: scanBases (base + 1) rest else scanBases cursor rest

/-- The base assets that `XreqsSelectPairBase` finds. -/
def pairBases (t : XreqTable) (maxXreqnum : ℕ) : List ℕ :=
  scanBases (-1) ((t.sorted (hasPair maxXreqnum) Xreq.baseAsset).map Xreq.baseAsset)

/-- The quote assets that `XreqsSelectPairQuote` finds. -/
def pairQuotes (t : XreqTable) (maxXreqnum base : ℕ) : List (ℕ × String) :=
  ((t.sorted (fun x => hasPair maxXreqnum x && x.baseAsset = base) fun x =>
    toLex (x.quoteAsset, x.foreignAsset)).map fun x => (x.quoteAsset, x.foreignAsset)).dedup

/-- `Xreqs_select_major`. -/
def isMajor (maxXreqnum base : ℕ) (quote : ℕ × String) (x : Xreq) : Bool :=
  x.isBuyer && x.openAmount ≠ 0 && x.baseAsset = base && x.quoteAsset = quote.1 && x.foreignAsset = quote.2 &&
    x.xreqnum ≤ maxXreqnum && x.xreqnum ≠ 0 && x.matchingAmount ≠ 0 && 0 ≤ x.matchingRateRequired

/-- `MatchingInitTypeRange`, for matching; a maximum of zero allows every type. -/
def minorTypeRange (type : XtxType) : ℕ × ℕ :=
  if type = .simpleBuy ∨ type = .miningBuy then (XtxType.simpleSell.code, XtxType.simpleSell.code)
  else if type = .nakedSell ∨ type = .reqSell then (XtxType.nakedBuy.code, XtxType.reqBuy.code)
  else if type = .nakedBuy then (XtxType.nakedSell.code, XtxType.reqSell.code)
  else (0, 0)

/-- `Xreqs_select_minor`, with the parameters that `MatchingInitMinor` takes from the major. -/
def isMinor (maxXreqnum : ℕ) (major x : Xreq) : Bool :=
  let range := minorTypeRange major.type
  !x.isBuyer && x.openAmount ≠ 0 && x.baseAsset = major.baseAsset && x.quoteAsset = major.quoteAsset &&
    x.foreignAsset = major.foreignAsset && x.xreqnum ≤ maxXreqnum &&
    range.1 ≤ x.type.code && (x.type.code ≤ range.2 || range.2 = 0) &&
    x.considerationRequired ≤ major.considerationOffered && major.considerationRequired ≤ x.considerationOffered &&
    x.pledge ≤ major.pledge && x.acceptTimeRequired ≤ major.acceptTimeOffered &&
    major.acceptTimeRequired ≤ x.acceptTimeOffered && x.paymentTime ≤ major.paymentTime &&
    x.confirmations ≤ major.confirmations && x.minAmount ≤ major.matchingAmount && x.xreqnum ≠ 0 &&
    x.matchingAmount ≠ 0 && major.minAmount ≤ x.matchingAmount &&
    x.matchingRateRequired ≤ major.matchingRateRequired && (major.recalc || x.recalc)

/-- The buyers of a pass, in the order of the cursors of its three outer loops. Nothing in the search changes
the columns that the queries read. -/
def majors (t : XreqTable) (maxXreqnum : ℕ) : List Xreq :=
  (pairBases t maxXreqnum).flatMap fun base =>
    (pairQuotes t maxXreqnum base).flatMap fun quote => t.sorted (isMajor maxXreqnum base quote) rateOrder

/-- The sellers that are evaluated for a buyer, in the order of the cursor. -/
def minors (t : XreqTable) (maxXreqnum : ℕ) (major : Xreq) : List Xreq := t.sorted (isMinor maxXreqnum major) rateOrder

end Candidates

variable (conv : AmountConv)

/-- The assertions of `MatchingSelectMajor` and `MatchingSelectMinor` on the row that they find. -/
def selectedRow (x : Xreq) : Except Assertion Unit := do
  ccassert (x.matchingAmount ≤ x.openAmount) .matchingAmountLe
  ccassert (0 ≤ x.openRateRequired ∧ 0 ≤ x.matchingRateRequired) .ratesNonneg

/-- The end of `CheckMatch`, which updates a row that it changed. -/
def storeChanged (t : XreqTable) (x : Xreq) : XreqTable := if x.changed then xreqsUpdate t x else t

/-- The variables of the search in one pass. -/
structure Scan where
  table : XreqTable
  changedBest : Bool := false
  innerCount : ℕ

/-- One turn of the inner loop: the pair is evaluated. -/
def checkMinor (blockTime major : ℕ) (st : Scan) (minor : ℕ) : Except Assertion Scan :=
  match xreqsSelectSeqnum st.table major, xreqsSelectSeqnum st.table minor with
  | some major, some minor => do
    selectedRow minor
    let (changed, major, minor) ← checkMatch conv major minor blockTime
    return ⟨storeChanged (storeChanged st.table major) minor, st.changedBest || changed, st.innerCount + 1⟩
  | _, _ => return st

/-- One turn of the loop over the buyers. -/
def checkMajor (blockTime maxXreqnum : ℕ) (st : Scan) (major : Xreq) : Except Assertion Scan := do
  selectedRow major
  ((minors st.table maxXreqnum major).map Xreq.seqnum).foldlM (checkMinor conv blockTime major.seqnum) st

/-- A match that was set as pending: its order, its two requests and its terms. -/
structure PendingMatch where
  order : ℕ
  buyer : ℕ
  buyerXreqnum : ℕ
  seller : ℕ
  sellerXreqnum : ℕ
  amount : ℕ
  rate : UniFloat
  deriving DecidableEq

/-- The table with the number of the next match, and the matches that were set as pending in the round. -/
structure MatchList where
  table : XreqTable
  nextMatchIndex : ℕ
  found : List PendingMatch

/-- The assertions of `UpdateMutualMatch`. -/
def updateMutualMatchPre (x other : Xreq) (amount : ℕ) (rate : UniFloat) : Except Assertion Unit := do
  ccassert (x.xreqnum ≠ 0) .xreqnum
  ccassert (x.bestOtherSeqnum = other.seqnum) .bestOtherSeqnum
  ccassert (x.bestOtherXreqnum = other.xreqnum) .bestOtherXreqnum
  ccassert (x.bestOtherNetRate = other.bestNetRate) .bestOtherNetRate
  ccassert (x.bestAmount = other.bestAmount) .bestAmount
  ccassert (x.bestRate = other.bestRate) .bestRate
  ccassert (amount ≠ 0) .matchAmountPos
  ccassert (amount ≤ x.matchingAmount) .matchAmountLe
  ccassert (x.matchingAmount ≤ x.openAmount) .matchingAmountLe
  ccassert (x.openAmount ≤ x.maxAmount) .openAmountLe
  ccassert (x.bestAmount ≠ 0) .bestAmount
  ccassert (0 ≤ x.bestRate ∧ 0 ≤ x.bestNetRate) .ratesNonneg
  ccassert (0 ≤ x.openRateRequired ∧ 0 ≤ x.matchingRateRequired) .ratesNonneg
  ccassert (0 < rate) .matchRatePos

/-- The matching amount after a match: an active foreign address can only be associated with one match. -/
def restAmount (x : Xreq) (amount : ℕ) : ℕ :=
  if x.foreignAddress ≠ "" then 0 else x.matchingAmount - amount

/-- The columns that `UpdateMutualMatch` sets. -/
def mutualMatchRow (x : Xreq) (amount : ℕ) (rate : UniFloat) (passnum blockTime hold : ℕ) : Xreq :=
  let x := { x with
    matchingAmount := restAmount x amount
    matchingRateRequired := x.matchRateRequired (conv.asUniFloat (restAmount x amount)) 0
    lastMatched := passnum }
  if x.pendingMatchEpoch ≠ blockTime / matchingSecsPerEpoch then
    { x with
      pendingMatchEpoch := blockTime / matchingSecsPerEpoch
      pendingMatchAmount := amount
      pendingMatchRate := rate
      pendingMatchHoldTime := hold }
  else x

/-- `UpdateMutualMatch`, before the update of the row. -/
def updateMutualMatch (x other : Xreq) (amount : ℕ) (rate : UniFloat) (passnum blockTime hold : ℕ) :
    Except Assertion Xreq := do
  updateMutualMatchPre x other amount rate
  return mutualMatchRow conv x amount rate passnum blockTime hold

/-- The updates of both sides of a match. -/
def updateBoth (t : XreqTable) (major minor : Xreq) (passnum blockTime hold : ℕ) : Except Assertion XreqTable := do
  let amount := major.bestAmount
  let rate := major.bestRate
  let major ← updateMutualMatch conv major minor amount rate passnum blockTime hold
  let minor ← updateMutualMatch conv minor major amount rate passnum blockTime hold
  return xreqsUpdate (xreqsUpdate t major) minor

/-- A match without hold, which is saved in the sell request as pending. -/
def addPendingMatch (passnum blockTime : ℕ) (st : MatchList) (major minor : Xreq) : Except Assertion MatchList := do
  ccassert (minor.pendingMatchOrder = 0) .pendingMatchOrder
  ccassert (minor.pendingMatchEpoch ≠ blockTime / matchingSecsPerEpoch) .pendingMatchEpoch
  let table ← updateBoth conv st.table major { minor with pendingMatchOrder := st.nextMatchIndex } passnum blockTime 0
  return ⟨table, st.nextMatchIndex + 1, st.found ++
    [⟨st.nextMatchIndex, major.seqnum, major.xreqnum, minor.seqnum, minor.xreqnum, major.bestAmount, major.bestRate⟩]⟩

/-- The assertions of `FindMutualMatches` on the two sides of a match. -/
def mutualMatchPre (major minor : Xreq) : Except Assertion Unit := do
  ccassert (major.isBuyer = true) .isBuyer
  ccassert (major.matchingRateRequired ≤ major.netRateRequired) .majorRateClamp
  ccassert (major.bestAmount ≠ 0) .majorBestAmount
  ccassert (major.bestRate ≤ major.matchingRateRequired) .majorBestRate
  ccassert (minor.isSeller = true) .isSeller
  ccassert (minor.netRateRequired ≤ minor.matchingRateRequired) .minorRateClamp
  ccassert (minor.matchingAmount ≠ 0) .minorMatchingAmount
  ccassert (minor.matchingRateRequired ≤ minor.bestRate) .minorBestRate
  ccassert (major.bestAmount = minor.bestAmount) .sameBestAmount
  ccassert (major.bestRate = minor.bestRate) .sameBestRate
  ccassert (major.bestOtherMatchingAmount = minor.matchingAmount) .majorOtherMatchingAmount
  ccassert (minor.bestOtherMatchingAmount = major.matchingAmount) .minorOtherMatchingAmount
  ccassert (minor.baseAsset = major.baseAsset ∧ minor.quoteAsset = major.quoteAsset ∧
    minor.foreignAsset = major.foreignAsset) .sameAssets
  ccassert (minor.considerationRequired ≤ major.considerationRequired ∧
    major.considerationOffered ≤ minor.considerationOffered ∧ minor.pledge ≤ major.pledge) .terms
  ccassert (minor.acceptTimeRequired ≤ major.acceptTimeRequired ∧
    major.acceptTimeOffered ≤ minor.acceptTimeOffered ∧ minor.paymentTime ≤ major.paymentTime ∧
    minor.confirmations ≤ major.confirmations) .terms

/-- The assertions of `FindMutualMatches` on a match without hold. -/
def mutualMatchRates (major minor : Xreq) : Except Assertion Unit := do
  ccassert (major.bestNetRate ≤ major.netRateRequired) .majorNetRate
  ccassert (checkLE major.bestRate major.bestNetRate = true) .majorCheckLE
  ccassert (minor.netRateRequired ≤ minor.bestNetRate) .minorNetRate
  ccassert (checkGE minor.bestRate minor.bestNetRate = true) .minorCheckGE

/-- One turn of `FindMutualMatches`. -/
def mutualMatch (passnum blockTime : ℕ) (st : MatchList) (pair : ℕ × ℕ) : Except Assertion MatchList :=
  match xreqsSelectSeqnum st.table pair.1, xreqsSelectSeqnum st.table pair.2 with
  | some major, some minor => do
    let hold := computeMatchHold major minor blockTime
    mutualMatchPre major minor
    if hold = 0 then do
      mutualMatchRates major minor
      addPendingMatch conv passnum blockTime st major minor
    else do
      let table ← updateBoth conv st.table major minor passnum blockTime hold
      return { st with table := table }
  | _, _ => return st

/-- The pairs that `MatchingSelectMatch` finds, in the order of its cursor. A turn changes none of the
columns that the query reads. -/
def mutualPairs (t : XreqTable) : List (ℕ × ℕ) :=
  (t.sorted (fun x => x.isBuyer && 1 ≤ x.xreqnum && x.bestAmount ≠ 0 &&
    (xreqsSelectSeqnum t x.bestOtherSeqnum).any (·.bestOtherSeqnum = x.seqnum)) xreqnumOrder).map fun x =>
      (x.seqnum, x.bestOtherSeqnum)

/-- `FindMutualMatches`, with whether there are matches. -/
def findMutualMatches (passnum blockTime : ℕ) (st : MatchList) : Except Assertion (Bool × MatchList) := do
  let pairs := mutualPairs st.table
  let st ← pairs.foldlM (mutualMatch conv passnum blockTime) st
  return (!pairs.isEmpty, st)

section Mining

/-- The rules of `AddMiningMatches` that skip the buy half of a mining trade. -/
def skipMiningBuy (blockTime : ℕ) (major : Xreq) : Bool :=
  major.expireTime ≤ blockTime || major.matchingAmount = 0 || major.linkedSeqnum = 0

/-- The rules of `AddMiningMatches` that skip a mining trade for its sell half. -/
def skipMiningSell (blockTime maxXreqnum : ℕ) (major minor : Xreq) : Bool :=
  maxXreqnum < minor.xreqnum || minor.expireTime ≤ blockTime || minor.matchingAmount = 0 ||
    minor.linkedSeqnum ≠ major.seqnum

/-- The assertions of `AddMiningMatches` on the halves of a mining trade. -/
def miningPair (major minor : Xreq) : Except Assertion Unit := do
  ccassert (minor.type = .miningSell) .miningType
  ccassert (minor.minAmount = minor.maxAmount ∧ major.maxAmount = minor.maxAmount) .miningAmount
  ccassert (major.netRateRequired = minor.netRateRequired) .miningRate

/-- The match of a mining trade with itself. -/
def miningMatch (blockTime : ℕ) (st : MatchList) (major minor : Xreq) : Except Assertion MatchList := do
  let (haveMatch, major, minor) ←
    checkMatch conv { major with recalc := true, bestAmount := 0 } { minor with bestAmount := 0 } blockTime
  ccassert (haveMatch = true) .haveMatch
  addPendingMatch conv 0 blockTime { st with table := storeChanged (storeChanged st.table major) minor }
    { major with changed := false } { minor with changed := false }

/-- One turn of `AddMiningMatches`. -/
def addMiningMatch (blockTime maxXreqnum : ℕ) (st : MatchList) (seqnum : ℕ) : Except Assertion MatchList :=
  match xreqsSelectSeqnum st.table seqnum with
  | none => return st
  | some major =>
    if skipMiningBuy blockTime major then return st
    else do
      ccassert (major.type = .miningBuy) .miningType
      ccassert (major.minAmount = major.maxAmount) .miningAmount
      match xreqsSelectSeqnum st.table major.linkedSeqnum with
      -- clear the link, so that this request isn't checked again
      | none => return { st with table := xreqsUpdate st.table { major with linkedSeqnum := 0 } }
      | some minor =>
        if skipMiningSell blockTime maxXreqnum major minor then return st
        else do
          miningPair major minor
          if computeMatchHold major minor blockTime ≠ 0 then return st
          else miningMatch conv blockTime st major minor

/-- The buy halves that `AddMiningMatches` finds. -/
def miningBuys (t : XreqTable) (maxXreqnum : ℕ) : List ℕ :=
  (t.sorted (fun x => x.type = .miningBuy && 1 ≤ x.xreqnum && x.xreqnum ≤ maxXreqnum) xreqnumOrder).map Xreq.seqnum

def addMiningMatches (blockTime maxXreqnum : ℕ) (st : MatchList) : Except Assertion MatchList :=
  (miningBuys st.table maxXreqnum).foldlM (addMiningMatch conv blockTime maxXreqnum) st

end Mining

/-- The variables of the loop of `MatchReqs`, with the matches found so far. -/
structure MatchLoop extends MatchList where
  passnum : ℕ
  firstPass : Bool := true
  haveMatches : Bool := true
  innerCount : ℕ := 0

/-- The condition of the loop of `MatchReqs`. -/
def MatchLoop.continues (m : MatchLoop) : Bool := m.haveMatches && m.innerCount < 1000000

/-- One pass of `MatchReqs`. -/
def matchPass (blockTime maxXreqnum : ℕ) (m : MatchLoop) : Except Assertion MatchLoop := do
  let table := matchingInit m.table m.firstPass m.passnum blockTime maxXreqnum
  let scan ← (majors table maxXreqnum).foldlM (checkMajor conv blockTime maxXreqnum)
    { table := table, innerCount := m.innerCount }
  let st := { m.toMatchList with table := scan.table }
  let (haveMatches, st) ←
    if scan.changedBest then findMutualMatches conv (m.passnum + 1) blockTime st else pure (false, st)
  return ⟨st, m.passnum + 1, false, haveMatches, scan.innerCount⟩

/-- The end of `MatchReqs`, after its loop. -/
def matchEnd (blockTime maxXreqnum : ℕ) (st : MatchList) : Except Assertion MatchList := do
  let st ← addMiningMatches conv blockTime maxXreqnum st
  return { st with table := xreqsClearOldPendingMatches st.table (blockTime / matchingSecsPerEpoch) maxXreqnum }

end CredaCash.Exchange
