import CredaCash.Chain.TxOutputs
import CredaCash.Exchange.Matching

/-! What a new matching epoch does to the exchange: pending matches are made persistent, and requests are closed
because they expired or because there are too many of them. -/

namespace CredaCash.Exchange
open UniFloat Chain

def xreqMaxPersistentCount : ℕ := 1200
def xreqMinNonPersistentCount : ℕ := 20000

/-- The dispositions `XMATCH_REQ_DISPOSITION_` that the exchange itself gives to a request. -/
inductive Disposition
  | expiredAll | expiredRem | openAll | openPart | matchedPart | matchedAll
  deriving DecidableEq

/-- The disposition that `Xmatchreq::Init` gives to a request. -/
def disposition (x : Xreq) : Disposition :=
  if x.openAmount = 0 ∧ x.maxAmount = 0 then .expiredAll
  else if x.openAmount = x.maxAmount then .openAll
  else if x.openAmount ≠ 0 ∧ x.foreignAddress ≠ "" then .matchedPart
  else if x.openAmount ≠ 0 then .openPart
  else .matchedAll

/-- A request in the tables `Exchange_Match_Reqs` and `Exchange_Matching_Reqs`: what it was when it was added,
and the two columns that change. -/
structure XmatchreqRow where
  req : Xreq
  openAmount : ℕ
  disposition : Disposition

/-- A match in the table `Exchange_Matches`. -/
structure XmatchRow where
  xmatchnum : ℕ
  buyXreqnum : ℕ
  sellXreqnum : ℕ
  matchTimestamp : ℕ
  baseAmount : ℕ
  rate : UniFloat
  matchPledge : ℕ
  deriving DecidableEq

/-- The closing of a request that was not matched in full: the amount that was open, the outputs that refund it,
and the remainder that is smaller than any output. -/
structure Closing where
  xreqnum : ℕ
  openAmount : ℕ
  outputs : List TxOutput
  rest : ℕ

/-- What the exchange saves, with the closings in their order. -/
structure Saved where
  nextXmatchnum : ℕ := 1
  requests : List XmatchreqRow := []
  xmatches : List XmatchRow := []
  closings : List Closing := []

/-- Why the synchronization of matching fails; the node then stops. -/
inductive SyncError
  | assertion (a : Assertion)
  /-- `CreateTxOutputs` -/
  | outputs
  /-- `CCASSERT(bpersistent == !!xreq.xreqnum)` -/
  | persistentCount
  /-- no request is found to prune -/
  | notFound
  deriving DecidableEq

/-- `CCASSERT`. -/
def syncAssert (p : Prop) [Decidable p] (a : Assertion) : Except SyncError Unit :=
  if p then .ok () else .error (.assertion a)

@[simp] theorem syncAssert_eq_ok {p : Prop} [Decidable p] {a : Assertion} {u : Unit} :
    syncAssert p a = .ok u ↔ p := by
  unfold syncAssert
  split_ifs with h <;> simp [h]

def xmatchreqUpdate (rows : List XmatchreqRow) (xreqnum : ℕ) (disposition : Disposition) : List XmatchreqRow :=
  rows.map fun row =>
    if row.req.xreqnum = xreqnum ∧ row.req.xreqnum ≠ 0 then { row with disposition := disposition } else row

/-- `XmatchreqInsertInternal`, which updates a request that was saved before. -/
def xmatchreqInsert (rows : List XmatchreqRow) (x : Xreq) (openAmount : ℕ) (disposition : Disposition) :
    List XmatchreqRow :=
  if rows.any (·.req.xreqnum = x.xreqnum) then
    rows.map fun row =>
      if row.req.xreqnum = x.xreqnum then { row with openAmount := openAmount, disposition := disposition } else row
  else rows ++ [⟨x, openAmount, disposition⟩]

section Expire
-- What may stop the creation of outputs is given by the number of closings before it.
variable (outputEnv : ℕ → OutputEnv)

/-- The amount that closing a request refunds: of a buyer its pledge, rounded down. -/
def refundAmount (x : Xreq) (openAmount : ℕ) : ℕ := if x.isBuyer then openAmount * x.pledge / 100 else openAmount

/-- Refund an amount to the destination of a request. -/
def createRefund (saved : Saved) (x : Xreq) (openAmount amount : ℕ) : Except SyncError Saved :=
  match createTxOutputs (outputEnv saved.closings.length) x.baseAsset amount x.destination false false with
  | none => .error .outputs
  | some (outputs, rest) =>
    .ok { saved with closings := saved.closings ++ [⟨x.xreqnum, openAmount, outputs, rest⟩] }

def expireXreq (st : XreqTable × Saved) (x : Xreq) : Except SyncError (XreqTable × Saved) :=
  let t := xreqsDelete st.1 x
  if x.xreqnum = 0 ∨ x.openAmount = 0 then .ok (t, st.2)
  else
    let disposition := if x.openAmount < x.maxAmount then Disposition.expiredRem else .expiredAll
    let saved := { st.2 with requests := xmatchreqUpdate st.2.requests x.xreqnum disposition }
    if x.type.hasBareMsg then
      .ok (t, { saved with closings := saved.closings ++ [⟨x.xreqnum, x.openAmount, [], 0⟩] })
    else (createRefund outputEnv saved x x.openAmount (refundAmount x x.openAmount)).map fun saved => (t, saved)

/-- `ExpireXreqs`: `XreqsSelectExpire` finds the expired requests in the order of the index. -/
def expireXreqs (blockTime : ℕ) (st : XreqTable × Saved) : Except SyncError (XreqTable × Saved) :=
  (st.1.sorted (·.expireTime ≤ blockTime) expireOrder).foldlM (expireXreq outputEnv) st

/-- The twin of a request that was pruned is closed too. -/
def pruneLinked (st : XreqTable × Saved) (linkedSeqnum : ℕ) : Except SyncError (XreqTable × Saved) :=
  if linkedSeqnum = 0 then .ok st
  else
    match xreqsSelectSeqnum st.1 linkedSeqnum with
    | none => .ok st
    | some x => expireXreq outputEnv st x

/-- One pass of `PruneXreqs`, from the number of the next request. A turn deletes a request or passes one by. -/
def prunePass (pass newXreqnum : ℕ) : ℕ → ℕ → XreqTable × Saved → Except SyncError (XreqTable × Saved)
  | 0, _, st => .ok st
  | n+1, nextXreqnum, st =>
    let persistent := xreqCountPersistent st.1
    let bpersistent : Bool := xreqMaxPersistentCount < persistent
    if !bpersistent ∧ persistent + xreqCountPending st.1 ≤ xreqMaxPersistentCount + xreqMinNonPersistentCount then .ok st
    else
      match xreqsSelectXreqnum st.1 (if bpersistent then nextXreqnum else 0) with
      | none => if pass = 0 then .ok st else .error .notFound
      | some x =>
        if bpersistent ≠ decide (x.xreqnum ≠ 0) then .error .persistentCount
        else if pass = 0 ∧ bpersistent ∧ newXreqnum ≤ x.xreqnum then .ok st
        else if pass = 0 ∧ bpersistent ∧ x.openAmount = x.maxAmount ∧ x.pendingMatchRate ≠ 0 then
          prunePass pass newXreqnum n (x.xreqnum + 1) st
        else do
          let st ← expireXreq outputEnv st x
          let st ← pruneLinked outputEnv st x.linkedSeqnum
          prunePass pass newXreqnum n (x.xreqnum + 1) st

def pruneXreqs (newXreqnum : ℕ) (st : XreqTable × Saved) : Except SyncError (XreqTable × Saved) := do
  let st ← prunePass outputEnv 0 newXreqnum (st.1.rows.length + 1) 1 st
  prunePass outputEnv 1 newXreqnum (st.1.rows.length + 1) 1 st

end Expire

section Persist
variable (conv : AmountConv) (outputEnv : ℕ → OutputEnv)

def updateOpenAmount (x : Xreq) (amount : ℕ) : Except SyncError Xreq := do
  syncAssert (amount ≤ x.openAmount) .openAmountGe
  return { x with
    openAmount := x.openAmount - amount
    openRateRequired := x.matchRateRequired (conv.asUniFloat (x.openAmount - amount)) 0
    recalcTime := recalcNext }

def saveXreq (t : XreqTable) (x : Xreq) : XreqTable := if x.openAmount ≠ 0 then xreqsUpdate t x else xreqsDelete t x

/-- The assertions of `Xmatchreq::Init`. -/
def xmatchreqInit (x other : Xreq) : Except SyncError Unit :=
  syncAssert (x.xreqnum ≠ other.xreqnum → x.bestOtherSeqnum = other.seqnum ∧
    other.considerationRequired ≤ x.considerationOffered ∧ x.acceptTimeRequired ≤ other.acceptTimeOffered) .terms

/-- The assertions of `Xmatch::Init`; an accept time is not supported. -/
def xmatchInit (buyer seller : Xreq) : Except SyncError Unit := do
  syncAssert (buyer.baseAsset = seller.baseAsset ∧ buyer.quoteAsset = seller.quoteAsset ∧
    buyer.foreignAsset = seller.foreignAsset) .sameAssets
  syncAssert (buyer.bestAmount = seller.bestAmount) .sameBestAmount
  syncAssert (buyer.bestRate = seller.bestRate) .sameBestRate
  syncAssert (seller.pledge ≤ buyer.pledge ∧ seller.paymentTime ≤ buyer.paymentTime) .terms
  xmatchreqInit buyer seller
  xmatchreqInit seller buyer
  syncAssert (max buyer.acceptTimeRequired seller.acceptTimeRequired = 0 ∧ buyer.autoAcceptMatches = true ∧
    seller.autoAcceptMatches = true) .terms

/-- Close a sell request after a match in part, since an active foreign address can only be associated with one
match; whatever `CreateTxOutputs` leaves of the open amount is dropped. -/
def closeSeller (saved : Saved) (minor : Xreq) : Except SyncError (Xreq × Saved) :=
  if disposition minor = .matchedPart then
    (createRefund outputEnv saved minor minor.openAmount minor.openAmount).map fun saved =>
      ({ minor with openAmount := 0 }, saved)
  else .ok (minor, saved)

/-- `XmatchInsert`, with the dispositions that `Xmatchreq::Init` found before a seller was closed. -/
def xmatchInsert (saved : Saved) (blockTime : ℕ) (major minor : Xreq) (sellDisposition : Disposition) : Saved :=
  { saved with
    nextXmatchnum := saved.nextXmatchnum + 1
    requests := xmatchreqInsert (xmatchreqInsert saved.requests major major.openAmount (disposition major))
      minor minor.openAmount sellDisposition
    xmatches := saved.xmatches ++ [⟨saved.nextXmatchnum, major.xreqnum, minor.xreqnum, blockTime, major.bestAmount,
      major.bestRate, major.pledge⟩] }

/-- The assertions on a pending match that is made persistent. -/
def pendingMatchPre (major minor : Xreq) : Except SyncError Unit := do
  syncAssert (major.isBuyer = true) .isBuyer
  syncAssert (minor.isSeller = true) .isSeller
  syncAssert (major.seqnum = minor.bestOtherSeqnum ∧ major.xreqnum = minor.bestOtherXreqnum) .pendingPair
  syncAssert (minor.pendingMatchOrder ≠ 0 ∧ minor.pendingMatchHoldTime = 0) .pendingMatchOrder
  syncAssert (minor.pendingMatchAmount ≠ 0) .pendingAmount
  syncAssert (0 < minor.pendingMatchRate) .matchRatePos

/-- One turn of `MakeMatchesPersistent`. -/
def makeMatchPersistent (blockTime : ℕ) (st : XreqTable × Saved) (major minor : Xreq) :
    Except SyncError (XreqTable × Saved) := do
  pendingMatchPre major minor
  let amount := minor.pendingMatchAmount
  let rate := minor.pendingMatchRate
  let major ← updateOpenAmount conv major amount
  let minor ← updateOpenAmount conv { minor with pendingMatchOrder := 0 } amount
  let major := { major with bestOtherSeqnum := minor.seqnum, bestAmount := amount, bestRate := rate }
  let minor := { minor with bestAmount := amount, bestRate := rate }
  xmatchInit major minor
  let sellDisposition := disposition minor
  let (minor, saved) ← closeSeller outputEnv st.2 minor
  let saved := xmatchInsert saved blockTime major minor sellDisposition
  return (saveXreq (saveXreq st.1 major) minor, saved)

/-- The loop of `MakeMatchesPersistent`, where every turn clears the order of a pending match. -/
def makeMatchesPersistentLoop (blockTime : ℕ) : ℕ → XreqTable × Saved → Except SyncError (XreqTable × Saved)
  | 0, st => .ok st
  | n+1, st =>
    match matchingSelectNextPendingMatch st.1 with
    | none => .ok st
    | some (major, minor) => do
      let st ← makeMatchPersistent conv outputEnv blockTime st major minor
      makeMatchesPersistentLoop blockTime n st

def makeMatchesPersistent (blockTime : ℕ) (st : XreqTable × Saved) : Except SyncError (XreqTable × Saved) :=
  makeMatchesPersistentLoop conv outputEnv blockTime st.1.rows.length st

/-- The table and what is saved, after the part of `SynchronizeMatching` that starts a new epoch. -/
def startEpoch (priorTime blockTime newXreqnum : ℕ) (st : XreqTable × Saved) : Except SyncError (XreqTable × Saved) := do
  let st ← makeMatchesPersistent conv outputEnv priorTime st
  let st ← expireXreqs outputEnv blockTime st
  pruneXreqs outputEnv newXreqnum st

end Persist

end CredaCash.Exchange
