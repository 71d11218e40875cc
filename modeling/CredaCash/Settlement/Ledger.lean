import CredaCash.Chain.NodeRun
import CredaCash.Exchange.Synchronize
import CredaCash.Settlement.SettleMatch

/-! The exchange tables of the persistent database, and what a block does with them when it becomes indelible: its
requests are added, its payments credited, new matches inserted, matches past their deadline expired, and rows that
are no longer needed pruned. -/

namespace CredaCash.Settlement
open Wire Chain Checks

/-- A row of `Exchange_Matches`. -/
structure MatchRow where
  xmatchnum : ℕ
  buyXreqnum : ℕ
  sellXreqnum : ℕ
  type : XtxType
  status : XmatchStatus
  nextDeadline : ℕ
  matchTimestamp : ℕ
  acceptTimestamp : ℕ
  finalTimestamp : ℕ
  baseAmount : ℕ
  rate : UniFloat
  amountPaid : UniFloat
  miningAmount : UniFloat
  acceptTime : ℕ
  matchPledge : ℕ
  deriving DecidableEq

/-- A row of `Exchange_Matching_Reqs`. -/
structure MatchingRow where
  xreqnum : ℕ
  deleteTime : ℕ
  quoteAsset : ℕ
  foreignAddress : String
  destination : ℕ
  deriving DecidableEq

/-- A match with the rows of its requests, as `XmatchSelect` joins them when it requires all of them. -/
structure JoinedMatch where
  row : MatchRow
  buy : Xreq
  sell : Xreq
  buying : MatchingRow
  selling : MatchingRow

/-- What happens to a match. -/
inductive MatchEvent
  /-- `XmatchInsert` -/
  | insert (status : XmatchStatus)
  /-- `SettleMatch` -/
  | settle (status : XmatchStatus)
  /-- `ProcessXpayment` has selected the match. -/
  | payment (status : XmatchStatus)
  deriving DecidableEq

/-- Why a block does not become indelible; the node then stops. -/
inductive LedgerError
  /-- a transaction that does not parse -/
  | parse
  /-- `foreign_amount <= 0` -/
  | foreignAmount
  /-- `XmatchSelect`, `XmatchSelectNextDeadline` -/
  | select
  /-- the assertions of `Xmatch::Init` -/
  | init
  | settle (e : SettleError)
  /-- `CCASSERT(0)` -/
  | status
  /-- `CCASSERT(!donation)` -/
  | donation
  /-- the loop of `ExpireMatches` does not end -/
  | endless
  deriving DecidableEq

/-- The tables `Exchange_Matches`, `Exchange_Match_Reqs`, whose rows are requests as they were added, and
`Exchange_Matching_Reqs`, with the counters behind them, the parameters of mining, and a log of what happened. -/
structure Tables where
  xmatches : KeyedTable MatchRow.xmatchnum := .empty
  reqs : KeyedTable Xreq.xreqnum := .empty
  matching : KeyedTable MatchingRow.xreqnum := .empty
  nextXreqnum : ℕ := 1
  nextXmatchnum : ℕ := 1
  saved : ExchangeMiningParams := initMining
  log : List (ℕ × MatchEvent) := []

/-- The parameters of a node for settlement, apart from those for blocks. What may stop the creation of outputs is given
by the match and the party. -/
structure LedgerEnv extends BlockEnv where
  scaled : UniFloat → ℤ
  miningStartTime : ℕ
  donationPerXcxPay : ℕ
  outputEnv : ℕ → Bool → OutputEnv

def LedgerEnv.mining (env : LedgerEnv) : MiningEnv := ⟨env.conv, env.scaled, env.miningStartTime⟩

/-- `Exchange_Matching_Reqs` of a request, as `Xmatchreq::Init` makes it. -/
def matchingRow (x : Xreq) : MatchingRow where
  xreqnum := x.xreqnum
  deleteTime := x.expireTime + x.paymentTime
  quoteAsset := x.quoteAsset
  foreignAddress := x.foreignAddress
  destination := x.destination

/-- What settlement reads of a request. -/
def matchParty (x : Xreq) (matching : MatchingRow) : MatchParty where
  type := x.type
  baseAsset := x.baseAsset
  quoteAsset := x.quoteAsset
  netRateRequired := x.netRateRequired
  baseCosts := x.baseCosts
  quoteCosts := x.quoteCosts
  pledge := x.pledge
  destination := matching.destination
  haveMatching := true

def JoinedMatch.toRecord (j : JoinedMatch) : MatchRecord where
  xmatchnum := j.row.xmatchnum
  status := j.row.status
  matchTimestamp := j.row.matchTimestamp
  baseAmount := j.row.baseAmount
  rate := j.row.rate
  amountPaid := j.row.amountPaid
  haveXreqs := true
  xsell :=
    { quoteAsset := j.sell.quoteAsset
      foreignAddress := j.selling.foreignAddress
      confirmations := j.sell.confirmations
      paymentTime := j.sell.paymentTime }
  miningAmount := j.row.miningAmount
  matchPledge := j.row.matchPledge
  buyer := matchParty j.buy j.buying
  seller := matchParty j.sell j.selling

/-- The columns of a match that `XmatchInsert` updates. -/
def updateMatch (old new : MatchRow) : MatchRow :=
  { old with
    baseAmount := new.baseAmount
    rate := new.rate
    amountPaid := new.amountPaid
    miningAmount := new.miningAmount
    status := new.status
    nextDeadline := new.nextDeadline
    acceptTimestamp := new.acceptTimestamp
    finalTimestamp := new.finalTimestamp }

/-- The column of a request that `XmatchreqInsert` updates in `Exchange_Matching_Reqs`, to the later of two times. -/
def updateMatching (old new : MatchingRow) : MatchingRow :=
  { old with deleteTime := max old.deleteTime new.deleteTime }

namespace Tables

def note (t : Tables) (xmatchnum : ℕ) (e : MatchEvent) : Tables := { t with log := t.log ++ [(xmatchnum, e)] }

/-- What happened to a match. -/
def events (t : Tables) (xmatchnum : ℕ) : List MatchEvent := (t.log.filter (·.1 = xmatchnum)).map (·.2)

/-- `XmatchreqInsert`, which keeps all columns of a request that is there but its disposition. -/
def xmatchreqInsert (t : Tables) (x : Xreq) (matching : MatchingRow) : Tables :=
  { t with
    reqs := t.reqs.upsert x (fun old _ => old) fun _ _ => rfl
    matching := t.matching.upsert matching updateMatching fun _ _ => rfl }

def xmatchInsert (t : Tables) (j : JoinedMatch) : Tables :=
  let t := t.note j.row.xmatchnum (.insert j.row.status)
  let t := { t with xmatches := t.xmatches.upsert j.row updateMatch fun _ _ => rfl }
  (t.xmatchreqInsert j.buy j.buying).xmatchreqInsert j.sell j.selling

/-- The rows of the requests of a match; none if one is missing. -/
def join (t : Tables) (row : MatchRow) : Option JoinedMatch :=
  match t.reqs.select row.buyXreqnum, t.reqs.select row.sellXreqnum, t.matching.select row.buyXreqnum,
    t.matching.select row.sellXreqnum with
  | some buy, some sell, some buying, some selling => some ⟨row, buy, sell, buying, selling⟩
  | _, _, _, _ => none

/-- `XmatchSelect`, with the rows of all tables required. -/
def xmatchSelect (t : Tables) (xmatchnum : ℕ) : Option JoinedMatch := (t.xmatches.select xmatchnum).bind t.join

/-- The row that `XmatchSelectNextDeadline` finds. -/
def nextDeadlineRow (t : Tables) (deadline : ℕ) : Option MatchRow :=
  t.xmatches.first (fun row => row.nextDeadline < deadline && 0 < row.nextDeadline)
    fun row => toLex (row.nextDeadline, row.xmatchnum)

/-- `AddOneXreq`, in the persistent tables. -/
def addOneXreq (t : Tables) (x : Xreq) : Tables := t.xmatchreqInsert x (matchingRow x)

def drawXreqnum (t : Tables) : Tables := { t with nextXreqnum := t.nextXreqnum + 1 }

/-- `AddXreq`: a mining trade becomes a buy and a sell request. -/
def addXreq (t : Tables) (blocktime : ℕ) (x : Xreq) : Tables :=
  let x := { x with xreqnum := t.nextXreqnum, blocktime := blocktime }
  let t := t.drawXreqnum
  if x.type ≠ .miningTrade then t.addOneXreq x
  else
    let sell := { x.convertTradeToSell with xreqnum := t.nextXreqnum }
    (t.drawXreqnum.addOneXreq x.convertTradeToBuy).addOneXreq sell

section
variable (env : LedgerEnv)

/-- `SettleMatch` with its donation. -/
def settle (t : Tables) (j : JoinedMatch) : Except LedgerError (Tables × ℕ) :=
  let t := t.note j.row.xmatchnum (.settle j.row.status)
  match settleMatch env.mining t.saved j.toRecord (env.outputEnv j.row.xmatchnum true)
    (env.outputEnv j.row.xmatchnum false) env.donationPerXcxPay 0 with
  | .error e => .error (.settle e)
  | .ok r =>
    .ok ({ t with saved := r.saved }.xmatchInsert
      { j with row := { j.row with miningAmount := r.settled.miningAmount } }, r.donation)

def processXpayment (blocktime : ℕ) (t : Tables) (xpay : Xpay) : Except LedgerError Tables :=
  if xpay.foreignAmount ≤ 0 then .error .foreignAmount
  else
    match t.xmatchSelect xpay.xmatchnum with
    | none => .error .select
    | some j =>
      let t := t.note j.row.xmatchnum (.payment j.row.status)
      -- the match could already be paid in full, so this is not an error
      if j.row.status ≠ .accepted ∧ j.row.status ≠ .partPaidOpen then .ok t
      else
        let j := { j with row := { j.row with amountPaid := UniFloat.add j.row.amountPaid xpay.foreignAmount 0 false } }
        if (0 : UniFloat) < j.toRecord.amountToPay env.conv then
          .ok (t.xmatchInsert { j with row := { j.row with status := .partPaidOpen } })
        else
          (t.settle env { j with row :=
            { j.row with status := .paid, finalTimestamp := blocktime, nextDeadline := 0 } }).map Prod.fst

/-- What `IndexTxs` does with the exchange data of a transaction. -/
def indexXtx (blocktime : ℕ) (t : Tables) (wire : List UInt8) : Except LedgerError Tables :=
  match (txFromWire env.blake2s wire {}).1 with
  | .error _ => .error .parse
  | .ok tx =>
    match extractXtx env.toEnv tx with
    | some (.xreq x) => .ok (t.addXreq blocktime x)
    | some (.xpay xpay) => t.processXpayment env blocktime xpay
    | none => .ok t

/-- The match that `Xmatch::Init` makes of two requests with the amount and the rate of their match. -/
def xmatchInit (t : Tables) (matchtime : ℕ) (buyer seller : Xreq) : Except LedgerError JoinedMatch :=
  let deadline := matchtime + seller.paymentTime
  match Exchange.xmatchInit buyer seller with
  | .error _ => .error .init
  | .ok () =>
    -- the row of a cross-chain sell request decides on the validity of blocks, and is not changed
    if (matchingRow seller).deleteTime < deadline ∧ seller.foreignAddress ≠ "" then .error .init
    else .ok
      { row :=
          { xmatchnum := t.nextXmatchnum
            buyXreqnum := buyer.xreqnum
            sellXreqnum := seller.xreqnum
            type := buyer.type
            status := .accepted
            nextDeadline := deadline
            matchTimestamp := matchtime
            acceptTimestamp := matchtime
            finalTimestamp := 0
            baseAmount := buyer.bestAmount
            rate := buyer.bestRate
            amountPaid := 0
            miningAmount := 0
            acceptTime := max buyer.acceptTimeRequired seller.acceptTimeRequired
            matchPledge := buyer.pledge }
        buy := buyer
        sell := seller
        buying := { matchingRow buyer with deleteTime := max (matchingRow buyer).deleteTime deadline }
        selling := { matchingRow seller with deleteTime := max (matchingRow seller).deleteTime deadline } }

/-- What `MakeMatchesPersistent` does with a pending match in these tables. -/
def makeMatch (matchtime : ℕ) (t : Tables) (pair : Xreq × Xreq) : Except LedgerError Tables :=
  match t.xmatchInit matchtime pair.1 pair.2 with
  | .error e => .error e
  | .ok j =>
    match setMiningAmount env.mining t.saved j.toRecord with
    | .error e => .error (.settle e)
    | .ok (m, saved) =>
      .ok ({ t with nextXmatchnum := t.nextXmatchnum + 1, saved := saved }.xmatchInsert
        { j with row := { j.row with miningAmount := m.miningAmount } })

/-- One turn of the loop of `ExpireMatches`. -/
def expireMatch (blocktime : ℕ) (t : Tables) (row : MatchRow) : Except LedgerError Tables :=
  match t.join row with
  | none => .error .select
  | some j =>
    if j.row.status ≠ .accepted ∧ j.row.status ≠ .partPaidOpen then .error .status
    else do
      let status : XmatchStatus := if j.row.status = .accepted then .unpaidExpired else .partPaidExpired
      let (t, donation) ← t.settle env { j with row :=
        { j.row with status := status, finalTimestamp := blocktime, nextDeadline := 0 } }
      if donation ≠ 0 then .error .donation else .ok t

/-- `ExpireMatches`, for at most some turns. -/
def expireMatches (blocktime : ℕ) : ℕ → Tables → Except LedgerError Tables
  | n, t =>
    match t.nextDeadlineRow blocktime, n with
    | none, _ => .ok t
    | some _, 0 => .error .endless
    | some row, n + 1 => do
      let t ← t.expireMatch env blocktime row
      expireMatches blocktime n t

def pruneMatchingReqs (t : Tables) (blocktime : ℕ) : Tables :=
  { t with matching := t.matching.filter fun row => blocktime ≤ row.deleteTime }

/-- What `SetNewlyIndelibleBlock` does with these tables, with the requests that matching has paired. -/
def indexBlock (blocktime : ℕ) (txs : List (List UInt8)) (matchtime : ℕ) (pairs : List (Xreq × Xreq)) (t : Tables) :
    Except LedgerError Tables := do
  let t ← txs.foldlM (indexXtx env blocktime) t
  let t ← pairs.foldlM (makeMatch env matchtime) t
  let t ← expireMatches env blocktime t.xmatches.rows.length t
  return t.pruneMatchingReqs blocktime

end

/-- A match as `XmatchSelect` shows it when no rows are required. -/
def xmatch (t : Tables) (row : MatchRow) : Xmatch where
  xmatchnum := row.xmatchnum
  status := row.status
  matchTimestamp := row.matchTimestamp
  baseAmount := row.baseAmount
  rate := row.rate
  amountPaid := row.amountPaid
  haveXreqs := (t.reqs.select row.buyXreqnum).isSome && (t.reqs.select row.sellXreqnum).isSome
  xsell := (t.reqs.select row.sellXreqnum).elim {} fun sell =>
    { quoteAsset := sell.quoteAsset
      foreignAddress := (t.matching.select row.sellXreqnum).elim "" (·.foreignAddress)
      confirmations := sell.confirmations
      paymentTime := sell.paymentTime }

/-- What validation sees of a row of `Exchange_Matching_Reqs`; `BlockchainRequiresUniqueForeignAddress` is always
true. -/
def matchingReq (row : MatchingRow) : MatchingReq where
  deleteTime := row.deleteTime
  quoteAsset := row.quoteAsset
  foreignAddress := row.foreignAddress
  foreignAddressUnique := true

/-- The tables as validation sees them. -/
def toDb (t : Tables) (db : PersistentDb) : PersistentDb :=
  { db with matches_ := t.xmatches.rows.map t.xmatch, matchingReqs := t.matching.rows.map matchingReq }

end Tables

section Lemmas
variable {t t' : Tables} {j : JoinedMatch} {row : MatchRow} {n d time : ℕ}

namespace Tables

@[simp] lemma note_xmatches (t : Tables) (n : ℕ) (e : MatchEvent) : (t.note n e).xmatches = t.xmatches := rfl
@[simp] lemma note_reqs (t : Tables) (n : ℕ) (e : MatchEvent) : (t.note n e).reqs = t.reqs := rfl
@[simp] lemma note_matching (t : Tables) (n : ℕ) (e : MatchEvent) : (t.note n e).matching = t.matching := rfl

lemma events_append {log' : List (ℕ × MatchEvent)} (h : t'.log = t.log ++ log') (n : ℕ) :
    t'.events n = t.events n ++ (log'.filter (·.1 = n)).map (·.2) := by
  rw [events, h, List.filter_append, List.map_append, events]

/-- The row of a request in `Exchange_Matching_Reqs` is kept until a time. -/
def KeepsUntil (t : Tables) (xreqnum time : ℕ) : Prop :=
  ∃ m, t.matching.select xreqnum = some m ∧ time ≤ m.deleteTime

/-- The time until which a match can be paid. -/
def deadline (t : Tables) (row : MatchRow) : ℕ :=
  row.matchTimestamp + (t.reqs.select row.sellXreqnum).elim 0 (·.paymentTime)

/-- What is there of requests and matches stays. -/
structure Extends (t t' : Tables) : Prop where
  reqs : ∀ n x, t.reqs.select n = some x → t'.reqs.select n = some x
  xmatches : ∀ n row, t.xmatches.select n = some row → ∃ row', t'.xmatches.select n = some row' ∧
    row'.sellXreqnum = row.sellXreqnum ∧ row'.matchTimestamp = row.matchTimestamp

@[refl] lemma Extends.refl (t : Tables) : Extends t t := ⟨fun _ _ h => h, fun _ row h => ⟨row, h, rfl, rfl⟩⟩

@[trans] lemma Extends.trans {t'' : Tables} (h : Extends t t') (h' : Extends t' t'') : Extends t t'' := by
  refine ⟨fun n x hx => h'.reqs n x (h.reqs n x hx), fun n row hrow => ?_⟩
  obtain ⟨row', hrow', hsell, htime⟩ := h.xmatches n row hrow
  obtain ⟨row'', hrow'', hsell', htime'⟩ := h'.xmatches n row' hrow'
  exact ⟨row'', hrow'', hsell'.trans hsell, htime'.trans htime⟩

/-- Delete times only grow, and no row is deleted. -/
def Retains (t t' : Tables) : Prop := ∀ n d, t.KeepsUntil n d → t'.KeepsUntil n d

lemma Retains.trans {t'' : Tables} (h : Retains t t') (h' : Retains t' t'') : Retains t t'' :=
  fun n d hkeeps => h' n d (h n d hkeeps)

lemma KeepsUntil.mono {d d' : ℕ} (h : t.KeepsUntil n d) (hle : d' ≤ d) : t.KeepsUntil n d' := by
  obtain ⟨m, hm, hd⟩ := h
  exact ⟨m, hm, hle.trans hd⟩

section Insert
variable (t) (x : Xreq) (m : MatchingRow)

lemma xmatchreqInsert_reqs_mem {y : Xreq} (h : y ∈ (t.xmatchreqInsert x m).reqs) : y ∈ t.reqs ∨ y = x := by
  rcases KeyedTable.mem_upsert.1 h with ⟨hy, -⟩ | rfl
  · exact Or.inl hy
  · cases hx : t.reqs.select x.xreqnum with
    | none => exact Or.inr rfl
    | some old => exact Or.inl (KeyedTable.mem_of_select hx)

lemma xmatchreqInsert_select (n : ℕ) : (t.xmatchreqInsert x m).reqs.select n =
    if n = x.xreqnum then some ((t.reqs.select x.xreqnum).getD x) else t.reqs.select n := by
  refine KeyedTable.select_upsert.trans ?_
  cases t.reqs.select x.xreqnum <;> rfl

lemma extends_xmatchreqInsert : Extends t (t.xmatchreqInsert x m) := by
  refine ⟨fun n y hy => ?_, fun n row hrow => ⟨row, hrow, rfl, rfl⟩⟩
  rw [xmatchreqInsert_select]
  split_ifs with hn
  · rw [← hn, hy]
    rfl
  · exact hy

lemma retains_xmatchreqInsert : Retains t (t.xmatchreqInsert x m) := by
  rintro n d ⟨old, hold, hd⟩
  have hselect : (t.xmatchreqInsert x m).matching.select n = _ := KeyedTable.select_upsert
  split_ifs at hselect with hn
  · rw [← hn, hold] at hselect
    exact ⟨_, hselect, hd.trans (le_max_left _ _)⟩
  · exact ⟨old, hselect.trans hold, hd⟩

lemma xmatchreqInsert_keeps : (t.xmatchreqInsert x m).KeepsUntil m.xreqnum m.deleteTime := by
  have hselect : (t.xmatchreqInsert x m).matching.select m.xreqnum = _ := KeyedTable.select_upsert
  rw [if_pos rfl] at hselect
  refine ⟨_, hselect, ?_⟩
  cases t.matching.select m.xreqnum with
  | none => exact le_refl _
  | some old => exact le_max_right _ _

end Insert

/-- The columns of a match that an update leaves as they are. -/
structure SameColumns (old new : MatchRow) : Prop where
  xmatchnum : old.xmatchnum = new.xmatchnum
  buyXreqnum : old.buyXreqnum = new.buyXreqnum
  sellXreqnum : old.sellXreqnum = new.sellXreqnum
  type : old.type = new.type
  matchTimestamp : old.matchTimestamp = new.matchTimestamp
  acceptTime : old.acceptTime = new.acceptTime
  matchPledge : old.matchPledge = new.matchPledge

lemma xmatchInsert_log (t : Tables) (j : JoinedMatch) :
    (t.xmatchInsert j).log = t.log ++ [(j.row.xmatchnum, .insert j.row.status)] := rfl

@[simp] lemma xmatchInsert_nextXmatchnum (t : Tables) (j : JoinedMatch) :
    (t.xmatchInsert j).nextXmatchnum = t.nextXmatchnum := rfl

/-- The row of a match that agrees with the one that is there replaces it. -/
lemma xmatchInsert_select (h : ∀ old, t.xmatches.select j.row.xmatchnum = some old → SameColumns old j.row) (n : ℕ) :
    (t.xmatchInsert j).xmatches.select n = if n = j.row.xmatchnum then some j.row else t.xmatches.select n := by
  have hselect : (t.xmatchInsert j).xmatches.select n = _ := KeyedTable.select_upsert
  rw [hselect]
  split_ifs with hn
  · cases hold : t.xmatches.select j.row.xmatchnum with
    | none =>
      have hnote : (t.note j.row.xmatchnum (.insert j.row.status)).xmatches.select j.row.xmatchnum = none := hold
      rw [hnote]
      rfl
    | some old =>
      have hnote : (t.note j.row.xmatchnum (.insert j.row.status)).xmatches.select j.row.xmatchnum = some old := hold
      obtain ⟨hnum, hbuy, hsell, htype, htime, haccept, hpledge⟩ := h old hold
      rw [hnote, Option.elim_some, updateMatch, hnum, hbuy, hsell, htype, htime, haccept, hpledge]
  · rfl

lemma xmatchInsert_mem (h : ∀ old, t.xmatches.select j.row.xmatchnum = some old → SameColumns old j.row) :
    row ∈ (t.xmatchInsert j).xmatches ↔ (row ∈ t.xmatches ∧ row.xmatchnum ≠ j.row.xmatchnum) ∨ row = j.row := by
  have hselect := xmatchInsert_select h row.xmatchnum
  constructor
  · intro hrow
    rw [KeyedTable.select_key hrow] at hselect
    split_ifs at hselect with hn
    · exact Or.inr (Option.some.inj hselect)
    · exact Or.inl ⟨KeyedTable.mem_of_select hselect.symm, hn⟩
  · rintro (⟨hrow, hn⟩ | rfl)
    · rw [if_neg hn, KeyedTable.select_key hrow] at hselect
      exact KeyedTable.mem_of_select hselect
    · rw [if_pos rfl] at hselect
      exact KeyedTable.mem_of_select hselect

lemma extends_xmatchInsert (h : ∀ old, t.xmatches.select j.row.xmatchnum = some old → SameColumns old j.row) :
    Extends t (t.xmatchInsert j) := by
  refine ⟨fun n x hx => ?_, fun n row hrow => ?_⟩
  · exact (extends_xmatchreqInsert _ j.sell j.selling).reqs n x ((extends_xmatchreqInsert _ j.buy j.buying).reqs n x hx)
  · rw [xmatchInsert_select h]
    split_ifs with hn
    · have hsame := h row (hn ▸ hrow)
      exact ⟨j.row, rfl, hsame.sellXreqnum.symm, hsame.matchTimestamp.symm⟩
    · exact ⟨row, hrow, rfl, rfl⟩

lemma retains_xmatchInsert (t : Tables) (j : JoinedMatch) : Retains t (t.xmatchInsert j) :=
  Retains.trans (fun n d h => retains_xmatchreqInsert _ j.buy j.buying n d h) (retains_xmatchreqInsert _ j.sell j.selling)

lemma xmatchInsert_reqs_mem {x : Xreq} (h : x ∈ (t.xmatchInsert j).reqs) :
    x ∈ t.reqs ∨ x = j.buy ∨ x = j.sell := by
  rcases xmatchreqInsert_reqs_mem _ _ _ h with h | rfl
  · exact (xmatchreqInsert_reqs_mem _ _ _ h).imp_right Or.inl
  · exact Or.inr (Or.inr rfl)

end Tables
end Lemmas

end CredaCash.Settlement
