import CredaCash.Chain.TxValidate
import CredaCash.Exchange.Synchronize

/-! The exchange of a node over time: requests come in from transactions and from indelible blocks, the matching
thread makes its passes, and a block of a new epoch takes the matches over. -/

namespace CredaCash.Exchange
open Wire Chain

/-- The exchange of a node. -/
structure ExchangeState where
  /-- The table `Xreqs`, and the variables of the matching thread. -/
  loop : MatchLoop
  /-- `MATCHING_STATE_START` -/
  matching : Bool := true
  saved : Saved := {}
  nextSeqnum : ℕ := 1
  nextXreqnum : ℕ := 1
  /-- The time of the block that becomes indelible, and the next request number at its start. -/
  timestamp : ℕ
  newXreqnum : ℕ := 1
  lastMatchingEpoch : ℕ
  matchingBlockTime : ℕ
  matchingMaxXreqnum : ℕ := 0

/-- The variables of `MatchReqs` at the start of a round. -/
def startRound (t : XreqTable) (passnum : ℕ) : MatchLoop :=
  { table := t, nextMatchIndex := 1, found := [], passnum := passnum }

/-- `ProcessXreqs::Init` without requests. -/
def exchangeInit (blockTime : ℕ) : ExchangeState where
  loop := startRound KeyedTable.empty 1
  timestamp := blockTime
  lastMatchingEpoch := blockTime / matchingSecsPerEpoch
  matchingBlockTime := blockTime / matchingSecsPerEpoch * matchingSecsPerEpoch

/-- What happens to the exchange. -/
inductive ExchangeEvent
  /-- A transaction is validated outside of a block. -/
  | addPending (tx : TxPay) (objid : ℕ)
  /-- A block becomes indelible. -/
  | startBlock (timestamp : ℕ)
  /-- `IndexTxs` adds a request of the block. -/
  | addXreq (tx : TxPay) (objid : ℕ)
  /-- `SynchronizeMatching`, after all transactions of the block. -/
  | synchronize
  /-- The matching thread makes a pass. -/
  | pass
  /-- The matching thread ends its round. -/
  | endRound

variable (env : Env) (outputEnv : ℕ → OutputEnv)

/-- The request of a transaction that passes validation. -/
def validXreq (tx : TxPay) : Option Xreq :=
  match extractXtx env tx with
  | some (.xreq x) => if checkXreqValues env tx x = .ok () then some x else none
  | _ => none

/-- `AddRequest`, into the table of the exchange. -/
def ExchangeState.addRow (s : ExchangeState) (x : Xreq) : ExchangeState × Option Xreq :=
  let (table, next, row) := xreqsInsert s.loop.table s.nextSeqnum (addRequest env.conv x)
  ({ s with loop := { s.loop with table := table }, nextSeqnum := next }, row)

/-- The next sequence number, and the counter behind it. -/
def ExchangeState.drawSeqnum (s : ExchangeState) : ExchangeState := { s with nextSeqnum := s.nextSeqnum + 1 }

/-- `AddPendingRequest`, with the sequence number of the object. -/
def addPendingRequest (s : ExchangeState) (x : Xreq) (objid : ℕ) : ExchangeState :=
  let x := { x with seqnum := s.nextSeqnum, objid := objid }
  let s := s.drawSeqnum
  if x.type ≠ .miningTrade then (s.addRow env x).1
  else
    let sell := { x.convertTradeToSell with seqnum := s.nextSeqnum }
    let buy := { x.convertTradeToBuy with linkedSeqnum := s.nextSeqnum }
    match s.drawSeqnum.addRow env buy with
    | (s, none) => s
    | (s, some buy) => (s.addRow env { sell with linkedSeqnum := buy.seqnum }).1

/-- `AddOneXreq`; none when the request cannot be inserted, which stops the node. -/
def addOneXreq (s : ExchangeState) (x : Xreq) : Option (ExchangeState × Xreq) :=
  match s.addRow env x with
  | (_, none) => none
  | (s, some x) =>
    some ({ s with saved := { s.saved with
      requests := xmatchreqInsert s.saved.requests x x.openAmount (disposition x) } }, x)

/-- The next request number, and the counter behind it. -/
def ExchangeState.drawXreqnum (s : ExchangeState) : ExchangeState := { s with nextXreqnum := s.nextXreqnum + 1 }

/-- `AddXreq`: a mining trade becomes a buy and a sell request with links to each other. -/
def addXreq (s : ExchangeState) (x : Xreq) (objid : ℕ) : Option ExchangeState :=
  let x := { x with xreqnum := s.nextXreqnum, blocktime := s.timestamp, objid := objid }
  let s := s.drawXreqnum
  if x.type ≠ .miningTrade then (addOneXreq env s x).map Prod.fst
  else
    let sell := { x.convertTradeToSell with seqnum := s.nextSeqnum, xreqnum := s.nextXreqnum }
    let buy := { x.convertTradeToBuy with linkedSeqnum := s.nextSeqnum }
    (addOneXreq env s.drawSeqnum.drawXreqnum buy).bind fun (s, buy) =>
      (addOneXreq env s { sell with linkedSeqnum := buy.seqnum }).map Prod.fst

/-- `SynchronizeMatching`; nothing happens within an epoch, and a new one waits for the matching thread. -/
def synchronizeMatching (s : ExchangeState) : Option ExchangeState :=
  let epoch := s.timestamp / matchingSecsPerEpoch
  if epoch = s.lastMatchingEpoch then some s
  else if s.matching then none
  else
    let blockTime := epoch * matchingSecsPerEpoch
    match startEpoch env.conv outputEnv s.matchingBlockTime blockTime s.newXreqnum (s.loop.table, s.saved) with
    | .error _ => none
    | .ok (table, saved) =>
      some { s with
        loop := startRound table s.loop.passnum
        matching := true
        saved := saved
        lastMatchingEpoch := epoch
        matchingBlockTime := blockTime
        matchingMaxXreqnum := s.nextXreqnum - 1 }

/-- A pass of the matching thread, where the loop of `MatchReqs` goes on. -/
def passStep (s : ExchangeState) : Option ExchangeState :=
  if s.matching ∧ s.loop.continues = true then
    match matchPass env.conv s.matchingBlockTime s.matchingMaxXreqnum s.loop with
    | .error _ => none
    | .ok loop => some { s with loop := loop }
  else none

/-- The end of a round, where the loop of `MatchReqs` is done. -/
def endRoundStep (s : ExchangeState) : Option ExchangeState :=
  if s.matching ∧ s.loop.continues = false then
    match matchEnd env.conv s.matchingBlockTime s.matchingMaxXreqnum s.loop.toMatchList with
    | .error _ => none
    | .ok st => some { s with loop := { s.loop with toMatchList := st }, matching := false }
  else none

/-- One event; none where it is not possible, or where it stops the node. -/
def exchangeStep (s : ExchangeState) : ExchangeEvent → Option ExchangeState
  | .addPending tx objid => (validXreq env tx).map fun x => addPendingRequest env s x objid
  | .startBlock timestamp => some { s with timestamp := timestamp, newXreqnum := s.nextXreqnum }
  | .addXreq tx objid => (validXreq env tx).bind fun x => addXreq env s x objid
  | .synchronize => synchronizeMatching env outputEnv s
  | .pass => passStep env s
  | .endRound => endRoundStep env s

/-- A sequence of events. -/
def exchangeRun (s : ExchangeState) : List ExchangeEvent → Option ExchangeState
  | [] => some s
  | e :: events => (exchangeStep env outputEnv s e).bind fun s => exchangeRun s events

section Induction
variable {env} {outputEnv} {P : ExchangeState → Prop}

/-- What every event keeps holds at the end of every run. -/
theorem exchangeRun_induct (hstep : ∀ s e s', P s → exchangeStep env outputEnv s e = some s' → P s')
    {events : List ExchangeEvent} {s s' : ExchangeState} (hs : P s)
    (h : exchangeRun env outputEnv s events = some s') : P s' := by
  induction events generalizing s with
  | nil => exact Option.some_inj.1 h ▸ hs
  | cons e events ih =>
    obtain ⟨s₁, he, hrun⟩ := Option.bind_eq_some_iff.1 h
    exact ih (hstep s e s₁ hs he) hrun

end Induction

end CredaCash.Exchange
