import CredaCash.Chain.BlockTime
import CredaCash.Exchange.AddedXreqs
import CredaCash.Text.BestTable

/-! Amount safety of the exchange: over every sequence of events no request is matched for more than is open of it,
and every match that was set as pending is saved once. -/

namespace CredaCash.Exchange
open Checks KeyedTable Wire Chain

section Amounts
variable {t t' : XreqTable} {found : List PendingMatch} {epoch nextXreqnum : ℕ} {saved : Saved}

/-- What the pending matches take of a buyer, by the columns of their sellers. -/
def pendingAmount (t : XreqTable) (buyer : ℕ) : ℕ :=
  ((t.rows.filter fun r => 0 < r.pendingMatchOrder ∧ r.bestOtherSeqnum = buyer).map (·.pendingMatchAmount)).sum

/-- The amount of a match on one buyer, which is zero for the matches of others. -/
theorem sum_filter_eq {α : Type} (l : List α) (p : α → Bool) (g : α → ℕ) :
    ((l.filter p).map g).sum = (l.map fun a => if p a then g a else 0).sum := by
  induction l with
  | nil => rfl
  | cons a l ih => cases hp : p a <;> simp [hp, ih]

theorem pendingAmount_eq (h : RoundInv t found epoch) (buyer : ℕ) : pendingAmount t buyer = claimed found buyer := by
  have hrows : (t.rows.filter fun r => decide (0 < r.pendingMatchOrder ∧ r.bestOtherSeqnum = buyer)) =
      (t.rows.filter isPending).filter (·.bestOtherSeqnum = buyer) := by
    rw [List.filter_filter]
    refine List.filter_congr fun r _ => ?_
    simp [isPending, and_comm]
  rw [pendingAmount, claimed, hrows, sum_filter_eq (t.rows.filter isPending), sum_filter_eq found]
  refine h.lists.sum_eq fun f hf r hr hkey => ?_
  obtain ⟨_, r', _, hsel, hpair⟩ := h.pair f hf
  rw [← hkey, select_key hr] at hsel
  cases hsel
  simp only [hpair.bestOtherSeqnum, hpair.amount]

/-- Steps that keep what is open of the rows keep what is saved. -/
theorem SavedInv.of_sameOpen (h : SavedInv t saved nextXreqnum) (hrel : Rel SameOpen t t') :
    SavedInv t' saved nextXreqnum where
  filled_add r hr hne := by
    obtain ⟨x, hx, -, hsame⟩ := hrel.mem_right r hr
    rw [xreqnum_of_statics hsame.statics] at hne ⊢
    rw [hsame.openAmount, maxAmount_of_statics hsame.statics]
    exact h.filled_add x hx hne
  filled_le := h.filled_le
  maxAmount r hr hne q hq heq := by
    obtain ⟨x, hx, -, hsame⟩ := hrel.mem_right r hr
    rw [xreqnum_of_statics hsame.statics] at hne heq
    rw [maxAmount_of_statics hsame.statics]
    exact h.maxAmount x hx hne q hq heq
  lt := h.lt
  known := h.known

end Amounts

/-- What an event does to the matches: it adds to those that are pending, or it saves them all. -/
inductive MatchStep (s s' : ExchangeState) : Prop
  | found (found : s.loop.found <+: s'.loop.found) (xmatches : s'.saved.xmatches = s.saved.xmatches)
  | saved (found : s'.loop.found = []) (new : List XmatchRow)
      (persists : List.Forall₂ (Persists s.matchingBlockTime) s.loop.found new)
      (xmatches : s'.saved.xmatches = s.saved.xmatches ++ new)

section Steps
variable {env : Env} {outputEnv : ℕ → OutputEnv} {s s' : ExchangeState} {e : ExchangeEvent}

theorem SameMatching.matchStep (h : SameMatching s s') : MatchStep s s' :=
  .found (h.1 ▸ List.prefix_rfl) h.2

theorem exchangeInit_inv (blockTime : ℕ) : ExchangeInv (exchangeInit blockTime) where
  table := .empty
  round := .nil (fun r hr => absurd hr (not_mem_empty r)) fun r hr => absurd hr (not_mem_empty r)
  saved := by
    constructor
    · exact fun r hr => absurd hr (not_mem_empty r)
    · exact fun q hq => absurd hq List.not_mem_nil
    · exact fun r hr => absurd hr (not_mem_empty r)
    · exact fun q hq => absurd hq List.not_mem_nil
    · exact fun m hm => absurd hm List.not_mem_nil
  index := ⟨Nat.one_pos, fun f hf => absurd hf List.not_mem_nil⟩
  first _ := ⟨rfl, rfl⟩
  numbers := ⟨Nat.one_pos, Nat.one_pos⟩

/-- The state of a round at the start of a pass. -/
theorem ExchangeInv.roundState (h : ExchangeInv s) : RoundState s.loop.toMatchList s.nextSeqnum s.nextXreqnum
    (s.matchingBlockTime / matchingSecsPerEpoch) s.loop.toMatchList :=
  ⟨.refl SameOpen.refl _, List.prefix_rfl, h.table, h.round, h.index⟩

/-- The matching thread keeps the invariant. -/
theorem ExchangeInv.of_roundState (h : ExchangeInv s) (loop : MatchLoop)
    (hround : RoundState s.loop.toMatchList s.nextSeqnum s.nextXreqnum (s.matchingBlockTime / matchingSecsPerEpoch)
      loop.toMatchList) (hfirst : loop.firstPass = false) (matching : Bool) :
    ExchangeInv { s with loop := loop, matching := matching } where
  table := hround.table
  round := hround.round
  saved := h.saved.of_sameOpen hround.rel
  index := hround.index
  first hf := absurd (hf.symm.trans hfirst) Bool.noConfusion
  numbers := h.numbers

theorem ExchangeInv.passStep (h : ExchangeInv s) (hstep : passStep env s = some s') : ExchangeInv s' ∧ MatchStep s s' := by
  unfold Exchange.passStep at hstep
  split_ifs at hstep with hguard
  split at hstep
  next => cases hstep
  next loop hpass =>
    cases hstep
    obtain ⟨hround, hfirst⟩ := h.roundState.matchPass (fun hf => (h.first hf).1) hpass
    exact ⟨h.of_roundState loop hround hfirst s.matching, .found hround.grows rfl⟩

theorem ExchangeInv.endRoundStep (h : ExchangeInv s) (hstep : endRoundStep env s = some s') :
    ExchangeInv s' ∧ MatchStep s s' := by
  unfold Exchange.endRoundStep at hstep
  split_ifs at hstep with hguard
  split at hstep
  next => cases hstep
  next st hend =>
    cases hstep
    have hround := h.roundState.matchEnd hend
    have hfirst : s.loop.firstPass = false := by
      by_contra hf
      rw [(h.first (Bool.eq_true_of_not_eq_false hf)).2] at hguard
      cases hguard.2
    exact ⟨h.of_roundState { s.loop with toMatchList := st } hround hfirst false, .found hround.grows rfl⟩

theorem ExchangeInv.synchronizeMatching (h : ExchangeInv s)
    (hstep : synchronizeMatching env outputEnv s = some s') : ExchangeInv s' ∧ MatchStep s s' := by
  unfold Exchange.synchronizeMatching at hstep
  dsimp only at hstep
  split_ifs at hstep with hepoch hmatching
  · cases hstep
    exact ⟨h, .found List.prefix_rfl rfl⟩
  · split at hstep
    next => cases hstep
    next table saved hstart =>
      cases hstep
      have hpersisted := (startEpoch_ends s.matchingBlockTime _ s.newXreqnum h.round h.table h.saved).2 _ hstart
      obtain ⟨new, hpersists, hxmatches⟩ := hpersisted.xmatches
      refine ⟨?_, .saved rfl new hpersists hxmatches⟩
      exact {
        table := hpersisted.table
        round := .nil (fun r hr => hpersisted.round.order_of_nil hr) fun r hr => by
          have hle := hpersisted.round.claimed_le r hr
          exact (Nat.le_add_left _ _).trans hle
        saved := hpersisted.saved
        index := ⟨Nat.one_pos, fun f hf => absurd hf List.not_mem_nil⟩
        first := fun _ => ⟨rfl, rfl⟩
        numbers := h.numbers }

/-- Every event keeps the invariant. -/
theorem ExchangeInv.step (h : ExchangeInv s) (hstep : exchangeStep env outputEnv s e = some s') :
    ExchangeInv s' ∧ MatchStep s s' := by
  cases e with
  | addPending tx objid =>
    obtain ⟨x, hx, rfl⟩ := Option.map_eq_some_iff.1 hstep
    obtain ⟨hinv, hsame⟩ := h.addPendingRequest (validXreq_checked hx) objid
    exact ⟨hinv, hsame.matchStep⟩
  | startBlock timestamp =>
    cases hstep
    exact ⟨⟨h.table, h.round, h.saved, h.index, h.first, h.numbers⟩, .found List.prefix_rfl rfl⟩
  | addXreq tx objid =>
    obtain ⟨x, hx, hadd⟩ := Option.bind_eq_some_iff.1 hstep
    obtain ⟨hinv, hsame⟩ := h.addXreq (validXreq_checked hx) hadd
    exact ⟨hinv, hsame.matchStep⟩
  | synchronize => exact h.synchronizeMatching hstep
  | pass => exact h.passStep hstep
  | endRound => exact h.endRoundStep hstep

end Steps

/-- The safety of the amounts of an exchange. -/
structure AmountSafe (env : Env) (outputEnv : ℕ → OutputEnv) (s : ExchangeState) : Prop where
  amounts : ∀ r ∈ s.loop.table, r.matchingAmount ≤ r.openAmount ∧ r.openAmount ≤ r.maxAmount
  pending_le : ∀ b ∈ s.loop.table, pendingAmount s.loop.table b.seqnum ≤ b.openAmount
  /-- The pending matches are those that were found, each in the row of its seller, and one for each seller. -/
  sellers : (s.loop.found.map PendingMatch.seller).Nodup
  pending : ∀ r ∈ s.loop.table, 0 < r.pendingMatchOrder → ∃ f ∈ s.loop.found, f.seller = r.seqnum
  stored : ∀ f ∈ s.loop.found, ∃ b r, s.loop.table.select f.buyer = some b ∧ s.loop.table.select f.seller = some r ∧
    0 < r.pendingMatchOrder ∧ PendingPair (s.matchingBlockTime / matchingSecsPerEpoch) f b r
  /-- A block of a new epoch passes every assertion, unless an output of a closed request cannot be made, and saves
  each pending match once. -/
  persistent : ∀ blockTime newXreqnum, Ends (· = .outputs)
    (fun st => (∀ r ∈ st.1, r.pendingMatchOrder = 0) ∧ ∃ new,
      List.Forall₂ (Persists s.matchingBlockTime) s.loop.found new ∧ st.2.xmatches = s.saved.xmatches ++ new)
    (startEpoch env.conv outputEnv s.matchingBlockTime blockTime newXreqnum (s.loop.table, s.saved))
  step : ∀ e s', exchangeStep env outputEnv s e = some s' → MatchStep s s'
  filled : ∀ q ∈ s.saved.requests, filled s.saved q.req.xreqnum ≤ q.req.maxAmount
  known : ∀ m ∈ s.saved.xmatches, (∃ q ∈ s.saved.requests, q.req.xreqnum = m.buyXreqnum) ∧
    ∃ q ∈ s.saved.requests, q.req.xreqnum = m.sellXreqnum

theorem ExchangeInv.amountSafe {s : ExchangeState} (h : ExchangeInv s) (env : Env) (outputEnv : ℕ → OutputEnv) :
    AmountSafe env outputEnv s where
  amounts r hr := ⟨(Nat.le_add_left _ _).trans (h.round.claimed_le r hr), (h.table.openAmount r hr).2⟩
  pending_le b hb := by
    rw [pendingAmount_eq h.round]
    exact (Nat.le_add_right _ _).trans (h.round.claimed_le b hb)
  sellers := h.round.lists.nodup
  pending r hr hp := h.round.lists.named r hr (decide_eq_true hp)
  stored f hf := by
    obtain ⟨b, r, hb, hr, hpair⟩ := h.round.pair f hf
    exact ⟨b, r, hb, hr, hpair.order ▸ (h.round.terms f hf).2.2.1, hpair⟩
  persistent blockTime newXreqnum := by
    refine (startEpoch_ends s.matchingBlockTime blockTime newXreqnum h.round h.table h.saved).mono fun st hpersisted => ?_
    exact ⟨fun r hr => hpersisted.round.order_of_nil hr, hpersisted.xmatches⟩
  step e s' hstep := (h.step hstep).2
  filled := h.saved.filled_le
  known := h.saved.known

/-- In every state that the exchange of a node comes to, by whatever events, its amounts are safe. -/
theorem exchangeRun_amountSafe {env : Env} {outputEnv : ℕ → OutputEnv} {blockTime : ℕ} {events : List ExchangeEvent}
    {s : ExchangeState} (h : exchangeRun env outputEnv (exchangeInit blockTime) events = some s) :
    AmountSafe env outputEnv s :=
  (exchangeRun_induct (fun _ _ _ hs hstep => (hs.step hstep).1) (exchangeInit_inv blockTime) h).amountSafe env outputEnv

/-- The tables of `cc_alpha_decode`. -/
def tableCodec : Codec where
  alphaDecode table data nchars :=
    match Text.alphaDecode (Text.bestTables.getD table ([], [])).2 data nchars with
    | .ok outs => .ok (String.ofList (outs.map fun b => Char.ofNat b.toNat))
    | .error _ => .error (.exception "")
  mapExpDecode := id

def tradeEnv : Env := { (quietEnv 0).toEnv with codec := tableCodec }

/-- A request for bitcoin cash, of one to `coins` coins. -/
def requestTx (type : XtxType) (coins rate : UInt8) (foreignAddress : List UInt8) : TxPay where
  wireTag := 0
  tagType := .xcx type
  txType := .xcx type
  appendData := [255, 255, 255, 127] ++ 1 :: List.replicate 31 0 ++ [27, 0, 0, 0, 0] ++
    [(coins - 1) * 32 + 27, 0, 0, 0, 0] ++ [0, 0, rate, 128] ++ [0, 0, 0, 128, 2, 0] ++ [0, 0, 0, 0, 60, 16, 0] ++
    foreignAddress
  appendDataLength := 63 + foreignAddress.length

/-- A buyer of three coins for 2 each and a seller of two coins for 1 each meet, and their match is saved. -/
def tradeEvents : List ExchangeEvent := [
  .pass, .endRound, .startBlock 1000, .addXreq (requestTx .simpleBuy 3 32 []) 2,
  .addXreq (requestTx .simpleSell 2 0 (27 :: 58 :: (List.replicate 5 [123, 222, 247, 189, 239]).flatten ++ [123, 225])) 4,
  .startBlock 2000, .synchronize, .pass, .pass, .endRound, .startBlock 3000, .synchronize]

def roomyOutputs : ℕ → OutputEnv := fun _ => ⟨23, 23, fun _ => false, fun _ => false⟩

theorem tradeEvents_amountSafe : ∃ s, exchangeRun tradeEnv roomyOutputs (exchangeInit 0) tradeEvents = some s ∧
    s.saved.xmatches.map (·.baseAmount) = [2 * 10^27] ∧ AmountSafe tradeEnv roomyOutputs s := by
  have hrun : (exchangeRun tradeEnv roomyOutputs (exchangeInit 0) tradeEvents).map
      (fun s => s.saved.xmatches.map (·.baseAmount)) = some [2 * 10^27] := by decide +kernel
  obtain ⟨s, hs, hmatches⟩ := Option.map_eq_some_iff.1 hrun
  exact ⟨s, hs, hmatches, exchangeRun_amountSafe hs⟩

end CredaCash.Exchange
