import CredaCash.Exchange.PendingMatches
import CredaCash.Exchange.Prune

/-! Pending matches are made persistent: each of them once, against the buyer that it was found with, and without a
failing assertion. -/

namespace CredaCash.Exchange
open Checks KeyedTable UniFloat Chain

section Remove
variable {t t' : XreqTable} {found rest : List PendingMatch} {nextSeqnum nextXreqnum epoch : ℕ} {f g : PendingMatch}
  {b c r : Xreq}

/-- The two rows of a match. -/
structure MatchRows (t : XreqTable) (epoch : ℕ) (f : PendingMatch) (b r : Xreq) : Prop where
  buyer : t.select f.buyer = some b
  seller : t.select f.seller = some r
  pair : PendingPair epoch f b r

/-- No row is that of a buyer and that of a seller. -/
theorem TableInv.buyer_ne_seller (h : TableInv t nextSeqnum nextXreqnum) {b' r' : Xreq} (hf : MatchRows t epoch f b r)
    (hg : MatchRows t epoch g b' r') : f.buyer ≠ g.seller := by
  intro heq
  have hrow := hf.buyer
  rw [heq, hg.seller] at hrow
  cases hrow
  have hs := (h.valid b (mem_of_select hf.buyer)).not_isSeller hf.pair.isBuyer
  rw [hg.pair.isSeller] at hs
  cases hs

/-- A buyer is not pending. -/
theorem RoundInv.order_of_buyer (h : RoundInv t found epoch) (htable : TableInv t nextSeqnum nextXreqnum)
    (hb : b ∈ t) (hbuyer : b.isBuyer = true) : b.pendingMatchOrder = 0 := by
  by_contra horder
  have hs := (htable.valid b hb).not_isSeller hbuyer
  rw [(h.of_pending hb horder).1] at hs
  cases hs

/-- What the first of the pending matches and the others take of a buyer. -/
theorem claimed_cons (f : PendingMatch) (rest : List PendingMatch) (buyer : ℕ) :
    claimed (f :: rest) buyer = (if f.buyer = buyer then f.amount else 0) + claimed rest buyer := by
  unfold claimed
  by_cases hf : f.buyer = buyer <;> simp [hf]

theorem amount_le_claimed (hg : g ∈ found) : g.amount ≤ claimed found g.buyer :=
  List.le_sum_of_mem (List.mem_map_of_mem (List.mem_filter.2 ⟨hg, decide_eq_true rfl⟩))

/-- A row that is left is the updated buyer or one of the other rows. -/
lemma row_of_remove (hseller : t'.select f.seller = none)
    (hbuyer : t'.select f.buyer = if b.openAmount = f.amount then none else some c)
    (hother : ∀ k, k ≠ f.seller → k ≠ f.buyer → t'.select k = t.select k) {y : Xreq} (hy : y ∈ t') :
    y.seqnum ≠ f.seller ∧ (y.seqnum = f.buyer ∧ y = c ∨ y.seqnum ≠ f.buyer ∧ y ∈ t) := by
  have hself := select_key hy
  have hks : y.seqnum ≠ f.seller := by
    intro hk
    rw [hk, hseller] at hself
    cases hself
  refine ⟨hks, ?_⟩
  by_cases hk : y.seqnum = f.buyer
  · rw [hk, hbuyer] at hself
    split_ifs at hself
    exact .inl ⟨hk, (Option.some.inj hself).symm⟩
  · rw [hother _ hks hk] at hself
    exact .inr ⟨hk, mem_of_select hself⟩

/-- The seller of a later match keeps its row. -/
lemma RoundInv.rest_rows (h : RoundInv t (f :: rest) epoch) (htable : TableInv t nextSeqnum nextXreqnum)
    (hrows : MatchRows t epoch f b r) (hother : ∀ k, k ≠ f.seller → k ≠ f.buyer → t'.select k = t.select k)
    {g : PendingMatch} (hg : g ∈ rest) : ∃ b₁ r₁, MatchRows t epoch g b₁ r₁ ∧ t'.select g.seller = some r₁ := by
  obtain ⟨b₁, r₁, hb₁, hr₁, hpair⟩ := h.pair g (List.mem_cons_of_mem _ hg)
  have hrows₁ : MatchRows t epoch g b₁ r₁ := ⟨hb₁, hr₁, hpair⟩
  have hnodup := List.nodup_cons.1 h.lists.nodup
  refine ⟨b₁, r₁, hrows₁, ?_⟩
  rw [hother g.seller (fun heq => hnodup.1 (heq ▸ List.mem_map_of_mem hg)) (htable.buyer_ne_seller hrows hrows₁).symm]
  exact hr₁

/-- The first match of a round leaves the table: its seller is closed, and its buyer keeps what it does not take. -/
theorem RoundInv.remove (h : RoundInv t (f :: rest) epoch) (htable : TableInv t nextSeqnum nextXreqnum)
    (hrows : MatchRows t epoch f b r) (hseller : t'.select f.seller = none)
    (hbuyer : t'.select f.buyer = if b.openAmount = f.amount then none else some c)
    (hother : ∀ k, k ≠ f.seller → k ≠ f.buyer → t'.select k = t.select k) (hstatics : statics c = statics b)
    (horder : c.pendingMatchOrder = b.pendingMatchOrder) (hopen : c.openAmount = b.openAmount - f.amount)
    (hm : c.matchingAmount = b.matchingAmount) : RoundInv t' rest epoch := by
  have hbzero := h.order_of_buyer htable (mem_of_select hrows.buyer) hrows.pair.isBuyer
  have hnodup := List.nodup_cons.1 h.lists.nodup
  have hrow {y : Xreq} (hy : y ∈ t') := row_of_remove hseller hbuyer hother hy
  have hpair (g : PendingMatch) (hg : g ∈ rest) := h.rest_rows htable hrows hother hg
  refine ⟨⟨hnodup.2, fun g hg => ?_, fun y hy hp => ?_⟩, fun g hg => ?_, fun g hg => ?_, ?_, fun y hy => ?_⟩
  · obtain ⟨b₁, r₁, hrows₁, hsel⟩ := hpair g hg
    refine ⟨r₁, mem_of_select hsel, key_of_select hsel, decide_eq_true ?_⟩
    rw [hrows₁.pair.order]
    exact (h.terms g (List.mem_cons_of_mem _ hg)).2.2.1
  · obtain ⟨hks, ⟨hk, rfl⟩ | ⟨hk, hy'⟩⟩ := hrow hy
    · rw [isPending, horder, hbzero] at hp
      cases hp
    · obtain ⟨g, hg, hkey⟩ := h.lists.named y hy' hp
      rcases List.mem_cons.1 hg with rfl | hg
      · exact absurd hkey.symm hks
      · exact ⟨g, hg, hkey⟩
  · obtain ⟨b₁, r₁, hrows₁, hsel⟩ := hpair g hg
    by_cases hk : g.buyer = f.buyer
    · -- what the other match takes of the buyer is still open
      have hb := hrows₁.buyer
      rw [hk, hrows.buyer] at hb
      cases hb
      have hclaimed := h.claimed_le b (mem_of_select hrows.buyer)
      have hamount := amount_le_claimed hg
      have hpos := (h.terms g (List.mem_cons_of_mem _ hg)).1
      rw [key_of_select hrows.buyer, claimed_cons, if_pos rfl] at hclaimed
      rw [hk] at hamount ⊢
      rw [hbuyer, if_neg (by omega)]
      exact ⟨c, r₁, rfl, hsel, hrows₁.pair.of_keeps (h.terms g (List.mem_cons_of_mem _ hg)).2.2.1 hstatics
        (Keeps.refl r₁)⟩
    · refine ⟨b₁, r₁, ?_, hsel, hrows₁.pair⟩
      rw [hother g.buyer (htable.buyer_ne_seller hrows₁ hrows) hk]
      exact hrows₁.buyer
  · exact h.terms g (List.mem_cons_of_mem _ hg)
  · exact (List.pairwise_cons.1 h.sorted).2
  · obtain ⟨hks, ⟨hk, rfl⟩ | ⟨hk, hy'⟩⟩ := hrow hy
    · have hclaimed := h.claimed_le b (mem_of_select hrows.buyer)
      rw [key_of_select hrows.buyer, claimed_cons, if_pos rfl] at hclaimed
      rw [hk, hm, hopen]
      omega
    · have hclaimed := h.claimed_le y hy'
      rw [claimed_cons] at hclaimed
      omega

end Remove

/-- What the matches of a request have taken of it. -/
def filled (saved : Saved) (xreqnum : ℕ) : ℕ :=
  ((saved.xmatches.filter fun m => m.buyXreqnum = xreqnum ∨ m.sellXreqnum = xreqnum).map (·.baseAmount)).sum

/-- A match of the database is one that was set as pending. -/
structure Persists (blockTime : ℕ) (f : PendingMatch) (m : XmatchRow) : Prop where
  buyXreqnum : m.buyXreqnum = f.buyerXreqnum
  sellXreqnum : m.sellXreqnum = f.sellerXreqnum
  matchTimestamp : m.matchTimestamp = blockTime
  baseAmount : m.baseAmount = f.amount
  rate : m.rate = f.rate

/-- The invariant of what is saved, with the table: what is open of a request is what its matches have left of it. -/
structure SavedInv (t : XreqTable) (saved : Saved) (nextXreqnum : ℕ) : Prop where
  filled_add : ∀ r ∈ t, r.xreqnum ≠ 0 → filled saved r.xreqnum + r.openAmount = r.maxAmount
  filled_le : ∀ q ∈ saved.requests, filled saved q.req.xreqnum ≤ q.req.maxAmount
  maxAmount : ∀ r ∈ t, r.xreqnum ≠ 0 → ∀ q ∈ saved.requests, q.req.xreqnum = r.xreqnum → q.req.maxAmount = r.maxAmount
  lt : ∀ q ∈ saved.requests, q.req.xreqnum < nextXreqnum
  known : ∀ m ∈ saved.xmatches, (∃ q ∈ saved.requests, q.req.xreqnum = m.buyXreqnum) ∧
    ∃ q ∈ saved.requests, q.req.xreqnum = m.sellXreqnum

section Requests
variable {rows : List XmatchreqRow} {x : Xreq} {openAmount : ℕ} {d : Disposition} {q : XmatchreqRow}

/-- A request is saved with the values that it had at first. -/
theorem mem_xmatchreqInsert (h : q ∈ xmatchreqInsert rows x openAmount d) :
    (∃ q' ∈ rows, q.req = q'.req) ∨ q.req = x := by
  unfold xmatchreqInsert at h
  split_ifs at h
  · obtain ⟨q', hq', rfl⟩ := List.mem_map.1 h
    refine .inl ⟨q', hq', ?_⟩
    split_ifs <;> rfl
  · rcases List.mem_append.1 h with h | h
    · exact .inl ⟨q, h, rfl⟩
    · cases List.mem_singleton.1 h
      exact .inr rfl

theorem xmatchreqInsert_keeps (h : q ∈ rows) : ∃ q' ∈ xmatchreqInsert rows x openAmount d, q'.req = q.req := by
  unfold xmatchreqInsert
  split_ifs
  · refine ⟨_, List.mem_map_of_mem h, ?_⟩
    split_ifs <;> rfl
  · exact ⟨q, List.mem_append_left _ h, rfl⟩

theorem xmatchreqInsert_self (rows : List XmatchreqRow) (x : Xreq) (openAmount : ℕ) (d : Disposition) :
    ∃ q ∈ xmatchreqInsert rows x openAmount d, q.req.xreqnum = x.xreqnum := by
  unfold xmatchreqInsert
  split_ifs with h
  · obtain ⟨q, hq, heq⟩ := List.any_eq_true.1 h
    refine ⟨_, List.mem_map_of_mem hq, ?_⟩
    rw [if_pos (of_decide_eq_true heq)]
    exact of_decide_eq_true heq
  · exact ⟨_, List.mem_append_right _ (List.mem_singleton_self _), rfl⟩

end Requests

section Closing
variable {saved saved' : Saved} {x : Xreq} {outputEnv : ℕ → OutputEnv}

/-- Two states of what is saved with the same matches of the same requests. -/
structure SameMatches (saved saved' : Saved) : Prop where
  xmatches : saved'.xmatches = saved.xmatches
  requests : saved'.requests.map (·.req) = saved.requests.map (·.req)

theorem SameMatches.refl (saved : Saved) : SameMatches saved saved := ⟨rfl, rfl⟩

theorem SameMatches.trans {saved'' : Saved} (h : SameMatches saved saved') (h' : SameMatches saved' saved'') :
    SameMatches saved saved'' := ⟨h'.xmatches.trans h.xmatches, h'.requests.trans h.requests⟩

theorem createRefund_same (outputEnv : ℕ → OutputEnv) (saved : Saved) (x : Xreq) (openAmount amount : ℕ) :
    Ends (fun e => e = .outputs) (SameMatches saved) (createRefund outputEnv saved x openAmount amount) := by
  rw [createRefund]
  split
  · exact .error rfl
  · exact .ok ⟨rfl, rfl⟩

/-- A seller that was matched is closed, with a refund of what the match leaves. -/
theorem closeSeller_ends (outputEnv : ℕ → OutputEnv) (saved : Saved) (haddress : x.foreignAddress ≠ "")
    (hlt : x.openAmount < x.maxAmount) :
    Ends (fun e => e = .outputs) (fun p => p.1 = { x with openAmount := 0 } ∧ SameMatches saved p.2)
      (closeSeller outputEnv saved x) := by
  unfold closeSeller
  by_cases hzero : x.openAmount = 0
  · have hall : disposition x = .matchedAll := by
      unfold disposition
      rw [if_neg (by omega), if_neg hlt.ne, if_neg (fun h => h.1 hzero), if_neg (not_not.2 hzero)]
    rw [hall, if_neg (by decide)]
    exact .ok ⟨by rw [← hzero], .refl saved⟩
  · have hpart : disposition x = .matchedPart := by
      unfold disposition
      rw [if_neg (by omega), if_neg hlt.ne, if_pos ⟨hzero, haddress⟩]
    rw [if_pos hpart]
    exact (createRefund_same outputEnv saved x x.openAmount x.openAmount).map fun _ h => ⟨rfl, h⟩

end Closing

section Turn
variable {t : XreqTable} {nextSeqnum nextXreqnum epoch blockTime : ℕ} {f : PendingMatch} {rest : List PendingMatch}
  {b r : Xreq} {conv : AmountConv} {outputEnv : ℕ → OutputEnv} {st : XreqTable × Saved}

/-- The buyer of a match that is made persistent. -/
def persistedBuyer (conv : AmountConv) (b r : Xreq) : Xreq :=
  { b with
    openAmount := b.openAmount - r.pendingMatchAmount
    openRateRequired := b.matchRateRequired (conv.asUniFloat (b.openAmount - r.pendingMatchAmount)) 0
    recalcTime := recalcNext
    bestOtherSeqnum := r.seqnum
    bestAmount := r.pendingMatchAmount
    bestRate := r.pendingMatchRate }

/-- Its seller, before it is closed. -/
def persistedSeller (conv : AmountConv) (r : Xreq) : Xreq :=
  { r with
    pendingMatchOrder := 0
    openAmount := r.openAmount - r.pendingMatchAmount
    openRateRequired := r.matchRateRequired (conv.asUniFloat (r.openAmount - r.pendingMatchAmount)) 0
    recalcTime := recalcNext
    bestAmount := r.pendingMatchAmount
    bestRate := r.pendingMatchRate }

/-- The assertions on a pending match hold. -/
theorem MatchRows.pendingMatchPre (h : MatchRows t epoch f b r)
    (hterms : 0 < f.amount ∧ 0 < f.rate ∧ 0 < f.order ∧ f.buyerXreqnum ≠ 0 ∧ f.sellerXreqnum ≠ 0) :
    pendingMatchPre b r = .ok () := by
  obtain ⟨hamount, hrate, horder, -⟩ := hterms
  have hpair := h.pair
  simp only [Exchange.pendingMatchPre, bind_eq_ok, syncAssert_eq_ok, hpair.amount, hpair.rate, hpair.order, hpair.holdTime,
    hpair.bestOtherSeqnum, hpair.bestOtherXreqnum]
  exact ⟨(), hpair.isBuyer, (), hpair.isSeller, (), ⟨key_of_select h.buyer, hpair.buyerXreqnum⟩, (),
    ⟨horder.ne', trivial⟩, (), hamount.ne', hrate⟩

/-- The assertions of the constructor of a match hold. -/
theorem MatchRows.xmatchInit (h : MatchRows t epoch f b r) (htable : TableInv t nextSeqnum nextXreqnum)
    (conv : AmountConv) :
    xmatchInit (persistedBuyer conv b r) (persistedSeller conv r) = .ok () := by
  have hb := htable.valid b (mem_of_select h.buyer)
  have hr := htable.valid r (mem_of_select h.seller)
  have hterms := h.pair.terms
  simp only [Exchange.xmatchInit, xmatchreqInit, bind_eq_ok, syncAssert_eq_ok, persistedBuyer, persistedSeller,
    hb.consideration, hr.consideration, hb.acceptTime, hr.acceptTime, hb.baseAsset, hr.baseAsset, hb.foreignAsset,
    hr.foreignAsset, hb.autoAccept, hr.autoAccept]
  refine ⟨(), ⟨trivial, hterms.quoteAsset, trivial⟩, (), trivial, (), trivial, (), ⟨hterms.pledge, hterms.paymentTime⟩, (),
    fun _ => ⟨trivial, Nat.zero_le _, Nat.zero_le _⟩, (), fun _ => ?_, ?_⟩
  · exact ⟨h.pair.bestOtherSeqnum.trans (key_of_select h.buyer).symm, Nat.zero_le _, Nat.zero_le _⟩
  · exact ⟨rfl, trivial, trivial⟩

theorem updateOpenAmount_ok (conv : AmountConv) {x : Xreq} {amount : ℕ} (h : amount ≤ x.openAmount) :
    updateOpenAmount conv x amount = .ok { x with
      openAmount := x.openAmount - amount
      openRateRequired := x.matchRateRequired (conv.asUniFloat (x.openAmount - amount)) 0
      recalcTime := recalcNext } := by
  rw [updateOpenAmount, syncAssert, if_pos h]
  rfl

/-- What a pending match takes is open. -/
theorem RoundInv.amount_le (h : RoundInv t (f :: rest) epoch) (hrows : MatchRows t epoch f b r) :
    f.amount + claimed rest f.buyer + b.matchingAmount ≤ b.openAmount := by
  have hclaimed := h.claimed_le b (mem_of_select hrows.buyer)
  rwa [key_of_select hrows.buyer, claimed_cons, if_pos rfl] at hclaimed

/-- A turn of `MakeMatchesPersistent` passes its assertions. -/
theorem makeMatchPersistent_eq (h : RoundInv st.1 (f :: rest) epoch) (htable : TableInv st.1 nextSeqnum nextXreqnum)
    (hrows : MatchRows st.1 epoch f b r) : makeMatchPersistent conv outputEnv blockTime st b r =
      (closeSeller outputEnv st.2 (persistedSeller conv r)).map fun p =>
        (saveXreq (saveXreq st.1 (persistedBuyer conv b r)) p.1,
          xmatchInsert p.2 blockTime (persistedBuyer conv b r) p.1 (disposition (persistedSeller conv r))) := by
  have hamount := h.amount_le hrows
  rw [← hrows.pair.amount] at hamount
  have hbuyer := updateOpenAmount_ok conv (x := b) (show r.pendingMatchAmount ≤ b.openAmount by omega)
  have hseller := updateOpenAmount_ok conv (x := { r with pendingMatchOrder := 0 })
    (hrows.pair.amount ▸ hrows.pair.amount_le)
  have hinit := hrows.xmatchInit htable conv
  unfold makeMatchPersistent
  rw [hrows.pendingMatchPre (h.terms f List.mem_cons_self), ok_bind]
  extract_lets
  rw [hbuyer, ok_bind, hseller, ok_bind]
  change (xmatchInit (persistedBuyer conv b r) (persistedSeller conv r) >>= fun _ => _) = _
  rw [hinit, ok_bind]
  change (closeSeller outputEnv st.2 (persistedSeller conv r) >>= fun p => _) = _
  cases closeSeller outputEnv st.2 (persistedSeller conv r) with
  | error e => rfl
  | ok p => rfl

/-- The table after a turn: the seller is gone, and the buyer too when nothing of it is left. -/
def persistedTable (conv : AmountConv) (t : XreqTable) (b r : Xreq) : XreqTable :=
  xreqsDelete (saveXreq t (persistedBuyer conv b r)) r

theorem select_persistedTable (k : ℕ) : (persistedTable conv t b r).select k =
    if k = r.seqnum then none
    else if k = b.seqnum then
      if b.openAmount - r.pendingMatchAmount = 0 then none else (t.select k).map (updateColumns (persistedBuyer conv b r))
    else t.select k := by
  rw [persistedTable, xreqsDelete, select_delete]
  refine if_congr Iff.rfl rfl ?_
  have hb : (persistedBuyer conv b r).openAmount = b.openAmount - r.pendingMatchAmount := rfl
  unfold saveXreq
  rw [hb]
  by_cases hopen : b.openAmount - r.pendingMatchAmount = 0
  · rw [if_neg (not_not.2 hopen), xreqsDelete, select_delete]
    exact if_congr Iff.rfl (if_pos hopen).symm rfl
  · rw [if_pos hopen, select_xreqsUpdate, if_neg hopen]
    change (t.select k).map (fun row => if k = b.seqnum then updateColumns (persistedBuyer conv b r) row else row) = _
    split_ifs
    · rfl
    · exact Option.map_id'

theorem MatchRows.roundInv (hrows : MatchRows t epoch f b r) (h : RoundInv t (f :: rest) epoch)
    (htable : TableInv t nextSeqnum nextXreqnum) : RoundInv (persistedTable conv t b r) rest epoch := by
  have hkb := key_of_select hrows.buyer
  have hkr := key_of_select hrows.seller
  have hne := htable.buyer_ne_seller hrows hrows
  have hamount := h.amount_le hrows
  have hpair := hrows.pair.amount
  refine h.remove (c := updateColumns (persistedBuyer conv b r) b) htable hrows ?_ ?_ (fun k hks hkb' => ?_) rfl rfl
    (congrArg (b.openAmount - ·) hpair) rfl
  · rw [select_persistedTable, if_pos hkr.symm]
  · rw [select_persistedTable, if_neg (hkr ▸ hne), if_pos hkb.symm, hrows.buyer, hpair]
    exact if_congr (by omega) rfl rfl
  · rw [select_persistedTable, if_neg (hkr ▸ hks), if_neg (hkb ▸ hkb')]

/-- A row after a turn was there before, with the same open amount or less what the match takes of the buyer. -/
theorem mem_persistedTable {y : Xreq} (hb : t.select f.buyer = some b)
    (hy : y ∈ persistedTable conv t b r) : y.seqnum ≠ r.seqnum ∧
      (y = updateColumns (persistedBuyer conv b r) b ∧ b.openAmount - r.pendingMatchAmount ≠ 0 ∨
        y.seqnum ≠ b.seqnum ∧ y ∈ t) := by
  have hself := select_key hy
  rw [select_persistedTable] at hself
  split_ifs at hself with hkr hkb hopen
  · rw [hkb, key_of_select hb, hb] at hself
    exact ⟨hkr, .inl ⟨(Option.some.inj hself).symm, hopen⟩⟩
  · exact ⟨hkr, .inr ⟨hkb, mem_of_select hself⟩⟩

theorem MatchRows.tableInv (hrows : MatchRows t epoch f b r) (htable : TableInv t nextSeqnum nextXreqnum) :
    TableInv (persistedTable conv t b r) nextSeqnum nextXreqnum := by
  refine htable.of_rows (fun y hy => ?_) fun y hy => ?_
  · obtain ⟨-, ⟨rfl, -⟩ | ⟨-, hy'⟩⟩ := mem_persistedTable hrows.buyer hy
    · exact ⟨b, mem_of_select hrows.buyer, rfl, rfl, .inl rfl⟩
    · exact ⟨y, hy', rfl, .refl y⟩
  · obtain ⟨-, ⟨rfl, hopen⟩ | ⟨-, hy'⟩⟩ := mem_persistedTable hrows.buyer hy
    · exact ⟨hopen, (Nat.sub_le _ _).trans (htable.openAmount b (mem_of_select hrows.buyer)).2⟩
    · exact htable.openAmount y hy'

/-- What is saved after a turn, with a seller that was closed. -/
def persistedSaved (conv : AmountConv) (saved : Saved) (blockTime : ℕ) (b r : Xreq) : Saved :=
  xmatchInsert saved blockTime (persistedBuyer conv b r) { persistedSeller conv r with openAmount := 0 }
    (disposition (persistedSeller conv r))

theorem filled_persistedSaved (saved : Saved) (n : ℕ) : filled (persistedSaved conv saved blockTime b r) n =
    filled saved n + if b.xreqnum = n ∨ r.xreqnum = n then r.pendingMatchAmount else 0 := by
  unfold filled persistedSaved xmatchInsert
  dsimp only
  rw [List.filter_append, List.map_append, List.sum_append]
  congr 1
  by_cases hn : b.xreqnum = n ∨ r.xreqnum = n <;> simp [hn, persistedBuyer, persistedSeller]

theorem filled_of_party (saved : Saved) {n : ℕ} (hn : b.xreqnum = n ∨ r.xreqnum = n) :
    filled (persistedSaved conv saved blockTime b r) n = filled saved n + r.pendingMatchAmount := by
  rw [filled_persistedSaved, if_pos hn]

theorem filled_of_other (saved : Saved) {n : ℕ} (hn : ¬ (b.xreqnum = n ∨ r.xreqnum = n)) :
    filled (persistedSaved conv saved blockTime b r) n = filled saved n := by
  rw [filled_persistedSaved, if_neg hn, Nat.add_zero]

/-- A request that is saved after a turn was saved before, or is one of those that the match takes from. -/
theorem mem_persistedSaved {saved : Saved} {q : XmatchreqRow}
    (hq : q ∈ (persistedSaved conv saved blockTime b r).requests) : (∃ q' ∈ saved.requests, q.req = q'.req) ∨
      q.req = persistedBuyer conv b r ∨ q.req = { persistedSeller conv r with openAmount := 0 } := by
  rcases mem_xmatchreqInsert hq with ⟨q', hq', heq⟩ | heq
  · rw [heq]
    rcases mem_xmatchreqInsert hq' with ⟨q'', hq'', heq'⟩ | heq'
    · exact .inl ⟨q'', hq'', heq'⟩
    · exact .inr (.inl heq')
  · exact .inr (.inr heq)

theorem MatchRows.xreqnums (hrows : MatchRows t epoch f b r) (h : RoundInv t (f :: rest) epoch) :
    b.xreqnum ≠ 0 ∧ r.xreqnum ≠ 0 := by
  obtain ⟨-, -, -, hbx, hrx⟩ := h.terms f List.mem_cons_self
  rw [← hrows.pair.buyerXreqnum] at hbx
  rw [← hrows.pair.sellerXreqnum] at hrx
  exact ⟨hbx, hrx⟩

section Persisted
variable (hrows : MatchRows t epoch f b r) (h : RoundInv t (f :: rest) epoch)
  (htable : TableInv t nextSeqnum nextXreqnum) {saved : Saved} (hsaved : SavedInv t saved nextXreqnum)
include hrows h hsaved

/-- A match fits what is left of both requests. -/
theorem MatchRows.fits : filled saved b.xreqnum + r.pendingMatchAmount ≤ b.maxAmount ∧
    filled saved r.xreqnum + r.pendingMatchAmount ≤ r.maxAmount := by
  obtain ⟨hbx, hrx⟩ := hrows.xreqnums h
  have hamount := h.amount_le hrows
  have hamount' := hrows.pair.amount_le
  rw [← hrows.pair.amount] at hamount hamount'
  have hfillb := hsaved.filled_add b (mem_of_select hrows.buyer) hbx
  have hfillr := hsaved.filled_add r (mem_of_select hrows.seller) hrx
  exact ⟨by omega, by omega⟩

theorem MatchRows.saved_filled_le : ∀ q ∈ (persistedSaved conv saved blockTime b r).requests,
    filled (persistedSaved conv saved blockTime b r) q.req.xreqnum ≤ q.req.maxAmount := by
  obtain ⟨hbx, hrx⟩ := hrows.xreqnums h
  obtain ⟨hfitb, hfitr⟩ := hrows.fits h hsaved
  intro q hq
  rcases mem_persistedSaved hq with ⟨q', hq', heq⟩ | heq | heq
  · rw [heq]
    by_cases hx : b.xreqnum = q'.req.xreqnum ∨ r.xreqnum = q'.req.xreqnum
    · rw [filled_of_party saved hx]
      rcases hx with hx | hx
      · rw [hsaved.maxAmount b (mem_of_select hrows.buyer) hbx q' hq' hx.symm, ← hx]
        exact hfitb
      · rw [hsaved.maxAmount r (mem_of_select hrows.seller) hrx q' hq' hx.symm, ← hx]
        exact hfitr
    · rw [filled_of_other saved hx]
      exact hsaved.filled_le q' hq'
  · rw [heq]
    change filled _ b.xreqnum ≤ b.maxAmount
    rw [filled_of_party saved (.inl rfl)]
    exact hfitb
  · rw [heq]
    change filled _ r.xreqnum ≤ r.maxAmount
    rw [filled_of_party saved (.inr rfl)]
    exact hfitr

omit h hrows in
/-- The two requests of the match that is added are saved with it. -/
theorem SavedInv.persisted_known : ∀ m ∈ (persistedSaved conv saved blockTime b r).xmatches,
    (∃ q ∈ (persistedSaved conv saved blockTime b r).requests, q.req.xreqnum = m.buyXreqnum) ∧
      ∃ q ∈ (persistedSaved conv saved blockTime b r).requests, q.req.xreqnum = m.sellXreqnum := by
  have hkeep {n : ℕ} (h : ∃ q ∈ saved.requests, q.req.xreqnum = n) :
      ∃ q ∈ (persistedSaved conv saved blockTime b r).requests, q.req.xreqnum = n := by
    obtain ⟨q, hq, rfl⟩ := h
    obtain ⟨q₁, hq₁, heq₁⟩ := xmatchreqInsert_keeps hq
    obtain ⟨q₂, hq₂, heq₂⟩ := xmatchreqInsert_keeps hq₁
    exact ⟨q₂, hq₂, by rw [heq₂, heq₁]⟩
  intro m hm
  rcases List.mem_append.1 hm with hm | hm
  · obtain ⟨hbuy, hsell⟩ := hsaved.known m hm
    exact ⟨hkeep hbuy, hkeep hsell⟩
  · cases List.mem_singleton.1 hm
    refine ⟨?_, xmatchreqInsert_self _ _ _ _⟩
    obtain ⟨q, hq, heq⟩ := xmatchreqInsert_self saved.requests (persistedBuyer conv b r)
      (persistedBuyer conv b r).openAmount (disposition (persistedBuyer conv b r))
    obtain ⟨q', hq', heq'⟩ := xmatchreqInsert_keeps hq
    exact ⟨q', hq', by rw [heq', heq]⟩

include htable

theorem MatchRows.saved_filled_add : ∀ y ∈ persistedTable conv t b r, y.xreqnum ≠ 0 →
    filled (persistedSaved conv saved blockTime b r) y.xreqnum + y.openAmount = y.maxAmount := by
  obtain ⟨hbx, hrx⟩ := hrows.xreqnums h
  have hbt := mem_of_select hrows.buyer
  have hrt := mem_of_select hrows.seller
  intro y hy hne
  obtain ⟨hkr, ⟨rfl, -⟩ | ⟨hkb, hy'⟩⟩ := mem_persistedTable hrows.buyer hy
  · have hamount := h.amount_le hrows
    have hfill := hsaved.filled_add b hbt hbx
    rw [← hrows.pair.amount] at hamount
    change filled _ b.xreqnum + (b.openAmount - r.pendingMatchAmount) = b.maxAmount
    rw [filled_of_party saved (.inl rfl)]
    omega
  · rw [filled_of_other saved]
    · exact hsaved.filled_add y hy' hne
    · rintro (hx | hx)
      · exact hkb (congrArg Xreq.seqnum (htable.unique b hbt y hy' hbx hx).symm)
      · exact hkr (congrArg Xreq.seqnum (htable.unique r hrt y hy' hrx hx).symm)

theorem MatchRows.saved_maxAmount : ∀ y ∈ persistedTable conv t b r, y.xreqnum ≠ 0 →
    ∀ q ∈ (persistedSaved conv saved blockTime b r).requests, q.req.xreqnum = y.xreqnum →
      q.req.maxAmount = y.maxAmount := by
  obtain ⟨hbx, hrx⟩ := hrows.xreqnums h
  have hbt := mem_of_select hrows.buyer
  have hrt := mem_of_select hrows.seller
  intro y hy hne q hq heq
  -- the row stands for one of the table before
  obtain ⟨z, hz, hzx, hzmax⟩ : ∃ z ∈ t, y.xreqnum = z.xreqnum ∧ y.maxAmount = z.maxAmount := by
    obtain ⟨-, ⟨rfl, -⟩ | ⟨-, hy'⟩⟩ := mem_persistedTable hrows.buyer hy
    · exact ⟨b, hbt, rfl, rfl⟩
    · exact ⟨y, hy', rfl, rfl⟩
  rw [hzx] at hne heq
  rw [hzmax]
  rcases mem_persistedSaved hq with ⟨q', hq', heq'⟩ | heq' | heq'
  · rw [heq'] at heq ⊢
    exact hsaved.maxAmount z hz hne q' hq' heq
  · rw [heq'] at heq ⊢
    have hmax := congrArg Xreq.maxAmount (htable.unique b hbt z hz hbx heq)
    exact hmax
  · rw [heq'] at heq ⊢
    have hmax := congrArg Xreq.maxAmount (htable.unique r hrt z hz hrx heq)
    exact hmax

theorem MatchRows.savedInv :
    SavedInv (persistedTable conv t b r) (persistedSaved conv saved blockTime b r) nextXreqnum := by
  refine ⟨hrows.saved_filled_add h htable hsaved, hrows.saved_filled_le h hsaved,
    hrows.saved_maxAmount h htable hsaved, fun q hq => ?_, hsaved.persisted_known⟩
  rcases mem_persistedSaved hq with ⟨q', hq', heq⟩ | heq | heq
  · rw [heq]
    exact hsaved.lt q' hq'
  · rw [heq]
    exact htable.xreqnum b (mem_of_select hrows.buyer)
  · rw [heq]
    exact htable.xreqnum r (mem_of_select hrows.seller)

end Persisted

/-- What is saved only depends on the matches and the requests that were saved before. -/
theorem SavedInv.of_same {saved saved' : Saved} (h : SavedInv t saved nextXreqnum) (hsame : SameMatches saved saved') :
    SavedInv t saved' nextXreqnum := by
  have hfilled (n : ℕ) : filled saved' n = filled saved n := by rw [filled, filled, hsame.xmatches]
  have hreq {q : XmatchreqRow} (hq : q ∈ saved'.requests) : ∃ q' ∈ saved.requests, q'.req = q.req :=
    List.mem_map.1 (hsame.requests ▸ List.mem_map_of_mem hq)
  have hreq' {n : ℕ} (hn : ∃ q ∈ saved.requests, q.req.xreqnum = n) : ∃ q ∈ saved'.requests, q.req.xreqnum = n := by
    obtain ⟨q, hq, rfl⟩ := hn
    obtain ⟨q', hq', heq⟩ := List.mem_map.1 (hsame.requests ▸ List.mem_map_of_mem (f := XmatchreqRow.req) hq)
    exact ⟨q', hq', congrArg Xreq.xreqnum heq⟩
  refine ⟨fun y hy hne => ?_, fun q hq => ?_, fun y hy hne q hq heq => ?_, fun q hq => ?_, fun m hm => ?_⟩
  · rw [hfilled]
    exact h.filled_add y hy hne
  · obtain ⟨q', hq', heq'⟩ := hreq hq
    rw [hfilled, ← heq']
    exact h.filled_le q' hq'
  · obtain ⟨q', hq', heq'⟩ := hreq hq
    rw [← heq'] at heq ⊢
    exact h.maxAmount y hy hne q' hq' heq
  · obtain ⟨q', hq', heq'⟩ := hreq hq
    rw [← heq']
    exact h.lt q' hq'
  · rw [hsame.xmatches] at hm
    exact ⟨hreq' (h.known m hm).1, hreq' (h.known m hm).2⟩

theorem SavedInv.of_subset {t' : XreqTable} {saved : Saved} (h : SavedInv t saved nextXreqnum)
    (hsub : ∀ r ∈ t', r ∈ t) : SavedInv t' saved nextXreqnum :=
  ⟨fun r hr => h.filled_add r (hsub r hr), h.filled_le, fun r hr => h.maxAmount r (hsub r hr), h.lt, h.known⟩

/-- One turn of `MakeMatchesPersistent` makes the first pending match persistent, unless a refund fails. -/
theorem makeMatchPersistent_ends (h : RoundInv st.1 (f :: rest) epoch) (htable : TableInv st.1 nextSeqnum nextXreqnum)
    (hsaved : SavedInv st.1 st.2 nextXreqnum) (hrows : MatchRows st.1 epoch f b r) :
    Ends (fun e => e = .outputs) (fun st' => RoundInv st'.1 rest epoch ∧ TableInv st'.1 nextSeqnum nextXreqnum ∧
      SavedInv st'.1 st'.2 nextXreqnum ∧ ∃ m, Persists blockTime f m ∧ st'.2.xmatches = st.2.xmatches ++ [m])
      (makeMatchPersistent conv outputEnv blockTime st b r) := by
  have hvalid := htable.valid r (mem_of_select hrows.seller)
  have hopen := htable.openAmount r (mem_of_select hrows.seller)
  have hpos := (h.terms f List.mem_cons_self).1
  have hamount := hrows.pair.amount
  have hlt : (persistedSeller conv r).openAmount < (persistedSeller conv r).maxAmount := by
    change r.openAmount - r.pendingMatchAmount < r.maxAmount
    omega
  rw [makeMatchPersistent_eq h htable hrows]
  refine (closeSeller_ends (x := persistedSeller conv r) outputEnv st.2 (hvalid.foreignAddress hrows.pair.isSeller)
    hlt).map fun p hp => ?_
  obtain ⟨hclosed, hsame⟩ := hp
  have hkey : (saveXreq (saveXreq st.1 (persistedBuyer conv b r)) p.1) = persistedTable conv st.1 b r := by
    rw [hclosed]
    exact if_neg (not_not.2 rfl)
  rw [hkey]
  refine ⟨hrows.roundInv h htable, hrows.tableInv htable, ?_, ⟨p.2.nextXmatchnum, b.xreqnum, r.xreqnum, blockTime,
    r.pendingMatchAmount, r.pendingMatchRate, b.pledge⟩, ?_, ?_⟩
  · rw [hclosed]
    exact hrows.savedInv h htable (hsaved.of_same hsame)
  · exact ⟨hrows.pair.buyerXreqnum, hrows.pair.sellerXreqnum, rfl, hamount, hrows.pair.rate⟩
  · rw [hclosed]
    exact congrArg (· ++ _) hsame.xmatches

end Turn

section Loop
variable {t : XreqTable} {found rest : List PendingMatch} {nextSeqnum nextXreqnum epoch blockTime newXreqnum : ℕ}
  {f : PendingMatch} {conv : AmountConv} {outputEnv : ℕ → OutputEnv} {st : XreqTable × Saved}

/-- The pending match that is found next is the first that was set, with its own buyer. -/
theorem RoundInv.selectNext (h : RoundInv t (f :: rest) epoch) :
    ∃ b r, MatchRows t epoch f b r ∧ matchingSelectNextPendingMatch t = some (b, r) := by
  obtain ⟨b, r, hb, hr, hpair⟩ := h.pair f List.mem_cons_self
  refine ⟨b, r, ⟨hb, hr, hpair⟩, ?_⟩
  have horder := (h.terms f List.mem_cons_self).2.2.1
  have hother : t.select r.bestOtherSeqnum = some b := hpair.bestOtherSeqnum.symm ▸ hb
  have hp : (0 < r.pendingMatchOrder && (t.select r.bestOtherSeqnum).isSome) = true := by
    rw [hother, hpair.order]
    simpa using horder
  unfold matchingSelectNextPendingMatch
  cases hfirst : t.first (fun x => 0 < x.pendingMatchOrder && (t.select x.bestOtherSeqnum).isSome)
      Xreq.pendingMatchOrder with
  | none =>
    rw [first_eq_none.1 hfirst r (mem_of_select hr)] at hp
    cases hp
  | some y =>
    obtain ⟨hy, hpy⟩ := mem_of_first hfirst
    have hle := first_le hfirst (mem_of_select hr) hp
    rw [hpair.order] at hle
    obtain ⟨g, hg, hkey⟩ := h.lists.named y hy (Bool.and_eq_true_iff.1 hpy).1
    have hyr : y = r := by
      rcases List.mem_cons.1 hg with rfl | hrest
      · rw [hkey, select_key hy] at hr
        exact Option.some.inj hr
      · -- a match that was set later has a higher order
        obtain ⟨_, y', _, hy', hpair'⟩ := h.pair g hg
        rw [hkey, select_key hy] at hy'
        cases hy'
        have hlt := (List.pairwise_cons.1 h.sorted).1 g hrest
        rw [hpair'.order] at hle
        exact absurd hle (not_le.2 hlt)
    rw [hyr, Option.bind_some, hother]
    rfl

theorem RoundInv.selectNone (h : RoundInv t [] epoch) : matchingSelectNextPendingMatch t = none := by
  have hfirst : t.first (fun x => 0 < x.pendingMatchOrder && (t.select x.bestOtherSeqnum).isSome)
      Xreq.pendingMatchOrder = none := by
    refine first_eq_none.2 fun x hx => ?_
    simp [h.order_of_nil hx]
  rw [matchingSelectNextPendingMatch, hfirst]
  rfl

/-- What holds after `MakeMatchesPersistent`: nothing is pending, and each match that was is in the database once. -/
structure Persisted (nextSeqnum nextXreqnum epoch blockTime : ℕ) (found : List PendingMatch) (before : Saved)
    (st : XreqTable × Saved) : Prop where
  round : RoundInv st.1 [] epoch
  table : TableInv st.1 nextSeqnum nextXreqnum
  saved : SavedInv st.1 st.2 nextXreqnum
  xmatches : ∃ new, List.Forall₂ (Persists blockTime) found new ∧ st.2.xmatches = before.xmatches ++ new

theorem Persisted.nil (h : RoundInv st.1 [] epoch) (htable : TableInv st.1 nextSeqnum nextXreqnum)
    (hsaved : SavedInv st.1 st.2 nextXreqnum) : Persisted nextSeqnum nextXreqnum epoch blockTime [] st.2 st :=
  ⟨h, htable, hsaved, [], .nil, (List.append_nil _).symm⟩

theorem makeMatchesPersistentLoop_ends (n : ℕ) (hn : found.length ≤ n) (h : RoundInv st.1 found epoch)
    (htable : TableInv st.1 nextSeqnum nextXreqnum) (hsaved : SavedInv st.1 st.2 nextXreqnum) :
    Ends (fun e => e = .outputs) (Persisted nextSeqnum nextXreqnum epoch blockTime found st.2)
      (makeMatchesPersistentLoop conv outputEnv blockTime n st) := by
  induction n generalizing found st with
  | zero =>
    cases List.length_eq_zero_iff.1 (Nat.le_zero.1 hn)
    exact .ok (.nil h htable hsaved)
  | succ n ih =>
    rw [makeMatchesPersistentLoop]
    cases found with
    | nil =>
      rw [h.selectNone]
      exact .ok (.nil h htable hsaved)
    | cons f rest =>
      obtain ⟨b, r, hrows, hnext⟩ := h.selectNext
      rw [hnext]
      refine (makeMatchPersistent_ends h htable hsaved hrows).bind fun st₁ ⟨h₁, htable₁, hsaved₁, m, hm, heq⟩ => ?_
      refine (ih (Nat.le_of_succ_le_succ hn) h₁ htable₁ hsaved₁).mono fun st' hst' => ?_
      obtain ⟨new, hnew, heq'⟩ := hst'.xmatches
      refine ⟨hst'.round, hst'.table, hst'.saved, m :: new, .cons hm hnew, ?_⟩
      rw [heq', heq, List.append_assoc, List.singleton_append]

/-- No assertion of `MakeMatchesPersistent` fails: it only fails where an output cannot be made. -/
theorem makeMatchesPersistent_ends (h : RoundInv st.1 found epoch) (htable : TableInv st.1 nextSeqnum nextXreqnum)
    (hsaved : SavedInv st.1 st.2 nextXreqnum) :
    Ends (fun e => e = .outputs) (Persisted nextSeqnum nextXreqnum epoch blockTime found st.2)
      (makeMatchesPersistent conv outputEnv blockTime st) := by
  refine makeMatchesPersistentLoop_ends _ ?_ h htable hsaved
  have hlength := h.lists.perm.length_eq
  rw [List.length_map, List.length_map] at hlength
  exact hlength.symm.trans_le (List.length_filter_le _ _)

/-- Requests are closed: rows go, and what is saved keeps its matches. -/
structure Closes (st st' : XreqTable × Saved) : Prop extends SameMatches st.2 st'.2 where
  subset : ∀ r ∈ st'.1, r ∈ st.1

theorem Closes.refl (st : XreqTable × Saved) : Closes st st := ⟨.refl st.2, fun _ h => h⟩

theorem Closes.trans {st st₁ st₂ : XreqTable × Saved} (h : Closes st st₁) (h' : Closes st₁ st₂) : Closes st st₂ :=
  ⟨h.toSameMatches.trans h'.toSameMatches, fun r hr => h.subset r (h'.subset r hr)⟩

theorem Persisted.closes {before : Saved} {st' : XreqTable × Saved}
    (h : Persisted nextSeqnum nextXreqnum epoch blockTime found before st) (hclose : Closes st st') :
    Persisted nextSeqnum nextXreqnum epoch blockTime found before st' := by
  refine ⟨.nil (fun r hr => h.round.order_of_nil (hclose.subset r hr)) fun r hr => ?_,
    h.table.of_subset hclose.subset, ?_, ?_⟩
  · have hle := h.round.claimed_le r (hclose.subset r hr)
    omega
  · exact (h.saved.of_same hclose.toSameMatches).of_subset hclose.subset
  · obtain ⟨new, hnew, heq⟩ := h.xmatches
    exact ⟨new, hnew, hclose.xmatches.trans heq⟩

theorem xmatchreqUpdate_req (rows : List XmatchreqRow) (xreqnum : ℕ) (d : Disposition) :
    (xmatchreqUpdate rows xreqnum d).map XmatchreqRow.req = rows.map XmatchreqRow.req := by
  unfold xmatchreqUpdate
  rw [List.map_map]
  refine List.map_congr_left fun row _ => ?_
  dsimp only [Function.comp_apply]
  split_ifs <;> rfl

theorem expireXreq_closes (outputEnv : ℕ → OutputEnv) (st : XreqTable × Saved) (x : Xreq) :
    Ends (fun e => e = .outputs) (Closes st) (expireXreq outputEnv st x) := by
  have hsub (r : Xreq) (hr : r ∈ xreqsDelete st.1 x) : r ∈ st.1 := (mem_delete.1 hr).1
  unfold expireXreq
  by_cases hnone : x.xreqnum = 0 ∨ x.openAmount = 0
  · simp only [if_pos hnone]
    exact .ok ⟨.refl st.2, hsub⟩
  · simp only [if_neg hnone]
    have hupdate := xmatchreqUpdate_req st.2.requests x.xreqnum
      (if x.openAmount < x.maxAmount then Disposition.expiredRem else .expiredAll)
    split
    · exact .ok ⟨⟨rfl, hupdate⟩, hsub⟩
    · refine (createRefund_same outputEnv _ x x.openAmount _).map fun saved hsame => ⟨⟨hsame.xmatches, ?_⟩, hsub⟩
      exact hsame.requests.trans hupdate

theorem expireXreqs_closes (outputEnv : ℕ → OutputEnv) (blockTime : ℕ) (st : XreqTable × Saved) :
    Ends (fun e => e = .outputs) (Closes st) (expireXreqs outputEnv blockTime st) :=
  .foldlM (fun x _ st₁ h₁ => (expireXreq_closes outputEnv st₁ x).mono fun _ h => h₁.trans h) (.refl st)

theorem pruneLinked_closes (outputEnv : ℕ → OutputEnv) (st : XreqTable × Saved) (linkedSeqnum : ℕ) :
    Ends (fun e => e = .outputs) (Closes st) (pruneLinked outputEnv st linkedSeqnum) := by
  rw [pruneLinked]
  split_ifs
  · exact .ok (.refl st)
  · split
    · exact .ok (.refl st)
    · exact expireXreq_closes outputEnv st _

theorem PruneLoop.closes {pass next : ℕ} {st' : XreqTable × Saved} {log : List Removal}
    (h : PruneLoop outputEnv pass newXreqnum next st log st') : Closes st st' := by
  induction h with
  | within => exact .refl _
  | noneLeft => exact .refl _
  | isNew => exact .refl _
  | spare _ _ _ _ _ _ ih => exact ih
  | remove _ _ _ hexpire hlinked _ ih =>
    exact (((expireXreq_closes outputEnv _ _).2 _ hexpire).trans
      ((pruneLinked_closes outputEnv _ _).2 _ hlinked)).trans ih

theorem pruneXreqs_closes (outputEnv : ℕ → OutputEnv) (newXreqnum : ℕ) (st : XreqTable × Saved)
    (hdistinct : XreqnumsDistinct st.1) :
    Ends (fun e => e = .outputs) (Closes st) (pruneXreqs outputEnv newXreqnum st) := by
  have hturns (t : XreqTable) : pruneTurns 1 t < t.rows.length + 1 := Nat.lt_succ_of_le (pruneTurns_le 1 t)
  rw [pruneXreqs]
  refine (prunePass_ends outputEnv 0 newXreqnum _ 1 st (.start 0 newXreqnum hdistinct) (hturns st.1)).bind
    fun st₁ hpass => ?_
  obtain ⟨_, hfirst⟩ := hpass
  have hdistinct₁ := (hfirst.removes (.start 0 newXreqnum hdistinct)).2.2
  refine (prunePass_ends outputEnv 1 newXreqnum _ 1 st₁ (.start 1 newXreqnum hdistinct₁) (hturns st₁.1)).mono
    fun _ hpass => ?_
  obtain ⟨_, hsecond⟩ := hpass
  exact hfirst.closes.trans hsecond.closes

/-- The start of a new epoch only fails where an output cannot be made. -/
theorem startEpoch_ends (priorTime blockTime newXreqnum : ℕ) (h : RoundInv st.1 found epoch)
    (htable : TableInv st.1 nextSeqnum nextXreqnum) (hsaved : SavedInv st.1 st.2 nextXreqnum) :
    Ends (fun e => e = .outputs) (Persisted nextSeqnum nextXreqnum epoch priorTime found st.2)
      (startEpoch conv outputEnv priorTime blockTime newXreqnum st) := by
  refine (makeMatchesPersistent_ends h htable hsaved).bind fun st₁ hpersisted => ?_
  refine (expireXreqs_closes outputEnv blockTime st₁).bind fun st₂ hexpire => ?_
  have hpersisted₂ := hpersisted.closes hexpire
  exact (pruneXreqs_closes outputEnv newXreqnum st₂ hpersisted₂.table.unique).mono fun _ hprune =>
    hpersisted₂.closes hprune

end Loop

end CredaCash.Exchange
