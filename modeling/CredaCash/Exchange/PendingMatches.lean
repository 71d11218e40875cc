import CredaCash.Exchange.RoundSteps

/-! The matches that a round sets as pending: a match without hold joins those that were found before, and with
it every turn of a round keeps the invariant. -/

namespace CredaCash.Exchange
open Checks KeyedTable

theorem restAmount_add_le {x : Xreq} {amount : ℕ} (h : amount ≤ x.matchingAmount) :
    restAmount x amount + amount ≤ x.matchingAmount := by
  unfold restAmount
  split_ifs <;> omega

/-- A match in a new epoch sets the columns of the pending match. -/
theorem mutualMatchRow_pending (conv : AmountConv) {x : Xreq} {blockTime : ℕ}
    (h : x.pendingMatchEpoch ≠ blockTime / matchingSecsPerEpoch) (amount passnum hold : ℕ) (rate : UniFloat) :
    (mutualMatchRow conv x amount rate passnum blockTime hold).pendingMatchEpoch = blockTime / matchingSecsPerEpoch ∧
      (mutualMatchRow conv x amount rate passnum blockTime hold).pendingMatchAmount = amount ∧
      (mutualMatchRow conv x amount rate passnum blockTime hold).pendingMatchRate = rate ∧
      (mutualMatchRow conv x amount rate passnum blockTime hold).pendingMatchHoldTime = hold := by
  unfold mutualMatchRow
  rw [if_pos h]
  exact ⟨rfl, rfl, rfl, rfl⟩

section Add
variable {t : XreqTable} {found : List PendingMatch} {epoch : ℕ} {f : PendingMatch} {b r y : Xreq}

/-- The seller of a match that was found is pending. -/
theorem RoundInv.not_found (h : RoundInv t found epoch) (hr : t.select f.seller = some r)
    (hzero : r.pendingMatchOrder = 0) : ∀ g ∈ found, g.seller ≠ f.seller := by
  intro g hg heq
  obtain ⟨_, r', _, hsel, hpair⟩ := h.pair g hg
  rw [heq, hr] at hsel
  cases hsel
  have := (h.terms g hg).2.2.1
  rw [← hpair.order, hzero] at this
  exact this.false

/-- A row that is not pending becomes that of a match. -/
theorem RoundInv.add (h : RoundInv t found epoch) (hb : t.select f.buyer = some b) (hr : t.select f.seller = some r)
    (hne : f.seller ≠ f.buyer) (hzero : r.pendingMatchOrder = 0) (hy : y.seqnum = f.seller)
    (hopen : y.openAmount = r.openAmount) (hpair : PendingPair epoch f b (updateColumns y r))
    (hterms : 0 < f.amount ∧ 0 < f.rate ∧ 0 < f.order ∧ f.buyerXreqnum ≠ 0 ∧ f.sellerXreqnum ≠ 0)
    (hlast : ∀ g ∈ found, g.order < f.order)
    (hroom : claimed found f.buyer + f.amount + b.matchingAmount ≤ b.openAmount) :
    RoundInv (xreqsUpdate t y) (found ++ [f]) epoch := by
  have hfresh := h.not_found hr hzero
  have hselect (k : ℕ) : (xreqsUpdate t y).select k =
      (t.select k).map fun a => if k = f.seller then updateColumns y a else a := hy ▸ select_xreqsUpdate t y k
  have hseller : (xreqsUpdate t y).select f.seller = some (updateColumns y r) := by
    rw [hselect, hr, Option.map_some, if_pos rfl]
  have hother {k : ℕ} {a : Xreq} (hk : k ≠ f.seller) (ha : t.select k = some a) :
      (xreqsUpdate t y).select k = some a := by
    rw [hselect, ha, Option.map_some, if_neg hk]
  -- the rows of the new table are those of the old one, and that of the seller
  have hrows {a : Xreq} (ha : a ∈ xreqsUpdate t y) :
      a = updateColumns y r ∧ a.seqnum = f.seller ∨ a ∈ t ∧ a.seqnum ≠ f.seller := by
    have hself := select_key ha
    rw [hselect] at hself
    obtain ⟨a', ha', heq⟩ := Option.map_eq_some_iff.1 hself
    split_ifs at heq with hk
    · rw [hk, hr] at ha'
      cases ha'
      exact .inl ⟨heq.symm, hk⟩
    · exact .inr ⟨heq ▸ mem_of_select ha', hk⟩
  refine ⟨⟨?_, fun g hg => ?_, fun a ha hp => ?_⟩, fun g hg => ?_, fun g hg => ?_, ?_, fun a ha => ?_⟩
  · rw [List.map_append, List.map_singleton]
    refine h.lists.nodup.append (List.nodup_singleton _) (List.disjoint_singleton.2 fun hmem => ?_)
    obtain ⟨g, hg, heq⟩ := List.mem_map.1 hmem
    exact hfresh g hg heq
  · rcases List.mem_append.1 hg with hg | hg
    · obtain ⟨a, ha, hkey, hp⟩ := h.lists.row g hg
      exact ⟨a, mem_of_select (hother (hfresh g hg) (select_eq_some.2 ⟨ha, hkey⟩)), hkey, hp⟩
    · cases List.mem_singleton.1 hg
      refine ⟨updateColumns y r, mem_of_select hseller, key_of_select hseller, ?_⟩
      rw [isPending, hpair.order]
      exact decide_eq_true hterms.2.2.1
  · rcases hrows ha with ⟨-, hk⟩ | ⟨ha', -⟩
    · exact ⟨f, List.mem_append_right _ (List.mem_singleton_self f), hk.symm⟩
    · obtain ⟨g, hg, hkey⟩ := h.lists.named a ha' hp
      exact ⟨g, List.mem_append_left _ hg, hkey⟩
  · rcases List.mem_append.1 hg with hg | hg
    · obtain ⟨b', r', hb', hr', hpair'⟩ := h.pair g hg
      have hr'' := hother (hfresh g hg) hr'
      by_cases hk : g.buyer = f.seller
      · refine ⟨updateColumns y r, r', hk ▸ hseller, hr'', hpair'.of_keeps (h.terms g hg).2.2.1 ?_ (Keeps.refl r')⟩
        rw [hk, hr] at hb'
        cases hb'
        rfl
      · exact ⟨b', r', hother hk hb', hr'', hpair'⟩
    · cases List.mem_singleton.1 hg
      exact ⟨b, updateColumns y r, hother hne.symm hb, hseller, hpair⟩
  · rcases List.mem_append.1 hg with hg | hg
    · exact h.terms g hg
    · cases List.mem_singleton.1 hg
      exact hterms
  · refine List.pairwise_append.2 ⟨h.sorted, List.pairwise_singleton _ f, fun g hg g' hg' => ?_⟩
    cases List.mem_singleton.1 hg'
    exact hlast g hg
  · rw [claimed_append]
    rcases hrows ha with ⟨rfl, hk⟩ | ⟨ha', -⟩
    · have hclaimed := h.claimed_le r (mem_of_select hr)
      rw [key_of_select hr] at hclaimed
      have hm := hpair.matchingAmount
      have hopen' : (updateColumns y r).openAmount = r.openAmount := hopen
      rw [hk, if_neg hne.symm, hm, hopen']
      omega
    · split_ifs with hk
      · rw [hk, select_key ha'] at hb
        cases hb
        rw [← hk]
        exact hroom
      · exact h.claimed_le a ha'

end Add

section Turns
variable {nextSeqnum nextXreqnum : ℕ} {st₀ st st' : MatchList} {conv : AmountConv} {major minor : Xreq}
  {passnum blockTime maxXreqnum : ℕ}

/-- The row of a seller after a match without hold, with the row of its buyer. -/
theorem pendingPair_of_match {b r : Xreq} {order : ℕ} (hb : SameColumns b major) (hr : SameColumns r minor)
    (hbuyer : major.isBuyer = true) (hseller : minor.isSeller = true) (haddress : minor.foreignAddress ≠ "")
    (hterms : TermsFit major minor) (hepoch : minor.pendingMatchEpoch ≠ blockTime / matchingSecsPerEpoch)
    (hpre : updateMutualMatchPre { minor with pendingMatchOrder := order }
      (mutualMatchRow conv major major.bestAmount major.bestRate passnum blockTime 0) major.bestAmount
      major.bestRate = .ok ()) :
    PendingPair (blockTime / matchingSecsPerEpoch)
      ⟨order, major.seqnum, major.xreqnum, minor.seqnum, minor.xreqnum, major.bestAmount, major.bestRate⟩
      (updateColumns (mutualMatchRow conv major major.bestAmount major.bestRate passnum blockTime 0) b)
      (updateColumns (mutualMatchRow conv { minor with pendingMatchOrder := order } major.bestAmount major.bestRate
        passnum blockTime 0) r) := by
  obtain ⟨-, hother, hotherX, -, hle, hmatching, -⟩ := updateMutualMatchPre_ok hpre
  obtain ⟨-, hopen, horder, hbest, hbestX, hrest⟩ := mutualMatchRow_columns conv
    { minor with pendingMatchOrder := order } major.bestAmount passnum blockTime 0 major.bestRate
  obtain ⟨hepoch', hamount, hrate, hhold⟩ := mutualMatchRow_pending conv
    (x := { minor with pendingMatchOrder := order }) hepoch major.bestAmount passnum 0 major.bestRate
  exact {
    isBuyer := (isBuyer_of_statics hb.statics).symm.trans hbuyer
    buyerXreqnum := (xreqnum_of_statics hb.statics).symm
    isSeller := (isSeller_of_statics hr.statics).symm.trans hseller
    sellerXreqnum := (xreqnum_of_statics hr.statics).symm
    order := horder
    amount := hamount
    rate := hrate
    holdTime := hhold
    epoch := hepoch'
    bestOtherSeqnum := hbest.trans (hother.trans mutualMatchRow_seqnum)
    bestOtherXreqnum := hbestX.trans (hotherX.trans (xreqnum_of_statics statics_mutualMatchRow))
    matchingAmount := hrest.trans (if_pos haddress)
    amount_le := (hle.trans hmatching).trans hopen.ge
    terms := hterms.of_statics hb.statics.symm hr.statics.symm }

/-- An update that keeps the link and the open amount of a loaded request. -/
theorem Loaded.rel_sameOpen {t : XreqTable} {x y : Xreq} (h : Loaded t x) (hseq : y.seqnum = x.seqnum)
    (hlink : y.linkedSeqnum = x.linkedSeqnum) (hopen : y.openAmount = x.openAmount) :
    Rel SameOpen t (Exchange.xreqsUpdate t y) := by
  obtain ⟨row, hrow, hload⟩ := h
  have hsame := sameColumns_of_eraseLoaded hload
  refine Rel.of_update SameOpen.refl fun a ha => ?_
  rw [hseq, hrow] at ha
  cases ha
  exact ⟨⟨rfl, .inl (hlink.trans hsame.linkedSeqnum)⟩, hopen.trans hsame.openAmount⟩

/-- A match without hold. -/
theorem RoundState.addPendingMatch
    (h : RoundState st₀ nextSeqnum nextXreqnum (blockTime / matchingSecsPerEpoch) st) (hmajor : Loaded st.table major)
    (hminor : Loaded st.table minor) (hb : major.isBuyer = true) (hs : minor.isSeller = true)
    (hterms : major.xreqnum ≠ 0 → minor.xreqnum ≠ 0 → TermsFit major minor)
    (hadd : addPendingMatch conv passnum blockTime st major minor = .ok st') :
    RoundState st₀ nextSeqnum nextXreqnum (blockTime / matchingSecsPerEpoch) st' := by
  simp only [Exchange.addPendingMatch, ccassert_bind_eq_ok] at hadd
  obtain ⟨hzero, hepoch, hadd⟩ := hadd
  obtain ⟨_, hupdate, hadd⟩ := bind_eq_ok.1 hadd
  cases hadd
  obtain ⟨hpre, hpre', rfl⟩ := updateBoth_ok hupdate
  obtain ⟨hxreqnum, -, -, hpos, hle, -, hrate⟩ := updateMutualMatchPre_ok hpre
  obtain ⟨hxreqnum', -⟩ := updateMutualMatchPre_ok hpre'
  have hne := Loaded.seqnum_ne h.table hmajor hminor hb hs
  -- the update of the buyer keeps the invariant, and makes room for the match
  have h₁ := h.of_keeps (hmajor.rel_match conv major.bestAmount passnum blockTime 0 major.bestRate
    (h.round.loaded_order hmajor (by omega)))
  have hminor₁ := hminor.of_ne
    (y := mutualMatchRow conv major major.bestAmount major.bestRate passnum blockTime 0) (by rwa [mutualMatchRow_seqnum])
  obtain ⟨b, hbrow, hloadb⟩ := hmajor
  obtain ⟨r, hrrow, hloadr⟩ := hminor₁
  have hsameb := sameColumns_of_eraseLoaded hloadb
  have hsamer := sameColumns_of_eraseLoaded hloadr
  obtain ⟨-, hopenb, -, -, -, hrest⟩ :=
    mutualMatchRow_columns conv major major.bestAmount passnum blockTime 0 major.bestRate
  obtain ⟨hlinkr, hopenr, -, -, -, -⟩ := mutualMatchRow_columns conv
    { minor with pendingMatchOrder := st.nextMatchIndex } major.bestAmount passnum blockTime 0 major.bestRate
  have hroom : claimed st.found major.seqnum + major.bestAmount +
      (mutualMatchRow conv major major.bestAmount major.bestRate passnum blockTime 0).matchingAmount ≤
      (mutualMatchRow conv major major.bestAmount major.bestRate passnum blockTime 0).openAmount := by
    have hclaimed := h.round.claimed_le b (mem_of_select hbrow)
    have := restAmount_add_le hle
    rw [key_of_select hbrow, ← hsameb.openAmount, ← hsameb.matchingAmount] at hclaimed
    rw [hopenb, hrest]
    omega
  have hbuyer : (xreqsUpdate st.table
      (mutualMatchRow conv major major.bestAmount major.bestRate passnum blockTime 0)).select major.seqnum =
      some (updateColumns (mutualMatchRow conv major major.bestAmount major.bestRate passnum blockTime 0) b) := by
    rw [select_xreqsUpdate, hbrow, Option.map_some, mutualMatchRow_seqnum, if_pos rfl]
  have haddress : minor.foreignAddress ≠ "" :=
    ((h₁.table.valid r (mem_of_select hrrow)).of_statics hsamer.statics).foreignAddress hs
  have hpair := pendingPair_of_match hsameb hsamer hb hs haddress (hterms hxreqnum hxreqnum') hepoch hpre'
  have hround := h₁.round.add hbuyer hrrow hne (hsamer.order.symm.trans hzero) mutualMatchRow_seqnum
    (hopenr.trans hsamer.openAmount) hpair ⟨Nat.pos_of_ne_zero hpos, hrate, h.index.1, hxreqnum, hxreqnum'⟩ h.index.2
    hroom
  have hrel := Loaded.rel_sameOpen (x := minor) ⟨r, hrrow, hloadr⟩
    (y := mutualMatchRow conv { minor with pendingMatchOrder := st.nextMatchIndex } major.bestAmount major.bestRate
      passnum blockTime 0) mutualMatchRow_seqnum hlinkr hopenr
  refine ⟨h₁.rel.trans (fun _ _ _ => SameOpen.trans) hrel, h₁.grows.trans (List.prefix_append _ _),
    h₁.table.of_sameOpen hrel, hround, Nat.succ_pos _, ?_⟩
  intro f hf
  rcases List.mem_append.1 hf with hf | hf
  · exact Nat.lt_succ_of_lt (h.index.2 f hf)
  · cases List.mem_singleton.1 hf
    exact Nat.lt_succ_self _

/-- What the assertions of `FindMutualMatches` leave of the two sides of a match. -/
theorem mutualMatchPre_ok {u : Unit} (h : mutualMatchPre major minor = .ok u) :
    major.isBuyer = true ∧ minor.isSeller = true ∧ TermsFit major minor := by
  simp only [mutualMatchPre, ccassert_bind_eq_ok, ccassert_eq_ok] at h
  obtain ⟨hbuyer, -, -, -, hseller, -, -, -, -, -, -, -, ⟨-, hquote, -⟩, ⟨-, -, hpledge⟩, -, -, htime, -⟩ := h
  exact ⟨hbuyer, hseller, hquote.symm, hpledge, htime⟩

theorem RoundState.mutualMatch {pair : ℕ × ℕ}
    (h : RoundState st₀ nextSeqnum nextXreqnum (blockTime / matchingSecsPerEpoch) st)
    (hmatch : mutualMatch conv passnum blockTime st pair = .ok st') :
    RoundState st₀ nextSeqnum nextXreqnum (blockTime / matchingSecsPerEpoch) st' := by
  unfold Exchange.mutualMatch at hmatch
  split at hmatch
  next major minor hmajor hminor =>
    obtain ⟨_, hpre, hmatch⟩ := bind_eq_ok.1 hmatch
    obtain ⟨hb, hs, hterms⟩ := mutualMatchPre_ok hpre
    split_ifs at hmatch
    · obtain ⟨_, -, hmatch⟩ := bind_eq_ok.1 hmatch
      exact h.addPendingMatch (.of_select hmajor) (.of_select hminor) hb hs (fun _ _ => hterms) hmatch
    · obtain ⟨_, hupdate, hmatch⟩ := bind_eq_ok.1 hmatch
      cases hmatch
      exact h.holdMatch (.of_select hmajor) (.of_select hminor) hb hs hupdate
  next =>
    cases hmatch
    exact h

theorem RoundState.findMutualMatches {haveMatches : Bool}
    (h : RoundState st₀ nextSeqnum nextXreqnum (blockTime / matchingSecsPerEpoch) st)
    (hfind : findMutualMatches conv passnum blockTime st = .ok (haveMatches, st')) :
    RoundState st₀ nextSeqnum nextXreqnum (blockTime / matchingSecsPerEpoch) st' := by
  obtain ⟨_, hfold, hfind⟩ := bind_eq_ok.1 hfind
  cases hfind
  exact foldlM_ok (fun _ _ _ hs hturn => hs.mutualMatch hturn) h hfold

/-- A pass of a round. -/
theorem RoundState.matchPass {m m' : MatchLoop}
    (h : RoundState st₀ nextSeqnum nextXreqnum (blockTime / matchingSecsPerEpoch) m.toMatchList)
    (hfirst : m.firstPass = true → m.found = []) (hpass : matchPass conv blockTime maxXreqnum m = .ok m') :
    RoundState st₀ nextSeqnum nextXreqnum (blockTime / matchingSecsPerEpoch) m'.toMatchList ∧ m'.firstPass = false := by
  obtain ⟨hrel, hround⟩ := h.round.matchingInit hfirst m.passnum blockTime maxXreqnum
  have hinit : RoundState st₀ nextSeqnum nextXreqnum (blockTime / matchingSecsPerEpoch)
      { m.toMatchList with table := matchingInit m.table m.firstPass m.passnum blockTime maxXreqnum } :=
    ⟨h.rel.trans (fun _ _ _ => SameOpen.trans) hrel, h.grows, h.table.of_sameOpen hrel, hround, h.index⟩
  obtain ⟨scan, hscan, hpass⟩ := bind_eq_ok.1 hpass
  have hsearch := foldlM_ok (P := fun scan : Scan => RoundState st₀ nextSeqnum nextXreqnum
      (blockTime / matchingSecsPerEpoch) { m.toMatchList with table := scan.table })
    (fun _ _ _ hs hturn => hs.checkMajor hturn) hinit hscan
  dsimp only at hpass
  split_ifs at hpass
  · obtain ⟨⟨haveMatches, st⟩, hfind, hpass⟩ := bind_eq_ok.1 hpass
    cases hpass
    exact ⟨hsearch.findMutualMatches hfind, rfl⟩
  · cases hpass
    exact ⟨hsearch, rfl⟩

theorem Loaded.unchanged {t : XreqTable} {x : Xreq} (h : Loaded t x) : Loaded t { x with changed := false } := by
  obtain ⟨row, hrow, heq⟩ := h
  exact ⟨row, hrow, heq⟩

/-- The match of a mining trade with itself. -/
theorem RoundState.miningMatch
    (h : RoundState st₀ nextSeqnum nextXreqnum (blockTime / matchingSecsPerEpoch) st) {k k' : ℕ}
    (hmajor : st.table.select k = some major) (hminor : st.table.select k' = some minor)
    (hb : major.isBuyer = true) (hs : minor.isSeller = true)
    (hterms : major.xreqnum ≠ 0 → minor.xreqnum ≠ 0 → TermsFit major minor)
    (hmatch : miningMatch conv blockTime st major minor = .ok st') :
    RoundState st₀ nextSeqnum nextXreqnum (blockTime / matchingSecsPerEpoch) st' := by
  obtain ⟨⟨haveMatch, major', minor'⟩, hcheck, hmatch⟩ := bind_eq_ok.1 hmatch
  obtain ⟨hhave, hmatch⟩ := ccassert_bind_eq_ok.1 hmatch
  rcases checkMatch_rows hcheck with ⟨hnone, -⟩ | ⟨hmb, hms, heb, hes⟩
  · rw [hnone] at hhave
    cases hhave
  -- the search changes neither half in a column that the match depends on
  have hlb : eraseLoaded major' = eraseLoaded major := congrArg (fun x => { x with recalc := false }) heb
  have hls : eraseLoaded minor' = eraseLoaded minor := congrArg (fun x => { x with recalc := false }) hes
  have hsameb := sameColumns_of_eraseLoaded hlb.symm
  have hsames := sameColumns_of_eraseLoaded hls.symm
  have hloadb := Loaded.of_eraseLoaded hmajor hlb
  have hloads := Loaded.of_eraseLoaded hminor hls
  have hmb' : major'.matchingAmount ≠ 0 := fun h0 => hmb (hsameb.matchingAmount.symm.trans h0)
  have hms' : minor'.matchingAmount ≠ 0 := fun h0 => hms (hsames.matchingAmount.symm.trans h0)
  have hstored := h.of_keeps (h.round.storeBoth hloadb hloads hmb' hms')
  have hmajor' := ((hloadb.storeChanged hloadb).storeChanged (hloads.storeChanged hloadb)).unchanged
  have hminor' := ((hloads.storeChanged hloadb).storeChanged (hloads.storeChanged hloadb)).unchanged
  have hb' : major'.isBuyer = true := (isBuyer_of_statics hsameb.statics).trans hb
  have hs' : minor'.isSeller = true := (isSeller_of_statics hsames.statics).trans hs
  refine hstored.addPendingMatch hmajor' hminor' hb' hs' (fun hx hx' => ?_) hmatch
  have hterms' := (hterms ((xreqnum_of_statics hsameb.statics).symm.trans_ne hx)
    ((xreqnum_of_statics hsames.statics).symm.trans_ne hx')).of_statics hsameb.statics hsames.statics
  exact ⟨hterms'.quoteAsset, hterms'.pledge, hterms'.paymentTime⟩

/-- One turn of `AddMiningMatches`. -/
theorem RoundState.addMiningMatch {seqnum : ℕ}
    (h : RoundState st₀ nextSeqnum nextXreqnum (blockTime / matchingSecsPerEpoch) st)
    (hturn : addMiningMatch conv blockTime maxXreqnum st seqnum = .ok st') :
    RoundState st₀ nextSeqnum nextXreqnum (blockTime / matchingSecsPerEpoch) st' := by
  unfold Exchange.addMiningMatch at hturn
  split at hturn
  next =>
    cases hturn
    exact h
  next major hmajor =>
    split_ifs at hturn
    · cases hturn
      exact h
    obtain ⟨htype, hturn⟩ := ccassert_bind_eq_ok.1 hturn
    obtain ⟨-, hturn⟩ := ccassert_bind_eq_ok.1 hturn
    split at hturn
    next =>
      cases hturn
      refine h.of_keeps (Rel.of_update Keeps.refl fun a ha => ?_)
      rw [key_of_select hmajor] at ha
      obtain rfl := Option.some.inj (hmajor.symm.trans ha)
      exact ⟨⟨rfl, .inr rfl⟩, rfl, le_rfl, rfl, fun _ => ⟨rfl, rfl, rfl, rfl, rfl, rfl⟩⟩
    next minor hminor =>
      by_cases hskip : skipMiningSell blockTime maxXreqnum major minor = true
      · rw [if_pos hskip] at hturn
        cases hturn
        exact h
      rw [if_neg hskip] at hturn
      obtain ⟨_, hpair, hturn⟩ := bind_eq_ok.1 hturn
      split_ifs at hturn
      · cases hturn
        exact h
      simp only [miningPair, ccassert_bind_eq_ok, ccassert_eq_ok] at hpair
      simp only [skipMiningSell, Bool.or_eq_true, decide_eq_true_eq, not_or, not_not] at hskip
      have hb : major.isBuyer = true := by simp [Xreq.isBuyer, htype, XtxType.isBuyer]
      have hs : minor.isSeller = true := by simp [Xreq.isSeller, hpair.1, XtxType.isSeller]
      refine h.miningMatch hmajor hminor hb hs (fun hx hx' => ?_) hturn
      exact (h.table.twins major (mem_of_select hmajor) minor (mem_of_select hminor) hx hx'
        (key_of_select hminor).symm hskip.2).termsFit

/-- `XreqsClearOldPendingMatches` leaves the matches of the round. -/
theorem RoundInv.clearOld {t : XreqTable} {found : List PendingMatch} {epoch : ℕ} (h : RoundInv t found epoch) :
    Rel Keeps t (xreqsClearOldPendingMatches t epoch maxXreqnum) := by
  refine Rel.of_map fun x hx => ?_
  split_ifs with hold
  · exact ⟨⟨rfl, .inl rfl⟩, rfl, le_rfl, rfl, fun horder => absurd (h.of_pending hx horder).2 hold.2.1⟩
  · exact Keeps.refl x

/-- The end of a round. -/
theorem RoundState.matchEnd (h : RoundState st₀ nextSeqnum nextXreqnum (blockTime / matchingSecsPerEpoch) st)
    (hend : matchEnd conv blockTime maxXreqnum st = .ok st') :
    RoundState st₀ nextSeqnum nextXreqnum (blockTime / matchingSecsPerEpoch) st' := by
  obtain ⟨_, hmining, hend⟩ := bind_eq_ok.1 hend
  cases hend
  have hround := foldlM_ok (fun _ _ _ hs hturn => RoundState.addMiningMatch hs hturn) h hmining
  exact hround.of_keeps hround.round.clearOld

end Turns

end CredaCash.Exchange
