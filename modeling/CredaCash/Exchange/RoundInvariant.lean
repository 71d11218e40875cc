import CredaCash.Exchange.Run

/-! The invariant of a round of matching: which matches are pending, and how much of each request they take. -/

namespace CredaCash.Exchange

/-- What validation ensures of the columns of a row that never change. -/
structure ValidRow (x : Xreq) : Prop where
  type : x.type ≠ .miningTrade
  destination : x.destination ≠ 0
  baseAsset : x.baseAsset = 0
  foreignAsset : x.foreignAsset = ""
  consideration : x.considerationRequired = 0
  acceptTime : x.acceptTimeRequired = 0
  autoAccept : x.autoAcceptMatches = true
  foreignAddress : x.isSeller = true → x.foreignAddress ≠ ""

/-- Two states of a row between which only dynamic columns change. -/
structure SameRequest (x y : Xreq) : Prop where
  statics : statics y = statics x
  linkedSeqnum : y.linkedSeqnum = x.linkedSeqnum ∨ y.linkedSeqnum = 0

/-- The columns in which the two halves of a mining trade agree. -/
structure Twins (x y : Xreq) : Prop where
  quoteAsset : x.quoteAsset = y.quoteAsset
  pledge : x.pledge = y.pledge
  paymentTime : x.paymentTime = y.paymentTime

/-- The terms of a buyer that have to meet those of its seller. -/
structure TermsFit (b r : Xreq) : Prop where
  quoteAsset : b.quoteAsset = r.quoteAsset
  pledge : r.pledge ≤ b.pledge
  paymentTime : r.paymentTime ≤ b.paymentTime

section Rows
variable {x y z : Xreq}

theorem ValidRow.of_statics (h : ValidRow x) (hs : statics y = statics x) : ValidRow y := by
  have hvalid : ValidRow (statics x) := ⟨h.1, h.2, h.3, h.4, h.5, h.6, h.7, h.8⟩
  rw [← hs] at hvalid
  exact ⟨hvalid.1, hvalid.2, hvalid.3, hvalid.4, hvalid.5, hvalid.6, hvalid.7, hvalid.8⟩

theorem Twins.of_statics {x' y' : Xreq} (h : Twins x y) (hx : statics x' = statics x) (hy : statics y' = statics y) :
    Twins x' y' := by
  have htwins : Twins (statics x) (statics y) := ⟨h.1, h.2, h.3⟩
  rw [← hx, ← hy] at htwins
  exact ⟨htwins.1, htwins.2, htwins.3⟩

theorem Twins.termsFit (h : Twins x y) : TermsFit x y := ⟨h.quoteAsset, h.pledge.ge, h.paymentTime.ge⟩

theorem TermsFit.of_statics {x' y' : Xreq} (h : TermsFit x y) (hx : statics x' = statics x)
    (hy : statics y' = statics y) : TermsFit x' y' := by
  have hfit : TermsFit (statics x) (statics y) := ⟨h.1, h.2, h.3⟩
  rw [← hx, ← hy] at hfit
  exact ⟨hfit.1, hfit.2, hfit.3⟩

/-- No row is on both sides. -/
theorem ValidRow.isSeller_eq (h : ValidRow x) : x.isSeller = !x.isBuyer ∨ (x.isSeller = false ∧ x.isBuyer = false) := by
  have htype := h.type
  unfold Xreq.isSeller Xreq.isBuyer
  cases hx : x.type <;> simp_all [XtxType.isSeller, XtxType.isBuyer]

theorem ValidRow.not_isSeller (h : ValidRow x) (hb : x.isBuyer = true) : x.isSeller = false := by
  rcases h.isSeller_eq with hs | hs
  · simp [hs, hb]
  · exact hs.1

theorem SameRequest.refl (x : Xreq) : SameRequest x x := ⟨rfl, .inl rfl⟩

theorem SameRequest.trans (h : SameRequest x y) (h' : SameRequest y z) : SameRequest x z := by
  refine ⟨h'.statics.trans h.statics, ?_⟩
  rcases h'.linkedSeqnum with hl | hl
  · rw [hl]
    exact h.linkedSeqnum
  · exact .inr hl

end Rows

/-- The invariant of the table, with the counters of sequence numbers and of request numbers. -/
structure TableInv (t : XreqTable) (nextSeqnum nextXreqnum : ℕ) : Prop where
  valid : ∀ r ∈ t, ValidRow r
  openAmount : ∀ r ∈ t, r.openAmount ≠ 0 ∧ r.openAmount ≤ r.maxAmount
  seqnum : ∀ r ∈ t, 0 < r.seqnum ∧ r.seqnum < nextSeqnum ∧ r.linkedSeqnum < nextSeqnum
  xreqnum : ∀ r ∈ t, r.xreqnum < nextXreqnum
  unique : ∀ r ∈ t, ∀ r' ∈ t, r.xreqnum ≠ 0 → r.xreqnum = r'.xreqnum → r = r'
  twins : ∀ r ∈ t, ∀ r' ∈ t, r.xreqnum ≠ 0 → r'.xreqnum ≠ 0 → r.linkedSeqnum = r'.seqnum →
    r'.linkedSeqnum = r.seqnum → Twins r r'

section Table
variable {t t' : XreqTable} {nextSeqnum nextXreqnum : ℕ} {r r' : Xreq}

theorem TableInv.empty : TableInv KeyedTable.empty nextSeqnum nextXreqnum := by
  constructor <;> exact fun r hr => absurd hr (KeyedTable.not_mem_empty r)

/-- Steps that change only dynamic columns and delete rows keep the invariant. -/
theorem TableInv.of_rows (h : TableInv t nextSeqnum nextXreqnum)
    (hrows : ∀ y ∈ t', ∃ x ∈ t, y.seqnum = x.seqnum ∧ SameRequest x y)
    (hopen : ∀ r ∈ t', r.openAmount ≠ 0 ∧ r.openAmount ≤ r.maxAmount) : TableInv t' nextSeqnum nextXreqnum where
  valid y hy := by
    obtain ⟨x, hx, -, hsame⟩ := hrows y hy
    exact (h.valid x hx).of_statics hsame.statics
  openAmount := hopen
  seqnum y hy := by
    obtain ⟨x, hx, hkey, hsame⟩ := hrows y hy
    obtain ⟨hpos, hlt, hlinked⟩ := h.seqnum x hx
    refine ⟨by omega, by omega, ?_⟩
    rcases hsame.linkedSeqnum with hl | hl <;> omega
  xreqnum y hy := by
    obtain ⟨x, hx, -, hsame⟩ := hrows y hy
    rw [xreqnum_of_statics hsame.statics]
    exact h.xreqnum x hx
  unique y hy y' hy' hne heq := by
    obtain ⟨x, hx, hkey, hsame⟩ := hrows y hy
    obtain ⟨x', hx', hkey', hsame'⟩ := hrows y' hy'
    rw [xreqnum_of_statics hsame.statics] at hne heq
    rw [xreqnum_of_statics hsame'.statics] at heq
    have := h.unique x hx x' hx' hne heq
    exact KeyedTable.eq_of_key hy hy' (by rw [hkey, hkey', this])
  twins y hy y' hy' hne hne' hl hl' := by
    obtain ⟨x, hx, hkey, hsame⟩ := hrows y hy
    obtain ⟨x', hx', hkey', hsame'⟩ := hrows y' hy'
    rw [xreqnum_of_statics hsame.statics] at hne
    rw [xreqnum_of_statics hsame'.statics] at hne'
    have hpos := (h.seqnum x hx).1
    have hpos' := (h.seqnum x' hx').1
    -- sequence numbers are positive, so that a cleared link leads nowhere
    have hlinked : x.linkedSeqnum = x'.seqnum := by
      rcases hsame.linkedSeqnum with h0 | h0 <;> omega
    have hlinked' : x'.linkedSeqnum = x.seqnum := by
      rcases hsame'.linkedSeqnum with h0 | h0 <;> omega
    exact (h.twins x hx x' hx' hne hne' hlinked hlinked').of_statics hsame.statics hsame'.statics

theorem TableInv.of_subset (h : TableInv t nextSeqnum nextXreqnum) (hsub : ∀ r ∈ t', r ∈ t) :
    TableInv t' nextSeqnum nextXreqnum :=
  h.of_rows (fun r hr => ⟨r, hsub r hr, rfl, .refl r⟩) fun r hr => h.openAmount r (hsub r hr)

theorem TableInv.mono {nextSeqnum' nextXreqnum' : ℕ} (h : TableInv t nextSeqnum nextXreqnum)
    (hs : nextSeqnum ≤ nextSeqnum') (hx : nextXreqnum ≤ nextXreqnum') : TableInv t nextSeqnum' nextXreqnum' where
  valid := h.valid
  openAmount := h.openAmount
  seqnum r hr := ⟨(h.seqnum r hr).1, (h.seqnum r hr).2.1.trans_le hs, (h.seqnum r hr).2.2.trans_le hs⟩
  xreqnum r hr := (h.xreqnum r hr).trans_le hx
  unique := h.unique
  twins := h.twins

end Table

/-- The buyer and the seller of a pending match, which is stored in the row of the seller. -/
structure PendingPair (epoch : ℕ) (f : PendingMatch) (b r : Xreq) : Prop where
  isBuyer : b.isBuyer = true
  buyerXreqnum : b.xreqnum = f.buyerXreqnum
  isSeller : r.isSeller = true
  sellerXreqnum : r.xreqnum = f.sellerXreqnum
  order : r.pendingMatchOrder = f.order
  amount : r.pendingMatchAmount = f.amount
  rate : r.pendingMatchRate = f.rate
  holdTime : r.pendingMatchHoldTime = 0
  epoch : r.pendingMatchEpoch = epoch
  bestOtherSeqnum : r.bestOtherSeqnum = f.buyer
  bestOtherXreqnum : r.bestOtherXreqnum = f.buyerXreqnum
  matchingAmount : r.matchingAmount = 0
  amount_le : f.amount ≤ r.openAmount
  terms : TermsFit b r

/-- What the matches of a list take of a buyer. -/
def claimed (found : List PendingMatch) (buyer : ℕ) : ℕ := ((found.filter (·.buyer = buyer)).map (·.amount)).sum

/-- A row that waits to be made persistent. -/
def isPending (x : Xreq) : Bool := 0 < x.pendingMatchOrder

/-- The invariant of a round: the matches that were found are those that are pending, each in the row of its
seller; and of no buyer they take more than its open amount, of which they leave the matching amount. -/
structure RoundInv (t : XreqTable) (found : List PendingMatch) (epoch : ℕ) : Prop where
  lists : t.Lists isPending found PendingMatch.seller
  pair : ∀ f ∈ found, ∃ b r, t.select f.buyer = some b ∧ t.select f.seller = some r ∧ PendingPair epoch f b r
  terms : ∀ f ∈ found, 0 < f.amount ∧ 0 < f.rate ∧ 0 < f.order ∧ f.buyerXreqnum ≠ 0 ∧ f.sellerXreqnum ≠ 0
  sorted : found.Pairwise fun f g => f.order < g.order
  claimed_le : ∀ b ∈ t, claimed found b.seqnum + b.matchingAmount ≤ b.openAmount

/-- Two states of a row between which the search and matches on hold may lead. -/
structure Keeps (x y : Xreq) : Prop extends SameRequest x y where
  openAmount : y.openAmount = x.openAmount
  matchingAmount : y.matchingAmount ≤ x.matchingAmount
  order : y.pendingMatchOrder = x.pendingMatchOrder
  pending : x.pendingMatchOrder ≠ 0 → y.pendingMatchAmount = x.pendingMatchAmount ∧
    y.pendingMatchRate = x.pendingMatchRate ∧ y.pendingMatchHoldTime = x.pendingMatchHoldTime ∧
    y.pendingMatchEpoch = x.pendingMatchEpoch ∧ y.bestOtherSeqnum = x.bestOtherSeqnum ∧
    y.bestOtherXreqnum = x.bestOtherXreqnum

theorem Keeps.refl (x : Xreq) : Keeps x x :=
  { SameRequest.refl x with
    openAmount := rfl
    matchingAmount := le_refl _
    order := rfl
    pending := fun _ => ⟨rfl, rfl, rfl, rfl, rfl, rfl⟩ }

section Pairs
variable {epoch : ℕ} {f : PendingMatch} {b b' r r' : Xreq}

/-- A pair stays pending while its rows keep the columns that the match is stored in. -/
theorem PendingPair.of_keeps (h : PendingPair epoch f b r) (hf : 0 < f.order) (hb : statics b' = statics b)
    (hr : Keeps r r') : PendingPair epoch f b' r' := by
  have horder : r.pendingMatchOrder ≠ 0 := by
    rw [h.order]
    omega
  obtain ⟨hamount, hrate, hhold, hepoch, hother, hotherX⟩ := hr.pending horder
  exact {
    isBuyer := (isBuyer_of_statics hb).trans h.isBuyer
    buyerXreqnum := (xreqnum_of_statics hb).trans h.buyerXreqnum
    isSeller := (isSeller_of_statics hr.statics).trans h.isSeller
    sellerXreqnum := (xreqnum_of_statics hr.statics).trans h.sellerXreqnum
    order := hr.order.trans h.order
    amount := hamount.trans h.amount
    rate := hrate.trans h.rate
    holdTime := hhold.trans h.holdTime
    epoch := hepoch.trans h.epoch
    bestOtherSeqnum := hother.trans h.bestOtherSeqnum
    bestOtherXreqnum := hotherX.trans h.bestOtherXreqnum
    matchingAmount := Nat.le_zero.1 (h.matchingAmount ▸ hr.matchingAmount)
    amount_le := hr.openAmount ▸ h.amount_le
    terms := h.terms.of_statics hb hr.statics }

end Pairs

section Round
variable {t t' : XreqTable} {found : List PendingMatch} {epoch : ℕ} {r : Xreq}

/-- A row that has something left to match is not pending. -/
theorem RoundInv.order_eq_zero (h : RoundInv t found epoch) (hr : r ∈ t) (hm : r.matchingAmount ≠ 0) :
    r.pendingMatchOrder = 0 := by
  by_contra horder
  obtain ⟨f, hf, hseller⟩ := h.lists.named r hr (by simp [isPending, Nat.pos_of_ne_zero horder])
  obtain ⟨_, r', _, hsel, hpair⟩ := h.pair f hf
  rw [hseller, KeyedTable.select_key hr] at hsel
  cases hsel
  exact hm hpair.matchingAmount

/-- A pending row is that of a seller, with the epoch of the round. -/
theorem RoundInv.of_pending (h : RoundInv t found epoch) (hr : r ∈ t) (horder : r.pendingMatchOrder ≠ 0) :
    r.isSeller = true ∧ r.pendingMatchEpoch = epoch := by
  obtain ⟨f, hf, hseller⟩ := h.lists.named r hr (by simp [isPending, Nat.pos_of_ne_zero horder])
  obtain ⟨_, r', _, hsel, hpair⟩ := h.pair f hf
  rw [hseller, KeyedTable.select_key hr] at hsel
  cases hsel
  exact ⟨hpair.isSeller, hpair.epoch⟩

/-- Steps that keep the rows keep the invariant. -/
theorem RoundInv.of_rel (h : RoundInv t found epoch) (hrel : KeyedTable.Rel Keeps t t') : RoundInv t' found epoch where
  lists := by
    refine ⟨h.lists.nodup, fun f hf => ?_, fun y hy hp => ?_⟩
    · obtain ⟨x, hx, hkey, hp⟩ := h.lists.row f hf
      obtain ⟨y, hy, hkey', hkeeps⟩ := hrel.mem x hx
      exact ⟨y, hy, hkey'.trans hkey, by rwa [isPending, hkeeps.order]⟩
    · obtain ⟨x, hx, hkey, hkeeps⟩ := hrel.mem_right y hy
      rw [isPending, hkeeps.order] at hp
      obtain ⟨f, hf, hseller⟩ := h.lists.named x hx hp
      exact ⟨f, hf, hseller.trans hkey.symm⟩
  pair f hf := by
    obtain ⟨b, x, hb, hx, hpair⟩ := h.pair f hf
    obtain ⟨b', hb', hkeepsb⟩ := hrel.select hb
    obtain ⟨y, hy, hkeeps⟩ := hrel.select hx
    exact ⟨b', y, hb', hy, hpair.of_keeps (h.terms f hf).2.2.1 hkeepsb.statics hkeeps⟩
  terms := h.terms
  sorted := h.sorted
  claimed_le y hy := by
    obtain ⟨x, hx, hkey, hkeeps⟩ := hrel.mem_right y hy
    have := h.claimed_le x hx
    rw [hkey, hkeeps.openAmount]
    exact (Nat.add_le_add_left hkeeps.matchingAmount _).trans this

/-- The invariant between rounds: nothing is pending. -/
theorem RoundInv.nil (horder : ∀ r ∈ t, r.pendingMatchOrder = 0) (hopen : ∀ r ∈ t, r.matchingAmount ≤ r.openAmount) :
    RoundInv t [] epoch where
  lists := by
    refine ⟨List.nodup_nil, fun f hf => absurd hf List.not_mem_nil, fun r hr hp => ?_⟩
    simp [isPending, horder r hr] at hp
  pair f hf := absurd hf List.not_mem_nil
  terms f hf := absurd hf List.not_mem_nil
  sorted := .nil
  claimed_le b hb := by simpa [claimed] using hopen b hb

theorem RoundInv.order_of_nil (h : RoundInv t [] epoch) (hr : r ∈ t) : r.pendingMatchOrder = 0 := by
  by_contra horder
  obtain ⟨f, hf, -⟩ := h.lists.named r hr (by simp [isPending, Nat.pos_of_ne_zero horder])
  exact absurd hf List.not_mem_nil

end Round

end CredaCash.Exchange
