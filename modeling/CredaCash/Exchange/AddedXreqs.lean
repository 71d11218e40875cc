import CredaCash.Exchange.PersistMatches

/-! Requests come into the table of the exchange: what validation ensures of their columns, and the invariants of
the exchange after they are added. -/

namespace CredaCash.Exchange
open Checks KeyedTable Wire Chain

section Validation
variable {env : Env} {tx : TxPay} {x : Xreq}

/-- A request that was validated: its terms are those of a row, and nothing of it has been matched. -/
structure CheckedXreq (x : Xreq) : Prop extends Unmatched x where
  maxAmount : x.maxAmount ≠ 0
  destination : x.destination ≠ 0
  baseAsset : x.baseAsset = 0
  foreignAsset : x.foreignAsset = ""
  consideration : x.considerationRequired = 0
  acceptTime : x.acceptTimeRequired = 0
  autoAccept : x.autoAcceptMatches = true
  foreignAddress : x.isSeller = true → x.foreignAddress ≠ ""

/-- A seller on a known blockchain has a foreign address. -/
theorem foreignAddress_ne (h : checkForeignAddress x = false) (hasset : blockchainBtc ≤ x.quoteAsset ∧
    x.quoteAsset ≤ blockchainBch) (hseller : x.isSeller = true) : x.foreignAddress ≠ "" := by
  intro hempty
  obtain ⟨hlow, hhigh⟩ := hasset
  have hquote : x.quoteAsset = 1 ∨ x.quoteAsset = 2 := by
    simp only [blockchainBtc, blockchainBch] at hlow hhigh
    omega
  unfold checkForeignAddress at h
  rw [hseller, hempty] at h
  rcases hquote with hq | hq <;> simp [hq, blockchainBtc, blockchainBch] at h

theorem extractXtx_xreq (h : extractXtx env tx = some (.xreq x)) : Unmatched x ∧ checkForeignAddress x = false := by
  unfold extractXtx at h
  split at h
  next type htype =>
    split at h
    next xtx hparse =>
      obtain rfl := Option.some.inj h
      exact xtxFromWire_xreq _ _ _ _ _ _ (Prod.ext hparse rfl) x rfl
    next => cases h
  next => cases h

theorem validXreq_checked (h : validXreq env tx = some x) : CheckedXreq x := by
  unfold validXreq at h
  split at h
  next y hextract =>
    split_ifs at h with hok
    cases h
    simp only [checkXreqValues, reject_bind_eq_ok, reject_eq_ok] at hok
    obtain ⟨-, hdest, -, hmax, -, -, -, -, -, hbase, hquote, -, hcons, -, -, -, -, -, haccept, -, -, -, -, hauto, -, -, -,
      hasset⟩ := hok
    obtain ⟨hunmatched, haddress⟩ := extractXtx_xreq hextract
    rw [not_or, not_lt, not_lt] at hquote
    exact {
      toUnmatched := hunmatched
      maxAmount := fun hzero => hmax (by simp [checkXreqAmount, hzero])
      destination := hdest
      baseAsset := not_not.1 hbase
      foreignAsset := not_not.1 hasset
      consideration := not_not.1 hcons
      acceptTime := not_not.1 haccept
      autoAccept := Bool.not_eq_false _ ▸ hauto
      foreignAddress := foreignAddress_ne haddress hquote }
  next => cases h

end Validation

section Rows
variable {t t₁ t' : XreqTable} {found : List PendingMatch} {nextSeqnum nextSeqnum' nextXreqnum epoch : ℕ} {x : Xreq}
  {saved : Saved}

/-- A row that is added: a request of which nothing was matched, with a number that is zero or new. -/
structure NewRow (t : XreqTable) (saved : Saved) (nextXreqnum : ℕ) (x : Xreq) : Prop where
  valid : ValidRow x
  openAmount : x.openAmount ≠ 0 ∧ x.openAmount = x.maxAmount
  matchingAmount : x.matchingAmount = 0
  order : x.pendingMatchOrder = 0
  xreqnum : x.xreqnum < nextXreqnum
  unused : x.xreqnum ≠ 0 → (∀ r ∈ t, r.xreqnum ≠ x.xreqnum) ∧ ∀ q ∈ saved.requests, q.req.xreqnum ≠ x.xreqnum
  twins : x.xreqnum ≠ 0 → ∀ r ∈ t, r.xreqnum ≠ 0 → x.linkedSeqnum = r.seqnum → Twins x r

theorem NewRow.withSeqnum (h : NewRow t saved nextXreqnum x) (hsub : ∀ r ∈ t₁, r ∈ t) (k : ℕ) :
    NewRow t₁ saved nextXreqnum { x with seqnum := k } where
  valid := ⟨h.valid.1, h.valid.2, h.valid.3, h.valid.4, h.valid.5, h.valid.6, h.valid.7, h.valid.8⟩
  openAmount := h.openAmount
  matchingAmount := h.matchingAmount
  order := h.order
  xreqnum := h.xreqnum
  unused hne := ⟨fun r hr => (h.unused hne).1 r (hsub r hr), (h.unused hne).2⟩
  twins hne r hr hne' hl := by
    have htwins := h.twins hne r (hsub r hr) hne' hl
    exact ⟨htwins.1, htwins.2, htwins.3⟩

theorem Twins.symm {y : Xreq} (h : Twins x y) : Twins y x := ⟨h.1.symm, h.2.symm, h.3.symm⟩

theorem TableInv.insert (h : TableInv t nextSeqnum nextXreqnum) (hx : NewRow t saved nextXreqnum x)
    (hseq : 0 < x.seqnum ∧ x.seqnum < nextSeqnum ∧ x.linkedSeqnum < nextSeqnum)
    (hmem : ∀ r, r ∈ t' ↔ r = x ∨ r ∈ t) : TableInv t' nextSeqnum nextXreqnum where
  valid r hr := by
    rcases (hmem r).1 hr with rfl | hr
    · exact hx.valid
    · exact h.valid r hr
  openAmount r hr := by
    rcases (hmem r).1 hr with rfl | hr
    · exact ⟨hx.openAmount.1, hx.openAmount.2.le⟩
    · exact h.openAmount r hr
  seqnum r hr := by
    rcases (hmem r).1 hr with rfl | hr
    · exact hseq
    · exact h.seqnum r hr
  xreqnum r hr := by
    rcases (hmem r).1 hr with rfl | hr
    · exact hx.xreqnum
    · exact h.xreqnum r hr
  unique r hr r' hr' hne heq := by
    rcases (hmem r).1 hr with rfl | hr <;> rcases (hmem r').1 hr' with rfl | hr'
    · rfl
    · exact absurd heq.symm ((hx.unused hne).1 r' hr')
    · exact absurd heq ((hx.unused (heq ▸ hne)).1 r hr)
    · exact h.unique r hr r' hr' hne heq
  twins r hr r' hr' hne hne' hl hl' := by
    rcases (hmem r).1 hr with rfl | hr <;> rcases (hmem r').1 hr' with rfl | hr'
    · exact ⟨rfl, rfl, rfl⟩
    · exact hx.twins hne r' hr' hne' hl
    · exact (hx.twins hne' r hr hne hl').symm
    · exact h.twins r hr r' hr' hne hne' hl hl'

/-- The rows of the matches that were found have numbers, and stay when a row without number goes. -/
theorem RoundInv.keep (h : RoundInv t found epoch) (hsub : ∀ r ∈ t₁, r ∈ t) (hkeeps : ∀ r ∈ t, r.xreqnum ≠ 0 → r ∈ t₁) :
    RoundInv t₁ found epoch where
  lists := by
    refine ⟨h.lists.nodup, fun f hf => ?_, fun y hy hp => h.lists.named y (hsub y hy) hp⟩
    obtain ⟨r, hr, hkey, hp⟩ := h.lists.row f hf
    obtain ⟨_, r', _, hr', hpair⟩ := h.pair f hf
    rw [← hkey, select_key hr] at hr'
    cases hr'
    exact ⟨r, hkeeps r hr (hpair.sellerXreqnum.trans_ne (h.terms f hf).2.2.2.2), hkey, hp⟩
  pair f hf := by
    obtain ⟨b, r, hb, hr, hpair⟩ := h.pair f hf
    have hb' := hkeeps b (mem_of_select hb) (hpair.buyerXreqnum.trans_ne (h.terms f hf).2.2.2.1)
    have hr' := hkeeps r (mem_of_select hr) (hpair.sellerXreqnum.trans_ne (h.terms f hf).2.2.2.2)
    exact ⟨b, r, select_eq_some.2 ⟨hb', key_of_select hb⟩, select_eq_some.2 ⟨hr', key_of_select hr⟩, hpair⟩
  terms := h.terms
  sorted := h.sorted
  claimed_le b hb := h.claimed_le b (hsub b hb)

theorem claimed_eq_zero {k : ℕ} (h : ∀ f ∈ found, f.buyer ≠ k) : claimed found k = 0 := by
  have hnone : found.filter (fun f => f.buyer = k) = [] := by
    refine List.filter_eq_nil_iff.2 fun f hf => ?_
    simpa using h f hf
  rw [claimed, hnone]
  rfl

theorem RoundInv.insert (h : RoundInv t found epoch) (horder : x.pendingMatchOrder = 0) (hm : x.matchingAmount = 0)
    (hfresh : ∀ r ∈ t, r.seqnum ≠ x.seqnum) (hmem : ∀ r, r ∈ t' ↔ r = x ∨ r ∈ t) : RoundInv t' found epoch where
  lists := by
    refine ⟨h.lists.nodup, fun f hf => ?_, fun y hy hp => ?_⟩
    · obtain ⟨r, hr, hkey, hp⟩ := h.lists.row f hf
      exact ⟨r, (hmem r).2 (.inr hr), hkey, hp⟩
    · rcases (hmem y).1 hy with rfl | hy
      · rw [isPending, horder] at hp
        cases hp
      · exact h.lists.named y hy hp
  pair f hf := by
    obtain ⟨b, r, hb, hr, hpair⟩ := h.pair f hf
    exact ⟨b, r, select_eq_some.2 ⟨(hmem b).2 (.inr (mem_of_select hb)), key_of_select hb⟩,
      select_eq_some.2 ⟨(hmem r).2 (.inr (mem_of_select hr)), key_of_select hr⟩, hpair⟩
  terms := h.terms
  sorted := h.sorted
  claimed_le b hb := by
    rcases (hmem b).1 hb with rfl | hb
    · have hzero : claimed found b.seqnum = 0 := claimed_eq_zero fun f hf heq => by
        obtain ⟨b', _, hb', _⟩ := h.pair f hf
        exact hfresh b' (mem_of_select hb') ((key_of_select hb').trans heq)
      omega
    · exact h.claimed_le b hb

/-- A number that no saved request has is not that of a match. -/
theorem SavedInv.filled_eq_zero (h : SavedInv t saved nextXreqnum) {n : ℕ}
    (hn : ∀ q ∈ saved.requests, q.req.xreqnum ≠ n) : filled saved n = 0 := by
  have hnone : saved.xmatches.filter (fun m => m.buyXreqnum = n ∨ m.sellXreqnum = n) = [] := by
    refine List.filter_eq_nil_iff.2 fun m hm hp => ?_
    obtain ⟨⟨q, hq, hbuy⟩, q', hq', hsell⟩ := h.known m hm
    rcases of_decide_eq_true hp with heq | heq
    · exact hn q hq (hbuy.trans heq)
    · exact hn q' hq' (hsell.trans heq)
  rw [filled, hnone]
  rfl

theorem SavedInv.insert (h : SavedInv t saved nextXreqnum) (hx : NewRow t saved nextXreqnum x)
    (hmem : ∀ r, r ∈ t' ↔ r = x ∨ r ∈ t) : SavedInv t' saved nextXreqnum where
  filled_add r hr hne := by
    rcases (hmem r).1 hr with rfl | hr
    · rw [h.filled_eq_zero (hx.unused hne).2, Nat.zero_add]
      exact hx.openAmount.2
    · exact h.filled_add r hr hne
  filled_le := h.filled_le
  maxAmount r hr hne q hq heq := by
    rcases (hmem r).1 hr with rfl | hr
    · exact absurd heq ((hx.unused hne).2 q hq)
    · exact h.maxAmount r hr hne q hq heq
  lt := h.lt
  known := h.known

/-- A request of the table is saved. -/
theorem SavedInv.addRequest (h : SavedInv t saved nextXreqnum) (htable : TableInv t nextSeqnum nextXreqnum) (hx : x ∈ t)
    (hne : x.xreqnum ≠ 0) (openAmount : ℕ) (d : Disposition) :
    SavedInv t { saved with requests := xmatchreqInsert saved.requests x openAmount d } nextXreqnum where
  filled_add := h.filled_add
  filled_le q hq := by
    rcases mem_xmatchreqInsert hq with ⟨q', hq', heq⟩ | heq
    · rw [heq]
      exact h.filled_le q' hq'
    · rw [heq]
      exact (Nat.le_add_right _ _).trans (h.filled_add x hx hne).le
  maxAmount r hr hne' q hq heq := by
    rcases mem_xmatchreqInsert hq with ⟨q', hq', hreq⟩ | hreq
    · rw [hreq] at heq ⊢
      exact h.maxAmount r hr hne' q' hq' heq
    · rw [hreq] at heq ⊢
      rw [htable.unique x hx r hr hne heq]
  lt q hq := by
    rcases mem_xmatchreqInsert hq with ⟨q', hq', heq⟩ | heq
    · rw [heq]
      exact h.lt q' hq'
    · rw [heq]
      exact htable.xreqnum x hx
  known m hm := by
    have hkeep {n : ℕ} (hn : ∃ q ∈ saved.requests, q.req.xreqnum = n) :
        ∃ q ∈ xmatchreqInsert saved.requests x openAmount d, q.req.xreqnum = n := by
      obtain ⟨q, hq, rfl⟩ := hn
      obtain ⟨q', hq', heq⟩ := xmatchreqInsert_keeps hq
      exact ⟨q', hq', congrArg Xreq.xreqnum heq⟩
    exact ⟨hkeep (h.known m hm).1, hkeep (h.known m hm).2⟩

end Rows

/-- The invariant of the exchange of a node. -/
structure ExchangeInv (s : ExchangeState) : Prop where
  table : TableInv s.loop.table s.nextSeqnum s.nextXreqnum
  round : RoundInv s.loop.table s.loop.found (s.matchingBlockTime / matchingSecsPerEpoch)
  saved : SavedInv s.loop.table s.saved s.nextXreqnum
  index : 0 < s.loop.nextMatchIndex ∧ ∀ f ∈ s.loop.found, f.order < s.loop.nextMatchIndex
  first : s.loop.firstPass = true → s.loop.found = [] ∧ s.loop.continues = true
  numbers : 0 < s.nextSeqnum ∧ 0 < s.nextXreqnum

/-- What an added request leaves of the exchange: its matches, found and saved. -/
def SameMatching (s s' : ExchangeState) : Prop :=
  s'.loop.found = s.loop.found ∧ s'.saved.xmatches = s.saved.xmatches

theorem SameMatching.trans {s s₁ s₂ : ExchangeState} (h : SameMatching s s₁) (h' : SameMatching s₁ s₂) :
    SameMatching s s₂ := ⟨h'.1.trans h.1, h'.2.trans h.2⟩

section Added
variable {env : Env} {s s' : ExchangeState} {x row : Xreq}

theorem ExchangeInv.drawSeqnum (h : ExchangeInv s) : ExchangeInv s.drawSeqnum where
  table := h.table.mono (Nat.le_succ _) le_rfl
  round := h.round
  saved := h.saved
  index := h.index
  first := h.first
  numbers := ⟨Nat.succ_pos _, h.numbers.2⟩

theorem ExchangeInv.drawXreqnum (h : ExchangeInv s) : ExchangeInv s.drawXreqnum where
  table := h.table.mono le_rfl (Nat.le_succ _)
  round := h.round
  saved := { h.saved with lt := fun q hq => (h.saved.lt q hq).trans (Nat.lt_succ_self _) }
  index := h.index
  first := h.first
  numbers := ⟨h.numbers.1, Nat.succ_pos _⟩

/-- What the addition of a row does to the exchange. -/
structure RowAdded (s s' : ExchangeState) (x : Xreq) (row : Option Xreq) : Prop where
  inv : ExchangeInv s'
  found : s'.loop.found = s.loop.found
  saved : s'.saved = s.saved
  nextXreqnum : s'.nextXreqnum = s.nextXreqnum
  rows : ∀ r ∈ s'.loop.table, r ∈ s.loop.table ∨ row = some r
  row : ∀ r, row = some r → r ∈ s'.loop.table ∧ r = { x with seqnum := r.seqnum }

/-- A request is added to the table, with the sequence number that it has or gets. -/
theorem ExchangeInv.addRow (h : ExchangeInv s) (env : Env)
    (hx : NewRow s.loop.table s.saved s.nextXreqnum (addRequest env.conv x))
    (hseq : x.seqnum < s.nextSeqnum) (hlinked : x.linkedSeqnum < s.nextSeqnum) :
    RowAdded s (s.addRow env x).1 (addRequest env.conv x) (s.addRow env x).2 := by
  obtain ⟨t₁, x₁, hreplaces, hcases⟩ := xreqsInsert_cases s.loop.table s.nextSeqnum (addRequest env.conv x)
  have htable₁ := (h.table.of_subset hreplaces.subset).mono hreplaces.next_le le_rfl
  have hround₁ := h.round.keep hreplaces.subset hreplaces.keeps
  have hsaved₁ := h.saved.of_subset hreplaces.subset
  have hnew := hx.withSeqnum hreplaces.subset x₁.seqnum
  rw [← hreplaces.row] at hnew
  have hlink := congrArg Xreq.linkedSeqnum hreplaces.row
  change x₁.linkedSeqnum = x.linkedSeqnum at hlink
  have hnumber : 0 < x₁.seqnum ∧ x₁.seqnum < (xreqsInsert s.loop.table s.nextSeqnum (addRequest env.conv x)).2.1 := by
    have hle := hreplaces.next_le
    rcases hreplaces.seqnum with ⟨heq, hne⟩ | ⟨heq, hlt⟩ | ⟨r, hr, heq⟩
    · have heq' : x₁.seqnum = x.seqnum := heq
      have hne' : x.seqnum ≠ 0 := hne
      omega
    · have := h.numbers.1
      omega
    · have := h.table.seqnum r hr
      omega
  have hle := hreplaces.next_le
  have hrow := hreplaces.row
  have hsub := hreplaces.subset
  unfold ExchangeState.addRow
  clear hreplaces hx
  generalize xreqsInsert s.loop.table s.nextSeqnum (addRequest env.conv x) = p at *
  obtain ⟨table, next, row⟩ := p
  dsimp only at *
  rcases hcases with ⟨rfl, rfl⟩ | ⟨rfl, hfresh, hmem⟩
  · exact {
      inv := ⟨htable₁, hround₁, hsaved₁, h.index, h.first, h.numbers.1.trans_le hle, h.numbers.2⟩
      found := rfl
      saved := rfl
      nextXreqnum := rfl
      rows := fun r hr => .inl (hsub r hr)
      row := fun _ hrow => by cases hrow }
  · have hlinked₁ : x₁.linkedSeqnum < next := by omega
    exact {
      inv := ⟨htable₁.insert hnew ⟨hnumber.1, hnumber.2, hlinked₁⟩ hmem,
        hround₁.insert hnew.order hnew.matchingAmount hfresh hmem, hsaved₁.insert hnew hmem, h.index, h.first,
        h.numbers.1.trans_le hle, h.numbers.2⟩
      found := rfl
      saved := rfl
      nextXreqnum := rfl
      rows := fun r hr => ((hmem r).1 hr).symm.imp (hsub r) fun heq => congrArg some heq.symm
      row := fun r heq => by
        cases heq
        exact ⟨(hmem x₁).2 (.inl rfl), hrow⟩ }

/-- The requests of the table, and those that are saved, have smaller numbers. -/
structure Below (t : XreqTable) (rows : List XmatchreqRow) (n : ℕ) : Prop where
  table : ∀ r ∈ t, r.xreqnum < n
  requests : ∀ q ∈ rows, q.req.xreqnum < n

theorem ExchangeInv.below (h : ExchangeInv s) : Below s.loop.table s.saved.requests s.nextXreqnum :=
  ⟨h.table.xreqnum, h.saved.lt⟩

/-- A request that validation lets through, or a half of it, with the numbers that it is given. -/
structure FreshRow (x : Xreq) : Prop where
  valid : ValidRow x
  maxAmount : x.maxAmount ≠ 0
  matchingAmount : x.matchingAmount = 0
  order : x.pendingMatchOrder = 0

theorem CheckedXreq.freshRow (h : CheckedXreq x) (htype : x.type ≠ .miningTrade) : FreshRow x :=
  ⟨⟨htype, h.destination, h.baseAsset, h.foreignAsset, h.consideration, h.acceptTime, h.autoAccept, h.foreignAddress⟩,
    h.maxAmount, h.matchingAmount, h.pendingMatchOrder⟩

theorem CheckedXreq.freshBuy (h : CheckedXreq x) : FreshRow x.convertTradeToBuy := by
  refine ⟨⟨?_, h.destination, h.baseAsset, h.foreignAsset, h.consideration, h.acceptTime, h.autoAccept, ?_⟩,
    h.maxAmount, h.matchingAmount, h.pendingMatchOrder⟩
  · exact fun htype => by cases htype
  · exact fun hseller => by cases hseller

theorem CheckedXreq.freshSell (h : CheckedXreq x) (htype : x.type = .miningTrade) : FreshRow x.convertTradeToSell := by
  refine ⟨⟨?_, h.destination, h.baseAsset, h.foreignAsset, h.consideration, h.acceptTime, h.autoAccept, fun _ => ?_⟩,
    h.maxAmount, h.matchingAmount, h.pendingMatchOrder⟩
  · exact fun htype => by cases htype
  · exact h.foreignAddress (by rw [Xreq.isSeller, htype]; rfl)

/-- The numbers of a row have no part in what validation ensures. -/
theorem FreshRow.renumber (h : FreshRow x) (seqnum linkedSeqnum xreqnum objid blocktime : ℕ) :
    FreshRow { x with seqnum := seqnum, linkedSeqnum := linkedSeqnum, xreqnum := xreqnum, objid := objid,
                      blocktime := blocktime } :=
  ⟨⟨h.valid.1, h.valid.2, h.valid.3, h.valid.4, h.valid.5, h.valid.6, h.valid.7, h.valid.8⟩, h.maxAmount,
    h.matchingAmount, h.order⟩

theorem FreshRow.newRow (h : FreshRow x) {t : XreqTable} {saved : Saved} {nextXreqnum : ℕ}
    (hlt : x.xreqnum < nextXreqnum) (hunused : x.xreqnum ≠ 0 →
      (∀ r ∈ t, r.xreqnum ≠ x.xreqnum) ∧ ∀ q ∈ saved.requests, q.req.xreqnum ≠ x.xreqnum)
    (htwins : x.xreqnum ≠ 0 → ∀ r ∈ t, r.xreqnum ≠ 0 → x.linkedSeqnum = r.seqnum → Twins x r) :
    NewRow t saved nextXreqnum (addRequest env.conv x) where
  valid := ⟨h.valid.1, h.valid.2, h.valid.3, h.valid.4, h.valid.5, h.valid.6, h.valid.7, h.valid.8⟩
  openAmount := ⟨h.maxAmount, rfl⟩
  matchingAmount := h.matchingAmount
  order := h.order
  xreqnum := hlt
  unused := hunused
  twins hne r hr hne' hl := by
    have htwins := htwins hne r hr hne' hl
    exact ⟨htwins.1, htwins.2, htwins.3⟩

/-- A request from outside of a block, which has no number. -/
theorem ExchangeInv.addPendingRow (h : ExchangeInv s) (env : Env) (hx : FreshRow x) (hzero : x.xreqnum = 0)
    (hseq : x.seqnum < s.nextSeqnum) (hlinked : x.linkedSeqnum < s.nextSeqnum) :
    RowAdded s (s.addRow env x).1 (addRequest env.conv x) (s.addRow env x).2 :=
  h.addRow env (hx.newRow (hzero ▸ h.numbers.2) (fun hne => absurd hzero hne) fun hne => absurd hzero hne) hseq hlinked

theorem RowAdded.same {s₁ : ExchangeState} {row : Option Xreq} (h : RowAdded s s₁ x row) : SameMatching s s₁ :=
  ⟨h.found, congrArg Saved.xmatches h.saved⟩

/-- The halves of a mining trade, of which the second is linked to the row of the first. -/
theorem ExchangeInv.addPendingHalves {buy sell : Xreq} (h : ExchangeInv s) (env : Env) (hbuy : FreshRow buy)
    (hsell : FreshRow sell)
    (hzero : buy.xreqnum = 0 ∧ sell.xreqnum = 0) (hseq : buy.seqnum < s.nextSeqnum ∧ sell.seqnum < s.nextSeqnum)
    (hlinked : buy.linkedSeqnum = sell.seqnum) : ∀ s₁ row, s.addRow env buy = (s₁, row) →
      (ExchangeInv s₁ ∧ SameMatching s s₁) ∧ ∀ buy', row = some buy' →
        ExchangeInv (s₁.addRow env { sell with linkedSeqnum := buy'.seqnum }).1 ∧
          SameMatching s (s₁.addRow env { sell with linkedSeqnum := buy'.seqnum }).1 := by
  intro s₁ row heq
  have hadd := h.addPendingRow env hbuy hzero.1 hseq.1 (hlinked ▸ hseq.2)
  rw [heq] at hadd
  dsimp only at hadd
  refine ⟨⟨hadd.inv, hadd.same⟩, fun buy' hrow => ?_⟩
  obtain ⟨hmem, hcolumns⟩ := hadd.row buy' hrow
  have hseqnum := hadd.inv.table.seqnum buy' hmem
  have hlinked' := congrArg Xreq.linkedSeqnum hcolumns
  change buy'.linkedSeqnum = buy.linkedSeqnum at hlinked'
  have hlt : sell.seqnum < s₁.nextSeqnum := by omega
  have hadd' := hadd.inv.addPendingRow env
    (hsell.renumber sell.seqnum buy'.seqnum sell.xreqnum sell.objid sell.blocktime) hzero.2 hlt hseqnum.2.1
  exact ⟨hadd'.inv, hadd.same.trans hadd'.same⟩

/-- `AddPendingRequest` keeps the invariant, and the matches. -/
theorem ExchangeInv.addPendingRequest (h : ExchangeInv s) (hx : CheckedXreq x) (objid : ℕ) :
    ExchangeInv (addPendingRequest env s x objid) ∧ SameMatching s (addPendingRequest env s x objid) := by
  have hpos := h.numbers.1
  have hlink := hx.linkedSeqnum
  unfold Exchange.addPendingRequest
  by_cases htype : x.type ≠ .miningTrade
  · rw [if_pos htype]
    have hadd := h.drawSeqnum.addPendingRow env
      ((hx.freshRow htype).renumber s.nextSeqnum x.linkedSeqnum x.xreqnum objid x.blocktime) hx.xreqnum
      (Nat.lt_succ_self _) (Nat.lt_succ_of_lt (hlink ▸ hpos))
    exact ⟨hadd.inv, hadd.same⟩
  · rw [if_neg htype]
    have hhalves := h.drawSeqnum.drawSeqnum.addPendingHalves env
      (hx.freshBuy.renumber s.nextSeqnum (s.nextSeqnum + 1) x.xreqnum objid x.blocktime)
      ((hx.freshSell (not_not.1 htype)).renumber (s.nextSeqnum + 1) 0 0 (objid ^^^ 1) x.blocktime)
      ⟨hx.xreqnum, rfl⟩ ⟨Nat.lt_succ_of_lt (Nat.lt_succ_self _), Nat.lt_succ_self _⟩ rfl
    dsimp only
    split
    next s₁ heq => exact (hhalves s₁ none heq).1
    next s₁ buy heq => exact (hhalves s₁ (some buy) heq).2 buy rfl

/-- What `AddOneXreq` does to the exchange. -/
structure XreqAdded (s s' : ExchangeState) (x row : Xreq) : Prop where
  same : SameMatching s s'
  inv : ExchangeInv s'
  nextXreqnum : s'.nextXreqnum = s.nextXreqnum
  below : Below s'.loop.table s'.saved.requests (x.xreqnum + 1)
  mem : row ∈ s'.loop.table
  row : row = { x with seqnum := row.seqnum }

/-- A request of a block, which has a new number, is added and saved. -/
theorem ExchangeInv.addOneXreq {s' : ExchangeState} {row : Xreq} (h : ExchangeInv s) (hx : FreshRow x)
    (hnumber : x.xreqnum ≠ 0 ∧ x.xreqnum < s.nextXreqnum) (hbelow : Below s.loop.table s.saved.requests x.xreqnum)
    (hseq : x.seqnum < s.nextSeqnum) (hlinked : x.linkedSeqnum < s.nextSeqnum)
    (htwins : ∀ r ∈ s.loop.table, r.xreqnum ≠ 0 → x.linkedSeqnum = r.seqnum → Twins x r)
    (hadd : Exchange.addOneXreq env s x = some (s', row)) : XreqAdded s s' (addRequest env.conv x) row := by
  have hadded := h.addRow env (hx.newRow hnumber.2
    (fun _ => ⟨fun r hr => (hbelow.table r hr).ne, fun q hq => (hbelow.requests q hq).ne⟩) fun _ => htwins) hseq hlinked
  unfold Exchange.addOneXreq at hadd
  generalize s.addRow env x = p at hadd hadded
  obtain ⟨s₁, _ | row₁⟩ := p
  · cases hadd
  · cases hadd
    obtain ⟨hmem, hrow⟩ := hadded.row row rfl
    have hxreqnum := congrArg Xreq.xreqnum hrow
    change row.xreqnum = x.xreqnum at hxreqnum
    have hinv := hadded.inv
    exact {
      inv := { hinv with
        saved := hinv.saved.addRequest hinv.table hmem (hxreqnum.trans_ne hnumber.1) row.openAmount (disposition row) }
      same := hadded.same
      nextXreqnum := hadded.nextXreqnum
      below := by
        refine ⟨fun r hr => ?_, fun q hq => ?_⟩
        · rcases hadded.rows r hr with hr | hr
          · exact Nat.lt_succ_of_lt (hbelow.table r hr)
          · cases hr
            exact Nat.lt_succ_of_le hxreqnum.le
        · rcases mem_xmatchreqInsert hq with ⟨q', hq', heq⟩ | heq
          · rw [heq]
            rw [hadded.saved] at hq'
            exact Nat.lt_succ_of_lt (hbelow.requests q' hq')
          · rw [heq]
            exact Nat.lt_succ_of_le hxreqnum.le
      mem := hmem
      row := hrow }

/-- The halves of a mining trade in a block, which get links to each other. -/
theorem ExchangeInv.addHalves {buy sell row : Xreq} {s₁ s' : ExchangeState} (h : ExchangeInv s) (hbuy : FreshRow buy)
    (hsell : FreshRow sell) (htwins : Twins sell buy) (hbelow : Below s.loop.table s.saved.requests buy.xreqnum)
    (hpos : buy.xreqnum ≠ 0)
    (hnumber : sell.xreqnum = buy.xreqnum + 1 ∧ sell.xreqnum < s.nextXreqnum)
    (hseq : buy.seqnum < s.nextSeqnum ∧ sell.seqnum < s.nextSeqnum) (hlinked : buy.linkedSeqnum = sell.seqnum)
    (hunused : ∀ r ∈ s.loop.table, r.seqnum ≠ sell.seqnum) (hadd : Exchange.addOneXreq env s buy = some (s₁, row))
    (hadd' : (Exchange.addOneXreq env s₁ { sell with linkedSeqnum := row.seqnum }).map Prod.fst = some s') :
    ExchangeInv s' ∧ SameMatching s s' := by
  have hadded := h.addOneXreq hbuy ⟨hpos, by omega⟩ hbelow hseq.1 (hlinked ▸ hseq.2)
    (fun r hr _ heq => absurd (heq.symm.trans hlinked) (hunused r hr)) hadd
  have hseqnum := hadded.inv.table.seqnum row hadded.mem
  have hlinked' := congrArg Xreq.linkedSeqnum hadded.row
  change row.linkedSeqnum = buy.linkedSeqnum at hlinked'
  have htwins' : Twins sell row := by
    refine ⟨htwins.1.trans ?_, htwins.2.trans ?_, htwins.3.trans ?_⟩
    · exact (congrArg Xreq.quoteAsset hadded.row).symm
    · exact (congrArg Xreq.pledge hadded.row).symm
    · exact (congrArg Xreq.paymentTime hadded.row).symm
  have hnumber' : sell.xreqnum ≠ 0 ∧ sell.xreqnum < s₁.nextXreqnum := by
    rw [hadded.nextXreqnum]
    exact ⟨hnumber.1.trans_ne (Nat.succ_ne_zero _), hnumber.2⟩
  have hbelow' : Below s₁.loop.table s₁.saved.requests sell.xreqnum := hnumber.1 ▸ hadded.below
  have hlt : sell.seqnum < s₁.nextSeqnum := by omega
  obtain ⟨⟨s₂, row'⟩, hsecond, rfl⟩ := Option.map_eq_some_iff.1 hadd'
  have hadded' := hadded.inv.addOneXreq
    (hsell.renumber sell.seqnum row.seqnum sell.xreqnum sell.objid sell.blocktime) hnumber' hbelow' hlt hseqnum.2.1
    (fun r hr _ heq => by
      obtain rfl := KeyedTable.eq_of_key hadded.mem hr heq
      exact ⟨htwins'.1, htwins'.2, htwins'.3⟩) hsecond
  exact ⟨hadded'.inv, hadded.same.trans hadded'.same⟩

/-- `AddXreq` keeps the invariant, and the matches. -/
theorem ExchangeInv.addXreq {s' : ExchangeState} {objid : ℕ} (h : ExchangeInv s) (hx : CheckedXreq x)
    (hadd : Exchange.addXreq env s x objid = some s') : ExchangeInv s' ∧ SameMatching s s' := by
  have hpos := h.numbers
  have hlink := hx.linkedSeqnum
  have hzero := hx.seqnum
  unfold Exchange.addXreq at hadd
  by_cases htype : x.type ≠ .miningTrade
  · rw [if_pos htype] at hadd
    obtain ⟨⟨s₁, row⟩, hone, rfl⟩ := Option.map_eq_some_iff.1 hadd
    have hadded := h.drawXreqnum.addOneXreq
      ((hx.freshRow htype).renumber x.seqnum x.linkedSeqnum s.nextXreqnum objid s.timestamp)
      ⟨hpos.2.ne', Nat.lt_succ_self _⟩ h.below (hzero ▸ hpos.1) (hlink ▸ hpos.1) (fun r hr _ heq => ?_) hone
    · exact ⟨hadded.inv, hadded.same⟩
    · exact absurd (heq.symm.trans hlink) (h.table.seqnum r hr).1.ne'
  · rw [if_neg htype] at hadd
    obtain ⟨⟨s₁, row⟩, hbuy, hsell⟩ := Option.bind_eq_some_iff.1 hadd
    have hhalves := h.drawXreqnum.drawSeqnum.drawXreqnum.addHalves
      (hx.freshBuy.renumber x.seqnum s.nextSeqnum s.nextXreqnum objid s.timestamp)
      ((hx.freshSell (not_not.1 htype)).renumber s.nextSeqnum 0 (s.nextXreqnum + 1) (objid ^^^ 1) s.timestamp)
      ⟨rfl, rfl, rfl⟩ h.below hpos.2.ne' ⟨rfl, Nat.lt_succ_self _⟩ ⟨hzero ▸ Nat.succ_pos _, Nat.lt_succ_self _⟩ rfl
      (fun r hr => (h.table.seqnum r hr).2.1.ne) hbuy hsell
    exact hhalves

end Added

end CredaCash.Exchange
