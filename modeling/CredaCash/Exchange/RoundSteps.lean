import CredaCash.Checks
import CredaCash.Exchange.RoundInvariant

/-! What each step of a round of matching does to the rows, and from it what a whole round keeps. -/

namespace CredaCash.Exchange
open Checks KeyedTable

theorem ccassert_bind_eq_ok {β : Type} {p : Prop} [Decidable p] {a : Assertion} {f : Unit → Except Assertion β} {b : β} :
    (ccassert p a >>= f) = .ok b ↔ p ∧ f () = .ok b := by
  rw [bind_eq_ok]
  exact ⟨fun ⟨_, hp, h⟩ => ⟨ccassert_eq_ok.1 hp, h⟩, fun ⟨hp, h⟩ => ⟨(), ccassert_eq_ok.2 hp, h⟩⟩

section Search

/-- A row without what the search for the best match changes. -/
def eraseBest (x : Xreq) : Xreq :=
  { x with
    recalcTime := 0, changed := false, bestAmount := 0, bestRate := 0, bestNetRate := 0, bestOtherSeqnum := 0
    bestOtherXreqnum := 0, bestOtherMatchingAmount := 0, bestOtherNetRate := 0 }

theorem eraseBest_computeDiscount (x : Xreq) (rate : UniFloat) (hold blockTime : ℕ) :
    eraseBest (computeDiscount x rate hold blockTime).1 = eraseBest x := by
  unfold computeDiscount
  dsimp only
  split_ifs <;> rfl

/-- What `CheckMatch` does to a row before it compares rates. -/
theorem eraseBest_discount (hold : ℕ) (x : Xreq) (rate : UniFloat) (blockTime : ℕ) :
    eraseBest (if hold ≠ 0 then computeDiscount x rate hold blockTime else (x, rate)).1 = eraseBest x := by
  split_ifs
  · exact eraseBest_computeDiscount x rate hold blockTime
  · rfl

/-- What `CheckMatch` does to a row after it has compared rates. -/
theorem eraseBest_setMatch (better : Bool) (amount : ℕ) (rate : UniFloat) (hold : Bool) (self : Xreq)
    (selfNetRate : UniFloat) (other : Xreq) (otherNetRate : UniFloat) :
    eraseBest (if better then setMatch amount rate hold self selfNetRate other otherNetRate else self) =
      eraseBest self := by
  split_ifs <;> rfl

/-- `CheckMatch` either changes nothing or evaluates two rows that have something left to match, of which it changes
only what the search may change. -/
theorem checkMatch_rows {conv : AmountConv} {buyer seller buyer' seller' : Xreq} {blockTime : ℕ} {changed : Bool}
    (h : checkMatch conv buyer seller blockTime = .ok (changed, buyer', seller')) :
    (changed = false ∧ buyer' = buyer ∧ seller' = seller) ∨
      (buyer.matchingAmount ≠ 0 ∧ seller.matchingAmount ≠ 0 ∧ eraseBest buyer' = eraseBest buyer ∧
        eraseBest seller' = eraseBest seller) := by
  unfold checkMatch at h
  split_ifs at h with htypes
  · cases h
    exact .inl ⟨rfl, rfl, rfl⟩
  obtain ⟨_, hpre, h⟩ := bind_eq_ok.1 h
  simp only [checkMatchPre, ccassert_bind_eq_ok] at hpre
  cases hterms : matchTerms conv buyer seller with
  | none =>
    rw [hterms] at h
    cases h
    exact .inl ⟨rfl, rfl, rfl⟩
  | some t =>
    rw [hterms] at h
    obtain ⟨_, _, h⟩ := bind_eq_ok.1 h
    dsimp only at h
    by_cases hexpire : buyer.expireTime ≤ blockTime + computeMatchHold buyer seller blockTime ∨
        seller.expireTime ≤ blockTime + computeMatchHold buyer seller blockTime
    · rw [if_pos hexpire] at h
      cases h
      exact .inl ⟨rfl, rfl, rfl⟩
    rw [if_neg hexpire] at h
    cases h
    refine .inr ⟨hpre.2.2.2.2.2.2.1, hpre.2.2.2.1, ?_, ?_⟩
    · exact (eraseBest_setMatch _ _ _ _ _ _ _ _).trans (eraseBest_discount _ _ _ _)
    · exact (eraseBest_setMatch _ _ _ _ _ _ _ _).trans (eraseBest_discount _ _ _ _)

/-- The columns that are the same in a row and in a request that was loaded from it, apart from what the search
for the best match changes. -/
def eraseLoaded (x : Xreq) : Xreq := { eraseBest x with recalc := false }

/-- A request that was loaded from the table. -/
def Loaded (t : XreqTable) (x : Xreq) : Prop := ∃ row, t.select x.seqnum = some row ∧ eraseLoaded row = eraseLoaded x

end Search

section Loading
variable {t : XreqTable} {x y row : Xreq} {k : ℕ}

theorem Loaded.of_select (h : t.select k = some x) : Loaded t x :=
  ⟨x, (key_of_select h).symm ▸ h, rfl⟩

/-- A loaded request agrees with its row in the columns that matching reads. -/
structure SameColumns (row x : Xreq) : Prop where
  statics : statics x = statics row
  linkedSeqnum : x.linkedSeqnum = row.linkedSeqnum
  openAmount : x.openAmount = row.openAmount
  matchingAmount : x.matchingAmount = row.matchingAmount
  order : x.pendingMatchOrder = row.pendingMatchOrder
  epoch : x.pendingMatchEpoch = row.pendingMatchEpoch

theorem sameColumns_of_eraseLoaded (h : eraseLoaded row = eraseLoaded x) : SameColumns row x where
  statics := by
    have hs := congrArg Exchange.statics h.symm
    exact hs
  linkedSeqnum := by simpa only [eraseLoaded, eraseBest] using congrArg Xreq.linkedSeqnum h.symm
  openAmount := by simpa only [eraseLoaded, eraseBest] using congrArg Xreq.openAmount h.symm
  matchingAmount := by simpa only [eraseLoaded, eraseBest] using congrArg Xreq.matchingAmount h.symm
  order := by simpa only [eraseLoaded, eraseBest] using congrArg Xreq.pendingMatchOrder h.symm
  epoch := by simpa only [eraseLoaded, eraseBest] using congrArg Xreq.pendingMatchEpoch h.symm

/-- A row that is not pending keeps what counts when the result of a search is stored in it. -/
theorem keeps_updateColumns (h : SameColumns row x) (horder : row.pendingMatchOrder = 0) :
    Keeps row (updateColumns x row) where
  statics := rfl
  linkedSeqnum := .inl h.linkedSeqnum
  openAmount := h.openAmount
  matchingAmount := h.matchingAmount.le
  order := h.order
  pending hne := absurd horder hne

theorem eraseLoaded_updateColumns (h : eraseLoaded row = eraseLoaded x) :
    eraseLoaded (updateColumns x row) = eraseLoaded row := by
  have hcolumns : eraseLoaded (updateColumns x row) = updateColumns (eraseLoaded x) (eraseLoaded row) := rfl
  rw [hcolumns, ← h]
  rfl

/-- An update with a loaded request leaves the requests that were loaded before. -/
theorem Loaded.xreqsUpdate (hx : Loaded t x) (hy : Loaded t y) : Loaded (xreqsUpdate t y) x := by
  obtain ⟨row, hrow, heq⟩ := hx
  refine ⟨_, by rw [select_xreqsUpdate, hrow]; rfl, ?_⟩
  dsimp only
  split_ifs with hk
  · obtain ⟨row', hrow', heq'⟩ := hy
    rw [← hk, hrow] at hrow'
    cases hrow'
    exact (eraseLoaded_updateColumns heq').trans heq
  · exact heq

theorem Loaded.storeChanged (hx : Loaded t x) (hy : Loaded t y) : Loaded (storeChanged t y) x := by
  unfold Exchange.storeChanged
  split_ifs
  · exact hx.xreqsUpdate hy
  · exact hx

/-- Storing a request that is not pending keeps the rows. -/
theorem Loaded.rel_update (h : Loaded t x) (horder : x.pendingMatchOrder = 0) :
    Rel Keeps t (Exchange.xreqsUpdate t x) := by
  obtain ⟨row, hrow, heq⟩ := h
  refine Rel.of_update Keeps.refl fun a ha => ?_
  rw [hrow] at ha
  cases ha
  have hsame := sameColumns_of_eraseLoaded heq
  exact keeps_updateColumns hsame (hsame.order.symm.trans horder)

theorem Loaded.rel_storeChanged (h : Loaded t x) (horder : x.pendingMatchOrder = 0) :
    Rel Keeps t (Exchange.storeChanged t x) := by
  unfold Exchange.storeChanged
  split_ifs
  · exact h.rel_update horder
  · exact Rel.refl Keeps.refl t

/-- Storing a row in its own place changes nothing. -/
theorem storeChanged_self (h : t.select k = some x) : storeChanged t x = t := by
  unfold storeChanged
  split_ifs
  · refine update_eq_self fun a ha => ?_
    rw [key_of_select h, h] at ha
    cases ha
    rfl
  · rfl

end Loading

theorem Keeps.trans {x y z : Xreq} (h : Keeps x y) (h' : Keeps y z) : Keeps x z where
  toSameRequest := h.toSameRequest.trans h'.toSameRequest
  openAmount := h'.openAmount.trans h.openAmount
  matchingAmount := h'.matchingAmount.trans h.matchingAmount
  order := h'.order.trans h.order
  pending hne := by
    obtain ⟨h₁, h₂, h₃, h₄, h₅, h₆⟩ := h.pending hne
    obtain ⟨h₁', h₂', h₃', h₄', h₅', h₆'⟩ := h'.pending (h.order ▸ hne)
    exact ⟨h₁'.trans h₁, h₂'.trans h₂, h₃'.trans h₃, h₄'.trans h₄, h₅'.trans h₅, h₆'.trans h₆⟩

section Search
variable {t : XreqTable} {found : List PendingMatch} {epoch : ℕ} {conv : AmountConv} {blockTime : ℕ}
  {buyer seller buyer' seller' : Xreq} {changed : Bool} {k k' : ℕ}

theorem Loaded.of_eraseLoaded (h : t.select k = some buyer) (heq : eraseLoaded buyer' = eraseLoaded buyer) :
    Loaded t buyer' := by
  have hseq : buyer'.seqnum = buyer.seqnum := by
    simpa only [eraseLoaded, eraseBest] using congrArg Xreq.seqnum heq
  exact ⟨buyer, by rw [hseq, key_of_select h, h], heq.symm⟩

theorem RoundInv.loaded_order {x : Xreq} (h : RoundInv t found epoch) (hx : Loaded t x) (hm : x.matchingAmount ≠ 0) :
    x.pendingMatchOrder = 0 := by
  obtain ⟨row, hrow, heq⟩ := hx
  have hsame := sameColumns_of_eraseLoaded heq
  rw [hsame.order]
  exact h.order_eq_zero (mem_of_select hrow) (hsame.matchingAmount ▸ hm)

/-- The updates at the end of `CheckMatch`. -/
theorem RoundInv.storeBoth (h : RoundInv t found epoch) (hb : Loaded t buyer) (hs : Loaded t seller)
    (hmb : buyer.matchingAmount ≠ 0) (hms : seller.matchingAmount ≠ 0) :
    Rel Keeps t (storeChanged (storeChanged t buyer) seller) :=
  (hb.rel_storeChanged (h.loaded_order hb hmb)).trans (fun _ _ _ => Keeps.trans)
    ((hs.storeChanged hb).rel_storeChanged (h.loaded_order hs hms))

/-- `CheckMatch`, with the updates of its rows. -/
theorem RoundInv.checkMatch (h : RoundInv t found epoch) (hb : t.select k = some buyer) (hs : t.select k' = some seller)
    (hcheck : checkMatch conv buyer seller blockTime = .ok (changed, buyer', seller')) :
    Rel Keeps t (storeChanged (storeChanged t buyer') seller') := by
  rcases checkMatch_rows hcheck with ⟨-, rfl, rfl⟩ | ⟨hmb, hms, heb, hes⟩
  · rw [storeChanged_self hb, storeChanged_self hs]
    exact Rel.refl Keeps.refl t
  · have hlb : eraseLoaded buyer' = eraseLoaded buyer := congrArg (fun x => { x with recalc := false }) heb
    have hls : eraseLoaded seller' = eraseLoaded seller := congrArg (fun x => { x with recalc := false }) hes
    exact h.storeBoth (.of_eraseLoaded hb hlb) (.of_eraseLoaded hs hls)
      ((sameColumns_of_eraseLoaded hlb.symm).matchingAmount ▸ hmb)
      ((sameColumns_of_eraseLoaded hls.symm).matchingAmount ▸ hms)

end Search

/-- Two states of a row in which the same amount is open. -/
structure SameOpen (x y : Xreq) : Prop extends SameRequest x y where
  openAmount : y.openAmount = x.openAmount

theorem SameOpen.refl (x : Xreq) : SameOpen x x := ⟨SameRequest.refl x, rfl⟩

theorem SameOpen.trans {x y z : Xreq} (h : SameOpen x y) (h' : SameOpen y z) : SameOpen x z :=
  ⟨h.toSameRequest.trans h'.toSameRequest, h'.openAmount.trans h.openAmount⟩

theorem Keeps.sameOpen {x y : Xreq} (h : Keeps x y) : SameOpen x y := ⟨h.toSameRequest, h.openAmount⟩

theorem rel_mono {R S : Xreq → Xreq → Prop} {t t' : XreqTable} (h : Rel R t t') (hRS : ∀ x y, R x y → S x y) :
    Rel S t t' := by
  refine ⟨fun x hx => ?_, fun y hy => ?_⟩
  · obtain ⟨y, hy, hkey, hR⟩ := h.mem x hx
    exact ⟨y, hy, hkey, hRS x y hR⟩
  · obtain ⟨x, hx, hkey, hR⟩ := h.mem_right y hy
    exact ⟨x, hx, hkey, hRS x y hR⟩

theorem TableInv.of_sameOpen {t t' : XreqTable} {nextSeqnum nextXreqnum : ℕ} (h : TableInv t nextSeqnum nextXreqnum)
    (hrel : Rel SameOpen t t') : TableInv t' nextSeqnum nextXreqnum := by
  refine h.of_rows (fun y hy => ?_) fun y hy => ?_
  · obtain ⟨x, hx, hkey, hsame⟩ := hrel.mem_right y hy
    exact ⟨x, hx, hkey, hsame.toSameRequest⟩
  · obtain ⟨x, hx, -, hsame⟩ := hrel.mem_right y hy
    rw [hsame.openAmount, maxAmount_of_statics hsame.statics]
    exact h.openAmount x hx

section Init
variable {t : XreqTable} {found : List PendingMatch} {epoch priorPassnum blockTime maxXreqnum : ℕ}

theorem setRecalc_rel (t : XreqTable) (firstPass : Bool) (priorPassnum blockTime maxXreqnum : ℕ) :
    Rel Keeps t (setRecalc t firstPass priorPassnum blockTime maxXreqnum) := by
  refine Rel.of_map fun x _ => ?_
  split_ifs
  · exact ⟨⟨rfl, .inl rfl⟩, rfl, le_rfl, rfl, fun _ => ⟨rfl, rfl, rfl, rfl, rfl, rfl⟩⟩
  · exact Keeps.refl x

theorem keeps_resetBest (x : Xreq) : Keeps x (if x.recalc then resetBest x else x) := by
  split_ifs
  · exact ⟨⟨rfl, .inl rfl⟩, rfl, le_rfl, rfl, fun _ => ⟨rfl, rfl, rfl, rfl, rfl, rfl⟩⟩
  · exact Keeps.refl x

theorem initMatching_rel (t : XreqTable) (maxXreqnum : ℕ) : Rel Keeps t (initMatching t false maxXreqnum) := by
  refine Rel.of_map fun x _ => ?_
  split_ifs
  · exact keeps_resetBest x
  · exact Keeps.refl x

/-- At the start of a round the matching amounts are reset to what is open. -/
theorem initMatching_first (t : XreqTable) (maxXreqnum : ℕ) :
    Rel (fun x y => SameOpen x y ∧ y.pendingMatchOrder = x.pendingMatchOrder ∧
      (y.matchingAmount = x.matchingAmount ∨ y.matchingAmount = x.openAmount)) t (initMatching t true maxXreqnum) := by
  refine Rel.of_map fun x _ => ?_
  split_ifs
  · have hkeeps := keeps_resetBest { resetMatching x with recalcTime := if x.recalc then recalcNot else x.recalcTime }
    refine ⟨⟨⟨hkeeps.statics, hkeeps.linkedSeqnum⟩, hkeeps.openAmount⟩, hkeeps.order, .inr ?_⟩
    simp only [initMatchingRow, if_true]
    split_ifs <;> rfl
  · exact ⟨SameOpen.refl x, rfl, .inl rfl⟩

/-- `MatchingInit` keeps the invariant; only the first pass of a round, where nothing is pending, resets amounts. -/
theorem RoundInv.matchingInit (h : RoundInv t found epoch) {firstPass : Bool} (hfirst : firstPass = true → found = [])
    (priorPassnum blockTime maxXreqnum : ℕ) :
    Rel SameOpen t (matchingInit t firstPass priorPassnum blockTime maxXreqnum) ∧
      RoundInv (matchingInit t firstPass priorPassnum blockTime maxXreqnum) found epoch := by
  have hrecalc := setRecalc_rel t firstPass priorPassnum blockTime maxXreqnum
  have hround := h.of_rel hrecalc
  unfold Exchange.matchingInit
  cases firstPass with
  | false =>
    exact ⟨(rel_mono hrecalc fun _ _ => Keeps.sameOpen).trans (fun _ _ _ => SameOpen.trans)
      (rel_mono (initMatching_rel _ _) fun _ _ => Keeps.sameOpen), hround.of_rel (initMatching_rel _ _)⟩
  | true =>
    cases hfirst rfl
    have hinit := initMatching_first (setRecalc t true priorPassnum blockTime maxXreqnum) maxXreqnum
    refine ⟨(rel_mono hrecalc fun _ _ => Keeps.sameOpen).trans (fun _ _ _ => SameOpen.trans)
      (rel_mono hinit fun _ _ h => h.1), RoundInv.nil (fun y hy => ?_) fun y hy => ?_⟩
    · obtain ⟨x, hx, -, -, horder, -⟩ := hinit.mem_right y hy
      rw [horder, hround.order_of_nil hx]
    · obtain ⟨x, hx, -, hopen, -, hm⟩ := hinit.mem_right y hy
      have := hround.claimed_le x hx
      rw [hopen.openAmount]
      rcases hm with hm | hm <;> omega

end Init

/-- What holds in the course of a round, since an earlier state of it. -/
structure RoundState (st₀ : MatchList) (nextSeqnum nextXreqnum epoch : ℕ) (st : MatchList) : Prop where
  rel : Rel SameOpen st₀.table st.table
  grows : st₀.found <+: st.found
  table : TableInv st.table nextSeqnum nextXreqnum
  round : RoundInv st.table st.found epoch
  index : 0 < st.nextMatchIndex ∧ ∀ f ∈ st.found, f.order < st.nextMatchIndex

section Steps
variable {t' : XreqTable} {nextSeqnum nextXreqnum epoch : ℕ} {st₀ st st' : MatchList} {conv : AmountConv}
  {blockTime maxXreqnum passnum : ℕ}

theorem RoundState.of_keeps (h : RoundState st₀ nextSeqnum nextXreqnum epoch st) (hrel : Rel Keeps st.table t') :
    RoundState st₀ nextSeqnum nextXreqnum epoch { st with table := t' } where
  rel := h.rel.trans (fun _ _ _ => SameOpen.trans) (rel_mono hrel fun _ _ => Keeps.sameOpen)
  grows := h.grows
  table := h.table.of_sameOpen (rel_mono hrel fun _ _ => Keeps.sameOpen)
  round := h.round.of_rel hrel
  index := h.index

/-- The search of a pass. -/
theorem RoundState.checkMinor {scan scan' : Scan} {major minor : ℕ}
    (h : RoundState st₀ nextSeqnum nextXreqnum epoch { st with table := scan.table })
    (hcheck : checkMinor conv blockTime major scan minor = .ok scan') :
    RoundState st₀ nextSeqnum nextXreqnum epoch { st with table := scan'.table } := by
  unfold Exchange.checkMinor at hcheck
  split at hcheck
  next b s hb hs =>
    obtain ⟨_, -, hcheck⟩ := bind_eq_ok.1 hcheck
    obtain ⟨⟨changed, b', s'⟩, hmatch, hcheck⟩ := bind_eq_ok.1 hcheck
    cases hcheck
    exact h.of_keeps (h.round.checkMatch hb hs hmatch)
  next =>
    cases hcheck
    exact h

theorem RoundState.checkMajor {scan scan' : Scan} {major : Xreq}
    (h : RoundState st₀ nextSeqnum nextXreqnum epoch { st with table := scan.table })
    (hcheck : checkMajor conv blockTime maxXreqnum scan major = .ok scan') :
    RoundState st₀ nextSeqnum nextXreqnum epoch { st with table := scan'.table } := by
  obtain ⟨_, -, hcheck⟩ := bind_eq_ok.1 hcheck
  exact foldlM_ok (P := fun scan : Scan => RoundState st₀ nextSeqnum nextXreqnum epoch { st with table := scan.table })
    (fun _ _ _ hs hturn => hs.checkMinor hturn) h hcheck

end Steps

section Matches
variable {t t' : XreqTable} {conv : AmountConv} {x other major minor row : Xreq} {amount passnum blockTime hold : ℕ}
  {rate : UniFloat} {u : Unit}

/-- What the assertions of `UpdateMutualMatch` leave of a match. -/
theorem updateMutualMatchPre_ok (h : updateMutualMatchPre x other amount rate = .ok u) :
    x.xreqnum ≠ 0 ∧ x.bestOtherSeqnum = other.seqnum ∧ x.bestOtherXreqnum = other.xreqnum ∧ amount ≠ 0 ∧
      amount ≤ x.matchingAmount ∧ x.matchingAmount ≤ x.openAmount ∧ 0 < rate := by
  simp only [updateMutualMatchPre, ccassert_bind_eq_ok, ccassert_eq_ok] at h
  exact ⟨h.1, h.2.1, h.2.2.1, h.2.2.2.2.2.2.1, h.2.2.2.2.2.2.2.1, h.2.2.2.2.2.2.2.2.1, h.2.2.2.2.2.2.2.2.2.2.2.2.2⟩

theorem updateBoth_ok (h : updateBoth conv t major minor passnum blockTime hold = .ok t') :
    updateMutualMatchPre major minor major.bestAmount major.bestRate = .ok () ∧
      updateMutualMatchPre minor (mutualMatchRow conv major major.bestAmount major.bestRate passnum blockTime hold)
        major.bestAmount major.bestRate = .ok () ∧
      t' = xreqsUpdate (xreqsUpdate t (mutualMatchRow conv major major.bestAmount major.bestRate passnum blockTime hold))
        (mutualMatchRow conv minor major.bestAmount major.bestRate passnum blockTime hold) := by
  simp only [updateBoth, updateMutualMatch, bind_eq_ok] at h
  obtain ⟨_, ⟨_, hpre, hmajor⟩, _, ⟨_, hpre', hminor⟩, h⟩ := h
  cases hmajor
  cases hminor
  cases h
  exact ⟨hpre, hpre', rfl⟩

theorem statics_mutualMatchRow : statics (mutualMatchRow conv x amount rate passnum blockTime hold) = statics x := by
  unfold mutualMatchRow
  dsimp only
  split_ifs <;> rfl

/-- The columns that `UpdateMutualMatch` leaves alone, and the amount that it leaves to match. -/
theorem mutualMatchRow_columns (conv : AmountConv) (x : Xreq) (amount passnum blockTime hold : ℕ) (rate : UniFloat) :
    (mutualMatchRow conv x amount rate passnum blockTime hold).linkedSeqnum = x.linkedSeqnum ∧
      (mutualMatchRow conv x amount rate passnum blockTime hold).openAmount = x.openAmount ∧
      (mutualMatchRow conv x amount rate passnum blockTime hold).pendingMatchOrder = x.pendingMatchOrder ∧
      (mutualMatchRow conv x amount rate passnum blockTime hold).bestOtherSeqnum = x.bestOtherSeqnum ∧
      (mutualMatchRow conv x amount rate passnum blockTime hold).bestOtherXreqnum = x.bestOtherXreqnum ∧
      (mutualMatchRow conv x amount rate passnum blockTime hold).matchingAmount = restAmount x amount := by
  unfold mutualMatchRow
  dsimp only
  split_ifs <;> exact ⟨rfl, rfl, rfl, rfl, rfl, rfl⟩

theorem restAmount_le (x : Xreq) (amount : ℕ) : restAmount x amount ≤ x.matchingAmount := by
  unfold restAmount
  split_ifs
  · exact Nat.zero_le _
  · exact Nat.sub_le _ _

theorem mutualMatchRow_seqnum : (mutualMatchRow conv x amount rate passnum blockTime hold).seqnum = x.seqnum :=
  seqnum_of_statics statics_mutualMatchRow

/-- A match takes from the matching amount of a row that is not pending. -/
theorem SameColumns.keeps_match (h : SameColumns row x) (horder : row.pendingMatchOrder = 0) :
    Keeps row (updateColumns (mutualMatchRow conv x amount rate passnum blockTime hold) row) := by
  obtain ⟨hlinked, hopen, hord, -, -, hm⟩ := mutualMatchRow_columns conv x amount passnum blockTime hold rate
  exact {
    statics := rfl
    linkedSeqnum := .inl (hlinked.trans h.linkedSeqnum)
    openAmount := hopen.trans h.openAmount
    matchingAmount := (hm.trans_le (restAmount_le x amount)).trans h.matchingAmount.le
    order := hord.trans h.order
    pending := fun hne => absurd horder hne }

theorem Loaded.rel_match (conv : AmountConv) (amount passnum blockTime hold : ℕ) (rate : UniFloat) (h : Loaded t x)
    (horder : x.pendingMatchOrder = 0) :
    Rel Keeps t (Exchange.xreqsUpdate t (mutualMatchRow conv x amount rate passnum blockTime hold)) := by
  obtain ⟨row, hrow, heq⟩ := h
  refine Rel.of_update Keeps.refl fun a ha => ?_
  rw [mutualMatchRow_seqnum, hrow] at ha
  cases ha
  have hsame := sameColumns_of_eraseLoaded heq
  exact hsame.keeps_match (hsame.order.symm.trans horder)

/-- The rows of a buyer and of a seller are different. -/
theorem Loaded.seqnum_ne {nextSeqnum nextXreqnum : ℕ} (htable : TableInv t nextSeqnum nextXreqnum)
    (hmajor : Loaded t major) (hminor : Loaded t minor) (hb : major.isBuyer = true) (hs : minor.isSeller = true) :
    minor.seqnum ≠ major.seqnum := by
  intro hne
  obtain ⟨row, hrow, heq⟩ := hmajor
  obtain ⟨row', hrow', heq'⟩ := hminor
  rw [hne, hrow] at hrow'
  cases hrow'
  have hbuyer : row.isBuyer = true := (isBuyer_of_statics (sameColumns_of_eraseLoaded heq).statics).symm.trans hb
  have hseller : row.isSeller = true := (isSeller_of_statics (sameColumns_of_eraseLoaded heq').statics).symm.trans hs
  rw [(htable.valid row (mem_of_select hrow)).not_isSeller hbuyer] at hseller
  cases hseller

end Matches

theorem Loaded.of_ne {t : XreqTable} {x y : Xreq} (h : Loaded t x) (hne : x.seqnum ≠ y.seqnum) :
    Loaded (Exchange.xreqsUpdate t y) x := by
  obtain ⟨row, hrow, heq⟩ := h
  exact ⟨row, by rw [select_xreqsUpdate, hrow, Option.map_some, if_neg hne], heq⟩

theorem claimed_append (found : List PendingMatch) (f : PendingMatch) (buyer : ℕ) :
    claimed (found ++ [f]) buyer = claimed found buyer + if f.buyer = buyer then f.amount else 0 := by
  rw [claimed, List.filter_append, List.map_append, List.sum_append, ← claimed]
  by_cases hf : f.buyer = buyer <;> simp [hf]

section Pending
variable {t' : XreqTable} {nextSeqnum nextXreqnum epoch : ℕ} {st₀ st st' : MatchList} {conv : AmountConv}
  {major minor : Xreq} {passnum blockTime hold : ℕ}

/-- A match on hold. -/
theorem RoundState.holdMatch (h : RoundState st₀ nextSeqnum nextXreqnum epoch st) (hmajor : Loaded st.table major)
    (hminor : Loaded st.table minor) (hb : major.isBuyer = true) (hs : minor.isSeller = true)
    (hupdate : updateBoth conv st.table major minor passnum blockTime hold = .ok t') :
    RoundState st₀ nextSeqnum nextXreqnum epoch { st with table := t' } := by
  obtain ⟨hpre, hpre', rfl⟩ := updateBoth_ok hupdate
  obtain ⟨-, -, -, hpos, hle, -⟩ := updateMutualMatchPre_ok hpre
  obtain ⟨-, -, -, -, hle', -⟩ := updateMutualMatchPre_ok hpre'
  have hne := Loaded.seqnum_ne h.table hmajor hminor hb hs
  have hrel := hmajor.rel_match conv major.bestAmount passnum blockTime hold major.bestRate
    (h.round.loaded_order hmajor (by omega))
  have hrow : minor.seqnum ≠
      (mutualMatchRow conv major major.bestAmount major.bestRate passnum blockTime hold).seqnum := by
    rw [mutualMatchRow_seqnum]
    exact hne
  have hrel' := (hminor.of_ne hrow).rel_match conv major.bestAmount passnum blockTime hold major.bestRate
    (h.round.loaded_order hminor (by omega))
  exact h.of_keeps (hrel.trans (fun _ _ _ => Keeps.trans) hrel')

end Pending

end CredaCash.Exchange
