import CredaCash.Settlement.MatchLife

/-! What a block does to the exchange tables as it becomes indelible: its requests and payments, new matches,
deadlines and the pruning of rows all keep what the tables say of the matches. -/

namespace CredaCash.Settlement
open Wire Chain Checks

/-- The exchange data of a transaction on the wire. -/
def wireXtx (env : Env) (wire : List UInt8) : Option Xtx :=
  match (txFromWire env.blake2s wire {}).1 with
  | .error _ => none
  | .ok tx => extractXtx env tx

/-- The match that a transaction pays for. -/
def paidMatch (env : Env) (wire : List UInt8) : Option ℕ :=
  match wireXtx env wire with
  | some (.xpay xpay) => some xpay.xmatchnum
  | _ => none

/-- The requests among some transactions leave time for a payment. -/
def TimedRequests (env : Env) (txs : List (List UInt8)) : Prop :=
  ∀ wire ∈ txs, ∀ x, wireXtx env wire = some (.xreq x) → 0 < x.paymentTime

/-- What a transaction of an accepted block satisfies, with the time of the prior block. -/
structure Tables.Accepts (env : Env) (t : Tables) (time : ℕ) (wire : List UInt8) : Prop where
  parses : ∃ tx, (txFromWire env.blake2s wire {}).1 = .ok tx
  payment : ∀ xpay, wireXtx env wire = some (.xpay xpay) → 0 < xpay.foreignAmount ∧ t.Payable xpay.xmatchnum time

/-- A request that was added; matching changes neither its number nor its time for a payment. -/
def Tables.Added (t : Tables) (x : Xreq) : Prop :=
  ∃ y, t.reqs.select x.xreqnum = some y ∧ y.paymentTime = x.paymentTime

/-- How the creation of a match may stop the node. -/
def MatchStops (e : LedgerError) : Prop := e = .init ∨ SettleFails e

/-- How a transaction may stop the node. -/
def TxStops (e : LedgerError) : Prop := e = .parse ∨ PaymentStops e

/-- The payments that were processed since: one for each of some matches, which was found open or paid if the payments
were accepted. -/
def PaidSince (t t' : Tables) (nums : List ℕ) (accepted : Prop) : Prop :=
  ∃ ps, t'.paid = t.paid ++ ps ∧ ps.map Prod.fst = nums ∧ (accepted → ∀ p ∈ ps, isOpen p.2 = true ∨ p.2 = .paid)

section Index
variable {t t' : Tables} {time blocktime : ℕ} {env : LedgerEnv} {wire : List UInt8} {txs : List (List UInt8)}

lemma Tables.Accepts.extends (h : t.Accepts env.toEnv time wire) (hext : t.Extends t') :
    t'.Accepts env.toEnv time wire :=
  ⟨h.parses, fun xpay hxpay => (h.payment xpay hxpay).imp_right fun hpayable => hpayable.extends hext⟩

lemma Tables.Added.extends {x : Xreq} (h : t.Added x) (hext : t.Extends t') : t'.Added x := by
  obtain ⟨y, hy, htime⟩ := h
  exact ⟨y, hext.reqs _ y hy, htime⟩

lemma PaidSince.of_eq (h : t'.paid = t.paid) (accepted : Prop) : PaidSince t t' [] accepted :=
  ⟨[], h.trans (List.append_nil _).symm, rfl, fun _ _ hp => (by cases hp)⟩

lemma PaidSince.trans {t'' : Tables} {nums nums' : List ℕ} {accepted accepted' : Prop}
    (h : PaidSince t t' nums accepted) (h' : PaidSince t' t'' nums' accepted') :
    PaidSince t t'' (nums ++ nums') (accepted ∧ accepted') := by
  obtain ⟨ps, hps, hnums, hopen⟩ := h
  obtain ⟨ps', hps', hnums', hopen'⟩ := h'
  refine ⟨ps ++ ps', by rw [hps', hps, List.append_assoc], by rw [List.map_append, hnums, hnums'], ?_⟩
  rintro ⟨haccepted, haccepted'⟩ p hp
  exact (List.mem_append.1 hp).elim (hopen haccepted p) (hopen' haccepted' p)

lemma PaidSince.imp {nums : List ℕ} {accepted accepted' : Prop} (h : PaidSince t t' nums accepted)
    (himp : accepted' → accepted) : PaidSince t t' nums accepted' := by
  obtain ⟨ps, hps, hnums, hopen⟩ := h
  exact ⟨ps, hps, hnums, fun haccepted => hopen (himp haccepted)⟩

/-- Counters and parameters play no part in the invariant. -/
lemma TablesInv.sameRows (h : TablesInv t time) (hrows : SameRows t t') (hlog : t'.log = t.log)
    (hnext : t.nextXmatchnum ≤ t'.nextXmatchnum) : TablesInv t' time := by
  refine ⟨fun row hrow => ?_, fun row hrow => ?_, fun e he => ?_, fun x hx => h.paymentTime x (hrows.reqs ▸ hx)⟩
  · exact (h.rows row (hrows.xmatches ▸ hrow)).extends hrows.extends hrows.retains (le_refl _)
      (by rw [Tables.events, hlog, Tables.events])
  · exact (h.numbers row (hrows.xmatches ▸ hrow)).trans_le hnext
  · obtain ⟨row, hrow, hnum⟩ := h.logged e (hlog ▸ he)
    exact ⟨row, hrows.xmatches ▸ hrow, hnum⟩

lemma TablesInv.addOneXreq (h : TablesInv t time) {x : Xreq} (hx : 0 < x.paymentTime) :
    TablesInv (t.addOneXreq x) time ∧ t.Extends (t.addOneXreq x) := by
  have hext : t.Extends (t.addOneXreq x) := Tables.extends_xmatchreqInsert t x (matchingRow x)
  refine ⟨⟨fun row hrow => ?_, h.numbers, h.logged, fun y hy => ?_⟩, hext⟩
  · exact (h.rows row hrow).extends hext (Tables.retains_xmatchreqInsert t x (matchingRow x)) (le_refl _) rfl
  · rcases Tables.xmatchreqInsert_reqs_mem t x (matchingRow x) hy with hy | rfl
    · exact h.paymentTime y hy
    · exact hx

lemma TablesInv.drawXreqnum (h : TablesInv t time) : TablesInv t.drawXreqnum time ∧ t.Extends t.drawXreqnum :=
  ⟨h.sameRows ⟨rfl, rfl, rfl⟩ rfl (le_refl _), SameRows.extends ⟨rfl, rfl, rfl⟩⟩

lemma Tables.addXreq_log (t : Tables) (blocktime : ℕ) (x : Xreq) : (t.addXreq blocktime x).log = t.log := by
  unfold Tables.addXreq
  dsimp only
  split_ifs <;> rfl

/-- A request is added, a mining trade as two. -/
lemma TablesInv.addXreq (h : TablesInv t time) (blocktime : ℕ) {x : Xreq} (hx : 0 < x.paymentTime) :
    TablesInv (t.addXreq blocktime x) time ∧ t.Extends (t.addXreq blocktime x) := by
  obtain ⟨hdraw, hext⟩ := h.drawXreqnum
  unfold Tables.addXreq
  dsimp only
  split_ifs with htype
  · obtain ⟨hone, hext'⟩ := hdraw.addOneXreq (x := { x with xreqnum := t.nextXreqnum, blocktime := blocktime }) hx
    exact ⟨hone, hext.trans hext'⟩
  · obtain ⟨hdraw', hext₁⟩ := hdraw.drawXreqnum
    obtain ⟨hbuy, hext₂⟩ := hdraw'.addOneXreq
      (x := { x with xreqnum := t.nextXreqnum, blocktime := blocktime }.convertTradeToBuy) hx
    obtain ⟨hsell, hext₃⟩ := hbuy.addOneXreq (x :=
      { { x with xreqnum := t.nextXreqnum, blocktime := blocktime }.convertTradeToSell with
        xreqnum := t.drawXreqnum.nextXreqnum }) hx
    exact ⟨hsell, hext.trans (hext₁.trans (hext₂.trans hext₃))⟩

/-- A transaction keeps the tables; if it was accepted, only a settlement can fail. -/
lemma TablesInv.indexXtx (h : TablesInv t time) (blocktime : ℕ)
    (hreq : ∀ x, wireXtx env.toEnv wire = some (.xreq x) → 0 < x.paymentTime) :
    Ends (fun e => TxStops e ∧ (t.Accepts env.toEnv time wire → SettleFails e))
      (fun t' => TablesInv t' time ∧ t.Extends t' ∧
        PaidSince t t' (paidMatch env.toEnv wire).toList (t.Accepts env.toEnv time wire))
      (t.indexXtx env blocktime wire) := by
  unfold Tables.indexXtx paidMatch
  unfold wireXtx at hreq ⊢
  cases hparse : (txFromWire env.blake2s wire {}).1 with
  | error e =>
    refine .error ⟨.inl rfl, fun haccepts => ?_⟩
    obtain ⟨tx, htx⟩ := haccepts.parses
    cases hparse.symm.trans htx
  | ok tx =>
    simp only [hparse] at hreq ⊢
    cases hxtx : extractXtx env.toEnv tx with
    | none => exact .ok ⟨h, .refl t, .of_eq rfl _⟩
    | some xtx =>
      cases xtx with
      | xreq x =>
        obtain ⟨hinv, hext⟩ := h.addXreq blocktime (hreq x hxtx)
        exact .ok ⟨hinv, hext, .of_eq (by rw [Tables.paid, Tables.addXreq_log, Tables.paid]) _⟩
      | xpay xpay =>
        have hpayment (haccepts : t.Accepts env.toEnv time wire) :
            0 < xpay.foreignAmount ∧ t.Payable xpay.xmatchnum time := by
          refine haccepts.payment xpay ?_
          rw [wireXtx, hparse]
          exact hxtx
        refine ((h.processXpayment xpay blocktime).mapError ?_).mono ?_
        · rintro e ⟨hstops, hsettle⟩
          exact ⟨.inr hstops, fun haccepts => hsettle (hpayment haccepts).1 (hpayment haccepts).2⟩
        · rintro t' ⟨hinv, hext, s, hpaid, hopen⟩
          refine ⟨hinv, hext, [(xpay.xmatchnum, s)], hpaid, rfl, fun haccepts p hp => ?_⟩
          obtain rfl := List.mem_singleton.1 hp
          exact hopen (hpayment haccepts).2

/-- The transactions of a block, one after the other. -/
lemma TablesInv.indexTxs (h : TablesInv t time) (blocktime : ℕ) (hreq : TimedRequests env.toEnv txs) :
    Ends (fun e => TxStops e ∧ ((∀ wire ∈ txs, t.Accepts env.toEnv time wire) → SettleFails e))
      (fun t' => TablesInv t' time ∧ t.Extends t' ∧
        PaidSince t t' (txs.filterMap (paidMatch env.toEnv)) (∀ wire ∈ txs, t.Accepts env.toEnv time wire))
      (txs.foldlM (Tables.indexXtx env blocktime) t) := by
  induction txs generalizing t with
  | nil => exact .ok ⟨h, .refl t, .of_eq rfl _⟩
  | cons wire txs ih =>
    rw [List.foldlM_cons]
    have hfirst : Ends _ _ (t.indexXtx env blocktime wire) := h.indexXtx blocktime (hreq wire (List.mem_cons_self ..))
    refine (hfirst.mapError ?_).bind ?_
    · rintro e ⟨hstops, hsettle⟩
      exact ⟨hstops, fun haccepts => hsettle (haccepts wire (List.mem_cons_self ..))⟩
    · rintro t₁ ⟨hinv, hext, hpaid⟩
      have hrest (haccepts : ∀ w ∈ wire :: txs, t.Accepts env.toEnv time w) (w) (hw : w ∈ txs) :
          t₁.Accepts env.toEnv time w := (haccepts w (List.mem_cons_of_mem _ hw)).extends hext
      refine ((ih hinv fun w hw => hreq w (List.mem_cons_of_mem _ hw)).mapError ?_).mono ?_
      · rintro e ⟨hstops, hsettle⟩
        exact ⟨hstops, fun haccepts => hsettle (hrest haccepts)⟩
      · rintro t₂ ⟨hinv', hext', hpaid'⟩
        have hnums : (wire :: txs).filterMap (paidMatch env.toEnv) =
            (paidMatch env.toEnv wire).toList ++ txs.filterMap (paidMatch env.toEnv) := by
          rw [List.filterMap_cons]
          cases paidMatch env.toEnv wire <;> rfl
        rw [hnums]
        exact ⟨hinv', hext.trans hext', (hpaid.trans hpaid').imp fun haccepts =>
          ⟨haccepts wire (List.mem_cons_self ..), hrest haccepts⟩⟩

end Index

section Matches
variable {t t' : Tables} {time : ℕ} {env : LedgerEnv} {buyer seller : Xreq}

/-- The rows that an insertion of a match leaves of its requests are kept at least as long as it asks. -/
lemma Tables.xmatchInsert_keeps (t : Tables) (j : JoinedMatch) :
    (t.xmatchInsert j).KeepsUntil j.buying.xreqnum j.buying.deleteTime ∧
      (t.xmatchInsert j).KeepsUntil j.selling.xreqnum j.selling.deleteTime :=
  ⟨Tables.retains_xmatchreqInsert _ j.sell j.selling _ _ (Tables.xmatchreqInsert_keeps _ j.buy j.buying),
    Tables.xmatchreqInsert_keeps _ j.sell j.selling⟩

/-- A match as it is made: accepted, with the deadline for its payment, up to which the rows of its requests are kept. -/
structure NewMatch (t : Tables) (buyer seller : Xreq) (j : JoinedMatch) : Prop where
  xmatchnum : j.row.xmatchnum = t.nextXmatchnum
  status : j.row.status = .accepted
  buyXreqnum : j.row.buyXreqnum = buyer.xreqnum
  sellXreqnum : j.row.sellXreqnum = seller.xreqnum
  nextDeadline : j.row.nextDeadline = j.row.matchTimestamp + seller.paymentTime
  buy : j.buy = buyer
  sell : j.sell = seller
  buying : j.buying.xreqnum = buyer.xreqnum ∧ j.row.nextDeadline ≤ j.buying.deleteTime
  selling : j.selling.xreqnum = seller.xreqnum ∧ j.row.nextDeadline ≤ j.selling.deleteTime

lemma Tables.xmatchInit_ends (t : Tables) (matchtime : ℕ) (buyer seller : Xreq) :
    Ends (fun e => e = .init) (NewMatch t buyer seller) (t.xmatchInit matchtime buyer seller) := by
  unfold Tables.xmatchInit
  dsimp only
  split
  · exact .error rfl
  · split_ifs
    · exact .error rfl
    · exact .ok ⟨rfl, rfl, rfl, rfl, rfl, rfl, rfl, ⟨rfl, le_max_right _ _⟩, rfl, le_max_right _ _⟩

/-- A match that is made of two requests which were added. -/
lemma TablesInv.insertMatch (h : TablesInv t time) {j : JoinedMatch} (hbuy : t.Added buyer) (hsell : t.Added seller)
    (hj : NewMatch t buyer seller j) (saved : ExchangeMiningParams) :
    TablesInv ({ t with nextXmatchnum := t.nextXmatchnum + 1, saved := saved }.xmatchInsert j) time ∧
      t.Extends ({ t with nextXmatchnum := t.nextXmatchnum + 1, saved := saved }.xmatchInsert j) := by
  obtain ⟨b, hb, hbtime⟩ := hbuy
  obtain ⟨s, hs, hstime⟩ := hsell
  have hbpos : 0 < buyer.paymentTime := hbtime ▸ h.paymentTime b (KeyedTable.mem_of_select hb)
  have hspos : 0 < seller.paymentTime := hstime ▸ h.paymentTime s (KeyedTable.mem_of_select hs)
  have hnum : j.row.xmatchnum < t.nextXmatchnum + 1 := hj.xmatchnum ▸ Nat.lt_succ_self _
  refine h.write ⟨rfl, rfl, rfl⟩ (Nat.le_succ _) [] (List.append_nil _).symm (fun old hold => ?_) hnum
    (hj.buy ▸ hbpos) (hj.sell ▸ hspos) fun hext _ hevents => ?_
  · rw [hj.xmatchnum] at hold
    have hlt := h.numbers old (KeyedTable.mem_of_select hold)
    rw [KeyedTable.key_of_select hold] at hlt
    exact absurd hlt (lt_irrefl _)
  · have hdeadline : (({ t with nextXmatchnum := t.nextXmatchnum + 1, saved := saved } : Tables).xmatchInsert j).deadline
        j.row = j.row.nextDeadline := by
      rw [Tables.deadline, hj.sellXreqnum, hext.reqs _ s hs, Option.elim_some, hj.nextDeadline, hstime]
    obtain ⟨hbuying, hselling⟩ := Tables.xmatchInsert_keeps
      { t with nextXmatchnum := t.nextXmatchnum + 1, saved := saved } j
    rw [hj.xmatchnum, h.events_nil, hj.status] at hevents
    refine ⟨?_, ⟨?_, ?_⟩, fun _ => ⟨hdeadline.symm, ?_⟩, fun hclosed => ?_, fun _ => ?_, fun hexpired => ?_⟩
    · rw [hj.xmatchnum, hevents, hj.status]
      exact .made
    · rw [hj.buyXreqnum, hext.reqs _ b hb]
      rfl
    · rw [hj.sellXreqnum, hext.reqs _ s hs]
      rfl
    · rw [hj.nextDeadline]
      exact Nat.add_pos_right _ hspos
    · rw [hj.status] at hclosed
      cases hclosed
    · rw [hdeadline, hj.buyXreqnum, hj.sellXreqnum, ← hj.buying.1, ← hj.selling.1]
      exact ⟨hbuying.mono hj.buying.2, hselling.mono hj.selling.2⟩
    · rw [hj.status] at hexpired
      cases hexpired

/-- `MakeMatchesPersistent` makes a match. -/
lemma TablesInv.makeMatch (h : TablesInv t time) (matchtime : ℕ) {pair : Xreq × Xreq} (hbuy : t.Added pair.1)
    (hsell : t.Added pair.2) : Ends MatchStops (fun t' => TablesInv t' time ∧ t.Extends t' ∧ t'.paid = t.paid)
      (t.makeMatch env matchtime pair) := by
  have hinit := t.xmatchInit_ends matchtime pair.1 pair.2
  unfold Tables.makeMatch
  split
  · next e he => exact .error (.inl (hinit.1 e he))
  · next j hj =>
    split
    · next e _ => exact .error (.inr ⟨e, rfl⟩)
    · next m saved _ =>
      obtain ⟨hinv, hext⟩ := h.insertMatch (j := { j with row := { j.row with miningAmount := m.miningAmount } }) hbuy
        hsell (have hnew := hinit.2 j hj; ⟨hnew.1, hnew.2, hnew.3, hnew.4, hnew.5, hnew.6, hnew.7, hnew.8, hnew.9⟩) saved
      exact .ok ⟨hinv, hext, Tables.paid_xmatchInsert _ _⟩

lemma TablesInv.makeMatches (h : TablesInv t time) (matchtime : ℕ) {pairs : List (Xreq × Xreq)}
    (hpairs : ∀ pair ∈ pairs, t.Added pair.1 ∧ t.Added pair.2) :
    Ends MatchStops (fun t' => TablesInv t' time ∧ t.Extends t' ∧ t'.paid = t.paid)
      (pairs.foldlM (Tables.makeMatch env matchtime) t) := by
  refine Ends.foldlM (fun pair hpair t₁ ht₁ => ?_) ⟨h, .refl t, rfl⟩
  obtain ⟨hinv, hext, hpaid⟩ := ht₁
  obtain ⟨hbuy, hsell⟩ := hpairs pair hpair
  refine (hinv.makeMatch matchtime (hbuy.extends hext) (hsell.extends hext)).mono ?_
  rintro t₂ ⟨hinv', hext', hpaid'⟩
  exact ⟨hinv', hext.trans hext', hpaid'.trans hpaid⟩

end Matches

section Deadlines
variable {t t' : Tables} {time : ℕ} {env : LedgerEnv}

/-- No match is past its deadline at a time. -/
def Tables.NoneDue (t : Tables) (time : ℕ) : Prop :=
  ∀ row ∈ t.xmatches, 0 < row.nextDeadline → time ≤ row.nextDeadline

/-- The matches with a deadline. -/
def Tables.awaited (t : Tables) : List MatchRow := t.xmatches.rows.filter (0 < ·.nextDeadline)

lemma Tables.nextDeadlineRow_none (h : t.nextDeadlineRow time = none) : t.NoneDue time := by
  intro row hrow hpos
  have hdue := KeyedTable.first_eq_none.1 h row hrow
  simp only [Bool.and_eq_false_iff, decide_eq_false_iff_not] at hdue
  exact not_lt.1 (hdue.resolve_right (not_not.2 hpos))

lemma Tables.nextDeadlineRow_some {row : MatchRow} (h : t.nextDeadlineRow time = some row) :
    row ∈ t.xmatches ∧ row.nextDeadline < time ∧ 0 < row.nextDeadline := by
  obtain ⟨hrow, hdue⟩ := KeyedTable.mem_of_first h
  simp only [Bool.and_eq_true, decide_eq_true_eq] at hdue
  exact ⟨hrow, hdue⟩

/-- A turn that ends the wait for a match leaves fewer to wait for. -/
lemma Tables.awaited_lt {row : MatchRow} (hrow : row ∈ t.xmatches) (hpos : 0 < row.nextDeadline)
    (hless : ∀ row', row' ∈ t'.xmatches → 0 < row'.nextDeadline → row' ∈ t.xmatches ∧ row'.xmatchnum ≠ row.xmatchnum) :
    t'.awaited.length < t.awaited.length := by
  have hmem : row ∈ t.awaited := List.mem_filter.2 ⟨hrow, by simpa using hpos⟩
  have hsub : t'.awaited ⊆ t.awaited.erase row := by
    intro row' hrow'
    obtain ⟨hrow', hpos'⟩ := List.mem_filter.1 hrow'
    obtain ⟨hold, hne⟩ := hless row' hrow' (of_decide_eq_true hpos')
    exact (List.mem_erase_of_ne fun heq => hne (congrArg MatchRow.xmatchnum heq)).2
      (List.mem_filter.2 ⟨hold, hpos'⟩)
  have hnodup : t'.awaited.Nodup := (List.Nodup.of_map _ t'.xmatches.nodup).filter _
  have hle := (List.subperm_of_subset hnodup hsub).length_le
  rw [List.length_erase_of_mem hmem] at hle
  have hlength := List.length_pos_of_mem hmem
  omega

/-- `ExpireMatches` ends with no match past its deadline, and reaches no assertion. -/
lemma TablesInv.expireMatches (n : ℕ) (h : TablesInv t time) (hn : t.awaited.length ≤ n) :
    Ends SettleFails (fun t' => TablesInv t' time ∧ t.Extends t' ∧ t'.paid = t.paid ∧ t'.NoneDue time)
      (Tables.expireMatches env time n t) := by
  induction n generalizing t with
  | zero =>
    unfold Tables.expireMatches
    cases hfirst : t.nextDeadlineRow time with
    | none => exact .ok ⟨h, .refl t, rfl, Tables.nextDeadlineRow_none hfirst⟩
    | some row =>
      obtain ⟨hrow, -, hpos⟩ := Tables.nextDeadlineRow_some hfirst
      have hmem : row ∈ t.awaited := List.mem_filter.2 ⟨hrow, by simpa using hpos⟩
      exact absurd (List.length_pos_of_mem hmem) (by omega)
  | succ n ih =>
    unfold Tables.expireMatches
    cases hfirst : t.nextDeadlineRow time with
    | none => exact .ok ⟨h, .refl t, rfl, Tables.nextDeadlineRow_none hfirst⟩
    | some row =>
      obtain ⟨hrow, hdue, hpos⟩ := Tables.nextDeadlineRow_some hfirst
      refine (h.expireMatch hrow hdue hpos).bind ?_
      rintro t₁ ⟨hinv, hext, hpaid, hless⟩
      have hlt := Tables.awaited_lt hrow hpos hless
      refine (ih hinv (by omega)).mono ?_
      rintro t₂ ⟨hinv', hext', hpaid', hdone⟩
      exact ⟨hinv', hext.trans hext', hpaid'.trans hpaid, hdone⟩

/-- The rows that are pruned are not those of matches that can still be paid. -/
lemma TablesInv.pruneMatchingReqs (h : TablesInv t time) (hdue : t.NoneDue time) :
    TablesInv (t.pruneMatchingReqs time) time ∧ t.Extends (t.pruneMatchingReqs time) := by
  have hkeeps {n d : ℕ} (hk : t.KeepsUntil n d) (hd : time ≤ d) : (t.pruneMatchingReqs time).KeepsUntil n d := by
    obtain ⟨m, hm, hle⟩ := hk
    have hmem := KeyedTable.mem_of_select hm
    exact ⟨m, KeyedTable.select_eq_some.2 ⟨KeyedTable.mem_filter.2 ⟨hmem, by simpa using hd.trans hle⟩,
      KeyedTable.key_of_select hm⟩, hle⟩
  refine ⟨⟨fun row hrow => ?_, h.numbers, h.logged, h.paymentTime⟩, ⟨fun _ _ hx => hx, fun _ row hrow =>
    ⟨row, hrow, rfl, rfl⟩⟩⟩
  have hinv := h.rows row hrow
  refine ⟨hinv.life, hinv.requests, hinv.openDeadline, hinv.closed, fun hopen => ?_, hinv.expired⟩
  have hlate : time ≤ t.deadline row := by
    rcases hopen with hopen | hlate
    · obtain ⟨hnext, hpos⟩ := hinv.openDeadline hopen
      exact hnext ▸ hdue row hrow hpos
    · exact hlate
  have hkept := hinv.kept hopen
  exact ⟨hkeeps hkept.1 hlate, hkeeps hkept.2 hlate⟩

end Deadlines

section Block
variable {t t' : Tables} {time blocktime : ℕ} {env : LedgerEnv} {txs : List (List UInt8)}

/-- How a block may stop the node as it becomes indelible. -/
def BlockStops (e : LedgerError) : Prop := TxStops e ∨ MatchStops e

/-- A block whose matches are made of requests that were added keeps the tables. No assertion on matches fails, and if
its transactions were accepted, only the creation or the settlement of a match can fail, and every payment is processed
while its match is open or paid. -/
lemma TablesInv.indexBlock (h : TablesInv t time) (htime : time ≤ blocktime) (hreq : TimedRequests env.toEnv txs)
    (matchtime : ℕ) {pairs : List (Xreq × Xreq)}
    (hpairs : ∀ t₁, txs.foldlM (Tables.indexXtx env blocktime) t = .ok t₁ →
      ∀ pair ∈ pairs, t₁.Added pair.1 ∧ t₁.Added pair.2) :
    Ends (fun e => BlockStops e ∧ ((∀ wire ∈ txs, t.Accepts env.toEnv time wire) → MatchStops e))
      (fun t' => TablesInv t' blocktime ∧ t.Extends t' ∧
        PaidSince t t' (txs.filterMap (paidMatch env.toEnv)) (∀ wire ∈ txs, t.Accepts env.toEnv time wire))
      (t.indexBlock env blocktime txs matchtime pairs) := by
  have hstop (e : LedgerError) (he : MatchStops e) :
      BlockStops e ∧ ((∀ wire ∈ txs, t.Accepts env.toEnv time wire) → MatchStops e) := ⟨.inr he, fun _ => he⟩
  have htxs : Ends _ _ (txs.foldlM (Tables.indexXtx env blocktime) t) := h.indexTxs blocktime hreq
  have htxs' : Ends (fun e => BlockStops e ∧ ((∀ wire ∈ txs, t.Accepts env.toEnv time wire) → MatchStops e))
      (fun t₁ => txs.foldlM (Tables.indexXtx env blocktime) t = .ok t₁) (txs.foldlM (Tables.indexXtx env blocktime) t) :=
    ⟨fun e he => ⟨.inl (htxs.1 e he).1, fun haccepts => .inr ((htxs.1 e he).2 haccepts)⟩, fun _ ht₁ => ht₁⟩
  refine htxs'.bind fun t₁ ht₁ => ?_
  obtain ⟨hinv₁, hext₁, hpaid₁⟩ := htxs.2 t₁ ht₁
  refine ((hinv₁.makeMatches matchtime (hpairs t₁ ht₁)).mapError hstop).bind ?_
  rintro t₂ ⟨hinv₂, hext₂, hpaid₂⟩
  have hexpire : Ends _ _ (Tables.expireMatches env blocktime t₂.xmatches.rows.length t₂) :=
    (hinv₂.later htime).expireMatches t₂.xmatches.rows.length (List.length_filter_le ..)
  refine (hexpire.mapError fun e he => hstop e (.inr he)).bind ?_
  rintro t₃ ⟨hinv₃, hext₃, hpaid₃, hdue⟩
  obtain ⟨hinv₄, hext₄⟩ := hinv₃.pruneMatchingReqs hdue
  have hpaid : (t₃.pruneMatchingReqs blocktime).paid = t₁.paid := hpaid₃.trans hpaid₂
  refine .ok ⟨hinv₄, hext₁.trans (hext₂.trans (hext₃.trans hext₄)), ?_⟩
  obtain ⟨ps, hps, hnums, hopen⟩ := hpaid₁
  exact ⟨ps, hpaid.trans hps, hnums, hopen⟩

end Block

end CredaCash.Settlement
