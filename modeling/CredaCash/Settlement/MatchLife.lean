import CredaCash.Settlement.Ledger

/-! The life of a match in the exchange tables: from its insertion over payments to its settlement. -/

namespace CredaCash.Settlement
open Wire Chain Checks

/-- A match that can be paid. -/
def isOpen (s : XmatchStatus) : Bool := s = .accepted || s = .partPaidOpen

/-- A match that was closed at its deadline. -/
def isExpired (s : XmatchStatus) : Bool := s = .unpaidExpired || s = .partPaidExpired

/-- The events of a match up to its status. -/
inductive MatchLife : XmatchStatus → List MatchEvent → Prop
  | made : MatchLife .accepted [.insert .accepted]
  | partPaid {s : XmatchStatus} {es : List MatchEvent} (h : MatchLife s es) (hopen : isOpen s = true) :
      MatchLife .partPaidOpen (es ++ [.payment s, .insert .partPaidOpen])
  | paid {s : XmatchStatus} {es : List MatchEvent} (h : MatchLife s es) (hopen : isOpen s = true) :
      MatchLife .paid (es ++ [.payment s, .settle .paid, .insert .paid])
  | closedAgain {s : XmatchStatus} {es : List MatchEvent} (h : MatchLife s es) (hclosed : isOpen s = false) :
      MatchLife s (es ++ [.payment s])
  | unpaidExpired {es : List MatchEvent} (h : MatchLife .accepted es) :
      MatchLife .unpaidExpired (es ++ [.settle .unpaidExpired, .insert .unpaidExpired])
  | partPaidExpired {es : List MatchEvent} (h : MatchLife .partPaidOpen es) :
      MatchLife .partPaidExpired (es ++ [.settle .partPaidExpired, .insert .partPaidExpired])

/-- The statuses that were written to a match. -/
def written (es : List MatchEvent) : List XmatchStatus :=
  es.filterMap fun | .insert s => some s | _ => none

/-- The statuses with which `SettleMatch` was called. -/
def settlements (es : List MatchEvent) : List XmatchStatus :=
  es.filterMap fun | .settle s => some s | _ => none

namespace MatchLife
variable {s : XmatchStatus} {es : List MatchEvent}

/-- The statuses of a match: it is accepted, then part-paid for some payments, and then has one final status. -/
theorem written_eq (h : MatchLife s es) : ∃ k, written es = .accepted :: List.replicate k .partPaidOpen ++
    (if isOpen s then [] else [s]) ∧ (s = .accepted → k = 0) ∧ (s = .partPaidOpen → 0 < k) ∧
      (s = .unpaidExpired → k = 0) ∧ (s = .partPaidExpired → 0 < k) := by
  induction h with
  | made => exact ⟨0, rfl, by simp, by simp, by simp, by simp⟩
  | @partPaid s es h hopen ih =>
    obtain ⟨k, hk, -⟩ := ih
    refine ⟨k + 1, ?_, by simp, by simp, by simp, by simp⟩
    rw [hopen] at hk
    rw [written, List.filterMap_append, ← written, hk, List.replicate_succ']
    simp [isOpen]
  | @paid s es h hopen ih =>
    obtain ⟨k, hk, -⟩ := ih
    refine ⟨k, ?_, by simp, by simp, by simp, by simp⟩
    rw [hopen] at hk
    rw [written, List.filterMap_append, ← written, hk]
    simp [isOpen]
  | closedAgain h hclosed ih =>
    obtain ⟨k, hk, hrest⟩ := ih
    refine ⟨k, ?_, hrest⟩
    rw [written, List.filterMap_append, ← written, hk]
    simp
  | unpaidExpired h ih =>
    obtain ⟨k, hk, hzero, -⟩ := ih
    refine ⟨k, ?_, by simp, by simp, fun _ => hzero rfl, by simp⟩
    rw [written, List.filterMap_append, ← written, hk]
    simp [isOpen]
  | partPaidExpired h ih =>
    obtain ⟨k, hk, -, hpos, -⟩ := ih
    refine ⟨k, ?_, by simp, by simp, by simp, fun _ => hpos rfl⟩
    rw [written, List.filterMap_append, ← written, hk]
    simp [isOpen]

/-- A match is settled once, when it gets its final status. -/
theorem settlements_eq (h : MatchLife s es) : settlements es = if isOpen s then [] else [s] := by
  induction h with
  | made => rfl
  | partPaid h hopen ih =>
    rw [settlements, List.filterMap_append, ← settlements, ih, hopen]
    rfl
  | paid h hopen ih =>
    rw [settlements, List.filterMap_append, ← settlements, ih, hopen]
    rfl
  | closedAgain h hclosed ih =>
    rw [settlements, List.filterMap_append, ← settlements, ih]
    exact List.append_nil _
  | unpaidExpired h ih =>
    rw [settlements, List.filterMap_append, ← settlements, ih]
    rfl
  | partPaidExpired h ih =>
    rw [settlements, List.filterMap_append, ← settlements, ih]
    rfl

/-- A match is open, paid or expired. -/
theorem status_cases (h : MatchLife s es) : isOpen s = true ∨ s = .paid ∨ isExpired s = true := by
  induction h with
  | closedAgain h hclosed ih => exact ih
  | _ => simp [isOpen, isExpired]

end MatchLife

/-- What the tables keep for a match, up to the time of the last block. -/
structure RowInv (t : Tables) (time : ℕ) (row : MatchRow) : Prop where
  life : MatchLife row.status (t.events row.xmatchnum)
  requests : (t.reqs.select row.buyXreqnum).isSome = true ∧ (t.reqs.select row.sellXreqnum).isSome = true
  /-- A deadline is stored for an open match, -/
  openDeadline : isOpen row.status = true → row.nextDeadline = t.deadline row ∧ 0 < row.nextDeadline
  /-- and none for any other. -/
  closed : isOpen row.status = false → row.nextDeadline = 0
  /-- The rows of its requests are kept for as long as payments may come. -/
  kept : isOpen row.status = true ∨ time ≤ t.deadline row →
    t.KeepsUntil row.buyXreqnum (t.deadline row) ∧ t.KeepsUntil row.sellXreqnum (t.deadline row)
  expired : isExpired row.status = true → t.deadline row < time

/-- What the tables keep. -/
structure TablesInv (t : Tables) (time : ℕ) : Prop where
  rows : ∀ row ∈ t.xmatches, RowInv t time row
  numbers : ∀ row ∈ t.xmatches, row.xmatchnum < t.nextXmatchnum
  logged : ∀ e ∈ t.log, ∃ row ∈ t.xmatches, row.xmatchnum = e.1
  paymentTime : ∀ x ∈ t.reqs, 0 < x.paymentTime

/-- The payments that were processed, each with its match and the status that it found. -/
def Tables.paid (t : Tables) : List (ℕ × XmatchStatus) :=
  t.log.filterMap fun e => match e.2 with | .payment s => some (e.1, s) | _ => none

/-- A match is there, and can be paid up to a time. -/
def Tables.Payable (t : Tables) (xmatchnum time : ℕ) : Prop :=
  ∃ row, t.xmatches.select xmatchnum = some row ∧ time ≤ t.deadline row ∧
    (t.reqs.select row.sellXreqnum).isSome = true

section Inv
variable {t t' : Tables} {time time' : ℕ} {row : MatchRow} {j : JoinedMatch} {env : LedgerEnv}

lemma Tables.paid_append {log' : List (ℕ × MatchEvent)} (h : t'.log = t.log ++ log') : t'.paid =
    t.paid ++ log'.filterMap fun e => match e.2 with | .payment s => some (e.1, s) | _ => none := by
  rw [Tables.paid, h, List.filterMap_append, Tables.paid]

lemma Tables.paid_xmatchInsert (t : Tables) (j : JoinedMatch) : (t.xmatchInsert j).paid = t.paid := by
  rw [Tables.paid_append (Tables.xmatchInsert_log t j)]
  exact List.append_nil _

lemma Tables.Extends.isSome (h : t.Extends t') {n : ℕ} (hn : (t.reqs.select n).isSome = true) :
    (t'.reqs.select n).isSome = true := by
  obtain ⟨x, hx⟩ := Option.isSome_iff_exists.1 hn
  rw [h.reqs n x hx]
  rfl

lemma Tables.Extends.deadline_eq (h : t.Extends t') {row' : MatchRow} (hsell : row'.sellXreqnum = row.sellXreqnum)
    (htime : row'.matchTimestamp = row.matchTimestamp) (hreq : (t.reqs.select row.sellXreqnum).isSome = true) :
    t'.deadline row' = t.deadline row := by
  obtain ⟨x, hx⟩ := Option.isSome_iff_exists.1 hreq
  rw [Tables.deadline, Tables.deadline, hsell, htime, hx, h.reqs _ x hx]

lemma Tables.Payable.extends {n : ℕ} (h : t.Payable n time) (hext : t.Extends t') : t'.Payable n time := by
  obtain ⟨row, hrow, hdeadline, hreq⟩ := h
  obtain ⟨row', hrow', hsell, htime⟩ := hext.xmatches n row hrow
  refine ⟨row', hrow', ?_, ?_⟩
  · rw [hext.deadline_eq hsell htime hreq]
    exact hdeadline
  · rw [hsell]
    exact hext.isSome hreq

lemma RowInv.extends (h : RowInv t time row) (hext : t.Extends t') (hretains : t.Retains t') (htime : time ≤ time')
    (hevents : t'.events row.xmatchnum = t.events row.xmatchnum) : RowInv t' time' row := by
  have hdeadline : t'.deadline row = t.deadline row := hext.deadline_eq rfl rfl h.requests.2
  refine ⟨hevents ▸ h.life, ⟨hext.isSome h.requests.1, hext.isSome h.requests.2⟩, fun hopen => ?_, h.closed,
    fun hkept => ?_, fun hexpired => ?_⟩
  · rw [hdeadline]
    exact h.openDeadline hopen
  · rw [hdeadline] at hkept ⊢
    have hkept := h.kept (hkept.imp_right htime.trans)
    exact ⟨hretains _ _ hkept.1, hretains _ _ hkept.2⟩
  · rw [hdeadline]
    exact (h.expired hexpired).trans_le htime

lemma TablesInv.later (h : TablesInv t time) (htime : time ≤ time') : TablesInv t time' :=
  ⟨fun row hrow => (h.rows row hrow).extends (.refl t) (fun _ _ hkeeps => hkeeps) htime rfl, h.numbers, h.logged,
    h.paymentTime⟩

/-- There are no events of a match before it is made. -/
lemma TablesInv.events_nil (h : TablesInv t time) : t.events t.nextXmatchnum = [] := by
  rw [Tables.events, List.map_eq_nil_iff, List.filter_eq_nil_iff]
  intro e he heq
  obtain ⟨row, hrow, hnum⟩ := h.logged e he
  have hlt := h.numbers row hrow
  rw [hnum, of_decide_eq_true heq] at hlt
  exact lt_irrefl _ hlt

/-- A row that replaces that of the same match while it is open. -/
lemma RowInv.update (h : RowInv t time row) (hopen : isOpen row.status = true) {row' : MatchRow} (hext : t.Extends t')
    (hretains : t.Retains t') (hsame : Tables.SameColumns row row')
    (hlife : MatchLife row'.status (t'.events row'.xmatchnum))
    (hnext : isOpen row'.status = true → row'.nextDeadline = row.nextDeadline)
    (hclosed : isOpen row'.status = false → row'.nextDeadline = 0)
    (hexpired : isExpired row'.status = true → t.deadline row < time') : RowInv t' time' row' := by
  have hdeadline : t'.deadline row' = t.deadline row :=
    hext.deadline_eq hsame.sellXreqnum.symm hsame.matchTimestamp.symm h.requests.2
  refine ⟨hlife, ?_, fun hrow => ?_, hclosed, fun _ => ?_, fun hrow => hdeadline ▸ hexpired hrow⟩
  · rw [← hsame.buyXreqnum, ← hsame.sellXreqnum]
    exact ⟨hext.isSome h.requests.1, hext.isSome h.requests.2⟩
  · rw [hnext hrow, hdeadline]
    exact h.openDeadline hopen
  · rw [hdeadline, ← hsame.buyXreqnum, ← hsame.sellXreqnum]
    have hkept := h.kept (Or.inl hopen)
    exact ⟨hretains _ _ hkept.1, hretains _ _ hkept.2⟩

/-- Tables in which only the log, the counters and the parameters of mining differ. -/
structure SameRows (t t' : Tables) : Prop where
  xmatches : t'.xmatches = t.xmatches
  reqs : t'.reqs = t.reqs
  matching : t'.matching = t.matching

lemma SameRows.extends (h : SameRows t t') : t.Extends t' := by
  refine ⟨fun n x hx => h.reqs ▸ hx, fun n row hrow => ⟨row, h.xmatches ▸ hrow, rfl, rfl⟩⟩

lemma SameRows.retains (h : SameRows t t') : t.Retains t' := by
  rintro n d ⟨m, hm, hd⟩
  exact ⟨m, h.matching ▸ hm, hd⟩

/-- A match is written after some events of its own. -/
lemma TablesInv.write {t₁ : Tables} (h : TablesInv t time) (hrows : SameRows t t₁)
    (hnext : t.nextXmatchnum ≤ t₁.nextXmatchnum) (es : List MatchEvent)
    (hlog : t₁.log = t.log ++ es.map fun e => (j.row.xmatchnum, e))
    (hsame : ∀ old, t.xmatches.select j.row.xmatchnum = some old → Tables.SameColumns old j.row)
    (hnum : j.row.xmatchnum < t₁.nextXmatchnum) (hbuy : 0 < j.buy.paymentTime) (hsell : 0 < j.sell.paymentTime)
    (hrow : t.Extends (t₁.xmatchInsert j) → t.Retains (t₁.xmatchInsert j) →
      (t₁.xmatchInsert j).events j.row.xmatchnum =
        t.events j.row.xmatchnum ++ (es ++ [.insert j.row.status]) → RowInv (t₁.xmatchInsert j) time j.row) :
    TablesInv (t₁.xmatchInsert j) time ∧ t.Extends (t₁.xmatchInsert j) := by
  have hsame₁ : ∀ old, t₁.xmatches.select j.row.xmatchnum = some old → Tables.SameColumns old j.row :=
    fun old hold => hsame old (hrows.xmatches ▸ hold)
  have hext : t.Extends (t₁.xmatchInsert j) := hrows.extends.trans (Tables.extends_xmatchInsert hsame₁)
  have hretains : t.Retains (t₁.xmatchInsert j) := hrows.retains.trans (Tables.retains_xmatchInsert t₁ j)
  have hlog' : (t₁.xmatchInsert j).log =
      t.log ++ (es ++ [MatchEvent.insert j.row.status]).map fun e => (j.row.xmatchnum, e) := by
    rw [Tables.xmatchInsert_log, hlog, List.map_append, List.append_assoc]
    rfl
  have hevents (n : ℕ) : (t₁.xmatchInsert j).events n =
      t.events n ++ if n = j.row.xmatchnum then es ++ [.insert j.row.status] else [] := by
    rw [Tables.events_append hlog', List.filter_map, List.map_map]
    split_ifs with hn
    · rw [hn, List.filter_eq_self.2 (by simp)]
      exact congrArg _ (List.map_id _)
    · rw [List.filter_eq_nil_iff.2 (by simp [Ne.symm hn])]
      rfl
  have hrow' := hrow hext hretains (by rw [hevents, if_pos rfl])
  refine ⟨⟨fun row hmem => ?_, fun row hmem => ?_, fun e he => ?_, fun x hx => ?_⟩, hext⟩
  · rcases (Tables.xmatchInsert_mem hsame₁).1 hmem with ⟨hmem, hn⟩ | rfl
    · rw [hrows.xmatches] at hmem
      refine (h.rows row hmem).extends hext hretains (le_refl _) ?_
      rw [hevents, if_neg hn, List.append_nil]
    · exact hrow'
  · rcases (Tables.xmatchInsert_mem hsame₁).1 hmem with ⟨hmem, -⟩ | rfl
    · rw [hrows.xmatches] at hmem
      exact (h.numbers row hmem).trans_le hnext
    · exact hnum
  · rw [hlog'] at he
    rcases List.mem_append.1 he with he | he
    · obtain ⟨row, hmem, hn⟩ := h.logged e he
      by_cases hsame : row.xmatchnum = j.row.xmatchnum
      · exact ⟨j.row, (Tables.xmatchInsert_mem hsame₁).2 (Or.inr rfl), hsame ▸ hn⟩
      · exact ⟨row, (Tables.xmatchInsert_mem hsame₁).2 (Or.inl ⟨hrows.xmatches ▸ hmem, hsame⟩), hn⟩
    · obtain ⟨e', -, rfl⟩ := List.mem_map.1 he
      exact ⟨j.row, (Tables.xmatchInsert_mem hsame₁).2 (Or.inr rfl), rfl⟩
  · rcases Tables.xmatchInsert_reqs_mem hx with hx | rfl | rfl
    · exact h.paymentTime x (hrows.reqs ▸ hx)
    · exact hbuy
    · exact hsell

/-- An error of the settlement of a match, which stops the node. -/
def SettleFails (e : LedgerError) : Prop := ∃ e', e = .settle e'

/-- How a payment may stop the node. -/
def PaymentStops (e : LedgerError) : Prop := e = .foreignAmount ∨ e = .select ∨ SettleFails e

lemma Tables.settle_ends (t : Tables) (j : JoinedMatch) : Ends SettleFails (fun r => ∃ mining saved,
    r.1 = ({ t.note j.row.xmatchnum (.settle j.row.status) with saved := saved }).xmatchInsert
      { j with row := { j.row with miningAmount := mining } } ∧ (j.row.status ≠ .paid → r.2 = 0)) (t.settle env j) := by
  unfold Tables.settle
  dsimp only
  split
  · next e _ => exact .error ⟨e, rfl⟩
  · next r hr => exact .ok ⟨r.settled.miningAmount, r.saved, rfl, fun hpaid => settleMatch_donation hpaid hr⟩

lemma Tables.join_eq_some : t.join row = some j ↔ j.row = row ∧ t.reqs.select row.buyXreqnum = some j.buy ∧
    t.reqs.select row.sellXreqnum = some j.sell ∧ t.matching.select row.buyXreqnum = some j.buying ∧
    t.matching.select row.sellXreqnum = some j.selling := by
  unfold Tables.join
  constructor
  · intro h
    split at h
    · next buy sell buying selling hbuy hsell hbuying hselling =>
      obtain rfl := Option.some.inj h
      exact ⟨rfl, hbuy, hsell, hbuying, hselling⟩
    · cases h
  · rintro ⟨rfl, hbuy, hsell, hbuying, hselling⟩
    rw [hbuy, hsell, hbuying, hselling]

/-- The rows of the requests of a match are there while payments may come. -/
lemma RowInv.join (h : RowInv t time row) (hopen : isOpen row.status = true ∨ time ≤ t.deadline row) :
    ∃ j, t.join row = some j := by
  obtain ⟨buy, hbuy⟩ := Option.isSome_iff_exists.1 h.requests.1
  obtain ⟨sell, hsell⟩ := Option.isSome_iff_exists.1 h.requests.2
  obtain ⟨⟨buying, hbuying, -⟩, selling, hselling, -⟩ := h.kept hopen
  exact ⟨⟨row, buy, sell, buying, selling⟩, Tables.join_eq_some.2 ⟨rfl, hbuy, hsell, hbuying, hselling⟩⟩

/-- A match that is open gets another status after some events. -/
lemma TablesInv.rewrite (h : TablesInv t time) (hrow : row ∈ t.xmatches) (hopen : isOpen row.status = true)
    (hj : t.join row = some j) (t₁ : Tables) (row' : MatchRow) (es : List MatchEvent) (hrows : SameRows t t₁)
    (hnext : t₁.nextXmatchnum = t.nextXmatchnum)
    (hlog : t₁.log = t.log ++ es.map fun e => (row.xmatchnum, e)) (hsame : Tables.SameColumns row row')
    (hlife : MatchLife row'.status (t.events row.xmatchnum ++ (es ++ [.insert row'.status])))
    (hdeadline : isOpen row'.status = true → row'.nextDeadline = row.nextDeadline)
    (hclosed : isOpen row'.status = false → row'.nextDeadline = 0)
    (hexpired : isExpired row'.status = true → t.deadline row < time) :
    TablesInv (t₁.xmatchInsert { j with row := row' }) time ∧ t.Extends (t₁.xmatchInsert { j with row := row' }) := by
  obtain ⟨-, hbuy, hsell, -⟩ := Tables.join_eq_some.1 hj
  have hselect : t.xmatches.select row.xmatchnum = some row := KeyedTable.select_key hrow
  refine h.write hrows hnext.ge es (hsame.xmatchnum ▸ hlog) (fun old hold => ?_) ?_
    (h.paymentTime _ (KeyedTable.mem_of_select hbuy)) (h.paymentTime _ (KeyedTable.mem_of_select hsell))
    fun hext hretains hevents => ?_
  · have hold : t.xmatches.select row.xmatchnum = some old := hsame.xmatchnum ▸ hold
    obtain rfl := Option.some.inj (hselect.symm.trans hold)
    exact hsame
  · rw [hnext, ← hsame.xmatchnum]
    exact h.numbers row hrow
  · refine (h.rows row hrow).update hopen hext hretains hsame ?_ hdeadline hclosed hexpired
    rw [hevents, ← hsame.xmatchnum]
    exact hlife

/-- A payment for a match that is closed changes nothing. -/
lemma TablesInv.note_payment (h : TablesInv t time) (hrow : row ∈ t.xmatches) (hclosed : isOpen row.status = false) :
    TablesInv (t.note row.xmatchnum (.payment row.status)) time := by
  have hsame : SameRows t (t.note row.xmatchnum (.payment row.status)) := ⟨rfl, rfl, rfl⟩
  have hevents (n : ℕ) : (t.note row.xmatchnum (.payment row.status)).events n =
      t.events n ++ if n = row.xmatchnum then [.payment row.status] else [] := by
    rw [Tables.events_append (rfl : (t.note row.xmatchnum (.payment row.status)).log = _)]
    split_ifs with hn
    · rw [hn, List.filter_cons_of_pos (by simp)]
      rfl
    · rw [List.filter_cons_of_neg (by simp [Ne.symm hn])]
      rfl
  refine ⟨fun row' hrow' => ?_, h.numbers, fun e he => ?_, h.paymentTime⟩
  · have hinv := h.rows row' hrow'
    by_cases hn : row'.xmatchnum = row.xmatchnum
    · obtain rfl := KeyedTable.eq_of_key hrow' hrow hn
      refine ⟨?_, hinv.requests, hinv.openDeadline, hinv.closed, hinv.kept, hinv.expired⟩
      rw [hevents, if_pos rfl]
      exact hinv.life.closedAgain hclosed
    · refine hinv.extends hsame.extends hsame.retains (le_refl _) ?_
      rw [hevents, if_neg hn, List.append_nil]
  · rcases List.mem_append.1 he with he | he
    · exact h.logged e he
    · obtain rfl := List.mem_singleton.1 he
      exact ⟨row, hrow, rfl⟩

lemma isOpen_cases {s : XmatchStatus} (h : isOpen s = true) : s = .accepted ∨ s = .partPaidOpen := by
  simpa [isOpen] using h

lemma isOpen_of_not {s : XmatchStatus} (h : ¬ (s ≠ .accepted ∧ s ≠ .partPaidOpen)) : isOpen s = true := by
  rw [not_and_or, not_not, not_not] at h
  simpa [isOpen] using h

/-- A payment keeps the tables. Up to its deadline it finds its match open or paid, and only the settlement of the match
can fail. -/
lemma TablesInv.processXpayment (h : TablesInv t time) (xpay : Xpay) (blocktime : ℕ) :
    Ends (fun e => PaymentStops e ∧ (0 < xpay.foreignAmount → t.Payable xpay.xmatchnum time → SettleFails e))
      (fun t' => TablesInv t' time ∧ t.Extends t' ∧ ∃ s, t'.paid = t.paid ++ [(xpay.xmatchnum, s)] ∧
        (t.Payable xpay.xmatchnum time → isOpen s = true ∨ s = .paid))
      (t.processXpayment env blocktime xpay) := by
  unfold Tables.processXpayment Tables.xmatchSelect
  split_ifs with hamount
  · exact .error ⟨.inl rfl, fun hpos => absurd hamount (not_le.2 hpos)⟩
  cases hselect : t.xmatches.select xpay.xmatchnum with
  | none =>
    refine .error ⟨.inr (.inl rfl), ?_⟩
    rintro - ⟨row, hrow, -⟩
    cases hselect.symm.trans hrow
  | some row =>
    have hrow := KeyedTable.mem_of_select hselect
    have hnum : row.xmatchnum = xpay.xmatchnum := KeyedTable.key_of_select hselect
    have hinv := h.rows row hrow
    have hdeadline (hpayable : t.Payable xpay.xmatchnum time) : time ≤ t.deadline row := by
      obtain ⟨row', hrow', hle, -⟩ := hpayable
      exact Option.some.inj (hselect.symm.trans hrow') ▸ hle
    have hstatus (hpayable : t.Payable xpay.xmatchnum time) : isOpen row.status = true ∨ row.status = .paid := by
      rcases hinv.life.status_cases with hopen | hpaid | hexpired
      · exact .inl hopen
      · exact .inr hpaid
      · exact absurd (hinv.expired hexpired) (not_lt.2 (hdeadline hpayable))
    rw [Option.bind_some]
    cases hj : t.join row with
    | none =>
      refine .error ⟨.inr (.inl rfl), fun _ hpayable => ?_⟩
      obtain ⟨j, hj'⟩ := hinv.join (.inr (hdeadline hpayable))
      cases hj.symm.trans hj'
    | some j =>
      obtain rfl : j.row = row := (Tables.join_eq_some.1 hj).1
      dsimp only
      split_ifs with hclosed hleft
      · have hclosed : isOpen j.row.status = false := by simpa [isOpen] using hclosed
        exact .ok ⟨h.note_payment hrow hclosed, SameRows.extends ⟨rfl, rfl, rfl⟩, j.row.status,
          by rw [Tables.paid_append rfl, hnum]; rfl, hstatus⟩
      · have hopen := isOpen_of_not hclosed
        obtain ⟨hinv', hext⟩ := h.rewrite hrow hopen hj (t.note j.row.xmatchnum (.payment j.row.status))
          { j.row with status := .partPaidOpen, amountPaid := _ } [.payment j.row.status] ⟨rfl, rfl, rfl⟩ rfl rfl
          ⟨rfl, rfl, rfl, rfl, rfl, rfl, rfl⟩ (.partPaid hinv.life hopen) (fun _ => rfl)
          (fun hclosed => Bool.noConfusion hclosed) fun hexpired => Bool.noConfusion hexpired
        exact .ok ⟨hinv', hext, j.row.status,
          by rw [Tables.paid_xmatchInsert, Tables.paid_append rfl, hnum]; rfl, fun _ => .inl hopen⟩
      · have hopen := isOpen_of_not hclosed
        refine ((Tables.settle_ends _ _).mapError fun e he => ⟨.inr (.inr he), fun _ _ => he⟩).map ?_
        rintro ⟨t', donation⟩ ⟨mining, saved, rfl, -⟩
        obtain ⟨hinv', hext⟩ := h.rewrite hrow hopen hj
          { (t.note j.row.xmatchnum (.payment j.row.status)).note j.row.xmatchnum (.settle .paid) with saved := saved }
          { j.row with
            status := .paid, amountPaid := _, finalTimestamp := blocktime, nextDeadline := 0, miningAmount := mining }
          [.payment j.row.status, .settle .paid] ⟨rfl, rfl, rfl⟩ rfl (List.append_assoc ..)
          ⟨rfl, rfl, rfl, rfl, rfl, rfl, rfl⟩ (.paid hinv.life hopen) (fun hpaid => Bool.noConfusion hpaid)
          (fun _ => rfl) fun hexpired => Bool.noConfusion hexpired
        refine ⟨hinv', hext, j.row.status, ?_, fun _ => .inl hopen⟩
        rw [Tables.paid_xmatchInsert, Tables.paid_append (List.append_assoc ..), hnum]
        rfl

/-- The status with which an open match is closed at its deadline. -/
lemma closing_life {s : XmatchStatus} {es : List MatchEvent} (h : MatchLife s es) (hopen : isOpen s = true) :
    let closing : XmatchStatus := if s = .accepted then .unpaidExpired else .partPaidExpired
    isOpen closing = false ∧ isExpired closing = true ∧
      MatchLife closing (es ++ ([.settle closing] ++ [.insert closing])) := by
  rcases isOpen_cases hopen with rfl | rfl
  · exact ⟨rfl, rfl, .unpaidExpired h⟩
  · exact ⟨rfl, rfl, .partPaidExpired h⟩

/-- One turn of `ExpireMatches` closes a match that is past its deadline. -/
lemma TablesInv.expireMatch (h : TablesInv t time) (hrow : row ∈ t.xmatches) (hdue : row.nextDeadline < time)
    (hpos : 0 < row.nextDeadline) : Ends SettleFails (fun t' => TablesInv t' time ∧ t.Extends t' ∧ t'.paid = t.paid ∧
      ∀ row', row' ∈ t'.xmatches → 0 < row'.nextDeadline → row' ∈ t.xmatches ∧ row'.xmatchnum ≠ row.xmatchnum)
      (t.expireMatch env time row) := by
  have hinv := h.rows row hrow
  have hopen : isOpen row.status = true := by
    refine Bool.eq_true_of_not_eq_false fun hclosed => ?_
    exact hpos.ne' (hinv.closed hclosed)
  obtain ⟨j, hj⟩ := hinv.join (Or.inl hopen)
  obtain rfl : j.row = row := (Tables.join_eq_some.1 hj).1
  have hdeadline : t.deadline j.row < time := (hinv.openDeadline hopen).1 ▸ hdue
  have hstatus : ¬ (j.row.status ≠ .accepted ∧ j.row.status ≠ .partPaidOpen) := by
    rw [not_and_or, not_not, not_not]
    simpa [isOpen] using hopen
  unfold Tables.expireMatch
  rw [hj]
  dsimp only
  rw [if_neg hstatus]
  have hlife := closing_life hinv.life hopen
  generalize hclosing :
      (if j.row.status = .accepted then XmatchStatus.unpaidExpired else .partPaidExpired) = closing at hlife ⊢
  obtain ⟨hclosed, hexpired, hlife⟩ := hlife
  refine (Tables.settle_ends _ _).bind ?_
  rintro ⟨t', donation⟩ ⟨mining, saved, rfl, hdonation⟩
  have hunpaid : closing ≠ .paid := fun hpaid => (by subst hpaid; cases hexpired)
  dsimp only at hdonation ⊢
  rw [if_neg (not_not.2 (hdonation hunpaid))]
  have hsame : Tables.SameColumns j.row { j.row with
      status := closing, finalTimestamp := time, nextDeadline := 0, miningAmount := mining } :=
    ⟨rfl, rfl, rfl, rfl, rfl, rfl, rfl⟩
  obtain ⟨hinv', hext⟩ := h.rewrite hrow hopen hj { t.note j.row.xmatchnum (.settle closing) with saved := saved }
    { j.row with status := closing, finalTimestamp := time, nextDeadline := 0, miningAmount := mining }
    [.settle closing] ⟨rfl, rfl, rfl⟩ rfl rfl hsame hlife (fun hopen => absurd hopen (by simp [hclosed]))
    (fun _ => rfl) fun _ => hdeadline
  refine .ok ⟨hinv', hext, ?_, fun row' hrow' hpos' => ?_⟩
  · rw [Tables.paid_xmatchInsert, Tables.paid_append rfl]
    exact List.append_nil _
  have hold (old : MatchRow) (hselect : t.xmatches.select j.row.xmatchnum = some old) : Tables.SameColumns old
      { j.row with status := closing, finalTimestamp := time, nextDeadline := 0, miningAmount := mining } := by
    obtain rfl := Option.some.inj ((KeyedTable.select_key hrow).symm.trans hselect)
    exact hsame
  rcases (Tables.xmatchInsert_mem hold).1 hrow' with hother | rfl
  · exact hother
  · exact absurd hpos' (lt_irrefl 0)

end Inv

end CredaCash.Settlement
