import CredaCash.Chain.BlockTime

/-! What the cache of valid transactions changes in the verdict on a block: the rules of a transaction
that depend on the time or on tables that change, which a cached transaction is not held to again. -/

namespace CredaCash.Chain
open Wire Checks

section Rules
variable (env : Env) (view : NodeView) (priorBlocktime : ℕ) (inBlock : Bool)

/-- What a valid transaction passes, with the result of its validation by type and the root of its
parameter level. -/
structure Passes (tx : TxPay) (wire : List UInt8) (typed : Typed) (root : CommitRoot) : Prop where
  fields : checkTxFields env tx = .ok ()
  extracts : ¬ (extractXtx env tx = none ∧ extractXtxFailed tx false = true)
  byType : validateByType env view priorBlocktime inBlock tx (extractXtx env tx) (txSize wire)
    (tx.outputs.map (·.repeatCount + 1)).sum = .ok typed
  age : ¬ (env.maxParamAge < paramAge view priorBlocktime typed.tx.paramLevel ∧ typed.tx.tagType.hasBareMsg = false)
  level : view.db.commitRootsSelectLevel typed.tx.paramLevel false = some root
  proof : ¬ (typed.tx.tagType.hasBareMsg = false ∧ env.proofFails (setParamLevel env typed.tx root) = true)
  unspent : typed.tx.tagType ≠ .mint → checkSerialnums view.db
    (pseudoSerialnum env (setParamLevel env typed.tx root) typed.xtx wire false).inputs = .ok ()
  payment : typed.tx.tagType ≠ .mint → checkPayment env priorBlocktime inBlock typed = .ok ()

lemma checkParamLevel_eq_ok {tx tx' : TxPay} : checkParamLevel env view priorBlocktime tx = .ok tx' ↔
    ¬ (env.maxParamAge < paramAge view priorBlocktime tx.paramLevel ∧ tx.tagType.hasBareMsg = false) ∧
      ∃ root, view.db.commitRootsSelectLevel tx.paramLevel false = some root ∧ setParamLevel env tx root = tx' := by
  rw [checkParamLevel, reject_bind_eq_ok]
  refine and_congr_right fun _ => ?_
  cases view.db.commitRootsSelectLevel tx.paramLevel false with
  | none => exact ⟨fun h => (by cases h), fun ⟨_, h, _⟩ => (by cases h)⟩
  | some root => exact ⟨fun h => ⟨root, rfl, Except.ok.inj h⟩, fun ⟨_, h, h'⟩ => (by cases h; exact congrArg Except.ok h')⟩

lemma checkTx_eq_ok {tx : TxPay} {wire : List UInt8} : checkTx env view priorBlocktime inBlock tx wire = .ok () ↔
    ∃ typed root, Passes env view priorBlocktime inBlock (setTxDefaults env tx) wire typed root := by
  simp only [checkTx, bind_eq_ok, reject_eq_ok, checkParamLevel_eq_ok]
  constructor
  · rintro ⟨_, hfields, _, hextracts, typed, htyped, _, ⟨hage, root, hroot, rfl⟩, _, hproof, hrest⟩
    refine ⟨typed, root, hfields, hextracts, htyped, hage, hroot, hproof, fun hmint => ?_, fun hmint => ?_⟩
    all_goals
      rw [if_neg (show (setParamLevel env typed.tx root).tagType ≠ .mint from hmint)] at hrest
      obtain ⟨_, hunspent, hpayment⟩ := bind_eq_ok.1 hrest
      assumption
  · rintro ⟨typed, root, h⟩
    refine ⟨(), h.fields, (), h.extracts, typed, h.byType, _, ⟨h.age, root, h.level, rfl⟩, (), h.proof, ?_⟩
    split_ifs with hmint
    · rfl
    · exact bind_eq_ok.2 ⟨(), h.unspent hmint, h.payment hmint⟩

/-- The donation of a transaction and the rules of a request only set two values of it. -/
lemma validateByType_tx {tx : TxPay} {xtx : Option Xtx} {size nout : ℕ} {typed : Typed}
    (h : validateByType env view priorBlocktime inBlock tx xtx size nout = .ok typed) :
    typed.tx = { tx with amountCarryOut := typed.tx.amountCarryOut
                         allowRestrictedAddresses := typed.tx.allowRestrictedAddresses } := by
  cases xtx with
  | none =>
    obtain ⟨tx', hdonation, hrest⟩ := bind_eq_ok.1 h
    obtain rfl := Except.ok.inj hrest
    unfold checkDonation at hdonation
    split_ifs at hdonation
    · obtain ⟨-, hdonation⟩ := reject_bind_eq_ok.1 hdonation
      obtain rfl := Except.ok.inj hdonation
      rfl
    · obtain ⟨-, hdonation⟩ := reject_bind_eq_ok.1 hdonation
      obtain rfl := Except.ok.inj hdonation
      rfl
  | some xtx =>
    cases xtx with
    | xreq x =>
      obtain ⟨tx', hreq, hrest⟩ := bind_eq_ok.1 h
      obtain rfl := Except.ok.inj hrest
      simp only [validateXreq, bind_eq_ok, reject_eq_ok] at hreq
      obtain ⟨_, -, _, -, _, -, _, -, _, -, hreq⟩ := hreq
      obtain rfl := Except.ok.inj hreq
      rfl
    | xpay xpay =>
      obtain ⟨_, -, hrest⟩ := bind_eq_ok.1 h
      obtain rfl := Except.ok.inj hrest
      rfl

/-- What a payment claim asks of its match, apart from the terms of the match. -/
structure MatchOpen (xpay : Xpay) (m : Xmatch) : Prop where
  selected : view.db.xmatchSelect xpay.xmatchnum = some m
  status : m.status = .accepted ∨ m.status = .partPaidOpen
  haveXreqs : m.haveXreqs = true
  deadline : priorBlocktime ≤ m.matchTimestamp + m.xsell.paymentTime
  foreignAddress : m.xsell.foreignAddress ≠ ""
  foreign : validateForeign env priorBlocktime inBlock (setMatchFieldsInXpay env m xpay) = .ok ()

/-- The rules of a transaction that depend on the time or on tables that change. -/
structure InTime (tx : TxPay) (wire : List UInt8) : Prop where
  age : tx.tagType.hasBareMsg = false → paramAge view priorBlocktime tx.paramLevel ≤ env.maxParamAge
  request : ∀ x, extractXtx env tx = some (.xreq x) → checkExpireTime priorBlocktime x = .ok () ∧
    checkForeignAddressFree env view priorBlocktime inBlock x = .ok ()
  payment : ∀ xpay, extractXtx env tx = some (.xpay xpay) → ∃ m, MatchOpen env view priorBlocktime inBlock xpay m
  unspent : tx.tagType ≠ .mint → checkSerialnums view.db
    (pseudoSerialnum env tx (extractXtxWithMatch env view.db tx) wire false).inputs = .ok ()

/-- What a payment claim asks of itself and of the terms of its match. -/
structure MatchTerms (xpay : Xpay) (m : Xmatch) : Prop where
  xmatchnum : xpay.xmatchnum ≠ 0
  foreignAmount : ¬ xpay.foreignAmount ≤ 0
  foreignTxid : xpay.foreignTxid ≠ ""
  matchTimestamp : m.matchTimestamp ≠ 0
  paymentTime : m.xsell.paymentTime ≠ 0
  quoteAsset : ¬ (m.xsell.quoteAsset < 1 ∨ blockchainBch < m.xsell.quoteAsset)
  confirmations : ¬ m.xsell.confirmations ≤ 0
  foreignBlockId : xpay.foreignBlockId ≠ ""

lemma validateXpay_eq_ok {xpay : Xpay} {res : Xpay × Bool} : validateXpay env view priorBlocktime xpay = .ok res ↔
    ∃ m, view.db.xmatchSelect xpay.xmatchnum = some m ∧ MatchTerms xpay m ∧
      (m.status = .accepted ∨ m.status = .partPaidOpen ∨ m.status = .paid) ∧ m.haveXreqs = true ∧
      priorBlocktime ≤ m.matchTimestamp + m.xsell.paymentTime ∧ m.xsell.foreignAddress ≠ "" ∧
      res = (setMatchFieldsInXpay env m xpay, decide (m.status = .paid)) := by
  unfold validateXpay
  simp only [reject_bind_eq_ok]
  cases view.db.xmatchSelect xpay.xmatchnum with
  | none =>
    constructor
    · rintro ⟨_, _, _, h⟩
      cases h
    · rintro ⟨_, h, _⟩
      cases h
  | some m =>
    simp only [reject_bind_eq_ok, Option.some.injEq, exists_eq_left']
    constructor
    · rintro ⟨hnum, hamount, htxid, hstatus, hreqs, hstamp, hpay, hdeadline, hasset, haddress, hconf, hid, h⟩
      exact ⟨⟨hnum, hamount, htxid, hstamp, hpay, hasset, hconf, hid⟩, by tauto, by simpa using hreqs,
        not_lt.1 hdeadline, haddress, (Except.ok.inj h).symm⟩
    · rintro ⟨⟨hnum, hamount, htxid, hstamp, hpay, hasset, hconf, hid⟩, hstatus, hreqs, hdeadline, haddress, rfl⟩
      exact ⟨hnum, hamount, htxid, by tauto, by simp [hreqs], hstamp, hpay, not_lt.2 hdeadline, hasset, haddress,
        hconf, hid, rfl⟩

lemma validateXreq_eq_ok {tx tx' : TxPay} {x : Xreq} {size nout : ℕ} :
    validateXreq env view priorBlocktime inBlock tx x size nout = .ok tx' ↔
      checkXreqValues env tx x = .ok () ∧ checkForeignAddressFree env view priorBlocktime inBlock x = .ok () ∧
      ¬ (donationOf tx < xreqMinDonation env tx x size nout ∧ tx.donationFp < donationMask) ∧
      checkExpireTime priorBlocktime x = .ok () ∧
      ¬ (x.type = .nakedBuy ∧ env.powFails (tx.appendData.take tx.appendDataLength) = true) ∧
      tx' = { tx with amountCarryOut := amountCarryOut x } := by
  simp only [validateXreq, bind_eq_ok, reject_eq_ok]
  constructor
  · rintro ⟨_, hvalues, _, hfree, _, hdonation, _, hexpire, _, hpow, h⟩
    exact ⟨hvalues, hfree, hdonation, hexpire, hpow, (Except.ok.inj h).symm⟩
  · rintro ⟨hvalues, hfree, hdonation, hexpire, hpow, rfl⟩
    exact ⟨(), hvalues, (), hfree, (), hdonation, (), hexpire, (), hpow, rfl⟩

/-- What the rules on serial numbers read of an input. -/
def inputKey (txin : TxIn) : ℕ × ℕ × Bool := (txin.serialnum, txin.hashkey, txin.noSerialnum)

lemma serialnumsSpent_congr (db : PersistentDb) {inputs inputs' : List TxIn}
    (h : inputs.map inputKey = inputs'.map inputKey) (seen : List ℕ) (notSpent spent : Bool) (commitnum : ℕ) :
    serialnumsSpent db seen notSpent spent commitnum inputs = serialnumsSpent db seen notSpent spent commitnum inputs' := by
  induction inputs generalizing inputs' seen notSpent spent commitnum with
  | nil =>
    obtain rfl := List.map_eq_nil_iff.1 h.symm
    rfl
  | cons txin rest ih =>
    obtain ⟨txin', rest', rfl, hkey, hrest⟩ := List.map_eq_cons_iff.1 h.symm
    obtain ⟨hserialnum, hkey⟩ := Prod.mk.inj hkey
    obtain ⟨hhashkey, -⟩ := Prod.mk.inj hkey
    simp only [serialnumsSpent, hserialnum, hhashkey, ih hrest.symm]

lemma pseudoSerialnum_congr {tx tx' : TxPay} (htype : tx.tagType = tx'.tagType)
    (h : tx.inputs.map inputKey = tx'.inputs.map inputKey) (xtx : Option Xtx) (wire : List UInt8) (persistent : Bool) :
    (pseudoSerialnum env tx xtx wire persistent).inputs.map inputKey =
      (pseudoSerialnum env tx' xtx wire persistent).inputs.map inputKey := by
  have hany : tx.inputs.any (!·.noSerialnum) = tx'.inputs.any (!·.noSerialnum) := by
    have hmap (inputs : List TxIn) : inputs.any (!·.noSerialnum) = (inputs.map inputKey).any (!·.2.2) := by
      rw [List.any_map]
      rfl
    rw [hmap, hmap, h]
  unfold pseudoSerialnum
  simp only [htype, hany]
  split_ifs
  · exact h
  · simp only [List.map_append, List.map_dropLast, h]
  · simp only [List.map_append, h]

lemma setParamLevel_keys (tx : TxPay) (root : CommitRoot) :
    (setParamLevel env tx root).inputs.map inputKey = tx.inputs.map inputKey := by
  simp only [setParamLevel, List.map_map]
  refine List.map_congr_left fun txin _ => ?_
  simp only [Function.comp_apply]
  split_ifs <;> rfl

lemma setTxDefaults_keys (tx : TxPay) : (setTxDefaults env tx).inputs.map inputKey = tx.inputs.map inputKey := by
  simp only [setTxDefaults, List.map_map]
  rfl

lemma validateByType_xtx {tx : TxPay} {size nout : ℕ} {typed : Typed}
    (h : validateByType env view priorBlocktime inBlock tx (extractXtx env tx) size nout = .ok typed) :
    typed.xtx = extractXtxWithMatch env view.db tx := by
  unfold extractXtxWithMatch
  generalize extractXtx env tx = xtx at h ⊢
  obtain - | ⟨x | xpay⟩ := xtx
  · obtain ⟨_, -, hrest⟩ := bind_eq_ok.1 h
    obtain rfl := Except.ok.inj hrest
    rfl
  · obtain ⟨_, -, hrest⟩ := bind_eq_ok.1 h
    obtain rfl := Except.ok.inj hrest
    rfl
  · obtain ⟨_, hxpay, hrest⟩ := bind_eq_ok.1 h
    obtain rfl := Except.ok.inj hrest
    obtain ⟨m, hm, -, -, -, -, -, rfl⟩ := (validateXpay_eq_ok env view priorBlocktime).1 hxpay
    simp only [hm, Option.map_some]

/-- The serial numbers of a valid transaction are those of the transaction as it was parsed. -/
lemma checkSerialnums_typed {tx : TxPay} {wire : List UInt8} {typed : Typed} {size nout : ℕ} {root : CommitRoot}
    (h : validateByType env view priorBlocktime inBlock (setTxDefaults env tx)
      (extractXtx env (setTxDefaults env tx)) size nout = .ok typed) :
    checkSerialnums view.db (pseudoSerialnum env (setParamLevel env typed.tx root) typed.xtx wire false).inputs =
      checkSerialnums view.db
        (pseudoSerialnum env tx (extractXtxWithMatch env view.db tx) wire false).inputs := by
  have hxtx : typed.xtx = extractXtxWithMatch env view.db (setTxDefaults env tx) :=
    validateByType_xtx env view priorBlocktime inBlock h
  have htx := validateByType_tx env view priorBlocktime inBlock h
  have hkeys : (setParamLevel env typed.tx root).inputs.map inputKey = tx.inputs.map inputKey := by
    rw [setParamLevel_keys, htx]
    exact setTxDefaults_keys env tx
  have htype : (setParamLevel env typed.tx root).tagType = tx.tagType := by
    change typed.tx.tagType = tx.tagType
    rw [htx]
    rfl
  rw [hxtx, checkSerialnums, checkSerialnums, serialnumsSpent_congr view.db (pseudoSerialnum_congr env htype hkeys ..)]
  rfl

/-- A valid transaction is in time. -/
lemma Passes.inTime {tx : TxPay} {wire : List UInt8} {typed : Typed} {root : CommitRoot}
    (h : Passes env view priorBlocktime inBlock (setTxDefaults env tx) wire typed root) :
    InTime env view priorBlocktime inBlock tx wire := by
  have htx := validateByType_tx env view priorBlocktime inBlock h.byType
  have htype : typed.tx.tagType = tx.tagType := by rw [htx]; rfl
  have hlevel : typed.tx.paramLevel = tx.paramLevel := by rw [htx]; rfl
  refine ⟨fun hbare => ?_, fun x hx => ?_, fun xpay hxpay => ?_, fun hmint => ?_⟩
  · have hage := h.age
    rw [htype, hlevel] at hage
    exact not_lt.1 fun hlt => hage ⟨hlt, hbare⟩
  · have hbyType := h.byType
    rw [show extractXtx env (setTxDefaults env tx) = some (.xreq x) from hx] at hbyType
    obtain ⟨_, hreq, -⟩ := bind_eq_ok.1 hbyType
    obtain ⟨-, hfree, -, hexpire, -⟩ := (validateXreq_eq_ok env view priorBlocktime inBlock).1 hreq
    exact ⟨hexpire, hfree⟩
  · have hbyType := h.byType
    rw [show extractXtx env (setTxDefaults env tx) = some (.xpay xpay) from hxpay] at hbyType
    obtain ⟨_, hpay, hrest⟩ := bind_eq_ok.1 hbyType
    obtain ⟨m, hm, -, hstatus, hreqs, hdeadline, haddress, rfl⟩ := (validateXpay_eq_ok env view priorBlocktime).1 hpay
    obtain rfl := Except.ok.inj hrest
    have hmint : tx.tagType ≠ .mint := by
      intro hmint
      rw [extractXtx, hmint] at hxpay
      cases hxpay
    obtain ⟨hpaid, hforeign⟩ := reject_bind_eq_ok.1 (h.payment hmint)
    exact ⟨m, hm, by simp only [decide_eq_true_eq] at hpaid; tauto, hreqs, hdeadline, haddress, hforeign⟩
  · rw [← checkSerialnums_typed env view priorBlocktime inBlock h.byType]
    exact h.unspent (htype ▸ hmint)

end Rules

/-- The database of an earlier point of the same chain: serial numbers and roots are only added, and the
terms of a match stay as they are for as long as its requests are kept. -/
structure PersistentDb.EarlierThan (db db' : PersistentDb) : Prop where
  serialnums : db.serialnums <+: db'.serialnums
  commitRoots : db.commitRoots <+: db'.commitRoots
  blocked : db.blockedForeignAddresses = db'.blockedForeignAddresses
  terms : ∀ xmatchnum m m', db.xmatchSelect xmatchnum = some m → db'.xmatchSelect xmatchnum = some m' →
    m'.haveXreqs = true → m'.matchTimestamp = m.matchTimestamp ∧ m'.xsell.quoteAsset = m.xsell.quoteAsset ∧
      m'.xsell.confirmations = m.xsell.confirmations ∧ m'.xsell.paymentTime = m.xsell.paymentTime

@[refl] lemma PersistentDb.EarlierThan.refl (db : PersistentDb) : db.EarlierThan db where
  serialnums := List.prefix_rfl
  commitRoots := List.prefix_rfl
  blocked := rfl
  terms xmatchnum m m' h h' _ := by
    obtain rfl := Option.some.inj (h.symm.trans h')
    exact ⟨rfl, rfl, rfl, rfl⟩

section Again
variable {env : Env} {view view' : NodeView} {priorBlocktime priorBlocktime' : ℕ} {inBlock inBlock' : Bool}

lemma PersistentDb.EarlierThan.selectLevel {db db' : PersistentDb} (h : db.EarlierThan db') {level : ℕ}
    {root : CommitRoot} (hroot : db.commitRootsSelectLevel level false = some root) :
    db'.commitRootsSelectLevel level false = some root := by
  obtain ⟨later, hlater⟩ := h.commitRoots
  unfold PersistentDb.commitRootsSelectLevel at hroot ⊢
  rw [← hlater, List.find?_append]
  cases hfind : db.commitRoots.find? (level ≤ ·.level) with
  | none => rw [hfind] at hroot; cases hroot
  | some r => rwa [hfind] at hroot

lemma MatchTerms.again {db db' : PersistentDb} (h : db.EarlierThan db') {xpay : Xpay} {m m' : Xmatch}
    (hterms : MatchTerms xpay m) (hm : db.xmatchSelect xpay.xmatchnum = some m)
    (hm' : db'.xmatchSelect xpay.xmatchnum = some m') (hreqs : m'.haveXreqs = true) : MatchTerms xpay m' := by
  obtain ⟨htime, hasset, hconf, hpay⟩ := h.terms _ m m' hm hm' hreqs
  exact ⟨hterms.xmatchnum, hterms.foreignAmount, hterms.foreignTxid, htime ▸ hterms.matchTimestamp,
    hpay ▸ hterms.paymentTime, hasset ▸ hterms.quoteAsset, hconf ▸ hterms.confirmations, hterms.foreignBlockId⟩

/-- The rules of each type at a later point. -/
lemma validateByType_again (hdb : view.db.EarlierThan view'.db) {tx : TxPay} {size nout : ℕ} {typed : Typed}
    {wire : List UInt8}
    (h : validateByType env view priorBlocktime inBlock (setTxDefaults env tx)
      (extractXtx env (setTxDefaults env tx)) size nout = .ok typed)
    (htime : InTime env view' priorBlocktime' inBlock' tx wire) :
    ∃ typed', validateByType env view' priorBlocktime' inBlock' (setTxDefaults env tx)
        (extractXtx env (setTxDefaults env tx)) size nout = .ok typed' ∧
      typed'.tx = typed.tx ∧ checkPayment env priorBlocktime' inBlock' typed' = .ok () := by
  have hrequest (x) (hx : extractXtx env (setTxDefaults env tx) = some (.xreq x)) := htime.request x hx
  have hpayment (xpay) (hx : extractXtx env (setTxDefaults env tx) = some (.xpay xpay)) := htime.payment xpay hx
  generalize extractXtx env (setTxDefaults env tx) = xtx at h hrequest hpayment ⊢
  obtain - | ⟨x | xpay⟩ := xtx
  · obtain ⟨tx', hdonation, hrest⟩ := bind_eq_ok.1 h
    obtain rfl := Except.ok.inj hrest
    exact ⟨_, h, rfl, rfl⟩
  · obtain ⟨tx', hreq, hrest⟩ := bind_eq_ok.1 h
    obtain rfl := Except.ok.inj hrest
    obtain ⟨hvalues, -, hdonation, -, hpow, htx⟩ := (validateXreq_eq_ok ..).1 hreq
    obtain ⟨hexpire, hfree⟩ := hrequest x rfl
    exact ⟨_, bind_eq_ok.2 ⟨tx', (validateXreq_eq_ok ..).2 ⟨hvalues, hfree, hdonation, hexpire, hpow, htx⟩, rfl⟩,
      rfl, rfl⟩
  · obtain ⟨_, hpay, hrest⟩ := bind_eq_ok.1 h
    obtain rfl := Except.ok.inj hrest
    obtain ⟨m, hm, hterms, -⟩ := (validateXpay_eq_ok ..).1 hpay
    obtain ⟨m', hopen⟩ := hpayment xpay rfl
    have hpaid : m'.status ≠ .paid := by
      rcases hopen.status with h | h <;> rw [h] <;> decide
    exact ⟨_, bind_eq_ok.2 ⟨_, (validateXpay_eq_ok ..).2 ⟨m', hopen.selected,
      hterms.again hdb hm hopen.selected hopen.haveXreqs, by have := hopen.status; tauto, hopen.haveXreqs,
      hopen.deadline, hopen.foreignAddress, rfl⟩, rfl⟩, rfl,
      reject_bind_eq_ok.2 ⟨by simpa using hpaid, hopen.foreign⟩⟩

/-- A transaction that was valid at an earlier point, and is in time, is valid again. -/
lemma Passes.again (hdb : view.db.EarlierThan view'.db) {tx : TxPay} {wire : List UInt8} {typed : Typed}
    {root : CommitRoot} (h : Passes env view priorBlocktime inBlock (setTxDefaults env tx) wire typed root)
    (htime : InTime env view' priorBlocktime' inBlock' tx wire) :
    ∃ typed', Passes env view' priorBlocktime' inBlock' (setTxDefaults env tx) wire typed' root := by
  obtain ⟨typed', hbyType, hsame, hpayment⟩ := validateByType_again hdb h.byType htime
  have htx := validateByType_tx env view' priorBlocktime' inBlock' hbyType
  have htype : typed'.tx.tagType = tx.tagType := by rw [htx]; rfl
  have hlevel : typed'.tx.paramLevel = tx.paramLevel := by rw [htx]; rfl
  refine ⟨typed', h.fields, h.extracts, hbyType, ?_, hdb.selectLevel (hsame ▸ h.level), hsame ▸ h.proof,
    fun hmint => ?_, fun _ => hpayment⟩
  · rw [htype, hlevel]
    exact fun ⟨hlt, hbare⟩ => (htime.age hbare).not_gt hlt
  · rw [checkSerialnums_typed env view' priorBlocktime' inBlock' hbyType]
    exact htime.unspent (htype ▸ hmint)

end Again

/-- A point of a chain, up to a given state of its database, at which a node validates. -/
structure EarlierPoint (db : PersistentDb) where
  view : NodeView
  priorBlocktime : ℕ
  inBlock : Bool
  earlier : view.db.EarlierThan db

/-- A transaction passed validation at some point. -/
def EverValid (env : Env) (db : PersistentDb) (wire : List UInt8) : Prop :=
  ∃ p : EarlierPoint db, txValidate env p.view p.priorBlocktime p.inBlock wire = .ok ()

/-- The cache of valid transactions. -/
structure TxCache (env : Env) (db : PersistentDb) where
  txs : List (List UInt8)
  valid : ∀ wire ∈ txs, EverValid env db wire

/-- The rules that depend on the time or on tables that change, for the bytes of a transaction. -/
def MeetsTimeRules (env : Env) (view : NodeView) (priorBlocktime : ℕ) (inBlock : Bool) (wire : List UInt8) : Prop :=
  ∀ tx, (txFromWire env.blake2s wire {}).1 = .ok tx →
    InTime env view (blockchainTime view priorBlocktime) inBlock tx wire

theorem txValidate_again (env : Env) (view : NodeView) (priorBlocktime : ℕ) (inBlock : Bool) {wire : List UInt8}
    (h : EverValid env view.db wire) :
    txValidate env view priorBlocktime inBlock wire = .ok () ↔ MeetsTimeRules env view priorBlocktime inBlock wire := by
  obtain ⟨p, hp⟩ := h
  unfold txValidate at hp ⊢
  unfold MeetsTimeRules
  generalize (txFromWire env.blake2s wire {}).1 = parsed at hp ⊢
  cases parsed with
  | error e => cases hp
  | ok tx =>
    obtain ⟨typed, root, hpasses⟩ := (checkTx_eq_ok ..).1 hp
    simp only [Except.ok.injEq, forall_eq', checkTx_eq_ok]
    constructor
    · rintro ⟨typed', root', hpasses'⟩
      exact hpasses'.inTime
    · intro htime
      obtain ⟨typed', hpasses'⟩ := hpasses.again p.earlier htime
      exact ⟨typed', root, hpasses'⟩

section Block
variable (env : BlockEnv) (view : BlockView) (chain : BlockChain) (block : Block)

/-- The rules of a block on its chain, apart from those of its transactions. -/
structure BlockRules : Prop where
  recent : ¬ block.level < computePruneLevel view.lastIndelibleBlock view.startupPruneLevel 1 blockPruneRounds
  witness : ¬ maxNwitnesses ≤ block.witness
  authorized : ¬ chain.tip.nextNwitnesses ≤ block.witness
  sigOrder : checkBadSigOrder (chainToPriorBlock chain.tip block) chain.blocks = false
  signature : env.badSignature (chainToPriorBlock chain.tip block) = false
  future : ¬ env.blockFutureTolerance < (block.timestamp : ℤ) - env.unixtime
  scan : ∃ temp, scanBlock env view chain (view.tempSerialnums.filter fun row =>
    !(row.blockp = processBlockp && row.level = 0)) block.txs = .ok temp
  noExtra : block.extraBytes = 0

lemma validateOnChain_eq_ok {cache : List (List UInt8)}
    (hrecent : ¬ block.level < computePruneLevel view.lastIndelibleBlock view.startupPruneLevel 1 blockPruneRounds)
    (hwitness : ¬ maxNwitnesses ≤ block.witness) :
    (∃ b, validateOnChain env view chain cache block = .ok b) ↔
      BlockRules env view chain block ∧ ∀ wire ∈ block.txs, validateTx env view chain cache wire = .ok () := by
  simp only [validateOnChain, bind_eq_ok, reject_eq_ok, chainToPriorBlock_witness, chainToPriorBlock_timestamp,
    chainToPriorBlock_txs, chainToPriorBlock_extraBytes]
  constructor
  · rintro ⟨b, _, hauth, _, horder, _, hsig, _, hfuture, temp, hscan, _, hextra, _, htxs, -⟩
    exact ⟨⟨hrecent, hwitness, hauth, by simpa using horder, by simpa using hsig, hfuture, ⟨temp, hscan⟩,
      not_not.1 hextra⟩, forM_eq_ok.1 htxs⟩
  · rintro ⟨h, htxs⟩
    obtain ⟨temp, hscan⟩ := h.scan
    exact ⟨_, (), h.authorized, (), by simp [h.sigOrder], (), by simp [h.signature], (), h.future, temp, hscan, (),
      not_not.2 h.noExtra, (), forM_eq_ok.2 htxs, rfl⟩

/-- A block is accepted with a given cache. -/
def Accepts (cache : TxCache env.toEnv view.db) : Prop := (blockValidate env view cache.txs block).isOk = true

lemma accepts_iff (cache : TxCache env.toEnv view.db) : Accepts env view block cache ↔
    ∃ chain, view.validBlocks.find? (·.tip.oid = block.priorOid) = some chain ∧ BlockRules env view chain block ∧
      ∀ wire ∈ block.txs, validateTx env view chain cache.txs wire = .ok () := by
  rw [Accepts, isOk_eq_true]
  simp only [blockValidate, reject_bind_eq_ok, exists_and_left]
  cases view.validBlocks.find? (·.tip.oid = block.priorOid) with
  | none =>
    constructor
    · rintro ⟨_, _, _, h⟩
      cases h
    · rintro ⟨_, h, _⟩
      cases h
  | some chain =>
    simp only [Option.some.injEq, exists_eq_left']
    constructor
    · rintro ⟨hrecent, hwitness, hvalid⟩
      exact (validateOnChain_eq_ok env view chain block hrecent hwitness).1 hvalid
    · rintro ⟨hrules, htxs⟩
      exact ⟨hrules.recent, hrules.witness,
        (validateOnChain_eq_ok env view chain block hrules.recent hrules.witness).2 ⟨hrules, htxs⟩⟩

/-- A transaction is valid without a cache: at the time of the last indelible block, or at that of the
prior block. -/
def FreshlyValid (wire : List UInt8) : Prop :=
  (wire ∉ view.xreqs ∧ txValidate env.toEnv view.toNodeView 0 false wire = .ok ()) ∨
    txValidate env.toEnv view.toNodeView chain.tip.timestamp true wire = .ok ()

lemma validateTx_eq_ok {cache : List (List UInt8)} {wire : List UInt8} :
    validateTx env view chain cache wire = .ok () ↔ wire ∈ cache ∨ FreshlyValid env view chain wire := by
  have hvalid (priorBlocktime : ℕ) (inBlock : Bool) :
      (txValidate env.toEnv view.toNodeView priorBlocktime inBlock wire).isOk = true ↔
        txValidate env.toEnv view.toNodeView priorBlocktime inBlock wire = .ok () :=
    isOk_eq_true.trans ⟨fun ⟨_, h⟩ => h, fun h => ⟨(), h⟩⟩
  rw [validateTx, reject_eq_ok, FreshlyValid, ← hvalid, ← hvalid]
  simp only [knownValid, not_and_or, Bool.not_eq_false, Bool.or_eq_true, Bool.and_eq_true, decide_eq_true_eq,
    or_assoc]

lemma FreshlyValid.everValid {wire : List UInt8} (h : FreshlyValid env view chain wire) :
    EverValid env.toEnv view.db wire := by
  rcases h with ⟨-, h⟩ | h
  · exact ⟨⟨view.toNodeView, 0, false, .refl _⟩, h⟩
  · exact ⟨⟨view.toNodeView, chain.tip.timestamp, true, .refl _⟩, h⟩

/-- A transaction still meets the rules that a cached one is not held to again. -/
def StillInTime (wire : List UInt8) : Prop :=
  (wire ∉ view.xreqs ∧ MeetsTimeRules env.toEnv view.toNodeView 0 false wire) ∨
    MeetsTimeRules env.toEnv view.toNodeView chain.tip.timestamp true wire

lemma freshlyValid_iff {wire : List UInt8} (h : EverValid env.toEnv view.db wire) :
    FreshlyValid env view chain wire ↔ StillInTime env view chain wire := by
  rw [FreshlyValid, StillInTime, txValidate_again _ _ _ _ h, txValidate_again _ _ _ _ h]

/-- All caches give the same verdict on a block exactly when, should the block pass its own rules and each
of its transactions have been valid at some point, each of them still is in time. -/
theorem sameVerdict_iff :
    (∀ cache cache' : TxCache env.toEnv view.db, Accepts env view block cache ↔ Accepts env view block cache') ↔
      ∀ chain, view.validBlocks.find? (·.tip.oid = block.priorOid) = some chain → BlockRules env view chain block →
        (∀ wire ∈ block.txs, EverValid env.toEnv view.db wire) → ∀ wire ∈ block.txs, StillInTime env view chain wire := by
  simp only [accepts_iff, validateTx_eq_ok]
  constructor
  · intro hsame chain hchain hrules hvalid wire hwire
    obtain ⟨chain', hchain', -, htxs⟩ := (hsame ⟨block.txs, hvalid⟩ ⟨[], fun _ h => (by cases h)⟩).1
      ⟨chain, hchain, hrules, fun wire hwire => Or.inl hwire⟩
    obtain rfl := Option.some.inj (hchain.symm.trans hchain')
    refine (freshlyValid_iff env view chain (hvalid wire hwire)).1 ((htxs wire hwire).resolve_left ?_)
    exact List.not_mem_nil
  · intro htime cache cache'
    suffices h : ∀ cache cache' : TxCache env.toEnv view.db,
        (∃ chain, view.validBlocks.find? (·.tip.oid = block.priorOid) = some chain ∧ BlockRules env view chain block ∧
          ∀ wire ∈ block.txs, wire ∈ cache.txs ∨ FreshlyValid env view chain wire) →
        ∃ chain, view.validBlocks.find? (·.tip.oid = block.priorOid) = some chain ∧ BlockRules env view chain block ∧
          ∀ wire ∈ block.txs, wire ∈ cache'.txs ∨ FreshlyValid env view chain wire from
      ⟨h cache cache', h cache' cache⟩
    rintro cache cache' ⟨chain, hchain, hrules, htxs⟩
    have hvalid (wire) (hwire : wire ∈ block.txs) : EverValid env.toEnv view.db wire :=
      (htxs wire hwire).elim (cache.valid wire) (FreshlyValid.everValid env view chain)
    exact ⟨chain, hchain, hrules, fun wire hwire => Or.inr ((freshlyValid_iff env view chain (hvalid wire hwire)).2
      (htime chain hchain hrules hvalid wire hwire))⟩

end Block

section Example

/-- A node with a decoder of strings, to which each foreign payment is confirmed. -/
def payingEnv (unixtime : ℕ) : BlockEnv :=
  { quietEnv unixtime with
    codec := { alphaDecode := fun _ _ _ => .ok "ab", mapExpDecode := id }
    queryPayment := fun _ _ _ _ => .found ⟨UniFloat.wireDecode (1024 * 2^21), unixtime, 12⟩ }

/-- A payment claim for the first match, as it stands in a block. -/
def latePayment : List UInt8 :=
  [25, 0, 0, 0, 1, 0, 0x19, 0xCC, 1, 0, 0, 0, 0, 0, 0, 0, 0, 0, 0, 0x80, 1, 9, 16, 9, 17]

/-- The first match, with a given status. -/
def firstMatch (status : XmatchStatus) : Xmatch where
  xmatchnum := 1
  status := status
  matchTimestamp := mainnetMiningStart
  baseAmount := 1000000
  rate := 1
  amountPaid := 0
  haveXreqs := true
  xsell := { quoteAsset := 1, foreignAddress := "bc1q", confirmations := 12, paymentTime := 43200 }

/-- A database with a match of a given status. -/
def matchDb (status : XmatchStatus) : PersistentDb where
  commitRoots := [{ level := 0, timestamp := mainnetMiningStart, merkleRoot := 0 }]
  matches_ := [firstMatch status]

/-- A node after the match was paid. -/
def paidView : BlockView where
  db := matchDb .paid
  lastIndelibleTimestamp := mainnetMiningStart
  validBlocks := [⟨soleBlock 0 mainnetMiningStart, []⟩]

/-- A block of the sole witness with the payment claim. -/
def latePaymentBlock : Block := { soleBlock 1 (mainnetMiningStart + 60) with txs := [latePayment] }

lemma matchDb_earlier (status status' : XmatchStatus) : (matchDb status).EarlierThan (matchDb status') where
  serialnums := List.prefix_rfl
  commitRoots := List.prefix_rfl
  blocked := rfl
  terms xmatchnum m m' h h' _ := by
    obtain rfl := List.mem_singleton.1 (List.mem_of_find?_eq_some h)
    obtain rfl := List.mem_singleton.1 (List.mem_of_find?_eq_some h')
    exact ⟨rfl, rfl, rfl, rfl⟩

/-- The claim was valid while its match was open. -/
lemma latePayment_everValid : EverValid (payingEnv (mainnetMiningStart + 60)).toEnv paidView.db latePayment := by
  refine ⟨⟨{ paidView.toNodeView with db := matchDb .accepted }, mainnetMiningStart + 60, true,
    matchDb_earlier .accepted .paid⟩, ?_⟩
  obtain ⟨_, hvalid⟩ := isOk_eq_true.1 (show (txValidate (payingEnv (mainnetMiningStart + 60)).toEnv
    { paidView.toNodeView with db := matchDb .accepted } (mainnetMiningStart + 60) true latePayment).isOk = true by
      decide +kernel)
  exact hvalid

/-- A node that knows the claim accepts the block, a node that does not rejects it. -/
theorem latePayment_splits : ¬ ∀ (env : BlockEnv) (view : BlockView) (block : Block)
    (cache cache' : TxCache env.toEnv view.db), Accepts env view block cache ↔ Accepts env view block cache' := by
  intro h
  have hsame := h (payingEnv (mainnetMiningStart + 60)) paidView latePaymentBlock
    ⟨[latePayment], fun wire hwire => (List.mem_singleton.1 hwire) ▸ latePayment_everValid⟩
    ⟨[], fun _ hwire => (by cases hwire)⟩
  have hcached : (blockValidate (payingEnv (mainnetMiningStart + 60)) paidView [latePayment]
    latePaymentBlock).isOk = true := by decide +kernel
  have hafresh : (blockValidate (payingEnv (mainnetMiningStart + 60)) paidView [] latePaymentBlock).isOk = false := by
    decide +kernel
  exact Bool.false_ne_true (hafresh.symm.trans (hsame.1 hcached))

end Example

end CredaCash.Chain
