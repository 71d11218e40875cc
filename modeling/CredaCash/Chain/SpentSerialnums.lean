import CredaCash.Chain.BlockScan
import CredaCash.Chain.BuildNewBlock
import CredaCash.Foreign.Payments

/-! The serial numbers that a transaction spends for good: the ones that are checked when it enters a block are spent
in the persistent database when the block is made persistent. -/

namespace CredaCash.Chain
open Wire Checks Foreign

/-- What a node has at hand: its parameters with the hash functions, the order of addresses as keys of a table, and the
change of the witnesses at the end of the mint. -/
structure SpendWorld where
  env : BlockEnv
  hash : ℕ → String → ℕ
  paymentIdHash : env.paymentIdHash = computePaymentIdHash hash
  hashesBody : HashesBody env.toEnv
  keyOrder : ℕ ↪ ℕ
  mintEnd : Option ℕ
  genesisNwitnesses : ℕ
  genesisMaxmal : ℕ

/-- How the matches of the persistent database change in time: they stay, with the blockchain of their sell request. Its
foreign address goes when `PruneMatchingReqs` deletes the row, and does not come back. -/
def PersistentDb.Ages (db db' : PersistentDb) : Prop :=
  ∀ xmatchnum m, db.xmatchSelect xmatchnum = some m → ∃ m', db'.xmatchSelect xmatchnum = some m' ∧
    m'.xsell.quoteAsset = m.xsell.quoteAsset ∧
    (m'.xsell.foreignAddress = m.xsell.foreignAddress ∨ m'.xsell.foreignAddress = "")

/-- The serial numbers that a transaction spends: those of its inputs, or the pseudo serial number of a mint, a bare
message or a payment. The hash of a foreign address is only checked. -/
def ScannedTx.spent (env : Env) (t : ScannedTx) : List ℕ :=
  match (txFromWire env.blake2s t.wire {}).1 with
  | .error _ => []
  | .ok tx =>
    let inputs := if xchainSell tx false then tx.inputs else (pseudoSerialnum env tx t.xtx t.wire false).inputs
    (inputs.filter (!·.noSerialnum)).map (·.serialnum)

def ScannedBlock.spent (env : Env) (b : ScannedBlock) : List ℕ := b.txs.flatMap (ScannedTx.spent env)

/-- The serial numbers that the transactions of a chain spend, down to the genesis block. -/
def ScannedChain.spent (env : Env) (c : ScannedChain) : List ℕ := c.blocks.flatMap (ScannedBlock.spent env)

namespace SpendWorld
variable (w : SpendWorld)

/-- A transaction as it was found when it entered a block: the match of a payment claim was there, with or without the
foreign address of its sell request. -/
structure Scanned (db : PersistentDb) (tx : TxPay) (t : ScannedTx) : Prop where
  parses : (txFromWire w.env.blake2s t.wire {}).1 = .ok tx
  eq : t = scannedTx w.env.toEnv db t.wire
  payment : ∀ xpay, extractXtx w.env.toEnv tx = some (.xpay xpay) → ∃ m, db.xmatchSelect xpay.xmatchnum = some m

/-- A transaction of a block, with the persistent database since. -/
def Sound (db : PersistentDb) (t : ScannedTx) : Prop := ∃ db₀ tx, w.Scanned db₀ tx t ∧ db₀.Ages db

end SpendWorld

section Ages
variable {db db' db'' : PersistentDb}

@[refl] lemma PersistentDb.Ages.refl (db : PersistentDb) : db.Ages db := fun _ m hm => ⟨m, hm, rfl, .inl rfl⟩

@[trans] lemma PersistentDb.Ages.trans (h : db.Ages db') (h' : db'.Ages db'') : db.Ages db'' := by
  intro xmatchnum m hm
  obtain ⟨m', hm', hasset, haddress⟩ := h xmatchnum m hm
  obtain ⟨m'', hm'', hasset', haddress'⟩ := h' xmatchnum m' hm'
  refine ⟨m'', hm'', hasset'.trans hasset, ?_⟩
  rcases haddress' with hsame | hpruned
  · exact hsame ▸ haddress
  · exact .inr hpruned

lemma PersistentDb.Ages.of_matches (h : db'.matches_ = db.matches_) : db.Ages db' := by
  intro xmatchnum m hm
  refine ⟨m, ?_, rfl, .inl rfl⟩
  rw [← hm]
  unfold PersistentDb.xmatchSelect
  rw [h]

/-- A new row of a match with the same sell request replaces the old one. -/
lemma PersistentDb.Ages.update {m m' : Xmatch} {num : ℕ} (hm : db.xmatchSelect num = some m)
    (hnum : m'.xmatchnum = m.xmatchnum) (hsell : m'.xsell = m.xsell) :
    db.Ages { db with matches_ := db.matches_.map fun row => if row.xmatchnum = m'.xmatchnum then m' else row } := by
  have hkey (row : Xmatch) : (if row.xmatchnum = m'.xmatchnum then m' else row).xmatchnum = row.xmatchnum := by
    split_ifs with h
    · exact h.symm
    · rfl
  intro n row hrow
  refine ⟨if row.xmatchnum = m'.xmatchnum then m' else row, ?_, ?_⟩
  · have hsame : (fun x : Xmatch => decide (x.xmatchnum = n)) ∘
        (fun row => if row.xmatchnum = m'.xmatchnum then m' else row) = fun x => decide (x.xmatchnum = n) :=
      funext fun row => by rw [Function.comp_apply, hkey]
    rw [PersistentDb.xmatchSelect, List.find?_map, hsame]
    exact congrArg (Option.map _) hrow
  · split_ifs with h
    · have hn : row.xmatchnum = n := by simpa using List.find?_some hrow
      have hm' : m.xmatchnum = num := by simpa using List.find?_some hm
      obtain rfl : row = m := Option.some.inj (by rw [← hrow, ← hm, ← hn, h, hnum, hm'])
      rw [hsell]
      exact ⟨rfl, .inl rfl⟩
    · exact ⟨rfl, .inl rfl⟩

end Ages

lemma computePaymentIdHash_congr {hash : ℕ → String → ℕ} {x y : Xpay} (h : SameNames x y) :
    computePaymentIdHash hash x = computePaymentIdHash hash y := by
  simp only [computePaymentIdHash, h.blockchain, h.blockId, h.txid, h.address]

section Inputs
variable {env : Env} {tx : TxPay} {wire : List UInt8} {xtx xtx' : Option Xtx}

lemma pseudoSerialnum_inputs (persistent : Bool) : (pseudoSerialnum env tx xtx wire persistent).inputs =
    if !(xchainSell tx persistent || tx.tagType = .mint) && tx.inputs.any (!·.noSerialnum) then tx.inputs
    else (if tx.tagType = .mint then tx.inputs.dropLast else tx.inputs) ++
      [{ serialnum :=
          match xchainSell tx persistent, xtx with
          | true, some (.xreq x) => env.addressHash x.foreignAddress
          | _, some (.xpay xpay) => env.paymentIdHash xpay
          | _, _ => env.objHash wire
         hashkey :=
          match xtx with
          | some (.xpay _) => env.objHash wire
          | _ => 0 }] := by
  change (if !(xchainSell tx persistent || tx.tagType = .mint) && tx.inputs.any (!·.noSerialnum) then tx
    else { tx with inputs := _ }).inputs = _
  split_ifs <;> rfl

/-- Without the hash of a foreign address, both forms of `CheckCreatePseudoSerialnum` agree on serial numbers. -/
lemma pseudoSerialnum_serialnums (hsell : xchainSell tx false = false)
    (hsame : xtx = xtx' ∨ ∃ x x', xtx = some (.xpay x) ∧ xtx' = some (.xpay x') ∧
      env.paymentIdHash x = env.paymentIdHash x') :
    ((pseudoSerialnum env tx xtx wire false).inputs.filter (!·.noSerialnum)).map (·.serialnum) =
      ((pseudoSerialnum env tx xtx' wire true).inputs.filter (!·.noSerialnum)).map (·.serialnum) := by
  have hsell' : xchainSell tx true = false := by simp [xchainSell]
  simp only [pseudoSerialnum_inputs, hsell, hsell']
  split_ifs
  · rfl
  all_goals
    rcases hsame with rfl | ⟨x, x', rfl, rfl, hhash⟩
    · simp
    · simp [hhash]

/-- A sell request with a serial number of its own gets no other when it is made persistent. -/
lemma pseudoSerialnum_sell (hsell : xchainSell tx false = true) (hany : tx.inputs.any (!·.noSerialnum) = true) :
    pseudoSerialnum env tx xtx wire true = tx := by
  have htype : tx.tagType ≠ .mint := by
    rintro hmint
    simp [xchainSell, hmint, ObjType.isXreq] at hsell
  unfold pseudoSerialnum
  simp [htype, hany]

/-- The inputs of a sell request come before the hash of its foreign address. -/
lemma pseudoSerialnum_sell_sublist (hsell : xchainSell tx false = true) :
    tx.inputs.Sublist (pseudoSerialnum env tx xtx wire false).inputs := by
  have htype : tx.tagType ≠ .mint := by
    rintro hmint
    simp [xchainSell, hmint, ObjType.isXreq] at hsell
  rw [pseudoSerialnum_inputs, if_neg htype]
  split_ifs
  · exact List.Sublist.refl _
  · exact List.sublist_append_left ..

end Inputs

section Sound
variable {w : SpendWorld} {db db' : PersistentDb} {tx : TxPay} {t : ScannedTx}

lemma SpendWorld.Sound.ages (h : w.Sound db t) (hages : db.Ages db') : w.Sound db' t := by
  obtain ⟨db₀, tx, hscanned, hages₀⟩ := h
  exact ⟨db₀, tx, hscanned, hages₀.trans hages⟩

/-- What a transaction spends was checked with its block. -/
lemma SpendWorld.Scanned.spent_sublist (h : w.Scanned db tx t) : (t.spent w.env.toEnv).Sublist t.serialnums := by
  have hserialnums : t.serialnums = (pseudoSerialnum w.env.toEnv tx t.xtx t.wire false).inputs.map (·.serialnum) := by
    rw [h.eq, scannedTx, h.parses]
  rw [ScannedTx.spent, h.parses, hserialnums]
  refine (List.filter_sublist.trans ?_).map _
  split_ifs with hsell
  · exact pseudoSerialnum_sell_sublist hsell
  · exact List.Sublist.refl _

lemma SpendWorld.Sound.spent_sublist (h : w.Sound db t) : (t.spent w.env.toEnv).Sublist t.serialnums := by
  obtain ⟨db₀, tx, hscanned, -⟩ := h
  exact hscanned.spent_sublist

/-- The serial numbers of the inputs are spent. -/
lemma indexSerialnums_spends {inputs : List TxIn} {commitnum : ℕ} (h : indexSerialnums commitnum db inputs = .ok db') :
    ∀ s ∈ (inputs.filter (!·.noSerialnum)).map (·.serialnum), db'.Spent s := by
  induction inputs generalizing db with
  | nil => exact fun s hs => by cases hs
  | cons txin rest ih =>
    unfold indexSerialnums at h
    split_ifs at h with hno
    · rw [List.filter_cons_of_neg (by simp [hno])]
      exact ih h
    · obtain ⟨db'', hinsert, h⟩ := bind_eq_ok.1 h
      rw [List.filter_cons_of_pos (by simp [hno]), List.map_cons]
      intro s hs
      rcases List.mem_cons.1 hs with rfl | hs
      · exact (indexSerialnums_spent h).2 _ (serialnumInsert_spent hinsert).2.2.1
      · exact ih h s hs

/-- A payment needs the foreign address of its match. -/
lemma processXpayment_ages {env : Env} {xpay : Xpay} {credited : Bool}
    (h : processXpayment env db xpay = .ok (db', credited)) : db.Ages db' ∧ db'.serialnums = db.serialnums ∧
      ∀ m, db.xmatchSelect xpay.xmatchnum = some m → m.xsell.foreignAddress ≠ "" := by
  unfold Chain.processXpayment at h
  split_ifs at h
  split at h
  · cases h
  · next m hm =>
    have hplace (hreqs : ¬ (m.haveXreqs = false ∨ m.xsell.foreignAddress = "")) :
        ∀ m', db.xmatchSelect xpay.xmatchnum = some m' → m'.xsell.foreignAddress ≠ "" :=
      fun m' hm' => (Option.some.inj (hm.symm.trans hm')) ▸ (not_or.1 hreqs).2
    split_ifs at h with hreqs hstatus
    · obtain ⟨rfl, rfl⟩ := Prod.mk.inj (Except.ok.inj h)
      exact ⟨.refl _, rfl, hplace hreqs⟩
    · obtain ⟨rfl, rfl⟩ := Prod.mk.inj (Except.ok.inj h)
      exact ⟨.update (m := m) hm rfl rfl, rfl, hplace hreqs⟩

/-- The serial number of a payment is the same whenever it is computed, until the foreign address goes. -/
lemma SpendWorld.paymentIdHash_ages {m m' : Xmatch} {xpay : Xpay} (hages : db.Ages db')
    (hm : db.xmatchSelect xpay.xmatchnum = some m) (hm' : db'.xmatchSelect xpay.xmatchnum = some m')
    (hplace : m'.xsell.foreignAddress ≠ "") :
    w.env.paymentIdHash (setMatchFieldsInXpay w.env.toEnv m xpay) =
      w.env.paymentIdHash (setMatchFieldsInXpay w.env.toEnv m' xpay) := by
  obtain ⟨m'', hm'', hasset, haddress⟩ := hages _ m hm
  obtain rfl : m'' = m' := Option.some.inj (hm''.symm.trans hm')
  rw [w.paymentIdHash]
  exact computePaymentIdHash_congr ⟨hasset.symm, rfl, rfl, (haddress.resolve_right hplace).symm⟩

/-- A transaction that is made persistent spends its serial numbers. -/
lemma SpendWorld.Scanned.indexTx {db₀ : PersistentDb} (h : w.Scanned db₀ tx t) (hages : db₀.Ages db) {commitnum : ℕ}
    {credited : Option Xpay} (hindex : indexTx w.env.toEnv db commitnum t.wire = .ok (db', credited)) :
    db.Ages db' ∧ (∀ s, db.Spent s → db'.Spent s) ∧ ∀ s ∈ t.spent w.env.toEnv, db'.Spent s := by
  unfold Chain.indexTx at hindex
  rw [h.parses] at hindex
  obtain ⟨-, hindex⟩ := reject_bind_eq_ok.1 hindex
  obtain ⟨hextracts, hindex⟩ := reject_bind_eq_ok.1 hindex
  obtain ⟨db₁, hserials, hindex⟩ := bind_eq_ok.1 hindex
  obtain ⟨hmatches, hmono⟩ := indexSerialnums_spent hserials
  have hages₁ : db.Ages db₁ := .of_matches hmatches
  -- what is processed after the serial numbers: a payment, which needs its match
  have hrest : db.Ages db' ∧ db'.serialnums = db₁.serialnums ∧ ∀ x, extractXtxWithMatch w.env.toEnv db tx =
      some (.xpay x) → ∀ m, db.xmatchSelect x.xmatchnum = some m → m.xsell.foreignAddress ≠ "" := by
    split at hindex
    · next xpay hxtx =>
      obtain ⟨⟨db₂, done⟩, hprocess, hindex⟩ := bind_eq_ok.1 hindex
      obtain ⟨rfl, rfl⟩ := Prod.mk.inj (Except.ok.inj hindex)
      obtain ⟨hages₂, hsame, hplace⟩ := processXpayment_ages hprocess
      refine ⟨hages₁.trans hages₂, hsame, fun x hx m hm => hplace m ?_⟩
      obtain rfl : xpay = x := by
        rw [hxtx] at hx
        cases hx
        rfl
      unfold PersistentDb.xmatchSelect at hm ⊢
      rwa [hmatches]
    · next hxtx =>
      obtain ⟨rfl, rfl⟩ := Prod.mk.inj (Except.ok.inj hindex)
      exact ⟨hages₁, rfl, fun x hx => absurd hx (hxtx x)⟩
  obtain ⟨hages', hsame, hplace⟩ := hrest
  have hspent (s) (hs : db₁.Spent s) : db'.Spent s := by
    unfold PersistentDb.Spent PersistentDb.serialnumSelect at hs ⊢
    rwa [hsame]
  refine ⟨hages', fun s hs => hspent s (hmono s hs), fun s hs => hspent s (indexSerialnums_spends hserials s ?_)⟩
  rw [ScannedTx.spent, h.parses] at hs
  dsimp only at hs
  split_ifs at hs with hsell
  · -- a sell request with serial numbers of its own
    have hany : tx.inputs.any (!·.noSerialnum) = true := by
      obtain ⟨txin, htxin, -⟩ := List.mem_map.1 hs
      obtain ⟨hmem, hserial⟩ := List.mem_filter.1 htxin
      exact List.any_eq_true.2 ⟨txin, hmem, hserial⟩
    rwa [pseudoSerialnum_sell hsell hany]
  · rwa [← pseudoSerialnum_serialnums (Bool.eq_false_of_not_eq_true hsell)]
    have hxtx : t.xtx = extractXtxWithMatch w.env.toEnv db₀ tx := by
      rw [h.eq, scannedTx, h.parses]
    rw [hxtx]
    cases hextract : extractXtx w.env.toEnv tx with
    | none => simp [extractXtxWithMatch, hextract]
    | some xtx =>
      cases xtx with
      | xreq x => simp [extractXtxWithMatch, hextract]
      | xpay xpay =>
        obtain ⟨m, hm⟩ := h.payment xpay hextract
        right
        cases hm' : db.xmatchSelect xpay.xmatchnum with
        | none =>
          refine absurd ⟨?_, ?_⟩ hextracts
          · simp [extractXtxWithMatch, hextract, hm']
          · rw [extractXtxFailed, extractXtx_xpay hextract]
            rfl
        | some m' =>
          refine ⟨setMatchFieldsInXpay w.env.toEnv m xpay, setMatchFieldsInXpay w.env.toEnv m' xpay,
            by simp [extractXtxWithMatch, hextract, hm], by simp [extractXtxWithMatch, hextract, hm'], ?_⟩
          exact w.paymentIdHash_ages hages hm hm'
            (hplace (setMatchFieldsInXpay w.env.toEnv m' xpay) (by simp [extractXtxWithMatch, hextract, hm']) m' hm')

/-- A block that is made persistent spends its serial numbers. -/
lemma SpendWorld.indexTxs_spends {txs : List ScannedTx} (hsound : ∀ t ∈ txs, w.Sound db t) {commitnum : ℕ → ℕ}
    {credited : List Xpay} (h : indexTxs w.env.toEnv commitnum db (txs.map (·.wire)) = .ok (db', credited)) :
    db.Ages db' ∧ (∀ s, db.Spent s → db'.Spent s) ∧ ∀ t ∈ txs, ∀ s ∈ t.spent w.env.toEnv, db'.Spent s := by
  induction txs generalizing db credited with
  | nil =>
    obtain ⟨rfl, rfl⟩ := Prod.mk.inj (Except.ok.inj h)
    exact ⟨.refl _, fun _ hs => hs, fun _ ht => by cases ht⟩
  | cons t txs ih =>
    obtain ⟨⟨db₁, one⟩, hone, h⟩ := bind_eq_ok.1 h
    obtain ⟨⟨db₂, more⟩, hmore, h⟩ := bind_eq_ok.1 h
    obtain ⟨rfl, rfl⟩ := Prod.mk.inj (Except.ok.inj h)
    obtain ⟨db₀, tx, hscanned, hages₀⟩ := hsound t (List.mem_cons_self ..)
    obtain ⟨hages₁, hmono, hspent⟩ := hscanned.indexTx hages₀ hone
    obtain ⟨hages₂, hmono', hspent'⟩ := ih (fun t ht => (hsound t (List.mem_cons_of_mem _ ht)).ages hages₁) hmore
    refine ⟨hages₁.trans hages₂, fun s hs => hmono' s (hmono s hs), fun t' ht' s hs => ?_⟩
    rcases List.mem_cons.1 ht' with rfl | ht'
    · exact hmono' s (hspent s hs)
    · exact hspent' t' ht' s hs

end Sound

end CredaCash.Chain
