import CredaCash.Chain.NodeRun
import CredaCash.Foreign.Query

/-! Payments on foreign blockchains over the whole run of a node: the serial number that stands for a payment, and
how often a payment is claimed on a chain and credited. -/

namespace CredaCash.Chain
open Wire Checks Foreign

/-- What all nodes share of foreign payments: the decoders, the hash functions, the names of payments, and the
blockchain and address that each match is to be paid to. -/
structure PaymentSystem where
  codec : Codec
  blake2s : List UInt8 → ℕ
  hash : ℕ → String → ℕ
  hash_injective : Function.Injective2 hash
  names : ForeignNames
  blockchain : ℕ → ℕ
  address : ℕ → String

section System
variable (sys : PaymentSystem)

/-- A node of the system: the servers of the foreign blockchains reply with canonical names, and no query is skipped
for an error. -/
structure PaymentSystem.Node (env : BlockEnv) : Prop where
  codec : env.codec = sys.codec
  blake2s : env.blake2s = sys.blake2s
  paymentIdHash : env.paymentIdHash = computePaymentIdHash sys.hash
  queryPayment : ∃ rpc, RepliesWith sys.names rpc ∧ env.queryPayment = Foreign.queryPayment rpc
  answered : ∀ blockchain block addr txid inBlock, env.queryPayment blockchain block addr txid = .error →
    ignoreError env.toEnv blockchain inBlock = false

/-- The sell requests of the matches, for as long as they are kept, have the terms of the system. -/
def PaymentSystem.Tables (db : PersistentDb) : Prop :=
  ∀ m ∈ db.matches_, m.xsell.foreignAddress ≠ "" →
    m.xsell.quoteAsset = sys.blockchain m.xmatchnum ∧ m.xsell.foreignAddress = sys.address m.xmatchnum

def PaymentSystem.world : NodeWorld := ⟨sys.Node, sys.Tables⟩

/-- The hash that stands for the payment of a claim. -/
def PaymentSystem.key (xpay : Xpay) : ℕ := computePaymentIdHash sys.hash xpay

/-- A claim with the terms of its match. -/
def PaymentSystem.withTerms (xpay : Xpay) : Xpay :=
  { xpay with foreignBlockchain := sys.blockchain xpay.xmatchnum, foreignAddress := sys.address xpay.xmatchnum }

/-- The payment claim on the wire, with the terms of its match. -/
def PaymentSystem.claimed (wire : List UInt8) : Option Xpay :=
  match (txFromWire sys.blake2s wire {}).1 with
  | .error _ => none
  | .ok tx =>
    match tx.tagType with
    | .xcx type =>
      match (xtxFromWire sys.codec type (tx.appendData.take tx.appendDataLength) {}).1 with
      | .ok (.xpay xpay) => some (sys.withTerms xpay)
      | _ => none
    | _ => none

/-- Every payment claim in a transaction is spelled in canonical form. -/
def PaymentSystem.Verified (wire : List UInt8) : Prop := ∀ y, sys.claimed wire = some y → sys.names.Canonical y

/-- Two claims name the same block, transaction and address in the same way. -/
structure SameNames (x y : Xpay) : Prop where
  blockchain : x.foreignBlockchain = y.foreignBlockchain
  blockId : x.foreignBlockId = y.foreignBlockId
  txid : x.foreignTxid = y.foreignTxid
  address : x.foreignAddress = y.foreignAddress

/-- The payment claim of a transaction whose match still had its address when the transaction was scanned. -/
def ScannedTx.claim (tx : ScannedTx) : Option Xpay :=
  match tx.xtx with
  | some (.xpay xpay) => if xpay.foreignAddress = "" then none else some xpay
  | _ => none

/-- The payment claims of a chain, the newest block first. -/
def ScannedChain.claims (c : ScannedChain) : List Xpay := c.blocks.flatMap fun b => b.txs.filterMap ScannedTx.claim

/-- A serial number is spent in the persistent database. -/
def PersistentDb.Spent (db : PersistentDb) (serialnum : ℕ) : Prop := (db.serialnumSelect serialnum).isSome = true

/-- What is known of a transaction from its scan. -/
structure PaymentSystem.Sound (tx : ScannedTx) : Prop where
  verified : sys.Verified tx.wire
  names : ∀ x, tx.claim = some x → ∃ y, sys.claimed tx.wire = some y ∧ SameNames x y
  serialnums : ∀ x, tx.claim = some x → tx.serialnums = [sys.key x]

end System

section Claim
variable {sys : PaymentSystem} {x y : Xpay}

lemma SameNames.key (h : SameNames x y) : sys.key x = sys.key y := by
  simp only [PaymentSystem.key, computePaymentIdHash, h.blockchain, h.blockId, h.txid, h.address]

lemma SameNames.canonical (h : SameNames x y) (hy : sys.names.Canonical y) : sys.names.Canonical x where
  blockchain := h.blockchain ▸ hy.blockchain
  txid := by rw [h.blockchain, h.txid]; exact hy.txid
  address := by rw [h.blockchain, h.address]; exact hy.address

lemma PaymentSystem.Sound.canonical {tx : ScannedTx} (h : sys.Sound tx) (hx : tx.claim = some x) :
    sys.names.Canonical x := by
  obtain ⟨y, hy, hnames⟩ := h.names x hx
  exact hnames.canonical (h.verified y hy)

/-- The hashes of claims in canonical form tell their payments apart. -/
lemma PaymentSystem.key_eq_iff (hx : sys.names.Canonical x) (hy : sys.names.Canonical y) :
    sys.key x = sys.key y ↔ sys.names.payment x = sys.names.payment y :=
  computePaymentIdHash_eq_iff sys.hash_injective hx hy

lemma PaymentSystem.payments_nodup {xs : List Xpay} (hcanonical : ∀ x ∈ xs, sys.names.Canonical x)
    (h : (xs.map sys.key).Nodup) : (xs.map sys.names.payment).Nodup := by
  unfold List.Nodup at h ⊢
  rw [List.pairwise_map] at h ⊢
  exact h.imp_of_mem fun hx hy hne hsame => hne ((key_eq_iff (hcanonical _ hx) (hcanonical _ hy)).2 hsame)

lemma ScannedTx.claim_eq_some {tx : ScannedTx} :
    tx.claim = some x ↔ tx.xtx = some (.xpay x) ∧ x.foreignAddress ≠ "" := by
  unfold ScannedTx.claim
  split
  · next xpay hxtx =>
    rw [hxtx]
    split_ifs with haddress
    · constructor
      · intro h
        cases h
      · rintro ⟨hsame, hne⟩
        cases hsame
        exact absurd haddress hne
    · constructor
      · intro h
        cases h
        exact ⟨rfl, haddress⟩
      · rintro ⟨hsame, -⟩
        cases hsame
        rfl
  · next hxtx => exact ⟨fun h => (by cases h), fun ⟨h, _⟩ => absurd h (hxtx x)⟩

end Claim

section Tx
variable {sys : PaymentSystem} {env : BlockEnv} {db : PersistentDb} {wire : List UInt8} {tx : TxPay}

/-- A transaction with a claim is found with it, whatever the node. -/
lemma PaymentSystem.Node.claimed_eq (henv : sys.Node env) (hparse : (txFromWire env.blake2s wire {}).1 = .ok tx) :
    sys.claimed wire = match extractXtx env.toEnv tx with
      | some (.xpay xpay) => some (sys.withTerms xpay)
      | _ => none := by
  rw [henv.blake2s] at hparse
  unfold PaymentSystem.claimed extractXtx
  simp only [hparse, henv.codec]
  cases tx.tagType with
  | xcx type =>
    simp only
    rcases (xtxFromWire sys.codec type (tx.appendData.take tx.appendDataLength) {}).1 with e | (x | xpay) <;> rfl
  | _ => rfl

lemma setMatchFieldsInXpay_names (env : BlockEnv) (htables : sys.Tables db) {xpay : Xpay} {m : Xmatch}
    (hm : db.xmatchSelect xpay.xmatchnum = some m) (haddress : m.xsell.foreignAddress ≠ "") :
    SameNames (setMatchFieldsInXpay env.toEnv m xpay) (sys.withTerms xpay) := by
  obtain ⟨hchain, haddr⟩ := htables m (List.mem_of_find?_eq_some hm) haddress
  have hnum : m.xmatchnum = xpay.xmatchnum := by simpa using List.find?_some hm
  rw [hnum] at hchain haddr
  exact ⟨hchain, rfl, rfl, haddr⟩

lemma pseudoSerialnum_payment (hparse : (txFromWire env.blake2s wire {}).1 = .ok tx)
    (htype : tx.tagType = .xcx .payment) (x : Xpay) (persistent : Bool) :
    (pseudoSerialnum env.toEnv tx (some (.xpay x)) wire persistent).inputs =
      [{ serialnum := env.paymentIdHash x, hashkey := env.objHash wire }] := by
  have hinputs : tx.inputs = [] := by
    refine txFromWire_bare env.blake2s _ _ _ _ (Prod.ext hparse rfl) ?_
    rw [htype]
    rfl
  unfold pseudoSerialnum
  rw [htype, hinputs]
  cases persistent <;> rfl

/-- What a scan finds of a transaction. -/
lemma scannedTx_sound (henv : sys.Node env) (htables : sys.Tables db) (hverified : sys.Verified wire) :
    sys.Sound (scannedTx env.toEnv db wire) := by
  have hwire : (scannedTx env.toEnv db wire).wire = wire := by
    unfold scannedTx
    split <;> rfl
  have hclaim (x) (hx : (scannedTx env.toEnv db wire).claim = some x) :
      (∃ y, sys.claimed wire = some y ∧ SameNames x y) ∧ (scannedTx env.toEnv db wire).serialnums = [sys.key x] := by
    obtain ⟨hxtx, haddress⟩ := ScannedTx.claim_eq_some.1 hx
    unfold scannedTx at hxtx ⊢
    generalize hparse : (txFromWire env.blake2s wire {}).1 = parsed at hxtx ⊢
    cases parsed with
    | error e => cases hxtx
    | ok tx =>
      simp only at hxtx ⊢
      obtain ⟨xpay, m, hextract, hm, rfl⟩ := extractXtxWithMatch_xpay hxtx
      refine ⟨⟨_, ?_, setMatchFieldsInXpay_names env htables hm haddress⟩, ?_⟩
      · rw [henv.claimed_eq hparse, hextract]
      · rw [hxtx, pseudoSerialnum_payment hparse (extractXtx_xpay hextract), henv.paymentIdHash]
        rfl
  exact ⟨hwire.symm ▸ hverified, fun x hx => hwire.symm ▸ (hclaim x hx).1, fun x hx => (hclaim x hx).2⟩

/-- The claim of a valid transaction was confirmed by the servers of the foreign blockchain. -/
lemma txValidate_verified (henv : sys.Node env) {view : NodeView} (htables : sys.Tables view.db) {priorBlocktime : ℕ}
    {inBlock : Bool} (h : txValidate env.toEnv view priorBlocktime inBlock wire = .ok ()) : sys.Verified wire := by
  intro y hy
  unfold txValidate at h
  generalize hparse : (txFromWire env.blake2s wire {}).1 = parsed at h
  cases parsed with
  | error e => cases h
  | ok tx =>
    obtain ⟨typed, root, hpasses⟩ := (checkTx_eq_ok ..).1 h
    rw [henv.claimed_eq hparse] at hy
    split at hy
    · next xpay hextract =>
      obtain rfl := Option.some.inj hy
      obtain ⟨m, hopen⟩ := hpasses.inTime.payment xpay hextract
      have hnames := setMatchFieldsInXpay_names env htables hopen.selected hopen.foreignAddress
      have hforeign := hopen.foreign
      unfold validateForeign at hforeign
      obtain ⟨rpc, hrpc, hquery⟩ := henv.queryPayment
      split at hforeign
      · cases hforeign
      · next herror => exact absurd (henv.answered _ _ _ _ inBlock herror) (reject_eq_ok.1 hforeign)
      · next result hfound =>
        rw [hquery] at hfound
        obtain ⟨hchain, htxid, haddress⟩ := queryPayment_canonical hrpc hfound
        have hcanonical : sys.names.Canonical (setMatchFieldsInXpay env.toEnv m xpay) := ⟨hchain, htxid, haddress⟩
        exact SameNames.canonical ⟨hnames.blockchain.symm, hnames.blockId.symm, hnames.txid.symm, hnames.address.symm⟩
          hcanonical
    · cases hy

end Tx

/-- What making the transactions of some blocks persistent does with payments. -/
structure PaymentSystem.Indexed (sys : PaymentSystem) (wires : List (List UInt8)) (db db' : PersistentDb)
    (xs : List Xpay) : Prop where
  tables : sys.Tables db'
  spent : ∀ s, db.Spent s → db'.Spent s
  claims : ∀ wire ∈ wires, ∀ y, sys.claimed wire = some y → db'.Spent (sys.key y)
  credited : ∀ x ∈ xs, ∃ wire ∈ wires, ∃ y, sys.claimed wire = some y ∧ SameNames x y
  fresh : ∀ x ∈ xs, ¬ db.Spent (sys.key x)
  nodup : (xs.map sys.key).Nodup

section Index
variable {sys : PaymentSystem} {env : BlockEnv} {db db' : PersistentDb}

lemma serialnumInsert_spent {txin : TxIn} {commitnum : ℕ} (h : serialnumInsert db txin commitnum = .ok db') :
    db'.matches_ = db.matches_ ∧ ¬ db.Spent txin.serialnum ∧ db'.Spent txin.serialnum ∧
      ∀ s, db.Spent s → db'.Spent s := by
  unfold serialnumInsert at h
  split_ifs at h with hspent
  obtain rfl := Except.ok.inj h
  refine ⟨rfl, hspent, ?_, fun s hs => ?_⟩
  · refine List.find?_isSome.2 ⟨_, List.mem_append_right _ (List.mem_singleton_self _), ?_⟩
    simp
  · obtain ⟨row, hrow, hserial⟩ := List.find?_isSome.1 hs
    exact List.find?_isSome.2 ⟨row, List.mem_append_left _ hrow, hserial⟩

lemma indexSerialnums_spent {inputs : List TxIn} {commitnum : ℕ} (h : indexSerialnums commitnum db inputs = .ok db') :
    db'.matches_ = db.matches_ ∧ ∀ s, db.Spent s → db'.Spent s := by
  induction inputs generalizing db with
  | nil =>
    obtain rfl := Except.ok.inj h
    exact ⟨rfl, fun _ hs => hs⟩
  | cons txin rest ih =>
    unfold indexSerialnums at h
    split_ifs at h
    · exact ih h
    · obtain ⟨db'', hinsert, h⟩ := bind_eq_ok.1 h
      obtain ⟨hmatches, -, -, hmono⟩ := serialnumInsert_spent hinsert
      obtain ⟨hmatches', hmono'⟩ := ih h
      exact ⟨hmatches'.trans hmatches, fun s hs => hmono' s (hmono s hs)⟩

/-- A payment claim is only processed while its match has its address; it changes no terms. -/
lemma processXpayment_spec {xpay : Xpay} {credited : Bool}
    (h : processXpayment env.toEnv db xpay = .ok (db', credited)) (htables : sys.Tables db) :
    sys.Tables db' ∧ db'.serialnums = db.serialnums ∧
      ∀ m, db.xmatchSelect xpay.xmatchnum = some m → m.xsell.foreignAddress ≠ "" := by
  unfold processXpayment at h
  split_ifs at h
  split at h
  · cases h
  · next m hm =>
    split_ifs at h with hreqs hstatus
    · obtain ⟨rfl, rfl⟩ := Prod.mk.inj (Except.ok.inj h)
      exact ⟨htables, rfl, fun m' hm' => (Option.some.inj (hm.symm.trans hm')) ▸ (not_or.1 hreqs).2⟩
    · obtain ⟨rfl, rfl⟩ := Prod.mk.inj (Except.ok.inj h)
      refine ⟨fun row hrow haddress => ?_, rfl,
        fun m' hm' => (Option.some.inj (hm.symm.trans hm')) ▸ (not_or.1 hreqs).2⟩
      obtain ⟨row', hrow', heq⟩ := List.mem_map.1 hrow
      by_cases hnum : row'.xmatchnum = m.xmatchnum
      · rw [if_pos hnum] at heq
        rw [← heq] at haddress ⊢
        exact htables m (List.mem_of_find?_eq_some hm) haddress
      · rw [if_neg hnum] at heq
        rw [← heq] at haddress ⊢
        exact htables row' hrow' haddress

lemma indexTx_indexed (henv : sys.Node env) (htables : sys.Tables db) {commitnum : ℕ} {wire : List UInt8}
    {credited : Option Xpay} (h : indexTx env.toEnv db commitnum wire = .ok (db', credited)) :
    sys.Indexed [wire] db db' credited.toList := by
  unfold indexTx at h
  generalize hparse : (txFromWire env.blake2s wire {}).1 = parsed at h
  cases parsed with
  | error e => cases h
  | ok tx =>
    simp only at h
    obtain ⟨-, h⟩ := reject_bind_eq_ok.1 h
    obtain ⟨hextracts, h⟩ := reject_bind_eq_ok.1 h
    obtain ⟨db'', hserials, h⟩ := bind_eq_ok.1 h
    obtain ⟨hmatches, hmono⟩ := indexSerialnums_spent hserials
    have htables' : sys.Tables db'' := fun m hm => htables m (hmatches ▸ hm)
    have hclaimed := henv.claimed_eq hparse
    split at h
    · next xpay hxtx =>
      obtain ⟨⟨db₃, done⟩, hprocess, h⟩ := bind_eq_ok.1 h
      obtain ⟨rfl, rfl⟩ := Prod.mk.inj (Except.ok.inj h)
      obtain ⟨htables₃, hsame, hplace⟩ := processXpayment_spec hprocess htables'
      obtain ⟨xpay', m, hextract, hm, rfl⟩ := extractXtxWithMatch_xpay hxtx
      have haddress := hplace m (by unfold PersistentDb.xmatchSelect; rw [hmatches]; exact hm)
      have hnames := setMatchFieldsInXpay_names env htables hm haddress
      rw [hextract] at hclaimed
      rw [hxtx, pseudoSerialnum_payment hparse (extractXtx_xpay hextract), henv.paymentIdHash] at hserials
      obtain ⟨db₄, hinsert, hrest⟩ := bind_eq_ok.1 hserials
      obtain rfl := Except.ok.inj hrest
      obtain ⟨-, hfresh, hspent, -⟩ := serialnumInsert_spent hinsert
      have hspent₃ (s) (hs : db₄.Spent s) : db₃.Spent s := by
        unfold PersistentDb.Spent PersistentDb.serialnumSelect at hs ⊢
        rwa [hsame]
      refine ⟨htables₃, fun s hs => hspent₃ s (hmono s hs), ?_, ?_, ?_, ?_⟩
      · intro w hw y hy
        obtain rfl := List.mem_singleton.1 hw
        obtain rfl := Option.some.inj (hclaimed.symm.trans hy)
        rw [← hnames.key]
        exact hspent₃ _ hspent
      · intro x hx
        refine ⟨wire, List.mem_singleton_self _, _, hclaimed, ?_⟩
        cases done with
        | false => cases hx
        | true => exact (List.mem_singleton.1 hx) ▸ hnames
      · intro x hx
        cases done with
        | false => cases hx
        | true => exact (List.mem_singleton.1 hx) ▸ hfresh
      · cases done with
        | false => exact List.nodup_nil
        | true => exact List.nodup_singleton _
    · next hxtx =>
      obtain ⟨rfl, rfl⟩ := Prod.mk.inj (Except.ok.inj h)
      refine ⟨htables', hmono, ?_, fun _ hx => (by cases hx), fun _ hx => (by cases hx), List.nodup_nil⟩
      intro w hw y hy
      obtain rfl := List.mem_singleton.1 hw
      rw [hclaimed] at hy
      split at hy
      · next xpay hextract =>
        -- the match of the claim is gone, so that the transaction is rejected
        exfalso
        have hnone : extractXtxWithMatch env.toEnv db tx = none := by
          cases hsome : extractXtxWithMatch env.toEnv db tx with
          | none => rfl
          | some xtx =>
            unfold extractXtxWithMatch at hsome hxtx
            rw [hextract] at hsome hxtx
            obtain ⟨m, hm, rfl⟩ := Option.map_eq_some_iff.1 hsome
            exact absurd (by simp only [hm, Option.map_some]) (hxtx (setMatchFieldsInXpay env.toEnv m xpay))
        refine hextracts ⟨hnone, ?_⟩
        rw [extractXtxFailed, extractXtx_xpay hextract]
        rfl
      · cases hy

lemma PaymentSystem.Indexed.append {wires wires' : List (List UInt8)} {db'' : PersistentDb} {credited more : List Xpay}
    (h : sys.Indexed wires db db' credited) (h' : sys.Indexed wires' db' db'' more) :
    sys.Indexed (wires ++ wires') db db'' (more ++ credited) := by
  have hspent (x) (hx : x ∈ credited) : db'.Spent (sys.key x) := by
    obtain ⟨wire, hwire, y, hy, hnames⟩ := h.credited x hx
    rw [hnames.key]
    exact h.claims wire hwire y hy
  refine ⟨h'.tables, fun s hs => h'.spent s (h.spent s hs), ?_, ?_, ?_, ?_⟩
  · intro wire hwire y hy
    rcases List.mem_append.1 hwire with hwire | hwire
    · exact h'.spent _ (h.claims wire hwire y hy)
    · exact h'.claims wire hwire y hy
  · intro x hx
    rcases List.mem_append.1 hx with hx | hx
    · obtain ⟨wire, hwire, hy⟩ := h'.credited x hx
      exact ⟨wire, List.mem_append_right _ hwire, hy⟩
    · obtain ⟨wire, hwire, hy⟩ := h.credited x hx
      exact ⟨wire, List.mem_append_left _ hwire, hy⟩
  · intro x hx hdb
    rcases List.mem_append.1 hx with hx | hx
    · exact h'.fresh x hx (h.spent _ hdb)
    · exact h.fresh x hx hdb
  · rw [List.map_append, List.nodup_append]
    refine ⟨h'.nodup, h.nodup, ?_⟩
    rintro _ hs _ ht rfl
    obtain ⟨x, hx, hkey⟩ := List.mem_map.1 hs
    obtain ⟨y, hy, hkey'⟩ := List.mem_map.1 ht
    refine h'.fresh x hx ?_
    rw [hkey, ← hkey']
    exact hspent y hy

lemma indexTxs_indexed (henv : sys.Node env) {commitnum : ℕ → ℕ} {wires : List (List UInt8)} {credited : List Xpay}
    (htables : sys.Tables db) (h : indexTxs env.toEnv commitnum db wires = .ok (db', credited)) :
    sys.Indexed wires db db' credited := by
  induction wires generalizing db credited with
  | nil =>
    obtain ⟨rfl, rfl⟩ := Prod.mk.inj (Except.ok.inj h)
    exact ⟨htables, fun _ hs => hs, fun _ hw => (by cases hw), fun _ hx => (by cases hx), fun _ hx => (by cases hx),
      List.nodup_nil⟩
  | cons wire rest ih =>
    obtain ⟨⟨db'', one⟩, hone, h⟩ := bind_eq_ok.1 h
    obtain ⟨⟨db₃, more⟩, hmore, h⟩ := bind_eq_ok.1 h
    obtain ⟨rfl, rfl⟩ := Prod.mk.inj (Except.ok.inj h)
    have hindexed := indexTx_indexed henv htables hone
    exact hindexed.append (ih hindexed.tables hmore)

end Index

/-- What a node keeps of the payments on its chains and in its databases. -/
structure NodeState.Paying (sys : PaymentSystem) (st : NodeState) : Prop where
  tables : sys.Tables st.db
  cache : ∀ wire ∈ st.cache, sys.Verified wire
  wires : ∀ c ∈ st.chains, ∀ b ∈ c.blocks, b.txs.map (·.wire) = b.block.txs
  sound : ∀ c ∈ st.chains, ∀ b ∈ c.blocks, ∀ tx ∈ b.txs, sys.Sound tx
  spent : ∀ b ∈ st.indelible.blocks, ∀ tx ∈ b.txs, ∀ x, tx.claim = some x → st.db.Spent (sys.key x)
  nodup : ∀ c ∈ st.chains, st.indelible.blocks <:+ c.blocks → (c.claims.map sys.key).Nodup
  canonical : ∀ x ∈ st.credited, sys.names.Canonical x
  credited : ∀ x ∈ st.credited, st.db.Spent (sys.key x)
  creditedNodup : (st.credited.map sys.key).Nodup

section Run
variable {sys : PaymentSystem} {st st' : NodeState}

lemma mem_claims {c : ScannedChain} {x : Xpay} :
    x ∈ c.claims ↔ ∃ b ∈ c.blocks, ∃ tx ∈ b.txs, tx.claim = some x := by
  simp only [ScannedChain.claims, List.mem_flatMap, List.mem_filterMap]

/-- The hashes of the claims in some transactions are among their serial numbers, in their order. -/
lemma claims_sublist {txs : List ScannedTx} (h : ∀ tx ∈ txs, sys.Sound tx) :
    ((txs.filterMap ScannedTx.claim).map sys.key).Sublist (txs.flatMap (·.serialnums)) := by
  induction txs with
  | nil => exact .slnil
  | cons tx txs ih =>
    have hrest := ih fun t ht => h t (List.mem_cons_of_mem _ ht)
    cases hclaim : tx.claim with
    | none =>
      rw [List.filterMap_cons_none hclaim, List.flatMap_cons]
      exact hrest.trans (List.sublist_append_right _ _)
    | some x =>
      rw [List.filterMap_cons_some hclaim, List.flatMap_cons, (h tx (List.mem_cons_self ..)).serialnums x hclaim]
      exact hrest.cons_cons _

/-- A claim that the scan of a block accepts is not yet on the chain. -/
lemma NodeState.Paying.not_mem (h : st.Paying sys) (hkept : st.Kept) {view : BlockView} (hview : st.Shows view)
    {c : ScannedChain} (hc : c ∈ st.chains) (hsuffix : st.indelible.blocks <:+ c.blocks) {s : ℕ}
    (hfresh : Fresh view c.toBlockChain (tempSerialnumClear st.temp processBlockp) s) :
    s ∉ c.claims.map sys.key := by
  intro hs
  obtain ⟨x, hx, rfl⟩ := List.mem_map.1 hs
  obtain ⟨b, hb, tx, htx, hclaim⟩ := mem_claims.1 hx
  obtain ⟨above, habove⟩ := hsuffix
  rw [← habove, List.mem_append] at hb
  rcases hb with hb | hb
  · refine hkept.not_mem hview hc habove.symm hfresh b hb tx htx ?_
    rw [(h.sound c hc b (habove ▸ List.mem_append_left _ hb) tx htx).serialnums x hclaim]
    exact List.mem_singleton_self _
  · have hspent := h.spent b hb tx htx x hclaim
    have hnone := (checkSerialnum_eq_zero.1 hfresh).1
    rw [PersistentDb.Spent, ← hview.db, hnone] at hspent
    cases hspent

lemma NodeState.Paying.insertBlock (h : st.Paying sys) (hkept : st.Kept) {env : BlockEnv} (henv : sys.Node env)
    {view : BlockView} (hview : st.Shows view) {c : ScannedChain} (hc : c ∈ st.chains) {received b : Block}
    (hvalid : ValidOn env view st.cache c.toBlockChain received b) {temp : List TempSerialnum} :
    (st.insertBlock env.toEnv c b temp).Paying sys := by
  have hverified (wire) (hwire : wire ∈ b.txs) : sys.Verified wire := by
    rcases hvalid.txs wire hwire with hcache | ⟨-, hfresh⟩ | hfresh
    · exact h.cache wire hcache
    · exact txValidate_verified henv (hview.db ▸ h.tables) hfresh
    · exact txValidate_verified henv (hview.db ▸ h.tables) hfresh
  have hsound : ∀ tx ∈ b.txs.map (scannedTx env.toEnv st.db), sys.Sound tx := by
    intro tx htx
    obtain ⟨wire, hwire, rfl⟩ := List.mem_map.1 htx
    exact scannedTx_sound henv h.tables (hverified wire hwire)
  have hwires : (b.txs.map (scannedTx env.toEnv st.db)).map (·.wire) = b.txs := by
    rw [List.map_map]
    refine (List.map_congr_left fun wire _ => ?_).trans (List.map_id _)
    simp only [Function.comp_apply, scannedTx]
    split <;> rfl
  obtain ⟨temp', hscan⟩ := hvalid.scan
  have hinserts := scanBlock_inserts hscan
  rw [hview.db, hview.temp] at hinserts
  have hmem {P : ScannedBlock → Prop} (hnew : P ⟨b, b.txs.map (scannedTx env.toEnv st.db)⟩)
      (hold : ∀ d ∈ st.chains, ∀ e ∈ d.blocks, P e) :
      ∀ d ∈ (st.insertBlock env.toEnv c b temp).chains, ∀ e ∈ d.blocks, P e := by
    intro d hd e he
    rcases List.mem_cons.1 hd with rfl | hd
    · rcases List.mem_cons.1 he with rfl | he
      · exact hnew
      · exact hold c hc e he
    · exact hold d hd e he
  refine ⟨h.tables, h.cache, hmem hwires h.wires, hmem hsound h.sound, h.spent, ?_, h.canonical, h.credited,
    h.creditedNodup⟩
  intro d hd hsuffix
  rcases List.mem_cons.1 hd with rfl | hd
  · rcases List.suffix_cons_iff.1 hsuffix with hsame | hsuffix
    · -- the block is the last indelible block again
      have hnodup := h.nodup st.indelible hkept.known (List.suffix_refl _)
      change st.indelible.blocks = _ at hsame
      rw [ScannedChain.claims, hsame] at hnodup
      exact hnodup
    · have hsublist := claims_sublist hsound
      rw [List.flatMap_map] at hsublist
      change (List.map sys.key (List.filterMap _ _ ++ c.claims)).Nodup
      rw [List.map_append, List.nodup_append]
      refine ⟨hinserts.nodup.sublist hsublist, h.nodup c hc hsuffix, ?_⟩
      rintro s hs _ hs' rfl
      exact h.not_mem hkept hview hc hsuffix (hinserts.fresh s (hsublist.subset hs)) hs'
  · exact h.nodup d hd hsuffix

lemma NodeState.Paying.confirm (h : st.Paying sys) {env : BlockEnv} (henv : sys.Node env) {b : ScannedBlock}
    (hnext : (⟨b, st.indelible.blocks⟩ : ScannedChain) ∈ st.chains) {commitnum : ℕ → ℕ} {db : PersistentDb}
    {credited : List Xpay} (hindex : indexTxs env.toEnv commitnum st.db b.block.txs = .ok (db, credited)) :
    NodeState.Paying sys { st with db := db, indelible := ⟨b, st.indelible.blocks⟩
                                   credited := credited ++ st.credited } := by
  have hindexed := indexTxs_indexed henv h.tables hindex
  have hwires := h.wires _ hnext b (List.mem_cons_self ..)
  have hsound := h.sound _ hnext b (List.mem_cons_self ..)
  have hverified (wire) (hwire : wire ∈ b.block.txs) : sys.Verified wire := by
    rw [← hwires] at hwire
    obtain ⟨tx, htx, rfl⟩ := List.mem_map.1 hwire
    exact (hsound tx htx).verified
  have hclaims (x) (hx : x ∈ credited) : sys.names.Canonical x ∧ db.Spent (sys.key x) := by
    obtain ⟨wire, hwire, y, hy, hnames⟩ := hindexed.credited x hx
    refine ⟨hnames.canonical (hverified wire hwire y hy), ?_⟩
    rw [hnames.key]
    exact hindexed.claims wire hwire y hy
  refine ⟨hindexed.tables, h.cache, h.wires, h.sound, ?_, ?_, ?_, ?_, ?_⟩
  · intro b' hb' tx htx x hx
    rcases List.mem_cons.1 hb' with rfl | hb'
    · obtain ⟨y, hy, hnames⟩ := (hsound tx htx).names x hx
      rw [hnames.key]
      exact hindexed.claims tx.wire (hwires ▸ List.mem_map_of_mem htx) y hy
    · exact hindexed.spent _ (h.spent b' hb' tx htx x hx)
  · exact fun c hc hsuffix => h.nodup c hc ((List.suffix_cons _ _).trans hsuffix)
  · exact fun x hx => (List.mem_append.1 hx).elim (fun hx => (hclaims x hx).1) (h.canonical x)
  · exact fun x hx => (List.mem_append.1 hx).elim (fun hx => (hclaims x hx).2)
      fun hx => hindexed.spent _ (h.credited x hx)
  · rw [List.map_append, List.nodup_append]
    refine ⟨hindexed.nodup, h.creditedNodup, ?_⟩
    rintro _ hs _ ht rfl
    obtain ⟨x, hx, hkey⟩ := List.mem_map.1 hs
    obtain ⟨y, hy, hkey'⟩ := List.mem_map.1 ht
    refine hindexed.fresh x hx ?_
    rw [hkey, ← hkey']
    exact h.credited y hy

/-- What one step keeps. -/
lemma NodeState.Paying.step (h : st.Paying sys) (hkept : st.Kept) (hstep : NodeStep sys.world st st') :
    st'.Paying sys := by
  cases hstep with
  | cacheTx env view priorBlocktime inBlock wire henv hview hvalid =>
    refine ⟨h.tables, fun w hw => ?_, h.wires, h.sound, h.spent, h.nodup, h.canonical, h.credited, h.creditedNodup⟩
    rcases List.mem_cons.1 hw with rfl | hw
    · exact txValidate_verified henv (hview.db ▸ h.tables) hvalid
    · exact h.cache w hw
  | validateBlock env view received b c temp henv hview hlink hvalid hscan =>
    exact h.insertBlock hkept henv hview (List.mem_of_find?_eq_some hlink)
      (blockValidate_validOn hvalid (hview.find?_eq hlink))
  | confirm env b commitnum db credited henv hnext hindex => exact h.confirm henv hnext hindex
  | exchange db hserialnums htables =>
    have hspent (s) (hs : st.db.Spent s) : db.Spent s := by
      unfold PersistentDb.Spent PersistentDb.serialnumSelect at hs ⊢
      rwa [hserialnums]
    exact ⟨htables, h.cache, h.wires, h.sound, fun b hb tx htx x hx => hspent _ (h.spent b hb tx htx x hx), h.nodup,
      h.canonical, fun x hx => hspent _ (h.credited x hx), h.creditedNodup⟩
  | prune level hlevel =>
    exact ⟨h.tables, h.cache, h.wires, h.sound, h.spent, h.nodup, h.canonical, h.credited, h.creditedNodup⟩
  | restart =>
    have hmem {P : ScannedChain → Prop} (hall : ∀ c ∈ st.chains, P c) : ∀ c ∈ [st.indelible], P c :=
      fun c hc => (List.mem_singleton.1 hc) ▸ hall _ hkept.known
    exact ⟨h.tables, fun _ hw => (by cases hw), hmem h.wires, hmem h.sound, h.spent, hmem h.nodup, h.canonical,
      h.credited, h.creditedNodup⟩

lemma NodeRun.paying (h : NodeRun sys.world st) : st.Paying sys := by
  induction h with
  | start genesis db hlevel htxs hserialnums htables =>
    have hmem {P : ScannedBlock → Prop} (hgenesis : P ⟨genesis, []⟩) :
        ∀ c ∈ [(⟨⟨genesis, []⟩, []⟩ : ScannedChain)], ∀ b ∈ c.blocks, P b := by
      intro c hc b hb
      rw [List.mem_singleton.1 hc] at hb
      exact (List.mem_singleton.1 hb) ▸ hgenesis
    refine ⟨htables, fun _ hw => (by cases hw), hmem htxs.symm, hmem fun _ htx => (by cases htx), ?_, ?_,
      fun _ hx => (by cases hx), fun _ hx => (by cases hx), List.nodup_nil⟩
    · intro b hb tx htx
      rw [List.mem_singleton.1 hb] at htx
      cases htx
    · intro c hc hsuffix
      rw [List.mem_singleton.1 hc]
      exact List.nodup_nil
  | step hrun hstep ih => exact ih.step hrun.kept hstep

/-- How a node deals with foreign payments. -/
structure NodeState.CreditsOnce (sys : PaymentSystem) (st : NodeState) : Prop where
  /-- A claim is spent under one serial number, which it shares with exactly the claims for the same payment. -/
  serialnums : ∀ c ∈ st.chains, ∀ c' ∈ st.chains, ∀ b ∈ c.blocks, ∀ b' ∈ c'.blocks, ∀ tx ∈ b.txs, ∀ tx' ∈ b'.txs,
    ∀ x y, tx.claim = some x → tx'.claim = some y →
      tx.serialnums = [sys.key x] ∧ tx'.serialnums = [sys.key y] ∧
        (sys.key x = sys.key y ↔ sys.names.payment x = sys.names.payment y)
  /-- No payment is claimed twice on a chain that goes through the last indelible block. -/
  claims : ∀ c ∈ st.chains, st.indelible.blocks <:+ c.blocks → (c.claims.map sys.names.payment).Nodup
  /-- No payment was ever credited twice. -/
  credited : (st.credited.map sys.names.payment).Nodup

/-- In every run of a node a payment is credited at most once. -/
theorem NodeRun.creditsOnce (h : NodeRun sys.world st) : st.CreditsOnce sys := by
  have hpaying := h.paying
  refine ⟨?_, ?_, PaymentSystem.payments_nodup hpaying.canonical hpaying.creditedNodup⟩
  · intro c hc c' hc' b hb b' hb' tx htx tx' htx' x y hx hy
    have hsound := hpaying.sound c hc b hb tx htx
    have hsound' := hpaying.sound c' hc' b' hb' tx' htx'
    exact ⟨hsound.serialnums x hx, hsound'.serialnums y hy,
      PaymentSystem.key_eq_iff (hsound.canonical hx) (hsound'.canonical hy)⟩
  · intro c hc hsuffix
    refine PaymentSystem.payments_nodup (fun x hx => ?_) (hpaying.nodup c hc hsuffix)
    obtain ⟨b, hb, tx, htx, hclaim⟩ := mem_claims.1 hx
    exact (hpaying.sound c hc b hb tx htx).canonical hclaim

end Run

section Example

/-- A node looks at its own state. -/
def NodeState.view (st : NodeState) : BlockView where
  db := st.db
  lastIndelibleTimestamp := st.indelible.tip.block.timestamp
  lastIndelibleBlock := some st.indelible.tip.block
  validBlocks := st.chains.map ScannedChain.toBlockChain
  tempSerialnums := st.temp

/-- A node receives a block. -/
def NodeState.receive (st : NodeState) (env : BlockEnv) (received : Block) : Option NodeState := do
  let chain ← st.chains.find? (·.tip.block.oid = received.priorOid)
  let b ← (blockValidate env st.view st.cache received).toOption
  let temp ← (scanBlock env st.view chain.toBlockChain (tempSerialnumClear st.temp processBlockp) b.txs).toOption
  return st.insertBlock env.toEnv chain b temp

/-- A node makes a block after its last indelible block indelible. -/
def NodeState.settle (st : NodeState) (env : BlockEnv) (oid : ℕ) : Option NodeState := do
  let chain ← st.chains.find? fun c => c.priors = st.indelible.blocks ∧ c.tip.block.oid = oid
  let (db, credited) ← (indexTxs env.toEnv id st.db chain.tip.block.txs).toOption
  return { st with db := db, indelible := ⟨chain.tip, st.indelible.blocks⟩, credited := credited ++ st.credited }

lemma NodeRun.receive {world : NodeWorld} {st st' : NodeState} (hrun : NodeRun world st) {env : BlockEnv}
    (henv : world.env env) {received : Block} (h : st.receive env received = some st') : NodeRun world st' := by
  obtain ⟨chain, hlink, h⟩ := Option.bind_eq_some_iff.1 h
  obtain ⟨b, hvalid, h⟩ := Option.bind_eq_some_iff.1 h
  obtain ⟨temp, hscan, h⟩ := Option.bind_eq_some_iff.1 h
  obtain rfl := Option.some.inj h
  exact .step hrun (.validateBlock env st.view received b chain temp henv ⟨rfl, rfl, rfl, rfl⟩ hlink
    (ok_of_toOption hvalid) (ok_of_toOption hscan))

lemma NodeRun.settle {world : NodeWorld} {st st' : NodeState} (hrun : NodeRun world st) {env : BlockEnv}
    (henv : world.env env) {oid : ℕ} (h : st.settle env oid = some st') : NodeRun world st' := by
  obtain ⟨chain, hnext, h⟩ := Option.bind_eq_some_iff.1 h
  obtain ⟨⟨db, credited⟩, hindex, h⟩ := Option.bind_eq_some_iff.1 h
  obtain rfl := Option.some.inj h
  have hpriors : chain.priors = st.indelible.blocks ∧ chain.tip.block.oid = oid := by simpa using List.find?_some hnext
  exact .step hrun (.confirm env chain.tip id db credited henv (hpriors.1 ▸ List.mem_of_find?_eq_some hnext)
    (ok_of_toOption hindex))

/-- The number of a text, with a digit for each character. -/
def textNumber (s : String) : ℕ := s.toList.foldr (fun c n => c.toNat + 1 + 0x110001 * n) 0

lemma textNumber_injective : Function.Injective textNumber := by
  intro s t h
  refine String.toList_injective ?_
  unfold textNumber at h
  generalize s.toList = l at h ⊢
  generalize t.toList = m at h ⊢
  have hdigit (c : Char) : c.toNat + 1 < 0x110001 := by
    have hval : c.toNat < 0x110000 := by
      rcases c.valid with h | ⟨-, h⟩
      · exact h.trans (by decide)
      · exact h
    omega
  induction l generalizing m with
  | nil =>
    cases m with
    | nil => rfl
    | cons c m => simp only [List.foldr_nil, List.foldr_cons] at h; omega
  | cons c l ih =>
    cases m with
    | nil => simp only [List.foldr_nil, List.foldr_cons] at h; omega
    | cons c' m =>
      simp only [List.foldr_cons] at h
      have hc := hdigit c
      have hc' := hdigit c'
      obtain rfl := ih m (by omega)
      have hval : c.toNat = c'.toNat := by omega
      obtain rfl : c = c' := Char.ext (UInt32.toNat_inj.1 hval)
      rfl

/-- The id of a transaction, which the text of 32 equal bytes stands for. -/
def exampleTxid : String := String.ofList (List.replicate 64 '7')

/-- Servers to which each query is about the same payment. -/
def exampleRpc (time : ℕ) : ForeignRpc where
  noQuery := fun _ => false
  submitQuery := fun _ text _ =>
    if text.toList.head? = some '[' then
      some (.arr [.obj [("result", .str "00")],
        .obj [("result", .obj [("isvalid", .bool true), ("address", .str "bc1q"), ("scriptPubKey", .str "0014")])]])
    else
      some (.obj [("result", .obj [("blockhash", .str "00"), ("txid", .str exampleTxid), ("confirmations", .int 12),
        ("blocktime", .int time),
        ("vout", .arr [.obj [("scriptPubKey", .obj [("hex", .str "0014")]), ("value", .real 1)]])])])
  realToString := fun _ => "1.0"
  parseFloat := fun _ => some 1

def exampleSystem : PaymentSystem where
  codec := { alphaDecode := fun _ _ nchars => .ok (String.ofList (List.replicate nchars '7')), mapExpDecode := id }
  blake2s := fun _ => 0
  hash := fun key text => Nat.pair key (textNumber text)
  hash_injective := fun _ _ _ _ h => (Nat.pair_eq_pair.1 h).imp_right fun h => textNumber_injective h
  names :=
    { txid := fun _ _ => some exampleTxid
      address := fun _ _ => some "bc1q"
      txid_length := fun _ _ _ h => by cases h; rfl }
  blockchain := fun _ => 1
  address := fun _ => "bc1q"

def exampleEnv (time : ℕ) : BlockEnv :=
  { quietEnv time with
    verifyLevel := fun _ => .strictBlocks
    codec := exampleSystem.codec
    paymentIdHash := computePaymentIdHash exampleSystem.hash
    queryPayment := Foreign.queryPayment (exampleRpc time) }

def exampleNow : BlockEnv := exampleEnv (mainnetMiningStart + 60)

/-- A payment claim for the first match, with a block id of a given size. -/
def exampleClaim (size : ℕ) : List UInt8 :=
  [UInt8.ofNat (55 + size), 0, 0, 0, 1, 0, 0x19, 0xCC, 1, 0, 0, 0, 0, 0, 0, 0, 0, 0, 0, 0x80, 32, 25] ++
    List.replicate 32 0x77 ++ [25] ++ List.replicate size 0x77

lemma exampleEnv_node (time : ℕ) : exampleSystem.Node (exampleEnv time) where
  codec := rfl
  blake2s := rfl
  paymentIdHash := rfl
  queryPayment := by
    refine ⟨exampleRpc time, ⟨?_, ?_⟩, rfl⟩
    · intro blockchain text block attempt root result value hroot hresult hvalue
      simp only [exampleRpc] at hroot
      split_ifs at hroot
      · cases hroot
        cases hresult
      · cases hroot
        cases hresult
        cases hvalue
        exact ⟨_, rfl, rfl⟩
    · intro blockchain block text attempt hashReply root result value hroot hresult hvalue
      simp only [exampleRpc] at hroot
      split_ifs at hroot
      · cases hroot
        cases hresult
        cases hvalue
        exact ⟨_, rfl, rfl⟩
      · cases hroot
  answered := fun _ _ _ _ _ _ => rfl

/-- The node at its genesis block, with an accepted match. -/
def exampleStart : NodeState where
  db := matchDb .accepted
  chains := [⟨⟨soleBlock 0 mainnetMiningStart, []⟩, []⟩]
  indelible := ⟨⟨soleBlock 0 mainnetMiningStart, []⟩, []⟩

/-- A block on a second chain. -/
def forkBlock (level prior time : ℕ) (txs : List (List UInt8)) : Block :=
  { soleBlock level time with bufp := 16 * (level + 100), oid := level + 100, priorOid := prior, txs := txs }

/-- The second chain gets a payment claim, the first one becomes indelible up to the level of the second, and then
the second chain gets another claim for the same payment. -/
def deadForkRun : Option NodeState := do
  let st ← exampleStart.receive exampleNow (soleBlock 1 mainnetMiningStart)
  let st ← st.receive exampleNow (forkBlock 1 1 mainnetMiningStart [exampleClaim 1])
  let st ← st.receive exampleNow (soleBlock 2 mainnetMiningStart)
  let st ← st.receive exampleNow (forkBlock 2 101 mainnetMiningStart [])
  let st ← st.settle exampleNow 2
  let st ← st.settle exampleNow 3
  st.receive exampleNow (forkBlock 3 102 mainnetMiningStart [exampleClaim 2])

lemma exampleStart_run : NodeRun exampleSystem.world exampleStart := by
  refine .start (soleBlock 0 mainnetMiningStart) (matchDb .accepted) rfl rfl rfl ?_
  intro m hm haddress
  rw [List.mem_singleton.1 hm]
  exact ⟨rfl, rfl⟩

lemma deadForkRun_run {st : NodeState} (h : deadForkRun = some st) : NodeRun exampleSystem.world st := by
  have henv := exampleEnv_node (mainnetMiningStart + 60)
  simp only [deadForkRun, Option.bind_eq_bind, Option.bind_eq_some_iff] at h
  obtain ⟨st₁, h₁, st₂, h₂, st₃, h₃, st₄, h₄, st₅, h₅, st₆, h₆, h⟩ := h
  exact ((((((exampleStart_run.receive henv h₁).receive henv h₂).receive henv h₃).receive henv h₄).settle henv
    h₅).settle henv h₆).receive henv h

/-- On a chain that does not go through the last indelible block a payment is claimed twice. -/
theorem deadFork_claims_twice : ¬ ∀ (sys : PaymentSystem) (st : NodeState), NodeRun sys.world st →
    ∀ c ∈ st.chains, (c.claims.map sys.names.payment).Nodup := by
  intro h
  have hany : deadForkRun.any (fun st =>
      !decide (∀ c ∈ st.chains, (c.claims.map exampleSystem.names.payment).Nodup)) = true := by decide +kernel
  obtain ⟨st, hst, hno⟩ := (Option.any_eq_true _ _).1 hany
  rw [decide_eq_true (h exampleSystem st (deadForkRun_run hst))] at hno
  cases hno

/-- A block with a payment claim becomes indelible. -/
def creditRun : Option NodeState := do
  let st ← exampleStart.receive exampleNow { soleBlock 1 mainnetMiningStart with txs := [exampleClaim 1] }
  st.settle exampleNow 2

lemma creditRun_run {st : NodeState} (h : creditRun = some st) : NodeRun exampleSystem.world st := by
  have henv := exampleEnv_node (mainnetMiningStart + 60)
  simp only [creditRun, Option.bind_eq_bind, Option.bind_eq_some_iff] at h
  obtain ⟨st₁, h₁, h⟩ := h
  exact (exampleStart_run.receive henv h₁).settle henv h

/-- The claim is credited. -/
theorem creditRun_creditsOnce : ∃ st, creditRun = some st ∧ st.credited.length = 1 ∧ st.CreditsOnce exampleSystem := by
  have hany : creditRun.any (fun st => st.credited.length = 1) = true := by decide +kernel
  obtain ⟨st, hst, hone⟩ := (Option.any_eq_true _ _).1 hany
  exact ⟨st, hst, of_decide_eq_true hone, NodeRun.creditsOnce (creditRun_run hst)⟩

end Example

end CredaCash.Chain
