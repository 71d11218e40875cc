import CredaCash.Chain.TxValidate

/-! The queries on a foreign blockchain, and the parsers of the replies of its server. -/

namespace CredaCash.Foreign
open Chain Wire

/-- A value in a reply. -/
inductive Json
  | null
  | bool (b : Bool)
  | int (n : ℤ)
  | real (x : ℚ)
  | str (s : String)
  | arr (values : List Json)
  | obj (members : List (String × Json))

/-- `removeMember`, which finds members in objects only. -/
def Json.removeMember (key : String) : Json → Option Json
  | .obj members => (members.find? (·.1 = key)).map (·.2)
  | _ => none

/-- The servers of the foreign blockchains: what they reply to the text of a query, at each attempt, and
what the parsers leave to the libraries of numbers. -/
structure ForeignRpc where
  /-- There is no port for a blockchain, or it is not to be queried. -/
  noQuery : ℕ → Bool
  submitQuery : ℕ → String → ℕ → Option Json
  realToString : ℚ → String
  /-- `parse_float_value`, as a `double`. -/
  parseFloat : Json → Option UniFloat

/-- `asString`, which throws for arrays and objects. -/
def asString (rpc : ForeignRpc) : Json → Option String
  | .null => some ""
  | .bool b => some (if b then "true" else "false")
  | .int n => some (toString n)
  | .real x => some (rpc.realToString x)
  | .str s => some s
  | _ => none

/-- `isIntegral` for numbers that fit 64 bits. -/
def asIntegral : Json → Option ℤ
  | .int n => if -2^63 ≤ n ∧ n < 2^64 then some n else none
  | .real x => if x.den = 1 ∧ -2^63 ≤ x.num ∧ x.num < 2^64 then some x.num else none
  | _ => none

def isNumeric : Json → Bool
  | .int _ => true
  | .real _ => true
  | _ => false

/-- `tx_query_retries`: a query is tried until its reply gives a result. -/
def txQueryRetries : ℕ := 4

/-- The loop over the attempts of a query. -/
def retry {α : Type} (attempt : ℕ → QueryAnswer α) : ℕ → QueryAnswer α
  | 0 => .error
  | n+1 =>
    match attempt (txQueryRetries - n) with
    | .error => retry attempt n
    | answer => answer

def parseBlockHash (root : Json) : Option String := do
  match ← root.removeMember "result" with
  | .str s => some s
  | _ => none

/-- An address without what comes before its first colon. -/
def erasePrefix (key : String) : String :=
  if ':' ∈ key.toList then String.ofList ((key.toList.dropWhile (· ≠ ':')).drop 1) else key

/-- `ParseAddress`: the script of an address; the inner none is an address that is not valid. -/
def parseAddress (rpc : ForeignRpc) (root : Json) (addr : String) : Option (Option String) := do
  let root ← root.removeMember "result"
  match ← root.removeMember "isvalid" with
  | .bool true =>
    let key ← asString rpc (← root.removeMember "address")
    if erasePrefix key ≠ addr then none
    else
      let script ← asString rpc (← root.removeMember "scriptPubKey")
      return some script
  | .bool false => return none
  | _ => none

def satoshiPerBitcoin : UniFloat := UniFloat.recompose ⟨100000000, 0, 1⟩

/-- `UniFloat::Round` to the nearest integer, away from zero on a tie. -/
def roundNearest (a : UniFloat) : UniFloat :=
  UniFloat.recompose ⟨Rounding.halfUp a.val.natAbs 1074, 0, signOf a.val⟩

/-- The loop of `ParseTx` over the outputs of a transaction: those to the script are added up. -/
def sumOutputs (rpc : ForeignRpc) (script : String) (total : UniFloat) : List Json → Option UniFloat
  | [] => some total
  | out :: rest => do
    let hex ← (← out.removeMember "scriptPubKey").removeMember "hex"
    if (← asString rpc hex) ≠ script then sumOutputs rpc script total rest
    else
      let value ← out.removeMember "value"
      if isNumeric value = false then none
      else
        let amount := UniFloat.ofDouble (← rpc.parseFloat value) 0
        let amount := roundNearest (UniFloat.multiply amount satoshiPerBitcoin 0)
        sumOutputs rpc script (UniFloat.add total amount 0 false) rest

/-- The part of `ParseTx` that follows the names of the block and the transaction. -/
def parseTxResult (rpc : ForeignRpc) (root : Json) (script : String) : Option ForeignQueryResult := do
  let confirmations ← asIntegral (← root.removeMember "confirmations")
  if confirmations ≤ 0 ∨ 2^31 ≤ confirmations then none
  else
    let blocktime ← asIntegral (← root.removeMember "blocktime")
    if blocktime < 0 ∨ 2^32 ≤ blocktime then none
    else
      match ← root.removeMember "vout" with
      | .arr outputs =>
        let amount ← sumOutputs rpc script 0 outputs
        return { amount := UniFloat.divide amount satoshiPerBitcoin 0, blocktime := blocktime.toNat,
                 confirmations := confirmations.toNat }
      | _ => none

def parseTx (rpc : ForeignRpc) (root : Json) (block txid script : String) : Option ForeignQueryResult := do
  let root ← root.removeMember "result"
  if (← asString rpc (← root.removeMember "blockhash")) ≠ block then none
  else if (← asString rpc (← root.removeMember "txid")) ≠ txid then none
  else parseTxResult rpc root script

/-- The text of the query for a block and an address. -/
def blockQuery (block addr : String) : String :=
  "[\x7b\"method\":\"getblockhash\",\"params\":[" ++ block ++
    "]\x7d,\x7b\"method\":\"validateaddress\",\"params\":[\"" ++ addr ++ "\"]\x7d]"

/-- The text of the query for a transaction. -/
def paymentQuery (txid block : String) : String :=
  "\x7b\"method\":\"getrawtransaction\",\"params\":[\"" ++ txid ++ "\",true,\"" ++ block ++ "\"]\x7d"

/-- `ForeignQueryBtc::QueryBlock`: the hash of a block and the script of an address. -/
def queryBlock (rpc : ForeignRpc) (blockchain : ℕ) (block addr : String) : QueryAnswer (String × String) :=
  retry (fun attempt =>
    match rpc.submitQuery blockchain (blockQuery block addr) attempt with
    | some (.arr [hashReply, addressReply]) =>
      match parseBlockHash hashReply, parseAddress rpc addressReply addr with
      | some blockHash, some (some script) => .found (blockHash, script)
      | some _, some none => .notFound
      | _, _ => .error
    | _ => .error) (txQueryRetries + 1)

/-- `ForeignQueryBtc::QueryPayment`. -/
def queryTx (rpc : ForeignRpc) (blockchain : ℕ) (block txid script : String) : QueryAnswer ForeignQueryResult :=
  retry (fun attempt =>
    match rpc.submitQuery blockchain (paymentQuery txid block) attempt with
    | some root =>
      match parseTx rpc root block txid script with
      | some result => .found result
      | none => .error
    | none => .error) (txQueryRetries + 1)

def queryPayment (rpc : ForeignRpc) (blockchain : ℕ) (block addr txid : String) : QueryAnswer ForeignQueryResult :=
  if rpc.noQuery blockchain then .error
  else if blockchain = blockchainBtc ∨ blockchain = blockchainBch then
    match queryBlock rpc blockchain block addr with
    | .error => .error
    | .notFound => .notFound
    | .found (blockHash, script) => queryTx rpc blockchain blockHash txid script
  else .error

/-- `Xpay::ComputePaymentIdHash`, with the blockchain as the key of the hash. -/
def computePaymentIdHash (hash : ℕ → String → ℕ) (xpay : Xpay) : ℕ :=
  hash xpay.foreignBlockchain
    ((if blockchainBch < xpay.foreignBlockchain then xpay.foreignBlockId else "") ++ xpay.foreignTxid ++
      xpay.foreignAddress)

/-- How the servers of the foreign blockchains name things: the one canonical id of the transaction, and the one
canonical form of the address, that a text stands for. -/
structure ForeignNames where
  txid : ℕ → String → Option String
  address : ℕ → String → Option String
  /-- The ids of transactions are hashes in hexadecimal. -/
  txid_length : ∀ blockchain text s, txid blockchain text = some s → s.length = 64

/-- The servers reply with canonical names. -/
structure RepliesWith (names : ForeignNames) (rpc : ForeignRpc) : Prop where
  txid : ∀ blockchain text block attempt root result value,
    rpc.submitQuery blockchain (paymentQuery text block) attempt = some root →
    root.removeMember "result" = some result → result.removeMember "txid" = some value →
      ∃ s, value = .str s ∧ names.txid blockchain text = some s
  address : ∀ blockchain block text attempt hashReply root result value,
    rpc.submitQuery blockchain (blockQuery block text) attempt = some (.arr [hashReply, root]) →
    root.removeMember "result" = some result → result.removeMember "address" = some value →
      ∃ s, value = .str s ∧ names.address blockchain text = some (erasePrefix s)

section Lemmas
variable {rpc : ForeignRpc} {names : ForeignNames}

lemma retry_found {α : Type} {attempt : ℕ → QueryAnswer α} {n : ℕ} {a : α} (h : retry attempt n = .found a) :
    ∃ i, attempt i = .found a := by
  induction n with
  | zero => cases h
  | succ n ih =>
    rw [retry] at h
    split at h
    · exact ih h
    · exact ⟨_, h⟩

lemma parseAddress_valid {root : Json} {addr script : String} (h : parseAddress rpc root addr = some (some script)) :
    ∃ result value s, root.removeMember "result" = some result ∧ result.removeMember "address" = some value ∧
      asString rpc value = some s ∧ erasePrefix s = addr := by
  obtain ⟨result, hresult, h⟩ := Option.bind_eq_some_iff.1 h
  obtain ⟨valid, -, h⟩ := Option.bind_eq_some_iff.1 h
  split at h
  · obtain ⟨value, hvalue, h⟩ := Option.bind_eq_some_iff.1 h
    obtain ⟨s, hs, h⟩ := Option.bind_eq_some_iff.1 h
    split_ifs at h with haddr
    exact ⟨result, value, s, hresult, hvalue, hs, not_not.1 haddr⟩
  · cases h
  · cases h

lemma parseTx_txid {root : Json} {block txid script : String} {r : ForeignQueryResult}
    (h : parseTx rpc root block txid script = some r) :
    ∃ result value, root.removeMember "result" = some result ∧ result.removeMember "txid" = some value ∧
      asString rpc value = some txid := by
  obtain ⟨result, hresult, h⟩ := Option.bind_eq_some_iff.1 h
  obtain ⟨hash, -, h⟩ := Option.bind_eq_some_iff.1 h
  obtain ⟨s, -, h⟩ := Option.bind_eq_some_iff.1 h
  split_ifs at h
  obtain ⟨value, hvalue, h⟩ := Option.bind_eq_some_iff.1 h
  obtain ⟨s, hs, h⟩ := Option.bind_eq_some_iff.1 h
  split_ifs at h with htxid
  exact ⟨result, value, hresult, hvalue, hs.trans (congrArg some (not_not.1 htxid))⟩

/-- A payment that is found was named by its canonical id and address. -/
theorem queryPayment_canonical (hrpc : RepliesWith names rpc) {blockchain : ℕ} {block addr txid : String}
    {r : ForeignQueryResult} (h : queryPayment rpc blockchain block addr txid = .found r) :
    (blockchain = blockchainBtc ∨ blockchain = blockchainBch) ∧ names.txid blockchain txid = some txid ∧
      names.address blockchain addr = some addr := by
  unfold queryPayment at h
  split_ifs at h with _ hchain
  refine ⟨hchain, ?_⟩
  split at h
  · cases h
  · cases h
  · next blockHash script hblock =>
    obtain ⟨i, hi⟩ := retry_found hblock
    obtain ⟨j, hj⟩ := retry_found h
    constructor
    · split at hj
      · next root hroot =>
        split at hj
        · next result hparse =>
          obtain ⟨result, value, hresult, hvalue, hs⟩ := parseTx_txid hparse
          obtain ⟨s, rfl, hname⟩ := hrpc.txid _ _ _ _ _ _ _ hroot hresult hvalue
          rw [hname, ← hs, asString]
        · cases hj
      · cases hj
    · split at hi
      · next hashReply root hroot =>
        split at hi
        · next script hparse =>
          obtain ⟨result, value, s, hresult, hvalue, hs, haddr⟩ := parseAddress_valid hparse
          obtain ⟨s', rfl, hname⟩ := hrpc.address _ _ _ _ _ _ _ _ hroot hresult hvalue
          obtain rfl := Option.some.inj hs
          rw [hname, haddr]
        · cases hi
        · cases hi
      · cases hi

/-- The canonical names of a payment, its blockchain first. -/
structure Payment where
  blockchain : ℕ
  txid : Option String
  address : Option String
  deriving DecidableEq

/-- The payment that a claim refers to. -/
def ForeignNames.payment (names : ForeignNames) (xpay : Xpay) : Payment where
  blockchain := xpay.foreignBlockchain
  txid := names.txid xpay.foreignBlockchain xpay.foreignTxid
  address := names.address xpay.foreignBlockchain xpay.foreignAddress

/-- A claim is spelled in the canonical form of its payment. -/
structure ForeignNames.Canonical (names : ForeignNames) (xpay : Xpay) : Prop where
  blockchain : xpay.foreignBlockchain = blockchainBtc ∨ xpay.foreignBlockchain = blockchainBch
  txid : names.txid xpay.foreignBlockchain xpay.foreignTxid = some xpay.foreignTxid
  address : names.address xpay.foreignBlockchain xpay.foreignAddress = some xpay.foreignAddress

/-- Claims in canonical form have the same hash exactly when they refer to the same payment: the ids have one
length, so that they need no separator from the addresses. -/
theorem computePaymentIdHash_eq_iff {hash : ℕ → String → ℕ} (hinj : Function.Injective2 hash) {x y : Xpay}
    (hx : names.Canonical x) (hy : names.Canonical y) :
    computePaymentIdHash hash x = computePaymentIdHash hash y ↔ names.payment x = names.payment y := by
  have hhash {x : Xpay} (hx : names.Canonical x) :
      computePaymentIdHash hash x = hash x.foreignBlockchain (x.foreignTxid ++ x.foreignAddress) := by
    have hno : ¬ blockchainBch < x.foreignBlockchain := by
      rcases hx.blockchain with h | h <;> rw [h] <;> decide
    rw [computePaymentIdHash, if_neg hno, String.empty_append]
  have hpayment {x : Xpay} (hx : names.Canonical x) :
      names.payment x = ⟨x.foreignBlockchain, some x.foreignTxid, some x.foreignAddress⟩ := by
    rw [ForeignNames.payment, hx.txid, hx.address]
  rw [hhash hx, hhash hy, hpayment hx, hpayment hy, Payment.mk.injEq, Option.some_inj, Option.some_inj]
  constructor
  · intro h
    obtain ⟨hchain, happend⟩ := hinj h
    have hlen : x.foreignTxid.toList.length = y.foreignTxid.toList.length :=
      (names.txid_length _ _ _ hx.txid).trans (names.txid_length _ _ _ hy.txid).symm
    have hlist := congrArg String.toList happend
    rw [String.toList_append, String.toList_append] at hlist
    obtain ⟨htxid, haddress⟩ := List.append_inj hlist hlen
    exact ⟨hchain, String.toList_injective htxid, String.toList_injective haddress⟩
  · rintro ⟨hchain, htxid, haddress⟩
    rw [hchain, htxid, haddress]

end Lemmas

end CredaCash.Foreign
