import CredaCash.Wire.BlockForm

/-! What the writer of transaction messages and their parser make of each other's results. -/

namespace CredaCash.Wire
open BoundedReader Reader Checks

section Parses
variable {α β : Type} {modulus n v : ℕ} {b : List UInt8}

lemma parses_map {p : Parser α} {a : α} (hp : Parses modulus p b a) (g : α → β) :
    Parses modulus (do let x ← p; return g x) b (g a) := by
  rw [← List.append_nil b]
  exact parses_bind hp (parses_pure _)

lemma parses_readNat (datasize : ℕ) (h : v < 256^n) : Parses (2^32) (readNat datasize n) (leBytes n v) v := by
  have hcopy : Parses (2^32) (copyFromBuf datasize n) (leBytes n v) _ := parses_copy (leBytes_length n v)
  have hread := parses_map hcopy leNat
  rwa [leNat_append_zeros, leNat_leBytes h] at hread

end Parses

/-- An output as it comes back from the wire: the chain of its address is not on it, nor is a default domain. -/
def wireOutput (tx : TxPay) (txout : TxOut) : TxOut :=
  { txout with destChain := 0, domain := if tx.wireTag = tagTxXdomain then txout.domain else 0 }

/-- An input with a path as it comes back from the wire: its commitment is not on it, nor are the values that it shares
with the other inputs. -/
def wireInput (tx : TxPay) (txin : TxIn) : TxIn :=
  { txin with
    merkleRoot := 0, invalmax := 0, commitment := 0, commitnum := 0
    domain := if tx.wireTag = tagTxXdomain then txin.domain else 0 }

/-- The values of an output fit their fields. -/
structure OutputFits (txout : TxOut) : Prop where
  address : txout.address < 256^16
  domain : txout.domain < 256^3
  commitment : txout.commitment < 256^32

/-- The values of an input with a path fit their fields. -/
structure InputFits (txin : TxIn) : Prop where
  domain : txin.domain < 256^3
  serialnum : txin.serialnum < 256^32

section Writer
variable {errCheck defaultDomain : ℕ} {tx tx' : TxPay}

@[simp] lemma errIf_eq_ok {c : Prop} [Decidable c] {what : String} {u : Unit} (herr : errCheck ≠ 0) :
    errIf errCheck c what = .ok u ↔ ¬ c := by
  rw [errIf, reject_eq_ok]
  simp [herr]

lemma errIf_bind_eq_ok {α : Type} {c : Prop} [Decidable c] {what : String} {f : Unit → Except WireError α} {x : α}
    (herr : errCheck ≠ 0) : (errIf errCheck c what >>= f) = .ok x ↔ ¬ c ∧ f () = .ok x := by
  rw [errIf, reject_bind_eq_ok]
  simp [herr]

/-- The members of a list are written one after the other. -/
lemma concatM_eq_ok {α : Type} {f : α → Except WireError (List UInt8)} {enc : α → List UInt8}
    (hf : ∀ a b, f a = .ok b → b = enc a) {l : List α} {b : List UInt8} :
    concatM f l = .ok b ↔ (∀ a ∈ l, (f a).isOk = true) ∧ b = l.flatMap enc := by
  induction l generalizing b with
  | nil =>
    constructor
    · intro h
      cases h
      exact ⟨fun _ hmem => absurd hmem List.not_mem_nil, rfl⟩
    · rintro ⟨-, rfl⟩
      rfl
  | cons a l ih =>
    simp only [concatM, bind_eq_ok, List.forall_mem_cons, List.flatMap_cons]
    constructor
    · rintro ⟨b₁, h₁, b₂, h₂, h⟩
      cases h
      obtain ⟨hl, rfl⟩ := ih.1 h₂
      exact ⟨⟨isOk_eq_true.2 ⟨b₁, h₁⟩, hl⟩, by rw [hf a b₁ h₁]⟩
    · rintro ⟨⟨ha, hl⟩, rfl⟩
      obtain ⟨b₁, h₁⟩ := isOk_eq_true.1 ha
      rw [← hf a b₁ h₁]
      exact ⟨b₁, h₁, _, ih.2 ⟨hl, rfl⟩, rfl⟩

/-- What the checks of the asset and the amount of an output let through. -/
structure AssetChecked (tx : TxPay) (txout : TxOut) : Prop where
  type : tx.tagType = .mint ∨ hasCounts tx.tagType = true
  assetMask : txout.assetMask = if tx.tagType = .mint then 0 else assetWireMask
  amountMask : txout.amountMask = if tx.tagType = .mint then 0 else Wire.amountMask
  assetEnc : if tx.tagType = .mint then txout.assetEnc = 0 else txout.assetEnc ≤ assetWireMask
  amountEnc : txout.amountEnc ≤ Wire.amountMask

lemma txpayAssetCheck_eq_ok {txout : TxOut} {u : Unit} (herr : errCheck ≠ 0) :
    txpayAssetCheck errCheck tx txout = .ok u ↔ AssetChecked tx txout := by
  unfold txpayAssetCheck
  by_cases hmint : tx.tagType = .mint
  · simp only [hmint, if_true, errIf_bind_eq_ok herr, errIf_eq_ok herr, ne_eq, not_not, not_lt]
    constructor
    · intro ⟨h₁, h₂, h₃, h₄⟩
      exact ⟨.inl hmint, by rw [h₁, if_pos hmint], by rw [h₂, if_pos hmint], by rw [if_pos hmint, h₃], h₄⟩
    · intro ⟨_, h₁, h₂, h₃, h₄⟩
      rw [if_pos hmint] at h₁ h₂ h₃
      exact ⟨h₁, h₂, h₃, h₄⟩
  · by_cases hcounts : hasCounts tx.tagType = true
    · simp only [hmint, if_false, hcounts, if_true, errIf_bind_eq_ok herr, errIf_eq_ok herr, ne_eq, not_not, not_lt]
      constructor
      · intro ⟨h₁, h₂, h₃, h₄⟩
        exact ⟨.inr hcounts, by rw [h₁, if_neg hmint], by rw [h₂, if_neg hmint], by rw [if_neg hmint]; exact h₃, h₄⟩
      · intro ⟨_, h₁, h₂, h₃, h₄⟩
        rw [if_neg hmint] at h₁ h₂ h₃
        exact ⟨h₁, h₂, h₃, h₄⟩
    · simp only [hmint, if_false, hcounts]
      constructor
      · intro h
        cases h
      · intro h
        exact absurd h.type (not_or.2 ⟨hmint, hcounts⟩)

/-- What the checks of an output let through. -/
structure OutputChecked (errCheck defaultDomain : ℕ) (tx : TxPay) (txout : TxOut) : Prop where
  noAddress : txout.noAddress = false
  destChain : txout.destChain = (tx.outputs.getD 0 {}).destChain
  acceptanceRequired : txout.acceptanceRequired = (tx.outputs.getD 0 {}).acceptanceRequired
  notRequired : txout.acceptanceRequired = true → errCheck ≤ 1
  repeatCount : txout.repeatCount = 0
  domain : tx.wireTag ≠ tagTxXdomain → txout.domain = defaultDomain
  noAsset : txout.noAsset = false
  noAmount : txout.noAmount = false
  asset : AssetChecked tx txout

lemma txpayOutputCheck_eq_ok {txout : TxOut} {u : Unit} (herr : errCheck ≠ 0) :
    txpayOutputCheck errCheck defaultDomain tx txout = .ok u ↔ OutputChecked errCheck defaultDomain tx txout := by
  unfold txpayOutputCheck
  simp only [errIf_bind_eq_ok herr, reject_bind_eq_ok, txpayAssetCheck_eq_ok herr, ne_eq, not_not, not_and, not_lt,
    Bool.not_eq_true]
  constructor
  · intro ⟨h₁, h₂, h₃, h₄, h₅, h₆, h₇, h₈, h₉⟩
    exact ⟨h₁, h₂, h₃, h₄, h₅, h₆, h₇, h₈, h₉⟩
  · intro ⟨h₁, h₂, h₃, h₄, h₅, h₆, h₇, h₈, h₉⟩
    exact ⟨h₁, h₂, h₃, h₄, h₅, h₆, h₇, h₈, h₉⟩

/-- What the checks of an input let through. -/
structure InputChecked (errCheck defaultDomain : ℕ) (tx : TxPay) (txin : TxIn) : Prop where
  enforceMasterSecret : txin.enforceMasterSecret = false
  enforceSpendSecrets : txin.enforceSpendSecrets = false
  enforceTrustSecrets : txin.enforceTrustSecrets = true
  enforceFreeze : txin.enforceFreeze = false
  enforceUnfreeze : txin.enforceUnfreeze = false
  merkleRoot : txin.merkleRoot = (tx.inputs.getD 0 {}).merkleRoot
  invalmax : txin.invalmax = (tx.inputs.getD 0 {}).invalmax
  delaytime : txin.delaytime = (tx.inputs.getD 0 {}).delaytime
  noDelay : txin.delaytime ≠ 0 → errCheck ≤ 1
  domain : tx.wireTag ≠ tagTxXdomain → txin.domain = defaultDomain
  noSerialnum : txin.noSerialnum = false
  spendspecHashed : txin.spendspecHashed = 0
  hashkey : txin.hashkey < 2^128

lemma txpayInputCheck_eq_ok {txin : TxIn} {u : Unit} (herr : errCheck ≠ 0) :
    txpayInputCheck errCheck defaultDomain tx txin = .ok u ↔ InputChecked errCheck defaultDomain tx txin := by
  unfold txpayInputCheck
  simp only [errIf_bind_eq_ok herr, errIf_eq_ok herr, reject_bind_eq_ok, ne_eq, not_not, not_and, not_lt, not_le,
    Bool.not_eq_true, Bool.not_eq_false]
  constructor
  · intro ⟨h₁, h₂, h₃, h₄, h₅, h₆, h₇, h₈, h₉, h₁₀, h₁₁, h₁₂, h₁₃⟩
    exact ⟨h₁, h₂, h₃, h₄, h₅, h₆, h₇, h₈, h₉, h₁₀, h₁₁, h₁₂, h₁₃⟩
  · intro ⟨h₁, h₂, h₃, h₄, h₅, h₆, h₇, h₈, h₉, h₁₀, h₁₁, h₁₂, h₁₃⟩
    exact ⟨h₁, h₂, h₃, h₄, h₅, h₆, h₇, h₈, h₉, h₁₀, h₁₁, h₁₂, h₁₃⟩

end Writer

section Outputs
variable {errCheck defaultDomain : ℕ} {tx tx' : TxPay} {txout : TxOut} {txin : TxIn}

/-- The parser reads the output that was written. -/
lemma parses_output (herr : 1 < errCheck) (htag : tx'.wireTag = tx.wireTag) (htype : tx'.tagType = tx.tagType)
    (hchecked : OutputChecked errCheck defaultDomain tx txout) (hfits : OutputFits txout) :
    Parses (2^32) (txpayOutputFromWire tx') (txpayOutputBytes tx txout) (wireOutput tx txout) := by
  have hasset : Parses (2^32) (readIf (tx.tagType ≠ .mint) (readNat 8 4) 0)
      (if tx.tagType ≠ .mint then leBytes 4 txout.assetEnc else []) txout.assetEnc := by
    have hchecked := hchecked.asset.assetEnc
    by_cases hmint : tx.tagType = .mint
    · rw [if_pos hmint] at hchecked
      rw [if_neg (not_not.2 hmint), hchecked]
      exact parses_readIf_neg (not_not.2 hmint)
    · rw [if_neg hmint, assetWireMask] at hchecked
      rw [if_pos hmint, readIf, if_pos hmint]
      exact parses_readNat 8 (by omega)
  have hamount : txout.amountEnc < 256^5 := by
    have := hchecked.asset.amountEnc
    rw [amountMask] at this
    omega
  have hrequired : txout.acceptanceRequired = false := by
    cases h : txout.acceptanceRequired with
    | false => rfl
    | true => exact absurd (hchecked.notRequired h) (not_le.2 herr)
  have hback : wireOutput tx txout =
      { address := txout.address, domain := if tx.wireTag = tagTxXdomain then txout.domain else 0
        assetEnc := txout.assetEnc, amountEnc := txout.amountEnc, commitment := txout.commitment
        assetMask := if tx.tagType ≠ .mint then assetWireMask else 0
        amountMask := if tx.tagType ≠ .mint then amountMask else 0 } := by
    rw [ite_not, ite_not, ← hchecked.asset.assetMask, ← hchecked.asset.amountMask, wireOutput, hchecked.noAddress,
      hrequired, hchecked.repeatCount, hchecked.noAsset, hchecked.noAmount]
  rw [hback]
  unfold txpayOutputFromWire txpayOutputBytes
  rw [htag, htype, hchecked.noAddress]
  refine parses_bind (parses_readNat 32 hfits.address) ?_
  refine parses_bind (parses_readIf fun _ => parses_readNat 4 hfits.domain) ?_
  exact parses_bind hasset (parses_bind (parses_readNat 8 hamount) (parses_map (parses_readNat 32 hfits.commitment) _))

/-- The parser reads the input that was written, when its path number is the next one. -/
lemma parses_input {i : ℕ} (herr : 1 < errCheck) (htag : tx'.wireTag = tx.wireTag) (hroot : tx'.txMerkleRoot = 0)
    (hchecked : InputChecked errCheck defaultDomain tx txin) (hfits : InputFits txin) (hi : i < tx'.ninWithPath)
    (hpath : txin.pathnum = i + 1) :
    Parses (2^32) (txpayInputFromWire tx' i) (txpayInputBytes tx txin) (wireInput tx txin) := by
  have hne : ¬ txin.pathnum = 0 := by omega
  have hdelay : txin.delaytime = 0 := by
    by_contra h
    exact absurd (hchecked.noDelay h) (not_le.2 herr)
  have hback : wireInput tx txin =
      { enforceTrustSecrets := true, domain := if tx.wireTag = tagTxXdomain then txin.domain else 0
        serialnum := txin.serialnum, hashkey := txin.hashkey, pathnum := txin.pathnum } := by
    rw [← hchecked.enforceTrustSecrets, wireInput, hchecked.enforceMasterSecret, hchecked.enforceSpendSecrets,
      hchecked.enforceFreeze, hchecked.enforceUnfreeze, hdelay, hchecked.noSerialnum, hchecked.spendspecHashed]
  rw [hback]
  unfold txpayInputFromWire txpayInputBytes
  dsimp only
  rw [htag, hroot, hchecked.noSerialnum, if_pos hi, ← hpath, if_neg hne,
    if_neg (show ¬ (txin.pathnum = 0 ∧ false = false) from fun h => hne h.1)]
  refine parses_bind (parses_readIf fun _ => parses_readNat 4 hfits.domain) ?_
  refine parses_bind (parses_readIf_neg hne) (parses_bind (parses_readIf_neg hne) ?_)
  refine parses_bind (parses_readNat 32 hfits.serialnum) (parses_map (parses_readNat 32 ?_) _)
  have := hchecked.hashkey
  omega

/-- What the body of a transaction needs to come back from the wire. -/
structure BodyFits (tx : TxPay) : Prop where
  paramLevel : tx.paramLevel < 256^5
  zkproofLength : tx.zkproof.length = 288
  zkproofHigh : tx.zkproof.drop 287 = [0]
  zkkeyid : tx.zkkeyid < 256^1
  donationFp : tx.donationFp < 256^2
  nout : tx.nout ≤ maxOut
  nin : tx.nin ≤ maxIn
  outputs : ∀ txout ∈ tx.outs, OutputFits txout
  inputs : ∀ txin ∈ tx.ins, InputFits txin
  paths : ∀ i, i < tx.ninWithPath → (tx.inputs.getD i {}).pathnum = i + 1

/-- What the checks of the counts let through. -/
structure CountsChecked (tx : TxPay) (counts : List UInt8) : Prop where
  type : tx.tagType = .mint ∨ hasCounts tx.tagType = true
  mint : tx.tagType = .mint → tx.nout = 1 ∧ tx.nin = 1 ∧ counts = []
  counted : tx.tagType ≠ .mint → 0 < tx.nout ∧ tx.nout ≤ 16 ∧ 0 < tx.ninWithPath ∧ tx.ninWithPath ≤ 16 ∧
    0 < tx.nin ∧ tx.nin ≤ tx.ninWithPath ∧ counts = leBytes 1 ((tx.nout - 1) * 16 + (tx.ninWithPath - 1))

lemma hasCounts_mint : hasCounts .mint = false := rfl

lemma txpayCountsToWire_eq_ok {counts : List UInt8} (herr : errCheck ≠ 0) :
    txpayCountsToWire errCheck tx = .ok counts ↔ CountsChecked tx counts := by
  unfold txpayCountsToWire
  by_cases hmint : tx.tagType = .mint
  · simp only [hmint, hasCounts_mint, Bool.false_eq_true, if_false, if_true, errIf_bind_eq_ok herr, ne_eq, not_not]
    constructor
    · intro ⟨hnout, hnin, h⟩
      cases h
      exact ⟨.inl hmint, fun _ => ⟨hnout, hnin, rfl⟩, fun h => absurd hmint h⟩
    · intro h
      obtain ⟨hnout, hnin, rfl⟩ := h.mint hmint
      exact ⟨hnout, hnin, rfl⟩
  · by_cases hcounts : hasCounts tx.tagType = true
    · simp only [hcounts, if_true, errIf_bind_eq_ok herr, reject_bind_eq_ok]
      constructor
      · intro ⟨h₁, h₂, h₃, h₄, h₅, h₆, h₇, h₈, h⟩
        cases h
        refine ⟨.inr hcounts, fun h => absurd h hmint, fun _ => ⟨?_, ?_, ?_, ?_, ?_, ?_, rfl⟩⟩ <;> omega
      · intro h
        obtain ⟨h₁, h₂, h₃, h₄, h₅, h₆, rfl⟩ := h.counted hmint
        refine ⟨?_, ?_, ?_, ?_, ?_, ?_, ?_, ?_, rfl⟩ <;> omega
    · simp only [hcounts, hmint, if_false]
      constructor
      · intro h
        cases h
      · intro h
        exact absurd h.type (not_or.2 ⟨hmint, hcounts⟩)

lemma parses_counts (tx' : TxPay) {counts : List UInt8} (htype : tx'.tagType = tx.tagType) (hnin : tx'.nin = 0)
    (h : CountsChecked tx counts) (hle : tx.ninWithPath ≤ tx.nin) :
    Parses (2^32) (txpayCountsFromWire tx') counts
      { tx' with
        nout := tx.nout
        ninWithPath := if tx.tagType = .mint then tx'.ninWithPath else tx.ninWithPath
        nin := if tx.tagType = .mint then 0 else tx.nin } := by
  unfold txpayCountsFromWire
  by_cases hmint : tx.tagType = .mint
  · obtain ⟨hnout, -, rfl⟩ := h.mint hmint
    have hmint' : tx'.tagType = .mint := htype.trans hmint
    rw [if_neg (by simp [hmint', hasCounts_mint]), if_pos hmint', if_pos hmint, if_pos hmint, hnout, ← hnin]
    exact parses_pure _
  · obtain ⟨h₁, h₂, h₃, h₄, h₅, h₆, rfl⟩ := h.counted hmint
    rw [if_pos (htype ▸ h.type.resolve_left hmint), if_neg hmint, if_neg hmint]
    have hmap := parses_map (parses_readNat (n := 1) 1 (v := (tx.nout - 1) * 16 + (tx.ninWithPath - 1)) (by omega))
      fun nadj => { tx' with nout := nadj / 16 + 1, ninWithPath := nadj % 16 + 1, nin := nadj % 16 + 1 }
    have hdiv : ((tx.nout - 1) * 16 + (tx.ninWithPath - 1)) / 16 + 1 = tx.nout := by omega
    have hmod : ((tx.nout - 1) * 16 + (tx.ninWithPath - 1)) % 16 + 1 = tx.ninWithPath := by omega
    have heq : tx.nin = tx.ninWithPath := by omega
    rw [hdiv, hmod] at hmap
    rw [heq]
    exact hmap

@[simp] lemma length_outs (tx : TxPay) : tx.outs.length = tx.nout := by simp [TxPay.outs]

@[simp] lemma length_ins (tx : TxPay) : tx.ins.length = tx.nin := by simp [TxPay.ins]

lemma getElem_ins (tx : TxPay) {i : ℕ} (hi : i < tx.ins.length) : tx.ins[i] = tx.inputs.getD i {} := by
  simp [TxPay.ins]

/-- The body of a transaction as it comes back from the wire. -/
structure BodyBack (tx tx' : TxPay) : Prop where
  wireTag : tx'.wireTag = tx.wireTag
  tagType : tx'.tagType = tx.tagType
  paramLevel : tx'.paramLevel = tx.paramLevel
  zkproof : tx'.zkproof = tx.zkproof
  zkkeyid : tx'.zkkeyid = tx.zkkeyid
  donationFp : tx'.donationFp = tx.donationFp
  nout : tx'.nout = tx.nout
  nin : tx'.nin = tx.nin
  ninWithPath : tx.tagType ≠ .mint → tx'.ninWithPath = tx.ninWithPath
  outputs : tx'.outputs = tx.outs.map (wireOutput tx)
  inputs : tx.tagType ≠ .mint → tx'.inputs = tx.ins.map (wireInput tx)

/-- The values of a transaction in front of its lists, as the parser has read them. -/
structure StartBack (tx tx' : TxPay) : Prop where
  wireTag : tx'.wireTag = tx.wireTag
  tagType : tx'.tagType = tx.tagType
  paramLevel : tx'.paramLevel = tx.paramLevel
  zkproof : tx'.zkproof = tx.zkproof
  zkkeyid : tx'.zkkeyid = tx.zkkeyid
  donationFp : tx'.donationFp = tx.donationFp
  appendDataLength : tx'.appendDataLength = 0
  nout : tx'.nout = tx.nout
  nin : tx'.nin = if tx.tagType = .mint then 0 else tx.nin
  ninWithPath : tx'.ninWithPath = if tx.tagType = .mint then 0 else tx.ninWithPath
  txMerkleRoot : tx'.txMerkleRoot = 0

/-- The bytes of the inputs of a body. -/
def inputsBytes (tx : TxPay) : List UInt8 :=
  if tx.tagType = .mint then [] else tx.ins.flatMap (txpayInputBytes tx)

lemma parses_outputs (herr : 1 < errCheck) (hback : StartBack tx tx') (hfits : BodyFits tx)
    (hchecked : ∀ txout ∈ tx.outs, OutputChecked errCheck defaultDomain tx txout) :
    Parses (2^32) (forIndices (fun _ => txpayOutputFromWire tx') 0 tx'.nout) (tx.outs.flatMap (txpayOutputBytes tx))
      (tx.outs.map (wireOutput tx)) := by
  rw [hback.nout, ← length_outs]
  apply parses_forIndices
  intro k hk
  have hmem : tx.outs[k] ∈ tx.outs := List.getElem_mem hk
  exact parses_output herr hback.wireTag hback.tagType (hchecked _ hmem) (hfits.outputs _ hmem)

lemma parses_inputs (herr : 1 < errCheck) (hback : StartBack tx tx') (hfits : BodyFits tx) (hmint : tx.tagType ≠ .mint)
    (hnin : tx.nin ≤ tx.ninWithPath)
    (hchecked : ∀ txin ∈ tx.ins, InputChecked errCheck defaultDomain tx txin) :
    Parses (2^32) (forIndices (txpayInputFromWire tx') 0 tx'.nin) (tx.ins.flatMap (txpayInputBytes tx))
      (tx.ins.map (wireInput tx)) := by
  have hlen : tx'.nin = tx.ins.length := by rw [hback.nin, if_neg hmint, length_ins]
  rw [hlen]
  apply parses_forIndices
  intro k hk
  have hmem : tx.ins[k] ∈ tx.ins := List.getElem_mem hk
  rw [length_ins] at hk
  have hpath : tx.ins[k].pathnum = 0 + k + 1 := by
    rw [getElem_ins, hfits.paths k (by omega)]
    omega
  refine parses_input herr hback.wireTag hback.txMerkleRoot (hchecked _ hmem) (hfits.inputs _ hmem) ?_ hpath
  rw [hback.ninWithPath, if_neg hmint]
  omega

/-- The parser reads the lists that were written. -/
lemma parses_lists (tx' : TxPay) (herr : 1 < errCheck) (hback : StartBack tx tx') (hfits : BodyFits tx)
    (houts : ∀ txout ∈ tx.outs, OutputChecked errCheck defaultDomain tx txout)
    (hmint : tx.tagType = .mint → tx.nin = 1)
    (hins : tx.tagType ≠ .mint → tx.nin ≤ tx.ninWithPath ∧ tx.ninWithPath ≤ tx.nin ∧
      ∀ txin ∈ tx.ins, InputChecked errCheck defaultDomain tx txin) :
    ∃ r, Parses (2^32) (txpayListsFromWire tx') (tx.outs.flatMap (txpayOutputBytes tx) ++ inputsBytes tx) r ∧
      BodyBack tx r ∧ r.appendDataLength = 0 := by
  have houtputs := parses_outputs herr hback hfits houts
  have hnout : ¬ maxOut < tx'.nout := not_lt.2 (hback.nout ▸ hfits.nout)
  by_cases htype : tx.tagType = .mint
  · have hnin : tx'.nin = 0 := by rw [hback.nin, if_pos htype]
    have hpath : tx'.ninWithPath = 0 := by rw [hback.ninWithPath, if_pos htype]
    have htype' : tx'.tagType = .mint := hback.tagType.trans htype
    unfold txpayListsFromWire inputsBytes
    rw [if_neg hnout, if_neg (by rw [hnin]; decide), if_neg (by rw [hpath]; decide), if_pos htype, hnin]
    simp only [htype', if_true, setMintInputs, ne_eq, not_true_eq_false, if_false]
    refine ⟨_, parses_bind houtputs (parses_bind (parses_pure _) (parses_pure _)), ?_⟩
    refine ⟨?_, hback.appendDataLength⟩
    exact
      { hback with
        tagType := htype.symm
        nin := (hmint htype).symm
        ninWithPath := fun h => absurd htype h
        outputs := rfl
        inputs := fun h => absurd htype h }
  · obtain ⟨hle, hge, hchecked⟩ := hins htype
    have hinputs := parses_inputs herr hback hfits htype hle hchecked
    have hnin : ¬ maxIn < tx'.nin := by
      rw [hback.nin, if_neg htype]
      exact not_lt.2 hfits.nin
    have hpath : ¬ maxInPath < tx'.ninWithPath := by
      rw [hback.ninWithPath, if_neg htype]
      exact not_lt.2 (le_trans hge hfits.nin)
    unfold txpayListsFromWire inputsBytes
    rw [if_neg hnout, if_neg hnin, if_neg hpath, if_neg htype]
    have htype' : tx'.tagType ≠ .mint := hback.tagType ▸ htype
    simp only [htype', if_false]
    refine ⟨_, parses_bind houtputs (parses_map hinputs _), ?_⟩
    refine ⟨?_, hback.appendDataLength⟩
    exact
      { hback with
        nin := by simp [hback.nin, htype]
        ninWithPath := fun _ => by simp [hback.ninWithPath, htype]
        outputs := rfl
        inputs := fun _ => rfl }

/-- What the checks of a body let through, and the bytes of its counts. -/
structure BodyChecked (errCheck defaultDomain : ℕ) (tx : TxPay) (counts : List UInt8) : Prop where
  zkkeyid : tx.tagType = .mint → tx.zkkeyid = 0
  ninWithPath : tx.ninWithPath ≤ tx.nin
  counts : CountsChecked tx counts
  outputs : ∀ txout ∈ tx.outs, OutputChecked errCheck defaultDomain tx txout
  inputs : tx.tagType ≠ .mint → ∀ txin ∈ tx.ins, InputChecked errCheck defaultDomain tx txin

/-- The bytes of a body. -/
def bodyBytes (tx : TxPay) (counts : List UInt8) : List UInt8 :=
  leBytes 5 tx.paramLevel ++ (tx.zkproof.take 287 ++ ((if tx.tagType ≠ .mint then leBytes 1 tx.zkkeyid else []) ++
    (leBytes 2 tx.donationFp ++ (counts ++ (tx.outs.flatMap (txpayOutputBytes tx) ++ inputsBytes tx)))))

/-- The parser reads the body that was written. -/
lemma parses_body (tx' : TxPay) {counts : List UInt8} (herr : 1 < errCheck) (htag : tx'.wireTag = tx.wireTag)
    (htype : tx'.tagType = tx.tagType)
    (hempty : tx'.nin = 0 ∧ tx'.ninWithPath = 0 ∧ tx'.txMerkleRoot = 0 ∧ tx'.appendDataLength = 0) (hfits : BodyFits tx)
    (hchecked : BodyChecked errCheck defaultDomain tx counts) :
    ∃ r, Parses (2^32) (txpayBodyFromWire tx') (bodyBytes tx counts) r ∧ BodyBack tx r ∧
      r.appendDataLength = 0 := by
  obtain ⟨hnin, hpath, hroot, happend⟩ := hempty
  have hproof : Parses (2^32) (copyFromBuf 288 287) (tx.zkproof.take 287) tx.zkproof := by
    have hlen : (tx.zkproof.take 287).length = 287 := by rw [List.length_take, hfits.zkproofLength]; rfl
    have hcopy : Parses (2^32) (copyFromBuf 288 287) (tx.zkproof.take 287) _ := parses_copy hlen
    rwa [show List.replicate (288 - 287) (0 : UInt8) = tx.zkproof.drop 287 from hfits.zkproofHigh.symm,
      List.take_append_drop] at hcopy
  have hkey : Parses (2^32) (readIf (tx'.tagType ≠ .mint) (readNat 2 1) 0)
      (if tx.tagType ≠ .mint then leBytes 1 tx.zkkeyid else []) tx.zkkeyid := by
    rw [htype]
    have hread : Parses (2^32) (readIf (tx.tagType ≠ .mint) (readNat 2 1) 0)
        (if tx.tagType ≠ .mint then leBytes 1 tx.zkkeyid else []) (if tx.tagType ≠ .mint then tx.zkkeyid else 0) :=
      parses_readIf fun _ => parses_readNat 2 hfits.zkkeyid
    by_cases hmint : tx.tagType = .mint
    · rw [if_neg (not_not.2 hmint), if_neg (not_not.2 hmint)] at hread
      rw [if_neg (not_not.2 hmint), hchecked.zkkeyid hmint]
      exact hread
    · rw [if_pos hmint, if_pos hmint] at hread
      rw [if_pos hmint]
      exact hread
  let start : TxPay := { tx' with
    paramLevel := tx.paramLevel, zkproof := tx.zkproof, zkkeyid := tx.zkkeyid, donationFp := tx.donationFp }
  have hcounts := parses_counts start htype hnin hchecked.counts hchecked.ninWithPath
  obtain ⟨r, hlists, hback⟩ := parses_lists
    { start with
      nout := tx.nout
      ninWithPath := if tx.tagType = .mint then tx'.ninWithPath else tx.ninWithPath
      nin := if tx.tagType = .mint then 0 else tx.nin }
    herr ⟨htag, htype, rfl, rfl, rfl, rfl, happend, rfl, rfl, by rw [hpath], hroot⟩ hfits hchecked.outputs
    (fun hmint => (hchecked.counts.mint hmint).2.1)
    fun hmint => ⟨(hchecked.counts.counted hmint).2.2.2.2.2.1, hchecked.ninWithPath, hchecked.inputs hmint⟩
  refine ⟨r, ?_, hback⟩
  unfold txpayBodyFromWire bodyBytes
  refine parses_bind (parses_readNat 8 hfits.paramLevel) (parses_bind hproof (parses_bind hkey ?_))
  exact parses_bind (parses_readNat 8 hfits.donationFp) (parses_bind hcounts hlists)

lemma txpayOutputToWire_eq_ok (herr : errCheck ≠ 0) {b : List UInt8} :
    txpayOutputToWire errCheck defaultDomain tx txout = .ok b ↔
      OutputChecked errCheck defaultDomain tx txout ∧ b = txpayOutputBytes tx txout := by
  simp only [txpayOutputToWire, bind_eq_ok, txpayOutputCheck_eq_ok herr]
  constructor
  · rintro ⟨_, hchecked, h⟩
    cases h
    exact ⟨hchecked, rfl⟩
  · rintro ⟨hchecked, rfl⟩
    exact ⟨(), hchecked, rfl⟩

lemma txpayInputToWire_eq_ok (herr : errCheck ≠ 0) {b : List UInt8} :
    txpayInputToWire errCheck defaultDomain tx txin = .ok b ↔
      InputChecked errCheck defaultDomain tx txin ∧ b = txpayInputBytes tx txin := by
  simp only [txpayInputToWire, bind_eq_ok, txpayInputCheck_eq_ok herr]
  constructor
  · rintro ⟨_, hchecked, h⟩
    cases h
    exact ⟨hchecked, rfl⟩
  · rintro ⟨hchecked, rfl⟩
    exact ⟨(), hchecked, rfl⟩

lemma concatM_outputs (herr : errCheck ≠ 0) {l : List TxOut} {b : List UInt8} :
    concatM (txpayOutputToWire errCheck defaultDomain tx) l = .ok b ↔
      (∀ txout ∈ l, OutputChecked errCheck defaultDomain tx txout) ∧ b = l.flatMap (txpayOutputBytes tx) := by
  rw [concatM_eq_ok fun _ _ h => ((txpayOutputToWire_eq_ok herr).1 h).2]
  simp only [isOk_eq_true, txpayOutputToWire_eq_ok herr, exists_and_left, exists_eq, and_true]

lemma concatM_inputs (herr : errCheck ≠ 0) {l : List TxIn} {b : List UInt8} :
    concatM (txpayInputToWire errCheck defaultDomain tx) l = .ok b ↔
      (∀ txin ∈ l, InputChecked errCheck defaultDomain tx txin) ∧ b = l.flatMap (txpayInputBytes tx) := by
  rw [concatM_eq_ok fun _ _ h => ((txpayInputToWire_eq_ok herr).1 h).2]
  simp only [isOk_eq_true, txpayInputToWire_eq_ok herr, exists_and_left, exists_eq, and_true]

/-- When every input has a path, the inputs are written in their order. -/
lemma txpayInputsToWire_eq_ok (herr : errCheck ≠ 0) {b : List UInt8}
    (hpaths : tx.tagType ≠ .mint → tx.nin = tx.ninWithPath ∧ ∀ txin ∈ tx.ins, txin.pathnum ≠ 0) :
    txpayInputsToWire errCheck defaultDomain tx = .ok b ↔
      (tx.tagType ≠ .mint → ∀ txin ∈ tx.ins, InputChecked errCheck defaultDomain tx txin) ∧ b = inputsBytes tx := by
  unfold txpayInputsToWire inputsBytes
  by_cases hmint : tx.tagType = .mint
  · rw [if_pos hmint, if_pos hmint]
    constructor
    · intro h
      cases h
      exact ⟨fun h => absurd hmint h, rfl⟩
    · rintro ⟨-, rfl⟩
      rfl
  · obtain ⟨hnin, hpath⟩ := hpaths hmint
    have hwith : tx.ins.filter (fun txin => txin.pathnum ≠ 0) = tx.ins :=
      List.filter_eq_self.2 fun txin hmem => decide_eq_true (hpath txin hmem)
    have hwithout : tx.ins.filter (fun txin => txin.pathnum = 0) = [] :=
      List.filter_eq_nil_iff.2 fun txin hmem => by simpa using hpath txin hmem
    rw [if_neg hmint, if_neg hmint]
    simp only [hwith, hwithout, bind_eq_ok, reject_eq_ok, concatM_inputs herr, length_ins, hnin]
    constructor
    · rintro ⟨b₁, ⟨hchecked, rfl⟩, _, _, b₂, ⟨_, rfl⟩, _, _, h⟩
      cases h
      exact ⟨fun _ => hchecked, List.append_nil _⟩
    · rintro ⟨hchecked, rfl⟩
      refine ⟨_, ⟨hchecked hmint, rfl⟩, (), fun h => h rfl, [], ⟨fun _ h => absurd h List.not_mem_nil, rfl⟩, (),
        fun h => h (by simp), ?_⟩
      rw [List.append_nil]
      rfl

/-- A body is written when its checks pass. -/
lemma txpayBodyToWire_eq_ok (herr : errCheck ≠ 0) {b : List UInt8}
    (hpaths : ∀ i, i < tx.ninWithPath → (tx.inputs.getD i {}).pathnum = i + 1) :
    txpayBodyToWire errCheck defaultDomain tx = .ok b ↔
      ∃ counts, BodyChecked errCheck defaultDomain tx counts ∧ b = bodyBytes tx counts := by
  have hnin {counts : List UInt8} (hcounts : CountsChecked tx counts) (hle : tx.ninWithPath ≤ tx.nin)
      (hmint : tx.tagType ≠ .mint) : tx.nin = tx.ninWithPath ∧ ∀ txin ∈ tx.ins, txin.pathnum ≠ 0 := by
    have heq : tx.nin = tx.ninWithPath := le_antisymm (hcounts.counted hmint).2.2.2.2.2.1 hle
    refine ⟨heq, fun txin hmem => ?_⟩
    obtain ⟨i, hi, rfl⟩ := List.mem_map.1 hmem
    rw [hpaths i (heq ▸ List.mem_range.1 hi)]
    exact Nat.succ_ne_zero i
  unfold txpayBodyToWire
  simp only [errIf_bind_eq_ok herr, reject_eq_ok, bind_eq_ok, txpayCountsToWire_eq_ok herr, concatM_outputs herr]
  constructor
  · rintro ⟨hkey, -, hle, counts, hcounts, outputs, ⟨houtputs, rfl⟩, inputs, hinputs, h⟩
    cases h
    obtain ⟨hins, rfl⟩ := (txpayInputsToWire_eq_ok herr (hnin hcounts (not_lt.1 hle))).1 hinputs
    exact ⟨counts, ⟨fun hmint => not_not.1 fun hne => hkey ⟨hmint, hne⟩, not_lt.1 hle, hcounts, houtputs, hins⟩, rfl⟩
  · rintro ⟨counts, h, rfl⟩
    refine ⟨fun hkey => hkey.2 (h.zkkeyid hkey.1), (), not_lt.2 h.ninWithPath, counts, h.counts, _, ⟨h.outputs, rfl⟩, _,
      (txpayInputsToWire_eq_ok herr (hnin h.counts h.ninWithPath)).2 ⟨h.inputs, rfl⟩, rfl⟩

end Outputs

section Message
variable {size tag : ℕ} {rest : List UInt8}

/-- The tags of messages. -/
structure IsMessageTag (type : ObjType) (tag : ℕ) : Prop where
  objType : objType tag = type
  hasPOW : hasPOW tag = true
  wireTag : wireTag tag = tag
  lt : tag < 256^4
  notVoid : type ≠ .void
  notBlock : type ≠ .block

instance (type : ObjType) (tag : ℕ) : Decidable (IsMessageTag type tag) :=
  decidable_of_iff (Wire.objType tag = type ∧ Wire.hasPOW tag = true ∧ Wire.wireTag tag = tag ∧ tag < 256^4 ∧
    type ≠ .void ∧ type ≠ .block) ⟨fun ⟨h₁, h₂, h₃, h₄, h₅, h₆⟩ => ⟨h₁, h₂, h₃, h₄, h₅, h₆⟩,
      fun ⟨h₁, h₂, h₃, h₄, h₅, h₆⟩ => ⟨h₁, h₂, h₃, h₄, h₅, h₆⟩⟩

lemma chooseWireTag_isMessageTag {defaultDomain : ℕ} {tx : TxPay}
    (h : ¬ (typeToWireTag tx.tagType = 0 ∨ typeToWireTag tx.tagType = tagBlock)) :
    IsMessageTag tx.tagType (chooseWireTag defaultDomain tx) := by
  unfold chooseWireTag
  split_ifs with hdomain
  · rw [hdomain.1]
    decide
  · generalize tx.tagType = type at h
    cases type with
    | void => exact absurd (.inl rfl) h
    | block => exact absurd (.inr rfl) h
    | mint => decide
    | txpay => decide
    | xcx t => cases t <;> first | decide | exact absurd (.inl rfl) h

variable (blake2s : List UInt8 → ℕ) (tx : TxPay) {pre data : List UInt8} (s : Cursor)

/-- The append data is read to the end of the message. -/
lemma txAppend_back (hs : s.bufpos = pre.length) (hlen : (pre ++ data).length < 2^32) (hdata : data.length ≤ maxAppend)
    (htype : data ≠ [] → tx.tagType.isXtx = true) :
    ∃ tx' s', (txAppendFromWire blake2s (pre ++ data).length tx >>= checkEnd) (pre ++ data) s = (.ok tx', s') ∧
      tx' = if data = [] then tx else
        { tx with
          appendWireOffset := pre.length, appendDataLength := data.length
          appendData := data ++ List.replicate (maxAppend - data.length) 0, refhash := blake2s data } := by
  have hcounter : counter (pre ++ data) s = ((.ok pre.length : Except Failure ℕ), s) := by rw [← hs]; rfl
  have hsub : ((pre ++ data).length + 2^32 - pre.length) % 2^32 = data.length := by
    rw [List.length_append] at hlen ⊢
    omega
  by_cases hempty : data = []
  · subst hempty
    refine ⟨tx, s, ?_, by rw [if_pos rfl]⟩
    have happend : txAppendFromWire blake2s (pre ++ []).length tx (pre ++ []) s = (.ok tx, s) := by
      rw [txAppendFromWire, bind_ok hcounter, hsub]
      rfl
    rw [bind_ok happend]
    exact checkEnd_ok (by rw [hs, List.append_nil])
  · have hne : ¬ data.length = 0 := fun h => hempty (List.length_eq_zero_iff.1 h)
    have hcopy : Parses (2^32) (copyFromBuf maxAppend data.length) data _ := parses_copy rfl
    obtain ⟨s', hrun, hpos⟩ := hcopy pre [] s hs (by rwa [List.append_nil])
    rw [List.append_nil] at hrun
    refine ⟨_, s', ?_, (if_neg hempty).symm⟩
    have happend : txAppendFromWire blake2s (pre ++ data).length tx (pre ++ data) s =
        (.ok { tx with
          appendWireOffset := pre.length, appendDataLength := data.length
          appendData := data ++ List.replicate (maxAppend - data.length) 0, refhash := blake2s data }, s') := by
      rw [txAppendFromWire, bind_ok hcounter, hsub]
      simp only [hne, if_false, htype hempty, Bool.not_true, Bool.false_eq_true]
      rw [bind_ok hrun, List.take_left]
      rfl
    rw [bind_ok happend]
    exact checkEnd_ok (by rw [hpos, List.length_append])

end Message

/-- A transaction whose values fit their fields, with append data only where its type has it. -/
structure TxFits (tx : TxPay) : Prop where
  body : tx.tagType.hasBareMsg = false → BodyFits tx
  appendData : tx.appendDataLength ≤ tx.appendData.length ∧ tx.appendDataLength ≤ maxAppend
  appendType : tx.appendDataLength ≠ 0 → tx.tagType.isXtx = true

/-- A transaction as it comes back from a message. -/
structure SameOnWire (tx : TxPay) (m : TxMessage) (tx' : TxPay) : Prop where
  wireTag : tx'.wireTag = m.wireTag
  tagType : tx'.tagType = tx.tagType
  body : tx.tagType.hasBareMsg = false → BodyBack { tx with wireTag := m.wireTag } tx'
  appendDataLength : tx'.appendDataLength = tx.appendDataLength
  appendData : tx'.appendData.take tx.appendDataLength = tx.appendData.take tx.appendDataLength

section Forward
variable {blake2b : ℕ → List UInt8 → ℕ} {errCheck defaultDomain binsize : ℕ} {tx : TxPay} {m : TxMessage}

/-- What a message is made of. -/
structure Written (blake2b : ℕ → List UInt8 → ℕ) (errCheck defaultDomain binsize : ℕ) (tx : TxPay) (body : List UInt8)
    (m : TxMessage) : Prop where
  type : ¬ (typeToWireTag tx.tagType = 0 ∨ typeToWireTag tx.tagType = tagBlock)
  tag : m.wireTag = chooseWireTag defaultDomain tx
  bare : tx.tagType.hasBareMsg = true → body = []
  writes : tx.tagType.hasBareMsg = false →
    txpayBodyToWire errCheck defaultDomain { tx with wireTag := m.wireTag } = .ok body
  size : 8 + powSize + body.length + (tx.appendData.take tx.appendDataLength).length ≤ binsize
  bytes : m.bytes = messageHeader (8 + powSize + body.length + (tx.appendData.take tx.appendDataLength).length)
    m.wireTag ++ (body ++ tx.appendData.take tx.appendDataLength)
  offset : m.appendWireOffset = if tx.appendDataLength ≠ 0 then 8 + powSize + body.length else tx.appendWireOffset
  objid : m.objid = messageObjId blake2b m.bytes

lemma txpayToWire_eq_ok : txpayToWire blake2b errCheck defaultDomain binsize tx = .ok m ↔
    ∃ body, Written blake2b errCheck defaultDomain binsize tx body m := by
  unfold txpayToWire
  simp only [reject_bind_eq_ok]
  by_cases hbare : tx.tagType.hasBareMsg = true
  · simp only [hbare, if_true, pure_bind, reject_bind_eq_ok]
    constructor
    · rintro ⟨htype, hsize, h⟩
      cases h
      exact ⟨[], htype, rfl, fun _ => rfl, fun h => (by rw [hbare] at h; cases h), not_lt.1 hsize, rfl, rfl, rfl⟩
    · rintro ⟨body, h⟩
      obtain rfl := h.bare hbare
      refine ⟨h.type, not_lt.2 h.size, ?_⟩
      have hbytes := h.bytes
      rw [h.tag] at hbytes
      rw [← hbytes, ← h.tag, ← h.offset, ← h.objid]
      rfl
  · have hbare' : tx.tagType.hasBareMsg = false := Bool.eq_false_iff.2 hbare
    simp only [hbare', Bool.false_eq_true, if_false, bind_eq_ok, reject_eq_ok]
    constructor
    · rintro ⟨htype, body, hbody, _, hsize, h⟩
      cases h
      exact ⟨body, htype, rfl, fun h => absurd h hbare, fun _ => hbody, not_lt.1 hsize, rfl, rfl, rfl⟩
    · rintro ⟨body, h⟩
      have hbody := h.writes hbare'
      have hbytes := h.bytes
      rw [h.tag] at hbody hbytes
      refine ⟨h.type, body, hbody, (), not_lt.2 h.size, ?_⟩
      rw [← hbytes, ← h.tag, ← h.offset, ← h.objid]
      rfl

lemma BodyFits.setWireTag (h : BodyFits tx) (tag : ℕ) : BodyFits { tx with wireTag := tag } :=
  { h with outputs := h.outputs, inputs := h.inputs }

/-- After the header the parser reads the body that was written. -/
lemma parses_written {body : List UInt8} (tx₀ : TxPay) (herr : 1 < errCheck) (hfits : TxFits tx)
    (h : Written blake2b errCheck defaultDomain binsize tx body m)
    (htx₀ : tx₀ = { wireTag := m.wireTag, tagType := tx.tagType, txType := tx.tagType }) :
    ∃ r, Parses (2^32) (readIf (!tx₀.tagType.hasBareMsg) (txpayBodyFromWire tx₀) tx₀) body r ∧
      r.wireTag = m.wireTag ∧ r.tagType = tx.tagType ∧ r.appendDataLength = 0 ∧
      (tx.tagType.hasBareMsg = false → BodyBack { tx with wireTag := m.wireTag } r) := by
  have htag : tx₀.wireTag = m.wireTag := by rw [htx₀]
  have htype : tx₀.tagType = tx.tagType := by rw [htx₀]
  cases hbare : tx.tagType.hasBareMsg with
  | true =>
    rw [h.bare hbare]
    refine ⟨tx₀, parses_readIf_neg (by simp [htype, hbare]), htag, htype, by rw [htx₀], fun hfalse => by cases hfalse⟩
  | false =>
    have hbody := (hfits.body hbare).setWireTag m.wireTag
    obtain ⟨counts, hchecked, rfl⟩ := (txpayBodyToWire_eq_ok (by omega) hbody.paths).1 (h.writes hbare)
    obtain ⟨r, hparses, hback, happend⟩ :=
      parses_body tx₀ herr (by exact htag) (by exact htype) (by rw [htx₀]; exact ⟨rfl, rfl, rfl, rfl⟩) hbody
      hchecked
    refine ⟨r, ?_, hback.wireTag, hback.tagType, happend, fun _ => hback⟩
    rw [readIf, if_pos (by simp [htype, hbare])]
    exact hparses

/-- The parser accepts what was written. -/
lemma txFromWire_back (blake2s : List UInt8 → ℕ) (herr : 1 < errCheck) (hbin : binsize < 2^32) (hfits : TxFits tx)
    (hm : txpayToWire blake2b errCheck defaultDomain binsize tx = .ok m) :
    ∃ tx' s, txFromWire blake2s m.bytes {} = (.ok tx', s) ∧ SameOnWire tx m tx' := by
  obtain ⟨body, h⟩ := txpayToWire_eq_ok.1 hm
  have htag : IsMessageTag tx.tagType m.wireTag := h.tag ▸ chooseWireTag_isMessageTag h.type
  have hbytes := h.bytes
  have hsize := h.size
  have hlen : (tx.appendData.take tx.appendDataLength).length = tx.appendDataLength := by
    rw [List.length_take, min_eq_left hfits.appendData.1]
  generalize hdata : tx.appendData.take tx.appendDataLength = data at hbytes hsize hlen
  generalize hn : 8 + powSize + body.length + data.length = size at hbytes hsize
  have hheader : (messageHeader size m.wireTag).length = 56 := by simp [messageHeader, powSize]
  have hbuf : m.bytes.length = size := by
    rw [hbytes, List.length_append, hheader, List.length_append, ← hn, powSize]
    omega
  have hwiresize : wiresizeAt m.bytes = size := by
    rw [hbytes, messageHeader, List.append_assoc]
    exact wiresizeAt_eq (by omega)
  have htagAt : tagAt m.bytes = m.wireTag := by
    rw [hbytes, messageHeader, List.append_assoc, List.append_assoc]
    exact tagAt_eq htag.lt
  have hhead := txHeader_run m.bytes
  rw [if_neg (by rw [hwiresize, htagAt, htag.objType, hbuf]; simp [htag.notVoid, htag.notBlock])] at hhead
  obtain ⟨-, s₁, hrun₁, hexact, hpos, rfl⟩ := hhead
  have hpos₁ : s₁.bufpos = (messageHeader size m.wireTag).length := by
    rw [hexact.counter, hpos, bodyStart, htagAt, htag.hasPOW, hheader]
    rfl
  obtain ⟨r, hparses, hwire, htype, happend, hback⟩ := parses_written (headerTx m.bytes) herr hfits h
    (by rw [headerTx, htagAt, htag.objType, htag.wireTag])
  obtain ⟨s₂, hrun₂, hpos₂⟩ := hparses _ data s₁ hpos₁ (by rw [← hbytes]; omega)
  rw [← hbytes] at hrun₂
  have hbytes' : m.bytes = (messageHeader size m.wireTag ++ body) ++ data := by rw [hbytes, List.append_assoc]
  obtain ⟨tx', s₃, hrun₃, htx'⟩ := txAppend_back blake2s r s₂
    (by rw [hpos₂, List.length_append]) (by rw [← hbytes']; omega) (by rw [hlen]; exact hfits.appendData.2)
    fun hne => htype ▸ hfits.appendType fun hzero => hne (List.length_eq_zero_iff.1 (hlen.trans hzero))
  rw [← hbytes', hbuf, ← hwiresize] at hrun₃
  refine ⟨tx', s₃, ((bind_ok hrun₁).trans (bind_ok hrun₂)).trans hrun₃, ?_⟩
  by_cases hempty : data = []
  · rw [if_pos hempty] at htx'
    subst htx' hempty
    rw [← hdata] at hlen
    refine ⟨hwire, htype, hback, happend.trans ?_, ?_⟩
    · rw [← hlen, hdata]
      rfl
    · rw [hdata, ← hlen, hdata]
      rfl
  · rw [if_neg hempty] at htx'
    subst htx'
    refine ⟨hwire, htype, fun hbare => { hback hbare with }, hlen, ?_⟩
    rw [hdata, ← hlen]
    exact List.take_left

end Forward

section Consumes
variable {α β : Type} {n c : ℕ}

lemma consumes_map {p : Parser α} {Q : α → List UInt8 → Prop} (hp : Consumes (2^32) p c Q) (g : α → β) :
    Consumes (2^32) (do let x ← p; return g x) c fun y b => ∃ a, y = g a ∧ Q a b := by
  rw [← Nat.add_zero c]
  exact consumes_bind hp fun a b h => consumes_pure ⟨a, rfl, by rwa [List.append_nil]⟩

lemma consumes_readNat {datasize : ℕ} (h : n ≤ datasize) :
    Consumes (2^32) (readNat datasize n) n fun v b => b = leBytes n v ∧ v < 256^n := by
  refine (consumes_map (consumes_copy h) leNat).mono le_rfl ?_
  rintro v b ⟨data, rfl, hlen, rfl⟩
  rw [leNat_append_zeros, ← hlen]
  exact ⟨(leBytes_leNat b).symm, leNat_lt b⟩

/-- A field that is only there under a condition, and zero without it. -/
lemma consumes_readIf_nat {cond : Prop} [Decidable cond] {datasize : ℕ} (h : n ≤ datasize) :
    Consumes (2^32) (readIf cond (readNat datasize n) 0) n fun v b =>
      b = (if cond then leBytes n v else []) ∧ v < 256^n ∧ (¬ cond → v = 0) := by
  refine (consumes_readIf (consumes_readNat h)).mono le_rfl ?_
  intro v b hread
  by_cases hcond : cond
  · rw [if_pos hcond] at hread ⊢
    exact ⟨hread.1, hread.2, fun hnot => absurd hcond hnot⟩
  · rw [if_neg hcond] at hread ⊢
    exact ⟨hread.2, hread.1 ▸ Nat.pow_pos (by decide), fun _ => hread.1⟩

/-- An output as the parser makes it. -/
structure OutputRead (tx : TxPay) (txout : TxOut) : Prop where
  noAddress : txout.noAddress = false
  destChain : txout.destChain = 0
  acceptanceRequired : txout.acceptanceRequired = false
  repeatCount : txout.repeatCount = 0
  domain : tx.wireTag ≠ tagTxXdomain → txout.domain = 0
  noAsset : txout.noAsset = false
  noAmount : txout.noAmount = false
  assetMask : txout.assetMask = if tx.tagType = .mint then 0 else assetWireMask
  amountMask : txout.amountMask = if tx.tagType = .mint then 0 else Wire.amountMask
  assetEnc : if tx.tagType = .mint then txout.assetEnc = 0 else txout.assetEnc ≤ assetWireMask
  amountEnc : txout.amountEnc ≤ Wire.amountMask

/-- The bytes of an output that was read are those that are written for it. -/
lemma consumes_output (tx : TxPay) : Consumes (2^32) (txpayOutputFromWire tx) 60 fun txout b =>
    b = txpayOutputBytes tx txout ∧ OutputRead tx txout := by
  unfold txpayOutputFromWire
  refine consumes_bind (d := 44) (consumes_readNat (by decide)) ?_
  rintro address - ⟨rfl, -⟩
  refine consumes_bind (d := 41) (consumes_readIf_nat (by decide)) ?_
  rintro domain - ⟨rfl, -, hdomain⟩
  refine consumes_bind (d := 37) (consumes_readIf_nat (by decide)) ?_
  rintro assetEnc - ⟨rfl, hlt, hasset⟩
  refine consumes_bind (d := 32) (consumes_readNat (by decide)) ?_
  rintro amountEnc - ⟨rfl, hamount⟩
  refine (consumes_map (consumes_readNat (le_refl 32)) _).mono le_rfl ?_
  rintro txout b ⟨commitment, rfl, rfl, -⟩
  refine ⟨rfl, ?_⟩
  refine
    { noAddress := rfl, destChain := rfl, acceptanceRequired := rfl, repeatCount := rfl, noAsset := rfl, noAmount := rfl
      domain := hdomain, assetMask := ite_not .., amountMask := ite_not .., assetEnc := ?_, amountEnc := ?_ }
  · by_cases hmint : tx.tagType = .mint
    · rw [if_pos hmint]
      exact hasset (not_not.2 hmint)
    · rw [if_neg hmint, assetWireMask]
      dsimp only
      omega
  · rw [amountMask]
    dsimp only
    omega

/-- An input as the parser makes it. -/
structure InputRead (tx : TxPay) (i : ℕ) (txin : TxIn) : Prop where
  enforceMasterSecret : txin.enforceMasterSecret = false
  enforceSpendSecrets : txin.enforceSpendSecrets = false
  enforceTrustSecrets : txin.enforceTrustSecrets = true
  enforceFreeze : txin.enforceFreeze = false
  enforceUnfreeze : txin.enforceUnfreeze = false
  merkleRoot : txin.merkleRoot = tx.txMerkleRoot
  invalmax : txin.invalmax = 0
  delaytime : txin.delaytime = 0
  domain : tx.wireTag ≠ tagTxXdomain → txin.domain = 0
  noSerialnum : txin.noSerialnum = false
  spendspecHashed : txin.spendspecHashed = 0
  hashkey : txin.hashkey < 2^128
  pathnum : txin.pathnum = if i < tx.ninWithPath then i + 1 else 0

lemma consumes_input (tx : TxPay) (i : ℕ) : Consumes (2^32) (txpayInputFromWire tx i) 89 fun txin b =>
    b = txpayInputBytes tx txin ∧ InputRead tx i txin := by
  unfold txpayInputFromWire
  refine consumes_bind (d := 86) (consumes_readIf_nat (by decide)) ?_
  rintro domain - ⟨rfl, -, hdomain⟩
  refine consumes_bind (d := 54) (consumes_readIf_nat (by decide)) ?_
  rintro commitment - ⟨rfl, -, -⟩
  refine consumes_bind (d := 48) (consumes_readIf_nat (by decide)) ?_
  rintro commitnum - ⟨rfl, -, -⟩
  refine consumes_bind (d := 16) (consumes_readNat (by decide)) ?_
  rintro serialnum - ⟨rfl, -⟩
  refine (consumes_map (consumes_readNat (by decide)) _).mono le_rfl ?_
  rintro txin b ⟨hashkey, rfl, rfl, hhashkey⟩
  refine ⟨by simp [txpayInputBytes], ?_⟩
  refine
    { enforceMasterSecret := rfl, enforceSpendSecrets := rfl, enforceTrustSecrets := rfl, enforceFreeze := rfl
      enforceUnfreeze := rfl, merkleRoot := rfl, invalmax := rfl, delaytime := rfl, domain := hdomain
      noSerialnum := rfl, spendspecHashed := rfl, hashkey := ?_, pathnum := rfl }
  dsimp only
  omega

/-- The lists of a body that was read, and their bytes. -/
structure ListsRead (tx r : TxPay) (b : List UInt8) : Prop where
  wireTag : r.wireTag = tx.wireTag
  tagType : r.tagType = tx.tagType
  paramLevel : r.paramLevel = tx.paramLevel
  zkproof : r.zkproof = tx.zkproof
  zkkeyid : r.zkkeyid = tx.zkkeyid
  donationFp : r.donationFp = tx.donationFp
  appendDataLength : r.appendDataLength = tx.appendDataLength
  nout : r.nout = tx.nout
  ninWithPath : r.ninWithPath = tx.ninWithPath
  nin : r.nin = if tx.tagType = .mint then 1 else tx.nin
  outputs : r.outputs.length = tx.nout ∧ ∀ i (hi : i < r.outputs.length), OutputRead tx r.outputs[i]
  inputs : tx.tagType ≠ .mint →
    r.inputs.length = tx.nin ∧ ∀ i (hi : i < r.inputs.length), InputRead tx i r.inputs[i]
  bytes : b = r.outputs.flatMap (txpayOutputBytes tx) ++
    if tx.tagType = .mint then [] else r.inputs.flatMap (txpayInputBytes tx)

lemma consumes_lists (tx : TxPay) (hmint : tx.tagType = .mint → tx.nin = 0) :
    Consumes (2^32) (txpayListsFromWire tx) (tx.nout * 60 + tx.nin * 89) (ListsRead tx) := by
  unfold txpayListsFromWire
  split_ifs
  · exact consumes_fail
  · exact consumes_fail
  · exact consumes_fail
  refine consumes_bind (consumes_forIndices fun _ _ _ => consumes_output tx) ?_
  rintro outputs - ⟨rfl, houtputs⟩
  rw [← Nat.add_zero (tx.nin * 89)]
  refine consumes_bind (consumes_forIndices fun j _ _ => consumes_input tx j) ?_
  rintro inputs - ⟨rfl, hinputs⟩
  simp only [Nat.zero_add] at hinputs
  by_cases htype : tx.tagType = .mint
  · have hempty : inputs = [] := List.length_eq_zero_iff.1 (hinputs.1.trans (hmint htype))
    simp only [htype, if_true, setMintInputs, hmint htype, ne_eq, not_true_eq_false, if_false]
    refine consumes_pure ?_
    subst hempty
    exact
      { wireTag := rfl, tagType := htype.symm, paramLevel := rfl, zkproof := rfl, zkkeyid := rfl, donationFp := rfl
        appendDataLength := rfl, nout := rfl, ninWithPath := rfl, nin := (if_pos htype).symm, outputs := houtputs
        inputs := fun h => absurd htype h, bytes := by rw [if_pos htype]; rfl }
  · simp only [htype, if_false]
    exact consumes_pure
      { wireTag := rfl, tagType := rfl, paramLevel := rfl, zkproof := rfl, zkkeyid := rfl, donationFp := rfl
        appendDataLength := rfl, nout := rfl, ninWithPath := rfl, nin := (if_neg htype).symm, outputs := houtputs
        inputs := fun _ => hinputs, bytes := by rw [if_neg htype, List.append_nil] }

/-- The counts of a body that was read, and their bytes. -/
structure CountsRead (tx r : TxPay) (b : List UInt8) : Prop where
  start : r = { tx with nout := r.nout, nin := r.nin, ninWithPath := r.ninWithPath }
  type : tx.tagType = .mint ∨ hasCounts tx.tagType = true
  mint : tx.tagType = .mint → r.nout = 1 ∧ r.nin = tx.nin ∧ r.ninWithPath = tx.ninWithPath ∧ b = []
  counted : tx.tagType ≠ .mint → 0 < r.nout ∧ r.nout ≤ 16 ∧ 0 < r.ninWithPath ∧ r.ninWithPath ≤ 16 ∧
    r.nin = r.ninWithPath ∧ b = leBytes 1 ((r.nout - 1) * 16 + (r.ninWithPath - 1))

lemma consumes_counts (tx : TxPay) : Consumes (2^32) (txpayCountsFromWire tx) 1 (CountsRead tx) := by
  unfold txpayCountsFromWire
  by_cases hcounts : hasCounts tx.tagType = true
  · have hmint : tx.tagType ≠ .mint := fun h => by rw [h] at hcounts; cases hcounts
    rw [if_pos hcounts]
    refine (consumes_map (consumes_readNat (le_refl 1)) _).mono le_rfl ?_
    rintro r b ⟨nadj, rfl, rfl, hlt⟩
    refine ⟨rfl, .inr hcounts, fun h => absurd h hmint, fun _ => ⟨?_, ?_, ?_, ?_, rfl, ?_⟩⟩
    · dsimp only
      omega
    · dsimp only
      omega
    · dsimp only
      omega
    · dsimp only
      omega
    · dsimp only
      rw [show (nadj / 16 + 1 - 1) * 16 + (nadj % 16 + 1 - 1) = nadj by omega]
  · rw [if_neg hcounts]
    by_cases hmint : tx.tagType = .mint
    · rw [if_pos hmint]
      exact consumes_pure ⟨rfl, .inl hmint, fun _ => ⟨rfl, rfl, rfl, rfl⟩, fun h => absurd hmint h⟩
    · rw [if_neg hmint]
      exact consumes_fail

/-- A list of the full length is all in use. -/
lemma range_getD {γ : Type} (l : List γ) (d : γ) : (List.range l.length).map (fun i => l.getD i d) = l := by
  apply List.ext_getElem
  · simp
  · intro i h h'
    simp [h']

lemma txpayOutputBytes_congr {tx r : TxPay} (htag : r.wireTag = tx.wireTag) (htype : r.tagType = tx.tagType) :
    txpayOutputBytes r = txpayOutputBytes tx := by
  funext txout
  rw [txpayOutputBytes, txpayOutputBytes, htag, htype]

lemma txpayInputBytes_congr {tx r : TxPay} (htag : r.wireTag = tx.wireTag) :
    txpayInputBytes r = txpayInputBytes tx := by
  funext txin
  rw [txpayInputBytes, txpayInputBytes, htag]

section Lists
variable {tx r : TxPay} {b counts : List UInt8} (h : ListsRead tx r b)
include h

lemma ListsRead.outs : r.outs = r.outputs := by
  rw [TxPay.outs, h.nout, ← h.outputs.1]
  exact range_getD r.outputs {}

lemma ListsRead.ins (hmint : tx.tagType ≠ .mint) : r.ins = r.inputs := by
  rw [TxPay.ins, h.nin, if_neg hmint, ← (h.inputs hmint).1]
  exact range_getD r.inputs {}

/-- An output that was read passes its checks. -/
lemma ListsRead.output_checked (errCheck : ℕ) (htype : tx.tagType = .mint ∨ hasCounts tx.tagType = true) {txout : TxOut}
    (hmem : txout ∈ r.outs) : OutputChecked errCheck 0 r txout := by
  have hread : ∀ txout ∈ r.outputs, OutputRead tx txout := by
    intro txout hmem
    obtain ⟨i, hi, rfl⟩ := List.getElem_of_mem hmem
    exact h.outputs.2 i hi
  rw [h.outs] at hmem
  obtain ⟨first, hfirst, hread₀⟩ : ∃ first, r.outputs.getD 0 {} = first ∧ OutputRead tx first := by
    have hpos : 0 < r.outputs.length := List.length_pos_of_mem hmem
    refine ⟨_, by simp [hpos], hread _ (List.getElem_mem hpos)⟩
  have hout := hread txout hmem
  exact
    { noAddress := hout.noAddress
      destChain := by rw [hfirst, hout.destChain, hread₀.destChain]
      acceptanceRequired := by rw [hfirst, hout.acceptanceRequired, hread₀.acceptanceRequired]
      notRequired := fun hreq => by rw [hout.acceptanceRequired] at hreq; cases hreq
      repeatCount := hout.repeatCount
      domain := fun hne => hout.domain (h.wireTag ▸ hne)
      noAsset := hout.noAsset
      noAmount := hout.noAmount
      asset :=
        { type := h.tagType ▸ htype
          assetMask := by rw [h.tagType]; exact hout.assetMask
          amountMask := by rw [h.tagType]; exact hout.amountMask
          assetEnc := by rw [h.tagType]; exact hout.assetEnc
          amountEnc := hout.amountEnc } }

/-- An input that was read passes its checks. -/
lemma ListsRead.input_checked (errCheck : ℕ) (hmint : tx.tagType ≠ .mint) {txin : TxIn} (hmem : txin ∈ r.ins) :
    InputChecked errCheck 0 r txin := by
  obtain ⟨-, hread⟩ := h.inputs hmint
  rw [h.ins hmint] at hmem
  obtain ⟨first, j, hfirst, hread₀⟩ : ∃ first j, r.inputs.getD 0 {} = first ∧ InputRead tx j first := by
    have hpos : 0 < r.inputs.length := List.length_pos_of_mem hmem
    exact ⟨_, 0, by simp [hpos], hread 0 hpos⟩
  obtain ⟨i, hi, rfl⟩ := List.getElem_of_mem hmem
  have hin := hread i hi
  exact
    { enforceMasterSecret := hin.enforceMasterSecret
      enforceSpendSecrets := hin.enforceSpendSecrets
      enforceTrustSecrets := hin.enforceTrustSecrets
      enforceFreeze := hin.enforceFreeze
      enforceUnfreeze := hin.enforceUnfreeze
      merkleRoot := by rw [hfirst, hin.merkleRoot, hread₀.merkleRoot]
      invalmax := by rw [hfirst, hin.invalmax, hread₀.invalmax]
      delaytime := by rw [hfirst, hin.delaytime, hread₀.delaytime]
      noDelay := fun hne => absurd hin.delaytime hne
      domain := fun hne => hin.domain (h.wireTag ▸ hne)
      noSerialnum := hin.noSerialnum
      spendspecHashed := hin.spendspecHashed
      hashkey := hin.hashkey }

lemma ListsRead.lists_bytes : r.outs.flatMap (txpayOutputBytes r) ++ inputsBytes r = b := by
  rw [h.bytes, h.outs, inputsBytes, txpayOutputBytes_congr h.wireTag h.tagType, h.tagType]
  by_cases hmint : tx.tagType = .mint
  · rw [if_pos hmint, if_pos hmint]
  · rw [if_neg hmint, if_neg hmint, h.ins hmint, txpayInputBytes_congr h.wireTag]

end Lists

/-- A body that was read, whose bytes are those that are written for it. -/
structure BodyRead (tx r : TxPay) (b : List UInt8) : Prop where
  wireTag : r.wireTag = tx.wireTag
  tagType : r.tagType = tx.tagType
  appendDataLength : r.appendDataLength = tx.appendDataLength
  paths : ∀ i, i < r.ninWithPath → (r.inputs.getD i {}).pathnum = i + 1
  checked : ∀ errCheck, ∃ counts, BodyChecked errCheck 0 r counts ∧ b = bodyBytes r counts

lemma consumes_body (tx : TxPay) (hnin : tx.nin = 0) (hpath : tx.ninWithPath = 0) :
    Consumes (2^32) (txpayBodyFromWire tx) 3000 (BodyRead tx) := by
  unfold txpayBodyFromWire
  refine consumes_bind (d := 2995) (consumes_readNat (by decide)) ?_
  rintro paramLevel - ⟨rfl, -⟩
  refine consumes_bind (d := 2708) (consumes_copy (by decide)) ?_
  rintro - zkproof ⟨hlen, rfl⟩
  refine consumes_bind (d := 2707) (consumes_readIf_nat (by decide)) ?_
  rintro zkkeyid - ⟨rfl, -, hzero⟩
  refine consumes_bind (d := 2705) (consumes_readNat (by decide)) ?_
  rintro donationFp - ⟨rfl, -⟩
  refine consumes_bind (d := 2704) (consumes_counts _) ?_
  intro tx₁ counts hcounts
  have htype : tx₁.tagType = tx.tagType := by rw [hcounts.start]
  have hbound : tx₁.nout ≤ 16 ∧ tx₁.nin ≤ 16 ∧ (tx₁.tagType = .mint → tx₁.nin = 0) := by
    by_cases hmint : tx.tagType = .mint
    · obtain ⟨h₁, h₂, -⟩ := hcounts.mint hmint
      have h₂ : tx₁.nin = 0 := h₂.trans hnin
      refine ⟨by omega, by omega, fun _ => h₂⟩
    · obtain ⟨-, h₁, -, h₂, h₃, -⟩ := hcounts.counted hmint
      exact ⟨h₁, h₃ ▸ h₂, fun h => absurd (htype ▸ h) hmint⟩
  refine (consumes_lists tx₁ hbound.2.2).mono (by omega) ?_
  intro r b hlists
  have hstart : r.tagType = tx.tagType := hlists.tagType.trans htype
  refine
    { wireTag := hlists.wireTag.trans (by rw [hcounts.start])
      tagType := hstart
      appendDataLength := hlists.appendDataLength.trans (by rw [hcounts.start])
      paths := fun i hi => ?_
      checked := fun errCheck => ⟨counts, ?_, ?_⟩ }
  · rw [hlists.ninWithPath] at hi
    have hmint : tx.tagType ≠ .mint := fun hmint => by
      have : tx₁.ninWithPath = 0 := (hcounts.mint hmint).2.2.1.trans hpath
      omega
    obtain ⟨hlen', hread⟩ := hlists.inputs (htype ▸ hmint)
    have hin : i < r.inputs.length := by
      rw [hlen', (hcounts.counted hmint).2.2.2.2.1]
      exact hi
    have hpathnum := (hread i hin).pathnum
    rw [if_pos hi] at hpathnum
    simpa [hin] using hpathnum
  · have htype₁ : tx₁.tagType = .mint ∨ hasCounts tx₁.tagType = true := htype ▸ hcounts.type
    refine
      { zkkeyid := fun hmint => ?_, ninWithPath := ?_, counts := ⟨hlists.tagType ▸ htype₁, fun hmint => ?_, fun hmint => ?_⟩
        outputs := fun txout => hlists.output_checked errCheck htype₁
        inputs := fun hmint txin => hlists.input_checked errCheck (hlists.tagType ▸ hmint) }
    · rw [hlists.zkkeyid, hcounts.start]
      exact hzero (not_not.2 (hstart ▸ hmint))
    · rw [hlists.ninWithPath, hlists.nin]
      by_cases hmint : tx.tagType = .mint
      · have : tx₁.ninWithPath = 0 := (hcounts.mint hmint).2.2.1.trans hpath
        omega
      · rw [if_neg (htype ▸ hmint)]
        exact (hcounts.counted hmint).2.2.2.2.1.ge
    · obtain ⟨h₁, -, -, h₂⟩ := hcounts.mint (hstart ▸ hmint)
      refine ⟨hlists.nout.trans h₁, ?_, h₂⟩
      rw [hlists.nin, if_pos (hlists.tagType ▸ hmint)]
    · obtain ⟨h₁, h₂, h₃, h₄, h₅, h₆⟩ := hcounts.counted (hstart ▸ hmint)
      rw [hlists.nout, hlists.nin, hlists.ninWithPath, if_neg (hlists.tagType ▸ hmint)]
      exact ⟨h₁, h₂, h₃, h₄, h₅ ▸ h₃, h₅.le, h₆⟩
  · rw [bodyBytes, hlists.lists_bytes, hlists.paramLevel, hlists.zkproof, hlists.zkkeyid, hlists.donationFp, hstart,
      hcounts.start]
    have htake : (zkproof ++ List.replicate (288 - 287) 0).take 287 = zkproof := by
      rw [← hlen, List.take_left]
    rw [htake]

end Consumes

section ObjId
variable (blake2b : ℕ → List UInt8 → ℕ) {size tag : ℕ} {pow pow' body : List UInt8}

/-- The object id of a message from its parts. -/
lemma messageObjId_eq (hsize : size < 256^4) (htag : tag < 256^4) :
    messageObjId blake2b (leBytes 4 size ++ (leBytes 4 tag ++ body)) =
      blake2b (wireTag tag) ((body.drop (if hasPOW tag then powSize else 0)).take (bodySizeOf size tag)) := by
  have hdrop (n : ℕ) : (leBytes 4 size ++ (leBytes 4 tag ++ body)).drop (8 + n) = body.drop n := by
    rw [← List.drop_drop, ← List.append_assoc,
      List.drop_left' (by rw [List.length_append, leBytes_length, leBytes_length])]
  unfold messageObjId
  simp only [List.take_left' (leBytes_length 4 size), List.drop_left' (leBytes_length 4 size),
    List.take_left' (leBytes_length 4 tag), leNat_leBytes hsize, leNat_leBytes htag, hdrop]

/-- The object id of a message does not depend on its proof of work. -/
lemma messageObjId_pow (hpow : hasPOW tag = true) (htag : tag < 256^4) (hlen : pow.length = powSize)
    (hsize : 8 + powSize + body.length < 256^4) :
    messageObjId blake2b (leBytes 4 (8 + powSize + body.length) ++ (leBytes 4 tag ++ (pow ++ body))) =
      blake2b (wireTag tag) body := by
  have hbody : bodySizeOf (8 + powSize + body.length) tag = body.length := by
    unfold bodySizeOf powSize at *
    rw [if_pos hpow, if_neg (by omega)]
    omega
  rw [messageObjId_eq blake2b hsize htag, hbody, if_pos hpow, List.drop_left' hlen, List.take_length]

/-- A transaction has the same object id in a block. -/
lemma messageObjId_block (hpow : hasPOW tag = true) (htag : tag < 256^4) (hsize : 8 + body.length < 256^4) :
    messageObjId blake2b (leBytes 4 (8 + body.length) ++ (leBytes 4 (blockTag tag) ++ body)) =
      blake2b (wireTag tag) body := by
  obtain ⟨hrange, hflag⟩ := Bool.and_eq_true_iff.1 hpow
  have hflag : tag.testBit 16 = false := by simpa using hflag
  have hle : tag ≤ tagSimpleTrade := by simpa using (Bool.and_eq_true_iff.1 hrange).2
  have hblock : blockTag tag = 2^16 + tag := by
    rw [blockTag, hflag, if_neg (by decide), tagBlockFlag]
    omega
  have hset : (2^16 + tag).testBit 16 = true := by rw [Nat.testBit_two_pow_add_eq, hflag]; rfl
  have hnopow : hasPOW (2^16 + tag) = false := by rw [hasPOW, hset]; simp
  have hwire : wireTag (2^16 + tag) = wireTag tag := by
    rw [wireTag, wireTag, hset, hflag, if_pos rfl, if_neg (by decide), tagBlockFlag]
    omega
  have hbody : bodySizeOf (8 + body.length) (2^16 + tag) = body.length := by
    unfold bodySizeOf
    rw [hnopow, if_neg (by decide), if_neg (by omega)]
    omega
  rw [hblock, messageObjId_eq blake2b hsize (by unfold tagSimpleTrade at hle; omega), hnopow, hwire, hbody,
    if_neg (by decide), List.drop_zero, List.take_length]

end ObjId

/-- A message whose proof of work is zeros. -/
def zeroPow (msg : List UInt8) : List UInt8 := msg.take 8 ++ (List.replicate powSize 0 ++ msg.drop (8 + powSize))

section Converse
variable (blake2s : List UInt8 → ℕ) {blake2b : ℕ → List UInt8 → ℕ} {msg : List UInt8} {tx r : TxPay} {s : Cursor}

lemma checkEnd_eq_ok {α : Type} {a a' : α} {s' : Cursor} (h : checkEnd a msg s = (.ok a', s')) : a' = a := by
  change (if msg.length < s.bufpos then fail (.rc 1) else pure a : Parser α) msg s = _ at h
  split_ifs at h
  · cases h
  · cases h
    rfl

/-- The append data of a message is what follows its body. -/
lemma txAppend_read (hlen : msg.length < 2^32) (hpos : s.bufpos ≤ 4000) (hr : r.appendDataLength = 0) {s' : Cursor}
    (hrun : (txAppendFromWire blake2s msg.length r >>= checkEnd) msg s = (.ok tx, s'))
    (hmax : tx.appendDataLength ≤ maxAppend) :
    s.bufpos ≤ msg.length ∧ tx.appendDataLength = msg.length - s.bufpos ∧
      tx.appendData.take tx.appendDataLength = msg.drop s.bufpos ∧
      ∃ offset length data refhash, tx = { r with
        appendWireOffset := offset, appendDataLength := length, appendData := data, refhash := refhash } := by
  have hcounter : counter msg s = ((.ok s.bufpos : Except Failure ℕ), s) := rfl
  generalize hn : (msg.length + 2^32 - s.bufpos) % 2^32 = nappend
  have happend : txAppendFromWire blake2s msg.length r msg s =
      (if nappend = 0 then (return r)
        else if !r.tagType.isXtx then fail (.rc (-1))
        else do
          let data ← copyFromBuf maxAppend nappend
          return { r with
            appendWireOffset := s.bufpos, appendDataLength := nappend, appendData := data
            refhash := blake2s (data.take nappend) } : Parser TxPay) msg s := by
    rw [txAppendFromWire, bind_ok hcounter, hn]
  by_cases hzero : nappend = 0
  · rw [if_pos hzero] at happend
    rw [bind_ok happend] at hrun
    obtain rfl := checkEnd_eq_ok hrun
    have hend : s.bufpos = msg.length := by omega
    rw [hr, hend, List.drop_length]
    exact ⟨le_rfl, (Nat.sub_self _).symm, rfl, tx.appendWireOffset, 0, tx.appendData, tx.refhash, by rw [← hr]⟩
  · rw [if_neg hzero] at happend
    by_cases hxtx : r.tagType.isXtx = true
    · rw [hxtx, if_neg (by decide)] at happend
      rw [bind_ok happend] at hrun
      obtain rfl := checkEnd_eq_ok hrun
      dsimp only at hmax
      have hmax' : nappend ≤ 512 := hmax
      have hin : s.bufpos + nappend = msg.length := by omega
      refine ⟨by omega, by dsimp only; omega, ?_, _, _, _, _, rfl⟩
      have hmod : (s.bufpos + nappend) % 2^32 ≤ msg.length := by omega
      simp only [decide_eq_true hmod, if_true]
      rw [bytesAt_take (by omega), List.take_of_length_le (by rw [List.length_drop]; omega)]
    · rw [if_pos (by simpa using hxtx)] at happend
      rw [bind_error happend] at hrun
      cases hrun

/-- A message that the parser accepts, with its size in its header. -/
structure Accepted (blake2s : List UInt8 → ℕ) (msg : List UInt8) (tx : TxPay) : Prop where
  length : msg.length < 2^32
  runs : ∃ s, txFromWire blake2s msg {} = (.ok tx, s)
  size : wiresizeAt msg = msg.length
  append : tx.appendDataLength ≤ maxAppend

lemma Accepted.header (h : Accepted blake2s msg tx) : objType (tagAt msg) ≠ .void ∧ objType (tagAt msg) ≠ .block := by
  obtain ⟨s, hrun⟩ := h.runs
  rw [← not_or]
  intro hreject
  obtain ⟨e, s', hfail, -⟩ := (txFromWire_header blake2s (.inr hreject)).1
  rw [hfail] at hrun
  cases hrun

/-- The parts of a message that the parser accepts. -/
lemma Accepted.parts (h : Accepted blake2s msg tx) (hpow : hasPOW (tagAt msg) = true) :
    ∃ r b, 56 + b.length ≤ msg.length ∧ msg.drop 56 = b ++ tx.appendData.take tx.appendDataLength ∧
      tx.appendDataLength = msg.length - (56 + b.length) ∧ r.wireTag = wireTag (tagAt msg) ∧
      r.tagType = objType (tagAt msg) ∧ (r.tagType.hasBareMsg = true → b = []) ∧
        (r.tagType.hasBareMsg = false → BodyRead (headerTx msg) r b) ∧
      ∃ offset length data refhash, tx = { r with
        appendWireOffset := offset, appendDataLength := length, appendData := data, refhash := refhash } := by
  obtain ⟨s, hrun⟩ := h.runs
  have hhead := txHeader_run msg
  rw [if_neg (by rw [h.size, not_or, not_or]; exact ⟨lt_irrefl _, h.header⟩)] at hhead
  obtain ⟨-, s₁, hrun₁, hexact, hpos, rfl⟩ := hhead
  have hpos₁ : s₁.pos = 56 := by rw [hpos, bodyStart, hpow]; rfl
  change (txHeaderFromWire >>= _) msg {} = _ at hrun
  rw [bind_ok hrun₁, h.size] at hrun
  have hconsumes : Consumes (2^32)
      (readIf (!(headerTx msg).tagType.hasBareMsg) (txpayBodyFromWire (headerTx msg)) (headerTx msg)) 3000 _ :=
    consumes_readIf (consumes_body (headerTx msg) rfl rfl)
  dsimp only at hrun
  rcases hbody : readIf (!(headerTx msg).tagType.hasBareMsg) (txpayBodyFromWire (headerTx msg)) (headerTx msg) msg s₁
    with ⟨_ | r, s₂⟩
  · rw [bind_error hbody] at hrun
    cases hrun
  rw [bind_ok hbody] at hrun
  obtain ⟨b, hread, hb, hpos₂, hexact₂, hdrop⟩ :=
    hconsumes msg s₁ r s₂ hexact.counter (by rw [hpos₁]; decide) hbody
  rw [hpos₁] at hpos₂ hdrop
  rw [hpos₂] at hdrop
  have hhere : (r.tagType.hasBareMsg = true → b = []) ∧ (r.tagType.hasBareMsg = false → BodyRead (headerTx msg) r b) ∧
      r.wireTag = wireTag (tagAt msg) ∧ r.tagType = objType (tagAt msg) ∧ r.appendDataLength = 0 := by
    cases hbare : (headerTx msg).tagType.hasBareMsg with
    | true =>
      rw [hbare, if_neg (by decide)] at hread
      obtain ⟨rfl, rfl⟩ := hread
      exact ⟨fun _ => rfl, fun hfalse => (by rw [hbare] at hfalse; cases hfalse), rfl, rfl, rfl⟩
    | false =>
      rw [hbare, if_pos (by decide)] at hread
      rw [hread.tagType, hbare]
      exact ⟨fun hfalse => absurd hfalse (by decide), fun _ => hread, hread.wireTag, rfl, hread.appendDataLength⟩
  obtain ⟨hbare, hfull, htag, htype, hzero⟩ := hhere
  obtain ⟨hin, hlength, hdata, hsame⟩ := txAppend_read blake2s h.length (by omega) hzero hrun h.append
  rw [hexact₂, hpos₂] at hin hlength hdata
  exact ⟨r, b, hin, by rw [hdata]; exact hdrop hin, hlength, htag, htype, hbare, hfull, hsame⟩

/-- The size and the tag of a message are its first bytes. -/
lemma take_eight (h : 56 ≤ msg.length) : msg.take 8 = leBytes 4 (wiresizeAt msg) ++ leBytes 4 (tagAt msg) := by
  have hfield {k : ℕ} (hk : k + 4 ≤ msg.length) : leBytes 4 (leNat (fieldAt msg k 4 4)) = (msg.drop k).take 4 := by
    have hlen : ((msg.drop k).take 4).length = 4 := by
      rw [List.length_take, List.length_drop]
      omega
    have hbytes := leBytes_leNat ((msg.drop k).take 4)
    rw [hlen] at hbytes
    rw [fieldAt, if_pos hk, bytesAt, leNat_append_zeros, hbytes]
  rw [wiresizeAt, tagAt, hfield (by omega), hfield (by omega), List.drop_zero, ← List.take_add]

/-- The object id of a message is that of the message with a proof of work of zeros. -/
lemma messageObjId_zeroPow (h : 56 ≤ msg.length) (hlen : msg.length < 2^32) (hsize : wiresizeAt msg = msg.length)
    (hpow : hasPOW (tagAt msg) = true) (htag : tagAt msg < 256^4) :
    messageObjId blake2b (zeroPow msg) = messageObjId blake2b msg := by
  have hparts : msg = leBytes 4 (8 + powSize + (msg.drop 56).length) ++
      (leBytes 4 (tagAt msg) ++ ((msg.drop 8).take powSize ++ msg.drop 56)) := by
    have hlength : 8 + powSize + (msg.drop 56).length = msg.length := by
      rw [List.length_drop, powSize]
      omega
    have hrest : (msg.drop 8).take powSize ++ msg.drop 56 = msg.drop 8 := by
      rw [show msg.drop 56 = (msg.drop 8).drop powSize by rw [List.drop_drop]; rfl]
      exact List.take_append_drop ..
    rw [hlength, hrest, ← hsize, ← List.append_assoc, ← take_eight h, List.take_append_drop]
  have hbound : 8 + powSize + (msg.drop 56).length < 256^4 := by
    rw [List.length_drop, powSize]
    omega
  have hpowlen : ((msg.drop 8).take powSize).length = powSize := by
    rw [List.length_take, List.length_drop, powSize]
    omega
  have hzero : zeroPow msg = leBytes 4 (8 + powSize + (msg.drop 56).length) ++
      (leBytes 4 (tagAt msg) ++ (List.replicate powSize 0 ++ msg.drop 56)) := by
    rw [zeroPow, take_eight h, hsize, List.append_assoc]
    congr 2
    rw [List.length_drop, powSize]
    omega
  rw [hzero, messageObjId_pow blake2b hpow htag List.length_replicate hbound]
  conv_rhs => rw [hparts]
  rw [messageObjId_pow blake2b hpow htag hpowlen hbound]

/-- The writer gives back an accepted message, with a proof of work of zeros. -/
lemma txpayToWire_back {errCheck binsize : ℕ} (h : Accepted blake2s msg tx) (htag : tagAt msg = chooseWireTag 0 tx)
    (herr : 1 < errCheck) (hbin : msg.length ≤ binsize) :
    ∃ m, txpayToWire blake2b errCheck 0 binsize tx = .ok m ∧ m.bytes = zeroPow msg ∧
      m.objid = messageObjId blake2b msg := by
  have hwritable : ¬ (typeToWireTag tx.tagType = 0 ∨ typeToWireTag tx.tagType = tagBlock) := by
    intro hbad
    have hchoose : chooseWireTag 0 tx = typeToWireTag tx.tagType := by
      rw [chooseWireTag, if_neg]
      intro hdomain
      rw [hdomain.1] at hbad
      exact absurd hbad (by decide)
    have hheader := h.header
    rw [htag, hchoose] at hheader
    rcases hbad with hbad | hbad
    · rw [hbad] at hheader
      exact hheader.1 rfl
    · rw [hbad] at hheader
      exact hheader.2 rfl
  have hmessage : IsMessageTag tx.tagType (tagAt msg) := htag ▸ chooseWireTag_isMessageTag hwritable
  obtain ⟨r, b, hin, hdrop, hlength, hwire, htype, hbare, hfull, offset, length, data, refhash, htx⟩ :=
    h.parts blake2s hmessage.hasPOW
  have happend : (tx.appendData.take tx.appendDataLength).length = tx.appendDataLength := by
    have := congrArg List.length hdrop
    rw [List.length_drop, List.length_append] at this
    omega
  have htype' : tx.tagType = r.tagType := by rw [htx]
  have hsize : 8 + powSize + b.length + (tx.appendData.take tx.appendDataLength).length = msg.length := by
    rw [happend, powSize]
    omega
  have hbody : tx.tagType.hasBareMsg = false →
      txpayBodyToWire errCheck 0 { tx with wireTag := tagAt msg } = .ok b := by
    intro hno
    have hread := hfull (htype' ▸ hno)
    obtain ⟨counts, hchecked, hb⟩ := hread.checked errCheck
    have hwritten := (txpayBodyToWire_eq_ok (by omega) hread.paths).2 ⟨counts, hchecked, hb⟩
    rw [htx, ← hmessage.wireTag, ← hwire]
    exact hwritten
  refine ⟨⟨zeroPow msg, tagAt msg, if tx.appendDataLength ≠ 0 then 8 + powSize + b.length else tx.appendWireOffset,
    messageObjId blake2b (zeroPow msg)⟩, txpayToWire_eq_ok.2 ⟨b, ?_⟩, rfl,
    messageObjId_zeroPow (by omega) h.length h.size hmessage.hasPOW hmessage.lt⟩
  refine ⟨hwritable, htag, fun hyes => hbare (htype' ▸ hyes), hbody, hsize ▸ hbin, ?_, rfl, rfl⟩
  rw [hsize, messageHeader, ← h.size, List.append_assoc, List.append_assoc, ← hdrop]
  dsimp only
  rw [zeroPow, take_eight (by omega), List.append_assoc]
  rfl

end Converse

/-- What is written is read back, what is accepted is written again, and the object id ignores the proof of work. -/
theorem txWire_roundTrip (blake2s : List UInt8 → ℕ) (blake2b : ℕ → List UInt8 → ℕ) :
    (∀ errCheck defaultDomain binsize tx m, 1 < errCheck → binsize < 2^32 → TxFits tx →
      txpayToWire blake2b errCheck defaultDomain binsize tx = .ok m →
        m.objid = messageObjId blake2b m.bytes ∧
        ∃ tx' s, txFromWire blake2s m.bytes {} = (.ok tx', s) ∧ SameOnWire tx m tx') ∧
    (∀ errCheck binsize msg tx, 1 < errCheck → Accepted blake2s msg tx → tagAt msg = chooseWireTag 0 tx →
      msg.length ≤ binsize →
        ∃ m, txpayToWire blake2b errCheck 0 binsize tx = .ok m ∧ m.bytes = zeroPow msg ∧
          m.objid = messageObjId blake2b msg) ∧
    (∀ tag pow pow' body, hasPOW tag = true → pow.length = powSize → pow'.length = powSize →
      8 + powSize + body.length < 2^32 →
        messageObjId blake2b (leBytes 4 (8 + powSize + body.length) ++ (leBytes 4 tag ++ (pow ++ body))) =
            messageObjId blake2b (leBytes 4 (8 + powSize + body.length) ++ (leBytes 4 tag ++ (pow' ++ body))) ∧
          messageObjId blake2b (leBytes 4 (8 + powSize + body.length) ++ (leBytes 4 tag ++ (pow ++ body))) =
            messageObjId blake2b (leBytes 4 (8 + body.length) ++ (leBytes 4 (blockTag tag) ++ body))) := by
  refine ⟨?_, ?_, ?_⟩
  · intro errCheck defaultDomain binsize tx m herr hbin hfits hm
    obtain ⟨body, hwritten⟩ := txpayToWire_eq_ok.1 hm
    exact ⟨hwritten.objid, txFromWire_back blake2s herr hbin hfits hm⟩
  · intro errCheck binsize msg tx herr haccepted htag hbin
    exact txpayToWire_back blake2s haccepted htag herr hbin
  · intro tag pow pow' body hpow hlen hlen' hsize
    have htag : tag < 256^4 := by
      have hrange := (Bool.and_eq_true_iff.1 (Bool.and_eq_true_iff.1 hpow).1).2
      have hle : tag ≤ tagSimpleTrade := by simpa using hrange
      unfold tagSimpleTrade at hle
      omega
    rw [messageObjId_pow blake2b hpow htag hlen hsize, messageObjId_pow blake2b hpow htag hlen' hsize,
      messageObjId_block blake2b hpow htag (by omega)]
    exact ⟨rfl, rfl⟩

/-- A transfer inside domain 1. -/
def domainTx : TxPay where
  tagType := .txpay
  zkproof := List.replicate 288 0
  paramLevel := 7
  nout := 1
  nin := 1
  ninWithPath := 1
  outputs := [{ address := 3, domain := 1, assetMask := assetWireMask, amountMask := amountMask, amountEnc := 9 }]
  inputs := [{ enforceTrustSecrets := true, domain := 1, serialnum := 5, pathnum := 1 }]
  appendData := List.replicate maxAppend 0

lemma exists_ok {ε α : Type} {x : Except ε α} {p : α → Bool} (h : x.toOption.any p = true) :
    ∃ a, x = .ok a ∧ p a = true := by
  cases x with
  | error e => cases h
  | ok a => exact ⟨a, rfl, h⟩

lemma domainTx_fits : TxFits domainTx where
  body := fun _ =>
    { paramLevel := by decide, zkproofLength := by decide +kernel, zkproofHigh := by decide +kernel
      zkkeyid := by decide, donationFp := by decide, nout := by decide, nin := by decide
      outputs := fun txout hmem => by
        obtain rfl : txout = _ := List.mem_singleton.1 hmem
        exact ⟨by decide, by decide, by decide⟩
      inputs := fun txin hmem => by
        obtain rfl : txin = _ := List.mem_singleton.1 hmem
        exact ⟨by decide, by decide⟩
      paths := by decide }
  appendData := ⟨Nat.zero_le _, by decide⟩
  appendType := by decide

/-- A payment message without data. -/
def paymentTx : TxPay := { wireTag := tagPayment, tagType := .xcx .payment, txType := .xcx .payment }

lemma paymentTx_accepted : Accepted (fun _ => 0) barePayment paymentTx where
  length := by decide
  runs := ⟨(txFromWire (fun _ => 0) barePayment {}).2, Prod.ext (by decide +kernel) rfl⟩
  size := by decide +kernel
  append := by decide

theorem txWire_roundTrip_domainTx :
    (∃ m tx' s, txpayToWire (fun _ _ => 0) 2 1 2000 domainTx = .ok m ∧
      txFromWire (fun _ => 0) m.bytes {} = (.ok tx', s) ∧ SameOnWire domainTx m tx') ∧
    (∃ m, txpayToWire (fun _ _ => 0) 2 0 56 paymentTx = .ok m ∧ m.bytes = zeroPow barePayment) ∧
    messageObjId (fun tag body => tag + leNat body)
        (leBytes 4 57 ++ (leBytes 4 tagTx ++ (List.replicate 48 1 ++ [2]))) =
      messageObjId (fun tag body => tag + leNat body) (leBytes 4 9 ++ (leBytes 4 (blockTag tagTx) ++ [2])) := by
  obtain ⟨m, hm, -⟩ : ∃ m, txpayToWire (fun _ _ => 0) 2 1 2000 domainTx = .ok m ∧ m.bytes.length ≤ 2000 :=
    (exists_ok (p := fun m => m.bytes.length ≤ 2000) (by decide +kernel)).imp fun m h => h.imp_right of_decide_eq_true
  obtain ⟨-, tx', s, hrun, hsame⟩ := (txWire_roundTrip (fun _ => 0) fun _ _ => 0).1 2 1 2000 domainTx m (by decide)
    (by decide) domainTx_fits hm
  obtain ⟨m', hm', hbytes, -⟩ := (txWire_roundTrip (fun _ => 0) fun _ _ => 0).2.1 2 56 barePayment paymentTx (by decide)
    paymentTx_accepted (by decide +kernel) (by decide)
  exact ⟨⟨m, tx', s, hm, hrun, hsame⟩, ⟨m', hm', hbytes⟩,
    ((txWire_roundTrip (fun _ => 0) fun tag body => tag + leNat body).2.2 tagTx (List.replicate 48 1)
      (List.replicate 48 0) [2] (by decide) (by decide) (by decide) (by decide)).2⟩

/-- When domain 1 is the default, the domains are not on the wire; and append data of a transfer is not accepted. -/
theorem domainTx_back : (∃ m, txpayToWire (fun _ _ => 0) 2 1 2000 domainTx = .ok m ∧
      ((txFromWire (fun _ => 0) m.bytes {}).1.toOption.any fun tx' =>
        tx'.outputs.map (·.domain) ≠ domainTx.outputs.map (·.domain)) = true) ∧
    ∃ m, txpayToWire (fun _ _ => 0) 2 1 2000 { domainTx with appendDataLength := 1 } = .ok m ∧
      ((txFromWire (fun _ => 0) m.bytes {}).1.toOption.isNone) = true :=
  ⟨exists_ok (by decide +kernel), exists_ok (by decide +kernel)⟩

end CredaCash.Wire
