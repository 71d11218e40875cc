import CredaCash.Wire.Request

/-! Which messages make the parsers ask for bytes outside their buffers: the two lengths that are
computed by subtraction decide. -/

namespace CredaCash.Wire
open BoundedReader Reader

/-- A run asked for bytes after the end of its buffer. -/
def Overran (bufsize : ℕ) (s : Cursor) : Prop := ∃ r ∈ s.requests, r.Overruns bufsize

/-- A run only made safe requests, and was rejected if one of them lay outside the buffer. -/
def RunBounded {α : Type} (p : Parser α) (buf : List UInt8) : Prop :=
  (∀ r ∈ (p buf {}).2.requests, r.Safe buf.length) ∧
    (Overran buf.length (p buf {}).2 → ∃ e, (p buf {}).1 = .error e)

/-- Parsing the message, and then the append data that was extracted from it, stays inside the
buffers. -/
def ParseBounded (blake2s : List UInt8 → ℕ) (codec : Codec) (buf : List UInt8) : Prop :=
  RunBounded (txFromWire blake2s) buf ∧
    ∀ tx, (txFromWire blake2s buf {}).1 = .ok tx → tx.appendDataLength ≤ maxAppend ∧
      ∀ type, tx.tagType = .xcx type →
        RunBounded (xtxFromWire codec type) (tx.appendData.take tx.appendDataLength)

/-- The size and the tag in the header of a message. -/
def wiresizeAt (buf : List UInt8) : ℕ := leNat (fieldAt buf 0 4 4)
def tagAt (buf : List UInt8) : ℕ := leNat (fieldAt buf 4 4 4)

/-- The size of a transaction body whose packed byte of counts is `nadj`; none if it is rejected. -/
def bodySize (type : ObjType) (xdomain : Bool) (nadj : ℕ) : Option ℕ :=
  let domain := if xdomain then 3 else 0
  if hasCounts type then
    if maxOut < nadj / 16 + 1 ∨ maxIn < nadj % 16 + 1 then none
    else some (296 + (nadj / 16 + 1) * (16 + domain + 41) + (nadj % 16 + 1) * (domain + 48))
  else if type = .mint then some (294 + (16 + domain + 37)) else none

/-- Where the append data of a message starts; none if its header or its body is rejected. -/
def appendStart (buf : List UInt8) : Option ℕ :=
  let tag := tagAt buf
  let type := objType tag
  let start := 8 + if hasPOW tag then powSize else 0
  if buf.length < wiresizeAt buf ∨ type = .void ∨ type = .block then none
  else if type.hasBareMsg then some start
  else (bodySize type (wireTag tag = tagTxXdomain) (leNat (fieldAt buf (start + 295) 1 1))).map (start + ·)

/-- The end of `foreign_txid` in the data of a payment claim. -/
def txidEnd (data : List UInt8) : ℕ := 14 + leNat (fieldAt data 12 8 1)

/-- The data of a payment claim whose `foreign_txid` decodes has room for `foreign_txid`, and what is
left fits `strbuf`. -/
def PaymentFits (codec : Codec) (data : List UInt8) : Prop :=
  (alphaDecodeBest codec "failure decoding foreign_txid"
      ((fieldAt data 13 strbufSize (txidEnd data - 13)).take (txidEnd data - 13))).isOk →
    txidEnd data ≤ data.length ∧ data.length ≤ txidEnd data + strbufSize

/-- The message carries its whole body and at most `TX_MAX_APPEND` bytes after it, and those of a
payment claim fit. -/
def MessageFits (codec : Codec) (buf : List UInt8) : Prop :=
  ∀ start, appendStart buf = some start → ∀ type, objType (tagAt buf) = .xcx type →
    start ≤ wiresizeAt buf ∧ wiresizeAt buf ≤ start + maxAppend ∧
      (type = .payment → PaymentFits codec ((buf.drop start).take (wiresizeAt buf - start)))

lemma takes_readNat {datasize nbytes : ℕ} (h : nbytes ≤ datasize) :
    Takes (2^32) (readNat datasize nbytes) nbytes :=
  takes_bind (takes_copy h) fun bytes => takes_pure (leNat bytes)

lemma readNat_eq {buf : List UInt8} {s : Cursor} (hs : s.Exact buf) {datasize nbytes : ℕ}
    (hfit : nbytes ≤ datasize) (hlt : s.pos + nbytes < 2^32) :
    ∃ s', readNat datasize nbytes buf s = (.ok (leNat (fieldAt buf s.pos datasize nbytes)), s') ∧
      s'.Exact buf ∧ s'.pos = s.pos + nbytes := by
  obtain ⟨s', hrun, hpos, hcounter, hreq⟩ : ∃ s', copyFromBuf datasize nbytes buf s = _ ∧ _ :=
    copy_eq hs hlt
  exact ⟨s', by rw [readNat, bind_ok hrun]; rfl, hs.copy hfit hpos hcounter hreq, hpos⟩

section Body
variable (tx : TxPay)

/-- The bytes of a domain, which only one kind of transaction has on the wire. -/
def domainSize : ℕ := if tx.wireTag = tagTxXdomain then 3 else 0

/-- The bytes of an output without those of its domain. -/
def outputSize : ℕ := if tx.tagType ≠ .mint then 57 else 53

lemma takes_domain : Takes (2^32) (readIf (tx.wireTag = tagTxXdomain) (readNat 4 3) 0) (domainSize tx) :=
  takes_readIf (takes_readNat (by decide)) 0

lemma takes_output : Takes (2^32) (txpayOutputFromWire tx) (domainSize tx + outputSize tx) := by
  have hasset : Takes (2^32) (readIf (tx.tagType ≠ .mint) (readNat 8 4) 0) (if tx.tagType ≠ .mint then 4 else 0) :=
    takes_readIf (takes_readNat (by decide)) 0
  have haddress : Takes (2^32) (readNat 32 16) 16 := takes_readNat (by decide)
  have hamount : Takes (2^32) (readNat 8 5) 5 := takes_readNat (by decide)
  have hcommitment : Takes (2^32) (readNat 32 32) 32 := takes_readNat (by decide)
  refine (takes_bind haddress fun _ => takes_bind (takes_domain tx) fun _ => takes_bind hasset fun _ =>
    takes_bind hamount fun _ => takes_bind hcommitment fun _ => takes_pure _).cast ?_
  unfold outputSize
  split_ifs <;> omega

/-- Inputs with a path carry no commitment of their own. -/
lemma takes_input {i : ℕ} (hi : i < tx.ninWithPath) :
    Takes (2^32) (txpayInputFromWire tx i) (domainSize tx + 48) := by
  have hserialnum : Takes (2^32) (readNat 32 32) 32 := takes_readNat (by decide)
  have hhashkey : Takes (2^32) (readNat 32 16) 16 := takes_readNat (by decide)
  unfold txpayInputFromWire
  simp only [if_pos hi, Nat.add_one_ne_zero, readIf, if_false]
  refine (takes_bind (takes_domain tx) fun _ => takes_bind (takes_pure 0) fun _ =>
    takes_bind (takes_pure 0) fun _ => takes_bind hserialnum fun _ => takes_bind hhashkey fun _ =>
      takes_pure _).cast ?_
  omega

/-- A run that succeeds with a result in `Q` after exactly `n` bytes, from an exact cursor to an exact
cursor. -/
def RunsTo {α : Type} (p : Parser α) (buf : List UInt8) (s : Cursor) (n : ℕ) (Q : α → Prop) : Prop :=
  ∃ a s', p buf s = (.ok a, s') ∧ s'.Exact buf ∧ s'.pos = s.pos + n ∧ Q a

/-- A run that is rejected without an unsafe request. -/
def RunsOut {α : Type} (p : Parser α) (buf : List UInt8) (s : Cursor) : Prop :=
  ∃ e s', p buf s = (.error e, s') ∧ s'.Exact buf

/-- The part of a body before its counts. -/
lemma txpayBody_start {buf : List UInt8} {s : Cursor} (hs : s.Exact buf) (hlt : s.pos + 4096 < 2^32) :
    ∃ tx' s', txpayBodyFromWire tx buf s = (txpayCountsFromWire tx' >>= txpayListsFromWire) buf s' ∧
      s'.Exact buf ∧ s'.pos = s.pos + 294 + (if tx.tagType ≠ .mint then 1 else 0) ∧
      tx'.tagType = tx.tagType ∧ tx'.wireTag = tx.wireTag ∧ tx'.nin = tx.nin ∧
      tx'.ninWithPath = tx.ninWithPath ∧ tx'.appendDataLength = tx.appendDataLength := by
  have hparam : Takes (2^32) (readNat 8 5) 5 := takes_readNat (by decide)
  have hproof : Takes (2^32) (copyFromBuf 288 287) 287 := takes_copy (by decide)
  have hkey : Takes (2^32) (readIf (tx.tagType ≠ .mint) (readNat 2 1) 0) (if tx.tagType ≠ .mint then 1 else 0) :=
    takes_readIf (takes_readNat (by decide)) 0
  have hdonation : Takes (2^32) (readNat 8 2) 2 := takes_readNat (by decide)
  obtain ⟨paramLevel, s1, hrun1, hs1, hpos1⟩ := hparam buf s hs (by omega)
  obtain ⟨zkproof, s2, hrun2, hs2, hpos2⟩ := hproof buf s1 hs1 (by omega)
  obtain ⟨zkkeyid, s3, hrun3, hs3, hpos3⟩ := hkey buf s2 hs2 (by split_ifs <;> omega)
  have hle3 : s3.pos ≤ s2.pos + 1 := by rw [hpos3]; split_ifs <;> omega
  obtain ⟨donationFp, s4, hrun4, hs4, hpos4⟩ := hdonation buf s3 hs3 (by omega)
  refine ⟨{ tx with paramLevel := paramLevel, zkproof := zkproof, zkkeyid := zkkeyid,
                    donationFp := donationFp }, s4, ?_, hs4, ?_, rfl, rfl, rfl, rfl, rfl⟩
  · rw [txpayBodyFromWire, bind_ok hrun1, bind_ok hrun2, bind_ok hrun3, bind_ok hrun4]
  · rw [hpos4, hpos3]
    omega

/-- The end of the lists never fails, since a mint has no inputs on the wire. -/
lemma setMintInputs_run (buf : List UInt8) (s : Cursor) (hmint : tx.tagType = .mint → tx.nin = 0) :
    ∃ tx', (if tx.tagType = .mint then setMintInputs tx else pure tx) buf s = (.ok tx', s) ∧
      tx'.tagType = tx.tagType ∧ tx'.appendDataLength = tx.appendDataLength := by
  by_cases htype : tx.tagType = .mint
  · rw [if_pos htype, setMintInputs, if_neg (not_not.2 htype), if_neg (not_not.2 (hmint htype))]
    exact ⟨_, rfl, rfl, rfl⟩
  · rw [if_neg htype]
    exact ⟨tx, rfl, rfl, rfl⟩

/-- Once the counts are in range, the lists take the bytes that the counts say. -/
lemma txpayLists_runsTo {buf : List UInt8} {s : Cursor} (hs : s.Exact buf) (hlt : s.pos + 4096 < 2^32)
    (hnout : tx.nout ≤ maxOut) (hnin : tx.nin = tx.ninWithPath) (hmax : tx.ninWithPath ≤ maxIn)
    (hmint : tx.tagType = .mint → tx.nin = 0) :
    RunsTo (txpayListsFromWire tx) buf s
      (tx.nout * (domainSize tx + outputSize tx) + tx.nin * (domainSize tx + 48))
      fun tx' => tx'.tagType = tx.tagType ∧ tx'.appendDataLength = tx.appendDataLength := by
  have houtputs : Takes (2^32) (forIndices (fun _ => txpayOutputFromWire tx) 0 tx.nout)
      (tx.nout * (domainSize tx + outputSize tx)) := takes_forIndices fun _ _ _ => takes_output tx
  have hinputs : Takes (2^32) (forIndices (txpayInputFromWire tx) 0 tx.nin)
      (tx.nin * (domainSize tx + 48)) := takes_forIndices fun i _ hi => takes_input tx (by omega)
  have hdomain : domainSize tx ≤ 3 := by unfold domainSize; split_ifs <;> omega
  have houtput : outputSize tx ≤ 57 := by unfold outputSize; split_ifs <;> omega
  have hout : tx.nout * (domainSize tx + outputSize tx) ≤ 10 * 60 :=
    Nat.mul_le_mul hnout (by omega)
  have hin : tx.nin * (domainSize tx + 48) ≤ 8 * 51 := Nat.mul_le_mul (hnin ▸ hmax) (by omega)
  obtain ⟨outputs, s1, hrun1, hs1, hpos1⟩ := houtputs buf s hs (by omega)
  obtain ⟨inputs, s2, hrun2, hs2, hpos2⟩ := hinputs buf s1 hs1 (by omega)
  have hmaxin : tx.nin ≤ maxIn := hnin ▸ hmax
  have hmaxpath : tx.ninWithPath ≤ maxInPath := hmax
  unfold RunsTo txpayListsFromWire
  rw [if_neg hnout.not_gt, if_neg hmaxin.not_gt, if_neg hmaxpath.not_gt, bind_ok hrun1, bind_ok hrun2]
  obtain ⟨tx', hrun', hsame⟩ := setMintInputs_run
    { tx with outputs := outputs, inputs := inputs, allowRestrictedAddresses := decide (tx.nout ≠ 0) }
    buf s2 hmint
  exact ⟨tx', s2, hrun', hs2, by omega, hsame⟩

section Counts
variable {buf : List UInt8} {s : Cursor} (hs : s.Exact buf) (hlt : s.pos + 8192 < 2^32)
  (hcounts : hasCounts tx.tagType = true) {nadj : ℕ} (hnadj : nadj = leNat (fieldAt buf s.pos 1 1))
include hs hlt hcounts hnadj

/-- The packed byte gives both counts. -/
lemma txpayCounts_eq : ∃ s', s'.Exact buf ∧ s'.pos = s.pos + 1 ∧
    (txpayCountsFromWire tx >>= txpayListsFromWire) buf s = txpayListsFromWire
      { tx with nout := nadj / 16 + 1, ninWithPath := nadj % 16 + 1, nin := nadj % 16 + 1 } buf s' := by
  obtain ⟨s', hrun, hs', hpos⟩ := readNat_eq hs (le_refl 1) (by omega)
  refine ⟨s', hs', hpos, bind_ok ?_⟩
  rw [txpayCountsFromWire, if_pos hcounts, bind_ok hrun, ← hnadj]
  rfl

lemma txpayCounts_runsOut (hrange : maxOut < nadj / 16 + 1 ∨ maxIn < nadj % 16 + 1) :
    RunsOut (txpayCountsFromWire tx >>= txpayListsFromWire) buf s := by
  obtain ⟨s', hs', -, hrun⟩ := txpayCounts_eq tx hs hlt hcounts hnadj
  refine ⟨.rc (-1), s', ?_, hs'⟩
  rw [hrun, txpayListsFromWire]
  dsimp only
  rcases hrange with hout | hin
  · rw [if_pos hout]
    rfl
  · rw [if_pos hin]
    split_ifs <;> rfl

lemma txpayCounts_runsTo (hmint : tx.tagType ≠ .mint)
    (hrange : ¬ (maxOut < nadj / 16 + 1 ∨ maxIn < nadj % 16 + 1)) :
    RunsTo (txpayCountsFromWire tx >>= txpayListsFromWire) buf s
      (1 + ((nadj / 16 + 1) * (domainSize tx + 57) + (nadj % 16 + 1) * (domainSize tx + 48)))
      fun tx' => tx'.tagType = tx.tagType ∧ tx'.appendDataLength = tx.appendDataLength := by
  obtain ⟨s', hs', hpos, hrun⟩ := txpayCounts_eq tx hs hlt hcounts hnadj
  rw [not_or, not_lt, not_lt] at hrange
  obtain ⟨a, s'', hrun', hs'', hpos', hsame⟩ := txpayLists_runsTo
    { tx with nout := nadj / 16 + 1, ninWithPath := nadj % 16 + 1, nin := nadj % 16 + 1 }
    hs' (by omega) hrange.1 rfl hrange.2 fun h => absurd h hmint
  have houtput : outputSize { tx with nout := nadj / 16 + 1, ninWithPath := nadj % 16 + 1, nin := nadj % 16 + 1 }
    = 57 := if_pos hmint
  rw [houtput] at hpos'
  exact ⟨a, s'', hrun.trans hrun', hs'', by rw [hpos', hpos, Nat.add_assoc]; rfl, hsame⟩

end Counts

/-- A mint has one output and no inputs on the wire. -/
lemma txpayMint_runsTo {buf : List UInt8} {s : Cursor} (hs : s.Exact buf) (hlt : s.pos + 8192 < 2^32)
    (hmint : tx.tagType = .mint) (hnin : tx.nin = 0) (hpath : tx.ninWithPath = 0) :
    RunsTo (txpayCountsFromWire tx >>= txpayListsFromWire) buf s (domainSize tx + 53)
      fun tx' => tx'.tagType = tx.tagType ∧ tx'.appendDataLength = tx.appendDataLength := by
  have hcounts : txpayCountsFromWire tx buf s = (.ok { tx with nout := 1 }, s) := by
    rw [txpayCountsFromWire, if_neg (by rw [hmint]; decide), if_pos hmint]
    rfl
  obtain ⟨a, s', hrun, hs', hpos, hsame⟩ := txpayLists_runsTo { tx with nout := 1 } hs (by omega)
    (show 1 ≤ maxOut by decide) (hnin.trans hpath.symm) (by rw [hpath]; decide) fun _ => hnin
  have houtput : outputSize { tx with nout := 1 } = 53 := if_neg (not_not.2 hmint)
  rw [houtput] at hpos
  refine ⟨a, s', (bind_ok hcounts).trans hrun, hs', ?_, hsame⟩
  rw [hpos]
  change _ + (1 * (domainSize tx + 53) + tx.nin * _) = _
  rw [hnin]
  omega

/-- A body takes the bytes that its size says, and is rejected if it has none. -/
lemma txpayBody_run {buf : List UInt8} {s : Cursor} (hs : s.Exact buf) (hlt : s.pos + 9000 < 2^32)
    (hnin : tx.nin = 0) (hpath : tx.ninWithPath = 0) :
    match bodySize tx.tagType (tx.wireTag = tagTxXdomain) (leNat (fieldAt buf (s.pos + 295) 1 1)) with
    | none => RunsOut (txpayBodyFromWire tx) buf s
    | some n => RunsTo (txpayBodyFromWire tx) buf s n
        fun tx' => tx'.tagType = tx.tagType ∧ tx'.appendDataLength = tx.appendDataLength := by
  obtain ⟨tx1, s1, hrun1, hs1, hpos1, htype1, htag1, hnin1, hpath1, happend1⟩ :=
    txpayBody_start tx hs (by omega)
  have hdomain : domainSize tx1 = if tx.wireTag = tagTxXdomain then 3 else 0 := by
    rw [domainSize, htag1]
  have hle1 : s1.pos ≤ s.pos + 295 := by rw [hpos1]; split_ifs <;> omega
  have hof {n m : ℕ} (h : RunsTo (txpayCountsFromWire tx1 >>= txpayListsFromWire) buf s1 n
      fun tx' => tx'.tagType = tx1.tagType ∧ tx'.appendDataLength = tx1.appendDataLength)
      (hnm : s1.pos + n = s.pos + m) : RunsTo (txpayBodyFromWire tx) buf s m
        fun tx' => tx'.tagType = tx.tagType ∧ tx'.appendDataLength = tx.appendDataLength := by
    obtain ⟨a, s', hrun', hs', hpos', hsame⟩ := h
    rw [htype1, happend1] at hsame
    exact ⟨a, s', hrun1.trans hrun', hs', hpos'.trans hnm, hsame⟩
  unfold bodySize
  simp only [decide_eq_true_eq]
  rw [← hdomain]
  by_cases hcounts : hasCounts tx.tagType = true
  · have hmint : tx.tagType ≠ .mint := by rintro h; rw [h] at hcounts; cases hcounts
    rw [if_pos hmint] at hpos1
    rw [if_pos hcounts, show s.pos + 295 = s1.pos by omega]
    split_ifs with hrange
    · obtain ⟨e, s', hrun', hs'⟩ := txpayCounts_runsOut tx1 hs1 (by omega) (htype1 ▸ hcounts) rfl hrange
      exact ⟨e, s', hrun1.trans hrun', hs'⟩
    · refine hof (txpayCounts_runsTo tx1 hs1 (by omega) (htype1 ▸ hcounts) rfl (htype1 ▸ hmint) hrange) ?_
      rw [show 16 + domainSize tx1 + 41 = domainSize tx1 + 57 by omega]
      omega
  · rw [if_neg hcounts]
    split_ifs with hmint
    · rw [if_neg (not_not.2 hmint)] at hpos1
      refine hof (txpayMint_runsTo tx1 hs1 (by omega) (htype1 ▸ hmint) (hnin1 ▸ hnin) (hpath1 ▸ hpath)) ?_
      omega
    · refine ⟨.rc (-1), s1, hrun1.trans (bind_error ?_), hs1⟩
      rw [txpayCountsFromWire, if_neg (htype1 ▸ hcounts), if_neg (htype1 ▸ hmint)]
      rfl

end Body

/-- The position of a body after the header and the proof of work. -/
def bodyStart (buf : List UInt8) : ℕ := 8 + if hasPOW (tagAt buf) then powSize else 0

/-- The transaction that the header starts. -/
def headerTx (buf : List UInt8) : TxPay :=
  { wireTag := wireTag (tagAt buf), tagType := objType (tagAt buf), txType := objType (tagAt buf) }

lemma bodyStart_le (buf : List UInt8) : bodyStart buf ≤ 56 := by
  unfold bodyStart
  split_ifs <;> decide

lemma bodySize_le {type : ObjType} {xdomain : Bool} {nadj n : ℕ}
    (h : bodySize type xdomain nadj = some n) : n ≤ 1400 := by
  unfold bodySize at h
  have hdomain : (if xdomain then 3 else 0) ≤ 3 := by split_ifs <;> omega
  revert h
  generalize (if xdomain then 3 else 0) = domain at hdomain ⊢
  intro h
  simp only at h
  split_ifs at h with hcounts hrange hmint
  · rw [not_or, not_lt, not_lt] at hrange
    have hout : (nadj / 16 + 1) * (16 + domain + 41) ≤ 10 * 60 := Nat.mul_le_mul hrange.1 (by omega)
    have hin : (nadj % 16 + 1) * (domain + 48) ≤ 8 * 51 := Nat.mul_le_mul hrange.2 (by omega)
    cases h
    omega
  · cases h
    omega

/-- The header is rejected for its size word or its type, and else ends where a body starts. -/
lemma txHeader_run (buf : List UInt8) :
    if buf.length < wiresizeAt buf ∨ objType (tagAt buf) = .void ∨ objType (tagAt buf) = .block
    then RunsOut txHeaderFromWire buf {}
    else RunsTo txHeaderFromWire buf {} (bodyStart buf) fun a => a = (wiresizeAt buf, headerTx buf) := by
  obtain ⟨s1, hrun1, hs1, hpos1⟩ := readNat_eq (exact_start buf) (le_refl 4) (by decide)
  have hrun1 : readNat 4 4 buf {} = (.ok (wiresizeAt buf), s1) := hrun1
  have hpos1 : s1.pos = 4 := hpos1
  obtain ⟨s2, hrun2, hs2, hpos2⟩ := readNat_eq hs1 (le_refl 4) (by rw [hpos1]; decide)
  rw [hpos1] at hrun2 hpos2
  have hrun2 : readNat 4 4 buf s1 = (.ok (tagAt buf), s2) := hrun2
  have hsize : bufsize buf s1 = ((.ok buf.length : Except Failure ℕ), s1) := rfl
  have hcounter : counter buf s2 = ((.ok s2.bufpos : Except Failure ℕ), s2) := rfl
  have hassert : ccassert (s2.bufpos = 8) "bufpos == sizeof(CCObject::Header)" buf s2 = (.ok (), s2) := by
    rw [ccassert, if_pos (hs2.counter.trans hpos2)]
    rfl
  have hskip : Takes (2^32) (skip (2^32) (if hasPOW (tagAt buf) then powSize else 0) : Parser Unit) _ :=
    takes_skip _
  obtain ⟨u, s3, hrun3, hs3, hpos3⟩ := hskip buf s2 hs2 (by rw [hpos2]; split_ifs <;> decide)
  unfold RunsOut RunsTo txHeaderFromWire
  rw [bind_ok hrun1, bind_ok hsize]
  by_cases hshort : buf.length < wiresizeAt buf
  · rw [if_pos (Or.inl hshort), if_pos hshort]
    exact ⟨_, s1, rfl, hs1⟩
  · rw [if_neg hshort, bind_ok hrun2]
    by_cases htype : objType (tagAt buf) = .void ∨ objType (tagAt buf) = .block
    · rw [if_pos (Or.inr htype), if_pos htype]
      exact ⟨_, s2, rfl, hs2⟩
    · rw [if_neg (not_or.2 ⟨hshort, htype⟩), if_neg htype, bind_ok hcounter, bind_ok hassert,
        bind_ok hrun3]
      refine ⟨_, s3, rfl, hs3, ?_, rfl⟩
      rw [hpos3, hpos2]
      unfold bodyStart
      omega

section Message
variable {buf : List UInt8}
  (hheader : ¬ (buf.length < wiresizeAt buf ∨ objType (tagAt buf) = .void ∨ objType (tagAt buf) = .block))
include hheader

lemma appendStart_bare (hbare : (objType (tagAt buf)).hasBareMsg = true) :
    appendStart buf = some (bodyStart buf) := by
  simp only [appendStart, if_neg hheader, hbare, if_true, bodyStart]

lemma appendStart_body (hbare : ¬ (objType (tagAt buf)).hasBareMsg = true) :
    appendStart buf = (bodySize (objType (tagAt buf)) (wireTag (tagAt buf) = tagTxXdomain)
      (leNat (fieldAt buf (bodyStart buf + 295) 1 1))).map (bodyStart buf + ·) := by
  simp only [appendStart, if_neg hheader, hbare, bodyStart]
  rfl

/-- After the header, a message is rejected in its body or comes to its append data. -/
lemma txBody_run {s : Cursor} (hs : s.Exact buf) (hpos : s.pos = bodyStart buf) :
    match appendStart buf with
    | none => RunsOut (readIf (!(headerTx buf).tagType.hasBareMsg) (txpayBodyFromWire (headerTx buf)) (headerTx buf))
        buf s
    | some start => ∃ n, start = bodyStart buf + n ∧ n ≤ 1400 ∧
        RunsTo (readIf (!(headerTx buf).tagType.hasBareMsg) (txpayBodyFromWire (headerTx buf)) (headerTx buf))
          buf s n fun tx => tx.tagType = objType (tagAt buf) ∧ tx.appendDataLength = 0 := by
  have htype : (headerTx buf).tagType = objType (tagAt buf) := rfl
  by_cases hbare : (objType (tagAt buf)).hasBareMsg = true
  · rw [appendStart_bare hheader hbare, readIf, htype, hbare, if_neg (by decide)]
    exact ⟨0, rfl, by omega, headerTx buf, s, rfl, hs, rfl, rfl, rfl⟩
  · have hbody := txpayBody_run (headerTx buf) hs
      (by have := bodyStart_le buf; omega) rfl rfl
    rw [hpos, htype] at hbody
    rw [appendStart_body hheader hbare, readIf, htype, if_pos (by simpa using hbare)]
    change match bodySize (objType (tagAt buf)) (wireTag (tagAt buf) = tagTxXdomain)
      (leNat (fieldAt buf (bodyStart buf + 295) 1 1)) with | none => _ | some n => _ at hbody
    cases hn : bodySize (objType (tagAt buf)) (wireTag (tagAt buf) = tagTxXdomain)
      (leNat (fieldAt buf (bodyStart buf + 295) 1 1)) with
    | none =>
      rw [hn] at hbody
      exact hbody
    | some n =>
      rw [hn] at hbody
      exact ⟨n, rfl, bodySize_le hn, hbody⟩

/-- A message up to its append data. -/
lemma txFromWire_start (blake2s : List UInt8 → ℕ) :
    match appendStart buf with
    | none => RunsOut (txFromWire blake2s) buf {}
    | some start => ∃ tx s, txFromWire blake2s buf {} =
          (txAppendFromWire blake2s (wiresizeAt buf) tx >>= checkEnd) buf s ∧ s.Exact buf ∧ s.pos = start ∧
        start ≤ 2000 ∧ tx.tagType = objType (tagAt buf) ∧ tx.appendDataLength = 0 := by
  have hhead := txHeader_run buf
  rw [if_neg hheader] at hhead
  obtain ⟨a, s1, hrun1, hs1, hpos1, rfl⟩ := hhead
  have hpos1 : s1.pos = bodyStart buf := by rw [hpos1]; exact Nat.zero_add _
  have hbody := txBody_run hheader hs1 hpos1
  cases hstart : appendStart buf with
  | none =>
    rw [hstart] at hbody
    obtain ⟨e, s2, hrun2, hs2⟩ := hbody
    exact ⟨e, s2, (bind_ok hrun1).trans (bind_error hrun2), hs2⟩
  | some start =>
    rw [hstart] at hbody
    obtain ⟨n, hn, hle, tx, s2, hrun2, hs2, hpos2, hsame⟩ := hbody
    have := bodyStart_le buf
    exact ⟨tx, s2, (bind_ok hrun1).trans (bind_ok hrun2), hs2, by omega, by omega, hsame⟩

end Message

/-- A rejected header gives no append data. -/
lemma txFromWire_header (blake2s : List UInt8 → ℕ) {buf : List UInt8}
    (hheader : buf.length < wiresizeAt buf ∨ objType (tagAt buf) = .void ∨ objType (tagAt buf) = .block) :
    RunsOut (txFromWire blake2s) buf {} ∧ appendStart buf = none := by
  have hhead := txHeader_run buf
  rw [if_pos hheader] at hhead
  obtain ⟨e, s, hrun, hs⟩ := hhead
  exact ⟨⟨e, s, bind_error hrun, hs⟩, if_pos hheader⟩

lemma RunsOut.runBounded {α : Type} {p : Parser α} {buf : List UInt8} (h : RunsOut p buf {}) :
    RunBounded p buf := by
  obtain ⟨e, s, hrun, hs⟩ := h
  rw [RunBounded, hrun]
  exact ⟨hs.safe, fun _ => ⟨e, rfl⟩⟩

lemma RunsOut.not_ok {α : Type} {p : Parser α} {buf : List UInt8} {s : Cursor} (h : RunsOut p buf s) (a : α) :
    (p buf s).1 ≠ .ok a := by
  obtain ⟨e, s', hrun, -⟩ := h
  rw [hrun]
  exact fun h => by cases h

lemma checkEnd_ok {α : Type} {a : α} {buf : List UInt8} {s : Cursor} (h : s.bufpos ≤ buf.length) :
    checkEnd a buf s = (.ok a, s) := by
  change (if buf.length < s.bufpos then fail (.rc 1) else pure a : Parser α) buf s = _
  rw [if_neg h.not_gt]
  rfl

/-- The end of a parser at an exact cursor rejects everything that overran. -/
lemma checkEnd_bounded {α : Type} {a : α} {buf : List UInt8} {s : Cursor} (hs : s.Exact buf) :
    (∀ r ∈ (checkEnd a buf s).2.requests, r.Safe buf.length) ∧
      (Overran buf.length (checkEnd a buf s).2 → ∃ e, (checkEnd a buf s).1 = .error e) := by
  by_cases hend : s.bufpos ≤ buf.length
  · rw [checkEnd_ok hend]
    rw [hs.counter] at hend
    exact ⟨hs.safe, fun ⟨r, hr, hover⟩ => absurd hover (hs.not_overruns hend r hr)⟩
  · have hrun : checkEnd a buf s = (.error (.rc 1), s) := by
      change (if buf.length < s.bufpos then fail (.rc 1) else pure a : Parser α) buf s = _
      rw [if_pos (not_le.1 hend)]
      rfl
    rw [hrun]
    exact ⟨hs.safe, fun _ => ⟨.rc 1, rfl⟩⟩

/-- A copy that fits keeps a run inside its buffers. -/
lemma copy_bounded {buf : List UInt8} {s : Cursor} (hs : s.Exact buf) {datasize n : ℕ} (bufpos : ℕ)
    (hfit : n ≤ datasize) (hend : s.pos + n ≤ buf.length) :
    (∀ r ∈ (⟨datasize, n, s.pos, true⟩ :: s.requests : List Request), r.Safe buf.length) ∧
      ¬ Overran buf.length ⟨bufpos, s.pos + n, ⟨datasize, n, s.pos, true⟩ :: s.requests⟩ := by
  refine ⟨?_, ?_⟩
  · intro r hr
    rcases List.mem_cons.1 hr with rfl | hr
    · exact ⟨hfit, fun _ => hend⟩
    · exact hs.safe r hr
  · rintro ⟨r, hr, hover⟩
    rcases List.mem_cons.1 hr with rfl | hr
    · exact absurd hover hend.not_gt
    · exact absurd hover (hs.not_overruns (by omega) r hr)

section Append
variable (blake2s : List UInt8 → ℕ) {tx : TxPay} {buf : List UInt8} {s : Cursor} {wiresize : ℕ}
  (hs : s.Exact buf) (hsize : wiresize ≤ buf.length)
include hs hsize

/-- Nothing is left for append data. -/
lemma txAppend_empty (heq : s.pos = wiresize) :
    (txAppendFromWire blake2s wiresize tx >>= checkEnd) buf s = (.ok tx, s) := by
  have hcounter : counter buf s = ((.ok s.bufpos : Except Failure ℕ), s) := rfl
  have happend : txAppendFromWire blake2s wiresize tx buf s = (.ok tx, s) := by
    rw [txAppendFromWire, bind_ok hcounter, hs.counter, heq]
    simp only [show (wiresize + 2^32 - wiresize) % 2^32 = 0 by omega, if_true]
    rfl
  exact (bind_ok happend).trans (checkEnd_ok (by rw [hs.counter]; omega))

/-- Only exchange transactions have append data. -/
lemma txAppend_reject (hlen : buf.length < 2^32) (hstart : s.pos ≤ 2000) (hne : s.pos ≠ wiresize)
    (htype : tx.tagType.isXtx = false) :
    RunsOut (txAppendFromWire blake2s wiresize tx >>= checkEnd) buf s := by
  have hcounter : counter buf s = ((.ok s.bufpos : Except Failure ℕ), s) := rfl
  refine ⟨.rc (-1), s, bind_error ?_, hs⟩
  rw [txAppendFromWire, bind_ok hcounter, hs.counter]
  simp only [show ¬ (wiresize + 2^32 - s.pos) % 2^32 = 0 by omega, if_false, htype]
  rfl

/-- The copy of the append data, with its size as a difference modulo `2^32`. -/
lemma txAppend_copy (hlen : buf.length < 2^32) (hstart : s.pos ≤ 2000) (hne : s.pos ≠ wiresize)
    (htype : tx.tagType.isXtx = true) {nappend : ℕ}
    (hn : nappend = (wiresize + 2^32 - s.pos) % 2^32) :
    ∃ a, (txAppendFromWire blake2s wiresize tx >>= checkEnd) buf s =
        (.ok a, ⟨wiresize, s.pos + nappend, ⟨maxAppend, nappend, s.pos, true⟩ :: s.requests⟩) ∧
      a.tagType = tx.tagType ∧ a.appendDataLength = nappend ∧
      a.appendData = bytesAt buf s.pos maxAppend nappend := by
  have hcounter : counter buf s = ((.ok s.bufpos : Except Failure ℕ), s) := rfl
  have hend : (s.pos + nappend) % 2^32 = wiresize := by omega
  have hcopy : copyFromBuf maxAppend nappend buf s = (.ok (bytesAt buf s.pos maxAppend nappend),
      ⟨wiresize, s.pos + nappend, ⟨maxAppend, nappend, s.pos, true⟩ :: s.requests⟩) := by
    simp only [copyFromBuf, copy, hs.counter, hend, hsize, decide_true, if_true]
  have happend : txAppendFromWire blake2s wiresize tx buf s = (.ok { tx with
      appendWireOffset := s.pos
      appendDataLength := nappend
      appendData := bytesAt buf s.pos maxAppend nappend
      refhash := blake2s ((bytesAt buf s.pos maxAppend nappend).take nappend) },
      ⟨wiresize, s.pos + nappend, ⟨maxAppend, nappend, s.pos, true⟩ :: s.requests⟩) := by
    have hzero : ¬ nappend = 0 := by omega
    rw [txAppendFromWire, bind_ok hcounter, hs.counter]
    simp only [← hn, if_neg hzero, htype, Bool.not_true, Bool.false_eq_true, if_false]
    exact bind_ok hcopy
  exact ⟨_, (bind_ok happend).trans (checkEnd_ok hsize), rfl, rfl, rfl⟩

end Append

section Xreq
variable (codec : Codec)

lemma reads_readNat {datasize nbytes : ℕ} (h : nbytes ≤ datasize) :
    Reads (2^32) (readNat datasize nbytes) nbytes fun _ => True := (takes_readNat h).reads

/-- One byte is a number below 256. -/
lemma reads_byte {datasize : ℕ} (h : 1 ≤ datasize) : Reads (2^32) (readNat datasize 1) 1 (· < 256) := by
  intro buf s hs hlt
  obtain ⟨s', hrun, hs', hpos⟩ := readNat_eq hs h hlt
  rw [hrun]
  refine ⟨hs', hpos.le, fun a ha => ?_⟩
  cases ha
  exact leNat_fieldAt_one_lt buf s.pos datasize

lemma reads_readIf {α : Type} {c : Prop} [Decidable c] {p : Parser α} {n : ℕ} (default : α)
    (hp : Reads (2^32) p n fun _ => True) : Reads (2^32) (readIf c p default) n fun _ => True :=
  reads_ite hp (reads_mono (takes_pure default).reads (Nat.zero_le n))

/-- The length byte of an item limits it to the size of its buffer. -/
lemma reads_readItem (what : String) {extra : ℕ} (h : extra ≤ 1) :
    Reads (2^32) (readItem codec what extra) 257 fun _ => True := by
  refine (reads_bind (reads_byte (by decide : 1 ≤ 8)) fun encoded hencoded => ?_ : Reads (2^32) _ (1 + 256) _)
  have hcopy : Takes (2^32) (copyFromBuf strbufSize (encoded + extra)) (encoded + extra) :=
    takes_copy (by unfold strbufSize; omega)
  exact reads_mono (reads_bind hcopy.reads fun _ _ => reads_ofExcept _) (by omega)

lemma reads_readUniFloat : Reads (2^32) (readUniFloat 8) 4 fun _ => True :=
  reads_bind (reads_readNat (by decide)) fun encoded _ => (takes_pure (UniFloat.wireDecode encoded)).reads

lemma reads_terms (type : XtxType) : Reads (2^32) (xreqTermsFromWire codec type) 69 fun _ => True := by
  have hbyte {datasize : ℕ} (h : 1 ≤ datasize) : Reads (2^32) (readNat datasize 1) 1 fun _ => True :=
    reads_readNat h
  refine reads_mono (reads_bind (reads_readNat (by decide : 4 ≤ 8)) fun _ _ =>
    reads_bind (reads_readNat (le_refl 32)) fun _ _ =>
    reads_bind (reads_readNat (by decide : 5 ≤ 8)) fun _ _ =>
    reads_bind (reads_readIf _ (reads_readNat (by decide : 5 ≤ 8))) fun _ _ =>
    reads_bind reads_readUniFloat fun _ _ =>
    reads_bind (reads_readIf _ reads_readUniFloat) fun _ _ =>
    reads_bind (reads_readNat (by decide : 2 ≤ 8)) fun _ _ =>
    reads_bind (reads_readIf _ reads_readUniFloat) fun _ _ =>
    reads_ite (reads_mono (takes_pure _).reads (Nat.zero_le 9)) ?_) (le_refl 69)
  exact reads_bind (hbyte (by decide)) fun _ _ =>
    reads_bind (hbyte (by decide)) fun _ _ =>
    reads_bind (hbyte (by decide)) fun _ _ =>
    reads_bind (hbyte (by decide)) fun _ _ =>
    reads_bind (hbyte (by decide)) fun _ _ =>
    reads_bind (hbyte (by decide)) fun _ _ =>
    reads_bind (hbyte (by decide)) fun _ _ =>
    reads_bind (hbyte (by decide)) fun _ _ =>
    reads_bind (hbyte (by decide)) fun _ _ => (takes_pure _).reads

lemma reads_foreignAddress (x : Xreq) :
    Reads (2^32) (foreignAddressFromWire codec x) 257 fun _ => True :=
  reads_bind (reads_readItem codec _ (le_refl 1)) fun _ _ =>
    reads_ite (reads_fail _ 0 _) (takes_pure _).reads

lemma reads_strings (x : Xreq) : Reads (2^32) (xreqStringsFromWire codec x) 554 fun _ => True :=
  reads_bind (reads_readItem codec _ (Nat.zero_le 1)) fun _ _ =>
    reads_bind (reads_readIf _ (reads_foreignAddress codec _)) fun _ _ =>
    reads_bind (reads_readIf 0 (reads_readNat (le_refl 32))) fun _ _ =>
    reads_bind (reads_readIf 0 (reads_readNat (le_refl 8))) fun _ _ => (takes_pure _).reads

/-- The parser of a request never asks for more than its destinations hold. -/
lemma reads_xreqData (type : XtxType) : Reads (2^32) (xreqDataFromWire codec type) 625 fun _ => True :=
  reads_ite (reads_fail _ 625 _) <| reads_bind (reads_terms codec type) fun x _ =>
    reads_bind (reads_readIf _ (reads_readNat (by decide : 1 ≤ 2))) fun _ _ =>
    reads_bind (reads_readNat (by decide : 1 ≤ 8)) fun _ _ => reads_strings codec _

end Xreq

lemma reads_runBounded {α : Type} {p : Parser α} {c : ℕ} {Q : α → Prop} (hp : Reads (2^32) p c Q)
    (hc : c < 2^32) (buf : List UInt8) : RunBounded (p >>= checkEnd) buf := by
  obtain ⟨hs, hle, hpost⟩ := hp buf {} (exact_start buf) (by simpa using hc)
  rcases hrun : p buf {} with ⟨e | a, s⟩
  · rw [hrun] at hs
    exact RunsOut.runBounded ⟨e, s, bind_error hrun, hs⟩
  · rw [hrun] at hs
    rw [RunBounded, bind_ok hrun]
    exact checkEnd_bounded hs

section Xpay
variable (codec : Codec) {data : List UInt8}

/-- An item takes its length byte and as many bytes as that says. -/
lemma readItem_eq {s : Cursor} (hs : s.Exact data) (what : String) {extra n : ℕ} (hextra : extra ≤ 1)
    (hn : n = leNat (fieldAt data s.pos 8 1) + extra) (hlt : s.pos + 257 < 2^32) :
    ∃ s', readItem codec what extra data s =
        (alphaDecodeBest codec what ((fieldAt data (s.pos + 1) strbufSize n).take n), s') ∧
      s'.Exact data ∧ s'.pos = s.pos + 1 + n := by
  have hbyte := leNat_fieldAt_one_lt data s.pos 8
  obtain ⟨s1, hrun1, hs1, hpos1⟩ := readNat_eq hs (by decide : 1 ≤ 8) (by omega)
  obtain ⟨s2, hrun2, hpos2, hcounter, hreq⟩ : ∃ s2, copyFromBuf strbufSize n data s1 = _ ∧ _ :=
    copy_eq hs1 (show s1.pos + n < 2^32 by omega)
  rw [hpos1] at hrun2 hpos2
  refine ⟨s2, ?_, hs1.copy (by unfold strbufSize; omega) (by rw [hpos2, hpos1]) hcounter hreq, hpos2⟩
  rw [readItem, bind_ok hrun1, ← hn, bind_ok hrun2]
  rfl

/-- A payment claim up to its second string. -/
lemma xpay_start : ∃ s, s.Exact data ∧ s.pos = txidEnd data ∧
    match alphaDecodeBest codec "failure decoding foreign_txid"
      ((fieldAt data 13 strbufSize (txidEnd data - 13)).take (txidEnd data - 13)) with
    | .error _ => RunsOut (xtxFromWire codec .payment) data {}
    | .ok _ => ∃ xpay, xtxFromWire codec .payment data {} =
        ((foreignBlockIdFromWire codec xpay >>= fun x => pure (Xtx.xpay x)) >>= checkEnd) data s := by
  obtain ⟨s1, hrun1, hs1, hpos1⟩ := readNat_eq (exact_start data) (le_refl 8) (by decide)
  have hpos1 : s1.pos = 8 := hpos1
  obtain ⟨s2, hrun2, hs2, hpos2⟩ := readNat_eq hs1 (by decide : 4 ≤ 8) (by rw [hpos1]; decide)
  rw [hpos1] at hpos2
  have hn : txidEnd data - 13 = leNat (fieldAt data s2.pos 8 1) + 1 := by
    rw [hpos2, txidEnd]
    change 14 + leNat (fieldAt data 12 8 1) - 13 = leNat (fieldAt data 12 8 1) + 1
    omega
  obtain ⟨s3, hrun3, hs3, hpos3⟩ := readItem_eq codec hs2 "failure decoding foreign_txid" (le_refl 1) hn
    (by rw [hpos2]; decide)
  rw [hpos2] at hrun3 hpos3
  have hdata : xtxFromWire codec .payment =
      (xpayDataFromWire codec >>= fun x => pure (Xtx.xpay x)) >>= checkEnd := rfl
  refine ⟨s3, hs3, by unfold txidEnd at hpos3 ⊢; omega, ?_⟩
  rw [hdata]
  cases hdecode : alphaDecodeBest codec "failure decoding foreign_txid"
      ((fieldAt data 13 strbufSize (txidEnd data - 13)).take (txidEnd data - 13)) with
  | error e =>
    rw [hdecode] at hrun3
    refine ⟨e, s3, bind_error (bind_error ?_), hs3⟩
    rw [xpayDataFromWire, bind_ok hrun1, bind_ok hrun2, bind_error hrun3]
  | ok txid =>
    rw [hdecode] at hrun3
    have hxpay : ∃ xpay, xpayDataFromWire codec data {} = foreignBlockIdFromWire codec xpay data s3 :=
      ⟨_, (bind_ok hrun1).trans ((bind_ok hrun2).trans (bind_ok hrun3))⟩
    exact hxpay.imp fun xpay h => bind_congr (bind_congr h)

/-- The copy of the second string, with its size as a difference modulo `2^32`. -/
lemma xpay_rest {s : Cursor} (hs : s.Exact data) (hpos : s.pos ≤ data.length + 2^32)
    (hlen : data.length < 2^32) (xpay : Xpay) {n : ℕ} (hn : n = (data.length + 2^32 - s.pos) % 2^32) :
    ∃ r, ((foreignBlockIdFromWire codec xpay >>= fun x => pure (Xtx.xpay x)) >>= checkEnd) data s =
      (r, ⟨data.length, s.pos + n, ⟨strbufSize, n, s.pos, true⟩ :: s.requests⟩) := by
  have hsize : bufsize data s = ((.ok data.length : Except Failure ℕ), s) := rfl
  have hcounter : counter data s = ((.ok s.bufpos : Except Failure ℕ), s) := rfl
  have hend : (s.pos + n) % 2^32 = data.length := by omega
  have hcopy : copyFromBuf strbufSize n data s = (.ok (bytesAt data s.pos strbufSize n),
      ⟨data.length, s.pos + n, ⟨strbufSize, n, s.pos, true⟩ :: s.requests⟩) := by
    simp only [copyFromBuf, copy, hs.counter, hend, le_refl, decide_true, if_true]
  generalize hs' : (⟨data.length, s.pos + n, ⟨strbufSize, n, s.pos, true⟩ :: s.requests⟩ : Cursor) = s'
    at hcopy ⊢
  have hcounter' : counter data s' = ((.ok data.length : Except Failure ℕ), s') := by rw [← hs']; rfl
  have hend' : s'.bufpos ≤ data.length := by rw [← hs']
  have hid : ∃ r, foreignBlockIdFromWire codec xpay data s = (r, s') := by
    rw [foreignBlockIdFromWire, bind_ok hsize, bind_ok hcounter, hs.counter]
    simp only [← hn]
    rw [bind_ok hcopy, bind_ok hcounter', if_neg (lt_irrefl _)]
    cases alphaDecodeBest codec "failure decoding foreign_block_id"
        ((bytesAt data s.pos strbufSize n).take n) with
    | error e => exact ⟨.error e, bind_error rfl⟩
    | ok id => exact ⟨_, bind_ok rfl⟩
  obtain ⟨r, hrun⟩ := hid
  cases r with
  | error e => exact ⟨.error e, bind_error (bind_error hrun)⟩
  | ok x => exact ⟨_, (bind_ok ((bind_ok hrun).trans rfl)).trans (checkEnd_ok hend')⟩

/-- A payment claim whose parser only makes safe requests fits. -/
lemma paymentFits_of_safe (hlen : data.length < 2^32)
    (hsafe : ∀ r ∈ (xtxFromWire codec .payment data {}).2.requests, r.Safe data.length) : PaymentFits codec data := by
  obtain ⟨s, hs, hpos, hrun⟩ := @xpay_start codec data
  have hle : txidEnd data ≤ 270 := by
    have := leNat_fieldAt_one_lt data 12 8
    unfold txidEnd
    omega
  intro hdecode
  cases htxid : alphaDecodeBest codec "failure decoding foreign_txid"
      ((fieldAt data 13 strbufSize (txidEnd data - 13)).take (txidEnd data - 13)) with
  | error e =>
    rw [htxid] at hdecode
    cases hdecode
  | ok txid =>
    rw [htxid] at hrun
    obtain ⟨xpay, hrun⟩ := hrun
    obtain ⟨r, hrest⟩ := xpay_rest codec hs (by omega) hlen xpay rfl
    rw [hrun, hrest] at hsafe
    obtain ⟨hfit, hinside⟩ := hsafe _ (List.mem_cons_self ..)
    have hinside := hinside rfl
    simp only [hpos, strbufSize] at hfit hinside ⊢
    omega

/-- The parser of a payment claim that fits stays inside its buffers. -/
lemma xpay_runBounded (hlen : data.length < 2^32) (hfits : PaymentFits codec data) :
    RunBounded (xtxFromWire codec .payment) data := by
  obtain ⟨s, hs, hpos, hrun⟩ := @xpay_start codec data
  have hle : txidEnd data ≤ 270 := by
    have := leNat_fieldAt_one_lt data 12 8
    unfold txidEnd
    omega
  unfold PaymentFits at hfits
  cases hdecode : alphaDecodeBest codec "failure decoding foreign_txid"
      ((fieldAt data 13 strbufSize (txidEnd data - 13)).take (txidEnd data - 13)) with
  | error e =>
    rw [hdecode] at hrun
    exact hrun.runBounded
  | ok txid =>
    rw [hdecode] at hrun hfits
    obtain ⟨xpay, hrun⟩ := hrun
    obtain ⟨r, hrest⟩ := xpay_rest codec hs (by omega) hlen xpay rfl
    obtain ⟨hroom, hfit⟩ := hfits rfl
    have hn : (data.length + 2^32 - s.pos) % 2^32 = data.length - s.pos := by omega
    have hbounded := copy_bounded hs data.length (show data.length - s.pos ≤ strbufSize by omega) (by omega)
    rw [RunBounded, hrun, hrest, hn]
    exact ⟨hbounded.1, fun hover => absurd hover hbounded.2⟩

end Xpay

/-- Every other parser of append data stays inside its buffers. -/
lemma xtx_runBounded (codec : Codec) (type : XtxType) {data : List UInt8} (hlen : data.length < 2^32)
    (hfits : type = .payment → PaymentFits codec data) : RunBounded (xtxFromWire codec type) data := by
  by_cases htype : type = .payment
  · subst htype
    exact xpay_runBounded codec hlen (hfits rfl)
  · have hdata : Reads (2^32) (xtxDataFromWire codec type) 625 fun _ => True := by
      refine reads_ite (reads_bind (reads_xreqData codec type) fun x _ => (takes_pure _).reads) ?_
      rw [if_neg htype]
      exact reads_fail _ 625 _
    exact reads_runBounded hdata (by decide) data

section Parse
variable (blake2s : List UInt8 → ℕ) (codec : Codec) {buf : List UInt8}

lemma parseBounded_out (h : RunsOut (txFromWire blake2s) buf {}) : ParseBounded blake2s codec buf :=
  ⟨h.runBounded, fun tx htx => absurd htx (h.not_ok tx)⟩

lemma parseBounded_ok {tx : TxPay} {s : Cursor} (h : txFromWire blake2s buf {} = (.ok tx, s)) :
    ParseBounded blake2s codec buf ↔ ((∀ r ∈ s.requests, r.Safe buf.length) ∧ ¬ Overran buf.length s) ∧
      tx.appendDataLength ≤ maxAppend ∧ ∀ type, tx.tagType = .xcx type →
        RunBounded (xtxFromWire codec type) (tx.appendData.take tx.appendDataLength) := by
  simp [ParseBounded, RunBounded, h]

/-- A message fits if its parser and that of its append data only make safe requests. -/
lemma messageFits_of_safe (hlen : buf.length < 2^32)
    (hsafe : ∀ r ∈ (txFromWire blake2s buf {}).2.requests, r.Safe buf.length)
    (hxtx : ∀ tx, (txFromWire blake2s buf {}).1 = .ok tx → ∀ type, tx.tagType = .xcx type →
      ∀ r ∈ (xtxFromWire codec type (tx.appendData.take tx.appendDataLength) {}).2.requests,
        r.Safe (tx.appendData.take tx.appendDataLength).length) : MessageFits codec buf := by
  intro start hstart type htype
  have hheader : ¬ (buf.length < wiresizeAt buf ∨ objType (tagAt buf) = .void ∨ objType (tagAt buf) = .block) := by
    intro hheader
    rw [(txFromWire_header blake2s hheader).2] at hstart
    cases hstart
  have hrun := txFromWire_start hheader blake2s
  rw [hstart] at hrun
  obtain ⟨tx, s, hrun, hs, rfl, hle, htag, hzero⟩ := hrun
  have hsize : wiresizeAt buf ≤ buf.length := not_lt.1 (not_or.1 hheader).1
  have htagType : tx.tagType = .xcx type := htag.trans htype
  by_cases hw : s.pos = wiresizeAt buf
  · have hok := hrun.trans (txAppend_empty blake2s hs hsize hw)
    refine ⟨hw.le, by omega, fun hpayment => ?_⟩
    have hsafe := hxtx tx (by rw [hok]) type htagType
    rw [hzero, List.take_zero, hpayment] at hsafe
    rw [hw, Nat.sub_self, List.take_zero]
    exact paymentFits_of_safe codec (by decide) hsafe
  · obtain ⟨a, hcopy, htype', hlen', hdata'⟩ := txAppend_copy blake2s hs hsize hlen hle hw (by rw [htagType]; rfl) rfl
    have hok := hrun.trans hcopy
    rw [hok] at hsafe
    have hfit := (hsafe _ (List.mem_cons_self ..)).1
    simp only [maxAppend] at hfit
    have hroom : s.pos ≤ wiresizeAt buf := by omega
    have hn : (wiresizeAt buf + 2^32 - s.pos) % 2^32 = wiresizeAt buf - s.pos := by omega
    refine ⟨hroom, by simp only [maxAppend]; omega, fun hpayment => ?_⟩
    have hsafe := hxtx a (by rw [hok]) type (htype'.trans htagType)
    rw [hlen', hdata', hn, bytesAt_take (by omega), hpayment] at hsafe
    refine paymentFits_of_safe codec ?_ hsafe
    rw [List.length_take]
    omega

/-- A message that fits is parsed inside the buffers. -/
lemma parseBounded_of_fits (hlen : buf.length < 2^32) (hfits : MessageFits codec buf) :
    ParseBounded blake2s codec buf := by
  by_cases hheader : buf.length < wiresizeAt buf ∨ objType (tagAt buf) = .void ∨ objType (tagAt buf) = .block
  · exact parseBounded_out blake2s codec (txFromWire_header blake2s hheader).1
  have hsize : wiresizeAt buf ≤ buf.length := not_lt.1 (not_or.1 hheader).1
  have hrun := txFromWire_start hheader blake2s
  cases hstart : appendStart buf with
  | none =>
    rw [hstart] at hrun
    exact parseBounded_out blake2s codec hrun
  | some start =>
    rw [hstart] at hrun
    obtain ⟨tx, s, hrun, hs, rfl, hle, htype, hzero⟩ := hrun
    have hfits := hfits s.pos hstart
    by_cases hw : s.pos = wiresizeAt buf
    · rw [parseBounded_ok blake2s codec (hrun.trans (txAppend_empty blake2s hs hsize hw)), hzero, List.take_zero]
      have hnot : ¬ Overran buf.length s := fun ⟨r, hr, hover⟩ => hs.not_overruns (by omega) r hr hover
      refine ⟨⟨hs.safe, hnot⟩, Nat.zero_le _, fun type hxcx => xtx_runBounded codec type (by decide) fun hpayment => ?_⟩
      have hpaymentFits := (hfits type (htype.symm.trans hxcx)).2.2 hpayment
      rwa [hw, Nat.sub_self, List.take_zero] at hpaymentFits
    · cases hxtx : tx.tagType.isXtx with
      | false =>
        have hout := txAppend_reject blake2s hs hsize hlen hle hw hxtx
        exact parseBounded_out blake2s codec (by rwa [RunsOut, hrun])
      | true =>
        obtain ⟨type, hxcx⟩ : ∃ type, tx.tagType = .xcx type := by
          cases h : tx.tagType with
          | xcx type => exact ⟨type, rfl⟩
          | _ => rw [h] at hxtx; cases hxtx
        obtain ⟨a, hrun', htype', hlen', hdata'⟩ := txAppend_copy blake2s hs hsize hlen hle hw hxtx rfl
        obtain ⟨hroom, hfit, hpayment⟩ := hfits type (htype.symm.trans hxcx)
        have hn : (wiresizeAt buf + 2^32 - s.pos) % 2^32 = wiresizeAt buf - s.pos := by omega
        have hfit : wiresizeAt buf - s.pos ≤ maxAppend := by omega
        rw [parseBounded_ok blake2s codec (hrun.trans hrun'), htype', hlen', hdata', hn, bytesAt_take (by omega)]
        refine ⟨copy_bounded hs _ hfit (by omega), hfit, fun type' hxcx' => ?_⟩
        cases hxcx.symm.trans hxcx'
        refine xtx_runBounded codec type ?_ hpayment
        rw [List.length_take]
        omega

lemma bodyStart_le_appendStart {start : ℕ} (hstart : appendStart buf = some start) : bodyStart buf ≤ start := by
  have hheader : ¬ (buf.length < wiresizeAt buf ∨ objType (tagAt buf) = .void ∨ objType (tagAt buf) = .block) := by
    intro hheader
    rw [appendStart, if_pos hheader] at hstart
    cases hstart
  by_cases hbare : (objType (tagAt buf)).hasBareMsg = true
  · rw [appendStart_bare hheader hbare] at hstart
    exact (Option.some.inj hstart).le
  · rw [appendStart_body hheader hbare] at hstart
    obtain ⟨n, -, rfl⟩ := Option.map_eq_some_iff.1 hstart
    exact Nat.le_add_right _ _

/-- What is known of a message that is accepted. -/
lemma txFromWire_ok (hlen : buf.length < 2^32) {tx : TxPay} (h : (txFromWire blake2s buf {}).1 = .ok tx) :
    tx.tagType = objType (tagAt buf) ∧ objType (tagAt buf) ≠ .void ∧ wiresizeAt buf ≤ buf.length ∧
      ∃ start, appendStart buf = some start ∧ (tx.tagType.isXtx = false → start = wiresizeAt buf) := by
  by_cases hheader : buf.length < wiresizeAt buf ∨ objType (tagAt buf) = .void ∨ objType (tagAt buf) = .block
  · exact absurd h ((txFromWire_header blake2s hheader).1.not_ok tx)
  have hsize : wiresizeAt buf ≤ buf.length := not_lt.1 (not_or.1 hheader).1
  have hrun := txFromWire_start hheader blake2s
  cases hstart : appendStart buf with
  | none =>
    rw [hstart] at hrun
    exact absurd h (hrun.not_ok tx)
  | some start =>
    rw [hstart] at hrun
    obtain ⟨tx', s, hrun, hs, rfl, hle, htype, -⟩ := hrun
    suffices htag : tx.tagType = tx'.tagType ∧ (tx.tagType.isXtx = false → s.pos = wiresizeAt buf) from
      ⟨htag.1.trans htype, fun hvoid => hheader (.inr (.inl hvoid)), hsize, _, rfl, htag.2⟩
    by_cases hw : s.pos = wiresizeAt buf
    · rw [hrun.trans (txAppend_empty blake2s hs hsize hw)] at h
      obtain rfl := Except.ok.inj h
      exact ⟨rfl, fun _ => hw⟩
    · cases hxtx : tx'.tagType.isXtx with
      | false =>
        have hout := txAppend_reject blake2s hs hsize hlen hle hw hxtx
        rw [hrun] at h
        exact absurd h (hout.not_ok tx)
      | true =>
        obtain ⟨a, hrun', htype', -, -⟩ := txAppend_copy blake2s hs hsize hlen hle hw hxtx rfl
        rw [hrun.trans hrun'] at h
        obtain rfl := Except.ok.inj h
        refine ⟨htype', fun hnot => ?_⟩
        rw [htype', hxtx] at hnot
        cases hnot

/-- A message that is accepted has a header. -/
lemma length_of_txFromWire_ok (hlen : buf.length < 2^32) {tx : TxPay} (h : (txFromWire blake2s buf {}).1 = .ok tx) :
    8 ≤ buf.length := by
  by_contra hshort
  obtain ⟨-, hvoid, -⟩ := txFromWire_ok blake2s hlen h
  rw [tagAt, fieldAt, if_neg (by omega), leNat_zeros] at hvoid
  exact hvoid rfl

/-- A message that is accepted and fits has room for its header and its proof of work. -/
lemma bodyStart_le_wiresize (hlen : buf.length < 2^32) {tx : TxPay} (h : (txFromWire blake2s buf {}).1 = .ok tx)
    (hfits : MessageFits codec buf) : bodyStart buf ≤ wiresizeAt buf := by
  obtain ⟨htype, hvoid, hsize, start, hstart, hother⟩ := txFromWire_ok blake2s hlen h
  have hbody := bodyStart_le_appendStart hstart
  refine hbody.trans ?_
  cases hxtx : objType (tagAt buf) with
  | xcx type => exact (hfits start hstart type hxtx).1
  | _ => exact (hother (by rw [htype, hxtx]; rfl)).le

/-- Parsing a message stays inside the buffers exactly when the message fits. -/
theorem parseBounded_iff (hlen : buf.length < 2^32) :
    ParseBounded blake2s codec buf ↔ MessageFits codec buf :=
  ⟨fun h => messageFits_of_safe blake2s codec hlen h.1.1 fun tx htx type htype => ((h.2 tx htx).2 type htype).1,
    parseBounded_of_fits blake2s codec hlen⟩

end Parse

/-- Decoders that read every item as the empty string. -/
def emptyCodec : Codec where
  alphaDecode := fun _ _ _ => .ok ""
  mapExpDecode := id

/-- A payment claim of a block, whose two strings have no bytes. -/
def emptyPayment : List UInt8 := [22, 0, 0, 0, 1, 0, 0x19, 0xCC] ++ List.replicate 14 0

lemma emptyPayment_fits : MessageFits emptyCodec emptyPayment := by
  intro start hstart type htype
  obtain rfl : 8 = start := Option.some.inj hstart
  refine ⟨by decide, by decide, fun _ _ => by decide⟩

theorem parseBounded_emptyPayment : emptyPayment.length < 2^32 ∧
    ParseBounded (fun _ => 0) emptyCodec emptyPayment :=
  ⟨by decide, (parseBounded_iff (fun _ => 0) emptyCodec (by decide)).2 emptyPayment_fits⟩

/-- A payment claim that ends after its header and its proof of work. -/
def barePayment : List UInt8 := [56, 0, 0, 0, 1, 0, 0x18, 0xCC] ++ List.replicate 48 0

/-- The second string of such a claim asks for nearly `2^32` bytes. -/
theorem barePayment_overruns : ¬ ∀ (blake2s : List UInt8 → ℕ) (codec : Codec) (buf : List UInt8),
    buf.length < 2^32 → ParseBounded blake2s codec buf := by
  intro h
  obtain ⟨-, hparse⟩ := h (fun _ => 0) emptyCodec barePayment (by decide)
  obtain ⟨hsafe, -⟩ : RunBounded (xtxFromWire emptyCodec .payment) [] := (hparse _ rfl).2 .payment rfl
  have hrequest : (⟨strbufSize, 2^32 - 14, 14, true⟩ : Request).Safe 0 := hsafe _ (by decide +kernel)
  exact absurd hrequest (by decide)

end CredaCash.Wire
