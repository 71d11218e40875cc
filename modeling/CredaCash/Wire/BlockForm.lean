import CredaCash.ByteFormat
import CredaCash.Wire.Bounds
import CredaCash.Wire.TxToWire

/-! A transaction as a witness copies it into a block: its body after a size word and the block tag. It parses to the
same transaction as the message that it was made from. -/

namespace CredaCash.Wire
open BoundedReader Reader

def txMaxBodySize : ℕ := 512*1024 - 128

/-- `BodyPtr` and `BodySize`. -/
def objBody (wire : List UInt8) : List UInt8 :=
  (wire.drop (bodyStart wire)).take (bodySizeOf (wiresizeAt wire) (tagAt wire))

/-- What `BuildNewBlock` copies of an object into a block. -/
def blockForm (wire : List UInt8) : List UInt8 :=
  leBytes 4 (bodySizeOf (wiresizeAt wire) (tagAt wire) + 8) ++ (leBytes 4 (blockTag (tagAt wire)) ++ objBody wire)

/-- A transaction that was received as an object: its size word is its size, and `IsValid` holds. -/
structure IsTxObject (wire : List UInt8) : Prop where
  header : 8 ≤ wire.length
  size : wiresizeAt wire = wire.length
  type : objType (tagAt wire) ≠ .void ∧ objType (tagAt wire) ≠ .block
  body : bodySizeOf (wiresizeAt wire) (tagAt wire) ≤ txMaxBodySize

section Header
variable {size tag : ℕ} {rest : List UInt8}

lemma wiresizeAt_eq (h : size < 256^4) : wiresizeAt (leBytes 4 size ++ rest) = size := by
  have hfield := fieldAt_append [] (leBytes 4 size) rest 4
  rw [leBytes_length] at hfield
  rw [wiresizeAt]
  exact (congrArg leNat hfield).trans ((leNat_append_zeros ..).trans (leNat_leBytes h))

lemma tagAt_eq (h : tag < 256^4) : tagAt (leBytes 4 size ++ (leBytes 4 tag ++ rest)) = tag := by
  have hfield := fieldAt_append (leBytes 4 size) (leBytes 4 tag) rest 4
  rw [leBytes_length, leBytes_length] at hfield
  rw [tagAt, hfield, leNat_append_zeros, leNat_leBytes h]

end Header

section Form
variable {wire : List UInt8}

lemma word_lt (wire : List UInt8) (pos : ℕ) : leNat (fieldAt wire pos 4 4) < 2^32 := by
  unfold fieldAt
  split_ifs with h
  · refine (leNat_lt _).trans_le ?_
    have hlen : (bytesAt wire pos 4 4).length = 4 := by
      simp only [bytesAt, List.length_append, List.length_take, List.length_drop, List.length_replicate]
      omega
    rw [hlen]
    decide
  · rw [leNat_zeros]
    decide

lemma blockTag_testBit (tag : ℕ) : (blockTag tag).testBit 16 = true := by
  unfold blockTag tagBlockFlag
  split_ifs with h
  · exact h
  · simp only [Nat.testBit_eq_decide_div_mod_eq, decide_eq_true_eq] at h ⊢
    omega

@[simp] lemma wireTag_blockTag (tag : ℕ) : wireTag (blockTag tag) = wireTag tag := by
  rw [wireTag, if_pos (blockTag_testBit tag), blockTag, wireTag]
  split_ifs
  · rfl
  · exact Nat.add_sub_cancel tag tagBlockFlag

@[simp] lemma objType_blockTag (tag : ℕ) : objType (blockTag tag) = objType tag := by
  simp only [objType, wireTag_blockTag]

@[simp] lemma hasPOW_blockTag (tag : ℕ) : hasPOW (blockTag tag) = false := by
  simp only [hasPOW, blockTag_testBit, Bool.not_true, Bool.and_false]

lemma blockTag_lt {tag : ℕ} (h : tag < 2^32) : blockTag tag < 2^32 := by
  unfold blockTag tagBlockFlag
  split_ifs with hbit
  · exact h
  · simp only [Nat.testBit_eq_decide_div_mod_eq, decide_eq_true_eq] at hbit
    omega

lemma IsTxObject.length_lt (h : IsTxObject wire) : wire.length < 2^32 := h.size ▸ word_lt wire 0

/-- The body of an object begins inside it. -/
lemma IsTxObject.bodySize (h : IsTxObject wire) : bodyStart wire ≤ wire.length ∧
    bodySizeOf (wiresizeAt wire) (tagAt wire) = wire.length - bodyStart wire := by
  have hheader := h.header
  have hlt := h.length_lt
  have hbody := h.body
  rw [h.size] at hbody ⊢
  unfold bodySizeOf bodyStart at *
  rw [if_neg hheader.not_gt] at *
  dsimp only [txMaxBodySize, powSize] at hbody ⊢
  cases hpow : hasPOW (tagAt wire) with
  | false =>
    rw [if_neg (by decide), if_neg (by decide)]
    omega
  | true =>
    rw [hpow, if_pos rfl] at hbody
    rw [if_pos rfl, if_pos rfl]
    omega

lemma IsTxObject.objBody_eq (h : IsTxObject wire) : objBody wire = wire.drop (bodyStart wire) := by
  rw [objBody, h.bodySize.2]
  exact List.take_of_length_le (by rw [List.length_drop])

/-- The header of the block form. -/
def blockHeader (wire : List UInt8) : List UInt8 :=
  leBytes 4 (bodySizeOf (wiresizeAt wire) (tagAt wire) + 8) ++ leBytes 4 (blockTag (tagAt wire))

@[simp] lemma blockHeader_length (wire : List UInt8) : (blockHeader wire).length = 8 := by
  simp [blockHeader]

lemma blockForm_eq (h : IsTxObject wire) : blockForm wire = blockHeader wire ++ wire.drop (bodyStart wire) := by
  rw [blockForm, blockHeader, List.append_assoc, h.objBody_eq]

lemma blockForm_length (h : IsTxObject wire) : (blockForm wire).length = 8 + (wire.length - bodyStart wire) := by
  rw [blockForm_eq h, List.length_append, blockHeader_length, List.length_drop]

@[simp] lemma tagAt_blockForm (wire : List UInt8) : tagAt (blockForm wire) = blockTag (tagAt wire) :=
  tagAt_eq (blockTag_lt (word_lt wire 4))

lemma wiresizeAt_blockForm (h : IsTxObject wire) : wiresizeAt (blockForm wire) = (blockForm wire).length := by
  have hbody := h.body
  have hsize : bodySizeOf (wiresizeAt wire) (tagAt wire) + 8 < 256^4 := by
    refine lt_of_le_of_lt (Nat.add_le_add_right hbody 8) ?_
    decide
  have := h.bodySize.2
  rw [blockForm_length h, blockForm, wiresizeAt_eq hsize]
  omega

@[simp] lemma bodyStart_blockForm (wire : List UInt8) : bodyStart (blockForm wire) = 8 := by
  rw [bodyStart, tagAt_blockForm, hasPOW_blockTag]
  rfl

/-- The block form has the body of the object. -/
lemma objBody_blockForm (h : IsTxObject wire) : objBody (blockForm wire) = objBody wire := by
  have hsize : bodySizeOf (wiresizeAt (blockForm wire)) (tagAt (blockForm wire)) = (blockForm wire).length - 8 := by
    have hlen : ¬ (blockForm wire).length < 8 := by
      rw [blockForm_length h]
      omega
    rw [wiresizeAt_blockForm h, tagAt_blockForm, bodySizeOf, hasPOW_blockTag, if_neg hlen]
    rfl
  rw [objBody, hsize, bodyStart_blockForm, h.objBody_eq, blockForm_eq h, List.drop_left' (blockHeader_length wire),
    List.length_append, blockHeader_length, Nat.add_sub_cancel_left, List.take_length]

end Form

section Relocates

lemma relocates_readNat (datasize nbytes : ℕ) : Relocates (2^32) (readNat datasize nbytes) nbytes :=
  relocates_bind (relocates_copy datasize nbytes) fun _ => relocates_pure _

variable (tx : TxPay)

lemma relocates_output : Relocates (2^32) (txpayOutputFromWire tx) 60 :=
  relocates_bind (relocates_readNat 32 16) fun _ => relocates_bind (relocates_readIf (relocates_readNat 4 3) 0) fun _ =>
    relocates_bind (relocates_readIf (relocates_readNat 8 4) 0) fun _ => relocates_bind (relocates_readNat 8 5) fun _ =>
      relocates_bind (relocates_readNat 32 32) fun _ => relocates_pure _

lemma relocates_input (i : ℕ) : Relocates (2^32) (txpayInputFromWire tx i) 89 :=
  relocates_bind (relocates_readIf (relocates_readNat 4 3) 0) fun _ =>
    relocates_bind (relocates_readIf (relocates_readNat 32 32) 0) fun _ =>
      relocates_bind (relocates_readIf (relocates_readNat 8 6) 0) fun _ => relocates_bind (relocates_readNat 32 32) fun _ =>
        relocates_bind (relocates_readNat 32 16) fun _ => relocates_pure _

lemma relocates_setMintInputs : Relocates (2^32) (setMintInputs tx) 0 :=
  relocates_ite (fun _ => relocates_fail _) fun _ => relocates_ite (fun _ => relocates_fail _) fun _ => relocates_pure _

lemma relocates_lists : Relocates (2^32) (txpayListsFromWire tx) 1312 := by
  refine relocates_ite (fun _ => (relocates_fail _).mono (Nat.zero_le _)) fun hnout => ?_
  refine relocates_ite (fun _ => (relocates_fail _).mono (Nat.zero_le _)) fun hnin => ?_
  refine relocates_ite (fun _ => (relocates_fail _).mono (Nat.zero_le _)) fun _ => ?_
  have houtputs := relocates_forIndices (fun _ => relocates_output tx) 0 tx.nout
  have hinputs := relocates_forIndices (relocates_input tx) 0 tx.nin
  have hout : tx.nout * 60 ≤ 10 * 60 := Nat.mul_le_mul_right 60 (not_lt.1 hnout)
  have hin : tx.nin * 89 ≤ 8 * 89 := Nat.mul_le_mul_right 89 (not_lt.1 hnin)
  refine (relocates_bind houtputs fun outputs => relocates_bind hinputs fun inputs => ?_).mono
    (Nat.add_le_add hout (Nat.add_le_add_right hin 0))
  exact relocates_ite (fun _ => relocates_setMintInputs _) fun _ => relocates_pure _

lemma relocates_counts : Relocates (2^32) (txpayCountsFromWire tx) 1 := by
  refine relocates_ite (fun _ => relocates_bind (relocates_readNat 1 1) fun _ => relocates_pure _) fun _ => ?_
  exact relocates_ite (fun _ => (relocates_pure _).mono (Nat.zero_le 1)) fun _ => (relocates_fail _).mono (Nat.zero_le 1)

lemma relocates_body : Relocates (2^32) (txpayBodyFromWire tx) 1608 :=
  relocates_bind (relocates_readNat 8 5) fun _ => relocates_bind (relocates_copy 288 287) fun _ =>
    relocates_bind (relocates_readIf (relocates_readNat 2 1) 0) fun _ => relocates_bind (relocates_readNat 8 2) fun _ =>
      relocates_bind (relocates_counts _) fun _ => relocates_lists _

end Relocates

section Parse
variable (blake2s : List UInt8 → ℕ)

/-- The append data is the rest of a message, wherever its body starts. -/
lemma txAppend_relocates {pre pre' body : List UInt8} {tx tx₁ : TxPay} {s s' : Cursor} {k : ℕ}
    (hs : s.bufpos = pre.length + k) (hs' : s'.bufpos = pre'.length + k) (hk : k ≤ 2000)
    (hlen : (pre ++ body).length < 2^32) (hlen' : (pre' ++ body).length < 2^32)
    (h : ((txAppendFromWire blake2s (pre ++ body).length tx >>= checkEnd) (pre ++ body) s).1 = .ok tx₁) :
    ∃ offset, ((txAppendFromWire blake2s (pre' ++ body).length tx >>= checkEnd) (pre' ++ body) s').1 =
      .ok { tx₁ with appendWireOffset := offset } := by
  simp only [List.length_append] at hlen hlen'
  have hnappend (l : List UInt8) (hl : l.length + body.length < 2^32) :
      ((l ++ body).length + 2^32 - (l.length + k)) % 2^32 = (body.length + 2^32 - k) % 2^32 := by
    rw [List.length_append]
    congr 1
    omega
  set nappend := (body.length + 2^32 - k) % 2^32 with hn
  have hcounter {l : List UInt8} {c : Cursor} : counter (l ++ body) c = ((.ok c.bufpos : Except Failure ℕ), c) := rfl
  -- the copy ends at the end of the buffer, even when it starts after it
  have hend (l : List UInt8) (hl : l.length + body.length < 2^32) :
      (l.length + k + nappend) % 2^32 = (l ++ body).length := by
    rw [List.length_append]
    omega
  have hbytes (l : List UInt8) {c : Cursor} (hc : c.bufpos = l.length + k) :
      bytesAt (l ++ body) c.bufpos maxAppend nappend = bytesAt body k maxAppend nappend := by
    unfold bytesAt
    rw [hc, ← List.drop_drop, List.drop_left]
  have hrun (l : List UInt8) (hl : l.length + body.length < 2^32) (c : Cursor) (hc : c.bufpos = l.length + k) :
      ((txAppendFromWire blake2s (l ++ body).length tx >>= checkEnd) (l ++ body) c).1 =
        if nappend = 0 then .ok tx
        else if tx.tagType.isXtx = false then .error (.rc (-1))
        else .ok { tx with
          appendWireOffset := l.length + k
          appendDataLength := nappend
          appendData := bytesAt body k maxAppend nappend
          refhash := blake2s ((bytesAt body k maxAppend nappend).take nappend) } := by
    by_cases hzero : nappend = 0
    · have happend : txAppendFromWire blake2s (l ++ body).length tx (l ++ body) c = (.ok tx, c) := by
        rw [txAppendFromWire, bind_ok hcounter, hc]
        simp only [hnappend l hl, hzero, if_true]
        rfl
      rw [if_pos hzero, bind_ok happend, checkEnd_ok]
      rw [hc, List.length_append]
      omega
    · rw [if_neg hzero]
      cases hxtx : tx.tagType.isXtx with
      | false =>
        have happend : txAppendFromWire blake2s (l ++ body).length tx (l ++ body) c = (.error (.rc (-1)), c) := by
          rw [txAppendFromWire, bind_ok hcounter, hc]
          simp only [hnappend l hl, if_neg hzero, hxtx]
          rfl
        rw [bind_error happend, if_pos rfl]
      | true =>
        have hcopy : copyFromBuf maxAppend nappend (l ++ body) c = (.ok (bytesAt body k maxAppend nappend),
            ⟨(l ++ body).length, c.pos + nappend, ⟨maxAppend, nappend, c.pos, true⟩ :: c.requests⟩) := by
          rw [← hbytes l hc]
          simp only [copyFromBuf, copy, hc, hend l hl, le_refl, decide_true, if_true]
        have happend : txAppendFromWire blake2s (l ++ body).length tx (l ++ body) c = (.ok { tx with
            appendWireOffset := l.length + k
            appendDataLength := nappend
            appendData := bytesAt body k maxAppend nappend
            refhash := blake2s ((bytesAt body k maxAppend nappend).take nappend) },
            ⟨(l ++ body).length, c.pos + nappend, ⟨maxAppend, nappend, c.pos, true⟩ :: c.requests⟩) := by
          rw [txAppendFromWire, bind_ok hcounter, hc]
          simp only [hnappend l hl, if_neg hzero, hxtx, Bool.not_true, Bool.false_eq_true, if_false]
          exact bind_ok hcopy
        rw [bind_ok happend, checkEnd_ok (le_refl _), if_neg (by decide)]
  rw [hrun pre hlen s hs] at h
  rw [hrun pre' hlen' s' hs']
  split_ifs at h ⊢ with hzero htype
  · exact ⟨tx₁.appendWireOffset, h⟩
  · obtain rfl := Except.ok.inj h
    exact ⟨_, rfl⟩

/-- The block form of an object parses to the transaction of the object. -/
theorem txFromWire_blockForm {wire : List UInt8} (hobj : IsTxObject wire) {tx : TxPay}
    (h : (txFromWire blake2s wire {}).1 = .ok tx) :
    ∃ offset, (txFromWire blake2s (blockForm wire) {}).1 = .ok { tx with appendWireOffset := offset } := by
  have hbody := hobj.bodySize.1
  have hlen := hobj.length_lt
  have hstart := bodyStart_le wire
  have hlen' : (blockForm wire).length < 2^32 := by
    have hlow : 8 ≤ bodyStart wire := Nat.le_add_right 8 _
    rw [blockForm_length hobj]
    omega
  have hheader : ¬ (wire.length < wiresizeAt wire ∨ objType (tagAt wire) = .void ∨ objType (tagAt wire) = .block) := by
    rw [hobj.size]
    exact not_or.2 ⟨lt_irrefl _, not_or.2 hobj.type⟩
  have hheader' : ¬ ((blockForm wire).length < wiresizeAt (blockForm wire) ∨ objType (tagAt (blockForm wire)) = .void ∨
      objType (tagAt (blockForm wire)) = .block) := by
    rw [wiresizeAt_blockForm hobj, tagAt_blockForm, objType_blockTag]
    exact not_or.2 ⟨lt_irrefl _, not_or.2 hobj.type⟩
  have hhead := txHeader_run wire
  have hhead' := txHeader_run (blockForm wire)
  rw [if_neg hheader] at hhead
  rw [if_neg hheader'] at hhead'
  obtain ⟨_, s, hrun, hexact, hpos, rfl⟩ := hhead
  obtain ⟨_, s', hrun', hexact', hpos', rfl⟩ := hhead'
  have hsame : headerTx (blockForm wire) = headerTx wire := by simp [headerTx]
  rw [hobj.size] at hrun
  rw [wiresizeAt_blockForm hobj, hsame] at hrun'
  clear hsame
  generalize headerTx wire = header at hrun hrun'
  -- both cursors stand at the start of the body
  have hsplit : wire = wire.take (bodyStart wire) ++ wire.drop (bodyStart wire) := (List.take_append_drop _ _).symm
  set pre := wire.take (bodyStart wire) with hpre
  set body := wire.drop (bodyStart wire) with hbodydef
  have hprelen : pre.length = bodyStart wire := List.length_take_of_le hbody
  have hs : s.bufpos = pre.length + 0 := by rw [hexact.counter, hpos, hprelen]; simp
  have hs' : s'.bufpos = (blockHeader wire).length + 0 := by
    rw [hexact'.counter, hpos', bodyStart_blockForm, blockHeader_length]
  have hform' := blockForm_eq hobj
  rw [← hbodydef] at hform'
  have hmid : Relocates (2^32) (readIf (!header.tagType.hasBareMsg) (txpayBodyFromWire header)
      header) 1608 := relocates_readIf (relocates_body _) _
  obtain ⟨k, hk, hresult, hk₁, hk₂⟩ := hmid pre (blockHeader wire) body 0 s s' hs hs' (by omega) (by
    rw [blockHeader_length]
    decide)
  rw [hsplit] at h hrun hlen
  rw [hform'] at hrun' hlen' ⊢
  unfold txFromWire at h ⊢
  rw [bind_ok hrun] at h
  rw [bind_ok hrun']
  dsimp only at h ⊢
  rcases hmidrun : readIf (!header.tagType.hasBareMsg) (txpayBodyFromWire header) header
      (pre ++ body) s with ⟨_ | tx₀, t⟩
  · rw [bind_error hmidrun] at h
    cases h
  · rcases hmidrun' : readIf (!header.tagType.hasBareMsg) (txpayBodyFromWire header) header
        (blockHeader wire ++ body) s' with ⟨_ | tx₀', t'⟩
    · rw [hmidrun, hmidrun'] at hresult
      cases hresult
    · rw [hmidrun, hmidrun'] at hresult
      obtain rfl := Except.ok.inj hresult
      rw [hmidrun] at hk₁
      rw [hmidrun'] at hk₂
      rw [bind_ok hmidrun] at h
      rw [bind_ok hmidrun']
      exact txAppend_relocates blake2s hk₁ hk₂ (by omega) hlen hlen' h

end Parse

end CredaCash.Wire
