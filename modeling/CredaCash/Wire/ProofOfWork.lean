import CredaCash.ByteMemory
import CredaCash.FirstHit
import CredaCash.Wire.Transaction
import Mathlib.Algebra.BigOperators.Group.List.Basic
import Mathlib.Algebra.Order.Group.Nat
import Mathlib.Data.Nat.Bitwise

/-! The proof of work of a message: the search for its nonces, in calls that each go on where the last one has stopped,
and the check by a server. -/

namespace CredaCash.Wire
open BoundedReader FirstHit

def powNproofs : ℕ := 8
def powNonceBits : ℕ := 40
def powNonceMask : ℕ := ((1 <<< (powNonceBits - 1)) - 1) * 2 + 1
def powNonceSize : ℕ := (powNonceBits + 7) / 8

def iterLimit : ℕ := powNonceMask - 1

/-- Where the object header and the proof of work end. -/
def dataOffset : ℕ := 8 + powSize

/-- The hash functions: `blake2b` with a tag for its key, and `siphash` with a key of two words. -/
structure PowHashes where
  blake2b : ℕ → List UInt8 → ℕ
  siphash : ℕ → ℕ → ℕ → ℕ

/-- `pnonce`, which is read and written as a word that is longer than a nonce. -/
def nonceOffset (proofIndex : ℕ) : ℕ := 8 + 8 + proofIndex * powNonceSize

def storedNonce (m : Memory) (proofIndex : ℕ) : ℕ := m.read (nonceOffset proofIndex) 8 &&& powNonceMask

/-- The two statements that replace the nonce in its word. -/
def setNonce (m : Memory) (proofIndex nonce : ℕ) : Memory :=
  m.write (nonceOffset proofIndex) 8 ((m.read (nonceOffset proofIndex) 8 &&& (2^64 - 1 - powNonceMask)) ||| nonce)

/-- `hashkey[0]`: the timestamp, or 64 bits that include the prior nonce. -/
def hashKey0 (m : Memory) (proofIndex : ℕ) : ℕ :=
  if proofIndex ≠ 0 then m.read (nonceOffset proofIndex - 8) 8 else m.read 8 8

/-- The end of the window of a call, in 64 bits. -/
def iterEnd (iterStart iterCount : ℕ) : ℕ :=
  let iterEnd := (iterStart + iterCount + (2^64 - 1)) % 2^64
  if iterLimit < iterEnd ∨ (iterLimit + (2^64 - iterCount)) % 2^64 < iterStart then iterLimit else iterEnd

section
variable (H : PowHashes)

/-- Whether a nonce solves a proof. -/
def isSolution (txhash difficulty : ℕ) (m : Memory) (proofIndex nonce : ℕ) : Bool :=
  H.siphash txhash (hashKey0 m proofIndex) (proofIndex <<< powNonceBits ||| nonce) < difficulty

/-- A turn of the loop over the proofs: -2 when the nonces are used up, 1 at the end of the window. -/
def setProof (txhash iterCount difficulty : ℕ) (m : Memory) (proofIndex : ℕ) : ℤ × Memory :=
  let iterStart := storedNonce m proofIndex
  let iterEnd := iterEnd iterStart iterCount
  let nonce := firstHit (isSolution H txhash difficulty m proofIndex) iterStart (iterEnd + 1 - iterStart)
  (if iterLimit < nonce then -2 else if iterEnd < nonce then 1 else 0, setNonce m proofIndex nonce)

/-- The loop over the proofs; none when its assertion fails. -/
def setProofs (txhash iterCount difficulty : ℕ) : ℕ → ℕ → ℤ → Memory → Option (ℤ × Memory)
  | 0, _, result, m => some (result, m)
  | proofCount+1, proofIndex, result, m =>
    if powNproofs ≤ proofIndex then none
    else
      let (rc, m) := setProof H txhash iterCount difficulty m proofIndex
      if rc = -2 then some (rc, m)
      else setProofs txhash iterCount difficulty proofCount (proofIndex + 1) (if rc = 1 then 1 else result) m

/-- `tx_set_work_internal` of a node that is not shut down. -/
def txSetWorkInternal (txhash proofStart proofCount iterCount difficulty : ℕ) (m : Memory) : Option (ℤ × Memory) :=
  if difficulty = 0 then some (0, m) else setProofs H txhash iterCount difficulty proofCount proofStart 0 m

def messageSize (m : Memory) : ℕ := m.read 0 4

/-- The hash of the message without its proof of work. -/
def txHash (m : Memory) : ℕ := H.blake2b (m.read 4 4) (m.bytes dataOffset (messageSize m - dataOffset))

def txSetWork (proofStart proofCount iterCount difficulty binsize : ℕ) (m : Memory) : Option (ℤ × Memory) :=
  if binsize < messageSize m then some (-1, m)
  else if messageSize m < dataOffset then some (-1, m)
  else txSetWorkInternal H (txHash H m) proofStart proofCount iterCount difficulty m

/-- Calls for some proofs, each with its own number of iterations. -/
def searchCalls (difficulty binsize proofStart proofCount : ℕ) (m : Memory) (iterCounts : List ℕ) : Option Memory :=
  iterCounts.foldlM (fun m iterCount => (txSetWork H proofStart proofCount iterCount difficulty binsize m).map Prod.snd) m

/-- Calls that solve the first proofs in their order: some calls for the next proofs, the last of which returns 0. -/
inductive SolvedTo (difficulty binsize : ℕ) (m : Memory) : ℕ → Memory → Prop
  | start : SolvedTo difficulty binsize m 0 m
  | calls {proofStart proofCount iterCount : ℕ} {iterCounts : List ℕ} {m₁ m₂ m₃ : Memory} :
      SolvedTo difficulty binsize m proofStart m₁ →
      searchCalls H difficulty binsize proofStart proofCount m₁ iterCounts = some m₂ →
      txSetWork H proofStart proofCount iterCount difficulty binsize m₂ = some (0, m₃) →
      SolvedTo difficulty binsize m (proofStart + proofCount) m₃

/-- A proof that needs work: its stored nonce does not solve it. -/
def Unsolved (difficulty : ℕ) (m : Memory) (proofIndex : ℕ) : Prop :=
  difficulty ≠ 0 ∧ isSolution H (txHash H m) difficulty m proofIndex (storedNonce m proofIndex) = false

end

section Nonces
variable {m : Memory} {i j n k : ℕ}

lemma storedNonce_eq (m : Memory) (i : ℕ) : storedNonce m i = m.read (nonceOffset i) 5 := by
  rw [storedNonce, show powNonceMask = 2^40 - 1 from rfl, Nat.and_two_pow_sub_one_eq_mod]
  exact m.read_mod (nonceOffset i) 5 3

lemma storedNonce_lt (m : Memory) (i : ℕ) : storedNonce m i < 2^40 := by
  rw [storedNonce_eq]
  exact m.read_lt _ 5

/-- The bits of a word above the nonce. -/
lemma and_not_mask {w : ℕ} (hw : w < 2^64) : w &&& (2^64 - 1 - powNonceMask) = (w / 2^40) <<< 40 := by
  apply Nat.eq_of_testBit_eq
  intro b
  rw [show 2^64 - 1 - powNonceMask = (2^24 - 1) <<< 40 from rfl, Nat.testBit_and, Nat.testBit_shiftLeft,
    Nat.testBit_shiftLeft, Nat.testBit_two_pow_sub_one, Nat.testBit_div_two_pow]
  by_cases hlow : 40 ≤ b
  · rw [Nat.sub_add_cancel hlow]
    by_cases hhigh : b < 64
    · simp [hlow, show b - 40 < 24 by omega]
    · have hzero : w.testBit b = false :=
        Nat.testBit_lt_two_pow (lt_of_lt_of_le hw (Nat.pow_le_pow_right (by decide) (by omega)))
      simp [hzero]
  · simp [hlow]

/-- Only the bytes of the nonce itself change. -/
lemma setNonce_eq (hn : n < 2^40) : setNonce m i n = m.write (nonceOffset i) 5 n := by
  rw [setNonce, and_not_mask (m.read_lt _ 8), ← Nat.shiftLeft_add_eq_or_of_lt hn, Nat.shiftLeft_eq, Nat.add_comm,
    Nat.mul_comm]
  exact m.write_add_high (nonceOffset i) 3 hn

lemma storedNonce_setNonce (hn : n < 2^40) : storedNonce (setNonce m i n) i = n := by
  rw [storedNonce_eq, setNonce_eq hn]
  exact m.read_write _ hn

lemma storedNonce_setNonce_of_ne (hn : n < 2^40) (h : i ≠ j) : storedNonce (setNonce m i n) j = storedNonce m j := by
  rw [storedNonce_eq, storedNonce_eq, setNonce_eq hn]
  apply Memory.read_write_of_disjoint
  simp only [nonceOffset, show powNonceSize = 5 from rfl]
  omega

lemma setNonce_storedNonce (m : Memory) (i : ℕ) : setNonce m i (storedNonce m i) = m := by
  rw [setNonce_eq (storedNonce_lt m i), storedNonce_eq]
  exact m.write_read _ 5

/-- A nonce is written without the one that was there before. -/
lemma setNonce_setNonce (hn : n < 2^40) (hk : k < 2^40) : setNonce (setNonce m i n) i k = setNonce m i k := by
  rw [setNonce_eq hk, setNonce_eq hk, setNonce_eq hn]
  funext a
  by_cases ha : nonceOffset i ≤ a ∧ a < nonceOffset i + 5
  · simp only [Memory.write, if_pos ha]
  · rw [Memory.write_of_not ha, Memory.write_of_not ha, Memory.write_of_not ha]

/-- Nonces are written behind the header and before the message. -/
lemma read_setNonce (hn : n < 2^40) (hi : i < powNproofs) {o w : ℕ} (h : o + w ≤ nonceOffset i ∨ dataOffset ≤ o) :
    (setNonce m i n).read o w = m.read o w := by
  rw [setNonce_eq hn]
  apply Memory.read_write_of_disjoint
  simp only [nonceOffset, show powNonceSize = 5 from rfl, show powNproofs = 8 from rfl, show dataOffset = 56 from rfl] at *
  omega

/-- The key of a proof does not depend on its own nonce or on later ones. -/
lemma hashKey0_setNonce (hn : n < 2^40) (hi : i < powNproofs) (h : j ≤ i) :
    hashKey0 (setNonce m i n) j = hashKey0 m j := by
  unfold hashKey0
  have hsize : powNonceSize = 5 := rfl
  split_ifs
  · refine read_setNonce hn hi (Or.inl ?_)
    simp only [nonceOffset, hsize]
    omega
  · refine read_setNonce hn hi (Or.inl ?_)
    simp only [nonceOffset]
    omega

lemma messageSize_setNonce (hn : n < 2^40) (hi : i < powNproofs) : messageSize (setNonce m i n) = messageSize m :=
  read_setNonce hn hi (Or.inl (by simp only [nonceOffset]; omega))

lemma txHash_setNonce (H : PowHashes) (hn : n < 2^40) (hi : i < powNproofs) :
    txHash H (setNonce m i n) = txHash H m := by
  have hbytes (size : ℕ) : (setNonce m i n).bytes dataOffset size = m.bytes dataOffset size := by
    rw [setNonce_eq hn]
    apply Memory.bytes_congr
    intro a ha _
    apply Memory.write_of_not
    simp only [nonceOffset, show powNonceSize = 5 from rfl, show powNproofs = 8 from rfl, show dataOffset = 56 from rfl] at *
    omega
  rw [txHash, txHash, messageSize_setNonce hn hi, hbytes, read_setNonce hn hi (Or.inl (by simp only [nonceOffset]; omega))]

lemma isSolution_setNonce (H : PowHashes) (txhash difficulty : ℕ) (hn : n < 2^40) (hi : i < powNproofs) (h : j ≤ i) :
    isSolution H txhash difficulty (setNonce m i n) j = isSolution H txhash difficulty m j := by
  funext nonce
  rw [isSolution, isSolution, hashKey0_setNonce hn hi h]

end Nonces

section Window
variable {iterStart iterCount : ℕ}

/-- While the sum stays within 64 bits, the window has the nonces of the call that are left. -/
lemma iterEnd_of_le (hstart : iterStart < 2^40) (hcount : 0 < iterCount)
    (h : iterStart ≤ iterLimit → iterStart + iterCount ≤ 2^64) :
    iterEnd iterStart iterCount + 1 - iterStart = min iterCount (iterLimit + 1 - iterStart) := by
  have hlimit : iterLimit = 2^40 - 2 := rfl
  unfold iterEnd
  dsimp only
  rw [hlimit] at h ⊢
  split_ifs <;> omega

/-- Beyond, the window is empty. -/
lemma iterEnd_lt_of_lt (hstart : iterStart ≤ iterLimit) (hcount : iterCount < 2^64) (h : 2^64 < iterStart + iterCount) :
    iterEnd iterStart iterCount < iterStart := by
  have hlimit : iterLimit = 2^40 - 2 := rfl
  unfold iterEnd
  dsimp only
  rw [hlimit] at hstart ⊢
  split_ifs <;> omega

lemma iterEnd_le : iterEnd iterStart iterCount ≤ iterLimit := by
  unfold iterEnd
  dsimp only
  split_ifs <;> omega

end Window

section Search
variable {H : PowHashes} {m : Memory} {i n a b d binsize iterStart iterCount : ℕ} {hit : ℕ → Bool}

/-- The nonce after a search of some more nonces, as far as there are any. -/
def advance (hit : ℕ → Bool) (iterCount iterStart : ℕ) : ℕ :=
  firstHit hit iterStart (min iterCount (iterLimit + 1 - iterStart))

lemma le_advance : iterStart ≤ advance hit iterCount iterStart := le_firstHit

lemma advance_le : advance hit iterCount iterStart ≤ iterStart + iterCount :=
  firstHit_le.trans (Nat.add_le_add_left (min_le_left _ _) _)

lemma advance_lt (h : iterStart < 2^40) : advance hit iterCount iterStart < 2^40 := by
  have hle : advance hit iterCount iterStart ≤ iterStart + min iterCount (iterLimit + 1 - iterStart) := firstHit_le
  have hlimit : iterLimit = 2^40 - 2 := rfl
  omega

/-- A search in two pieces ends where one search ends. -/
lemma advance_advance (hit : ℕ → Bool) (a b : ℕ) (h : iterStart ≤ iterLimit + 1) :
    advance hit b (advance hit a iterStart) = advance hit (a + b) iterStart := by
  have hsplit : min (a + b) (iterLimit + 1 - iterStart) = min a (iterLimit + 1 - iterStart) +
      min b (iterLimit + 1 - (iterStart + min a (iterLimit + 1 - iterStart))) := by omega
  rw [advance, advance, advance, hsplit, firstHit_add]
  split_ifs with hfound
  · exact firstHit_of_hit (hit_firstHit hfound) _
  · rw [le_antisymm firstHit_le (not_lt.1 hfound)]

/-- A message with room for its proof of work, in a buffer that holds it. -/
structure HasPow (m : Memory) (binsize : ℕ) : Prop where
  size : dataOffset ≤ messageSize m
  fits : messageSize m ≤ binsize

lemma HasPow.setNonce (h : HasPow m binsize) (hn : n < 2^40) (hi : i < powNproofs) :
    HasPow (setNonce m i n) binsize := by
  constructor
  · rw [messageSize_setNonce hn hi]
    exact h.size
  · rw [messageSize_setNonce hn hi]
    exact h.fits

/-- A call for one proof. -/
lemma txSetWork_one (h : HasPow m binsize) (hi : i < powNproofs) (hd : d ≠ 0) :
    txSetWork H i 1 iterCount d binsize m = some (setProof H (txHash H m) iterCount d m i) := by
  rw [txSetWork, if_neg (not_lt.2 h.fits), if_neg (not_lt.2 h.size), txSetWorkInternal, if_neg hd, setProofs,
    if_neg (not_le.2 hi)]
  unfold setProof
  dsimp only
  split_ifs <;> simp_all [setProofs]

/-- A call where a nonce is stored. -/
lemma txSetWork_setNonce (h : HasPow m binsize) (hi : i < powNproofs) (hd : d ≠ 0) (hs : iterStart < 2^40) :
    ∃ rc nonce, txSetWork H i 1 iterCount d binsize (setNonce m i iterStart) = some (rc, setNonce m i nonce) ∧
      nonce < 2^40 ∧
      nonce = firstHit (isSolution H (txHash H m) d m i) iterStart (iterEnd iterStart iterCount + 1 - iterStart) ∧
      rc = if iterLimit < nonce then -2 else if iterEnd iterStart iterCount < nonce then 1 else 0 := by
  have hlimit : iterLimit = 2^40 - 2 := rfl
  have hend := @iterEnd_le iterStart iterCount
  have hle : firstHit (isSolution H (txHash H m) d m i) iterStart (iterEnd iterStart iterCount + 1 - iterStart) ≤
    iterStart + (iterEnd iterStart iterCount + 1 - iterStart) := firstHit_le
  have hlt :
      firstHit (isSolution H (txHash H m) d m i) iterStart (iterEnd iterStart iterCount + 1 - iterStart) < 2^40 := by
    omega
  refine ⟨_, _, ?_, hlt, rfl, rfl⟩
  rw [txSetWork_one (h.setNonce hs hi) hi hd, setProof, storedNonce_setNonce hs, txHash_setNonce H hs hi,
    isSolution_setNonce H _ d hs hi le_rfl, setNonce_setNonce hs hlt]

/-- While the sum stays within 64 bits, a call does what it is asked to do. -/
lemma txSetWork_advance (h : HasPow m binsize) (hi : i < powNproofs) (hd : d ≠ 0) (hs : iterStart < 2^40)
    (hcount : 0 < iterCount) (hfit : iterStart ≤ iterLimit → iterStart + iterCount ≤ 2^64) :
    ∃ rc, txSetWork H i 1 iterCount d binsize (setNonce m i iterStart) =
        some (rc, setNonce m i (advance (isSolution H (txHash H m) d m i) iterCount iterStart)) ∧
      (0 < rc → iterStart < advance (isSolution H (txHash H m) d m i) iterCount iterStart ∧ iterCount ≤ iterLimit) := by
  obtain ⟨rc, nonce, hcall, -, hnonce, hrc⟩ := @txSetWork_setNonce H m i d binsize iterStart iterCount h hi hd hs
  have hwindow := iterEnd_of_le hs hcount hfit
  have hge : iterStart ≤ nonce := hnonce ▸ le_firstHit
  have hadvance : nonce = advance (isSolution H (txHash H m) d m i) iterCount iterStart := by
    rw [hnonce, hwindow]
    rfl
  refine ⟨rc, hadvance ▸ hcall, fun hpos => ?_⟩
  rw [← hadvance]
  split_ifs at hrc with hlast hmore
  · rw [hrc] at hpos
    exact absurd hpos (by decide)
  · constructor <;> omega
  · rw [hrc] at hpos
    exact absurd hpos (by decide)

/-- Calls whose sum stays within 64 bits do what one call does. -/
lemma searchCalls_advance (h : HasPow m binsize) (hi : i < powNproofs) (hd : d ≠ 0) {iterCounts : List ℕ}
    (hpos : ∀ c ∈ iterCounts, 0 < c) (hs : iterStart < 2^40)
    (hfit : iterStart ≤ iterLimit → iterStart + iterCounts.sum ≤ 2^64) :
    searchCalls H d binsize i 1 (setNonce m i iterStart) iterCounts =
      some (setNonce m i (advance (isSolution H (txHash H m) d m i) iterCounts.sum iterStart)) := by
  induction iterCounts generalizing iterStart with
  | nil =>
    rw [List.sum_nil, advance, Nat.zero_min]
    rfl
  | cons c cs ih =>
    rw [List.sum_cons] at hfit ⊢
    have hlimit : iterLimit = 2^40 - 2 := rfl
    obtain ⟨rc, hcall, -⟩ := txSetWork_advance (H := H) h hi hd hs (hpos c List.mem_cons_self) (by omega)
    have hle := @advance_le iterStart c (isSolution H (txHash H m) d m i)
    have hge := @le_advance iterStart c (isSolution H (txHash H m) d m i)
    have hbound := @advance_lt iterStart c (isSolution H (txHash H m) d m i) hs
    have hrest := ih (fun x hx => hpos x (List.mem_cons_of_mem c hx)) hbound (by omega)
    rw [searchCalls, List.foldlM_cons, hcall, Option.map_some]
    change searchCalls H d binsize i 1 _ cs = _
    rw [hrest, advance_advance _ _ _ (by omega)]

/-- Where a proof is solved, calls change nothing. -/
lemma searchCalls_stays (h : HasPow m binsize) (hi : i < powNproofs) (hd : d ≠ 0) (hs : iterStart < 2^40)
    (hit : isSolution H (txHash H m) d m i iterStart = true) (iterCounts : List ℕ) :
    searchCalls H d binsize i 1 (setNonce m i iterStart) iterCounts = some (setNonce m i iterStart) := by
  induction iterCounts with
  | nil => rfl
  | cons c cs ih =>
    obtain ⟨rc, nonce, hcall, -, hnonce, -⟩ := @txSetWork_setNonce H m i d binsize iterStart c h hi hd hs
    rw [firstHit_of_hit hit] at hnonce
    rw [searchCalls, List.foldlM_cons, hcall, hnonce, Option.map_some]
    exact ih

/-- A caller that repeats a call comes to its end. -/
lemma searchCalls_terminates (h : HasPow m binsize) (hi : i < powNproofs) (hd : d ≠ 0) (hs : iterStart < 2^40)
    (hcount : 0 < iterCount) (hfit : iterStart ≤ iterLimit → iterStart + iterCount ≤ 2^64) :
    ∃ k m₁ rc m₂, searchCalls H d binsize i 1 (setNonce m i iterStart) (List.replicate k iterCount) = some m₁ ∧
      txSetWork H i 1 iterCount d binsize m₁ = some (rc, m₂) ∧ rc ≤ 0 := by
  generalize hleft : 2^40 - iterStart = left
  induction left using Nat.strong_induction_on generalizing iterStart with
  | _ left ih =>
    obtain ⟨rc, hcall, hmore⟩ := txSetWork_advance (H := H) h hi hd hs hcount hfit
    rcases le_or_gt rc 0 with hle | hpos
    · exact ⟨0, _, rc, _, rfl, hcall, hle⟩
    · obtain ⟨hlt, hsmall⟩ := hmore hpos
      have hlimit : iterLimit = 2^40 - 2 := rfl
      have hbound := @advance_lt iterStart iterCount (isSolution H (txHash H m) d m i) hs
      obtain ⟨k, m₁, rc', m₂, hcalls, hend⟩ := ih _ (by omega) hbound (by omega) rfl
      refine ⟨k + 1, m₁, rc', m₂, ?_, hend⟩
      rw [List.replicate_succ, searchCalls, List.foldlM_cons, hcall]
      exact hcalls

end Search

section Verify
variable {H : PowHashes} {m m' m'' : Memory} {i j n c d binsize txhash proofCount : ℕ} {rc result : ℤ}

/-- A proof whose stored nonce solves it. -/
structure Solved (H : PowHashes) (d : ℕ) (m : Memory) (i : ℕ) : Prop where
  le : storedNonce m i ≤ iterLimit
  hit : isSolution H (txHash H m) d m i (storedNonce m i) = true

/-- What calls for the proofs from `i` on leave as it is. -/
structure KeepsBelow (H : PowHashes) (d i : ℕ) (m m' : Memory) : Prop where
  size : messageSize m' = messageSize m
  hash : txHash H m' = txHash H m
  solved : ∀ j < i, Solved H d m j → Solved H d m' j

lemma KeepsBelow.refl (m : Memory) : KeepsBelow H d i m m := ⟨rfl, rfl, fun _ _ h => h⟩

lemma KeepsBelow.trans (h : KeepsBelow H d i m m') (h' : KeepsBelow H d i m' m'') : KeepsBelow H d i m m'' where
  size := h'.size.trans h.size
  hash := h'.hash.trans h.hash
  solved := fun j hj hs => h'.solved j hj (h.solved j hj hs)

lemma KeepsBelow.mono (h : KeepsBelow H d j m m') (hij : i ≤ j) : KeepsBelow H d i m m' :=
  ⟨h.size, h.hash, fun k hk => h.solved k (by omega)⟩

lemma KeepsBelow.hasPow (h : KeepsBelow H d i m m') (hpow : HasPow m binsize) : HasPow m' binsize := by
  constructor
  · rw [h.size]
    exact hpow.size
  · rw [h.size]
    exact hpow.fits

lemma keepsBelow_setNonce (hn : n < 2^40) (hi : i < powNproofs) : KeepsBelow H d i m (setNonce m i n) := by
  refine ⟨messageSize_setNonce hn hi, txHash_setNonce H hn hi, ?_⟩
  intro j hj hs
  have hstored := @storedNonce_setNonce_of_ne m i j n hn (by omega)
  constructor
  · rw [hstored]
    exact hs.le
  · rw [hstored, txHash_setNonce H hn hi, isSolution_setNonce H _ d hn hi (by omega)]
    exact hs.hit

lemma solved_setNonce (hn : n ≤ iterLimit) (hi : i < powNproofs) (hit : isSolution H (txHash H m) d m i n = true) :
    Solved H d (setNonce m i n) i := by
  have hlimit : iterLimit = 2^40 - 2 := rfl
  have hlt : n < 2^40 := by omega
  constructor
  · rw [storedNonce_setNonce hlt]
    exact hn
  · rw [storedNonce_setNonce hlt, txHash_setNonce H hlt hi, isSolution_setNonce H _ d hlt hi le_rfl]
    exact hit

/-- What a turn of the loop does. -/
lemma setProof_cases (hi : i < powNproofs) (hcall : setProof H (txHash H m) c d m i = (rc, m')) :
    KeepsBelow H d i m m' ∧ (rc = -2 ∨ rc = 1 ∨ rc = 0 ∧ Solved H d m' i) := by
  have hlimit : iterLimit = 2^40 - 2 := rfl
  have hend := @iterEnd_le (storedNonce m i) c
  have hstored := storedNonce_lt m i
  unfold setProof at hcall
  dsimp only at hcall
  generalize hnonce : firstHit (isSolution H (txHash H m) d m i) (storedNonce m i)
    (iterEnd (storedNonce m i) c + 1 - storedNonce m i) = nonce at hcall
  have hge : storedNonce m i ≤ nonce := hnonce ▸ le_firstHit
  have hle : nonce ≤ storedNonce m i + (iterEnd (storedNonce m i) c + 1 - storedNonce m i) := hnonce ▸ firstHit_le
  obtain ⟨rfl, rfl⟩ := Prod.mk.inj hcall
  refine ⟨keepsBelow_setNonce (by omega) hi, ?_⟩
  split_ifs with hlast hmore
  · exact Or.inl rfl
  · exact Or.inr (Or.inl rfl)
  · refine Or.inr (Or.inr ⟨rfl, solved_setNonce (not_lt.1 hlast) hi ?_⟩)
    rw [← hnonce]
    apply hit_firstHit
    rw [hnonce]
    omega

/-- The loop: where it ends with 0, all its proofs are solved. -/
lemma setProofs_cases (hcall : setProofs H txhash c d proofCount i result m = some (rc, m')) (hhash : txhash = txHash H m) :
    KeepsBelow H d i m m' ∧ (rc = 0 → result = 0 ∧ ∀ j, i ≤ j → j < i + proofCount → Solved H d m' j) := by
  induction proofCount generalizing i result m with
  | zero =>
    obtain ⟨rfl, rfl⟩ := Prod.mk.inj (Option.some.inj hcall)
    exact ⟨KeepsBelow.refl _, fun hrc => ⟨hrc, fun j hj hlt => by omega⟩⟩
  | succ proofCount ih =>
    rw [setProofs] at hcall
    split_ifs at hcall with hi
    obtain ⟨turn, m₁, hturn⟩ : ∃ turn m₁, setProof H txhash c d m i = (turn, m₁) := ⟨_, _, rfl⟩
    rw [hturn] at hcall
    dsimp only at hcall
    obtain ⟨hkeeps, hcases⟩ := setProof_cases (not_le.1 hi) (hhash ▸ hturn)
    split_ifs at hcall with hlast hmore
    · obtain ⟨rfl, rfl⟩ := Prod.mk.inj (Option.some.inj hcall)
      exact ⟨hkeeps, fun hrc => by omega⟩
    · obtain ⟨hrest, hzero⟩ := ih hcall (hhash.trans hkeeps.hash.symm)
      exact ⟨hkeeps.trans (hrest.mono (Nat.le_succ i)), fun hrc => absurd (hzero hrc).1 (by decide)⟩
    · obtain ⟨hrest, hzero⟩ := ih hcall (hhash.trans hkeeps.hash.symm)
      refine ⟨hkeeps.trans (hrest.mono (Nat.le_succ i)), fun hrc => ⟨(hzero hrc).1, fun j hj hlt => ?_⟩⟩
      obtain ⟨-, hsolved⟩ := (hcases.resolve_left hlast).resolve_left hmore
      rcases eq_or_lt_of_le hj with rfl | hlater
      · exact hrest.solved i (Nat.lt_succ_self i) hsolved
      · exact (hzero hrc).2 j hlater (by omega)

/-- A loop with one iteration over solved proofs. -/
lemma setProofs_of_solved (hi : i + proofCount ≤ powNproofs) (hsolved : ∀ j, i ≤ j → j < i + proofCount → Solved H d m j) :
    setProofs H (txHash H m) 1 d proofCount i 0 m = some (0, m) := by
  induction proofCount generalizing i with
  | zero => rfl
  | succ proofCount ih =>
    have hlimit : iterLimit = 2^40 - 2 := rfl
    have hs := hsolved i le_rfl (by omega)
    have hle := hs.le
    have hwindow := iterEnd_of_le (storedNonce_lt m i) Nat.one_pos (by omega)
    have hturn : setProof H (txHash H m) 1 d m i = (0, m) := by
      unfold setProof
      dsimp only
      rw [firstHit_of_hit hs.hit, if_neg (not_lt.2 hs.le), if_neg (by omega), setNonce_storedNonce]
    rw [setProofs, if_neg (by omega), hturn]
    exact ih (by omega) (fun j hj hlt => hsolved j (by omega) (by omega))

/-- A call whose proofs come after the ones that are solved. -/
lemma txSetWork_cases (hd : d ≠ 0) (hpow : HasPow m binsize)
    (hcall : txSetWork H i proofCount c d binsize m = some (rc, m')) :
    KeepsBelow H d i m m' ∧ (rc = 0 → ∀ j, i ≤ j → j < i + proofCount → Solved H d m' j) := by
  rw [txSetWork, if_neg (not_lt.2 hpow.fits), if_neg (not_lt.2 hpow.size), txSetWorkInternal, if_neg hd] at hcall
  obtain ⟨hkeeps, hzero⟩ := setProofs_cases hcall rfl
  exact ⟨hkeeps, fun hrc => (hzero hrc).2⟩

lemma searchCalls_keepsBelow (hd : d ≠ 0) (hpow : HasPow m binsize) {iterCounts : List ℕ}
    (hcalls : searchCalls H d binsize i proofCount m iterCounts = some m') : KeepsBelow H d i m m' := by
  induction iterCounts generalizing m with
  | nil =>
    obtain rfl := Option.some.inj hcalls
    exact KeepsBelow.refl _
  | cons c cs ih =>
    rw [searchCalls, List.foldlM_cons] at hcalls
    obtain ⟨m₁, hfirst, hrest⟩ := Option.bind_eq_some_iff.1 hcalls
    obtain ⟨⟨rc, _⟩, hcall, rfl⟩ := Option.map_eq_some_iff.1 hfirst
    obtain ⟨hkeeps, -⟩ := txSetWork_cases hd hpow hcall
    exact hkeeps.trans (ih (hkeeps.hasPow hpow) hrest)

/-- Calls that end with 0 one after the other solve all their proofs. -/
lemma SolvedTo.solved (hd : d ≠ 0) (hpow : HasPow m binsize) (h : SolvedTo H d binsize m i m') :
    HasPow m' binsize ∧ ∀ j < i, Solved H d m' j := by
  induction h with
  | start => exact ⟨hpow, fun j hj => absurd hj (Nat.not_lt_zero j)⟩
  | calls _ hcalls hcall ih =>
    obtain ⟨hpow₁, hsolved⟩ := ih
    have hkeeps := searchCalls_keepsBelow hd hpow₁ hcalls
    obtain ⟨hkeeps', hlast⟩ := txSetWork_cases hd (hkeeps.hasPow hpow₁) hcall
    have hall := hkeeps.trans hkeeps'
    refine ⟨hall.hasPow hpow₁, fun j hj => ?_⟩
    rcases lt_or_ge j _ with hlt | hge
    · exact hall.solved j hlt (hsolved j hlt)
    · exact hlast rfl j hge hj

/-- The check accepts what such calls have made, and leaves it as it is. -/
theorem txSetWorkInternal_of_solvedTo (hpow : HasPow m binsize) (h : SolvedTo H d binsize m powNproofs m') :
    txSetWorkInternal H (txHash H m') 0 powNproofs 1 d m' = some (0, m') := by
  unfold txSetWorkInternal
  split_ifs with hd
  · rfl
  · obtain ⟨-, hsolved⟩ := h.solved hd hpow
    exact setProofs_of_solved (by omega) (fun j _ hj => hsolved j (by omega))

end Verify

section Chunks
variable {H : PowHashes} {m m' : Memory} {i c d binsize : ℕ}

/-- Proof of work in pieces: calls that end with 0 pass the check; a call on an unsolved proof examines its number of
nonces, as far as there are any; the search may be split; and a caller that repeats the call comes to its end. -/
structure ChunkedWork (H : PowHashes) (d binsize : ℕ) (m : Memory) (proofIndex iterCount : ℕ) : Prop where
  verifies : ∀ m', SolvedTo H d binsize m powNproofs m' →
    txSetWorkInternal H (txHash H m') 0 powNproofs 1 d m' = some (0, m')
  examines : Unsolved H d m proofIndex → ∃ rc,
    txSetWork H proofIndex 1 iterCount d binsize m = some (rc, setNonce m proofIndex
      (firstHit (isSolution H (txHash H m) d m proofIndex) (storedNonce m proofIndex)
        (min iterCount (iterLimit + 1 - storedNonce m proofIndex))))
  splits : ∀ iterCounts : List ℕ, (∀ c ∈ iterCounts, 0 < c) → iterCounts.sum = iterCount →
    searchCalls H d binsize proofIndex 1 m iterCounts = searchCalls H d binsize proofIndex 1 m [iterCount]
  terminates : Unsolved H d m proofIndex → ∃ k m₁ rc m₂,
    searchCalls H d binsize proofIndex 1 m (List.replicate k iterCount) = some m₁ ∧
      txSetWork H proofIndex 1 iterCount d binsize m₁ = some (rc, m₂) ∧ rc ≤ 0

/-- Without a difficulty, calls change nothing. -/
lemma searchCalls_zero (hpow : HasPow m binsize) (iterCounts : List ℕ) :
    searchCalls H 0 binsize i 1 m iterCounts = some m := by
  induction iterCounts with
  | nil => rfl
  | cons c cs ih =>
    rw [searchCalls, List.foldlM_cons, txSetWork, if_neg (not_lt.2 hpow.fits), if_neg (not_lt.2 hpow.size), txSetWorkInternal,
      if_pos rfl, Option.map_some]
    exact ih

/-- Where there is nothing to search, calls change nothing. -/
lemma searchCalls_of_not_unsolved (hpow : HasPow m binsize) (hi : i < powNproofs) (hdone : ¬ Unsolved H d m i)
    (iterCounts : List ℕ) : searchCalls H d binsize i 1 m iterCounts = some m := by
  by_cases hd : d = 0
  · rw [hd]
    exact searchCalls_zero hpow iterCounts
  · have hhit : isSolution H (txHash H m) d m i (storedNonce m i) = true := by
      by_contra hmiss
      exact hdone ⟨hd, Bool.eq_false_of_not_eq_true hmiss⟩
    have hstays := searchCalls_stays hpow hi hd (storedNonce_lt m i) hhit iterCounts
    rwa [setNonce_storedNonce] at hstays

/-- A call whose sum goes beyond 64 bits examines nothing. -/
lemma not_examines (hpow : HasPow m binsize) (hi : i < powNproofs) (hc : 0 < c) (hc' : c < 2^64) (hu : Unsolved H d m i)
    (hle : storedNonce m i ≤ iterLimit) (hwrap : 2^64 < storedNonce m i + c) : ¬ ChunkedWork H d binsize m i c := by
  intro hwork
  have hs := storedNonce_lt m i
  obtain ⟨rc, nonce, hcall, hnonce, hsame, -⟩ := @txSetWork_setNonce H m i d binsize _ c hpow hi hu.1 hs
  obtain ⟨rc', hcall'⟩ := hwork.examines hu
  have hempty := iterEnd_lt_of_lt hle hc' hwrap
  rw [show iterEnd (storedNonce m i) c + 1 - storedNonce m i = 0 by omega] at hsame
  have hmove := lt_firstHit hu.2 (show 0 < min c (iterLimit + 1 - storedNonce m i) by omega)
  have hbound := @advance_lt _ c (isSolution H (txHash H m) d m i) hs
  rw [setNonce_storedNonce, hcall'] at hcall
  have hnonces := congrArg (fun m' => storedNonce m' i) (Prod.mk.inj (Option.some.inj hcall)).2
  rw [storedNonce_setNonce hnonce] at hnonces
  have hadvance := hnonces.symm.trans (storedNonce_setNonce (m := m) (i := i) hbound)
  rw [hsame] at hadvance
  exact hmove.ne hadvance

/-- Proof of work can be made in pieces and checked, exactly as long as no call on an unsolved proof asks for more nonces
than 64 bits can count from the stored one on. -/
theorem chunkedWork_iff (hpow : HasPow m binsize) (hi : i < powNproofs) (hc : 0 < c) (hc' : c < 2^64) :
    ChunkedWork H d binsize m i c ↔
      (Unsolved H d m i → storedNonce m i ≤ iterLimit → storedNonce m i + c ≤ 2^64) := by
  have hs := storedNonce_lt m i
  constructor
  · intro hwork hu hle
    by_contra hwrap
    exact not_examines hpow hi hc hc' hu hle (by omega) hwork
  · intro hfit
    refine ⟨fun m' h => txSetWorkInternal_of_solvedTo hpow h, fun hu => ?_, fun iterCounts hpos hsum => ?_, fun hu => ?_⟩
    · obtain ⟨rc, hcall, -⟩ := txSetWork_advance hpow hi hu.1 hs hc (hfit hu)
      rw [setNonce_storedNonce] at hcall
      exact ⟨rc, hcall⟩
    · by_cases hu : Unsolved H d m i
      · subst hsum
        have hpieces := searchCalls_advance (H := H) hpow hi hu.1 hpos hs (hfit hu)
        have hone := @searchCalls_advance H m i d binsize (storedNonce m i) hpow hi hu.1 [iterCounts.sum]
          (by simpa using hc) hs (by simpa using hfit hu)
        rw [setNonce_storedNonce] at hpieces hone
        rw [hpieces, hone, List.sum_singleton]
      · rw [searchCalls_of_not_unsolved hpow hi hu, searchCalls_of_not_unsolved hpow hi hu]
    · have hends := searchCalls_terminates (H := H) hpow hi hu.1 hs hc (hfit hu)
      rwa [setNonce_storedNonce] at hends

/-- A message of 56 bytes whose first nonce is 2. -/
def smallMessage : Memory := fun a => if a = 0 then 56 else if a = 16 then 2 else 0

/-- Hash functions whose hashes are all the same. -/
def constantHashes : PowHashes where
  blake2b := fun _ _ => 0
  siphash := fun _ _ _ => 2^63

lemma smallMessage_hasPow : HasPow smallMessage 56 := ⟨by decide, by decide⟩

theorem chunkedWork_smallMessage : ChunkedWork constantHashes 1 56 smallMessage 0 100 :=
  (chunkedWork_iff smallMessage_hasPow (by decide) (by decide) (by decide)).2 (fun _ _ => by decide)

/-- With 2^64 - 1 iterations from the nonce 2 on, the end of the window wraps to 0. -/
theorem not_chunkedWork_smallMessage : ¬ ChunkedWork constantHashes 1 56 smallMessage 0 (2^64 - 1) :=
  not_examines smallMessage_hasPow (by decide) (by decide) (by decide) ⟨by decide, by decide⟩ (by decide) (by decide)

end Chunks

end CredaCash.Wire
