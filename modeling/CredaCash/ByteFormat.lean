import CredaCash.BoundedReader
import Mathlib.Data.List.Basic

/-! What a reader makes of bytes that were written, and the bytes that a reader has read. -/

namespace BoundedReader
open Reader

/-- The first bytes of a number, the least significant first. -/
def leBytes : ℕ → ℕ → List UInt8
  | 0, _ => []
  | n+1, v => UInt8.ofNat v :: leBytes n (v / 256)

@[simp] theorem leBytes_length (n v : ℕ) : (leBytes n v).length = n := by
  induction n generalizing v with
  | zero => rfl
  | succ n ih => simp [leBytes, ih]

theorem leNat_leBytes {n v : ℕ} (h : v < 256^n) : leNat (leBytes n v) = v := by
  induction n generalizing v with
  | zero => simp [leBytes, leNat] at *; omega
  | succ n ih =>
    have hdiv : v / 256 < 256^n := by
      rw [Nat.pow_succ] at h
      exact Nat.div_lt_of_lt_mul (by omega)
    simp only [leBytes, leNat, ih hdiv, UInt8.toNat_ofNat']
    omega

theorem leBytes_leNat (bytes : List UInt8) : leBytes bytes.length (leNat bytes) = bytes := by
  induction bytes with
  | nil => rfl
  | cons b bs ih =>
    have hb : b.toNat < 256 := b.toNat_lt
    have hdiv : (b.toNat + 256 * leNat bs) / 256 = leNat bs := by omega
    have hmod : UInt8.ofNat (b.toNat + 256 * leNat bs) = b := by
      apply UInt8.toNat_inj.1
      rw [UInt8.toNat_ofNat']
      omega
    simp only [List.length_cons, leBytes, leNat, hdiv, hmod, ih]

lemma fieldAt_append (pre b post : List UInt8) (datasize : ℕ) :
    fieldAt (pre ++ (b ++ post)) pre.length datasize b.length = b ++ List.replicate (datasize - b.length) 0 := by
  rw [fieldAt, if_pos (by simp), bytesAt, List.drop_left, List.take_left]

variable {ε α β γ : Type} {modulus : ℕ}

/-- Wherever some bytes stand in a buffer, the reader reads exactly these and returns `a`. -/
def Parses (modulus : ℕ) (p : Reader ε α) (b : List UInt8) (a : α) : Prop :=
  ∀ pre post s, s.bufpos = pre.length → (pre ++ (b ++ post)).length < modulus →
    ∃ s', p (pre ++ (b ++ post)) s = (.ok a, s') ∧ s'.bufpos = pre.length + b.length

/-- Below the modulus the reader moves by at most `c` bytes. `Q` relates what it returns to the bytes that it has read,
which are those of the buffer when they are inside it. -/
def Consumes (modulus : ℕ) (p : Reader ε α) (c : ℕ) (Q : α → List UInt8 → Prop) : Prop :=
  ∀ buf s a s', s.bufpos = s.pos → s.pos + c < modulus → p buf s = (.ok a, s') →
    ∃ b, Q a b ∧ b.length ≤ c ∧ s'.pos = s.pos + b.length ∧ s'.bufpos = s'.pos ∧
      (s'.pos ≤ buf.length → buf.drop s.pos = b ++ buf.drop s'.pos)

section Parses

theorem parses_pure (a : α) : Parses modulus (pure a : Reader ε α) [] a := by
  intro pre post s hs _
  exact ⟨s, rfl, by simp [hs]⟩

theorem parses_bind {p : Reader ε α} {f : α → Reader ε β} {b b' : List UInt8} {a : α} {x : β}
    (hp : Parses modulus p b a) (hf : Parses modulus (f a) b' x) : Parses modulus (p >>= f) (b ++ b') x := by
  intro pre post s hs hlt
  have hbuf : pre ++ (b ++ b' ++ post) = pre ++ b ++ (b' ++ post) := by simp only [List.append_assoc]
  obtain ⟨s', hrun, hpos⟩ := hp pre (b' ++ post) s hs (by simpa using hlt)
  obtain ⟨s'', hrun', hpos'⟩ := hf (pre ++ b) post s' (by rw [hpos, List.length_append]) (by rw [← hbuf]; exact hlt)
  rw [← List.append_assoc pre] at hrun
  refine ⟨s'', ?_, ?_⟩
  · rw [hbuf, bind_ok hrun, hrun']
  · rw [hpos', List.length_append, List.length_append]
    omega

theorem parses_copy {datasize nbytes : ℕ} {b : List UInt8} (hb : b.length = nbytes) :
    Parses modulus (copy modulus datasize nbytes : Reader ε _) b (b ++ List.replicate (datasize - nbytes) 0) := by
  intro pre post s hs hlt
  simp only [List.length_append] at hlt
  have hmod : (s.bufpos + nbytes) % modulus = pre.length + b.length := by
    rw [hs, hb]
    exact Nat.mod_eq_of_lt (by omega)
  refine ⟨{ s with
    bufpos := (s.bufpos + nbytes) % modulus, pos := s.pos + nbytes,
    requests := ⟨datasize, nbytes, s.pos, true⟩ :: s.requests }, ?_, hmod⟩
  have hinside : pre.length + b.length ≤ (pre ++ (b ++ post)).length := by
    simp only [List.length_append]
    omega
  have hbytes : bytesAt (pre ++ (b ++ post)) s.bufpos datasize nbytes =
      b ++ List.replicate (datasize - nbytes) 0 := by
    simp only [bytesAt, hs, List.drop_left, ← hb, List.take_left]
  simp only [copy, hmod, decide_eq_true hinside, if_true, hbytes]

theorem parses_readIf {c : Prop} [Decidable c] {p : Reader ε α} {b : List UInt8} {a default : α}
    (hp : c → Parses modulus p b a) :
    Parses modulus (readIf c p default) (if c then b else []) (if c then a else default) := by
  unfold readIf
  split_ifs with h
  · exact hp h
  · exact parses_pure default

theorem parses_readIf_neg {c : Prop} [Decidable c] {p : Reader ε α} {default : α} (h : ¬ c) :
    Parses modulus (readIf c p default) [] default := by
  rw [readIf, if_neg h]
  exact parses_pure default

theorem parses_forIndices {p : ℕ → Reader ε α} {enc : γ → List UInt8} {dec : γ → α} {l : List γ} {i : ℕ}
    (hp : ∀ k (hk : k < l.length), Parses modulus (p (i + k)) (enc l[k]) (dec l[k])) :
    Parses modulus (forIndices p i l.length) (l.flatMap enc) (l.map dec) := by
  induction l generalizing i with
  | nil => exact parses_pure []
  | cons x l ih =>
    have hhead : Parses modulus (p i) (enc x) (dec x) := hp 0 (by simp)
    have htail : Parses modulus (forIndices p (i + 1) l.length) (l.flatMap enc) (l.map dec) := by
      apply ih
      intro k hk
      rw [Nat.add_assoc, Nat.add_comm 1 k]
      exact hp (k + 1) (Nat.succ_lt_succ hk)
    rw [List.flatMap_cons, List.map_cons, ← List.append_nil (l.flatMap enc)]
    exact parses_bind hhead (parses_bind htail (parses_pure _))

end Parses

section Consumes

theorem consumes_pure {a : α} {c : ℕ} {Q : α → List UInt8 → Prop} (h : Q a []) :
    Consumes modulus (pure a : Reader ε α) c Q := by
  intro buf s a' s' hs _ hrun
  cases hrun
  exact ⟨[], h, Nat.zero_le _, rfl, hs, fun _ => rfl⟩

theorem consumes_fail {e : ε} {c : ℕ} {Q : α → List UInt8 → Prop} :
    Consumes modulus (fail e : Reader ε α) c Q := by
  intro buf s a s' _ _ hrun
  cases hrun

theorem consumes_bind {p : Reader ε α} {f : α → Reader ε β} {c d : ℕ} {Q : α → List UInt8 → Prop}
    {R : β → List UInt8 → Prop} (hp : Consumes modulus p c Q)
    (hf : ∀ a b, Q a b → Consumes modulus (f a) d fun x b' => R x (b ++ b')) :
    Consumes modulus (p >>= f) (c + d) R := by
  intro buf s x s'' hs hlt hrun
  change Reader.bind p f buf s = _ at hrun
  unfold Reader.bind at hrun
  split at hrun
  · next a s' hpa =>
    obtain ⟨b, hb, hlen, hpos, hexact, hdrop⟩ := hp buf s a s' hs (by omega) hpa
    obtain ⟨b', hb', hlen', hpos', hexact', hdrop'⟩ := hf a b hb buf s' x s'' hexact (by omega) hrun
    refine ⟨b ++ b', hb', ?_, ?_, hexact', fun hin => ?_⟩
    · rw [List.length_append]
      omega
    · rw [List.length_append]
      omega
    · rw [hdrop (by omega), hdrop' hin, List.append_assoc]
  · cases hrun

theorem Consumes.mono {p : Reader ε α} {c d : ℕ} {Q R : α → List UInt8 → Prop} (hp : Consumes modulus p c Q)
    (hcd : c ≤ d) (hQR : ∀ a b, Q a b → R a b) : Consumes modulus p d R := by
  intro buf s a s' hs hlt hrun
  obtain ⟨b, hb, hlen, hrest⟩ := hp buf s a s' hs (by omega) hrun
  exact ⟨b, hQR a b hb, Nat.le_trans hlen hcd, hrest⟩

/-- A field after the end of the buffer counts as zeros. -/
theorem consumes_copy {datasize nbytes : ℕ} (h : nbytes ≤ datasize) :
    Consumes modulus (copy modulus datasize nbytes : Reader ε _) nbytes fun data b =>
      b.length = nbytes ∧ data = b ++ List.replicate (datasize - nbytes) 0 := by
  intro buf s data s' hs hlt hrun
  have hmod : (s.bufpos + nbytes) % modulus = s.pos + nbytes := by rw [hs, Nat.mod_eq_of_lt hlt]
  simp only [copy, hmod, decide_eq_true_eq, Prod.mk.injEq, Except.ok.injEq] at hrun
  obtain ⟨rfl, rfl⟩ := hrun
  by_cases hin : s.pos + nbytes ≤ buf.length
  · have hlen : ((buf.drop s.pos).take nbytes).length = nbytes := by
      rw [List.length_take, List.length_drop]
      omega
    refine ⟨(buf.drop s.pos).take nbytes, ⟨hlen, ?_⟩, Nat.le_of_eq hlen, ?_, rfl, fun _ => ?_⟩
    · rw [if_pos hin, bytesAt, hs, hlen]
    · dsimp only
      rw [hlen]
    · rw [← List.drop_drop, List.take_append_drop]
  · refine ⟨List.replicate nbytes 0, ⟨List.length_replicate, ?_⟩, Nat.le_of_eq List.length_replicate, ?_, rfl,
      fun hle => absurd hle hin⟩
    · rw [if_neg hin, List.replicate_append_replicate, Nat.add_sub_cancel' h]
    · dsimp only
      rw [List.length_replicate]

theorem consumes_readIf {c : Prop} [Decidable c] {p : Reader ε α} {n : ℕ} {default : α}
    {Q : α → List UInt8 → Prop} (hp : Consumes modulus p n Q) :
    Consumes modulus (readIf c p default) n fun a b => if c then Q a b else a = default ∧ b = [] := by
  unfold readIf
  split_ifs with h
  · exact hp
  · exact consumes_pure ⟨rfl, rfl⟩

theorem consumes_forIndices {p : ℕ → Reader ε α} {c i n : ℕ} {enc : α → List UInt8} {P : ℕ → α → Prop}
    (hp : ∀ j, i ≤ j → j < i + n → Consumes modulus (p j) c fun a b => b = enc a ∧ P j a) :
    Consumes modulus (forIndices p i n) (n * c) fun l b =>
      b = l.flatMap enc ∧ l.length = n ∧ ∀ k (hk : k < l.length), P (i + k) l[k] := by
  induction n generalizing i with
  | zero => exact consumes_pure ⟨rfl, rfl, fun k hk => absurd hk (Nat.not_lt_zero k)⟩
  | succ n ih =>
    have htail := ih (i := i + 1) fun j hj hjn => hp j (by omega) (by omega)
    rw [Nat.succ_mul, Nat.add_comm (n * c)]
    refine consumes_bind (hp i (Nat.le_refl i) (by omega)) fun a b hab => ?_
    rw [← Nat.add_zero (n * c)]
    refine consumes_bind htail fun l b' hl => consumes_pure ?_
    obtain ⟨rfl, hPa⟩ := hab
    obtain ⟨rfl, hlen, hPl⟩ := hl
    refine ⟨by simp, by simp [hlen], fun k hk => ?_⟩
    cases k with
    | zero => exact hPa
    | succ k =>
      have := hPl k (Nat.lt_of_succ_lt_succ hk)
      rwa [Nat.add_assoc, Nat.add_comm 1 k] at this

end Consumes

/-- Below the modulus the reader makes the same of two buffers that agree from its position on, and moves by at most
`c` bytes in both. -/
def Relocates (modulus : ℕ) (p : Reader ε α) (c : ℕ) : Prop :=
  ∀ pre pre' body k s s', s.bufpos = pre.length + k → s'.bufpos = pre'.length + k →
    pre.length + k + c < modulus → pre'.length + k + c < modulus →
    ∃ k', k' ≤ k + c ∧ (p (pre ++ body) s).1 = (p (pre' ++ body) s').1 ∧
      (p (pre ++ body) s).2.bufpos = pre.length + k' ∧ (p (pre' ++ body) s').2.bufpos = pre'.length + k'

section Relocates

theorem relocates_pure (a : α) : Relocates modulus (pure a : Reader ε α) 0 :=
  fun _ _ _ k _ _ hs hs' _ _ => ⟨k, Nat.le_refl _, rfl, hs, hs'⟩

theorem relocates_fail (e : ε) : Relocates modulus (fail e : Reader ε α) 0 :=
  fun _ _ _ k _ _ hs hs' _ _ => ⟨k, Nat.le_refl _, rfl, hs, hs'⟩

theorem Relocates.mono {p : Reader ε α} {c d : ℕ} (hp : Relocates modulus p c) (h : c ≤ d) : Relocates modulus p d := by
  intro pre pre' body k s s' hs hs' hlt hlt'
  obtain ⟨k', hk, hrest⟩ := hp pre pre' body k s s' hs hs' (by omega) (by omega)
  exact ⟨k', by omega, hrest⟩

theorem relocates_copy (datasize nbytes : ℕ) :
    Relocates modulus (copy modulus datasize nbytes : Reader ε _) nbytes := by
  intro pre pre' body k s s' hs hs' hlt hlt'
  have hmod : (s.bufpos + nbytes) % modulus = pre.length + (k + nbytes) := by
    rw [hs, Nat.mod_eq_of_lt (by omega), Nat.add_assoc]
  have hmod' : (s'.bufpos + nbytes) % modulus = pre'.length + (k + nbytes) := by
    rw [hs', Nat.mod_eq_of_lt (by omega), Nat.add_assoc]
  have hcopied : pre.length + (k + nbytes) ≤ (pre ++ body).length ↔
      pre'.length + (k + nbytes) ≤ (pre' ++ body).length := by
    rw [List.length_append, List.length_append]
    omega
  have hbytes : bytesAt (pre ++ body) s.bufpos datasize nbytes = bytesAt (pre' ++ body) s'.bufpos datasize nbytes := by
    have hdrop (l : List UInt8) : (l ++ body).drop (l.length + k) = body.drop k := by
      rw [← List.drop_drop, List.drop_left]
    unfold bytesAt
    rw [hs, hs', hdrop, hdrop]
  refine ⟨k + nbytes, Nat.le_refl _, ?_, hmod, hmod'⟩
  simp only [copy, hmod, hmod', hcopied, hbytes]

theorem relocates_bind {p : Reader ε α} {f : α → Reader ε β} {c d : ℕ} (hp : Relocates modulus p c)
    (hf : ∀ a, Relocates modulus (f a) d) : Relocates modulus (p >>= f) (c + d) := by
  intro pre pre' body k s s' hs hs' hlt hlt'
  obtain ⟨k', hk, hresult, hpos, hpos'⟩ := hp pre pre' body k s s' hs hs' (by omega) (by omega)
  rcases hrun : p (pre ++ body) s with ⟨_ | a, t⟩ <;> rcases hrun' : p (pre' ++ body) s' with ⟨_ | a', t'⟩ <;>
    rw [hrun, hrun'] at hresult <;> rw [hrun] at hpos <;> rw [hrun'] at hpos' <;> cases hresult
  · rw [bind_error hrun, bind_error hrun']
    exact ⟨k', by omega, rfl, hpos, hpos'⟩
  · rw [bind_ok hrun, bind_ok hrun']
    obtain ⟨k'', hk', hrest⟩ := hf a pre pre' body k' t t' hpos hpos' (by omega) (by omega)
    exact ⟨k'', by omega, hrest⟩

theorem relocates_ite {c : Prop} [Decidable c] {p q : Reader ε α} {n : ℕ} (hp : c → Relocates modulus p n)
    (hq : ¬ c → Relocates modulus q n) : Relocates modulus (if c then p else q) n := by
  split_ifs with h
  · exact hp h
  · exact hq h

theorem relocates_readIf {c : Prop} [Decidable c] {p : Reader ε α} {n : ℕ} (hp : Relocates modulus p n) (default : α) :
    Relocates modulus (readIf c p default) n :=
  relocates_ite (fun _ => hp) fun _ => (relocates_pure default).mono (Nat.zero_le n)

theorem relocates_forIndices {p : ℕ → Reader ε α} {c : ℕ} (hp : ∀ i, Relocates modulus (p i) c) (i n : ℕ) :
    Relocates modulus (forIndices p i n) (n * c) := by
  induction n generalizing i with
  | zero => exact (relocates_pure []).mono (Nat.zero_le _)
  | succ n ih =>
    rw [Nat.succ_mul, Nat.add_comm (n * c)]
    exact relocates_bind (hp i) fun a => relocates_bind (ih (i + 1)) fun rest => relocates_pure (a :: rest)

end Relocates

end BoundedReader
