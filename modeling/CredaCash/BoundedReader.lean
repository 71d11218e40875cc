import Mathlib.Algebra.Group.Nat.Defs
import Mathlib.Logic.Basic
import Mathlib.Data.Nat.Notation
import Mathlib.Tactic.SplitIfs

/-! Readers of a byte buffer whose position is a machine counter: every request is kept in a log
together with the position that an unbounded counter would have, so that a run can be asked
whether it stayed inside the buffer. -/

namespace BoundedReader

/-- One request for bytes: the size of its destination, the number of bytes, the position without
wrap-around, and whether bytes were copied. -/
structure Request where
  datasize : ℕ
  nbytes : ℕ
  pos : ℕ
  copied : Bool
  deriving DecidableEq

/-- The request fits its destination, and copies nothing from outside the buffer. -/
def Request.Safe (bufsize : ℕ) (r : Request) : Prop :=
  r.nbytes ≤ r.datasize ∧ (r.copied = true → r.pos + r.nbytes ≤ bufsize)

instance (bufsize : ℕ) (r : Request) : Decidable (r.Safe bufsize) :=
  inferInstanceAs (Decidable (_ ∧ _))

/-- The request asks for bytes after the end of the buffer. -/
def Request.Overruns (bufsize : ℕ) (r : Request) : Prop := bufsize < r.pos + r.nbytes

instance (bufsize : ℕ) (r : Request) : Decidable (r.Overruns bufsize) :=
  inferInstanceAs (Decidable (_ < _))

/-- The counter of a reader, its position without wrap-around, and its requests, newest first. -/
structure Cursor where
  bufpos : ℕ := 0
  pos : ℕ := 0
  requests : List Request := []

/-- A reader leaves a cursor whether it succeeds or fails. -/
def Reader (ε α : Type) : Type := List UInt8 → Cursor → Except ε α × Cursor

variable {ε α β : Type}

namespace Reader

protected def pure (a : α) : Reader ε α := fun _ s => (.ok a, s)

protected def bind (p : Reader ε α) (f : α → Reader ε β) : Reader ε β := fun buf s =>
  match p buf s with
  | (.ok a, s') => f a buf s'
  | (.error e, s') => (.error e, s')

instance : Monad (Reader ε) where
  pure := Reader.pure
  bind := Reader.bind

def fail (e : ε) : Reader ε α := fun _ s => (.error e, s)

def ofExcept (x : Except ε α) : Reader ε α := fun _ s => (x, s)

/-- Advances the counter without reading. -/
def skip (modulus n : ℕ) : Reader ε Unit := fun _ s =>
  (.ok (), { s with bufpos := (s.bufpos + n) % modulus, pos := s.pos + n })

/-- The counter. -/
def counter : Reader ε ℕ := fun _ s => (.ok s.bufpos, s)

/-- The size of the buffer. -/
def bufsize : Reader ε ℕ := fun buf s => (.ok buf.length, s)

/-- The bytes at a position, and zeros after the end of the buffer. -/
def bytesAt (buf : List UInt8) (pos datasize nbytes : ℕ) : List UInt8 :=
  let bytes := (buf.drop pos).take nbytes
  bytes ++ List.replicate (datasize - bytes.length) 0

/-- The bytes of a field that starts at `pos`; a field that ends after the buffer is all zeros. -/
def fieldAt (buf : List UInt8) (pos datasize nbytes : ℕ) : List UInt8 :=
  if pos + nbytes ≤ buf.length then bytesAt buf pos datasize nbytes else List.replicate datasize 0

/-- Copies bytes when the counter stays inside the buffer, and else fills the destination with
zeros and goes on. -/
def copy (modulus datasize nbytes : ℕ) : Reader ε (List UInt8) := fun buf s =>
  let bufpos := (s.bufpos + nbytes) % modulus
  let copied := decide (bufpos ≤ buf.length)
  (.ok (if copied then bytesAt buf s.bufpos datasize nbytes else List.replicate datasize 0),
    { bufpos := bufpos, pos := s.pos + nbytes, requests := ⟨datasize, nbytes, s.pos, copied⟩ :: s.requests })

/-- Reads a field that is only there under a condition. -/
def readIf (c : Prop) [Decidable c] (p : Reader ε α) (default : α) : Reader ε α :=
  if c then p else pure default

/-- Runs a reader once for each of `n` indices from `i` on. -/
def forIndices (p : ℕ → Reader ε α) : ℕ → ℕ → Reader ε (List α)
  | _, 0 => pure []
  | i, n+1 => do
    let a ← p i
    let rest ← forIndices p (i+1) n
    return a :: rest

theorem bind_ok {p : Reader ε α} {f : α → Reader ε β} {buf : List UInt8} {s s' : Cursor} {a : α}
    (h : p buf s = (.ok a, s')) : (p >>= f) buf s = f a buf s' := by
  change Reader.bind p f buf s = _
  simp [Reader.bind, h]

theorem bind_error {p : Reader ε α} {f : α → Reader ε β} {buf : List UInt8} {s s' : Cursor} {e : ε}
    (h : p buf s = (.error e, s')) : (p >>= f) buf s = (.error e, s') := by
  change Reader.bind p f buf s = _
  simp [Reader.bind, h]

theorem bind_congr {p q : Reader ε α} {f : α → Reader ε β} {buf : List UInt8} {s s' : Cursor}
    (h : p buf s = q buf s') : (p >>= f) buf s = (q >>= f) buf s' := by
  change Reader.bind p f buf s = Reader.bind q f buf s'
  simp [Reader.bind, h]

/-- Whatever a reader reads, its result has a property. -/
def Ensures (p : Reader ε α) (post : α → Prop) : Prop := ∀ buf s a s', p buf s = (.ok a, s') → post a

theorem Ensures.pure {a : α} {post : α → Prop} (h : post a) : (Pure.pure a : Reader ε α).Ensures post := by
  intro buf s a' s' heq
  cases heq
  exact h

theorem Ensures.fail {e : ε} {post : α → Prop} : (Reader.fail e).Ensures post := by
  intro buf s a s' heq
  cases heq

theorem Ensures.bind (mid : α → Prop) {p : Reader ε α} {f : α → Reader ε β} {post : β → Prop} (hp : p.Ensures mid)
    (hf : ∀ a, mid a → (f a).Ensures post) : (p >>= f).Ensures post := by
  intro buf s b s' h
  change Reader.bind p f buf s = _ at h
  unfold Reader.bind at h
  split at h
  · next a s'' hpa => exact hf a (hp buf s a s'' hpa) buf s'' b s' h
  · cases h

theorem Ensures.next {p : Reader ε α} {f : α → Reader ε β} {post : β → Prop} (hf : ∀ a, (f a).Ensures post) :
    (p >>= f).Ensures post :=
  .bind (fun _ => True) (fun _ _ _ _ _ => trivial) fun a _ => hf a

theorem Ensures.ite {c : Prop} [Decidable c] {p q : Reader ε α} {post : α → Prop} (hp : c → p.Ensures post)
    (hq : ¬ c → q.Ensures post) : (if c then p else q).Ensures post := by
  split_ifs with h
  · exact hp h
  · exact hq h

theorem Ensures.forIndices {p : ℕ → Reader ε α} {post : α → Prop} (hp : ∀ i, (p i).Ensures post) (i n : ℕ) :
    (forIndices p i n).Ensures fun l => ∀ a ∈ l, post a := by
  induction n generalizing i with
  | zero => exact .pure fun a ha => by cases ha
  | succ n ih =>
    refine .bind post (hp i) fun a ha => .bind (fun l => ∀ a ∈ l, post a) (ih (i+1)) fun l hl => .pure ?_
    intro b hb
    cases hb with
    | head => exact ha
    | tail _ hb => exact hl b hb

end Reader

open Reader

/-- Little-endian value of bytes. -/
def leNat : List UInt8 → ℕ
  | [] => 0
  | b :: bs => b.toNat + 256 * leNat bs

theorem leNat_lt (bytes : List UInt8) : leNat bytes < 256^bytes.length := by
  induction bytes with
  | nil => simp [leNat]
  | cons b bs ih =>
    have hb : b.toNat < 256 := b.toNat_lt
    simp only [leNat, List.length_cons, Nat.pow_succ]
    omega

theorem leNat_zeros (n : ℕ) : leNat (List.replicate n 0) = 0 := by
  induction n with
  | zero => rfl
  | succ n ih => simp [leNat, List.replicate_succ, ih]

theorem leNat_append_zeros (bytes : List UInt8) (n : ℕ) :
    leNat (bytes ++ List.replicate n 0) = leNat bytes := by
  induction bytes with
  | nil => simp [leNat, leNat_zeros]
  | cons b bs ih => simp [leNat, ih]

/-- A field of one byte holds less than 256, whatever its destination. -/
theorem leNat_fieldAt_one_lt (buf : List UInt8) (pos datasize : ℕ) :
    leNat (fieldAt buf pos datasize 1) < 256 := by
  unfold fieldAt bytesAt
  split_ifs
  · rw [leNat_append_zeros]
    refine Nat.lt_of_lt_of_le (leNat_lt _) ?_
    have : ((buf.drop pos).take 1).length ≤ 1 := by
      rw [List.length_take]
      exact Nat.min_le_left ..
    exact Nat.pow_le_pow_right (by decide) this
  · simp [leNat_zeros]

/-- The bytes of a field inside the buffer are those of the buffer. -/
theorem bytesAt_take {buf : List UInt8} {pos datasize nbytes : ℕ} (h : pos + nbytes ≤ buf.length) :
    (bytesAt buf pos datasize nbytes).take nbytes = (buf.drop pos).take nbytes := by
  have hlen : ((buf.drop pos).take nbytes).length = nbytes := by
    rw [List.length_take, List.length_drop]
    omega
  unfold bytesAt
  dsimp only
  rw [List.take_append_of_le_length (Nat.le_of_eq hlen.symm), List.take_of_length_le (Nat.le_of_eq hlen)]

/-- The counter has not wrapped, and every request so far was safe and lies before it. -/
structure Cursor.Exact (buf : List UInt8) (s : Cursor) : Prop where
  counter : s.bufpos = s.pos
  safe : ∀ r ∈ s.requests, r.Safe buf.length
  before : ∀ r ∈ s.requests, r.pos + r.nbytes ≤ s.pos

theorem exact_start (buf : List UInt8) : Cursor.Exact buf {} where
  counter := rfl
  safe := by simp
  before := by simp

theorem Cursor.Exact.not_overruns {buf : List UInt8} {s : Cursor} (h : s.Exact buf)
    (hpos : s.pos ≤ buf.length) : ∀ r ∈ s.requests, ¬ r.Overruns buf.length := by
  intro r hr
  have := h.before r hr
  unfold Request.Overruns
  omega

variable {modulus : ℕ}

/-- From an exact cursor a copy returns the field at its position, and stays exact when the field
fits its destination. -/
theorem copy_eq {buf : List UInt8} {s : Cursor} (hs : s.Exact buf) {datasize nbytes : ℕ}
    (hlt : s.pos + nbytes < modulus) : ∃ s', (copy modulus datasize nbytes : Reader ε _) buf s =
      (.ok (fieldAt buf s.pos datasize nbytes), s') ∧ s'.pos = s.pos + nbytes ∧ s'.bufpos = s'.pos ∧
      s'.requests = ⟨datasize, nbytes, s.pos, decide (s.pos + nbytes ≤ buf.length)⟩ :: s.requests := by
  refine ⟨⟨s.pos + nbytes, s.pos + nbytes, _⟩, ?_, rfl, rfl, rfl⟩
  simp only [copy, fieldAt, hs.counter, Nat.mod_eq_of_lt hlt, decide_eq_true_eq]

theorem Cursor.Exact.copy {buf : List UInt8} {s s' : Cursor} (hs : s.Exact buf) {datasize nbytes : ℕ}
    (hfit : nbytes ≤ datasize) (hpos : s'.pos = s.pos + nbytes) (hcounter : s'.bufpos = s'.pos)
    (hreq : s'.requests =
      ⟨datasize, nbytes, s.pos, decide (s.pos + nbytes ≤ buf.length)⟩ :: s.requests) : s'.Exact buf := by
  refine ⟨hcounter, ?_, ?_⟩
  · intro r hr
    rw [hreq] at hr
    rcases List.mem_cons.1 hr with rfl | hr
    · exact ⟨hfit, fun hcopied => by simpa using hcopied⟩
    · exact hs.safe r hr
  · intro r hr
    rw [hreq] at hr
    rw [hpos]
    rcases List.mem_cons.1 hr with rfl | hr
    · exact Nat.le_refl _
    · exact Nat.le_trans (hs.before r hr) (Nat.le_add_right _ _)

/-- Below the modulus the reader succeeds, moves an exact cursor by exactly `c` bytes and keeps it
exact. -/
def Takes (modulus : ℕ) (p : Reader ε α) (c : ℕ) : Prop :=
  ∀ buf s, Cursor.Exact buf s → s.pos + c < modulus →
    ∃ a s', p buf s = (.ok a, s') ∧ s'.Exact buf ∧ s'.pos = s.pos + c

/-- Below the modulus the reader keeps an exact cursor exact and moves it by at most `c` bytes; what
it returns satisfies `Q`. -/
def Reads (modulus : ℕ) (p : Reader ε α) (c : ℕ) (Q : α → Prop) : Prop :=
  ∀ buf s, Cursor.Exact buf s → s.pos + c < modulus →
    (p buf s).2.Exact buf ∧ (p buf s).2.pos ≤ s.pos + c ∧ ∀ a, (p buf s).1 = .ok a → Q a

section Takes

theorem takes_pure (a : α) : Takes modulus (pure a : Reader ε α) 0 :=
  fun _ s hs _ => ⟨a, s, rfl, hs, rfl⟩

theorem takes_copy {datasize nbytes : ℕ} (h : nbytes ≤ datasize) :
    Takes modulus (copy modulus datasize nbytes : Reader ε _) nbytes := by
  intro buf s hs hlt
  obtain ⟨s', hrun, hpos, hcounter, hreq⟩ : ∃ s', (copy modulus datasize nbytes : Reader ε _) buf s = _ ∧ _ :=
    copy_eq hs hlt
  exact ⟨_, s', hrun, hs.copy h hpos hcounter hreq, hpos⟩

theorem takes_skip (n : ℕ) : Takes modulus (skip modulus n : Reader ε Unit) n := by
  intro buf s hs hlt
  refine ⟨(), _, rfl, ⟨?_, hs.safe, fun r hr => ?_⟩, rfl⟩
  · simp only [hs.counter, Nat.mod_eq_of_lt hlt]
  · exact Nat.le_trans (hs.before r hr) (Nat.le_add_right _ _)

theorem takes_bind {p : Reader ε α} {f : α → Reader ε β} {c d : ℕ} (hp : Takes modulus p c)
    (hf : ∀ a, Takes modulus (f a) d) : Takes modulus (p >>= f) (c + d) := by
  intro buf s hs hlt
  obtain ⟨a, s', hrun, hs', hpos⟩ := hp buf s hs (by omega)
  obtain ⟨b, s'', hrun', hs'', hpos'⟩ := hf a buf s' hs' (by omega)
  exact ⟨b, s'', by rw [bind_ok hrun, hrun'], hs'', by omega⟩

theorem Takes.cast {p : Reader ε α} {c d : ℕ} (hp : Takes modulus p c) (h : c = d) :
    Takes modulus p d := h ▸ hp

theorem takes_readIf {c : Prop} [Decidable c] {p : Reader ε α} {n : ℕ} (hp : Takes modulus p n)
    (default : α) : Takes modulus (readIf c p default) (if c then n else 0) := by
  unfold readIf
  split_ifs
  · exact hp
  · exact takes_pure default

theorem takes_forIndices {p : ℕ → Reader ε α} {c i n : ℕ}
    (hp : ∀ j, i ≤ j → j < i + n → Takes modulus (p j) c) : Takes modulus (forIndices p i n) (n * c) := by
  induction n generalizing i with
  | zero => simpa [forIndices] using takes_pure ([] : List α)
  | succ n ih =>
    have hrest : Takes modulus (forIndices p (i+1) n) (n * c) :=
      ih fun j hj hjn => hp j (by omega) (by omega)
    have hstep := takes_bind (hp i (Nat.le_refl _) (by omega)) fun a =>
      takes_bind hrest fun rest => takes_pure (a :: rest)
    rw [Nat.succ_mul, Nat.add_comm (n * c) c]
    exact hstep

end Takes

section Reads

theorem Takes.reads {p : Reader ε α} {c : ℕ} (hp : Takes modulus p c) :
    Reads modulus p c fun _ => True := by
  intro buf s hs hlt
  obtain ⟨a, s', hrun, hs', hpos⟩ := hp buf s hs hlt
  rw [hrun]
  exact ⟨hs', Nat.le_of_eq hpos, fun _ _ => trivial⟩

theorem reads_fail (e : ε) (c : ℕ) (Q : α → Prop) : Reads modulus (fail e : Reader ε α) c Q :=
  fun _ _ hs _ => ⟨hs, Nat.le_add_right _ _, fun _ h => by cases h⟩

theorem reads_ofExcept (x : Except ε α) : Reads modulus (ofExcept x) 0 fun _ => True :=
  fun _ _ hs _ => ⟨hs, Nat.le_refl _, fun _ _ => trivial⟩

theorem reads_mono {p : Reader ε α} {c d : ℕ} {Q : α → Prop} (hp : Reads modulus p c Q) (h : c ≤ d) :
    Reads modulus p d fun _ => True := by
  intro buf s hs hlt
  obtain ⟨hexact, hle, -⟩ := hp buf s hs (by omega)
  exact ⟨hexact, by omega, fun _ _ => trivial⟩

theorem reads_bind {p : Reader ε α} {f : α → Reader ε β} {c d : ℕ} {Q : α → Prop} {R : β → Prop}
    (hp : Reads modulus p c Q) (hf : ∀ a, Q a → Reads modulus (f a) d R) :
    Reads modulus (p >>= f) (c + d) R := by
  intro buf s hs hlt
  obtain ⟨hexact, hle, hpost⟩ := hp buf s hs (by omega)
  rcases hrun : p buf s with ⟨_ | a, s'⟩
  · rw [hrun] at hexact hle
    rw [bind_error hrun]
    exact ⟨hexact, Nat.le_trans hle (by omega), fun _ h => by cases h⟩
  · rw [hrun] at hexact hle hpost
    rw [bind_ok hrun]
    obtain ⟨hexact', hle', hpost'⟩ := hf a (hpost a rfl) buf s' hexact (by simp only at hle; omega)
    exact ⟨hexact', by simp only at hle; omega, hpost'⟩

theorem reads_ite {c : Prop} [Decidable c] {p q : Reader ε α} {n : ℕ} {Q : α → Prop}
    (hp : Reads modulus p n Q) (hq : Reads modulus q n Q) : Reads modulus (if c then p else q) n Q := by
  split_ifs
  · exact hp
  · exact hq

end Reads

end BoundedReader
