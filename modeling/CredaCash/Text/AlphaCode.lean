import Mathlib.Data.Nat.Bitwise
import Mathlib.Data.Nat.Log
import Mathlib.Tactic.IntervalCases
import CredaCash.RangeCoder

/-! The text codec: strings over the alphabet of a table are range coded into bytes. The registers are
`uint64_t` and hold 56 bits. -/

namespace CredaCash.Text
open RangeCoder

/-- What can end a call other than by a return; the loops are given more turns than they take, and
`unfinished` says that they were not enough. -/
inductive Halt
  | assertion
  | divisionByZero
  | unfinished
  deriving DecidableEq

/-- `cc_table_mod`. -/
def tableMod (table : List ℕ) : ℕ :=
  let mod := table.getD 0 0
  if mod = 0 then 256 else mod

/-- `cc_stringify_byte`. -/
def stringifyByte (table : List ℕ) (c : ℕ) : Except Halt ℕ :=
  if tableMod table ≤ c then .error .assertion else .ok (table.getD (c + 3) 0)

/-- `cc_destringify_char`; 255 stands for a character that is not a symbol. -/
def destringifyChar (table : List ℕ) (c : UInt8) : ℕ :=
  if c.toNat < table.getD 1 0 ∨ table.getD 2 0 < c.toNat then 255
  else table.getD (c.toNat - table.getD 1 0 + 3) 0

/-- `CC_ENC_SHIFT`, `CC_ENC_LOWER`, `CC_ENC_UPPER` and `CC_ENC_MAX`. -/
def encShift : ℕ := 8*8 - 8 - 7 - 1

def encLower : ℕ := 1 <<< encShift - 1

def encUpper : ℕ := (2^64 - 1) ^^^ encLower

def encMax : ℕ := 1 <<< encShift <<< 8

def rangeCheck (v : ℕ) : Except Halt Unit := if v < encMax <<< 7 then .ok () else .error .assertion

/-- The condition of the inner loops. -/
def MustShift (mod hval lval : ℕ) : Prop :=
  (hval ^^^ lval) &&& encUpper = 0 ∨ hval < (lval + mod - 1) % 2^64

instance (mod hval lval : ℕ) : Decidable (MustShift mod hval lval) := inferInstanceAs (Decidable (_ ∨ _))

/-- A register after the shift that makes room for a byte. -/
def shiftIn (v b : ℕ) : ℕ := ((v &&& encLower) <<< 8) ||| b

/-- The interval of symbol `c`, as `hval` and `lval`. -/
def narrowTo (mod hval lval c : ℕ) : ℕ × ℕ :=
  let denom := (hval + 2^64 - lval + 1) % 2^64
  ((lval + ((c + 1) * denom + mod - 1) % 2^64 / mod + 2^64 - 1) % 2^64,
    (lval + (c * denom + mod - 1) % 2^64 / mod) % 2^64)

structure EncodeState where
  bufpos : ℕ
  hval : ℕ
  lval : ℕ
  eofm : ℕ
  outv : List UInt8

/-- The inner loop of `cc_alpha_encode`; the second component is `done`. -/
def encodeShift (mod nchars : ℕ) : ℕ → EncodeState → Except Halt (EncodeState × Bool)
  | 0, _ => .error .unfinished
  | fuel+1, st =>
    if MustShift mod st.hval st.lval then do
      let b := st.lval >>> encShift
      let st := { st with
        outv := st.outv ++ [UInt8.ofNat b], hval := shiftIn st.hval 255, lval := shiftIn st.lval 0 }
      rangeCheck st.hval
      if st.bufpos = nchars then
        let eofm := (st.eofm <<< 8 ||| 255) % 2^64
        -- all bits of the next byte would be from the end of message
        if (eofm >>> encShift) &&& 255 = 255 then .ok ({ st with eofm := eofm }, true)
        else encodeShift mod nchars fuel { st with eofm := eofm }
      else encodeShift mod nchars fuel st
    else .ok (st, false)

/-- The outer loop of `cc_alpha_encode`; `none` is the return value -1. -/
def encodeLoop (table : List ℕ) (data : List UInt8) : ℕ → EncodeState → Except Halt (Option (List UInt8))
  | 0, _ => .error .unfinished
  | fuel+1, st =>
    let mod := tableMod table
    let c := match data[st.bufpos]? with
      | some sym => destringifyChar table sym
      | none => mod / 2     -- a phantom symbol
    let bufpos := if st.bufpos < data.length then st.bufpos + 1 else st.bufpos
    if c = 255 then .ok none
    else do
      let (hval, lval) := narrowTo mod st.hval st.lval c
      rangeCheck hval
      let (st, done) ← encodeShift mod data.length 8 { st with bufpos := bufpos, hval := hval, lval := lval }
      if done then .ok (some st.outv) else encodeLoop table data fuel st

/-- `cc_alpha_encode`, by the bytes that it appends to `outv`. -/
def alphaEncode (table : List ℕ) (data : List UInt8) : Except Halt (Option (List UInt8)) :=
  if data = [] then .ok (some [])
  else if tableMod table = 256 then .ok (some data)
  else do
    rangeCheck (encMax - 1)
    encodeLoop table data (data.length + 512) ⟨0, encMax - 1, 0, 0, []⟩

structure DecodeState where
  bufpos : ℕ
  hval : ℕ
  dval : ℕ
  lval : ℕ

/-- The byte at a position, or the midpoint for a phantom byte. -/
def inputByte (buf : List UInt8) (bufpos : ℕ) : ℕ :=
  match buf[bufpos]? with
  | some b => b.toNat
  | none => 128

/-- The inner loop of `cc_alpha_decode`; the counter is `unsigned`. -/
def decodeShift (mod : ℕ) (buf : List UInt8) : ℕ → DecodeState → Except Halt DecodeState
  | 0, _ => .error .unfinished
  | fuel+1, st =>
    if MustShift mod st.hval st.lval then do
      let st := {
        bufpos := (st.bufpos + 1) % 2^32
        hval := shiftIn st.hval 255
        dval := shiftIn st.dval (inputByte buf st.bufpos)
        lval := shiftIn st.lval 0 : DecodeState }
      rangeCheck st.hval
      decodeShift mod buf fuel st
    else .ok st

/-- The rest of a turn of the outer loop: a symbol is extracted. -/
def decodeSymbol (table : List ℕ) (st : DecodeState) : Except Halt (ℕ × DecodeState) :=
  let mod := tableMod table
  let denom := (st.hval + 2^64 - st.lval + 1) % 2^64
  if denom = 0 then .error .divisionByZero
  else do
    let c := ((st.dval + 2^64 - st.lval) % 2^64 * mod) % 2^64 / denom
    let (hval, lval) := narrowTo mod st.hval st.lval c
    let out ← stringifyByte table (c % 2^8)
    rangeCheck hval
    .ok (out, { st with hval := hval, lval := lval })

/-- The outer loop, by the number of symbols that are still asked for. -/
def decodeLoop (table : List ℕ) (buf : List UInt8) : ℕ → DecodeState → Except Halt (List UInt8)
  | 0, _ => .ok []
  | nchars+1, st => do
    let st ← decodeShift (tableMod table) buf 8 st
    let (out, st) ← decodeSymbol table st
    let outs ← decodeLoop table buf nchars st
    .ok (UInt8.ofNat out :: outs)

/-- `cc_alpha_decode`, which sets `outs`. -/
def alphaDecode (table : List ℕ) (buf : List UInt8) (nchars : ℕ) : Except Halt (List UInt8) :=
  if buf = [] ∨ nchars = 0 then .ok []
  else if tableMod table = 256 then .ok (buf.take nchars)
  else decodeLoop table buf nchars ⟨0, 0, 0, 0⟩

/-- The registers of a table: seven bytes. -/
def registers (mod : ℕ) (h2 : 2 ≤ mod) (h255 : mod ≤ 255) : Params := ⟨256, 7, mod, h2, by omega, by norm_num⟩

/-- The symbol that stands for nothing. -/
def phantom (mod : ℕ) (h2 : 2 ≤ mod) (h255 : mod ≤ 255) : Fin (registers mod h2 h255).m :=
  ⟨mod / 2, Nat.div_lt_self (by omega) (by norm_num)⟩

section Bits

lemma encLower_eq : encLower = 2^48 - 1 := rfl

lemma encMax_eq : encMax = 2^56 := rfl

lemma rangeCheck_of_lt {v : ℕ} (h : v < 2^56) : rangeCheck v = .ok () :=
  if_pos (h.trans (by decide))

lemma shiftIn_eq {v b : ℕ} (hb : b < 256) : shiftIn v b = v % 2^48 * 256 + b := by
  rw [shiftIn, encLower_eq, Nat.and_two_pow_sub_one_eq_mod, ← Nat.shiftLeft_add_eq_or_of_lt (i := 8) hb, Nat.shiftLeft_eq]

lemma upper_eq_zero_iff {h l : ℕ} (hh : h < 2^64) (hl : l < 2^64) :
    (h ^^^ l) &&& encUpper = 0 ↔ h / 2^48 = l / 2^48 := by
  have hx : h ^^^ l < 2^64 := Nat.xor_lt_two_pow hh hl
  have hupper : encUpper = (2^16 - 1) <<< 48 := by decide
  have hand : (h ^^^ l) &&& encUpper = ((h ^^^ l) >>> 48) <<< 48 := by
    apply Nat.eq_of_testBit_eq
    intro i
    rw [hupper, Nat.testBit_and, Nat.testBit_shiftLeft, Nat.testBit_shiftLeft, Nat.testBit_shiftRight,
      Nat.testBit_two_pow_sub_one]
    rcases Nat.lt_or_ge i 48 with hlow | hhigh
    · simp [hlow.not_ge]
    · rw [Nat.add_sub_cancel' hhigh]
      rcases Nat.lt_or_ge i 64 with hin | hout
      · simp [hhigh, show i - 48 < 16 by omega]
      · have hbit : (h ^^^ l).testBit i = false :=
          Nat.testBit_lt_two_pow (hx.trans_le (Nat.pow_le_pow_right (by norm_num) hout))
        simp [hbit]
  rw [hand, Nat.shiftLeft_eq_zero_iff, Nat.shiftRight_xor_distrib, Nat.xor_eq_zero_iff, Nat.shiftRight_eq_div_pow,
    Nat.shiftRight_eq_div_pow]

end Bits

section Registers
variable {mod : ℕ} {h2 : 2 ≤ mod} {h255 : mod ≤ 255}

lemma pow_p : (registers mod h2 h255).b ^ (registers mod h2 h255).p = 2^56 := by
  change 256^7 = _
  norm_num

lemma pow_pred_p : (registers mod h2 h255).b ^ ((registers mod h2 h255).p - 1) = 2^48 := by
  change 256^(7 - 1) = _
  norm_num

lemma mustShift_iff {h l : ℕ} (hh : h < 2^56) (hl : l < 2^56) :
    MustShift mod h l ↔ Narrow (registers mod h2 h255) l h := by
  have hwrap : (l + mod - 1) % 2^64 = l + mod - 1 := Nat.mod_eq_of_lt (by omega)
  have hwidth : h < l + mod - 1 ↔ h + 1 < l + mod := by omega
  rw [MustShift, upper_eq_zero_iff (by omega) (by omega), hwrap, hwidth, Narrow, pow_pred_p]
  rfl

variable (I : Interval (registers mod h2 h255))

lemma shiftIn_slide {ds : List ℕ} (hds : ∀ d ∈ ds, d < 256) (hlen : ds.length < 7) (x : ℕ) {d : ℕ} (hd : d < 256) :
    shiftIn ((registers mod h2 h255).slide x ds) d = (registers mod h2 h255).slide x (ds ++ [d]) := by
  rw [Params.slide_concat (P := registers mod h2 h255) hds hlen, pow_pred_p, shiftIn_eq hd]
  rfl

lemma loAt_lt {k : ℕ} (hk : k ≤ 7) : I.loAt k < 2^56 := by
  have h := @Params.slide_lt (registers mod h2 h255) (List.replicate k 0)
    (fun d hd => by rw [List.eq_of_mem_replicate hd]; exact Params.b_pos _)
    (by rw [List.length_replicate]; exact hk) I.lo
  rw [pow_p] at h
  exact h

lemma hiAt_lt {k : ℕ} (hk : k ≤ 7) : I.hiAt k < 2^56 := by
  have h := @Params.slide_lt (registers mod h2 h255) (List.replicate k 255)
    (fun d hd => by rw [List.eq_of_mem_replicate hd]; exact (by norm_num : 255 < 256))
    (by rw [List.length_replicate]; exact hk) I.hi
  rw [pow_p] at h
  exact h

lemma shiftIn_loAt {k : ℕ} (hk : k < 7) : shiftIn (I.loAt k) 0 = I.loAt (k + 1) := by
  rw [Interval.loAt, shiftIn_slide (fun d hd => by rw [List.eq_of_mem_replicate hd]; norm_num) (by simpa using hk) _
    (by norm_num), ← List.replicate_succ']
  rfl

lemma shiftIn_hiAt {k : ℕ} (hk : k < 7) : shiftIn (I.hiAt k) 255 = I.hiAt (k + 1) := by
  change shiftIn (Params.slide _ I.hi (List.replicate k 255)) 255 = Params.slide _ I.hi (List.replicate (k + 1) 255)
  rw [shiftIn_slide (fun d hd => by rw [List.eq_of_mem_replicate hd]; norm_num) (by simpa using hk) _
    (by norm_num), ← List.replicate_succ']

lemma mustShift_of_lt {k : ℕ} (hk : k < I.shifts) : MustShift mod (I.hiAt k) (I.loAt k) := by
  have hshifts : I.shifts ≤ 7 := I.shifts_le
  exact (mustShift_iff (hiAt_lt I (by omega)) (loAt_lt I (by omega))).2 (I.narrow_of_lt hk)

lemma not_mustShift_shifts : ¬MustShift mod (I.hiAt I.shifts) (I.loAt I.shifts) := fun h =>
  I.not_narrow_shifts ((mustShift_iff (hiAt_lt I I.shifts_le) (loAt_lt I I.shifts_le)).1 h)

variable (S : Settled (registers mod h2 h255))

lemma hi_lt : S.hi < 2^56 := @pow_p mod h2 h255 ▸ S.lt

lemma denom_eq : (S.hi + 2^64 - S.lo + 1) % 2^64 = S.width := by
  have hlt := hi_lt S
  have hle := S.le
  unfold Settled.width
  omega

/-- No part of the arithmetic wraps around. -/
lemma narrowTo_eq (c : Fin (registers mod h2 h255).m) :
    narrowTo mod S.hi S.lo c = ((S.narrow c).hi, (S.narrow c).lo) := by
  have hwidth : S.width ≤ 2^56 := by
    have hlt := hi_lt S
    unfold Settled.width
    omega
  have part {n : ℕ} (hn : n ≤ 255) : (n * S.width + mod - 1) % 2^64 = n * S.width + mod - 1 := by
    have hmul : n * S.width ≤ 255 * 2^56 := Nat.mul_le_mul hn hwidth
    exact Nat.mod_eq_of_lt (by omega)
  have hc : (c : ℕ) < mod := c.isLt
  have hstart : S.start (c + 1) = ((c + 1) * S.width + mod - 1) / mod := rfl
  have hsub := S.narrow_subset c
  have hle := (S.narrow c).le
  have hlt := hi_lt S
  have hpos : 0 < S.start (c + 1) := lt_of_le_of_lt (Nat.zero_le _) (S.start_lt_succ c)
  simp only [Settled.narrow] at hsub hle
  rw [narrowTo]
  simp only [denom_eq, part (by omega : (c : ℕ) + 1 ≤ 255), part (by omega : (c : ℕ) ≤ 255)]
  rw [← hstart, show (c * S.width + mod - 1) / mod = S.start c from rfl]
  simp only [Settled.narrow, Prod.mk.injEq]
  omega

end Registers

section Decode
variable {mod : ℕ} {h2 : 2 ≤ mod} {h255 : mod ≤ 255}

lemma inputByte_lt (buf : List UInt8) (bufpos : ℕ) : inputByte buf bufpos < 256 := by
  unfold inputByte
  split
  · exact UInt8.toNat_lt _
  · norm_num

/-- The next bytes of the input. -/
def input (buf : List UInt8) (bufpos k : ℕ) : List ℕ :=
  (List.range k).map fun i => inputByte buf ((bufpos + i) % 2^32)

lemma length_input (buf : List UInt8) (bufpos k : ℕ) : (input buf bufpos k).length = k := by simp [input]

lemma input_succ (buf : List UInt8) (bufpos k : ℕ) :
    input buf bufpos (k + 1) = input buf bufpos k ++ [inputByte buf ((bufpos + k) % 2^32)] := by
  rw [input, List.range_succ, List.map_append]
  rfl

lemma lt_of_mem_input {buf : List UInt8} {bufpos k d : ℕ} (h : d ∈ input buf bufpos k) : d < 256 := by
  obtain ⟨i, -, rfl⟩ := List.mem_map.1 h
  exact inputByte_lt _ _

/-- The inner loop ends after at most seven turns with the interval refilled. -/
lemma decodeShift_eq (buf : List UInt8) (I : Interval (registers mod h2 h255)) (bufpos x : ℕ) {k fuel : ℕ}
    (hk : k ≤ I.shifts) (hfuel : I.shifts < fuel + k) :
    decodeShift mod buf fuel ⟨(bufpos + k) % 2^32, I.hiAt k, (registers mod h2 h255).slide x (input buf bufpos k), I.loAt k⟩ =
      .ok ⟨(bufpos + I.shifts) % 2^32, I.refill.hi,
        (registers mod h2 h255).slide x (input buf bufpos I.shifts), I.refill.lo⟩ := by
  induction fuel generalizing k with
  | zero => omega
  | succ fuel ih =>
    have hshifts : I.shifts ≤ 7 := I.shifts_le
    rcases hk.eq_or_lt with rfl | hlt
    · rw [decodeShift, if_neg (not_mustShift_shifts I)]
      rfl
    · have hbyte := inputByte_lt buf ((bufpos + k) % 2^32)
      have hval := @shiftIn_slide mod h2 h255 (input buf bufpos k) (fun _ => lt_of_mem_input)
        (by rw [length_input]; omega) x _ hbyte
      rw [← input_succ] at hval
      rw [decodeShift, if_pos (mustShift_of_lt I hlt)]
      simp only [shiftIn_hiAt I (by omega : k < 7), shiftIn_loAt I (by omega : k < 7), hval,
        rangeCheck_of_lt (hiAt_lt I (by omega : k + 1 ≤ 7)), Nat.mod_add_mod]
      exact ih hlt (by omega)

/-- A symbol is extracted without a failure. -/
lemma decodeSymbol_eq {table : List ℕ} (hmod : tableMod table = mod) (S : Settled (registers mod h2 h255)) {x : ℕ}
    (hx : x ∈ S.toInterval) (bufpos : ℕ) :
    decodeSymbol table ⟨bufpos, S.hi, x, S.lo⟩ = .ok (table.getD (S.symbol x + 3) 0,
      ⟨bufpos, (S.narrow ⟨S.symbol x, S.symbol_lt hx⟩).hi, x, (S.narrow ⟨S.symbol x, S.symbol_lt hx⟩).lo⟩) := by
  have hlt := hi_lt S
  have hsym : S.symbol x < mod := S.symbol_lt hx
  have hwidth : S.width ≠ 0 := Nat.succ_ne_zero _
  have hmul : (x - S.lo) * mod ≤ 2^56 * 255 := Nat.mul_le_mul (by have := hx.2; omega) h255
  have hdiv : ((x + 2^64 - S.lo) % 2^64 * mod) % 2^64 / S.width = S.symbol x := by
    have hle := hx.1
    have hhigh := hx.2
    have hsub : (x + 2^64 - S.lo) % 2^64 = x - S.lo := by omega
    rw [hsub, Nat.mod_eq_of_lt (by omega)]
    rfl
  have hbyte : S.symbol x % 2^8 = S.symbol x := Nat.mod_eq_of_lt (by omega)
  have hnarrow := narrowTo_eq S ⟨S.symbol x, S.symbol_lt hx⟩
  have hcheck : rangeCheck (S.narrow ⟨S.symbol x, S.symbol_lt hx⟩).hi = .ok () :=
    rangeCheck_of_lt (lt_of_le_of_lt (S.narrow_subset ⟨S.symbol x, S.symbol_lt hx⟩).2 hlt)
  rw [decodeSymbol]
  simp only [hmod, denom_eq, if_neg hwidth, hdiv, hbyte, stringifyByte, if_neg hsym.not_ge]
  rw [hnarrow]
  simp only [bind, Except.bind, hcheck]

/-- The registers when a symbol is extracted, after `n` other symbols. -/
def extractState (table : List ℕ) (buf : List UInt8) : ℕ → DecodeState → Except Halt DecodeState
  | 0, st => decodeShift (tableMod table) buf 8 st
  | n+1, st => do
    let st ← decodeShift (tableMod table) buf 8 st
    let (_, st) ← decodeSymbol table st
    extractState table buf n st

variable {table : List ℕ} (hmod : tableMod table = mod) (buf : List UInt8)
include hmod

/-- Before a symbol the interval is refilled, with a value that lies in it. -/
lemma decodeShift_interval (I : Interval (registers mod h2 h255)) {x bufpos : ℕ} (hpos : bufpos < 2^32) (hx : x ∈ I) :
    decodeShift (tableMod table) buf 8 ⟨bufpos, I.hi, x, I.lo⟩ =
      .ok ⟨(bufpos + I.shifts) % 2^32, I.refill.hi,
        (registers mod h2 h255).slide x (input buf bufpos I.shifts), I.refill.lo⟩ ∧
    (registers mod h2 h255).slide x (input buf bufpos I.shifts) ∈ I.refill.toInterval := by
  have hshifts : I.shifts ≤ 7 := I.shifts_le
  have h := decodeShift_eq buf I bufpos x (Nat.zero_le I.shifts) (by omega : I.shifts < 8 + 0)
  have hx' : x < (registers mod h2 h255).b ^ (registers mod h2 h255).p := hx.2.trans_lt I.lt
  have hlo : I.loAt 0 = I.lo := Params.slide_nil I.lo_lt
  have hhi : I.hiAt 0 = I.hi := Params.slide_nil I.lt
  have hval : (registers mod h2 h255).slide x (input buf bufpos 0) = x := Params.slide_nil hx'
  rw [hlo, hhi, hval, Nat.add_zero, Nat.mod_eq_of_lt hpos] at h
  rw [hmod]
  exact ⟨h, I.slide_mem_refill hx (fun _ => lt_of_mem_input) (length_input _ _ _)⟩

omit hmod in
lemma ok_bind {ε α β : Type} (a : α) (f : α → Except ε β) : (Except.ok a >>= f) = f a := rfl

/-- Every state in which a symbol is extracted is sound. -/
lemma extractState_ok (n : ℕ) (I : Interval (registers mod h2 h255)) {x bufpos : ℕ} (hpos : bufpos < 2^32) (hx : x ∈ I) :
    ∃ (S : Settled (registers mod h2 h255)) (y pos : ℕ), y ∈ S.toInterval ∧
      extractState table buf n ⟨bufpos, I.hi, x, I.lo⟩ = .ok ⟨pos, S.hi, y, S.lo⟩ := by
  induction n generalizing I x bufpos with
  | zero =>
    obtain ⟨hshift, hmem⟩ := decodeShift_interval hmod buf I hpos hx
    exact ⟨I.refill, _, _, hmem, hshift⟩
  | succ n ih =>
    obtain ⟨hshift, hmem⟩ := decodeShift_interval hmod buf I hpos hx
    generalize (registers mod h2 h255).slide x (input buf bufpos I.shifts) = y at hshift hmem
    have hsym := decodeSymbol_eq hmod I.refill hmem ((bufpos + I.shifts) % 2^32)
    obtain ⟨S, z, pos, hz, hrest⟩ := ih (I.refill.narrow ⟨I.refill.symbol y, I.refill.symbol_lt hmem⟩)
      (Nat.mod_lt (bufpos + I.shifts) (by norm_num)) (I.refill.mem_narrow_symbol hmem)
    refine ⟨S, z, pos, hz, ?_⟩
    rw [extractState, hshift, ok_bind, hsym, ok_bind, ← hrest]

omit hmod in
lemma decodeLoop_succ {buf : List UInt8} {st st₁ st₂ : DecodeState} {out : ℕ}
    (hshift : decodeShift (tableMod table) buf 8 st = .ok st₁) (hsym : decodeSymbol table st₁ = .ok (out, st₂)) (n : ℕ) :
    decodeLoop table buf (n + 1) st = (decodeLoop table buf n st₂).map fun outs => UInt8.ofNat out :: outs := by
  rw [decodeLoop, hshift, ok_bind, hsym, ok_bind]
  change (decodeLoop table buf n st₂ >>= fun outs => .ok (UInt8.ofNat out :: outs)) = _
  cases decodeLoop table buf n st₂ with
  | error e => rfl
  | ok outs => rfl

/-- The outer loop returns the symbols that were asked for. -/
lemma decodeLoop_ok (n : ℕ) (I : Interval (registers mod h2 h255)) {x bufpos : ℕ} (hpos : bufpos < 2^32) (hx : x ∈ I) :
    ∃ outs, decodeLoop table buf n ⟨bufpos, I.hi, x, I.lo⟩ = .ok outs ∧ outs.length = n := by
  induction n generalizing I x bufpos with
  | zero => exact ⟨[], rfl, rfl⟩
  | succ n ih =>
    obtain ⟨hshift, hmem⟩ := decodeShift_interval hmod buf I hpos hx
    generalize (registers mod h2 h255).slide x (input buf bufpos I.shifts) = y at hshift hmem
    have hsym := decodeSymbol_eq hmod I.refill hmem ((bufpos + I.shifts) % 2^32)
    obtain ⟨outs, hloop, hlen⟩ := ih (I.refill.narrow ⟨I.refill.symbol y, I.refill.symbol_lt hmem⟩)
      (Nat.mod_lt (bufpos + I.shifts) (by norm_num)) (I.refill.mem_narrow_symbol hmem)
    have hturn : decodeLoop table buf (n + 1) ⟨bufpos, I.hi, x, I.lo⟩ =
        .ok (UInt8.ofNat (table.getD (I.refill.symbol y + 3) 0) :: outs) := by
      rw [decodeLoop_succ hshift hsym, hloop]
      rfl
    exact ⟨_, hturn, congrArg (· + 1) hlen⟩

omit hmod in
/-- The symbols that the outer loop returns are those of these states. -/
lemma decodeLoop_extract {n : ℕ} {st : DecodeState} {outs : List UInt8} (h : decodeLoop table buf n st = .ok outs) {i : ℕ}
    (hi : i < n) : ∃ st₁ st₂ out, extractState table buf i st = .ok st₁ ∧ decodeSymbol table st₁ = .ok (out, st₂) ∧
      outs[i]? = some (UInt8.ofNat out) := by
  induction n generalizing st outs i with
  | zero => omega
  | succ n ih =>
    cases hshift : decodeShift (tableMod table) buf 8 st with
    | error e =>
      rw [decodeLoop, hshift] at h
      cases h
    | ok st₁ =>
      cases hsym : decodeSymbol table st₁ with
      | error e =>
        rw [decodeLoop, hshift, ok_bind, hsym] at h
        cases h
      | ok r =>
        obtain ⟨out, st₂⟩ := r
        rw [decodeLoop_succ hshift hsym] at h
        cases hrest : decodeLoop table buf n st₂ with
        | error e =>
          rw [hrest] at h
          cases h
        | ok rest =>
          rw [hrest] at h
          obtain rfl : UInt8.ofNat out :: rest = outs := Except.ok.inj h
          cases i with
          | zero => exact ⟨st₁, st₂, out, hshift, hsym, rfl⟩
          | succ i =>
            obtain ⟨st₃, st₄, out', hstate, hsym', hget⟩ := ih hrest (by omega : i < n)
            refine ⟨st₃, st₄, out', ?_, hsym', hget⟩
            rw [extractState, hshift, ok_bind, hsym, ok_bind, ← hstate]

end Decode

/-- `cc_alpha_decode` never fails on a table of 2 to 256 symbols. -/
theorem alphaDecode_ok {table : List ℕ} (h2 : 2 ≤ tableMod table) (h256 : tableMod table ≤ 256) (buf : List UInt8)
    (nchars : ℕ) : ∃ outs, alphaDecode table buf nchars = .ok outs := by
  unfold alphaDecode
  split_ifs with hempty hplain
  · exact ⟨_, rfl⟩
  · exact ⟨_, rfl⟩
  · obtain ⟨outs, hloop, -⟩ := decodeLoop_ok rfl buf nchars
      (Interval.zero (registers (tableMod table) h2 (by omega))) (x := 0) (by norm_num : 0 < 2^32) ⟨le_rfl, le_rfl⟩
    exact ⟨outs, hloop⟩

section Encode
variable {mod : ℕ} {h2 : 2 ≤ mod} {h255 : mod ≤ 255}

/-- The byte that goes out is the next digit of the low end. -/
lemma shiftRight_loAt (I : Interval (registers mod h2 h255)) {k : ℕ} (hk : k < 7) :
    I.loAt k >>> encShift = I.lo / 256^(6 - k) % 256 := by
  have h := I.loAt_div hk
  rw [pow_pred_p] at h
  rw [Nat.shiftRight_eq_div_pow]
  exact h

/-- Before the last symbol, the inner loop puts out the digits that leave the interval. -/
lemma encodeShift_eq (I : Interval (registers mod h2 h255)) {nchars bufpos : ℕ} (hpos : bufpos ≠ nchars) (eofm : ℕ)
    (outv : List UInt8) {k fuel : ℕ} (hk : k ≤ I.shifts) (hfuel : I.shifts < fuel + k) :
    encodeShift mod nchars fuel
        ⟨bufpos, I.hiAt k, I.loAt k, eofm, outv ++ ((registers mod h2 h255).top I.lo k).map UInt8.ofNat⟩ =
      .ok (⟨bufpos, I.refill.hi, I.refill.lo, eofm,
        outv ++ ((registers mod h2 h255).top I.lo I.shifts).map UInt8.ofNat⟩, false) := by
  induction fuel generalizing k with
  | zero => omega
  | succ fuel ih =>
    have hshifts : I.shifts ≤ 7 := I.shifts_le
    rcases hk.eq_or_lt with rfl | hlt
    · rw [encodeShift, if_neg (not_mustShift_shifts I)]
      rfl
    · have hout : outv ++ ((registers mod h2 h255).top I.lo k).map UInt8.ofNat ++
          [UInt8.ofNat (I.loAt k >>> encShift)] = outv ++ ((registers mod h2 h255).top I.lo (k + 1)).map UInt8.ofNat := by
        rw [shiftRight_loAt I (by omega), Params.top_succ, List.map_append, List.append_assoc]
        rfl
      rw [encodeShift, if_pos (mustShift_of_lt I hlt)]
      simp only [shiftIn_hiAt I (by omega : k < 7), shiftIn_loAt I (by omega : k < 7), if_neg hpos, hout,
        rangeCheck_of_lt (hiAt_lt I (by omega : k + 1 ≤ 7))]
      exact ih hlt (by omega)

lemma eofm_succ {e : ℕ} (he : e < 7) : ((256^e - 1) <<< 8 ||| 255) % 2^64 = 256^(e + 1) - 1 := by
  interval_cases e <;> rfl

lemma eofm_full {e : ℕ} (he : e < 7) : ((256^(e + 1) - 1) >>> encShift) &&& 255 = 255 ↔ e + 1 = 7 := by
  interval_cases e <;> decide

/-- After the last symbol it counts the bytes, and stops at the seventh. -/
lemma encodeShift_last (I : Interval (registers mod h2 h255)) (nchars : ℕ) {e : ℕ} (outv : List UInt8) {k fuel : ℕ}
    (hk : k ≤ I.shifts) (hfuel : I.shifts < fuel + k) (he : e + k < 7) :
    ∃ st done, encodeShift mod nchars fuel ⟨nchars, I.hiAt k, I.loAt k, 256^(e + k) - 1,
        outv ++ ((registers mod h2 h255).top I.lo k).map UInt8.ofNat⟩ = .ok (st, done) ∧
      (7 - e ≤ I.shifts → done = true ∧ st.outv = outv ++ ((registers mod h2 h255).top I.lo (7 - e)).map UInt8.ofNat) ∧
      (I.shifts < 7 - e → done = false ∧ st = ⟨nchars, I.refill.hi, I.refill.lo, 256^(e + I.shifts) - 1,
        outv ++ ((registers mod h2 h255).top I.lo I.shifts).map UInt8.ofNat⟩) := by
  induction fuel generalizing k with
  | zero => omega
  | succ fuel ih =>
    have hshifts : I.shifts ≤ 7 := I.shifts_le
    rcases hk.eq_or_lt with rfl | hlt
    · rw [encodeShift, if_neg (not_mustShift_shifts I)]
      exact ⟨_, _, rfl, fun h => by omega, fun _ => ⟨rfl, rfl⟩⟩
    · have hout : outv ++ ((registers mod h2 h255).top I.lo k).map UInt8.ofNat ++
          [UInt8.ofNat (I.loAt k >>> encShift)] = outv ++ ((registers mod h2 h255).top I.lo (k + 1)).map UInt8.ofNat := by
        rw [shiftRight_loAt I (by omega), Params.top_succ, List.map_append, List.append_assoc]
        rfl
      have hcheck := rangeCheck_of_lt (hiAt_lt I (by omega : k + 1 ≤ 7))
      rw [encodeShift, if_pos (mustShift_of_lt I hlt)]
      simp only [shiftIn_hiAt I (by omega : k < 7), shiftIn_loAt I (by omega : k < 7), if_true, hout, hcheck,
        eofm_succ he, eofm_full he, bind, Except.bind]
      by_cases hdone : e + k + 1 = 7
      · rw [if_pos hdone]
        have hlast : k + 1 = 7 - e := by omega
        rw [hlast]
        exact ⟨_, _, rfl, fun _ => ⟨rfl, rfl⟩, fun h => by omega⟩
      · rw [if_neg hdone]
        exact ih hlt (by omega) (by omega)

/-- The rest of a turn of the outer loop, once the interval is that of a symbol. -/
def encodeTurn (table : List ℕ) (data : List UInt8) (fuel : ℕ) (st : EncodeState) : Except Halt (Option (List UInt8)) := do
  let (st, done) ← encodeShift (tableMod table) data.length 8 st
  if done then .ok (some st.outv) else encodeLoop table data fuel st

lemma encodeLoop_succ {table : List ℕ} {data : List UInt8} {bufpos h l c hval lval : ℕ}
    (hc : (match data[bufpos]? with
      | some sym => destringifyChar table sym
      | none => tableMod table / 2) = c) (hne : c ≠ 255)
    (hnarrow : narrowTo (tableMod table) h l c = (hval, lval)) (hcheck : rangeCheck hval = .ok ()) (eofm : ℕ)
    (outv : List UInt8) (fuel : ℕ) : encodeLoop table data (fuel + 1) ⟨bufpos, h, l, eofm, outv⟩ =
      encodeTurn table data fuel ⟨if bufpos < data.length then bufpos + 1 else bufpos, hval, lval, eofm, outv⟩ := by
  rw [encodeLoop]
  simp only [hc, if_neg hne, hnarrow]
  rw [hcheck, ok_bind]
  rfl

variable {table : List ℕ} (hmod : tableMod table = mod) (data : List UInt8)
include hmod

lemma encodeLoop_turn (S : Settled (registers mod h2 h255)) {c : Fin (registers mod h2 h255).m} {bufpos : ℕ}
    (hc : (match data[bufpos]? with
      | some sym => destringifyChar table sym
      | none => tableMod table / 2) = (c : ℕ)) (eofm : ℕ) (outv : List UInt8) (fuel : ℕ) :
    encodeLoop table data (fuel + 1) ⟨bufpos, S.hi, S.lo, eofm, outv⟩ =
      encodeTurn table data fuel ⟨if bufpos < data.length then bufpos + 1 else bufpos, (S.narrow c).hi, (S.narrow c).lo,
        eofm, outv⟩ := by
  have hcm : (c : ℕ) < mod := c.isLt
  have hne : (c : ℕ) ≠ 255 := by omega
  have hcheck : rangeCheck (S.narrow c).hi = .ok () :=
    rangeCheck_of_lt (lt_of_le_of_lt (S.narrow_subset c).2 (hi_lt S))
  have hnarrow : narrowTo (tableMod table) S.hi S.lo c = ((S.narrow c).hi, (S.narrow c).lo) := by
    rw [hmod]
    exact narrowTo_eq S c
  exact encodeLoop_succ hc hne hnarrow hcheck eofm outv fuel

/-- The part of the phantom symbol is at most half of the interval. -/
lemma clog_phantom_lt (S : Settled (registers mod h2 h255)) :
    Nat.clog 2 ((S.narrow (phantom mod h2 h255)).hi - (S.narrow (phantom mod h2 h255)).lo + 1) + 1 ≤ Nat.clog 2 S.width := by
  have hm : 0 < mod := by omega
  have hwidth : mod ≤ S.width := S.m_le_width
  have hstep := S.start_succ_le (phantom mod h2 h255)
  have hlt := S.start_lt_succ (phantom mod h2 h255)
  have hhalf : (S.width + mod - 1) / mod ≤ (S.width + 2 - 1) / 2 := by
    rw [← Nat.lt_add_one_iff, Nat.div_lt_iff_lt_mul hm, Nat.add_mul, Nat.one_mul]
    have hmul : (S.width + 2 - 1) / 2 * 2 ≤ (S.width + 2 - 1) / 2 * mod := Nat.mul_le_mul_left _ h2
    omega
  have hpart :
      (S.narrow (phantom mod h2 h255)).hi - (S.narrow (phantom mod h2 h255)).lo + 1 ≤ (S.width + 2 - 1) / 2 := by
    simp only [Settled.narrow]
    change _ ≤ _ + (S.width + mod - 1) / mod at hstep
    omega
  rw [Nat.clog_of_two_le (by norm_num) (by omega : 2 ≤ S.width)]
  exact Nat.add_le_add_right (Nat.clog_mono_right 2 hpart) 1

omit hmod in
lemma loAt_zero (I : Interval (registers mod h2 h255)) : I.loAt 0 = I.lo := Params.slide_nil I.lo_lt

omit hmod in
lemma hiAt_zero (I : Interval (registers mod h2 h255)) : I.hiAt 0 = I.hi := Params.slide_nil I.lt

/-- After the last symbol, phantom symbols are coded until seven bytes have gone out. -/
lemma encodeTurn_last {fuel : ℕ} (I : Interval (registers mod h2 h255)) {e : ℕ} (he : e < 7) (outv : List UInt8)
    (hfuel : (7 - e) * 57 + Nat.clog 2 (I.hi - I.lo + 1) ≤ fuel) :
    encodeTurn table data fuel ⟨data.length, I.hi, I.lo, 256^e - 1, outv⟩ =
      .ok (some (outv ++ (I.finish (phantom mod h2 h255) (7 - e)).map UInt8.ofNat)) := by
  induction fuel generalizing I e outv with
  | zero => omega
  | succ fuel ih =>
    have hshifts : I.shifts ≤ 7 := I.shifts_le
    obtain ⟨st, done, hshift, hdone, hmore⟩ := encodeShift_last I data.length outv (Nat.zero_le I.shifts)
      (by omega : I.shifts < 8 + 0) (by omega : e + 0 < 7)
    have hnil : (registers mod h2 h255).top I.lo 0 = [] := rfl
    rw [hiAt_zero, loAt_zero, Nat.add_zero, hnil, List.map_nil, List.append_nil] at hshift
    rw [encodeTurn, hmod, hshift, Interval.finish]
    rcases Nat.lt_or_ge I.shifts (7 - e) with hlt | hge
    · obtain ⟨rfl, rfl⟩ := hmore hlt
      have hphantom : (match data[data.length]? with
          | some sym => destringifyChar table sym
          | none => tableMod table / 2) = (phantom mod h2 h255 : ℕ) := by
        rw [List.getElem?_eq_none le_rfl, hmod]
        rfl
      have hturn := encodeLoop_turn hmod data I.refill hphantom (256^(e + I.shifts) - 1)
        (outv ++ ((registers mod h2 h255).top I.lo I.shifts).map UInt8.ofNat) fuel
      have hclog := clog_phantom_lt hmod I.refill
      have hmeasure : (7 - (e + I.shifts)) * 57 + (Nat.clog 2 I.refill.width - 1) ≤ fuel := by
        rcases Nat.eq_zero_or_pos I.shifts with hzero | hpos
        · obtain ⟨hlo, hhi⟩ := I.refill_of_shifts_eq_zero hzero
          have hwidth : I.refill.width = I.hi - I.lo + 1 := by rw [Settled.width, hlo, hhi]
          rw [hwidth] at hclog ⊢
          rw [hzero, Nat.add_zero]
          omega
        · have hwidth : I.refill.width ≤ 2^56 := by
            have hlt := hi_lt I.refill
            unfold Settled.width
            omega
          have hbits : Nat.clog 2 I.refill.width ≤ 56 := Nat.clog_le_of_le_pow hwidth
          omega
      have hnext := ih (I.refill.narrow (phantom mod h2 h255)) (by omega : e + I.shifts < 7)
        (outv ++ ((registers mod h2 h255).top I.lo I.shifts).map UInt8.ofNat) (by omega)
      rw [if_neg (lt_irrefl _)] at hturn
      rw [if_neg hlt.not_ge, List.map_append, ← List.append_assoc, Nat.sub_sub, ← hnext, ← hturn]
      rfl
    · obtain ⟨rfl, hout⟩ := hdone hge
      rw [if_pos hge, ← hout]
      rfl

omit hmod in
lemma drop_map_eq_cons {f : UInt8 → ℕ} {i x : ℕ} {xs : List ℕ} (h : (data.drop i).map f = x :: xs) :
    i < data.length ∧ (data[i]?).map f = some x ∧ (data.drop (i + 1)).map f = xs := by
  obtain ⟨y, ys, hdrop, rfl, hys⟩ := List.map_eq_cons_iff.1 h
  have hlt : i < data.length := by
    by_contra hge
    rw [List.drop_eq_nil_of_le (by omega)] at hdrop
    exact List.cons_ne_nil _ _ hdrop.symm
  rw [List.drop_eq_getElem_cons hlt, List.cons.injEq] at hdrop
  refine ⟨hlt, ?_, ?_⟩
  · rw [List.getElem?_eq_getElem hlt, hdrop.1, Option.map_some]
  · rw [hdrop.2, hys]

/-- The loop codes the symbols that are left. -/
lemma encodeLoop_eq {fuel : ℕ} (S : Settled (registers mod h2 h255)) {c : Fin (registers mod h2 h255).m}
    (cs : List (Fin (registers mod h2 h255).m)) {bufpos : ℕ}
    (hcodes : (data.drop bufpos).map (destringifyChar table) = (c :: cs).map Fin.val) (outv : List UInt8)
    (hfuel : cs.length + 456 ≤ fuel) :
    encodeLoop table data fuel ⟨bufpos, S.hi, S.lo, 0, outv⟩ =
      .ok (some (outv ++ (S.encode (phantom mod h2 h255) (c :: cs)).map UInt8.ofNat)) := by
  induction cs generalizing fuel S c bufpos outv with
  | nil =>
    obtain ⟨hlt, hsym, hrest⟩ := drop_map_eq_cons data hcodes
    have hend : bufpos + 1 = data.length := by
      have hnil : data.length ≤ bufpos + 1 := List.drop_eq_nil_iff.1 (List.map_eq_nil_iff.1 hrest)
      omega
    obtain ⟨sym, hget, hc⟩ := Option.map_eq_some_iff.1 hsym
    obtain ⟨fuel, rfl⟩ : ∃ n, fuel = n + 1 := ⟨fuel - 1, by omega⟩
    rw [encodeLoop_turn hmod data S (c := c) (by rw [hget]; exact hc), if_pos hlt, hend, Settled.encode]
    have hbits : Nat.clog 2 ((S.narrow c).hi - (S.narrow c).lo + 1) ≤ 56 := by
      apply Nat.clog_le_of_le_pow
      have hhi := (S.narrow_subset c).2
      have hlt := hi_lt S
      omega
    exact encodeTurn_last hmod data (S.narrow c) (by norm_num : 0 < 7) outv (by omega)
  | cons d cs ih =>
    obtain ⟨hlt, hsym, hrest⟩ := drop_map_eq_cons data hcodes
    obtain ⟨hlt', -, -⟩ := drop_map_eq_cons data hrest
    obtain ⟨sym, hget, hc⟩ := Option.map_eq_some_iff.1 hsym
    obtain ⟨fuel, rfl⟩ : ∃ n, fuel = n + 1 := ⟨fuel - 1, by omega⟩
    have hshifts : (S.narrow c).shifts ≤ 7 := (S.narrow c).shifts_le
    have hshift := encodeShift_eq (S.narrow c) (by omega : bufpos + 1 ≠ data.length) 0 outv
      (Nat.zero_le (S.narrow c).shifts) (by omega : (S.narrow c).shifts < 8 + 0)
    have hnil : (registers mod h2 h255).top (S.narrow c).lo 0 = [] := rfl
    rw [hiAt_zero, loAt_zero, hnil, List.map_nil, List.append_nil] at hshift
    have hnext := ih (S.narrow c).refill hrest
      (outv ++ ((registers mod h2 h255).top (S.narrow c).lo (S.narrow c).shifts).map UInt8.ofNat)
      (by rw [List.length_cons] at hfuel; omega : cs.length + 456 ≤ fuel)
    rw [encodeLoop_turn hmod data S (c := c) (by rw [hget]; exact hc), if_pos hlt, encodeTurn, hmod, hshift, Settled.encode,
      List.map_append, ← List.append_assoc, ← hnext]
    rfl

/-- A character that is no symbol ends the loop with the return value -1. -/
lemma encodeLoop_none (hcodes : ∀ b, destringifyChar table b ≠ 255 → destringifyChar table b < mod) {fuel : ℕ}
    (S : Settled (registers mod h2 h255)) {bufpos : ℕ} (hbad : ∃ b ∈ data.drop bufpos, destringifyChar table b = 255)
    (outv : List UInt8) (hfuel : data.length < bufpos + fuel) :
    encodeLoop table data fuel ⟨bufpos, S.hi, S.lo, 0, outv⟩ = .ok none := by
  induction fuel generalizing S bufpos outv with
  | zero =>
    obtain ⟨b, hb, -⟩ := hbad
    rw [List.drop_eq_nil_of_le (by omega)] at hb
    exact absurd hb List.not_mem_nil
  | succ fuel ih =>
    have hlt : bufpos < data.length := by
      by_contra hge
      obtain ⟨b, hb, -⟩ := hbad
      rw [List.drop_eq_nil_of_le (by omega)] at hb
      exact absurd hb List.not_mem_nil
    by_cases hc : destringifyChar table data[bufpos] = 255
    · rw [encodeLoop]
      simp only [List.getElem?_eq_getElem hlt, hc, if_true]
    · rw [List.drop_eq_getElem_cons hlt] at hbad
      obtain ⟨b, hb, hbad⟩ := hbad
      have hrest : b ∈ data.drop (bufpos + 1) :=
        (List.mem_cons.1 hb).resolve_left fun heq => hc (heq ▸ hbad)
      have hmore : bufpos + 1 ≠ data.length := by
        intro hend
        rw [List.drop_eq_nil_of_le hend.ge] at hrest
        exact absurd hrest List.not_mem_nil
      set c : Fin (registers mod h2 h255).m := ⟨destringifyChar table data[bufpos], hcodes _ hc⟩ with hcdef
      have hshifts : (S.narrow c).shifts ≤ 7 := (S.narrow c).shifts_le
      have hshift := encodeShift_eq (S.narrow c) hmore 0 outv (Nat.zero_le (S.narrow c).shifts)
        (by omega : (S.narrow c).shifts < 8 + 0)
      have hnil : (registers mod h2 h255).top (S.narrow c).lo 0 = [] := rfl
      rw [hiAt_zero, loAt_zero, hnil, List.map_nil, List.append_nil] at hshift
      have hnext := ih (S.narrow c).refill ⟨b, hrest, hbad⟩
        (outv ++ ((registers mod h2 h255).top (S.narrow c).lo (S.narrow c).shifts).map UInt8.ofNat) (by omega)
      rw [encodeLoop_turn hmod data S (c := c) (by rw [List.getElem?_eq_getElem hlt]), if_pos hlt, encodeTurn, hmod, hshift,
        ← hnext]
      rfl

end Encode

section Lossless
variable {mod : ℕ} {h2 : 2 ≤ mod} {h255 : mod ≤ 255} {buf : List UInt8}

lemma input_eq_take {bufpos k : ℕ} (hk : bufpos + k ≤ buf.length) (hlen : buf.length < 2^32) :
    input buf bufpos k = ((buf.map UInt8.toNat).drop bufpos).take k := by
  apply List.ext_getElem
  · rw [length_input, List.length_take, List.length_drop, List.length_map]
    omega
  · intro i h1 h2
    rw [length_input] at h1
    have hget : buf[(bufpos + i) % 2^32]? = some (buf.get ⟨bufpos + i, by omega⟩) := by
      rw [Nat.mod_eq_of_lt (by omega)]
      exact List.getElem?_eq_getElem _
    simp only [input, List.getElem_map, List.getElem_range, inputByte, hget, List.getElem_take, List.getElem_drop,
      List.get_eq_getElem]

variable {table : List ℕ} (hmod : tableMod table = mod)
include hmod

/-- A turn of the outer loop in which the refilled value lies in the part of symbol `c`. -/
lemma decodeLoop_turn (I : Interval (registers mod h2 h255)) {x y bufpos : ℕ} (hx : x ∈ I) (hpos : bufpos < 2^32)
    (hy : (registers mod h2 h255).slide x (input buf bufpos I.shifts) = y) {c : Fin (registers mod h2 h255).m}
    (hc : y ∈ I.refill.narrow c) (n : ℕ) :
    decodeLoop table buf (n + 1) ⟨bufpos, I.hi, x, I.lo⟩ =
      (decodeLoop table buf n ⟨(bufpos + I.shifts) % 2^32, (I.refill.narrow c).hi, y, (I.refill.narrow c).lo⟩).map
          fun outs => UInt8.ofNat (table.getD ((c : ℕ) + 3) 0) :: outs := by
  obtain ⟨hshift, hmem⟩ := decodeShift_interval hmod buf I hpos hx
  rw [hy] at hshift hmem
  have hsym : I.refill.symbol y = c := I.refill.symbol_of_mem_narrow hc
  have hfin : (⟨I.refill.symbol y, I.refill.symbol_lt hmem⟩ : Fin (registers mod h2 h255).m) = c := Fin.ext hsym
  have hextract := decodeSymbol_eq hmod I.refill hmem ((bufpos + I.shifts) % 2^32)
  rw [hfin, hsym] at hextract
  exact decodeLoop_succ hshift hextract n

/-- The characters of some symbols. -/
def spell (table : List ℕ) {m : ℕ} (cs : List (Fin m)) : List UInt8 :=
  cs.map fun c : Fin m => UInt8.ofNat (table.getD (c + 3) 0)

/-- The decoder follows the encoder: when what is left of the input codes some symbols, it extracts them. -/
lemma decodeLoop_encode (hlen : buf.length < 2^32) (cs : List (Fin (registers mod h2 h255).m))
    (c : Fin (registers mod h2 h255).m) (I : Interval (registers mod h2 h255)) {x y bufpos : ℕ} {ds : List ℕ}
    (hx : x ∈ I) (hpos : 7 ≤ bufpos + I.shifts) (hend : bufpos + I.shifts ≤ buf.length)
    (hds : ds = (buf.map UInt8.toNat).drop (bufpos + I.shifts - 7))
    (hcode : ds = I.refill.encode (phantom mod h2 h255) (c :: cs))
    (hy : (registers mod h2 h255).slide x (input buf bufpos I.shifts) = y) (hval : y = value 256 (ds.take 7)) :
    decodeLoop table buf (cs.length + 1) ⟨bufpos, I.hi, x, I.lo⟩ = .ok (spell table (c :: cs)) := by
  induction cs generalizing c I x y bufpos ds with
  | nil =>
    have hmem : y ∈ I.refill.narrow c := by
      rw [hval, hcode]
      exact I.refill.value_take_encode (phantom mod h2 h255) c []
    rw [List.length_nil, decodeLoop_turn hmod I hx (by omega) hy hmem]
    rfl
  | cons d cs ih =>
    have hmem : y ∈ I.refill.narrow c := by
      rw [hval, hcode]
      exact I.refill.value_take_encode (phantom mod h2 h255) c (d :: cs)
    set J := I.refill.narrow c with hJ
    have hk : J.shifts ≤ 7 := J.shifts_le
    have hdigit : ∀ z ∈ ds, z < 256 := fun z hz => by
      rw [hcode] at hz
      exact Settled.lt_of_mem_encode _ hz
    have hdslen : ds.length = buf.length - (bufpos + I.shifts - 7) := by rw [hds, List.length_drop, List.length_map]
    have hrestlen : 7 ≤ (J.refill.encode (phantom mod h2 h255) (d :: cs)).length :=
      Settled.le_length_encode _ J.refill d cs
    have htotal : ds.length = J.shifts + (J.refill.encode (phantom mod h2 h255) (d :: cs)).length := by
      rw [hcode, Settled.encode, List.length_append, Params.length_top]
    have hdrop : ds.drop J.shifts = (buf.map UInt8.toNat).drop (bufpos + I.shifts + J.shifts - 7) := by
      rw [hds, List.drop_drop]
      congr 1
      omega
    have hinput : input buf (bufpos + I.shifts) J.shifts = (ds.drop 7).take J.shifts := by
      rw [input_eq_take (by omega) hlen, hds, List.drop_drop]
      congr 2
      omega
    have hnextcode : ds.drop J.shifts = J.refill.encode (phantom mod h2 h255) (d :: cs) := by
      rw [hcode, Settled.encode, List.drop_left' (Params.length_top _ _)]
    have hwindow : (registers mod h2 h255).slide y (input buf (bufpos + I.shifts) J.shifts) =
        value 256 ((ds.drop J.shifts).take 7) := by
      rw [hinput, hval]
      exact Settled.slide_window (P := registers mod h2 h255) hdigit hk (by change 7 + _ ≤ _; omega)
    have hnext := ih d J hmem (by omega) (by omega) hdrop hnextcode hwindow rfl
    rw [List.length_cons, decodeLoop_turn hmod I hx (by omega) hy hmem, Nat.mod_eq_of_lt (by omega), hnext]
    rfl

end Lossless

/-- A pair of tables for one alphabet: the first takes characters to symbols, the second takes them
back. -/
structure SymbolTable where
  bin : List ℕ
  sym : List ℕ
  two_le_mod : 2 ≤ tableMod bin
  mod_le_255 : tableMod bin ≤ 255
  mod_eq : tableMod sym = tableMod bin
  code_lt : ∀ b, destringifyChar bin b ≠ 255 → destringifyChar bin b < tableMod bin
  char_code : ∀ b, destringifyChar bin b ≠ 255 → UInt8.ofNat (sym.getD (destringifyChar bin b + 3) 0) = b

namespace SymbolTable
variable (T : SymbolTable)

/-- The registers for the alphabet. -/
abbrev params : Params := registers (tableMod T.bin) T.two_le_mod T.mod_le_255

/-- The strings of characters of the alphabet. -/
def Spells (data : List UInt8) : Prop := ∀ b ∈ data, destringifyChar T.bin b ≠ 255

instance (data : List UInt8) : Decidable (T.Spells data) := inferInstanceAs (Decidable (∀ b ∈ data, _))

/-- The range code of some symbols. -/
def code (cs : List (Fin T.params.m)) : List UInt8 :=
  ((Settled.whole T.params).encode (phantom _ T.two_le_mod T.mod_le_255) cs).map UInt8.ofNat

variable {T} in
/-- A string of the alphabet has its symbols. -/
lemma Spells.exists_codes {data : List UInt8} (h : T.Spells data) :
    ∃ cs : List (Fin T.params.m), data.map (destringifyChar T.bin) = cs.map Fin.val := by
  induction data with
  | nil => exact ⟨[], rfl⟩
  | cons b data ih =>
    obtain ⟨cs, hcs⟩ := ih fun d hd => h d (List.mem_cons_of_mem _ hd)
    exact ⟨⟨destringifyChar T.bin b, T.code_lt b (h b List.mem_cons_self)⟩ :: cs, by simp [hcs]⟩

/-- A table's own characters are spelled by their symbols. -/
lemma spell_codes {data : List UInt8} (h : T.Spells data) {cs : List (Fin T.params.m)}
    (hcs : data.map (destringifyChar T.bin) = cs.map Fin.val) : spell T.sym cs = data := by
  calc spell T.sym cs = (cs.map Fin.val).map fun c => UInt8.ofNat (T.sym.getD (c + 3) 0) := by
        rw [List.map_map]
        rfl
    _ = data.map fun b => UInt8.ofNat (T.sym.getD (destringifyChar T.bin b + 3) 0) := by
        rw [← hcs, List.map_map]
        rfl
    _ = data.map id := List.map_congr_left fun b hb => T.char_code b (h b hb)
    _ = data := List.map_id data

lemma whole_eq : (Settled.whole T.params).hi = encMax - 1 ∧ (Settled.whole T.params).lo = 0 := by
  have hhi := Settled.whole_hi T.params
  have hlo := Settled.whole_lo T.params
  rw [pow_p] at hhi
  rw [encMax_eq]
  exact ⟨by omega, hlo⟩

/-- Past its checks, the encoder runs its loop from the interval of all values. -/
lemma alphaEncode_loop {data : List UInt8} (hne : data ≠ []) : alphaEncode T.bin data =
    encodeLoop T.bin data (data.length + 512) ⟨0, (Settled.whole T.params).hi, (Settled.whole T.params).lo, 0, []⟩ := by
  have hmod := T.mod_le_255
  obtain ⟨hhi, hlo⟩ := T.whole_eq
  rw [alphaEncode, if_neg hne, if_neg (by omega), rangeCheck_of_lt (by rw [encMax_eq]; norm_num), hhi, hlo]
  rfl

/-- The encoder puts out the range code of the symbols. -/
theorem alphaEncode_eq {data : List UInt8} {c : Fin T.params.m} {cs : List (Fin T.params.m)}
    (hcs : data.map (destringifyChar T.bin) = (c :: cs).map Fin.val) :
    alphaEncode T.bin data = .ok (some (T.code (c :: cs))) := by
  have hlen : data.length = cs.length + 1 := by
    have h := congrArg List.length hcs
    rw [List.length_map, List.length_map, List.length_cons] at h
    exact h
  have hne : data ≠ [] := by
    rintro rfl
    exact absurd hlen (by simp)
  rw [T.alphaEncode_loop hne]
  exact encodeLoop_eq rfl data (Settled.whole T.params) cs (by rw [List.drop_zero]; exact hcs) [] (by omega)

/-- It fails on any other string. -/
theorem alphaEncode_none {data : List UInt8} (h : ¬T.Spells data) : alphaEncode T.bin data = .ok none := by
  have hbad : ∃ b ∈ data.drop 0, destringifyChar T.bin b = 255 := by
    by_contra hgood
    exact h fun b hb hc => hgood ⟨b, hb, hc⟩
  have hne : data ≠ [] := by
    rintro rfl
    obtain ⟨b, hb, -⟩ := hbad
    exact absurd hb List.not_mem_nil
  rw [T.alphaEncode_loop hne]
  exact encodeLoop_none rfl data T.code_lt (Settled.whole T.params) hbad [] (by omega)

/-- What the encoder puts out is decoded to the characters of the symbols. -/
theorem alphaDecode_code (c : Fin T.params.m) (cs : List (Fin T.params.m)) (hlen : (T.code (c :: cs)).length < 2^32) :
    alphaDecode T.sym (T.code (c :: cs)) (cs.length + 1) = .ok (spell T.sym (c :: cs)) := by
  have hmod := T.mod_le_255
  have heq := T.mod_eq
  set ds := (Settled.whole T.params).encode (phantom _ T.two_le_mod T.mod_le_255) (c :: cs) with hds
  have hge : 7 ≤ ds.length := Settled.le_length_encode _ _ c cs
  have hbytes : (T.code (c :: cs)).map UInt8.toNat = ds := by
    rw [code, List.map_map, ← hds]
    refine (List.map_congr_left fun z hz => ?_).trans (List.map_id ds)
    exact UInt8.toNat_ofNat_of_lt' (Settled.lt_of_mem_encode _ hz)
  have hcodelen : (T.code (c :: cs)).length = ds.length := by rw [code, List.length_map]
  have hne : T.code (c :: cs) ≠ [] := by
    intro hnil
    rw [hnil, List.length_nil] at hcodelen
    omega
  have hshifts : (Interval.zero T.params).shifts = 7 := Interval.shifts_zero
  have hstart : T.params.slide 0 (input (T.code (c :: cs)) 0 (Interval.zero T.params).shifts) =
      value 256 (ds.take 7) := by
    rw [hshifts, input_eq_take (by omega) hlen, hbytes, List.drop_zero, Params.slide, Nat.zero_mod, Nat.zero_mul,
      Nat.zero_add]
    rfl
  have hloop := decodeLoop_encode heq hlen cs c (Interval.zero T.params) ⟨le_rfl, le_rfl⟩
    (show 7 ≤ 0 + (Interval.zero T.params).shifts by rw [hshifts]) (by rw [hshifts]; omega)
    (by rw [hshifts, hbytes]; rfl) hds hstart rfl
  rw [alphaDecode, if_neg (by simp [hne]), if_neg (by omega)]
  exact hloop

variable {T} in
lemma Spells.exists_cons {data : List UInt8} (hne : data ≠ []) (h : T.Spells data) :
    ∃ (c : Fin T.params.m) (cs : List (Fin T.params.m)), data.map (destringifyChar T.bin) = (c :: cs).map Fin.val ∧
      cs.length + 1 = data.length := by
  obtain ⟨cs, hcs⟩ := h.exists_codes
  have hlen := congrArg List.length hcs
  rw [List.length_map, List.length_map] at hlen
  cases cs with
  | nil => exact absurd (List.map_eq_nil_iff.1 hcs) hne
  | cons c cs => exact ⟨c, cs, hcs, hlen.symm⟩

/-- The encoder always ends, and returns -1 just for a string with another character. -/
lemma alphaEncode_total (data : List UInt8) : ∃ r, alphaEncode T.bin data = .ok r := by
  rcases eq_or_ne data [] with rfl | hne
  · exact ⟨some [], rfl⟩
  by_cases h : T.Spells data
  · obtain ⟨c, cs, hcs, -⟩ := h.exists_cons hne
    exact ⟨_, T.alphaEncode_eq hcs⟩
  · exact ⟨_, T.alphaEncode_none h⟩

/-- The code of a string of the alphabet, which decodes to it. -/
lemma alphaEncode_spells {data : List UInt8} (hne : data ≠ []) (h : T.Spells data) :
    ∃ outv, alphaEncode T.bin data = .ok (some outv) ∧ outv.length ≤ 7 * data.length ∧
      (outv.length < 2^32 → alphaDecode T.sym outv data.length = .ok data) := by
  obtain ⟨c, cs, hcs, hcount⟩ := h.exists_cons hne
  refine ⟨_, T.alphaEncode_eq hcs, ?_, fun hlen => ?_⟩
  · have hle := Settled.length_encode_le (phantom _ T.two_le_mod T.mod_le_255) (Settled.whole T.params) (c :: cs)
    rw [List.length_cons, hcount] at hle
    rw [code, List.length_map]
    exact hle
  · have hdecode := T.alphaDecode_code c cs hlen
    rw [T.spell_codes h hcs, hcount] at hdecode
    exact hdecode

end SymbolTable

/-- The range coder is lossless on the strings of a table's characters, and both directions end on
every input. -/
theorem alphaCode_lossless (T : SymbolTable) :
    (∀ data, data ≠ [] → T.Spells data → ∃ outv, alphaEncode T.bin data = .ok (some outv) ∧
      (outv.length < 2^32 → alphaDecode T.sym outv data.length = .ok data)) ∧
    (∀ data, ∃ r, alphaEncode T.bin data = .ok r) ∧
    (∀ buf nchars, ∃ outs, alphaDecode T.sym buf nchars = .ok outs) := by
  refine ⟨fun data hne h => ?_, T.alphaEncode_total, fun buf nchars => ?_⟩
  · obtain ⟨outv, hencode, -, hdecode⟩ := T.alphaEncode_spells hne h
    exact ⟨outv, hencode, hdecode⟩
  · have h2 := T.two_le_mod
    have h255 := T.mod_le_255
    rw [← T.mod_eq] at h2 h255
    exact alphaDecode_ok h2 (by omega) buf nchars

end CredaCash.Text
