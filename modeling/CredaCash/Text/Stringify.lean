import CredaCash.PlaceValue
import CredaCash.Text.AlphaCode

/-! Numbers as text: digits over the alphabet of a table, the least significant one first, at a fixed width or as long as
something is left, and behind a shift or not. -/

namespace CredaCash.Text
open PlaceValue

def base57bin : List ℕ := [
  57, 50, 122, 49, 50, 51, 52, 53, 54, 55, 56, 255, 255, 255, 255, 255, 255, 255, 0, 1, 2, 3, 4, 5, 6, 7, 255, 8, 9,
  10, 11, 12, 255, 13, 14, 15, 16, 17, 18, 19, 20, 21, 22, 23, 255, 255, 255, 255, 255, 255, 24, 25, 26, 27, 28, 29,
  30, 31, 32, 33, 34, 255, 35, 36, 37, 38, 39, 40, 41, 42, 43, 44, 45, 46, 47, 48]

def base57sym : List ℕ := [
  57, 186, 167, 65, 66, 67, 68, 69, 70, 71, 72, 74, 75, 76, 77, 78, 80, 81, 82, 83, 84, 85, 86, 87, 88, 89, 90, 97,
  98, 99, 100, 101, 102, 103, 104, 105, 106, 107, 109, 110, 111, 112, 113, 114, 115, 116, 117, 118, 119, 120, 121,
  122, 50, 51, 52, 53, 54, 55, 56, 57]

/-- `CC_ENCODE_SEPARATOR` and `CC_ENCODE_SEPARATOR_ALT`. -/
def encodeSeparator : UInt8 := 48
def encodeSeparatorAlt : UInt8 := 79

/-- What keeps a call from its result. -/
inductive Stop
  | halt (halt : Halt)
  | error (text : String)
  deriving DecidableEq

def errorInputEnd : Stop := .error "error: input ends unexpectedly"
def errorInvalidChar : Stop := .error "error: invalid character"
def errorUnexpectedChar : Stop := .error "error: unexpected character"
def errorChecksumMismatch : Stop := .error "error: checksum mismatch"

/-- The loop of `compute_shift`, with the number of turns that are left: the shift, and what is left of both values. -/
def shiftLoop : ℕ → ℕ → ℕ → ℕ → ℕ × ℕ × ℕ
  | 0, shift, maxval, val => (shift, maxval, val)
  | turns+1, shift, maxval, val =>
    if val % 2 = 1 then (shift, maxval, val) else shiftLoop turns (shift + 1) (maxval / 2) (val / 2)

def computeShift (mod maxval val : ℕ) : ℕ × ℕ × ℕ := shiftLoop (mod - 1) 0 maxval val

/-- The condition on which the loop of `cc_stringify` breaks. -/
def Breaks (nchars : ℤ) (nc v : ℕ) : Prop := (nc : ℤ) = nchars ∨ nchars < 0 ∧ v = 0

instance (nchars : ℤ) (nc v : ℕ) : Decidable (Breaks nchars nc v) := inferInstanceAs (Decidable (_ ∨ _))

def stringifyLoop (table : List ℕ) (nchars : ℤ) : ℕ → ℕ → ℕ → ℕ → Except Halt (List UInt8)
  | 0, _, mval, _ => if mval = 0 then .ok [] else .error .unfinished
  | turns+1, nc, mval, v =>
    if mval = 0 then .ok []
    else do
      let c ← stringifyByte table (v % tableMod table)
      let v := v / tableMod table
      if Breaks nchars (nc + 1) v then return [UInt8.ofNat c]
      else return UInt8.ofNat c :: (← stringifyLoop table nchars turns (nc + 1) (mval / tableMod table) v)

/-- What `cc_stringify` adds to its string. -/
def stringify (table : List ℕ) (maxval : ℕ) (normalize : Bool) (nchars : ℤ) (val : ℕ) : Except Halt (List UInt8) :=
  let mval := if maxval = 0 then 2^256 - 1 else maxval
  if normalize then do
    let (shift, mval, v) := computeShift (tableMod table) mval val
    let c ← stringifyByte table shift
    return UInt8.ofNat c :: (← stringifyLoop table nchars 256 0 mval v)
  else stringifyLoop table nchars 256 0 mval val

def find (c : UInt8) (instring : List UInt8) : ℕ := if c ∈ instring then instring.idxOf c else 2^64 - 1

/-- The loop of `cc_destringify`, over the characters from the last one on; in 256 bits. -/
def destringifyLoop (table : List ℕ) : List UInt8 → ℕ → Except Stop ℕ
  | [], val => .ok val
  | ch :: sval, val =>
    let c := destringifyChar table ch
    if c = 255 then .error errorInvalidChar
    else destringifyLoop table sval ((val * tableMod table % 2^256 + c) % 2^256)

/-- The shift of `cc_destringify`, in front of the field. -/
def readShift (table : List ℕ) (normalize : Bool) (instring : List UInt8) : Except Stop ℕ :=
  if normalize then
    if instring.length < 1 then .error errorInputEnd
    else
      let shift := destringifyChar table (instring.headD 0)
      if shift = 255 then .error errorInvalidChar else .ok shift
  else .ok 0

/-- The number of characters that `cc_destringify` takes: as given, or up to a separator. -/
def fieldEnd (nchars : ℕ) (instring : List UInt8) : Except Stop ℕ :=
  if nchars = 0 then
    let nchars := find encodeSeparator instring % 2^32
    let nchars2 := find encodeSeparatorAlt instring
    let nchars := if nchars2 < nchars then nchars2 else nchars
    if instring.length ≤ nchars then .error errorInputEnd else .ok nchars
  else .ok nchars

/-- `cc_destringify`: the value, and the string behind the field. -/
def destringify (table : List ℕ) (normalize : Bool) (nchars : ℕ) (instring : List UInt8) : Except Stop (ℕ × List UInt8) := do
  let shift ← readShift table normalize instring
  let nchars ← fieldEnd nchars instring
  let nchars := (nchars + 2^32 - normalize.toNat) % 2^32
  if instring.length < (nchars + normalize.toNat) % 2^32 then .error errorInputEnd
  else do
    let sval := (instring.drop normalize.toNat).take nchars
    let val ← destringifyLoop table sval.reverse 0
    return (val <<< shift % 2^256, instring.drop ((nchars + normalize.toNat) % 2^32))

/-- The characters of some digits. -/
def symbols (ds : List ℕ) : List UInt8 := ds.map fun d => UInt8.ofNat (base57sym.getD (d + 3) 0)

section Symbols
variable {d : ℕ} {ds : List ℕ}

lemma tableMod_base57sym : tableMod base57sym = 57 := rfl

lemma tableMod_base57bin : tableMod base57bin = 57 := rfl

/-- Symbols are read back, and none of them separates fields. -/
lemma symbol_table : ∀ d < 57, destringifyChar base57bin (UInt8.ofNat (base57sym.getD (d + 3) 0)) = d ∧
    UInt8.ofNat (base57sym.getD (d + 3) 0) ≠ encodeSeparator ∧
    UInt8.ofNat (base57sym.getD (d + 3) 0) ≠ encodeSeparatorAlt := by
  decide +kernel

lemma stringifyByte_base57 (hd : d < 57) : stringifyByte base57sym d = .ok (base57sym.getD (d + 3) 0) := by
  rw [stringifyByte, tableMod_base57sym, if_neg (not_le.2 hd)]

@[simp] lemma length_symbols (ds : List ℕ) : (symbols ds).length = ds.length := List.length_map _

lemma not_mem_symbols (hds : ∀ d ∈ ds, d < 57) : encodeSeparator ∉ symbols ds ∧ encodeSeparatorAlt ∉ symbols ds := by
  constructor
  · intro hmem
    obtain ⟨d, hd, heq⟩ := List.mem_map.1 hmem
    exact (symbol_table d (hds d hd)).2.1 heq
  · intro hmem
    obtain ⟨d, hd, heq⟩ := List.mem_map.1 hmem
    exact (symbol_table d (hds d hd)).2.2 heq

end Symbols

section Encode
variable {nchars : ℤ} {turns nc mval v n : ℕ}

/-- The loop writes digits until it breaks. -/
lemma stringifyLoop_eq (hturns : n ≤ turns) (hmval : ∀ k < n, mval / 57^k ≠ 0)
    (hgo : ∀ k < n, 0 < k → ¬ Breaks nchars (nc + k) (v / 57^k))
    (hend : mval / 57^n = 0 ∨ 0 < n ∧ Breaks nchars (nc + n) (v / 57^n)) :
    stringifyLoop base57sym nchars turns nc mval v = .ok (symbols (lowDigits 57 n v)) := by
  induction n generalizing turns nc mval v with
  | zero =>
    have hzero : mval = 0 := by
      rcases hend with h | h
      · rwa [pow_zero, Nat.div_one] at h
      · exact absurd h.1 (lt_irrefl 0)
    cases turns with
    | zero => rw [stringifyLoop, if_pos hzero]; rfl
    | succ turns => rw [stringifyLoop, if_pos hzero]; rfl
  | succ n ih =>
    obtain ⟨turns, rfl⟩ := Nat.exists_eq_succ_of_ne_zero (Nat.ne_zero_of_lt hturns)
    have hfirst : mval ≠ 0 := by
      have h := hmval 0 (Nat.succ_pos n)
      rwa [pow_zero, Nat.div_one] at h
    rw [stringifyLoop, if_neg hfirst, tableMod_base57sym, stringifyByte_base57 (Nat.mod_lt v (by decide)),
      ok_bind]
    dsimp only
    split_ifs with hbreak
    · have hlast : n = 0 := by
        by_contra hn
        have hgo' := hgo 1 (by omega) Nat.one_pos
        rw [pow_one] at hgo'
        exact hgo' hbreak
      rw [hlast]
      rfl
    · have hrest : stringifyLoop base57sym nchars turns (nc + 1) (mval / 57) (v / 57) =
            .ok (symbols (lowDigits 57 n (v / 57))) := by
        apply ih (Nat.le_of_succ_le_succ hturns)
        · intro k hk
          rw [Nat.div_div_eq_div_mul, ← pow_succ']
          exact hmval (k + 1) (Nat.succ_lt_succ hk)
        · intro k hk _
          rw [Nat.div_div_eq_div_mul, ← pow_succ', Nat.add_assoc, Nat.add_comm 1]
          exact hgo (k + 1) (Nat.succ_lt_succ hk) (Nat.succ_pos k)
        · rw [Nat.div_div_eq_div_mul, Nat.div_div_eq_div_mul, ← pow_succ', Nat.add_assoc, Nat.add_comm 1]
          refine hend.imp_right fun h => ⟨?_, h.2⟩
          by_contra hn
          obtain rfl := Nat.eq_zero_of_not_pos hn
          have hlast := h.2
          rw [pow_one] at hlast
          exact hbreak hlast
      rw [hrest]
      rfl

lemma width_le_of_lt (h : v < 2^256) : width 57 v ≤ 256 :=
  width_le (by decide) (by decide) (h.trans_le (Nat.pow_le_pow_left (by decide) 256))

/-- At the width of the greatest value. -/
lemma stringify_zero {maxval : ℕ} (hmax : maxval ≠ 0) (hlt : maxval < 2^256) (val : ℕ) :
    stringify base57sym maxval false 0 val = .ok (symbols (lowDigits 57 (width 57 maxval) val)) := by
  have hwidth : width 57 maxval ≤ 256 := width_le_of_lt hlt
  unfold stringify
  dsimp only
  rw [if_neg hmax, if_neg (by decide)]
  apply stringifyLoop_eq hwidth
  · intro k hk
    rcases Nat.eq_zero_or_pos k with rfl | hpos
    · rwa [pow_zero, Nat.div_one]
    · exact div_pow_ne_zero (by decide) hpos hk
  · intro k _ hk hbreak
    rcases hbreak with h | h
    · omega
    · exact absurd h.1 (lt_irrefl 0)
  · exact Or.inl (div_pow_width (by decide) maxval)

/-- At a width of its own. -/
lemma stringify_five (val : ℕ) : stringify base57sym 0 false 5 val = .ok (symbols (lowDigits 57 5 val)) := by
  unfold stringify
  dsimp only
  rw [if_pos rfl, if_neg (by decide)]
  apply stringifyLoop_eq (by decide)
  · decide
  · intro k hk _ hbreak
    rcases hbreak with h | h
    · omega
    · exact absurd h.1 (by decide)
  · exact Or.inr ⟨by decide, Or.inl rfl⟩

/-- As long as something is left. -/
lemma stringifyLoop_neg (hmval : mval ≠ 0) (hlt : mval < 2^256) (hv : v ≤ mval) :
    stringifyLoop base57sym (-1) 256 0 mval v = .ok (symbols (lowDigits 57 (width 57 v) v)) := by
  have hwidth : width 57 v ≤ 256 := width_le_of_lt (hv.trans_lt hlt)
  apply stringifyLoop_eq hwidth
  · intro k hk
    rcases Nat.eq_zero_or_pos k with rfl | hpos
    · rwa [pow_zero, Nat.div_one]
    · have hne := div_pow_ne_zero (by decide) hpos hk
      have hle : v / 57^k ≤ mval / 57^k := Nat.div_le_div_right hv
      exact ((Nat.pos_of_ne_zero hne).trans_le hle).ne'
  · intro k hk hpos hbreak
    rcases hbreak with h | h
    · omega
    · exact div_pow_ne_zero (by decide) hpos hk h.2
  · exact Or.inr ⟨lt_max_of_lt_left Nat.one_pos, Or.inr ⟨by decide, div_pow_width (by decide) v⟩⟩

lemma stringify_neg (hv : v < 2^256) :
    stringify base57sym 0 false (-1) v = .ok (symbols (lowDigits 57 (width 57 v) v)) := by
  unfold stringify
  dsimp only
  rw [if_pos rfl, if_neg (by decide)]
  exact stringifyLoop_neg (by decide) (by decide) (Nat.le_sub_one_of_lt hv)

/-- What is left after the shift, and that nothing is lost. -/
lemma shiftLoop_spec {shift maxval val : ℕ} : ∃ s ≤ turns,
    shiftLoop turns shift maxval val = (shift + s, maxval / 2^s, val / 2^s) ∧ val / 2^s * 2^s = val := by
  induction turns generalizing shift maxval val with
  | zero => exact ⟨0, le_rfl, by simp [shiftLoop], by simp⟩
  | succ turns ih =>
    rw [shiftLoop]
    split_ifs with hodd
    · exact ⟨0, Nat.zero_le _, by simp, by simp⟩
    · obtain ⟨s, hs, hloop, hval⟩ := @ih (shift + 1) (maxval / 2) (val / 2)
      rw [Nat.div_div_eq_div_mul, Nat.div_div_eq_div_mul, ← pow_succ'] at hloop
      rw [Nat.div_div_eq_div_mul, ← pow_succ'] at hval
      refine ⟨s + 1, Nat.succ_le_succ hs, ?_, ?_⟩
      · rw [hloop, Nat.add_assoc, Nat.add_comm 1]
      · calc val / 2^(s + 1) * 2^(s + 1) = val / 2^(s + 1) * (2^s * 2) := congrArg _ (pow_succ 2 s)
          _ = val / 2 * 2 := by rw [← Nat.mul_assoc, hval]
          _ = val := by omega

/-- Behind a shift. -/
lemma stringify_normalize (hval : v < 2^256) : ∃ s w, s ≤ 56 ∧ w * 2^s = v ∧
    stringify base57sym 0 true (-1) v = .ok (symbols (s :: lowDigits 57 (width 57 w) w)) := by
  obtain ⟨s, hs, hloop, hw⟩ := @shiftLoop_spec 56 0 (2^256 - 1) v
  rw [Nat.zero_add] at hloop
  refine ⟨s, v / 2^s, hs, hw, ?_⟩
  have hdigits : stringifyLoop base57sym (-1) 256 0 ((2^256 - 1) / 2^s) (v / 2^s) =
      .ok (symbols (lowDigits 57 (width 57 (v / 2^s)) (v / 2^s))) := by
    refine stringifyLoop_neg ?_ ?_ (Nat.div_le_div_right (by omega))
    · have hpow : 2^s ≤ 2^56 := Nat.pow_le_pow_right (by decide) hs
      exact (Nat.div_pos (hpow.trans (by decide)) (Nat.pow_pos (by decide))).ne'
    · exact (Nat.div_le_self _ _).trans_lt (by decide)
  unfold stringify computeShift
  dsimp only
  rw [if_pos rfl, if_pos rfl, tableMod_base57sym, hloop]
  dsimp only
  rw [stringifyByte_base57 (by omega), ok_bind, hdigits]
  rfl

end Encode

section Decode
variable {ds : List ℕ} {rest sval sval' l : List UInt8} {val n s : ℕ} {c : UInt8}

lemma destringifyLoop_append : destringifyLoop base57bin (sval ++ sval') val =
    (destringifyLoop base57bin sval val).bind (destringifyLoop base57bin sval') := by
  induction sval generalizing val with
  | nil => rfl
  | cons ch sval ih =>
    rw [List.cons_append, destringifyLoop, destringifyLoop]
    split_ifs
    · rfl
    · exact ih

/-- Digits are read back, in 256 bits. -/
lemma destringifyLoop_symbols (hds : ∀ d ∈ ds, d < 57) :
    destringifyLoop base57bin (symbols ds).reverse 0 = .ok (Nat.ofDigits 57 ds % 2^256) := by
  induction ds with
  | nil => rfl
  | cons d ds ih =>
    have hd := hds d List.mem_cons_self
    have hrest := ih fun d hd => hds d (List.mem_cons_of_mem _ hd)
    rw [symbols, List.map_cons, List.reverse_cons, destringifyLoop_append]
    change Except.bind (destringifyLoop base57bin (symbols ds).reverse 0) _ = _
    rw [hrest, Except.bind, destringifyLoop, (symbol_table d hd).1, if_neg (by omega), tableMod_base57bin, destringifyLoop,
      Nat.ofDigits_cons]
    congr 1
    omega

lemma find_append_cons (hc : c ∉ l) : find c (l ++ c :: rest) = l.length := by
  rw [find, if_pos (List.mem_append_right l List.mem_cons_self), List.idxOf_append_of_notMem hc, List.idxOf_cons_self,
    Nat.add_zero]

lemma le_find_append (hc : c ∉ l) (hl : l.length < 2^64) : l.length ≤ find c (l ++ rest) := by
  unfold find
  split_ifs
  · rw [List.idxOf_append_of_notMem hc]
    exact Nat.le_add_right _ _
  · exact Nat.le_sub_one_of_lt hl

/-- A field of a given width. -/
lemma destringify_fixed (hds : ∀ d ∈ ds, d < 57) (hn : ds.length = n) (hpos : 0 < n) (hlt : n < 2^32) :
    destringify base57bin false n (symbols ds ++ rest) = .ok (Nat.ofDigits 57 ds % 2^256, rest) := by
  have hwidth : (n + 2^32 - false.toNat) % 2^32 = n := by
    rw [Bool.toNat_false]
    omega
  have hwhole : (n + false.toNat) % 2^32 = n := Nat.mod_eq_of_lt hlt
  have htake : (symbols ds ++ rest).take n = symbols ds := List.take_left' ((length_symbols ds).trans hn)
  have hdrop : (symbols ds ++ rest).drop n = rest := List.drop_left' ((length_symbols ds).trans hn)
  have hlen : ¬ (symbols ds ++ rest).length < n := by
    rw [List.length_append, length_symbols, hn]
    omega
  have hend : fieldEnd n (symbols ds ++ rest) = .ok n := if_neg hpos.ne'
  rw [destringify, readShift, if_neg (by decide), ok_bind, hend, ok_bind]
  dsimp only
  rw [hwidth, hwhole, if_neg hlen, Bool.toNat_false, List.drop_zero, htake, destringifyLoop_symbols hds, ok_bind, hdrop,
    Nat.shiftLeft_zero, Nat.mod_mod]
  rfl

/-- A field behind a shift, up to a separator. -/
lemma destringify_shifted (hs : s < 57) (hds : ∀ d ∈ ds, d < 57) (hlen : ds.length + 1 < 2^32) :
    destringify base57bin true 0 (symbols (s :: ds) ++ encodeSeparator :: rest) =
      .ok ((Nat.ofDigits 57 ds % 2^256) <<< s % 2^256, encodeSeparator :: rest) := by
  have hall : ∀ d ∈ s :: ds, d < 57 := List.forall_mem_cons.2 ⟨hs, hds⟩
  have hwhole : (symbols (s :: ds)).length = ds.length + 1 := length_symbols _
  have hfind : find encodeSeparator (symbols (s :: ds) ++ encodeSeparator :: rest) % 2^32 = ds.length + 1 := by
    rw [find_append_cons (not_mem_symbols hall).1, hwhole, Nat.mod_eq_of_lt hlen]
  have halt : ds.length + 1 ≤ find encodeSeparatorAlt (symbols (s :: ds) ++ encodeSeparator :: rest) := by
    rw [← hwhole]
    exact le_find_append (not_mem_symbols hall).2 (by omega)
  have hshift : readShift base57bin true (symbols (s :: ds) ++ encodeSeparator :: rest) = .ok s := by
    have hhead : destringifyChar base57bin ((symbols (s :: ds) ++ encodeSeparator :: rest).headD 0) = s :=
      (symbol_table s hs).1
    rw [readShift, if_pos rfl, if_neg (by rw [List.length_append, hwhole]; omega)]
    dsimp only
    rw [hhead, if_neg (by omega)]
  have hwidth : (ds.length + 1 + 2^32 - true.toNat) % 2^32 = ds.length := by
    rw [Bool.toNat_true]
    omega
  have hend : (ds.length + true.toNat) % 2^32 = ds.length + 1 := Nat.mod_eq_of_lt hlen
  have htake : ((symbols (s :: ds) ++ encodeSeparator :: rest).drop 1).take ds.length = symbols ds :=
    List.take_left' (length_symbols ds)
  have hdrop : (symbols (s :: ds) ++ encodeSeparator :: rest).drop (ds.length + 1) = encodeSeparator :: rest :=
    List.drop_left' hwhole
  have hroom : ds.length + 1 < (symbols (s :: ds) ++ encodeSeparator :: rest).length := by
    rw [List.length_append, hwhole, List.length_cons]
    omega
  have hfield : fieldEnd 0 (symbols (s :: ds) ++ encodeSeparator :: rest) = .ok (ds.length + 1) := by
    rw [fieldEnd, if_pos rfl, hfind]
    dsimp only
    rw [if_neg (not_lt.2 halt), if_neg (not_le.2 hroom)]
  rw [destringify, hshift, ok_bind, hfield, ok_bind]
  dsimp only
  rw [hwidth, hend, if_neg (not_lt.2 hroom.le), Bool.toNat_true,
    htake, destringifyLoop_symbols hds, ok_bind, hdrop]
  rfl

end Decode

end CredaCash.Text
