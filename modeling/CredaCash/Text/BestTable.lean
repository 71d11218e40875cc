import CredaCash.Text.AlphaCode

/-! The choice of the table that codes a string best. -/

namespace CredaCash.Text

/-! The tables, as lists of bytes: the modulus; the first and the last character of a table from
characters to symbols, or the ratio of sizes of a table from symbols to characters; the entries. -/

def base10bin : List ℕ := [
  10, 48, 57, 0, 1, 2, 3, 4, 5, 6, 7, 8, 9]

def base10sym : List ℕ := [
  10, 106, 77, 48, 49, 50, 51, 52, 53, 54, 55, 56, 57]

def base16bin : List ℕ := [
  16, 48, 102, 0, 1, 2, 3, 4, 5, 6, 7, 8, 9, 255, 255, 255, 255, 255, 255, 255, 255, 255, 255, 255, 255, 255, 255,
  255, 255, 255, 255, 255, 255, 255, 255, 255, 255, 255, 255, 255, 255, 255, 255, 255, 255, 255, 255, 255, 255, 255,
  255, 255, 10, 11, 12, 13, 14, 15]

def base16sym : List ℕ := [
  16, 128, 0, 48, 49, 50, 51, 52, 53, 54, 55, 56, 57, 97, 98, 99, 100, 101, 102]

def base32bin : List ℕ := [
  32, 50, 90, 26, 27, 28, 29, 30, 31, 255, 255, 255, 255, 255, 255, 255, 255, 255, 0, 1, 2, 3, 4, 5, 6, 7, 8, 9, 10,
  11, 12, 13, 14, 15, 16, 17, 18, 19, 20, 21, 22, 23, 24, 25]

def base32sym : List ℕ := [
  32, 160, 0, 65, 66, 67, 68, 69, 70, 71, 72, 73, 74, 75, 76, 77, 78, 79, 80, 81, 82, 83, 84, 85, 86, 87, 88, 89, 90,
  50, 51, 52, 53, 54, 55]

def base32zbin : List ℕ := [
  32, 49, 122, 24, 255, 25, 26, 27, 28, 29, 30, 31, 255, 255, 255, 255, 255, 255, 255, 255, 255, 255, 255, 255, 255,
  255, 255, 255, 255, 255, 255, 255, 255, 255, 255, 255, 255, 255, 255, 255, 255, 255, 255, 255, 255, 255, 255, 255,
  255, 255, 255, 0, 1, 2, 3, 4, 5, 6, 7, 8, 9, 10, 255, 11, 12, 13, 14, 15, 16, 17, 18, 19, 255, 20, 21, 22, 23]

def base32zsym : List ℕ := [
  32, 160, 0, 97, 98, 99, 100, 101, 102, 103, 104, 105, 106, 107, 109, 110, 111, 112, 113, 114, 115, 116, 117, 119,
  120, 121, 122, 49, 51, 52, 53, 54, 55, 56, 57]

def base34bin : List ℕ := [
  34, 48, 122, 0, 1, 2, 3, 4, 5, 6, 7, 8, 9, 255, 255, 255, 255, 255, 255, 255, 255, 255, 255, 255, 255, 255, 255,
  255, 255, 255, 255, 255, 255, 255, 255, 255, 255, 255, 255, 255, 255, 255, 255, 255, 255, 255, 255, 255, 255, 255,
  255, 255, 10, 11, 12, 13, 14, 15, 16, 17, 255, 18, 19, 20, 21, 22, 255, 23, 24, 25, 26, 27, 28, 29, 30, 31, 32, 33]

def base34sym : List ℕ := [
  34, 162, 204, 48, 49, 50, 51, 52, 53, 54, 55, 56, 57, 97, 98, 99, 100, 101, 102, 103, 104, 106, 107, 108, 109, 110,
  112, 113, 114, 115, 116, 117, 118, 119, 120, 121, 122]

def base38bin : List ℕ := [
  38, 45, 122, 36, 255, 255, 0, 1, 2, 3, 4, 5, 6, 7, 8, 9, 255, 255, 255, 255, 255, 255, 255, 255, 255, 255, 255,
  255, 255, 255, 255, 255, 255, 255, 255, 255, 255, 255, 255, 255, 255, 255, 255, 255, 255, 255, 255, 255, 255, 255,
  255, 255, 255, 37, 255, 10, 11, 12, 13, 14, 15, 16, 17, 18, 19, 20, 21, 22, 23, 24, 25, 26, 27, 28, 29, 30, 31, 32,
  33, 34, 35]

def base38sym : List ℕ := [
  38, 167, 239, 48, 49, 50, 51, 52, 53, 54, 55, 56, 57, 97, 98, 99, 100, 101, 102, 103, 104, 105, 106, 107, 108, 109,
  110, 111, 112, 113, 114, 115, 116, 117, 118, 119, 120, 121, 122, 45, 95]

def base58bin : List ℕ := [
  58, 49, 122, 0, 1, 2, 3, 4, 5, 6, 7, 8, 255, 255, 255, 255, 255, 255, 255, 9, 10, 11, 12, 13, 14, 15, 16, 255, 17,
  18, 19, 20, 21, 255, 22, 23, 24, 25, 26, 27, 28, 29, 30, 31, 32, 255, 255, 255, 255, 255, 255, 33, 34, 35, 36, 37,
  38, 39, 40, 41, 42, 43, 255, 44, 45, 46, 47, 48, 49, 50, 51, 52, 53, 54, 55, 56, 57]

def base58sym : List ℕ := [
  58, 187, 117, 49, 50, 51, 52, 53, 54, 55, 56, 57, 65, 66, 67, 68, 69, 70, 71, 72, 74, 75, 76, 77, 78, 80, 81, 82,
  83, 84, 85, 86, 87, 88, 89, 90, 97, 98, 99, 100, 101, 102, 103, 104, 105, 106, 107, 109, 110, 111, 112, 113, 114,
  115, 116, 117, 118, 119, 120, 121, 122]

def base66bin : List ℕ := [
  66, 43, 122, 62, 255, 64, 255, 63, 52, 53, 54, 55, 56, 57, 58, 59, 60, 61, 255, 255, 255, 255, 255, 255, 255, 0, 1,
  2, 3, 4, 5, 6, 7, 8, 9, 10, 11, 12, 13, 14, 15, 16, 17, 18, 19, 20, 21, 22, 23, 24, 25, 255, 255, 255, 255, 65,
  255, 26, 27, 28, 29, 30, 31, 32, 33, 34, 35, 36, 37, 38, 39, 40, 41, 42, 43, 44, 45, 46, 47, 48, 49, 50, 51]

def base66sym : List ℕ := [
  66, 193, 108, 65, 66, 67, 68, 69, 70, 71, 72, 73, 74, 75, 76, 77, 78, 79, 80, 81, 82, 83, 84, 85, 86, 87, 88, 89,
  90, 97, 98, 99, 100, 101, 102, 103, 104, 105, 106, 107, 108, 109, 110, 111, 112, 113, 114, 115, 116, 117, 118, 119,
  120, 121, 122, 48, 49, 50, 51, 52, 53, 54, 55, 56, 57, 43, 47, 45, 95]

def base95bin : List ℕ := 95 :: 32 :: 126 :: List.range 95

def base95sym : List ℕ := 95 :: 210 :: 60 :: (List.range 95).map (· + 32)

def base224bin : List ℕ := 224 :: 32 :: 255 :: List.range 224

def base256bin : List ℕ := 0 :: 0 :: 255 :: List.range 256

def base256sym : List ℕ := 0 :: 0 :: 0 :: List.range 256

/-- `best_encode_table` and `best_decode_table`, by place. -/
def bestTables : List (List ℕ × List ℕ) := [
  (base10bin, base10sym), (base16bin, base16sym), (base32bin, base32sym), (base32zbin, base32zsym),
  (base34bin, base34sym), (base38bin, base38sym), (base58bin, base58sym), (base66bin, base66sym),
  (base95bin, base95sym),
  -- the second table goes from characters to symbols too
  (base224bin, base224bin),
  (base256bin, base256sym)]

/-- `cc_table_expected_strlen`, in `unsigned` arithmetic. -/
def expectedStrlen (table : List ℕ) (binlength : ℕ) : ℕ :=
  let resize := table.getD 1 0 <<< 8 + table.getD 2 0
  (binlength * (1 <<< 16)) % 2^32 / (if resize = 0 then 1 <<< 16 else resize)

/-- The conversion of an `unsigned` to an `int`. -/
def toInt (u : ℕ) : ℤ := if u < 2^31 then u else u - 2^32

def lengthDiffOffset : ℤ := 9

/-- `len_diff`, for a code of `binlength` bytes and a string of `nchars` characters. -/
def lenDiff (table : List ℕ) (binlength nchars : ℕ) : ℤ :=
  toInt ((expectedStrlen table binlength + 2^32 - nchars) % 2^32) + lengthDiffOffset

/-- The loop of `cc_alpha_encode_shortest`, from a size downwards. -/
def shortestLoop (decodeTable : List ℕ) (data outv : List UInt8) : ℕ → ℕ → Except Halt ℕ
  | 0, shortest => .ok shortest
  | size+1, shortest =>
    if lenDiff decodeTable (size + 1) data.length < 0 ∨ 15 < lenDiff decodeTable (size + 1) data.length then
      shortestLoop decodeTable data outv size shortest
    else do
      let decoded ← alphaDecode decodeTable (outv.take ((size + 1) % 2^32)) data.length
      if decoded.length ≠ data.length ∨ decoded ≠ data then .ok shortest
      else shortestLoop decodeTable data outv size (size + 1)

/-- `cc_alpha_encode_shortest`, by the bytes that it appends. -/
def alphaEncodeShortest (encodeTable decodeTable : List ℕ) (data : List UInt8) : Except Halt (Option (List UInt8)) := do
  let some outv ← alphaEncode encodeTable data | .ok none
  let size ← shortestLoop decodeTable data outv outv.length outv.length
  .ok (some (outv.take size))

/-- The loop of `cc_alpha_encode_best`, by the tables that are left. -/
def bestLoop (data : List UInt8) : ℕ → List (List ℕ × List ℕ) → Except Halt (Option (List UInt8))
  | _, [] => .ok none
  | i, (encodeTable, decodeTable) :: rest => do
    match ← alphaEncodeShortest encodeTable decodeTable data with
    | none => bestLoop data (i + 1) rest
    | some outv =>
      let diff := lenDiff decodeTable outv.length data.length
      if diff < 0 ∨ 15 < diff then bestLoop data (i + 1) rest
      else .ok (some (UInt8.ofNat (i <<< 4 ||| diff.toNat) :: outv))

/-- `cc_alpha_encode_best`; `none` is the return value -1. -/
def alphaEncodeBest (data : List UInt8) : Except Halt (Option (List UInt8)) :=
  if data = [] then .ok (some []) else bestLoop data 0 bestTables

/-- `cc_alpha_decode_best`, which returns a code and leaves `outs`. The size of the data is passed as
an `unsigned`. -/
def alphaDecodeBest (data outs : List UInt8) (useOldTableMapping : Bool) : Except Halt (ℤ × List UInt8) :=
  let nbytes := data.length % 2^32
  match data.take nbytes with
  | [] => .ok (0, [])
  | head :: buf =>
    let table := head.toNat >>> 4
    let table := if table = 9 ∧ useOldTableMapping then 10 else table
    match bestTables[table]? with
    | none => .ok (-1, outs)
    | some (_, decodeTable) =>
      let diff : ℤ := (head.toNat &&& 15 : ℕ) - lengthDiffOffset
      let nchars : ℤ := expectedStrlen decodeTable (nbytes - 1) - diff
      if nchars < 0 then .ok (0, outs)
      else do
        let outs ← alphaDecode decodeTable buf nchars.toNat
        .ok (0, outs)

/-- Two tables are inverse on the characters of the first. -/
def Inverse (bin sym : List ℕ) : Prop := ∀ n ∈ List.range 256, destringifyChar bin (UInt8.ofNat n) ≠ 255 →
  destringifyChar bin (UInt8.ofNat n) < tableMod bin ∧ sym.getD (destringifyChar bin (UInt8.ofNat n) + 3) 0 = n

instance (bin sym : List ℕ) : Decidable (Inverse bin sym) := inferInstanceAs (Decidable (∀ n ∈ List.range 256, _))

/-- The symbol table of two inverse tables. -/
def SymbolTable.ofTables (bin sym : List ℕ) (h : Inverse bin sym) (h2 : 2 ≤ tableMod bin) (h255 : tableMod bin ≤ 255)
    (heq : tableMod sym = tableMod bin) : SymbolTable where
  bin := bin
  sym := sym
  two_le_mod := h2
  mod_le_255 := h255
  mod_eq := heq
  code_lt b hb := by
    have hlt := h b.toNat (List.mem_range.2 b.toNat_lt)
    rw [UInt8.ofNat_toNat] at hlt
    exact (hlt hb).1
  char_code b hb := by
    have hlt := h b.toNat (List.mem_range.2 b.toNat_lt)
    rw [UInt8.ofNat_toNat] at hlt
    rw [(hlt hb).2, UInt8.ofNat_toNat]

/-- Two tables are inverse if the entries of the first are the places of their characters in the second. -/
lemma inverse_of_entries {m lo hi : ℕ} {entries sym : List ℕ} (hm : m ≠ 0) (hlen : hi < lo + entries.length)
    (h : ∀ e ∈ entries.zipIdx lo, e.1 ≠ 255 → e.1 < m ∧ sym.getD (e.1 + 3) 0 = e.2) :
    Inverse (m :: lo :: hi :: entries) sym := by
  intro n hn hne
  have hlow : (m :: lo :: hi :: entries).getD 1 0 = lo := rfl
  have hhigh : (m :: lo :: hi :: entries).getD 2 0 = hi := rfl
  have hmod : tableMod (m :: lo :: hi :: entries) = m := if_neg hm
  have hnat : (UInt8.ofNat n).toNat = n := UInt8.toNat_ofNat_of_lt (List.mem_range.1 hn)
  rw [destringifyChar, hlow, hhigh, hnat] at hne ⊢
  split_ifs at hne ⊢ with hc
  · exact absurd rfl hne
  have hlt : n - lo < entries.length := by omega
  rw [List.getD_cons_succ, List.getD_cons_succ, List.getD_cons_succ, List.getD_eq_getElem _ _ hlt] at hne ⊢
  have hmem : (entries[n - lo], n) ∈ entries.zipIdx lo :=
    List.mk_mem_zipIdx_iff_le_and_getElem?_sub.2 ⟨by omega, List.getElem?_eq_getElem hlt⟩
  rw [hmod]
  exact h _ hmem hne

lemma getD_range {m k : ℕ} (h : k < m) : (List.range m).getD k 0 = k := by
  rw [List.getD_eq_getElem _ _ (by rwa [List.length_range]), List.getElem_range]

lemma inverse_range {m lo hi a b : ℕ} (hm : m ≠ 0) (hhi : hi < lo + m) :
    Inverse (m :: lo :: hi :: List.range m) (m :: a :: b :: (List.range m).map (· + lo)) := by
  refine inverse_of_entries hm (by rwa [List.length_range]) fun e he _ => ?_
  obtain ⟨hle, hget⟩ := List.mem_zipIdx_iff_le_and_getElem?_sub.1 he
  obtain ⟨hlt, hval⟩ := List.getElem?_eq_some_iff.1 hget
  rw [List.getElem_range] at hval
  rw [List.length_range] at hlt
  refine ⟨by omega, ?_⟩
  rw [List.getD_cons_succ, List.getD_cons_succ, List.getD_cons_succ,
    List.getD_eq_getElem _ _ (by rw [List.length_map, List.length_range]; omega), List.getElem_map, List.getElem_range]
  omega

/-- The tables but the last two are pairs of inverse tables. -/
lemma inverse_bestTables : ∀ p ∈ bestTables.take 9, Inverse p.1 p.2 ∧ 2 ≤ tableMod p.1 ∧ tableMod p.1 ≤ 255 ∧
    tableMod p.2 = tableMod p.1 := by
  have hinv : ∀ p ∈ bestTables.take 9, Inverse p.1 p.2 := by
    simp only [bestTables, List.take, List.forall_mem_cons]
    refine ⟨?_, ?_, ?_, ?_, ?_, ?_, ?_, ?_, inverse_range (by decide) (by decide), List.forall_mem_nil _⟩ <;>
      exact inverse_of_entries (by decide) (by decide) (by decide +kernel)
  have hmod : ∀ p ∈ bestTables.take 9, 2 ≤ tableMod p.1 ∧ tableMod p.1 ≤ 255 ∧ tableMod p.2 = tableMod p.1 := by
    decide
  exact fun p hp => ⟨hinv p hp, hmod p hp⟩

def base10 : SymbolTable := .ofTables base10bin base10sym (by decide +kernel) (by decide) (by decide) (by decide)

theorem alphaCode_lossless_base10 : ∃ outv, alphaEncode base10bin [50, 48, 49, 54] = .ok (some outv) ∧
    (outv.length < 2^32 → alphaDecode base10sym outv 4 = .ok [50, 48, 49, 54]) :=
  (alphaCode_lossless base10).1 [50, 48, 49, 54] (by decide) (by decide +kernel)

lemma mod_bestTables : ∀ p ∈ bestTables, 2 ≤ tableMod p.2 ∧ tableMod p.2 ≤ 256 := by
  decide

/-- `cc_alpha_decode_best` never fails. -/
theorem alphaDecodeBest_ok (data outs : List UInt8) (useOldTableMapping : Bool) :
    ∃ r, alphaDecodeBest data outs useOldTableMapping = .ok r := by
  unfold alphaDecodeBest
  dsimp only
  split
  · exact ⟨_, rfl⟩
  · rename_i head buf _
    split
    · exact ⟨_, rfl⟩
    · rename_i encodeTable decodeTable htable
      obtain ⟨h2, h256⟩ := mod_bestTables _ (List.mem_of_getElem? htable)
      split
      · exact ⟨_, rfl⟩
      · obtain ⟨outs, hdecode⟩ := alphaDecode_ok h2 h256 buf
          (expectedStrlen decodeTable (data.length % 2^32 - 1) - ((head.toNat &&& 15 : ℕ) - lengthDiffOffset) : ℤ).toNat
        rw [hdecode]
        exact ⟨_, rfl⟩

/-- Whatever the bytes, the decoder extracts every symbol from sound registers and never fails. -/
theorem alphaDecode_safe (table : List ℕ) (h2 : 2 ≤ tableMod table) (h255 : tableMod table ≤ 255) (buf : List UInt8) :
    (∀ n, ∃ st, extractState table buf n ⟨0, 0, 0, 0⟩ = .ok st ∧ st.lval ≤ st.dval ∧ st.dval ≤ st.hval ∧
      tableMod table - 1 ≤ st.hval - st.lval ∧ st.hval < 2^56 ∧
      (st.dval - st.lval) * tableMod table / (st.hval - st.lval + 1) < tableMod table) ∧
    (∀ nchars, ∃ outs, alphaDecode table buf nchars = .ok outs ∧
      (buf ≠ [] → outs.length = nchars ∧ ∀ i < nchars, ∃ st₁ st₂ out, extractState table buf i ⟨0, 0, 0, 0⟩ = .ok st₁ ∧
        decodeSymbol table st₁ = .ok (out, st₂) ∧ outs[i]? = some (UInt8.ofNat out))) ∧
    (∀ data outs useOldTableMapping, ∃ r, alphaDecodeBest data outs useOldTableMapping = .ok r) := by
  refine ⟨fun n => ?_, fun nchars => ?_, alphaDecodeBest_ok⟩
  · obtain ⟨S, y, pos, hy, hstate⟩ := extractState_ok rfl buf n
      (RangeCoder.Interval.zero (registers (tableMod table) h2 h255)) (x := 0) (by norm_num : 0 < 2^32) ⟨le_rfl, le_rfl⟩
    have hwidth : tableMod table ≤ S.hi - S.lo + 1 := S.m_le_width
    have hroom : tableMod table - 1 ≤ S.hi - S.lo := by omega
    exact ⟨_, hstate, hy.1, hy.2, hroom, hi_lt S, S.symbol_lt hy⟩
  · rcases eq_or_ne nchars 0 with rfl | hpos
    · exact ⟨[], by simp [alphaDecode], fun _ => ⟨rfl, fun i hi => by omega⟩⟩
    rcases eq_or_ne buf [] with rfl | hne
    · exact ⟨[], by simp [alphaDecode], fun h => absurd rfl h⟩
    obtain ⟨outs, hloop, hlen⟩ := decodeLoop_ok rfl buf nchars
      (RangeCoder.Interval.zero (registers (tableMod table) h2 h255)) (x := 0) (by norm_num : 0 < 2^32) ⟨le_rfl, le_rfl⟩
    refine ⟨outs, ?_, fun _ => ⟨hlen, fun i hi => decodeLoop_extract buf hloop hi⟩⟩
    rw [alphaDecode, if_neg (by simp [hne, hpos]), if_neg (by omega)]
    exact hloop

theorem alphaDecode_safe_base10 : ∃ outs, alphaDecode base10sym [255, 0, 7] 20 = .ok outs ∧ outs.length = 20 := by
  obtain ⟨-, hdecode, -⟩ := alphaDecode_safe base10sym (by decide) (by decide) [255, 0, 7]
  obtain ⟨outs, hok, hlen⟩ := hdecode 20
  exact ⟨outs, hok, (hlen (by decide)).1⟩

/-- A table fits a string when the length of its code tells the length of the string. -/
def Fits (data : List UInt8) (p : List ℕ × List ℕ) : Prop := ∃ outv, alphaEncodeShortest p.1 p.2 data = .ok (some outv) ∧
  0 ≤ lenDiff p.2 outv.length data.length ∧ lenDiff p.2 outv.length data.length ≤ 15

/-- The place of the first table that fits. -/
def FirstFit (data : List UInt8) (i : ℕ) : Prop :=
  (∃ p, bestTables[i]? = some p ∧ Fits data p) ∧ ∀ j < i, ∀ q, bestTables[j]? = some q → ¬Fits data q

section Shortest
variable {decodeTable : List ℕ} {data outv : List UInt8}

/-- A size that the loop ends with was tested, unless it is the first. -/
lemma shortestLoop_spec (h2 : 2 ≤ tableMod decodeTable) (h256 : tableMod decodeTable ≤ 256) (size shortest : ℕ) :
    ∃ s, shortestLoop decodeTable data outv size shortest = .ok s ∧
      (s = shortest ∨ s ≤ size ∧ alphaDecode decodeTable (outv.take (s % 2^32)) data.length = .ok data) := by
  induction size generalizing shortest with
  | zero => exact ⟨shortest, rfl, Or.inl rfl⟩
  | succ size ih =>
    rw [shortestLoop]
    split_ifs with hrange
    · obtain ⟨s, hs, hspec⟩ := ih shortest
      exact ⟨s, hs, hspec.imp_right fun h => ⟨by omega, h.2⟩⟩
    · obtain ⟨decoded, hdecode⟩ := alphaDecode_ok h2 h256 (outv.take ((size + 1) % 2^32)) data.length
      rw [hdecode, ok_bind]
      split_ifs with hdiff
      · exact ⟨shortest, rfl, Or.inl rfl⟩
      · rw [not_or, not_not, not_not] at hdiff
        rw [hdiff.2] at hdecode
        obtain ⟨s, hs, hspec⟩ := ih (size + 1)
        refine ⟨s, hs, Or.inr ?_⟩
        rcases hspec with rfl | ⟨hle, htest⟩
        · exact ⟨le_rfl, hdecode⟩
        · exact ⟨by omega, htest⟩

/-- What `cc_alpha_encode_shortest` returns for a string that it can encode. -/
lemma alphaEncodeShortest_spec {encodeTable : List ℕ} (h2 : 2 ≤ tableMod decodeTable) (h256 : tableMod decodeTable ≤ 256)
    (hencode : alphaEncode encodeTable data = .ok (some outv)) :
    ∃ s ≤ outv.length, alphaEncodeShortest encodeTable decodeTable data = .ok (some (outv.take s)) ∧
      (s = outv.length ∨ alphaDecode decodeTable (outv.take (s % 2^32)) data.length = .ok data) := by
  obtain ⟨s, hs, hspec⟩ := @shortestLoop_spec decodeTable data outv h2 h256 outv.length outv.length
  refine ⟨s, ?_, ?_, hspec.imp_right And.right⟩
  · rcases hspec with rfl | h
    · exact le_rfl
    · exact h.1
  · rw [alphaEncodeShortest, hencode, ok_bind]
    dsimp only
    rw [hs, ok_bind]

lemma alphaEncodeShortest_none {encodeTable : List ℕ} (hencode : alphaEncode encodeTable data = .ok none) :
    alphaEncodeShortest encodeTable decodeTable data = .ok none := by
  rw [alphaEncodeShortest, hencode, ok_bind]

end Shortest

/-- The inverse of the ninth table, which is not in the list. -/
def base224sym : List ℕ := 224 :: 249 :: 214 :: (List.range 224).map (· + 32)

def base224 : SymbolTable :=
  .ofTables base224bin base224sym (inverse_range (by decide) (by decide)) (by decide) (by decide) (by decide)

lemma getD_base224 {k : ℕ} (h : k < 224) : base224bin.getD (k + 3) 0 = k := by
  rw [base224bin, List.getD_cons_succ, List.getD_cons_succ, List.getD_cons_succ, getD_range h]

/-- The characters of the ninth table are those from 32 on. -/
lemma destringifyChar_base224 {c : UInt8} (h : destringifyChar base224bin c ≠ 255) :
    c.toNat = destringifyChar base224bin c + 32 := by
  have hlt := c.toNat_lt
  rw [destringifyChar, show base224bin.getD 1 0 = 32 from rfl, show base224bin.getD 2 0 = 255 from rfl] at h ⊢
  split_ifs at h ⊢ with hc
  · exact absurd rfl h
  rw [getD_base224 (by omega)]
  omega

/-- The tables by their places: pairs of inverse tables, the one that is paired with itself, and the
table of all bytes. -/
lemma bestTables_cases {i : ℕ} {p : List ℕ × List ℕ} (hp : bestTables[i]? = some p) :
    (i < 9 ∧ ∃ T : SymbolTable, p = (T.bin, T.sym)) ∨ (i = 9 ∧ p = (base224bin, base224bin)) ∨
      (i = 10 ∧ p = (base256bin, base256sym)) := by
  rcases Nat.lt_or_ge i 9 with hlt | hge
  · have hmem : p ∈ bestTables.take 9 := by
      rw [← List.getElem?_take_of_lt hlt] at hp
      exact List.mem_of_getElem? hp
    obtain ⟨hinv, h2, h255, heq⟩ := inverse_bestTables p hmem
    exact Or.inl ⟨hlt, .ofTables p.1 p.2 hinv h2 h255 heq, rfl⟩
  · have hlen : i < 11 := (List.getElem?_eq_some_iff.1 hp).1
    obtain rfl | rfl : i = 9 ∨ i = 10 := by omega
    · exact Or.inr (Or.inl ⟨rfl, (Option.some.inj hp).symm⟩)
    · exact Or.inr (Or.inr ⟨rfl, (Option.some.inj hp).symm⟩)

lemma alphaEncode_base256 (data : List UInt8) : alphaEncode base256bin data = .ok (some data) := by
  unfold alphaEncode
  split_ifs with hne hmod
  · rw [hne]
  · rfl
  · exact absurd (by decide) hmod

lemma alphaEncode_best_ok (data : List UInt8) {i : ℕ} {p : List ℕ × List ℕ} (hp : bestTables[i]? = some p) :
    ∃ r, alphaEncode p.1 data = .ok r := by
  rcases bestTables_cases hp with ⟨-, T, rfl⟩ | ⟨-, rfl⟩ | ⟨-, rfl⟩
  · exact T.alphaEncode_total data
  · exact base224.alphaEncode_total data
  · exact ⟨_, alphaEncode_base256 data⟩

lemma alphaEncodeShortest_ok (data : List UInt8) {i : ℕ} {p : List ℕ × List ℕ} (hp : bestTables[i]? = some p) :
    ∃ r, alphaEncodeShortest p.1 p.2 data = .ok r := by
  obtain ⟨r, hr⟩ := alphaEncode_best_ok data hp
  obtain ⟨h2, h256⟩ := mod_bestTables p (List.mem_of_getElem? hp)
  cases r with
  | none => exact ⟨_, alphaEncodeShortest_none hr⟩
  | some outv =>
    obtain ⟨s, -, hs, -⟩ := alphaEncodeShortest_spec h2 h256 hr
    exact ⟨_, hs⟩

section BestLoop
variable {data : List UInt8}

/-- The loop returns with the first table that fits. -/
lemma bestLoop_of_first {ts : List (List ℕ × List ℕ)} (hok : ∀ p ∈ ts, ∃ r, alphaEncodeShortest p.1 p.2 data = .ok r)
    {k i : ℕ} {p : List ℕ × List ℕ} (hp : ts[k]? = some p) {outv : List UInt8}
    (hencode : alphaEncodeShortest p.1 p.2 data = .ok (some outv))
    (hlow : 0 ≤ lenDiff p.2 outv.length data.length) (hhigh : lenDiff p.2 outv.length data.length ≤ 15)
    (hfirst : ∀ j < k, ∀ q, ts[j]? = some q → ¬Fits data q) :
    bestLoop data i ts = .ok (some (UInt8.ofNat ((i + k) <<< 4 ||| (lenDiff p.2 outv.length data.length).toNat) :: outv)) := by
  induction ts generalizing k i with
  | nil => simp at hp
  | cons t ts ih =>
    obtain ⟨enc, dec⟩ := t
    cases k with
    | zero =>
      obtain rfl : (enc, dec) = p := by simpa using hp
      rw [bestLoop, hencode, ok_bind]
      dsimp only
      rw [if_neg (not_or.2 ⟨hlow.not_gt, hhigh.not_gt⟩), Nat.add_zero]
    | succ k =>
      have hskip : ¬Fits data (enc, dec) := hfirst 0 (Nat.succ_pos k) _ rfl
      have hrest := ih (fun q hq => hok q (List.mem_cons_of_mem _ hq)) (by simpa using hp)
        (fun j hj q hq => hfirst (j + 1) (by omega) q (by simpa using hq)) (i := i + 1)
      rw [Nat.add_assoc, Nat.add_comm 1 k] at hrest
      obtain ⟨r, hr⟩ := hok (enc, dec) List.mem_cons_self
      rw [bestLoop, hr, ok_bind]
      cases r with
      | none => exact hrest
      | some outv' =>
        dsimp only
        rw [if_pos, hrest]
        by_contra hin
        rw [not_or, not_lt, not_lt] at hin
        exact hskip ⟨outv', hr, hin⟩

/-- Without a table that fits it returns -1. -/
lemma bestLoop_none {ts : List (List ℕ × List ℕ)} (hok : ∀ p ∈ ts, ∃ r, alphaEncodeShortest p.1 p.2 data = .ok r)
    (hnone : ∀ p ∈ ts, ¬Fits data p) (i : ℕ) : bestLoop data i ts = .ok none := by
  induction ts generalizing i with
  | nil => rfl
  | cons t ts ih =>
    obtain ⟨enc, dec⟩ := t
    have hrest := ih (fun q hq => hok q (List.mem_cons_of_mem _ hq)) (fun q hq => hnone q (List.mem_cons_of_mem _ hq)) (i + 1)
    obtain ⟨r, hr⟩ := hok (enc, dec) List.mem_cons_self
    rw [bestLoop, hr, ok_bind]
    cases r with
    | none => exact hrest
    | some outv' =>
      dsimp only
      rw [if_pos, hrest]
      by_contra hin
      rw [not_or, not_lt, not_lt] at hin
      exact hnone (enc, dec) List.mem_cons_self ⟨outv', hr, hin⟩

end BestLoop

section Decode
variable {data outv : List UInt8} {i : ℕ} {p : List ℕ × List ℕ} (hp : bestTables[i]? = some p)
  (hlow : 0 ≤ lenDiff p.2 outv.length data.length) (hhigh : lenDiff p.2 outv.length data.length ≤ 15)

/-- The ratios of the tables are not small. -/
lemma resize_bestTables : ∀ p ∈ bestTables, p.2.getD 1 0 <<< 8 + p.2.getD 2 0 = 0 ∨
    2^13 ≤ p.2.getD 1 0 <<< 8 + p.2.getD 2 0 := by
  decide

include hp in
lemma expectedStrlen_lt (n : ℕ) : expectedStrlen p.2 n < 2^19 := by
  have hmod : n * (1 <<< 16) % 2^32 < 2^32 := Nat.mod_lt _ (by norm_num)
  unfold expectedStrlen
  dsimp only
  rcases resize_bestTables p (List.mem_of_getElem? hp) with hzero | hlarge
  · rw [if_pos hzero]
    exact Nat.div_lt_of_lt_mul (hmod.trans_le (by decide))
  · rw [if_neg (by omega)]
    refine Nat.div_lt_of_lt_mul (hmod.trans_le ?_)
    omega

lemma expectedStrlen_mod (table : List ℕ) (n : ℕ) : expectedStrlen table (n % 2^32) = expectedStrlen table n := by
  unfold expectedStrlen
  rw [Nat.mod_mul_mod]

/-- The first byte holds the place and the difference of lengths. -/
lemma head_fields : ∀ i < 11, ∀ d < 16, (UInt8.ofNat (i <<< 4 ||| d)).toNat >>> 4 = i ∧
    (UInt8.ofNat (i <<< 4 ||| d)).toNat &&& 15 = d := by
  decide +kernel

include hp hlow hhigh

/-- The decoder of a code reads the place and the number of characters. -/
lemma alphaDecodeBest_head (hlen : (outv.length + 1) % 2^32 ≠ 0) (outs : List UInt8) :
    alphaDecodeBest (UInt8.ofNat (i <<< 4 ||| (lenDiff p.2 outv.length data.length).toNat) :: outv) outs false =
      let nchars : ℤ := expectedStrlen p.2 outv.length - (lenDiff p.2 outv.length data.length - lengthDiffOffset)
      if nchars < 0 then .ok (0, outs)
      else (alphaDecode p.2 (outv.take ((outv.length + 1) % 2^32 - 1)) nchars.toNat).map fun s => (0, s) := by
  have hi : i < 11 := (List.getElem?_eq_some_iff.1 hp).1
  obtain ⟨hplace, hdiff⟩ := head_fields i hi (lenDiff p.2 outv.length data.length).toNat (by omega)
  have hexp : expectedStrlen p.2 ((outv.length + 1) % 2^32 - 1) = expectedStrlen p.2 outv.length := by
    rw [← expectedStrlen_mod p.2 outv.length]
    congr 1
    omega
  have htake : (UInt8.ofNat (i <<< 4 ||| (lenDiff p.2 outv.length data.length).toNat) :: outv).take
      ((outv.length + 1) % 2^32) = UInt8.ofNat (i <<< 4 ||| (lenDiff p.2 outv.length data.length).toNat) ::
        outv.take ((outv.length + 1) % 2^32 - 1) := by
    obtain ⟨k, hk⟩ := Nat.exists_eq_succ_of_ne_zero hlen
    rw [hk, List.take_succ_cons]
    rfl
  have hcast : (((lenDiff p.2 outv.length data.length).toNat : ℕ) : ℤ) = lenDiff p.2 outv.length data.length :=
    Int.toNat_of_nonneg hlow
  obtain ⟨enc, dec⟩ := p
  unfold alphaDecodeBest
  rw [List.length_cons]
  dsimp only at htake hplace hdiff hexp hcast ⊢
  rw [htake]
  dsimp only
  rw [hplace, if_neg (by simp), hp]
  dsimp only
  rw [hdiff, hexp, hcast]
  split_ifs with hneg
  · rfl
  · cases alphaDecode dec (outv.take ((outv.length + 1) % 2^32 - 1)) _ with
    | error e => rfl
    | ok s => rfl

/-- The decoder decodes with the table in its place, to the length of the string. -/
lemma alphaDecodeBest_fit (hdata : data.length < 2^32 - 6) (houtv : outv.length < 2^32 - 1) (outs : List UInt8) :
    alphaDecodeBest (UInt8.ofNat (i <<< 4 ||| (lenDiff p.2 outv.length data.length).toNat) :: outv) outs false =
      (alphaDecode p.2 outv data.length).map fun s => (0, s) := by
  have hexp := expectedStrlen_lt hp outv.length
  have hcount : (expectedStrlen p.2 outv.length : ℤ) - (lenDiff p.2 outv.length data.length - lengthDiffOffset) =
      data.length := by
    unfold lenDiff toInt lengthDiffOffset at *
    split_ifs at * <;> omega
  rw [alphaDecodeBest_head hp hlow hhigh (by omega)]
  dsimp only
  rw [hcount, if_neg (by omega), Int.toNat_natCast, List.take_of_length_le (by omega)]

/-- A string so long that the difference of lengths wraps around is not decoded. -/
lemma alphaDecodeBest_wrap (hdata : 2^32 - 6 ≤ data.length) (hlen : data.length < 2^32) :
    alphaDecodeBest (UInt8.ofNat (i <<< 4 ||| (lenDiff p.2 outv.length data.length).toNat) :: outv) [] false = .ok (0, []) := by
  rcases eq_or_ne ((outv.length + 1) % 2^32) 0 with hzero | hne
  · unfold alphaDecodeBest
    rw [List.length_cons, hzero]
    rfl
  · have hexp := expectedStrlen_lt hp outv.length
    have hcount :
        (expectedStrlen p.2 outv.length : ℤ) - (lenDiff p.2 outv.length data.length - lengthDiffOffset) < 0 := by
      unfold lenDiff toInt lengthDiffOffset at *
      split_ifs at * <;> omega
    rw [alphaDecodeBest_head hp hlow hhigh hne]
    dsimp only
    rw [if_pos hcount]

end Decode

/-- A string that a table encodes is one of its characters. -/
lemma SymbolTable.spells_of_encode (T : SymbolTable) {data outv : List UInt8}
    (h : alphaEncode T.bin data = .ok (some outv)) : T.Spells data := by
  by_contra hbad
  rw [T.alphaEncode_none hbad] at h
  cases Except.ok.inj h

section RoundTrip
variable {data : List UInt8} (hne : data ≠ [])
include hne

/-- A code has at most seven bytes for each character. -/
lemma length_full_le {i : ℕ} {p : List ℕ × List ℕ} (hp : bestTables[i]? = some p) {full : List UInt8}
    (h : alphaEncode p.1 data = .ok (some full)) : full.length ≤ 7 * data.length := by
  have table (T : SymbolTable) (h : alphaEncode T.bin data = .ok (some full)) : full.length ≤ 7 * data.length := by
    obtain ⟨outv, hencode, hlen, -⟩ := T.alphaEncode_spells hne (T.spells_of_encode h)
    rw [hencode] at h
    obtain rfl : outv = full := Option.some.inj (Except.ok.inj h)
    exact hlen
  rcases bestTables_cases hp with ⟨-, T, rfl⟩ | ⟨-, rfl⟩ | ⟨-, rfl⟩
  · exact table T h
  · exact table base224 h
  · rw [alphaEncode_base256] at h
    obtain rfl : data = full := Option.some.inj (Except.ok.inj h)
    omega

/-- In every place but the ninth, the tables decode what they encode. -/
lemma alphaDecode_full {i : ℕ} {p : List ℕ × List ℕ} (hp : bestTables[i]? = some p) (hi : i ≠ 9) {full : List UInt8}
    (h : alphaEncode p.1 data = .ok (some full)) (hdata : 7 * data.length < 2^32) :
    alphaDecode p.2 full data.length = .ok data := by
  rcases bestTables_cases hp with ⟨-, T, rfl⟩ | ⟨rfl, -⟩ | ⟨-, rfl⟩
  · obtain ⟨outv, hencode, hlen, hdecode⟩ := T.alphaEncode_spells hne (T.spells_of_encode h)
    rw [hencode] at h
    obtain rfl : outv = full := Option.some.inj (Except.ok.inj h)
    exact hdecode (by omega)
  · exact absurd rfl hi
  · rw [alphaEncode_base256] at h
    obtain rfl : data = full := Option.some.inj (Except.ok.inj h)
    have hpos : 0 < data.length := List.length_pos_iff.2 hne
    rw [alphaDecode, if_neg (not_or.2 ⟨hne, hpos.ne'⟩), if_pos (by decide), List.take_length]

/-- So do they after the code was made as short as possible. -/
lemma alphaDecode_shortest {i : ℕ} {p : List ℕ × List ℕ} (hp : bestTables[i]? = some p) {outv : List UInt8}
    (h : alphaEncodeShortest p.1 p.2 data = .ok (some outv)) (hdata : 7 * data.length < 2^32) :
    outv.length ≤ 7 * data.length ∧ (i ≠ 9 → alphaDecode p.2 outv data.length = .ok data) := by
  obtain ⟨h2, h256⟩ := mod_bestTables p (List.mem_of_getElem? hp)
  obtain ⟨r, hr⟩ := alphaEncode_best_ok data hp
  cases r with
  | none =>
    rw [alphaEncodeShortest_none hr] at h
    cases Except.ok.inj h
  | some full =>
    obtain ⟨s, hs, hshort, hspec⟩ := alphaEncodeShortest_spec h2 h256 hr
    have hlen := length_full_le hne hp hr
    rw [hshort] at h
    obtain rfl : full.take s = outv := Option.some.inj (Except.ok.inj h)
    refine ⟨(List.length_take_le _ _).trans (hs.trans hlen), fun hi => ?_⟩
    rcases hspec with rfl | htest
    · rw [List.take_length]
      exact alphaDecode_full hne hp hi hr hdata
    · rw [Nat.mod_eq_of_lt (by omega)] at htest
      exact htest

end RoundTrip

section Ninth
open RangeCoder

/-- The registers of the ninth table. -/
abbrev params224 : Params := registers 224 (by norm_num) (by norm_num)

lemma whole_symbol (y : ℕ) : (Settled.whole params224).symbol y = y * 224 / 2^56 := by
  have hhi := Settled.whole_hi params224
  have hlo := Settled.whole_lo params224
  rw [pow_p] at hhi
  rw [Settled.symbol, Settled.width, hlo, Nat.sub_zero, Nat.sub_zero, hhi]
  rfl

/-- The leading byte of seven. -/
lemma value_div {d : ℕ} {ds : List ℕ} (hds : ∀ z ∈ ds, z < 256) (hlen : ds.length = 6) :
    value 256 (d :: ds) / 2^48 = d := by
  have hrest := value_lt hds
  rw [hlen] at hrest
  rw [value_cons, hlen]
  omega

/-- The first symbol is read off the first seven bytes. -/
lemma alphaDecode_first {buf outs : List UInt8} {n : ℕ} (hne : buf ≠ []) (h : alphaDecode base224bin buf (n + 1) = .ok outs) :
    ∃ y < 2^56, y / 2^48 = inputByte buf 0 ∧ outs[0]? = some (UInt8.ofNat (y * 224 / 2^56)) := by
  have hloop : decodeLoop base224bin buf (n + 1) ⟨0, 0, 0, 0⟩ = .ok outs := by
    rw [alphaDecode, if_neg (not_or.2 ⟨hne, Nat.succ_ne_zero n⟩), if_neg (by decide)] at h
    exact h
  obtain ⟨st₁, st₂, out, hstate, hsym, hget⟩ := decodeLoop_extract buf hloop (Nat.succ_pos n)
  have hmod : tableMod base224bin = 224 := by decide
  obtain ⟨hshift, hmem⟩ := decodeShift_interval hmod buf (Interval.zero params224) (x := 0) (by norm_num : 0 < 2^32)
    ⟨le_rfl, le_rfl⟩
  have hshifts : (Interval.zero params224).shifts = 7 := Interval.shifts_zero
  have hval : params224.slide 0 (input buf 0 (Interval.zero params224).shifts) = value 256 (input buf 0 7) := by
    rw [hshifts, Params.slide, Nat.zero_mod, Nat.zero_mul, Nat.zero_add]
    rfl
  rw [hval] at hshift hmem
  have hextract := decodeSymbol_eq hmod (Interval.zero params224).refill hmem ((0 + (Interval.zero params224).shifts) % 2^32)
  have hlt : value 256 (input buf 0 7) < 2^56 := by
    have h := @value_lt 256 (input buf 0 7) fun _ => lt_of_mem_input
    rw [length_input] at h
    exact h
  have hsym224 : (Settled.whole params224).symbol (value 256 (input buf 0 7)) < 224 :=
    (Settled.whole params224).symbol_lt hmem
  obtain rfl := Except.ok.inj (hshift.symm.trans hstate)
  rw [hextract] at hsym
  have hout : base224bin.getD ((Settled.whole params224).symbol (value 256 (input buf 0 7)) + 3) 0 = out :=
    congrArg Prod.fst (Except.ok.inj hsym)
  rw [whole_symbol] at hout hsym224
  rw [getD_base224 hsym224] at hout
  refine ⟨value 256 (input buf 0 7), hlt, ?_, by rw [hget, hout]⟩
  rw [show input buf 0 7 = inputByte buf 0 :: (input buf 0 7).tail from rfl]
  exact value_div (fun z hz => lt_of_mem_input (List.mem_of_mem_tail hz)) (by rw [List.length_tail, length_input])

/-- The first byte of a code is that of a value in the part of the first symbol. -/
lemma code_first (c : Fin params224.m) (cs : List (Fin params224.m)) :
    ∃ w < 2^56, w / 2^48 = inputByte (base224.code (c :: cs)) 0 ∧ w * 224 / 2^56 = c := by
  have hmem := (Settled.whole params224).value_take_encode (phantom 224 (by norm_num) (by norm_num)) c cs
  have hge : 7 ≤ ((Settled.whole params224).encode (phantom 224 (by norm_num) (by norm_num)) (c :: cs)).length :=
    Settled.le_length_encode _ _ c cs
  have hdigit : ∀ z ∈ (Settled.whole params224).encode (phantom 224 (by norm_num) (by norm_num)) (c :: cs), z < 256 :=
    fun z hz => Settled.lt_of_mem_encode _ hz
  have hcode : base224.code (c :: cs) =
      ((Settled.whole params224).encode (phantom 224 (by norm_num) (by norm_num)) (c :: cs)).map UInt8.ofNat := rfl
  generalize (Settled.whole params224).encode (phantom 224 (by norm_num) (by norm_num)) (c :: cs) = ds at hmem hge hdigit hcode
  have hsym := (Settled.whole params224).symbol_of_mem_narrow hmem
  rw [whole_symbol] at hsym
  cases ds with
  | nil => simp at hge
  | cons d ds =>
    have hd := hdigit d List.mem_cons_self
    have hlt : value 256 ((d :: ds).take 7) < 2^56 := by
      have h := @value_lt 256 ((d :: ds).take 7) fun z hz => hdigit z (List.mem_of_mem_take hz)
      rw [List.length_take, Nat.min_eq_left hge] at h
      exact h
    refine ⟨value 256 ((d :: ds).take 7), hlt, ?_, hsym⟩
    rw [List.take_succ_cons, hcode, List.map_cons, inputByte, List.getElem?_cons_zero]
    dsimp only
    rw [UInt8.toNat_ofNat_of_lt' hd]
    rw [List.length_cons] at hge
    exact value_div (fun z hz => hdigit z (List.mem_cons_of_mem _ (List.mem_of_mem_take hz)))
      (by rw [List.length_take]; omega)

/-- The ninth table never decodes what it encodes. -/
lemma alphaDecode_ninth {data outv : List UInt8} (hne : data ≠ [])
    (h : alphaEncodeShortest base224bin base224bin data = .ok (some outv)) :
    alphaDecode base224bin outv data.length ≠ .ok data := by
  obtain ⟨r, hr⟩ := base224.alphaEncode_total data
  change alphaEncode base224bin data = .ok r at hr
  cases r with
  | none =>
    rw [alphaEncodeShortest_none hr] at h
    cases Except.ok.inj h
  | some full =>
    obtain ⟨s, -, hshort, -⟩ := @alphaEncodeShortest_spec base224bin _ _ _ (by decide) (by decide) hr
    rw [hshort] at h
    obtain rfl : full.take s = outv := Option.some.inj (Except.ok.inj h)
    obtain ⟨c, cs, hcs, hcount⟩ := (base224.spells_of_encode hr).exists_cons hne
    obtain rfl : base224.code (c :: cs) = full := by
      have hcode := base224.alphaEncode_eq hcs
      change alphaEncode base224bin data = _ at hcode
      rw [hr] at hcode
      exact (Option.some.inj (Except.ok.inj hcode)).symm
    intro hdecode
    have hbuf : (base224.code (c :: cs)).take s ≠ [] := by
      intro hnil
      rw [hnil, alphaDecode, if_pos (Or.inl rfl)] at hdecode
      exact hne (Except.ok.inj hdecode).symm
    rw [← hcount] at hdecode
    obtain ⟨y, hy, hbyte, hfirst⟩ := alphaDecode_first hbuf hdecode
    obtain ⟨w, hw, hbyte', hsym⟩ := code_first c cs
    have hsame : inputByte ((base224.code (c :: cs)).take s) 0 = inputByte (base224.code (c :: cs)) 0 := by
      have hpos : 0 < s := Nat.pos_of_ne_zero fun hzero => hbuf (by rw [hzero, List.take_zero])
      rw [inputByte, List.getElem?_take_of_lt hpos]
      rfl
    cases data with
    | nil => exact hne rfl
    | cons b data =>
      rw [List.map_cons, List.map_cons, List.cons.injEq] at hcs
      have hchar : b.toNat = c + 32 := by
        have hc : (c : ℕ) < 224 := c.isLt
        change destringifyChar base224bin b = c ∧ _ at hcs
        have hb := destringifyChar_base224 (c := b) (by rw [hcs.1]; omega)
        rwa [hcs.1] at hb
      have hfirst' : b = UInt8.ofNat (y * 224 / 2^56) := Option.some.inj hfirst
      have hvalue : b.toNat = y * 224 / 2^56 := by
        rw [hfirst', UInt8.toNat_ofNat_of_lt']
        change _ < 256
        omega
      omega

end Ninth

/-- A code that the encoder returns is decoded to the string, and whatever `outs` held is replaced. -/
def RoundTrips (data : List UInt8) : Prop :=
  ∀ outv, alphaEncodeBest data = .ok (some outv) → ∀ outs, alphaDecodeBest outv outs false = .ok (0, data)

/-- Where the decoder returns 0, what it leaves in `outs` does not depend on what was there. -/
def SetsOuts (data : List UInt8) (useOldTableMapping : Bool) : Prop :=
  ∀ outs r, alphaDecodeBest data outs useOldTableMapping = .ok (0, r) →
    ∃ s, ∀ outs', alphaDecodeBest data outs' useOldTableMapping = .ok (0, s)

/-- The number of characters told by the first byte and the size is negative. -/
def NegativeLength (data : List UInt8) (useOldTableMapping : Bool) : Prop :=
  ∃ head buf p, data.take (data.length % 2^32) = head :: buf ∧
    bestTables[if head.toNat >>> 4 = 9 ∧ useOldTableMapping then 10 else head.toNat >>> 4]? = some p ∧
    (expectedStrlen p.2 (data.length % 2^32 - 1) : ℤ) - ((head.toNat &&& 15 : ℕ) - lengthDiffOffset) < 0

lemma setsOuts_iff (data : List UInt8) (useOldTableMapping : Bool) :
    SetsOuts data useOldTableMapping ↔ ¬NegativeLength data useOldTableMapping := by
  constructor
  · rintro hsets ⟨head, buf, p, hdata, hp, hneg⟩
    have hkeep : ∀ outs, alphaDecodeBest data outs useOldTableMapping = .ok (0, outs) := by
      intro outs
      unfold alphaDecodeBest
      dsimp only
      rw [hdata]
      dsimp only
      rw [hp]
      exact if_pos hneg
    obtain ⟨s, hs⟩ := hsets [] [] (hkeep [])
    have h0 := (hkeep []).symm.trans (hs [])
    have h1 := (hkeep [0]).symm.trans (hs [0])
    have heq : (0, []) = ((0, [0]) : ℤ × List UInt8) := (Except.ok.inj h0).trans (Except.ok.inj h1).symm
    exact absurd (congrArg Prod.snd heq) (by simp)
  · intro hneg outs r hr
    unfold alphaDecodeBest at hr ⊢
    dsimp only at hr ⊢
    split at hr
    · exact ⟨[], fun _ => rfl⟩
    · rename_i head buf hdata
      split at hr
      · have hret : (-1 : ℤ) = 0 := congrArg Prod.fst (Except.ok.inj hr)
        omega
      · rename_i encodeTable decodeTable hp
        have hpos : ¬(expectedStrlen decodeTable (data.length % 2^32 - 1) : ℤ) -
            ((head.toNat &&& 15 : ℕ) - lengthDiffOffset) < 0 := fun hlt => hneg ⟨head, buf, _, hdata, hp, hlt⟩
        rw [if_neg hpos] at hr
        exact ⟨r, fun _ => by rw [if_neg hpos]; exact hr⟩

lemma firstFit_encode {data : List UInt8} {i : ℕ} (h : FirstFit data i) : ∃ p outv, bestTables[i]? = some p ∧
    alphaEncodeShortest p.1 p.2 data = .ok (some outv) ∧ 0 ≤ lenDiff p.2 outv.length data.length ∧
    lenDiff p.2 outv.length data.length ≤ 15 ∧ (data ≠ [] → alphaEncodeBest data =
      .ok (some (UInt8.ofNat (i <<< 4 ||| (lenDiff p.2 outv.length data.length).toNat) :: outv))) := by
  obtain ⟨⟨p, hp, outv, hencode, hlow, hhigh⟩, hfirst⟩ := h
  refine ⟨p, outv, hp, hencode, hlow, hhigh, fun hne => ?_⟩
  have hok : ∀ q ∈ bestTables, ∃ r, alphaEncodeShortest q.1 q.2 data = .ok r := fun q hq => by
    obtain ⟨j, hj⟩ := List.mem_iff_getElem?.1 hq
    exact alphaEncodeShortest_ok data hj
  have hloop := bestLoop_of_first (i := 0) hok hp hencode hlow hhigh hfirst
  rw [Nat.zero_add] at hloop
  rw [alphaEncodeBest, if_neg hne, hloop]

/-- A string that is encoded has a first table that fits. -/
lemma exists_firstFit {data outv : List UInt8} (hne : data ≠ []) (h : alphaEncodeBest data = .ok (some outv)) :
    ∃ i, FirstFit data i := by
  classical
  by_contra hnone
  have hfits : ∀ (i : ℕ) (p : List ℕ × List ℕ), bestTables[i]? = some p → ¬Fits data p := by
    intro i
    induction i using Nat.strong_induction_on with
    | h i ih =>
      intro p hp hfit
      exact hnone ⟨i, ⟨p, hp, hfit⟩, ih⟩
  have hok : ∀ q ∈ bestTables, ∃ r, alphaEncodeShortest q.1 q.2 data = .ok r := fun q hq => by
    obtain ⟨j, hj⟩ := List.mem_iff_getElem?.1 hq
    exact alphaEncodeShortest_ok data hj
  have hloop := bestLoop_none hok (fun q hq => by
    obtain ⟨j, hj⟩ := List.mem_iff_getElem?.1 hq
    exact hfits j q hj) 0
  rw [alphaEncodeBest, if_neg hne, hloop] at h
  cases Except.ok.inj h

/-- A string whose first fitting table tells its length is shorter than what fits a table. -/
lemma length_lt_of_fit {data outv : List UInt8} {i : ℕ} {p : List ℕ × List ℕ} (hp : bestTables[i]? = some p)
    (hlow : 0 ≤ lenDiff p.2 outv.length data.length) (hhigh : lenDiff p.2 outv.length data.length ≤ 15)
    (hdata : data.length < 2^32 - 6) : data.length < 2^20 := by
  have hexp := expectedStrlen_lt hp outv.length
  unfold lenDiff toInt lengthDiffOffset at *
  split_ifs at * <;> omega

/-- The codec round trips just when the first table that fits is not the ninth and the length is not
next to 2^32; and the decoder sets `outs` just when the number of characters is not negative. -/
theorem alphaBest_iff (data : List UInt8) (hlen : data.length < 2^32) (buf : List UInt8) (useOldTableMapping : Bool) :
    (RoundTrips data ↔ ∀ i, FirstFit data i → i ≠ 9 ∧ data.length < 2^32 - 6) ∧
    (SetsOuts buf useOldTableMapping ↔ ¬NegativeLength buf useOldTableMapping) := by
  refine ⟨?_, setsOuts_iff buf useOldTableMapping⟩
  rcases eq_or_ne data [] with rfl | hne
  · have hempty : Fits [] (base10bin, base10sym) := ⟨[], rfl, by decide, by decide⟩
    refine iff_of_true (fun outv houtv outs => ?_) fun i hi => ⟨?_, by simp⟩
    · obtain rfl : [] = outv := Option.some.inj (Except.ok.inj houtv)
      rfl
    · rintro rfl
      exact hi.2 0 (by norm_num) _ rfl hempty
  constructor
  · intro hround i hi
    obtain ⟨p, outv, hp, hencode, hlow, hhigh, hbest⟩ := firstFit_encode hi
    have hdata : data.length < 2^32 - 6 := by
      by_contra hlong
      have hwrap := alphaDecodeBest_wrap hp hlow hhigh (by omega) hlen
      rw [hround _ (hbest hne) []] at hwrap
      exact hne (congrArg Prod.snd (Except.ok.inj hwrap))
    refine ⟨?_, hdata⟩
    rintro rfl
    obtain rfl : (base224bin, base224bin) = p := Option.some.inj hp
    have hshort := length_lt_of_fit hp hlow hhigh hdata
    obtain ⟨houtv, -⟩ := alphaDecode_shortest hne hp hencode (by omega)
    have hdecode := alphaDecodeBest_fit hp hlow hhigh hdata (by omega) []
    rw [hround _ (hbest hne) []] at hdecode
    cases hninth : alphaDecode base224bin outv data.length with
    | error e =>
      rw [hninth] at hdecode
      cases hdecode
    | ok s =>
      rw [hninth] at hdecode
      obtain rfl : data = s := congrArg Prod.snd (Except.ok.inj hdecode)
      exact alphaDecode_ninth hne hencode hninth
  · intro hcond outv houtv outs
    obtain ⟨i, hi⟩ := exists_firstFit hne houtv
    obtain ⟨hi9, hdata⟩ := hcond i hi
    obtain ⟨p, outv', hp, hencode, hlow, hhigh, hbest⟩ := firstFit_encode hi
    rw [hbest hne] at houtv
    obtain rfl := Option.some.inj (Except.ok.inj houtv)
    have hshort := length_lt_of_fit hp hlow hhigh hdata
    obtain ⟨hlen', hdecode⟩ := alphaDecode_shortest hne hp hencode (by omega)
    rw [alphaDecodeBest_fit hp hlow hhigh hdata (by omega), hdecode hi9]
    rfl

theorem alphaBest_iff_2016 : (RoundTrips [50, 48, 49, 54] ↔ ∀ i, FirstFit [50, 48, 49, 54] i → i ≠ 9 ∧ 4 < 2^32 - 6) ∧
    (SetsOuts [0x0f] false ↔ ¬NegativeLength [0x0f] false) :=
  alphaBest_iff [50, 48, 49, 54] (by norm_num) [0x0f] false

/-- One byte that asks for six characters fewer than none leaves `outs` as it was. -/
theorem alphaDecodeBest_keeps : ¬∀ data useOldTableMapping, SetsOuts data useOldTableMapping := by
  intro h
  refine (setsOuts_iff [0x0f] false).1 (h [0x0f] false) ⟨0x0f, [], (base10bin, base10sym), rfl, rfl, ?_⟩
  decide

end CredaCash.Text
