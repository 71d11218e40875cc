import CredaCash.CodeSearch
import CredaCash.Exchange.ExpTable
import Mathlib.Algebra.Order.Group.Nat
import Mathlib.Data.Nat.Find

/-! The mapping of times to codes: a code stands for a time that grows exponentially, interpolated in a table. -/

namespace CredaCash.Exchange
open CodeSearch Interpolation

/-- `exp_map_t`, without the base, which nothing reads. -/
structure ExpMap where
  offset : ℕ
  step : ℕ
  encMax : ℕ
  decMax : ℕ
  unityIndex : ℕ
  deriving Repr, DecidableEq

def expInterpBits : ℕ := 22
def expInterpMax : ℕ := 1 <<< expInterpBits
def expInterpMask : ℕ := expInterpMax - 1
def expIndexMax : ℕ := (expTableSize - 1) <<< expInterpBits

/-- `map_exp_encoded_to_index`: a product of 64 bits, and a result of 32. -/
def mapExpEncodedToIndex (params : ExpMap) (enc : ℕ) : ℕ :=
  ((expIndexMax + 2^32 - params.unityIndex) % 2^32 * enc % 2^64 / params.encMax + params.unityIndex) % 2^64 % 2^32

def mapExpGetExp (index : ℕ) : ℕ :=
  let val0 := expAt (index >>> expInterpBits)
  if expIndexMax ≤ index then val0
  else
    let val1 := expAt (index >>> expInterpBits + 1)
    let pos := index &&& expInterpMask
    ((((val1 + 2^64 - val0) % 2^64 * pos + expInterpMax / 2) % 2^64) / expInterpMax + val0) % 2^64 % 2^32

/-- What `map_exp_decode` returns when it returns. -/
def decodeValue (params : ExpMap) (enc : ℕ) : ℕ :=
  let unity := mapExpGetExp params.unityIndex
  let index := mapExpEncodedToIndex params enc
  let exp := mapExpGetExp index
  (params.offset + params.step * enc % 2^64 * exp % 2^64 / unity) % 2^64 % 2^32

/-- `map_exp_decode`; none when it divides by zero. -/
def mapExpDecode (params : ExpMap) (enc : ℕ) : Option ℕ :=
  if params.encMax = 0 then none else some (decodeValue params enc)

/-- `map_exp_init_params`, with the value that floating point gives for the start of the search, and with fuel for
the two loops of the search; none when it divides by zero, too. -/
def mapExpInitParams (fuel offset step encMax decMax unityIndex seed : ℕ) : Option ExpMap :=
  let params : ExpMap := ⟨offset, step, encMax, decMax, unityIndex⟩
  if unityIndex ≤ expIndexMax then some params
  else if encMax = 0 then none
  else do
    let dec := fun unityIndex => decodeValue { params with unityIndex := unityIndex } encMax
    let down ← seek (fun unityIndex => (unityIndex + 2^32 - 1) % 2^32) (fun unityIndex => decMax < dec unityIndex) fuel seed
    let up ← seek (fun unityIndex => (unityIndex + 1) % 2^32) (fun unityIndex => dec unityIndex ≤ decMax) fuel down
    return { params with unityIndex := up }

/-- `map_exp_encode`, its three loops one after the other; none when it divides by zero. -/
def mapExpEncode (params : ExpMap) (val : ℕ) (roundup : Bool) : Option ℕ :=
  if val ≤ params.offset then some 0
  else if params.decMax ≤ val then some params.encMax
  else if params.step = 0 ∨ params.encMax = 0 then none
  else
    let dec := decodeValue params
    let enc := min ((val - params.offset) / params.step) params.encMax
    let enc := lower (fun enc => roundup && val ≤ dec enc) enc
    let enc := raise (fun enc => dec enc < val || !roundup && dec enc ≤ val) (params.encMax - enc) enc
    some (lower (fun enc => !roundup && val < dec enc) enc)

section Table
variable {index x y : ℕ}

/-- The table as it is meant: without a width. -/
def exactExp (index : ℕ) : ℕ := interp expAt expInterpMax index

lemma expIndexMax_eq : expIndexMax = (expTableSize - 1) * expInterpMax := by decide

lemma exactExp_monotoneOn : MonotoneOn exactExp (Set.Iic expIndexMax) := by
  rw [expIndexMax_eq]
  exact interp_monotoneOn (by decide) expAt_monotoneOn

lemma div_expInterpMax_le (hi : index ≤ expIndexMax) : index / expInterpMax < expTableSize := by
  rw [expIndexMax_eq] at hi
  exact (Nat.div_le_of_le_mul (by rwa [Nat.mul_comm])).trans_lt (by decide)

lemma div_expInterpMax_lt (hi : index < expIndexMax) : index / expInterpMax + 1 < expTableSize := by
  rw [expIndexMax_eq, ← Nat.div_lt_iff_lt_mul (by decide)] at hi
  exact Nat.lt_sub_iff_add_lt.1 hi

lemma exactExp_expIndexMax : exactExp expIndexMax = 2^32 - 1 := by decide +kernel

lemma le_exactExp (hi : index ≤ expIndexMax) : 3550 ≤ exactExp index :=
  (expTable_bounds _ (expAt_mem (div_expInterpMax_le hi))).1.trans le_interp

lemma exactExp_lt (hi : index ≤ expIndexMax) : exactExp index < 2^32 := by
  have hle := exactExp_monotoneOn hi (le_refl expIndexMax) hi
  rw [exactExp_expIndexMax] at hle
  omega

/-- What is divided when an entry is interpolated. -/
def interpDividend (index : ℕ) : ℕ :=
  (expAt (index / expInterpMax + 1) - expAt (index / expInterpMax)) * (index % expInterpMax) + expInterpMax / 2

lemma interpDividend_lt (hi : index < expIndexMax) : interpDividend index < 2^64 := by
  have hnext := (expTable_bounds _ (expAt_mem (div_expInterpMax_lt hi))).2
  have hmod : index % expInterpMax < 2^22 := Nat.mod_lt _ (by decide)
  have hmul :
      (expAt (index / expInterpMax + 1) - expAt (index / expInterpMax)) * (index % expInterpMax) ≤ 2^32 * 2^22 :=
    Nat.mul_le_mul (by omega) hmod.le
  have hhalf : expInterpMax / 2 = 2^21 := rfl
  unfold interpDividend
  omega

/-- The machine reads the table as it is meant. -/
lemma mapExpGetExp_eq (hi : index ≤ expIndexMax) : mapExpGetExp index = exactExp index := by
  have hlt := exactExp_lt hi
  unfold mapExpGetExp
  dsimp only
  split_ifs with hmax
  · obtain rfl := le_antisymm hi hmax
    rw [exactExp_expIndexMax]
    decide +kernel
  · rw [not_le] at hmax
    have hshift : index >>> expInterpBits = index / expInterpMax := Nat.shiftRight_eq_div_pow index 22
    have hmask : index &&& expInterpMask = index % expInterpMax := Nat.and_two_pow_sub_one_eq_mod index 22
    have hnext := (expTable_bounds _ (expAt_mem (div_expInterpMax_lt hmax))).2
    have hle : index / expInterpMax + 1 ≤ expTableSize - 1 := Nat.le_sub_one_of_lt (div_expInterpMax_lt hmax)
    have hmono : expAt (index / expInterpMax) ≤ expAt (index / expInterpMax + 1) :=
      expAt_monotoneOn ((Nat.le_succ _).trans hle) hle (Nat.le_succ _)
    have hdiff : (expAt (index / expInterpMax + 1) + 2^64 - expAt (index / expInterpMax)) % 2^64 =
        expAt (index / expInterpMax + 1) - expAt (index / expInterpMax) := by omega
    have hdividend := interpDividend_lt hmax
    unfold interpDividend at hdividend
    rw [hshift, hmask, hdiff, Nat.mod_eq_of_lt hdividend, ← interp, Nat.mod_mod_of_dvd _ (by decide)]
    exact Nat.mod_eq_of_lt hlt

end Table

section Decode
variable {p : ExpMap} {enc enc' : ℕ}

/-- The index of a code as it is meant. -/
def exactIndex (p : ExpMap) (enc : ℕ) : ℕ := (expIndexMax - p.unityIndex) * enc / p.encMax + p.unityIndex

/-- The time of a code as it is meant. -/
def exactDecode (p : ExpMap) (enc : ℕ) : ℕ :=
  p.offset + p.step * enc * exactExp (exactIndex p enc) / exactExp p.unityIndex

/-- Parameters that leave the table some room, with their index in the table. -/
structure InTable (p : ExpMap) : Prop where
  encMax_pos : 0 < p.encMax
  step_pos : 0 < p.step
  room : p.offset + p.step * p.encMax < p.decMax
  decMax_lt : p.decMax < 2^32
  unity_le : p.unityIndex ≤ expIndexMax

/-- Every number that the machine computes for a code is what is meant. -/
structure NoOverflow (p : ExpMap) (enc : ℕ) : Prop where
  indexProduct : (expIndexMax - p.unityIndex) * enc < 2^64
  index : exactIndex p enc < 2^32
  interpUnity : p.unityIndex < expIndexMax → interpDividend p.unityIndex < 2^64
  interpIndex : exactIndex p enc < expIndexMax → interpDividend (exactIndex p enc) < 2^64
  product : p.step * enc * exactExp (exactIndex p enc) < 2^64
  result : exactDecode p enc < 2^32

lemma InTable.encMax_lt (h : InTable p) : p.encMax < 2^32 := by
  have hmul := Nat.le_mul_of_pos_left p.encMax h.step_pos
  have hroom := h.room
  have hlt := h.decMax_lt
  omega

lemma exactIndex_encMax (h : InTable p) : exactIndex p p.encMax = expIndexMax := by
  rw [exactIndex, Nat.mul_div_cancel _ h.encMax_pos, Nat.sub_add_cancel h.unity_le]

lemma exactIndex_mono (p : ExpMap) (h : enc ≤ enc') : exactIndex p enc ≤ exactIndex p enc' :=
  Nat.add_le_add_right (Nat.div_le_div_right (Nat.mul_le_mul_left _ h)) _

lemma exactIndex_le (h : InTable p) (he : enc ≤ p.encMax) : exactIndex p enc ≤ expIndexMax := by
  rw [← exactIndex_encMax h]
  exact exactIndex_mono p he

/-- Greater codes stand for times that are not smaller. -/
lemma exactDecode_mono (h : InTable p) (hle : enc ≤ enc') (he : enc' ≤ p.encMax) :
    exactDecode p enc ≤ exactDecode p enc' := by
  have hexp := exactExp_monotoneOn (exactIndex_le h (hle.trans he)) (exactIndex_le h he) (exactIndex_mono p hle)
  unfold exactDecode
  apply Nat.add_le_add_left
  apply Nat.div_le_div_right
  exact Nat.mul_le_mul (Nat.mul_le_mul_left _ hle) hexp

lemma unityIndex_le_exactIndex (p : ExpMap) (enc : ℕ) : p.unityIndex ≤ exactIndex p enc := Nat.le_add_left _ _

/-- No two codes stand for the same time: each code adds a step at least. -/
lemma exactDecode_strictMono (h : InTable p) (hlt : enc < enc') (he : enc' ≤ p.encMax) :
    exactDecode p enc < exactDecode p enc' := by
  have hindex := exactIndex_le h he
  have hexp := exactExp_monotoneOn (exactIndex_le h (hlt.le.trans he)) hindex (exactIndex_mono p hlt.le)
  have hunity := exactExp_monotoneOn h.unity_le hindex (unityIndex_le_exactIndex p enc')
  have hpos : 0 < exactExp p.unityIndex := (Nat.zero_lt_succ _).trans_le (le_exactExp h.unity_le)
  have hone := Nat.le_mul_of_pos_left (exactExp (exactIndex p enc')) h.step_pos
  have hmore : p.step * enc * exactExp (exactIndex p enc) + exactExp p.unityIndex ≤
      p.step * enc' * exactExp (exactIndex p enc') :=
    calc p.step * enc * exactExp (exactIndex p enc) + exactExp p.unityIndex
      _ ≤ p.step * enc * exactExp (exactIndex p enc') + p.step * exactExp (exactIndex p enc') :=
        Nat.add_le_add (Nat.mul_le_mul_left _ hexp) (hunity.trans hone)
      _ = p.step * (enc + 1) * exactExp (exactIndex p enc') := by rw [Nat.mul_succ, Nat.add_mul]
      _ ≤ p.step * enc' * exactExp (exactIndex p enc') := Nat.mul_le_mul_right _ (Nat.mul_le_mul_left _ hlt)
  have hdiv := Nat.div_le_div_right (c := exactExp p.unityIndex) hmore
  rw [Nat.add_div_right _ hpos] at hdiv
  exact Nat.add_lt_add_left hdiv _

lemma indexProduct_lt (h : InTable p) (he : enc ≤ p.encMax) : (expIndexMax - p.unityIndex) * enc < 2^64 := by
  have hlt := h.encMax_lt
  have hmax : expIndexMax < 2^32 := by decide
  have hmul : (expIndexMax - p.unityIndex) * enc ≤ expIndexMax * p.encMax := Nat.mul_le_mul (Nat.sub_le _ _) he
  have hbound : expIndexMax * p.encMax ≤ expIndexMax * 2^32 := Nat.mul_le_mul_left _ hlt.le
  have hlimit : expIndexMax * 2^32 < 2^64 := by decide
  omega

lemma product_lt (h : InTable p) (he : enc ≤ p.encMax) : p.step * enc * exactExp (exactIndex p enc) < 2^64 := by
  have hroom := h.room
  have hlt := h.decMax_lt
  have hexp := exactExp_lt (exactIndex_le h he)
  have hmul := Nat.mul_le_mul_left p.step he
  calc p.step * enc * exactExp (exactIndex p enc) ≤ p.step * enc * 2^32 := Nat.mul_le_mul_left _ hexp.le
    _ < 2^32 * 2^32 := Nat.mul_lt_mul_of_pos_right (by omega) (by decide)
    _ = 2^64 := by decide

lemma mapExpEncodedToIndex_eq (h : InTable p) (he : enc ≤ p.encMax) :
    mapExpEncodedToIndex p enc = exactIndex p enc := by
  have hunity := h.unity_le
  have hmax : expIndexMax < 2^32 := by decide
  have hsub : (expIndexMax + 2^32 - p.unityIndex) % 2^32 = expIndexMax - p.unityIndex := by omega
  have hle := exactIndex_le h he
  rw [mapExpEncodedToIndex, hsub, Nat.mod_eq_of_lt (indexProduct_lt h he), ← exactIndex, Nat.mod_mod_of_dvd _ (by decide)]
  exact Nat.mod_eq_of_lt (hle.trans_lt hmax)

/-- What the machine decodes is what is meant, in 32 bits. -/
lemma decodeValue_eq_mod (h : InTable p) (he : enc ≤ p.encMax) : decodeValue p enc = exactDecode p enc % 2^32 := by
  have hproduct := product_lt h he
  have hroom := h.room
  have hlt := h.decMax_lt
  have hmul := Nat.mul_le_mul_left p.step he
  unfold decodeValue
  dsimp only
  rw [mapExpEncodedToIndex_eq h he, mapExpGetExp_eq (exactIndex_le h he), mapExpGetExp_eq h.unity_le,
    Nat.mod_eq_of_lt (show p.step * enc < 2^64 by omega), Nat.mod_eq_of_lt hproduct, ← exactDecode,
    Nat.mod_mod_of_dvd _ (by decide)]

/-- Parameters whose greatest code stands for a time within the maximum. -/
structure Fits (p : ExpMap) : Prop extends InTable p where
  top : exactDecode p p.encMax ≤ p.decMax

lemma Fits.exactDecode_le (h : Fits p) (he : enc ≤ p.encMax) : exactDecode p enc ≤ p.decMax :=
  (exactDecode_mono h.toInTable he le_rfl).trans h.top

lemma Fits.decodeValue_eq (h : Fits p) (he : enc ≤ p.encMax) : decodeValue p enc = exactDecode p enc := by
  rw [decodeValue_eq_mod h.toInTable he]
  exact Nat.mod_eq_of_lt ((h.exactDecode_le he).trans_lt h.decMax_lt)

lemma Fits.mapExpDecode_eq (h : Fits p) (he : enc ≤ p.encMax) : mapExpDecode p enc = some (exactDecode p enc) := by
  rw [mapExpDecode, if_neg h.encMax_pos.ne', h.decodeValue_eq he]

lemma exactDecode_zero (p : ExpMap) : exactDecode p 0 = p.offset := by
  rw [exactDecode, Nat.mul_zero, Nat.zero_mul, Nat.zero_div, Nat.add_zero]

lemma Fits.noOverflow (h : Fits p) (he : enc ≤ p.encMax) : NoOverflow p enc where
  indexProduct := indexProduct_lt h.toInTable he
  index := (exactIndex_le h.toInTable he).trans_lt (by decide)
  interpUnity := interpDividend_lt
  interpIndex := interpDividend_lt
  product := product_lt h.toInTable he
  result := (h.exactDecode_le he).trans_lt h.decMax_lt

end Decode

section Encode
variable {p : ExpMap} {val : ℕ}

lemma Fits.monotoneOn (h : Fits p) : MonotoneOn (decodeValue p) (Set.Iic p.encMax) := by
  intro enc he enc' he' hle
  rw [h.decodeValue_eq he, h.decodeValue_eq he']
  exact exactDecode_mono h.toInTable hle he'

/-- Rounding up gives the least code whose time is large enough, and the greatest code when there is none. -/
theorem Fits.mapExpEncode_up (h : Fits p) (val : ℕ) : ∃ enc, mapExpEncode p val true = some enc ∧
    IsLeast {k | k ≤ p.encMax ∧ (val ≤ decodeValue p k ∨ k = p.encMax)} enc := by
  unfold mapExpEncode
  dsimp only
  split_ifs with hoffset hmax hzero
  · refine ⟨0, rfl, ⟨Nat.zero_le _, Or.inl ?_⟩, fun k _ => Nat.zero_le k⟩
    rwa [h.decodeValue_eq (Nat.zero_le _), exactDecode_zero]
  · refine ⟨p.encMax, rfl, ⟨le_rfl, Or.inr rfl⟩, ?_⟩
    rintro k ⟨hk, hval | rfl⟩
    · by_contra hlt
      have hless := exactDecode_strictMono h.toInTable (not_le.1 hlt) le_rfl
      rw [h.decodeValue_eq hk] at hval
      exact absurd (hless.trans_le (h.top.trans hmax)) (not_lt.2 hval)
    · exact le_rfl
  · have hs := h.step_pos
    have he := h.encMax_pos
    omega
  · refine ⟨_, rfl, ?_⟩
    simp only [Bool.true_and, Bool.not_true, Bool.false_and, Bool.or_false, lower_false]
    exact isLeast_raise_lower h.monotoneOn (min_le_right _ _)

/-- Rounding down gives the greatest code whose time is small enough, and 0 when there is none. -/
theorem Fits.mapExpEncode_down (h : Fits p) (val : ℕ) : ∃ enc, mapExpEncode p val false = some enc ∧
    IsGreatest {k | k ≤ p.encMax ∧ (decodeValue p k ≤ val ∨ k = 0)} enc := by
  unfold mapExpEncode
  dsimp only
  split_ifs with hoffset hmax hzero
  · refine ⟨0, rfl, ⟨Nat.zero_le _, Or.inr rfl⟩, ?_⟩
    rintro k ⟨hk, hval | rfl⟩
    · by_contra hlt
      have hless := exactDecode_strictMono h.toInTable (not_le.1 hlt) hk
      rw [exactDecode_zero] at hless
      rw [h.decodeValue_eq hk] at hval
      exact absurd (hval.trans hoffset) (not_le.2 hless)
    · exact le_rfl
  · refine ⟨p.encMax, rfl, ⟨le_rfl, Or.inl ?_⟩, fun k hk => hk.1⟩
    rw [h.decodeValue_eq le_rfl]
    exact h.top.trans hmax
  · have hs := h.step_pos
    have he := h.encMax_pos
    omega
  · refine ⟨_, rfl, ?_⟩
    have hgo : (fun enc => decide (decodeValue p enc < val) || decide (decodeValue p enc ≤ val)) =
        fun enc => decide (decodeValue p enc ≤ val) := by
      funext enc
      rw [← Bool.decide_or]
      exact decide_eq_decide.2 (or_iff_right_of_imp le_of_lt)
    simp only [Bool.false_and, Bool.not_false, Bool.true_and, lower_false, hgo]
    exact isGreatest_lower_raise h.monotoneOn (min_le_right _ _)

lemma exists_mapExpDecode (h : Fits p) (k : ℕ) (P : ℕ → Prop) :
    (∃ dec, mapExpDecode p k = some dec ∧ P dec) ↔ P (decodeValue p k) := by
  rw [mapExpDecode, if_neg h.encMax_pos.ne']
  constructor
  · rintro ⟨dec, hdec, hP⟩
    rwa [Option.some.inj hdec]
  · intro hP
    exact ⟨_, rfl, hP⟩

/-- A tight codec that does not decrease: what the mapping of times is for. -/
structure ExpCodec (p : ExpMap) : Prop where
  zero : mapExpDecode p 0 = some p.offset
  top : ∃ dec, mapExpDecode p p.encMax = some dec ∧ dec ≤ p.decMax
  exact : ∀ enc ≤ p.encMax, mapExpDecode p enc = some (exactDecode p enc) ∧ NoOverflow p enc
  monotone : ∀ enc enc', enc ≤ enc' → enc' ≤ p.encMax → exactDecode p enc ≤ exactDecode p enc'
  roundUp : ∀ val, ∃ enc, mapExpEncode p val true = some enc ∧
    IsLeast {k | k ≤ p.encMax ∧ ((∃ dec, mapExpDecode p k = some dec ∧ val ≤ dec) ∨ k = p.encMax)} enc
  roundDown : ∀ val, ∃ enc, mapExpEncode p val false = some enc ∧
    IsGreatest {k | k ≤ p.encMax ∧ ((∃ dec, mapExpDecode p k = some dec ∧ dec ≤ val) ∨ k = 0)} enc

theorem Fits.expCodec (h : Fits p) : ExpCodec p where
  zero := by rw [h.mapExpDecode_eq (Nat.zero_le _), exactDecode_zero]
  top := ⟨_, h.mapExpDecode_eq le_rfl, h.top⟩
  exact := fun _ he => ⟨h.mapExpDecode_eq he, h.noOverflow he⟩
  monotone := fun _ _ hle he => exactDecode_mono h.toInTable hle he
  roundUp := fun val => by
    simp only [exists_mapExpDecode h]
    exact h.mapExpEncode_up val
  roundDown := fun val => by
    simp only [exists_mapExpDecode h]
    exact h.mapExpEncode_down val

end Encode

section Init
variable {p : ExpMap} {fuel u v n seed : ℕ}

/-- The time of the greatest code with another index. -/
def exactTop (p : ExpMap) (unityIndex : ℕ) : ℕ := exactDecode { p with unityIndex := unityIndex } p.encMax

/-- Where the search starts, and where the times pass the maximum, they fit into 32 bits; and the table goes that far. -/
structure SearchFits (p : ExpMap) (seed : ℕ) : Prop where
  reaches : p.decMax < exactTop p 0
  start : 0 < seed → exactTop p (seed - 1) < 2^32
  cross : ∀ unityIndex < expIndexMax, exactTop p (unityIndex + 1) ≤ p.decMax → exactTop p unityIndex < 2^32

lemma InTable.withUnity (h : InTable p) (hu : u ≤ expIndexMax) : InTable { p with unityIndex := u } :=
  ⟨h.encMax_pos, h.step_pos, h.room, h.decMax_lt, hu⟩

lemma exactTop_eq (h : InTable p) (hu : u ≤ expIndexMax) :
    exactTop p u = p.offset + p.step * p.encMax * (2^32 - 1) / exactExp u := by
  rw [exactTop, exactDecode, exactIndex_encMax (h.withUnity hu), exactExp_expIndexMax]

lemma exactTop_anti (h : InTable p) (hle : u ≤ v) (hv : v ≤ expIndexMax) : exactTop p v ≤ exactTop p u := by
  rw [exactTop_eq h hv, exactTop_eq h (hle.trans hv)]
  have hpos : 0 < exactExp u := (Nat.zero_lt_succ _).trans_le (le_exactExp (hle.trans hv))
  exact Nat.add_le_add_left (Nat.div_le_div_left (exactExp_monotoneOn (hle.trans hv) hv hle) hpos) _

/-- At the end of the table the greatest code is within the maximum. -/
lemma exactTop_expIndexMax (h : InTable p) : exactTop p expIndexMax ≤ p.decMax := by
  rw [exactTop_eq h le_rfl, exactExp_expIndexMax, Nat.mul_div_cancel _ (by decide)]
  exact h.room.le

lemma decodeValue_top (h : InTable p) (hu : u ≤ expIndexMax) :
    decodeValue { p with unityIndex := u } p.encMax = exactTop p u % 2^32 :=
  decodeValue_eq_mod (h.withUnity hu) le_rfl

/-- Beyond the table the machine decodes what it decodes at the end of the table. -/
lemma decodeValue_beyond (h : InTable p) (hu : expIndexMax < u) (hlt : u < 2^32) :
    decodeValue { p with unityIndex := u } p.encMax ≤ p.decMax := by
  have hmax : expIndexMax = 1023 * 2^22 := by decide
  have hroom := h.room
  have hdec := h.decMax_lt
  have henc := h.encMax_lt
  have hsub : (expIndexMax + 2^32 - u) % 2^32 = expIndexMax + 2^32 - u := by omega
  have hproduct : (expIndexMax + 2^32 - u) * p.encMax < 2^64 :=
    calc (expIndexMax + 2^32 - u) * p.encMax ≤ 2^32 * p.encMax := Nat.mul_le_mul_right _ (by omega)
      _ < 2^32 * 2^32 := Nat.mul_lt_mul_of_pos_left henc (by decide)
      _ = 2^64 := by decide
  have hindex : mapExpEncodedToIndex { p with unityIndex := u } p.encMax = expIndexMax := by
    unfold mapExpEncodedToIndex
    dsimp only
    rw [hsub, Nat.mod_eq_of_lt hproduct, Nat.mul_div_cancel _ h.encMax_pos]
    omega
  have hunity : mapExpGetExp u = 2^32 - 1 := by
    have hshift : u >>> expInterpBits = 1023 := by
      rw [show expInterpBits = 22 from rfl, Nat.shiftRight_eq_div_pow]
      omega
    unfold mapExpGetExp
    dsimp only
    rw [if_pos hu.le, hshift]
    decide +kernel
  have hexp : mapExpGetExp expIndexMax = 2^32 - 1 := (mapExpGetExp_eq le_rfl).trans exactExp_expIndexMax
  unfold decodeValue
  dsimp only
  rw [hindex, hunity, hexp, Nat.mod_eq_of_lt (show p.step * p.encMax < 2^64 by omega),
    Nat.mod_eq_of_lt (show p.step * p.encMax * (2^32 - 1) < 2^64 by omega), Nat.mul_div_cancel _ (by decide)]
  omega

/-- The search down, in 32 bits. -/
lemma iterate_down (hseed : seed < 2^32) (hn : n ≤ seed + 2^32) :
    (fun u => (u + 2^32 - 1) % 2^32)^[n] seed = (seed + 2^32 - n) % 2^32 := by
  induction n with
  | zero => exact (Nat.mod_eq_of_lt hseed).symm.trans (Nat.add_mod_right seed (2^32)).symm
  | succ n ih =>
    rw [Function.iterate_succ_apply', ih (Nat.le_of_succ_le hn)]
    omega

lemma iterate_up (hn : u + n < 2^32) : (fun u => (u + 1) % 2^32)^[n] u = u + n := by
  induction n with
  | zero => rfl
  | succ n ih =>
    rw [Function.iterate_succ_apply', ih (Nat.lt_of_succ_lt hn)]
    exact Nat.mod_eq_of_lt hn

/-- The first index whose times are within the maximum. -/
structure IsUnity (p : ExpMap) (v : ℕ) : Prop where
  le : v ≤ expIndexMax
  pos : 0 < v
  within : exactTop p v ≤ p.decMax
  first : ∀ u < v, p.decMax < exactTop p u

lemma exists_isUnity (h : InTable p) (hreaches : p.decMax < exactTop p 0) : ∃ v, IsUnity p v := by
  classical
  have hexists : ∃ u, exactTop p u ≤ p.decMax := ⟨expIndexMax, exactTop_expIndexMax h⟩
  refine ⟨Nat.find hexists, Nat.find_min' hexists (exactTop_expIndexMax h), ?_, Nat.find_spec hexists, ?_⟩
  · rw [Nat.pos_iff_ne_zero]
    intro hzero
    have hspec := Nat.find_spec hexists
    rw [hzero] at hspec
    exact absurd hreaches (not_lt.2 hspec)
  · intro u hu
    exact not_le.1 (Nat.find_min hexists hu)

/-- From there on no index stops the search down. -/
lemma IsUnity.decodeValue_le (hv : IsUnity p v) (h : InTable p) (hle : v ≤ u) (hlt : u < 2^32) :
    decodeValue { p with unityIndex := u } p.encMax ≤ p.decMax := by
  rcases le_or_gt u expIndexMax with hu | hu
  · rw [decodeValue_top h hu]
    exact (Nat.mod_le _ _).trans ((exactTop_anti h hle hu).trans hv.within)
  · exact decodeValue_beyond h hu hlt

/-- An index before stops it, as long as the times fit into 32 bits. -/
lemma IsUnity.lt_decodeValue (hv : IsUnity p v) (h : InTable p) (hlt : u < v) (hfits : exactTop p u < 2^32) :
    p.decMax < decodeValue { p with unityIndex := u } p.encMax := by
  rw [decodeValue_top h (hlt.le.trans hv.le), Nat.mod_eq_of_lt hfits]
  exact hv.first u hlt

/-- The search down stops before that index. -/
lemma IsUnity.seek_down (hv : IsUnity p v) (h : InTable p) (hs : SearchFits p seed) (hseed : seed ≤ expIndexMax)
    (hfuel : 2^33 ≤ fuel) : ∃ u < v, exactTop p u < 2^32 ∧
      seek (fun u => (u + 2^32 - 1) % 2^32) (fun u => decide (p.decMax < decodeValue { p with unityIndex := u } p.encMax))
        fuel seed = some u := by
  have hmax : expIndexMax < 2^32 := by decide
  have hle := hv.le
  have hpos := hv.pos
  -- the place where the search stops, and the number of places before it
  obtain ⟨u, n, hu, hfits, hat, hn⟩ : ∃ u n, u < v ∧ exactTop p u < 2^32 ∧ (seed + 2^32 - (n + 1)) % 2^32 = u ∧
      n + 1 ≤ seed + 2^32 ∧ ∀ m < n, v ≤ (seed + 2^32 - (m + 1)) % 2^32 := by
    by_cases hnear : 0 < seed ∧ seed - 1 < v
    · exact ⟨seed - 1, 0, hnear.2, hs.start hnear.1, by omega, by omega, fun m hm => absurd hm (Nat.not_lt_zero m)⟩
    · have hcross : exactTop p (v - 1) < 2^32 := by
        refine hs.cross (v - 1) (by omega) ?_
        rw [Nat.sub_add_cancel hpos]
        exact hv.within
      by_cases hzero : seed = 0
      · exact ⟨v - 1, 2^32 - v, by omega, hcross, by omega, by omega, fun m hm => by omega⟩
      · exact ⟨v - 1, seed - v, by omega, hcross, by omega, by omega, fun m hm => by omega⟩
  have hstep (m : ℕ) (hm : m ≤ n) := iterate_down (n := m + 1) (hseed.trans_lt hmax) (by omega)
  refine ⟨u, hu, hfits, ?_⟩
  rw [seek_eq (n := n), hstep n le_rfl, hat]
  · rw [hstep n le_rfl, hat]
    exact decide_eq_true (hv.lt_decodeValue h hu hfits)
  · intro m hm
    rw [hstep m hm.le]
    exact decide_eq_false (not_lt.2 (hv.decodeValue_le h (hn.2 m hm) (Nat.mod_lt _ (by decide))))
  · omega

/-- The search up comes to that index. -/
lemma IsUnity.seek_up (hv : IsUnity p v) (h : InTable p) (hu : u < v) (hfits : exactTop p u < 2^32)
    (hfuel : 2^33 ≤ fuel) :
    seek (fun u => (u + 1) % 2^32) (fun u => decide (decodeValue { p with unityIndex := u } p.encMax ≤ p.decMax))
      fuel u = some v := by
  have hmax : expIndexMax < 2^32 := by decide
  have hle := hv.le
  have hstep (m : ℕ) (hm : u + (m + 1) ≤ v) := iterate_up (u := u) (n := m + 1) (by omega)
  have hlast : u + (v - u - 1 + 1) = v := by omega
  rw [seek_eq (n := v - u - 1), hstep _ hlast.le, hlast]
  · rw [hstep _ hlast.le, hlast]
    exact decide_eq_true (hv.decodeValue_le h le_rfl (by omega))
  · intro m hm
    rw [hstep m (by omega)]
    have hbelow := (exactTop_anti h (Nat.le_add_right u (m + 1)) (by omega)).trans_lt hfits
    exact decide_eq_false (not_le.2 (hv.lt_decodeValue h (by omega) hbelow))
  · omega

/-- The search ends at that index. -/
lemma mapExpInitParams_search {offset step encMax decMax unityIndex : ℕ}
    (h : InTable ⟨offset, step, encMax, decMax, 0⟩) (hs : SearchFits ⟨offset, step, encMax, decMax, 0⟩ seed)
    (hseed : seed ≤ expIndexMax) (hunity : expIndexMax < unityIndex) (hfuel : 2^33 ≤ fuel) :
    ∃ v, IsUnity ⟨offset, step, encMax, decMax, 0⟩ v ∧
      mapExpInitParams fuel offset step encMax decMax unityIndex seed = some ⟨offset, step, encMax, decMax, v⟩ := by
  obtain ⟨v, hv⟩ := exists_isUnity h hs.reaches
  obtain ⟨u, hu, hfits, hdown⟩ := hv.seek_down h hs hseed hfuel
  have hup := hv.seek_up h hu hfits hfuel
  refine ⟨v, hv, ?_⟩
  unfold mapExpInitParams
  dsimp only at hdown hup ⊢
  rw [if_neg (not_le.2 hunity), if_neg h.encMax_pos.ne', hdown]
  change Option.bind (seek _ _ fuel u) _ = _
  rw [hup]
  rfl

/-- An index that a caller has computed before is taken as it is; otherwise the search ends at the first index whose
times are within the maximum. Either way the parameters make a tight codec, as long as that index keeps the times within
the maximum, or the search meets times of 32 bits and an end. -/
theorem expCodec_mapExpInitParams {offset step encMax decMax unityIndex : ℕ} (hstep : 0 < step) (hencMax : 0 < encMax)
    (hroom : offset + step * encMax < decMax) (hdecMax : decMax < 2^32) (hseed : seed ≤ expIndexMax) (hfuel : 2^33 ≤ fuel)
    (hgiven : unityIndex ≤ expIndexMax → exactTop ⟨offset, step, encMax, decMax, 0⟩ unityIndex ≤ decMax)
    (hsearch : expIndexMax < unityIndex → SearchFits ⟨offset, step, encMax, decMax, 0⟩ seed) :
    ∃ u, mapExpInitParams fuel offset step encMax decMax unityIndex seed = some ⟨offset, step, encMax, decMax, u⟩ ∧
      ExpCodec ⟨offset, step, encMax, decMax, u⟩ := by
  have h : InTable ⟨offset, step, encMax, decMax, 0⟩ := ⟨hencMax, hstep, hroom, hdecMax, Nat.zero_le _⟩
  rcases le_or_gt unityIndex expIndexMax with hunity | hunity
  · refine ⟨unityIndex, ?_, Fits.expCodec ⟨h.withUnity hunity, hgiven hunity⟩⟩
    rw [mapExpInitParams, if_pos hunity]
  · obtain ⟨v, hv, hinit⟩ := mapExpInitParams_search h (hsearch hunity) hseed hunity hfuel
    exact ⟨v, hinit, Fits.expCodec ⟨h.withUnity hv.le, hv.within⟩⟩

/-- The search meets no time beyond 32 bits if some index before it has one above the maximum that fits. -/
lemma SearchFits.of_above (h : InTable p) (hv : v ≤ expIndexMax) (habove : p.decMax < exactTop p v)
    (hfits : exactTop p v < 2^32) : SearchFits p 0 where
  reaches := habove.trans_le (exactTop_anti h (Nat.zero_le v) hv)
  start hseed := absurd hseed (lt_irrefl 0)
  cross u hu hwithin := by
    rcases lt_or_ge u v with hlt | hge
    · exact absurd (hwithin.trans_lt habove) (exactTop_anti h hlt hv).not_gt
    · exact (exactTop_anti h hge hu.le).trans_lt hfits

/-- The parameters of the payment times, with their index and when it is searched. -/
theorem expCodec_paytime :
    (∃ u, mapExpInitParams (2^33) 10 5 255 172800 2786840450 0 = some ⟨10, 5, 255, 172800, u⟩ ∧
      ExpCodec ⟨10, 5, 255, 172800, u⟩) ∧
    ∃ u, mapExpInitParams (2^33) 10 5 255 172800 (2^32 - 1) 0 = some ⟨10, 5, 255, 172800, u⟩ ∧
      ExpCodec ⟨10, 5, 255, 172800, u⟩ := by
  have hin : InTable ⟨10, 5, 255, 172800, 0⟩ := ⟨by decide, by decide, by decide, by decide, Nat.zero_le _⟩
  have hsearch : SearchFits ⟨10, 5, 255, 172800, 0⟩ 0 :=
    .of_above (v := 2786840449) hin (by decide) (by decide +kernel) (by decide +kernel)
  exact ⟨expCodec_mapExpInitParams (by decide) (by decide) (by decide) (by decide) (by decide) le_rfl
      (fun _ => by decide +kernel) (fun h => absurd h (by decide)),
    expCodec_mapExpInitParams (by decide) (by decide) (by decide) (by decide) (by decide) le_rfl
      (fun h => absurd h (by decide)) (fun _ => hsearch)⟩

/-- A time that the table does not reach. -/
lemma decodeValue_farTop (hu : u < 2^32) : decodeValue ⟨0, 1, 1, 1300000, u⟩ 1 ≤ 1300000 := by
  have h : InTable ⟨0, 1, 1, 1300000, 0⟩ := ⟨by decide, by decide, by decide, by decide, Nat.zero_le _⟩
  rcases le_or_gt u expIndexMax with hle | hgt
  · have hdec := decodeValue_top h hle
    dsimp only at hdec
    rw [hdec, exactTop_eq h hle]
    refine (Nat.mod_le _ _).trans ?_
    calc 0 + 1 * 1 * (2^32 - 1) / exactExp u ≤ 0 + 1 * 1 * (2^32 - 1) / 3550 :=
          Nat.add_le_add_left (Nat.div_le_div_left (le_exactExp hle) (by decide)) 0
      _ ≤ 1300000 := by decide
  · exact decodeValue_beyond h hgt hu

/-- An index from a caller that is too small, and a time that is too large for the table. -/
theorem not_expCodec_mapExpInitParams :
    (∀ u, mapExpInitParams 0 10 5 255 172800 0 0 = some ⟨10, 5, 255, 172800, u⟩ → ¬ ExpCodec ⟨10, 5, 255, 172800, u⟩) ∧
      ∀ fuel, mapExpInitParams fuel 0 1 1 1300000 (2^32 - 1) 0 = none := by
  constructor
  · intro u hu hcodec
    obtain ⟨dec, hdec, hle⟩ := hcodec.top
    have hzero : 0 = u := congrArg ExpMap.unityIndex (Option.some.inj hu)
    have hbig : mapExpDecode ⟨10, 5, 255, 172800, 0⟩ 255 = some 1542558686 := by decide +kernel
    rw [← hzero, hbig] at hdec
    rw [← Option.some.inj hdec] at hle
    exact absurd hle (show ¬ 1542558686 ≤ 172800 by decide)
  · intro fuel
    have hseek : seek (fun u => (u + 2^32 - 1) % 2^32)
        (fun u => decide (1300000 < decodeValue ⟨0, 1, 1, 1300000, u⟩ 1)) fuel 0 = none := by
      apply seek_eq_none
      intro m
      exact decide_eq_false (not_lt.2 (decodeValue_farTop (Nat.mod_lt _ (by decide))))
    unfold mapExpInitParams
    dsimp only
    rw [if_neg (by decide), if_neg (by decide), hseek]
    rfl

end Init

end CredaCash.Exchange
