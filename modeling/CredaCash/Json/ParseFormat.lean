import CredaCash.Checks
import CredaCash.Json.NumberFormat
import Mathlib.Data.List.TakeWhile

/-! The number parser takes the texts that are valid per the format, with exponents of 24 bits, and points alone. -/

namespace CredaCash.Json
open Text (IsDigit numberFrom destringifyChar)

section Hex
variable {key : String} {nbits maxval val v : ℕ} {c : UInt8} {s : List UInt8}

/-- One more digit, up to the limit. -/
lemma parseHexLoop_cons (hpos : maxval ≠ 0) (hmax : maxval < 2^256) (hval : val ≤ maxval) (hc : IsHexDigit c) :
    parseHexLoop key nbits maxval val (c :: s) =
      if val * 16 + hexDigitValue c ≤ maxval then parseHexLoop key nbits maxval (val * 16 + hexDigitValue c) s
      else .error (errorValueOverflow key nbits maxval) := by
  obtain ⟨hdigit, hd⟩ := (destringify_hex c).2 hc
  rw [parseHexLoop, hdigit, if_neg (by omega)]
  unfold mulBigInt subBigInt addBigInt
  by_cases hle : val * 16 + hexDigitValue c ≤ maxval
  · have hmul : val * 16 % 2^256 = val * 16 := Nat.mod_eq_of_lt (by omega)
    have hadd : (val * 16 + hexDigitValue c) % 2^256 = val * 16 + hexDigitValue c := Nat.mod_eq_of_lt (by omega)
    rw [hmul, hadd, if_neg (by omega), if_neg (by omega), if_neg (by omega), if_pos hle]
  · rw [if_neg hle]
    split_ifs with hpre hsub hadd
    · rfl
    · rfl
    · rfl
    · omega

lemma parseHexLoop_eq_ok (hpos : maxval ≠ 0) (hmax : maxval < 2^256) (hval : val ≤ maxval) :
    parseHexLoop key nbits maxval val s = .ok v ↔
      (∀ d ∈ s, IsHexDigit d) ∧ hexNumberFrom val s = v ∧ v ≤ maxval := by
  induction s generalizing val with
  | nil =>
    rw [parseHexLoop, Except.ok.injEq]
    exact ⟨fun h => ⟨by simp, h, h ▸ hval⟩, fun h => h.2.1⟩
  | cons c s ih =>
    by_cases hc : IsHexDigit c
    · rw [parseHexLoop_cons hpos hmax hval hc, List.forall_mem_cons, and_iff_right hc,
        show hexNumberFrom val (c :: s) = hexNumberFrom (val * 16 + hexDigitValue c) s from rfl]
      split_ifs with hle
      · exact ih hle
      · refine iff_of_false (by simp) ?_
        rintro ⟨-, hv, hlimit⟩
        exact hle ((le_hexNumberFrom _ s).trans (hv.trans_le hlimit))
    · rw [parseHexLoop, if_pos (not_le.1 (mt (destringify_hex c).1.1 hc))]
      exact iff_of_false (by simp) fun h => hc (h.1 c List.mem_cons_self)

lemma parseHexValue_eq_ok (hpos : maxval ≠ 0) (hmax : maxval < 2^256) : parseHexValue key nbits maxval s = .ok v ↔
    s ≠ [] ∧ (∀ d ∈ s, IsHexDigit d) ∧ hexNumberFrom 0 s = v ∧ v ≤ maxval := by
  unfold parseHexValue
  split_ifs with hs
  · exact iff_of_false (by simp) fun h => h.1 hs
  · rw [parseHexLoop_eq_ok hpos hmax (Nat.zero_le _), and_iff_right hs]

end Hex

section Decimal
variable {key : String} {nbits maxval val v c n : ℕ} {y : ℤ}

lemma pushDigit_eq_ok (hpos : maxval ≠ 0) (hc : c ≤ 9) (hval : val < 2^256) :
    pushDigit key maxval val c = .ok v ↔ val * 10 + c = v ∧ v < 2^256 := by
  unfold pushDigit
  split_ifs with hpre hmul
  · refine iff_of_false (by simp) ?_
    omega
  · refine iff_of_false (by simp) ?_
    unfold mulBigInt subBigInt at hmul
    omega
  · rw [Except.ok.injEq]
    unfold mulBigInt subBigInt at hmul
    unfold addBigInt mulBigInt
    omega

lemma scaleUp_eq_ok (hpos : maxval ≠ 0) (hval : val < 2^256) :
    scaleUp key maxval n val = .ok v ↔ val * 10^n = v ∧ v < 2^256 := by
  induction n generalizing val with
  | zero =>
    rw [scaleUp, Except.ok.injEq, pow_zero, Nat.mul_one]
    exact ⟨fun h => ⟨h, h ▸ hval⟩, fun h => h.1⟩
  | succ n ih =>
    have hstep : val * 10^(n + 1) = val * 10 * 10^n := by ring
    rw [scaleUp, Checks.bind_eq_ok, hstep]
    constructor
    · rintro ⟨w, hw, hv⟩
      obtain ⟨rfl, hlt⟩ := (pushDigit_eq_ok hpos (by decide) hval).1 hw
      exact (ih hlt).1 hv
    · rintro ⟨hv, hlt⟩
      have hle : val * 10 ≤ v := hv ▸ Nat.le_mul_of_pos_right _ (by positivity)
      exact ⟨_, (pushDigit_eq_ok hpos (by decide) hval).2 ⟨rfl, by omega⟩, (ih (by omega)).2 ⟨hv, hlt⟩⟩

lemma scaleDown_eq_ok : scaleDown key n val = .ok v ↔ v * 10^n = val := by
  induction n generalizing val with
  | zero => rw [scaleDown, Except.ok.injEq, pow_zero, Nat.mul_one, eq_comm]
  | succ n ih =>
    rw [scaleDown, pow_succ, ← Nat.mul_assoc]
    split_ifs with hmod
    · refine iff_of_false (by simp) fun h => hmod ?_
      rw [← h, Nat.mul_mod_left]
    · rw [ih]
      omega

lemma scaleTo_eq_ok (hpos : maxval ≠ 0) (hmax : maxval < 2^256) (hval : val < 2^256) :
    scaleTo key nbits maxval y val = .ok v ↔ (v : ℚ) = val * 10^y ∧ v ≤ maxval := by
  have hlimit : ∀ w, (if maxval ≠ 0 ∧ w > maxval then throw (errorValueOverflow key nbits maxval) else pure w :
      Except String ℕ) = .ok v ↔ w = v ∧ v ≤ maxval := fun w => by
    split_ifs with hover
    · refine iff_of_false (fun h => by cases h) fun h => ?_
      omega
    · refine ⟨fun h => ?_, fun h => congrArg Except.ok h.1⟩
      obtain rfl := Except.ok.inj h
      exact ⟨rfl, not_lt.1 fun hlt => hover ⟨hpos, hlt⟩⟩
  unfold scaleTo
  split_ifs with hy
  · obtain ⟨n, rfl⟩ := Int.eq_ofNat_of_zero_le hy
    have hvalue : (v : ℚ) = val * 10^(n : ℤ) ↔ val * 10^n = v := by
      rw [zpow_natCast, eq_comm]
      exact_mod_cast Iff.rfl
    rw [Int.toNat_natCast, Checks.bind_eq_ok, hvalue]
    simp only [hlimit, scaleUp_eq_ok hpos hval]
    constructor
    · rintro ⟨w, ⟨hw, -⟩, rfl, hle⟩
      exact ⟨hw, hle⟩
    · rintro ⟨hv, hle⟩
      exact ⟨v, ⟨hv, by omega⟩, rfl, hle⟩
  · obtain ⟨n, rfl⟩ : ∃ n : ℕ, y = -n := ⟨y.natAbs, by omega⟩
    have hvalue : (v : ℚ) = val * 10^(-n : ℤ) ↔ v * 10^n = val := by
      rw [zpow_neg, zpow_natCast, ← div_eq_mul_inv, eq_div_iff (by positivity)]
      exact_mod_cast Iff.rfl
    rw [Int.natAbs_neg, Int.natAbs_natCast, Checks.bind_eq_ok, hvalue]
    simp only [hlimit, scaleDown_eq_ok]
    constructor
    · rintro ⟨w, hw, rfl, hle⟩
      exact ⟨hw, hle⟩
    · rintro ⟨hv, hle⟩
      exact ⟨v, hv, rfl, hle⟩

end Decimal

section Leading
variable {c : UInt8} {s ds t : List UInt8}

def leadingDigits (s : List UInt8) : List UInt8 := s.takeWhile fun c => IsDigit c

def behindDigits (s : List UInt8) : List UInt8 := s.dropWhile fun c => IsDigit c

@[simp] lemma leadingDigits_cons (hc : IsDigit c) : leadingDigits (c :: s) = c :: leadingDigits s :=
  List.takeWhile_cons_of_pos (by simpa using hc)

@[simp] lemma behindDigits_cons (hc : IsDigit c) : behindDigits (c :: s) = behindDigits s :=
  List.dropWhile_cons_of_pos (by simpa using hc)

lemma leadingDigits_cons_of_not (hc : ¬ IsDigit c) : leadingDigits (c :: s) = [] :=
  List.takeWhile_cons_of_neg (by simpa using hc)

lemma behindDigits_cons_of_not (hc : ¬ IsDigit c) : behindDigits (c :: s) = c :: s :=
  List.dropWhile_cons_of_neg (by simpa using hc)

lemma leadingDigits_append_behindDigits (s : List UInt8) : leadingDigits s ++ behindDigits s = s :=
  List.takeWhile_append_dropWhile

lemma isDigit_of_mem_leadingDigits {d : UInt8} (h : d ∈ leadingDigits s) : IsDigit d := by
  simpa using List.mem_takeWhile_imp h

/-- Digits before a text that does not begin with one. -/
lemma leadingDigits_append (hds : ∀ d ∈ ds, IsDigit d) (ht : ∀ c ∈ t.head?, ¬ IsDigit c) :
    leadingDigits (ds ++ t) = ds ∧ behindDigits (ds ++ t) = t := by
  induction ds with
  | nil =>
    cases t with
    | nil => exact ⟨rfl, rfl⟩
    | cons c t => exact ⟨leadingDigits_cons_of_not (ht c rfl), behindDigits_cons_of_not (ht c rfl)⟩
  | cons d ds ih =>
    obtain ⟨hd, hds⟩ := List.forall_mem_cons.1 hds
    obtain ⟨hleading, hbehind⟩ := ih hds
    rw [List.cons_append, leadingDigits_cons hd, behindDigits_cons hd, hleading, hbehind]
    exact ⟨rfl, rfl⟩

end Leading

section Loop
variable {key : String} {nbits maxval val v k frac : ℕ} {exponent : List UInt8 → Except String ℤ} {first : Bool}
  {cut s t : List UInt8} {c : UInt8} {x : ℤ}

/-- What is behind the digits, as it is read. -/
def TailReads (exponent : List UInt8 → Except String ℤ) (cut t : List UInt8) (x : ℤ) : Prop :=
  t = [] ∧ x = 0 ∨ ∃ c e, t = c :: e ∧ IsExponent c ∧ exponent (e ++ cut) = .ok x

lemma tailReads_cons : TailReads exponent cut (c :: t) x ↔ IsExponent c ∧ exponent (t ++ cut) = .ok x := by
  constructor
  · rintro (⟨hnil, -⟩ | ⟨c', e, hcons, hx⟩)
    · cases hnil
    · cases hcons
      exact hx
  · exact fun hx => .inr ⟨c, t, rfl, hx⟩

lemma TailReads.head_not_digit (h : TailReads exponent cut t x) : ∀ c ∈ t.head?, ¬ IsDigit c := by
  rintro c hc
  rcases h with ⟨rfl, -⟩ | ⟨c', e, rfl, hexp, -⟩
  · cases hc
  · cases hc
    exact hexp.not_isDigit

/-- The value of all digits, within the limit. -/
def Scaled (maxval m : ℕ) (y : ℤ) (v : ℕ) : Prop := m < 2^256 ∧ (v : ℚ) = m * 10^y ∧ v ≤ maxval

/-- A digit is pushed. -/
lemma parseDecLoop_digit {isexp : Bool} (hpos : maxval ≠ 0) (hval : val < 2^256) (hc : IsDigit c) :
    parseDecLoop key nbits maxval isexp exponent cut first frac val (c :: s) = .ok v ↔
      val * 10 + (c.toNat - 48) < 2^256 ∧ parseDecLoop key nbits maxval isexp exponent cut false
        (if frac = 0 then 0 else frac + 1) (val * 10 + (c.toNat - 48)) s = .ok v := by
  have hle := toNat_of_isDigit hc
  rw [parseDecLoop, if_neg fun h => h.1.not_isDigit hc, if_neg fun h => h.1.not_isDigit hc,
    if_neg (mt not_isDigit_iff.2 (not_not.2 hc)), Checks.bind_eq_ok]
  constructor
  · rintro ⟨w, hw, hrest⟩
    obtain ⟨rfl, hlt⟩ := (pushDigit_eq_ok hpos (by omega) hval).1 hw
    exact ⟨hlt, hrest⟩
  · rintro ⟨hlt, hrest⟩
    exact ⟨_, (pushDigit_eq_ok hpos (by omega) hval).2 ⟨rfl, hlt⟩, hrest⟩

/-- The digits end, at a character that is no point or a second one. -/
lemma parseDecLoop_tail (hpos : maxval ≠ 0) (hmax : maxval < 2^256) (hval : val < 2^256)
    (ht : ∀ c ∈ t.head?, ¬ IsDigit c ∧ ¬ (IsPoint c ∧ frac = 0)) :
    parseDecLoop key nbits maxval false exponent cut false frac val t = .ok v ↔
      ∃ x, TailReads exponent cut t x ∧ Scaled maxval val (x - (frac - 1 : ℕ)) v := by
  cases t with
  | nil =>
    rw [parseDecLoop, scaleTo_eq_ok hpos hmax hval, ← zero_sub]
    constructor
    · exact fun h => ⟨0, .inl ⟨rfl, rfl⟩, hval, h⟩
    · rintro ⟨x, ⟨-, rfl⟩ | ⟨c, e, hcons, -⟩, hscaled⟩
      · exact hscaled.2
      · cases hcons
  | cons c t =>
    obtain ⟨hc, hpoint⟩ := ht c rfl
    rw [parseDecLoop, if_neg fun h => hpoint ⟨h.1, h.2.1⟩]
    simp only [tailReads_cons]
    by_cases hexp : IsExponent c
    · rw [if_pos ⟨hexp, by simp, by simp⟩, Checks.bind_eq_ok]
      constructor
      · rintro ⟨x, hx, hscale⟩
        exact ⟨x, ⟨hexp, hx⟩, hval, (scaleTo_eq_ok hpos hmax hval).1 hscale⟩
      · rintro ⟨x, ⟨-, hx⟩, hscaled⟩
        exact ⟨x, hx, (scaleTo_eq_ok hpos hmax hval).2 hscaled.2⟩
    · rw [if_neg fun h => hexp h.1, if_pos (not_isDigit_iff.1 hc)]
      refine iff_of_false (by simp) ?_
      rintro ⟨x, ⟨hc', -⟩, -⟩
      exact hexp hc'

/-- Behind the point. -/
lemma parseDecLoop_places (hpos : maxval ≠ 0) (hmax : maxval < 2^256) (hval : val < 2^256) :
    parseDecLoop key nbits maxval false exponent cut false (k + 1) val s = .ok v ↔
      ∃ x, TailReads exponent cut (behindDigits s) x ∧
        Scaled maxval (numberFrom val (leadingDigits s)) (x - (k + (leadingDigits s).length : ℕ)) v := by
  induction s generalizing k val with
  | nil => exact parseDecLoop_tail hpos hmax hval (by simp)
  | cons c s ih =>
    by_cases hc : IsDigit c
    · rw [parseDecLoop_digit hpos hval hc, if_neg (Nat.succ_ne_zero k), leadingDigits_cons hc, behindDigits_cons hc,
        List.length_cons, show k + ((leadingDigits s).length + 1) = k + 1 + (leadingDigits s).length by omega]
      constructor
      · rintro ⟨hlt, hrest⟩
        exact (ih hlt).1 hrest
      · rintro ⟨x, htail, hscaled⟩
        have hlt := (le_numberFrom (val * 10 + (c.toNat - 48)) (leadingDigits s)).trans_lt hscaled.1
        exact ⟨hlt, (ih hlt).2 ⟨x, htail, hscaled⟩⟩
    · rw [leadingDigits_cons_of_not hc, behindDigits_cons_of_not hc]
      refine parseDecLoop_tail hpos hmax hval fun c' hc' => ?_
      cases hc'
      exact ⟨hc, fun h => Nat.succ_ne_zero k h.2⟩

/-- From the first digits on. -/
lemma parseDecLoop_eq_ok (hpos : maxval ≠ 0) (hmax : maxval < 2^256) (hval : val < 2^256)
    (hs : first = true → s ≠ []) :
    parseDecLoop key nbits maxval false exponent cut first 0 val s = .ok v ↔
      ∃ (fs : Option (List UInt8)) (t : List UInt8) (x : ℤ), behindDigits s = fs.elim [] (46 :: ·) ++ t ∧
        (∀ d ∈ fs.getD [], IsDigit d) ∧ (first = true → leadingDigits s ≠ [] ∨ fs.isSome) ∧
        TailReads exponent cut t x ∧
        Scaled maxval (numberFrom val (leadingDigits s ++ fs.getD [])) (x - (fs.getD []).length) v := by
  induction s generalizing val first with
  | nil =>
    obtain rfl : first = false := by simpa using hs
    rw [parseDecLoop_tail hpos hmax hval (by simp)]
    constructor
    · rintro ⟨x, htail, hscaled⟩
      exact ⟨none, [], x, rfl, by simp, by simp, htail, hscaled⟩
    · rintro ⟨fs, t, x, hsplit, -, -, htail, hscaled⟩
      obtain ⟨hfs, rfl⟩ := List.append_eq_nil_iff.1 hsplit.symm
      cases fs with
      | none => exact ⟨x, htail, hscaled⟩
      | some fs => cases hfs
  | cons c s ih =>
    by_cases hc : IsDigit c
    · rw [parseDecLoop_digit hpos hval hc, if_pos rfl, leadingDigits_cons hc, behindDigits_cons hc]
      constructor
      · rintro ⟨hlt, hrest⟩
        obtain ⟨fs, t, x, hsplit, hfs, -, htail, hscaled⟩ := (ih hlt (by simp)).1 hrest
        exact ⟨fs, t, x, hsplit, hfs, by simp, htail, hscaled⟩
      · rintro ⟨fs, t, x, hsplit, hfs, -, htail, hscaled⟩
        have hlt := (le_numberFrom (val * 10 + (c.toNat - 48)) (leadingDigits s ++ fs.getD [])).trans_lt hscaled.1
        exact ⟨hlt, (ih hlt (by simp)).2 ⟨fs, t, x, hsplit, hfs, by simp, htail, hscaled⟩⟩
    · rw [leadingDigits_cons_of_not hc, behindDigits_cons_of_not hc]
      by_cases hpoint : IsPoint c
      · obtain rfl : c = 46 := hpoint
        rw [parseDecLoop, if_pos ⟨rfl, rfl, by simp⟩, parseDecLoop_places hpos hmax hval]
        constructor
        · rintro ⟨x, htail, hscaled⟩
          have hsplit := congrArg (46 :: ·) (leadingDigits_append_behindDigits s).symm
          exact ⟨some (leadingDigits s), behindDigits s, x, hsplit,
            fun d => isDigit_of_mem_leadingDigits, by simp, htail, by simpa using hscaled⟩
        · rintro ⟨fs, t, x, hsplit, hfs, -, htail, hscaled⟩
          cases fs with
          | none =>
            obtain rfl : 46 :: s = t := hsplit
            exact absurd (tailReads_cons.1 htail).1 (by decide)
          | some fs =>
            obtain rfl : s = fs ++ t := (List.cons.inj hsplit).2
            have hfs : ∀ d ∈ fs, IsDigit d := hfs
            obtain ⟨hleading, hbehind⟩ := leadingDigits_append hfs htail.head_not_digit
            rw [hleading, hbehind]
            exact ⟨x, htail, by simpa using hscaled⟩
      · cases first with
        | false =>
          rw [parseDecLoop_tail hpos hmax hval fun c' hc' => by cases hc'; exact ⟨hc, fun h => hpoint h.1⟩]
          constructor
          · rintro ⟨x, htail, hscaled⟩
            exact ⟨none, c :: s, x, rfl, by simp, by simp, htail, by simpa using hscaled⟩
          · rintro ⟨fs, t, x, hsplit, -, -, htail, hscaled⟩
            cases fs with
            | none =>
              obtain rfl : c :: s = t := hsplit
              exact ⟨x, htail, by simpa using hscaled⟩
            | some fs => exact absurd (List.cons.inj hsplit).1 hpoint
        | true =>
          rw [parseDecLoop, if_neg fun h => hpoint h.1, if_neg fun h => h.2.1 rfl, if_pos (not_isDigit_iff.1 hc)]
          refine iff_of_false (by simp) ?_
          rintro ⟨fs, t, x, hsplit, -, hstart, -⟩
          rcases hstart rfl with hne | hsome
          · exact hne rfl
          · obtain ⟨fs, rfl⟩ := Option.isSome_iff_exists.1 hsome
            exact hpoint (List.cons.inj hsplit).1

/-- The digits of an exponent. -/
lemma parseDecLoop_exponent (hpos : maxval ≠ 0) (hmax : maxval < 2^256) (hval : val < 2^256) :
    parseDecLoop key nbits maxval true exponent cut first 0 val s = .ok v ↔
      (∀ d ∈ s, IsDigit d) ∧ numberFrom val s = v ∧ v ≤ maxval := by
  induction s generalizing val first with
  | nil =>
    rw [parseDecLoop, scaleTo_eq_ok hpos hmax hval]
    simp [eq_comm]
  | cons c s ih =>
    rw [List.forall_mem_cons]
    by_cases hc : IsDigit c
    · rw [parseDecLoop_digit hpos hval hc, if_pos rfl, and_iff_right hc]
      constructor
      · rintro ⟨hlt, hrest⟩
        exact (ih hlt).1 hrest
      · rintro ⟨hs, hv, hle⟩
        have hlt := (le_numberFrom (val * 10 + (c.toNat - 48)) s).trans_lt (hv.trans_lt (hle.trans_lt hmax))
        exact ⟨hlt, (ih hlt).2 ⟨hs, hv, hle⟩⟩
    · rw [parseDecLoop, if_neg fun h => h.2.2 rfl, if_neg fun h => h.2.2 rfl, if_pos (not_isDigit_iff.1 hc)]
      exact iff_of_false (by simp) fun h => hc h.1.1

end Loop

section Sign
variable {key : String} {nbits maxval m v : ℕ} {isexp negative : Bool} {f : List UInt8 → Except String ℤ}
  {s body : List UInt8}

/-- A text, whether it has a minus, and what is behind the sign. -/
inductive Signed (isexp : Bool) : List UInt8 → Bool → List UInt8 → Prop
  | minus {body : List UInt8} (hne : body ≠ []) : Signed isexp (45 :: body) true body
  | plus {body : List UInt8} (hexp : isexp = true) (hne : body ≠ []) : Signed isexp (43 :: body) false body
  | none {c : UInt8} {body : List UInt8} (hc : ¬(c = 45 ∨ c = 43 ∧ isexp = true)) :
      Signed isexp (c :: body) false (c :: body)

/-- The limit of the code. -/
def codeLimit (nbits maxval : ℕ) (negative : Bool) : ℕ :=
  if negative then maxNegative nbits maxval else maxPositive nbits maxval

lemma parseSignedValue_eq_ok : parseSignedValue key nbits maxval isexp f s = .ok (negative, m, v) ↔
    ∃ body, Signed isexp s negative body ∧ m = codeLimit nbits maxval negative ∧
      parseUnsignedValue key nbits m isexp f body = .ok v := by
  have hmap : ∀ (b : Bool) (m' : ℕ) (body : List UInt8),
      (parseUnsignedValue key nbits m' isexp f body).map (fun val => (b, m', val)) = .ok (negative, m, v) ↔
        b = negative ∧ m' = m ∧ parseUnsignedValue key nbits m' isexp f body = .ok v := by
    intro b m' body
    cases parseUnsignedValue key nbits m' isexp f body <;> simp [Except.map]
  cases s with
  | nil =>
    refine iff_of_false (by simp [parseSignedValue]) ?_
    rintro ⟨body, hsign, -⟩
    cases hsign
  | cons c s =>
    rw [parseSignedValue]
    by_cases hc : c = 45 ∨ c = 43 ∧ isexp = true
    · rw [if_pos hc]
      by_cases hs : s = []
      · rw [if_pos hs]
        refine iff_of_false (by simp) ?_
        rintro ⟨body, hsign, -⟩
        cases hsign with
        | minus hne => exact hne hs
        | plus _ hne => exact hne hs
        | none hnot => exact hnot hc
      · rw [if_neg hs]
        dsimp only
        rw [hmap]
        constructor
        · rintro ⟨rfl, rfl, hv⟩
          by_cases hminus : c = 45
          · subst hminus
            exact ⟨s, by simpa using Signed.minus hs, by simp [codeLimit], hv⟩
          · obtain ⟨rfl, hexp⟩ := hc.resolve_left hminus
            exact ⟨s, by simpa using Signed.plus hexp hs, by simp [codeLimit], hv⟩
        · rintro ⟨body, hsign, rfl, hv⟩
          cases hsign with
          | minus => exact ⟨by simp, by simp [codeLimit], by simpa [codeLimit] using hv⟩
          | plus => exact ⟨by simp, by simp [codeLimit], by simpa [codeLimit] using hv⟩
          | none hnot => exact absurd hc hnot
    · rw [if_neg hc]
      dsimp only
      rw [hmap]
      constructor
      · rintro ⟨rfl, rfl, hv⟩
        exact ⟨c :: s, .none hc, rfl, hv⟩
      · rintro ⟨body, hsign, rfl, hv⟩
        cases hsign with
        | minus => exact absurd (.inl rfl) hc
        | plus hexp => exact absurd (.inr ⟨rfl, hexp⟩) hc
        | none => exact ⟨rfl, rfl, hv⟩

end Sign

section Exponent
variable {key : String} {nbits maxval v : ℕ} {f : List UInt8 → Except String ℤ} {s t cut : List UInt8} {c : UInt8}
  {x : ℤ}

lemma parseUnsignedValue_exponent (hpos : maxval ≠ 0) (hmax : maxval < 2^256) :
    parseUnsignedValue key nbits maxval true f s = .ok v ↔
      s ≠ [] ∧ (∀ d ∈ s, IsDigit d) ∧ numberFrom 0 s = v ∧ v ≤ maxval := by
  have hcut : cutSuffix true s = (s, []) := if_neg (by simp)
  unfold parseUnsignedValue
  rw [hcut]
  change parseDecValue key nbits maxval true f s [] = .ok v ↔ _
  unfold parseDecValue
  split_ifs with hs
  · exact iff_of_false (by simp) fun h => h.1 hs
  · rw [parseDecLoop_exponent hpos hmax (by decide), and_iff_right hs]

/-- The number of an exponent, with its sign. -/
def exponentValue (negative : Bool) (v : ℕ) : ℤ := if negative then -v else v

lemma bmod_negateValue {negative : Bool} {limit : ℕ} (hv : v ≤ 2^24) (hlimit : limit ≤ 2^24) :
    (Int.ofNat (negateValue (negative, limit, v) % 2^32)).bmod (2^32) = exponentValue negative v := by
  have hne : limit ≠ Text.txFieldMax := (hlimit.trans_lt (by decide)).ne
  unfold negateValue exponentValue subBigInt Int.bmod
  cases negative with
  | false =>
    simp only [Bool.false_eq_true, false_and, if_false, Int.ofNat_eq_natCast]
    omega
  | true =>
    simp only [true_and, if_neg hne, if_true, Int.ofNat_eq_natCast]
    split_ifs <;> omega

lemma codeLimit_exponent (negative : Bool) : codeLimit 24 0 negative = if negative then 2^24 else 2^24 - 1 := by
  cases negative <;> decide

lemma map_negateValue_eq_ok {r : Except String (Bool × ℕ × ℕ)} : r.map negateValue = .ok v ↔
    ∃ negative m n, r = .ok (negative, m, n) ∧ negateValue (negative, m, n) = v := by
  cases r with
  | error e => simp [Except.map]
  | ok r =>
    obtain ⟨negative, m, n⟩ := r
    constructor
    · intro h
      exact ⟨negative, m, n, rfl, Except.ok.inj h⟩
    · rintro ⟨_, _, _, ⟨⟩, rfl⟩
      rfl

/-- The number of digits behind a sign. -/
lemma parseExponent_signed :
    parseExponent key s = .ok x ↔ ∃ negative body, Signed true s negative body ∧ (body ≠ [] ∧ ∀ d ∈ body, IsDigit d) ∧
      exponentValue negative (numberFrom 0 body) = x ∧ ExponentFits x := by
  have hfits : ∀ (negative : Bool) (v : ℕ), v ≤ codeLimit 24 0 negative ↔ ExponentFits (exponentValue negative v) := by
    intro negative v
    rw [codeLimit_exponent]
    unfold ExponentFits exponentValue
    cases negative
    · simp only [Bool.false_eq_true, if_false]
      omega
    · simp only [if_true]
      omega
  have hlimit : ∀ negative, codeLimit 24 0 negative ≠ 0 ∧ codeLimit 24 0 negative ≤ 2^24 := by decide
  have hread : parseExponent key s = .ok x ↔ ∃ negative m v, parseSignedValue key 24 0 true (fun _ => .ok 0) s =
      .ok (negative, m, v) ∧ (Int.ofNat (negateValue (negative, m, v) % 2^32)).bmod (2^32) = x := by
    unfold parseExponent
    rw [Checks.bind_eq_ok]
    simp only [map_negateValue_eq_ok]
    constructor
    · rintro ⟨w, ⟨negative, m, v, hsigned, rfl⟩, hx⟩
      exact ⟨negative, m, v, hsigned, Except.ok.inj hx⟩
    · rintro ⟨negative, m, v, hsigned, rfl⟩
      exact ⟨_, ⟨negative, m, v, hsigned, rfl⟩, rfl⟩
  rw [hread]
  constructor
  · rintro ⟨negative, m, v, hsigned, rfl⟩
    obtain ⟨body, hsign, rfl, hunsigned⟩ := parseSignedValue_eq_ok.1 hsigned
    obtain ⟨hpos, hle⟩ := hlimit negative
    obtain ⟨hne, hdigits, rfl, hv⟩ := (parseUnsignedValue_exponent hpos (hle.trans_lt (by decide))).1 hunsigned
    rw [bmod_negateValue (hv.trans hle) hle]
    exact ⟨negative, body, hsign, ⟨hne, hdigits⟩, rfl, (hfits _ _).1 hv⟩
  · rintro ⟨negative, body, hsign, ⟨hne, hdigits⟩, rfl, hx⟩
    obtain ⟨hpos, hle⟩ := hlimit negative
    have hv := (hfits _ _).2 hx
    refine ⟨negative, _, numberFrom 0 body, parseSignedValue_eq_ok.2 ⟨body, hsign, rfl, ?_⟩,
      bmod_negateValue (hv.trans hle) hle⟩
    exact (parseUnsignedValue_exponent hpos (hle.trans_lt (by decide))).2 ⟨hne, hdigits, rfl, hv⟩

/-- An exponent is read in 24 bits. -/
lemma parseExponent_eq_ok (hc : IsExponent c) :
    parseExponent key s = .ok x ↔ ExponentText (c :: s) x ∧ ExponentFits x := by
  rw [parseExponent_signed]
  constructor
  · rintro ⟨negative, body, hsign, ⟨hne, hdigits⟩, rfl, hx⟩
    refine ⟨?_, hx⟩
    cases hsign with
    | minus => exact .minus hc hne hdigits
    | plus => exact .plus hc hne hdigits
    | none => exact .exponent hc hne hdigits
  · rintro ⟨htext, hx⟩
    cases htext with
    | suffix => exact absurd hc (by decide)
    | exponent _ hne hdigits =>
      obtain ⟨d, ds, rfl⟩ := List.exists_cons_of_ne_nil hne
      refine ⟨false, d :: ds, .none ?_, ⟨hne, hdigits⟩, rfl, hx⟩
      have hd := hdigits d List.mem_cons_self
      rintro (rfl | ⟨rfl, -⟩) <;> exact absurd hd (by decide)
    | plus _ hne hdigits => exact ⟨false, _, .plus rfl hne, ⟨hne, hdigits⟩, rfl, hx⟩
    | minus _ hne hdigits => exact ⟨true, _, .minus hne, ⟨hne, hdigits⟩, rfl, hx⟩

lemma exponentFits_zero : ExponentFits 0 := by decide

/-- What is behind the digits is read as the format says, where an "L" at the end has been cut off. -/
lemma tailReads_iff (hcut : cut = [] ∧ t.getLast? ≠ some 76 ∨ cut = [76]) :
    TailReads (parseExponent key) cut t x ↔ ExponentText (t ++ cut) x ∧ ExponentFits x := by
  cases t with
  | nil =>
    have hzero : TailReads (parseExponent key) cut [] x ↔ x = 0 := by simp [TailReads]
    rw [hzero]
    rcases hcut with ⟨rfl, -⟩ | rfl
    · constructor
      · rintro rfl
        exact ⟨.none, exponentFits_zero⟩
      · rintro ⟨⟨⟩, -⟩
        rfl
    · constructor
      · rintro rfl
        exact ⟨.suffix, exponentFits_zero⟩
      · rintro ⟨htext, -⟩
        cases htext with
        | suffix => rfl
        | exponent hc => exact absurd hc (by decide)
  | cons c e =>
    rw [tailReads_cons]
    by_cases hc : IsExponent c
    · rw [and_iff_right hc, parseExponent_eq_ok hc, List.cons_append]
    · refine iff_of_false (fun h => hc h.1) ?_
      rintro ⟨htext, -⟩
      rw [List.cons_append] at htext
      generalize he : e ++ cut = e' at htext
      cases htext with
      | suffix =>
        obtain ⟨rfl, rfl⟩ := List.append_eq_nil_iff.1 he
        rcases hcut with ⟨-, hnot⟩ | hcut
        · exact hnot rfl
        · cases hcut
      | exponent hc' => exact hc hc'
      | plus hc' => exact hc hc'
      | minus hc' => exact hc hc'

end Exponent

section Unsigned
variable {key : String} {nbits maxval v : ℕ} {s body cut : List UInt8} {fs : Option (List UInt8)} {ds t : List UInt8}

lemma cutSuffix_append (hcut : cut = [] ∧ 76 ∉ body ∨ cut = [76]) : cutSuffix false (body ++ cut) = (body, cut) := by
  rcases hcut with ⟨rfl, hnot⟩ | rfl
  · rw [List.append_nil, cutSuffix, if_neg fun h => hnot (List.mem_of_getLast? h.1)]
  · rw [cutSuffix, if_pos ⟨List.getLast?_concat, by simp⟩, List.dropLast_concat]

/-- A text is cut at its last "L". -/
lemma exists_cutSuffix (s : List UInt8) : ∃ body cut, s = body ++ cut ∧ cutSuffix false s = (body, cut) ∧
    (cut = [] ∧ s.getLast? ≠ some 76 ∨ cut = [76]) := by
  unfold cutSuffix
  by_cases h : s.getLast? = some 76
  · rw [if_pos ⟨h, by simp⟩]
    exact ⟨s.dropLast, [76], (List.dropLast_append_getLast? 76 h).symm, rfl, .inr rfl⟩
  · rw [if_neg fun h' => h h'.1]
    exact ⟨s, [], (List.append_nil s).symm, rfl, .inl ⟨rfl, h⟩⟩

lemma parseUnsignedValue_hex {hex : List UInt8} (hcut : cutSuffix false s = (body, cut))
    (hhex : hexPrefix body = some hex) :
    parseUnsignedValue key nbits maxval false (parseExponent key) s = parseHexValue key nbits maxval hex := by
  unfold parseUnsignedValue
  simp only [hcut, Bool.false_eq_true, if_false, hhex]

lemma parseUnsignedValue_dec (hcut : cutSuffix false s = (body, cut)) (hhex : hexPrefix body = none) :
    parseUnsignedValue key nbits maxval false (parseExponent key) s =
      parseDecValue key nbits maxval false (parseExponent key) body cut := by
  unfold parseUnsignedValue
  simp only [hcut, Bool.false_eq_true, if_false, hhex]

/-- The end of a decimal text, without an "L". -/
lemma ExponentText.exists_cut {x : ℤ} (h : ExponentText t x) (hds : ∀ d ∈ ds ++ fs.getD [], IsDigit d) :
    ∃ t' cut, t = t' ++ cut ∧ (cut = [] ∧ 76 ∉ mantissaText ds fs ++ t' ∨ cut = [76]) ∧
      ∀ c ∈ mantissaText ds fs ++ t', c ≠ 88 ∧ c ≠ 120 := by
  rcases h.chars with rfl | hchars
  · refine ⟨[], [76], rfl, .inr rfl, fun c hc => ?_⟩
    rw [List.append_nil] at hc
    exact (mantissaText_chars hds c hc).2
  · have hall : ∀ c ∈ mantissaText ds fs ++ t, c ≠ 76 ∧ c ≠ 88 ∧ c ≠ 120 := fun c hc =>
      (List.mem_append.1 hc).elim (mantissaText_chars hds c) (hchars c)
    exact ⟨t, [], (List.append_nil t).symm, .inl ⟨rfl, fun h => (hall 76 h).1 rfl⟩, fun c hc => (hall c hc).2⟩

lemma hexPrefix_eq_none (h : ∀ c ∈ body, c ≠ 88 ∧ c ≠ 120) : hexPrefix body = none := by
  by_contra hne
  obtain ⟨hex, hhex⟩ := Option.ne_none_iff_exists'.1 hne
  obtain ⟨pre, hpre, rfl⟩ := hexPrefix_eq_some.1 hhex
  simp only [hexPrefixes, List.mem_cons, List.not_mem_nil, or_false] at hpre
  rcases hpre with rfl | rfl | rfl | rfl
  · exact (h 120 (by simp)).2 rfl
  · exact (h 88 (by simp)).1 rfl
  · exact (h 120 (by simp)).2 rfl
  · exact (h 88 (by simp)).1 rfl

/-- A numeral whose exponent fits is read as its value, within the limit. -/
lemma Spells.parseUnsignedValue {num : Numeral} (h : Spells s num) (hpos : maxval ≠ 0) (hmax : maxval < 2^256)
    (hfits : ExponentFits num.exponent) (hmantissa : num.mantissa < 2^256) (hdenotes : num.Denotes v)
    (hle : v ≤ maxval) :
    parseUnsignedValue key nbits maxval false (parseExponent key) s = .ok v := by
  cases h with
  | @hex pre ds suffix hpre hne hds hsuffix =>
    have hcut : cutSuffix false (pre ++ ds ++ suffix) = (pre ++ ds, suffix) := by
      refine cutSuffix_append (hsuffix.imp (fun hnil => ⟨hnil, fun hmem => ?_⟩) id)
      rcases List.mem_append.1 hmem with hmem | hmem
      · simp only [hexPrefixes, List.mem_cons, List.not_mem_nil, or_false] at hpre
        rcases hpre with rfl | rfl | rfl | rfl <;> exact absurd hmem (by decide)
      · exact absurd (hds 76 hmem) (by decide)
    have hvalue : v = hexNumberFrom 0 ds := by
      have hdenotes : (v : ℚ) = (hexNumberFrom 0 ds : ℕ) * 10^((0 : ℤ) - (0 : ℕ)) := hdenotes
      rw [Nat.cast_zero, sub_zero, zpow_zero, mul_one] at hdenotes
      exact_mod_cast hdenotes
    rw [parseUnsignedValue_hex hcut (hexPrefix_eq_some.2 ⟨pre, hpre, rfl⟩)]
    exact (parseHexValue_eq_ok hpos hmax).2 ⟨hne, hds, hvalue.symm, hle⟩
  | @decimal ds t fs x hds hne ht =>
    obtain ⟨t', cut, rfl, hcut, hchars⟩ := ht.exists_cut hds
    have htail : TailReads (parseExponent key) cut t' x :=
      (tailReads_iff (hcut.imp_left (And.imp_right fun hnot hlast =>
        hnot (List.mem_append_right _ (List.mem_of_getLast? hlast))))).2 ⟨ht, hfits⟩
    have hhead : ∀ c ∈ (fs.elim [] (46 :: ·) ++ t').head?, ¬ IsDigit c := by
      cases fs with
      | none => exact htail.head_not_digit
      | some fs =>
        rintro c hc
        cases hc
        decide
    obtain ⟨hleading, hbehind⟩ := leadingDigits_append (fun d hd => hds d (List.mem_append_left _ hd)) hhead
    rw [← List.append_assoc, parseUnsignedValue_dec (cutSuffix_append hcut) (hexPrefix_eq_none hchars)]
    have hne' : mantissaText ds fs ++ t' ≠ [] := by
      rcases hne with hne | hsome
      · simp [mantissaText, hne]
      · obtain ⟨fs, rfl⟩ := Option.isSome_iff_exists.1 hsome
        simp [mantissaText]
    rw [parseDecValue, if_neg hne']
    refine (parseDecLoop_eq_ok hpos hmax (by decide) fun _ => hne').2 ⟨fs, t', x, ?_⟩
    rw [mantissaText, List.append_assoc, hleading, hbehind]
    exact ⟨rfl, fun d hd => hds d (List.mem_append_right _ hd), fun _ => hne, htail, hmantissa, hdenotes, hle⟩

/-- What is read is a numeral. -/
lemma spells_of_parseUnsignedValue (hpos : maxval ≠ 0) (hmax : maxval < 2^256)
    (h : parseUnsignedValue key nbits maxval false (parseExponent key) s = .ok v) :
    ∃ num, Spells s num ∧ ExponentFits num.exponent ∧ num.mantissa < 2^256 ∧ num.Denotes v ∧ v ≤ maxval := by
  obtain ⟨body, cut, rfl, hcut, hlast⟩ := exists_cutSuffix s
  cases hhex : hexPrefix body with
  | some hex =>
    obtain ⟨pre, hpre, rfl⟩ := hexPrefix_eq_some.1 hhex
    rw [parseUnsignedValue_hex hcut hhex] at h
    obtain ⟨hne, hds, rfl, hle⟩ := (parseHexValue_eq_ok hpos hmax).1 h
    refine ⟨_, .hex hpre hne hds (hlast.imp_left And.left), exponentFits_zero, hle.trans_lt hmax, ?_, hle⟩
    change ((hexNumberFrom 0 hex : ℕ) : ℚ) = (hexNumberFrom 0 hex : ℕ) * 10^((0 : ℤ) - (0 : ℕ))
    rw [Nat.cast_zero, sub_zero, zpow_zero, mul_one]
  | none =>
    rw [parseUnsignedValue_dec hcut hhex, parseDecValue] at h
    split_ifs at h with hbody
    obtain ⟨fs, t, x, hbehind, hfs, hstart, htail, hmantissa, hvalue, hle⟩ :=
      (parseDecLoop_eq_ok hpos hmax (by decide) fun _ => hbody).1 h
    have hsplit : body = mantissaText (leadingDigits body) fs ++ t := by
      rw [mantissaText, List.append_assoc, ← hbehind, leadingDigits_append_behindDigits]
    have hlast' : cut = [] ∧ t.getLast? ≠ some 76 ∨ cut = [76] := by
      refine hlast.imp_left ?_
      rintro ⟨rfl, hnot⟩
      refine ⟨rfl, fun ht => hnot ?_⟩
      rw [List.append_nil, hsplit, List.getLast?_append, ht]
      rfl
    obtain ⟨htext, hfits⟩ := (tailReads_iff hlast').1 htail
    have hspells := Spells.decimal (List.forall_mem_append.2 ⟨fun d => isDigit_of_mem_leadingDigits, hfs⟩)
      (hstart rfl) htext
    rw [← List.append_assoc, ← hsplit] at hspells
    exact ⟨_, hspells, hfits, hmantissa, hvalue, hle⟩

end Unsigned

section Format
variable {key : String} {nbits maxval v n m : ℕ} {s : List UInt8} {negative : Bool} {num : Numeral}

/-- A number of bits from 1 up to 256, or else a limit. -/
def Limits (nbits maxval : ℕ) : Prop := 0 < nbits ∧ nbits ≤ 256 ∧ maxval = 0 ∨ nbits = 0 ∧ 0 < maxval ∧ maxval < 2^256

lemma Limits.maxPositive (h : Limits nbits maxval) : maxPositive nbits maxval = limit nbits maxval false := by
  unfold Json.maxPositive limit
  rcases h with ⟨hpos, hle, rfl⟩ | ⟨rfl, hpos, -⟩
  · rw [if_neg (by decide), if_neg hpos.ne', min_eq_left hle]
    rfl
  · rw [if_pos hpos.ne', if_pos rfl]

lemma Limits.codeLimit (h : Limits nbits maxval) (negative : Bool) :
    codeLimit nbits maxval negative = min (limit nbits maxval negative) (2^256 - 1) := by
  have hpositive := h.maxPositive
  unfold Json.codeLimit
  rcases h with ⟨hpos, hle, rfl⟩ | ⟨rfl, hpos, hlt⟩
  · have hpow : 2^nbits ≤ 2^256 := Nat.pow_le_pow_right (by decide) hle
    have hone := Nat.two_pow_pos nbits
    unfold maxNegative
    rw [hpositive, if_neg hpos.ne']
    unfold limit addBigInt
    rw [if_neg hpos.ne', if_neg hpos.ne']
    cases negative
    · simp only [Bool.false_eq_true, if_false]
      omega
    · simp only [Bool.false_eq_true, if_false, if_true]
      split_ifs <;> omega
  · have hlimit : ∀ b, limit 0 maxval b = maxval := fun b => if_pos rfl
    unfold maxNegative
    rw [hpositive, if_pos rfl, hlimit, hlimit, ite_self]
    omega

/-- The value 2^256 has no mantissa below it. -/
lemma Numeral.Denotes.ne_two_pow (h : num.Denotes n) (hmantissa : num.mantissa < 2^256) : n ≠ 2^256 := by
  rintro rfl
  unfold Numeral.Denotes at h
  rcases Int.eq_nat_or_neg (num.exponent - num.places) with ⟨k, hk | hk⟩
  · rw [hk, zpow_natCast] at h
    have hvalue : 2^256 = num.mantissa * 10^k := by exact_mod_cast h
    cases k with
    | zero => exact hmantissa.ne (by rw [hvalue, pow_zero, Nat.mul_one])
    | succ k =>
      have hdvd : 5 ∣ 2^256 := by
        rw [hvalue, pow_succ]
        exact Dvd.dvd.mul_left (Dvd.dvd.mul_left (by decide) _) _
      exact absurd (Nat.Prime.dvd_of_dvd_pow Nat.prime_five hdvd) (by decide)
  · rw [hk, zpow_neg, zpow_natCast, ← div_eq_mul_inv, eq_div_iff (by positivity)] at h
    have hvalue : 2^256 * 10^k = num.mantissa := by exact_mod_cast h
    exact absurd (hvalue ▸ Nat.le_mul_of_pos_right _ (by positivity)) (not_le.2 hmantissa)

lemma limit_le (h : Limits nbits maxval) (negative : Bool) : limit nbits maxval negative ≤ 2^256 := by
  unfold limit
  rcases h with ⟨hpos, hle, -⟩ | ⟨rfl, -, hlt⟩
  · have hpow : 2^nbits ≤ 2^256 := Nat.pow_le_pow_right (by decide) hle
    rw [if_neg hpos.ne']
    split_ifs
    · exact hpow
    · omega
  · rw [if_pos rfl]
    exact hlt.le

/-- No number of bits has the limit of the field. -/
lemma codeLimit_eq_txFieldMax_iff (h : Limits nbits maxval) (negative : Bool) :
    codeLimit nbits maxval negative = Text.txFieldMax ↔ maxval = Text.txFieldMax := by
  rw [h.codeLimit]
  unfold limit
  rcases h with ⟨hpos, hle, rfl⟩ | ⟨rfl, -, hlt⟩
  · have hbounds : 2^nbits ≤ 2^253 ∨ 2^254 ≤ 2^nbits := by
      rcases Nat.lt_or_ge nbits 254 with hlt | hge
      · exact .inl (Nat.pow_le_pow_right (by decide) (by omega))
      · exact .inr (Nat.pow_le_pow_right (by decide) hge)
    rw [if_neg hpos.ne']
    unfold Text.txFieldMax
    refine iff_of_false ?_ (by decide)
    split_ifs <;> omega
  · rw [if_pos rfl, min_eq_left (by omega)]

/-- The value is negated as it should be. -/
lemma negateValue_eq_iff (h : Limits nbits maxval) (hn : n ≤ codeLimit nbits maxval negative) :
    negateValue (negative, codeLimit nbits maxval negative, n) = v ↔ IsResult maxval negative n v := by
  have hlt : n < 2^256 := by
    rw [h.codeLimit] at hn
    omega
  have hfield := codeLimit_eq_txFieldMax_iff h negative
  unfold negateValue IsResult
  cases negative with
  | false =>
    simp only [Bool.false_eq_true, false_and, if_false]
    omega
  | true =>
    simp only [true_and, if_true]
    by_cases hmax : maxval = Text.txFieldMax
    · rw [hfield.2 hmax] at hn
      rw [if_pos (hfield.2 hmax), if_pos hmax, hmax]
      unfold Text.txFieldMax at hn ⊢
      split_ifs <;> omega
    · rw [if_neg (mt hfield.1 hmax), if_neg hmax]
      unfold subBigInt
      split_ifs <;> omega

/-- What the parser takes: a text with an optional minus, and an exponent of 24 bits. -/
theorem parseIntValue_spells (h : Limits nbits maxval) : parseIntValue key s nbits maxval = .ok v ↔
    ∃ negative num n body, s = (if negative then 45 :: body else body) ∧ Spells body num ∧ ExponentFits num.exponent ∧
      num.mantissa < 2^256 ∧ num.Denotes n ∧ n ≤ limit nbits maxval negative ∧ IsResult maxval negative n v := by
  have hpos : ∀ negative, codeLimit nbits maxval negative ≠ 0 := fun negative => by
    rw [h.codeLimit]
    unfold limit
    rcases h with ⟨hpos, -⟩ | ⟨rfl, hpos, -⟩
    · have hone := Nat.pow_le_pow_right (by decide : 0 < 2) hpos
      rw [if_neg hpos.ne']
      split_ifs <;> omega
    · rw [if_pos rfl]
      omega
  have hmax : ∀ negative, codeLimit nbits maxval negative < 2^256 := fun negative => by
    rw [h.codeLimit]
    omega
  rw [parseIntValue, map_negateValue_eq_ok]
  constructor
  · rintro ⟨negative, m, n, hsigned, hv⟩
    obtain ⟨body, hsign, rfl, hunsigned⟩ := parseSignedValue_eq_ok.1 hsigned
    obtain ⟨num, hspells, hfits, hmantissa, hdenotes, hle⟩ :=
      spells_of_parseUnsignedValue (hpos negative) (hmax negative) hunsigned
    have hs : s = if negative then 45 :: body else body := by
      cases hsign with
      | minus => rfl
      | plus hexp => cases hexp
      | none => rfl
    refine ⟨negative, num, n, body, hs, hspells, hfits, hmantissa, hdenotes, ?_, (negateValue_eq_iff h hle).1 hv⟩
    exact hle.trans (h.codeLimit negative ▸ min_le_left _ _)
  · rintro ⟨negative, num, n, body, rfl, hspells, hfits, hmantissa, hdenotes, hle, hresult⟩
    have hne := hdenotes.ne_two_pow hmantissa
    have hlimit := limit_le h negative
    have hcode : n ≤ codeLimit nbits maxval negative := by
      rw [h.codeLimit]
      omega
    refine ⟨negative, _, n, parseSignedValue_eq_ok.2 ⟨body, ?_, rfl, hspells.parseUnsignedValue (hpos negative)
      (hmax negative) hfits hmantissa hdenotes hcode⟩, (negateValue_eq_iff h hcode).2 hresult⟩
    obtain ⟨hnil, hhead⟩ := hspells.head_ne
    cases negative with
    | true => exact .minus hnil
    | false =>
      obtain ⟨c, rest, rfl⟩ := List.exists_cons_of_ne_nil hnil
      exact .none fun hc => hhead (congrArg some (hc.resolve_right fun h => Bool.false_ne_true h.2))

/-- All texts but a point without digits are read exactly as the format says, with exponents of 24 bits. -/
theorem parseIntValue_eq_ok_iff (h : Limits nbits maxval) (hpoint : ¬ PointAlone s) :
    parseIntValue key s nbits maxval = .ok v ↔
      ∃ negative num n, Valid nbits maxval s negative num n ∧ ExponentFits num.exponent ∧
        IsResult maxval negative n v := by
  rw [parseIntValue_spells h]
  constructor
  · rintro ⟨negative, num, n, body, hs, hspells, hfits, hmantissa, hdenotes, hle, hresult⟩
    refine ⟨negative, num, n, ⟨⟨body, hs, hspells⟩, fun hdigits => hpoint ?_, hmantissa, hdenotes, hle⟩, hfits, hresult⟩
    cases hspells with
    | hex _ hne => exact absurd (List.length_eq_zero_iff.1 hdigits) hne
    | @decimal ds t fs x _ hne ht =>
      obtain ⟨rfl, hfs⟩ := List.append_eq_nil_iff.1 (List.length_eq_zero_iff.1 hdigits)
      obtain ⟨fs, rfl⟩ := Option.isSome_iff_exists.1 (hne.resolve_left (by simp))
      obtain rfl : fs = [] := hfs
      exact ⟨negative, t, x, hs, ht⟩
  · rintro ⟨negative, num, n, hvalid, hfits, hresult⟩
    obtain ⟨body, hs, hspells⟩ := hvalid.spells
    exact ⟨negative, num, n, body, hs, hspells, hfits, hvalid.mantissa, hvalid.denotes, hvalid.limit, hresult⟩

end Format

/-- The text "-1.5e1". -/
theorem parseIntValue_neg_fifteen :
    parseIntValue "" [45, 49, 46, 53, 101, 49] 64 0 = .ok (2^256 - 15) := by
  refine (parseIntValue_eq_ok_iff (.inl (by decide +kernel)) ?_).2 ⟨true, ⟨2, 15, 1, 1⟩, 15, ?_, by decide +kernel,
    by decide +kernel⟩
  · rintro ⟨negative, t, x, hs, -⟩
    cases negative <;> simp at hs
  · have hexponent : ExponentText [101, 49] 1 := .exponent (.inl rfl) (by simp) (by decide +kernel)
    refine ⟨⟨_, rfl, @Spells.decimal [49] [101, 49] (some [53]) 1 (by decide +kernel) (.inl (by simp)) hexponent⟩,
      by decide +kernel, by decide +kernel, ?_, by decide +kernel⟩
    norm_num [Numeral.Denotes]

example : parseIntValue "" [46] 64 0 = .ok 0 := by decide +kernel

/-- The text "0e16777216" stands for 0, but its exponent is too large. -/
theorem not_parseIntValue_format : ∃ num : Numeral,
    Valid 64 0 [48, 101, 49, 54, 55, 55, 55, 50, 49, 54] false num 0 ∧ IsResult 0 false 0 0 ∧
      ∀ key v, parseIntValue key [48, 101, 49, 54, 55, 55, 55, 50, 49, 54] 64 0 ≠ .ok v := by
  have hexponent : ExponentText [101, 49, 54, 55, 55, 55, 50, 49, 54] 16777216 :=
    .exponent (.inl rfl) (by simp) (by decide +kernel)
  refine ⟨_, ⟨⟨_, rfl, @Spells.decimal [48] [101, 49, 54, 55, 55, 55, 50, 49, 54] none 16777216 (by decide +kernel)
    (.inl (by simp)) hexponent⟩, by decide +kernel, by decide +kernel, ?_, by decide +kernel⟩, by decide +kernel,
    fun key v h => ?_⟩
  · norm_num [Numeral.Denotes, numberFrom]
  · have herror : parseIntValue key [48, 101, 49, 54, 55, 55, 55, 50, 49, 54] 64 0 =
        .error (errorValueOverflow key 24 (2^24 - 1)) := rfl
    cases herror.symm.trans h

end CredaCash.Json
