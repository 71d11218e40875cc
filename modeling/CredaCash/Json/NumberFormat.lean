import CredaCash.Json.ParseInt
import CredaCash.Text.Buf2Uint
import Mathlib.Data.Rat.Cast.Order
import Mathlib.Tactic.FieldSimp

/-! The format of the texts of numbers, and what stands for which number. -/

namespace CredaCash.Json
open Text (IsDigit numberFrom destringifyChar)

def IsHexDigit (c : UInt8) : Prop := IsDigit c ∨ (97 ≤ c ∧ c ≤ 102) ∨ (65 ≤ c ∧ c ≤ 70)

instance (c : UInt8) : Decidable (IsHexDigit c) := inferInstanceAs (Decidable (_ ∨ _ ∨ _))

def hexDigitValue (c : UInt8) : ℕ := if c ≤ 57 then c.toNat - 48 else if c ≤ 70 then c.toNat - 55 else c.toNat - 87

def hexNumberFrom (m : ℕ) (ds : List UInt8) : ℕ := ds.foldl (fun m d => m * 16 + hexDigitValue d) m

/-- "x", "X", "0x" and "0X". -/
def hexPrefixes : List (List UInt8) := [[120], [88], [48, 120], [48, 88]]

/-- What a text says: its mantissa, with the number of the digits, the number of digits behind the point, and the
exponent. -/
structure Numeral where
  digits : ℕ
  mantissa : ℕ
  places : ℕ
  exponent : ℤ

/-- The value that a numeral stands for. -/
def Numeral.Denotes (num : Numeral) (n : ℕ) : Prop := (n : ℚ) = num.mantissa * 10^(num.exponent - num.places)

/-- Digits, and perhaps a point with digits behind it. -/
def mantissaText (ds : List UInt8) (fs : Option (List UInt8)) : List UInt8 := ds ++ fs.elim [] (46 :: ·)

/-- What is behind the digits: nothing, an "L", or an exponent. -/
inductive ExponentText : List UInt8 → ℤ → Prop
  | none : ExponentText [] 0
  | suffix : ExponentText [76] 0
  | exponent {c : UInt8} {ds : List UInt8} (hc : IsExponent c) (hne : ds ≠ []) (hds : ∀ d ∈ ds, IsDigit d) :
      ExponentText (c :: ds) (numberFrom 0 ds)
  | plus {c : UInt8} {ds : List UInt8} (hc : IsExponent c) (hne : ds ≠ []) (hds : ∀ d ∈ ds, IsDigit d) :
      ExponentText (c :: 43 :: ds) (numberFrom 0 ds)
  | minus {c : UInt8} {ds : List UInt8} (hc : IsExponent c) (hne : ds ≠ []) (hds : ∀ d ∈ ds, IsDigit d) :
      ExponentText (c :: 45 :: ds) (-numberFrom 0 ds)

/-- The texts of numerals without a sign, where a mantissa of a point alone is let through. -/
inductive Spells : List UInt8 → Numeral → Prop
  | hex {pre ds suffix : List UInt8} (hpre : pre ∈ hexPrefixes) (hne : ds ≠ []) (hds : ∀ d ∈ ds, IsHexDigit d)
      (hsuffix : suffix = [] ∨ suffix = [76]) : Spells (pre ++ ds ++ suffix) ⟨ds.length, hexNumberFrom 0 ds, 0, 0⟩
  | decimal {ds t : List UInt8} {fs : Option (List UInt8)} {x : ℤ} (hds : ∀ d ∈ ds ++ fs.getD [], IsDigit d)
      (hne : ds ≠ [] ∨ fs.isSome) (ht : ExponentText t x) :
      Spells (mantissaText ds fs ++ t)
        ⟨(ds ++ fs.getD []).length, numberFrom 0 (ds ++ fs.getD []), (fs.getD []).length, x⟩

/-- The limit that the number of bits sets, or else the largest value. -/
def limit (nbits maxval : ℕ) (negative : Bool) : ℕ :=
  if nbits = 0 then maxval else if negative then 2^nbits else 2^nbits - 1

/-- A text that is valid per the format, and within the limits. -/
structure Valid (nbits maxval : ℕ) (s : List UInt8) (negative : Bool) (num : Numeral) (n : ℕ) : Prop where
  spells : ∃ body, s = (if negative then 45 :: body else body) ∧ Spells body num
  digits : num.digits ≠ 0
  mantissa : num.mantissa < 2^256
  denotes : num.Denotes n
  limit : n ≤ limit nbits maxval negative

/-- The result for a value: modulo 2^256, or negated in the prime field. -/
def IsResult (maxval : ℕ) (negative : Bool) (n v : ℕ) : Prop :=
  (v : ℤ) = (if negative then -(n : ℤ) else n) % if negative ∧ maxval = Text.txFieldMax then maxval + 1 else 2^256

instance (maxval : ℕ) (negative : Bool) (n v : ℕ) : Decidable (IsResult maxval negative n v) :=
  inferInstanceAs (Decidable (_ = _))

/-- The exponents that the code takes. -/
def ExponentFits (x : ℤ) : Prop := -2^24 ≤ x ∧ x < 2^24

instance (x : ℤ) : Decidable (ExponentFits x) := inferInstanceAs (Decidable (_ ∧ _))

/-- A point without digits, with what can stand before and behind it. -/
def PointAlone (s : List UInt8) : Prop :=
  ∃ (negative : Bool) (t : List UInt8) (x : ℤ), s = (if negative then 45 :: 46 :: t else 46 :: t) ∧ ExponentText t x

section
variable {c : UInt8} {s ds hex : List UInt8} {fs : Option (List UInt8)} {m : ℕ}

lemma toNat_of_isDigit (h : IsDigit c) : 48 ≤ c.toNat ∧ c.toNat ≤ 57 := by
  obtain ⟨hlo, hhi⟩ := h
  exact ⟨UInt8.le_iff_toNat_le.1 hlo, UInt8.le_iff_toNat_le.1 hhi⟩

lemma not_isDigit_iff : ¬ IsDigit c ↔ c < 48 ∨ c > 57 := by
  rw [IsDigit, not_and_or, UInt8.not_le, UInt8.not_le]

lemma IsExponent.not_isDigit (h : IsExponent c) : ¬ IsDigit c := by
  rcases h with rfl | rfl <;> decide

lemma IsPoint.not_isDigit (h : IsPoint c) : ¬ IsDigit c := by
  rw [show c = 46 from h]
  decide

lemma ne_of_isDigit (h : IsDigit c) : c ≠ 76 ∧ c ≠ 88 ∧ c ≠ 120 := by
  have hle := toNat_of_isDigit h
  refine ⟨?_, ?_, ?_⟩ <;> (rintro rfl; exact absurd hle (by decide))

/-- The table of the hex digits. -/
lemma destringify_hex (c : UInt8) : (destringifyChar base16combobin c ≤ 15 ↔ IsHexDigit c) ∧
    (IsHexDigit c → destringifyChar base16combobin c = hexDigitValue c ∧ hexDigitValue c < 16) := by
  have h : ∀ n < 256, (destringifyChar base16combobin (UInt8.ofNat n) ≤ 15 ↔ IsHexDigit (UInt8.ofNat n)) ∧
      (IsHexDigit (UInt8.ofNat n) → destringifyChar base16combobin (UInt8.ofNat n) = hexDigitValue (UInt8.ofNat n) ∧
        hexDigitValue (UInt8.ofNat n) < 16) := by decide +kernel
  have hc := h c.toNat c.toNat_lt
  rwa [UInt8.ofNat_toNat] at hc

@[simp] lemma numberFrom_nil (m : ℕ) : numberFrom m [] = m := rfl

lemma le_numberFrom (m : ℕ) (ds : List UInt8) : m ≤ numberFrom m ds := by
  induction ds generalizing m with
  | nil => exact le_rfl
  | cons d ds ih => exact (by omega : m ≤ m * 10 + (d.toNat - 48)).trans (ih _)

lemma le_hexNumberFrom (m : ℕ) (ds : List UInt8) : m ≤ hexNumberFrom m ds := by
  induction ds generalizing m with
  | nil => exact le_rfl
  | cons d ds ih => exact (by omega : m ≤ m * 16 + hexDigitValue d).trans (ih _)

lemma numberFrom_append (m : ℕ) (ds fs : List UInt8) : numberFrom m (ds ++ fs) = numberFrom (numberFrom m ds) fs :=
  List.foldl_append

lemma hexPrefix_eq_some : hexPrefix s = some hex ↔ ∃ pre ∈ hexPrefixes, s = pre ++ hex := by
  constructor
  · intro h
    unfold hexPrefix at h
    split at h
    · exact ⟨[120], by decide, congrArg (_ :: ·) (Option.some_inj.1 h)⟩
    · exact ⟨[88], by decide, congrArg (_ :: ·) (Option.some_inj.1 h)⟩
    · exact ⟨[48, 120], by decide, congrArg (_ :: _ :: ·) (Option.some_inj.1 h)⟩
    · exact ⟨[48, 88], by decide, congrArg (_ :: _ :: ·) (Option.some_inj.1 h)⟩
    · cases h
  · rintro ⟨pre, hpre, rfl⟩
    simp only [hexPrefixes, List.mem_cons, List.not_mem_nil, or_false] at hpre
    rcases hpre with rfl | rfl | rfl | rfl <;> rfl

/-- Decimal texts have no character for hex, and an "L" at the end only. -/
lemma ExponentText.chars {x : ℤ} (h : ExponentText s x) : s = [76] ∨ ∀ c ∈ s, c ≠ 76 ∧ c ≠ 88 ∧ c ≠ 120 := by
  have hexponent : ∀ c : UInt8, IsExponent c → c ≠ 76 ∧ c ≠ 88 ∧ c ≠ 120 := by
    rintro c (rfl | rfl) <;> decide
  cases h with
  | none => exact .inr (by simp)
  | suffix => exact .inl rfl
  | exponent hc _ hds => exact .inr (List.forall_mem_cons.2 ⟨hexponent _ hc, fun d hd => ne_of_isDigit (hds d hd)⟩)
  | plus hc _ hds =>
    refine .inr (List.forall_mem_cons.2 ⟨hexponent _ hc, List.forall_mem_cons.2 ⟨by decide, ?_⟩⟩)
    exact fun d hd => ne_of_isDigit (hds d hd)
  | minus hc _ hds =>
    refine .inr (List.forall_mem_cons.2 ⟨hexponent _ hc, List.forall_mem_cons.2 ⟨by decide, ?_⟩⟩)
    exact fun d hd => ne_of_isDigit (hds d hd)

lemma mantissaText_chars (hds : ∀ d ∈ ds ++ fs.getD [], IsDigit d) :
    ∀ c ∈ mantissaText ds fs, c ≠ 76 ∧ c ≠ 88 ∧ c ≠ 120 := by
  intro c hc
  rcases List.mem_append.1 hc with hc | hc
  · exact ne_of_isDigit (hds c (List.mem_append_left _ hc))
  · cases fs with
    | none => cases hc
    | some fs =>
      rcases List.mem_cons.1 hc with rfl | hc
      · decide
      · exact ne_of_isDigit (hds c (List.mem_append_right _ hc))

/-- A text has no sign of its own. -/
lemma Spells.head_ne {num : Numeral} (h : Spells s num) : s ≠ [] ∧ s.head? ≠ some 45 := by
  cases h with
  | @hex pre _ _ hpre =>
    simp only [hexPrefixes, List.mem_cons, List.not_mem_nil, or_false] at hpre
    rcases hpre with rfl | rfl | rfl | rfl <;> exact ⟨by simp, by simp⟩
  | @decimal ds t fs x hds hne ht =>
    cases ds with
    | nil =>
      obtain ⟨fs, rfl⟩ := Option.isSome_iff_exists.1 (hne.resolve_left (by simp))
      exact ⟨by simp [mantissaText], by simp [mantissaText]⟩
    | cons d ds =>
      have hd := hds d (by simp)
      refine ⟨by simp [mantissaText], fun heq => ?_⟩
      obtain rfl : d = 45 := by simpa [mantissaText] using heq
      exact absurd hd (by decide)

end

end CredaCash.Json
