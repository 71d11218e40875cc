import Mathlib.Algebra.Group.Nat.Defs
import Mathlib.Algebra.Order.Group.Nat
import Mathlib.Data.List.Basic

/-! Numbers read from a text that ends at a zero byte or at the end of a line. -/

namespace CredaCash.Text

/-- The bytes that end the text. -/
def EndsText (c : UInt8) : Prop := c = 0 ∨ c = 10 ∨ c = 13

instance (c : UInt8) : Decidable (EndsText c) := inferInstanceAs (Decidable (_ ∨ _))

def IsDigit (c : UInt8) : Prop := 48 ≤ c ∧ c ≤ 57

instance (c : UInt8) : Decidable (IsDigit c) := inferInstanceAs (Decidable (_ ∧ _))

/-- The loop of `buf2uint64`, which has no result when the memory ends before the text. -/
def scanUint64 (started done : Bool) (v : UInt64) : List UInt8 → Option UInt64
  | [] => none
  | c :: p =>
    if EndsText c then some (if started then v else -1)
    else if c = 32 then scanUint64 started (started || done) v p
    else if done then some (-1)
    else if ¬ IsDigit c then some (-1)
    else
      let n := v * 10 + c.toUInt64 - 48
      if n < v then some (-1) else scanUint64 true done n p

/-- The pointer is null, or the memory from it on. -/
def buf2uint64 : Option (List UInt8) → Option UInt64
  | none => some (-1)
  | some p => scanUint64 false false 0 p

def buf2uint (bufp : Option (List UInt8)) : Option UInt32 := do
  let v ← buf2uint64 bufp
  let u := v.toUInt32
  if u.toUInt64 ≠ v then return -1 else return u

/-- The number that digits continue. -/
def numberFrom (m : ℕ) (ds : List UInt8) : ℕ := ds.foldl (fun m d => m * 10 + (d.toNat - 48)) m

/-- Optional spaces, one or more digits, and optional spaces. -/
structure Spells (s ds : List UInt8) : Prop where
  ne_nil : ds ≠ []
  digits : ∀ d ∈ ds, IsDigit d
  spaces : ∃ a b, s = List.replicate a 32 ++ (ds ++ List.replicate b 32)

/-- The text of a number. -/
def Denotes (s : List UInt8) (n : ℕ) : Prop := ∃ ds, Spells s ds ∧ numberFrom 0 ds = n

/-- A scan into so many bits: the number, where it is below the largest, which stands for every other text. -/
def ExactScan (w : ℕ) (s : List UInt8) (result : Option ℕ) : Prop :=
  (∀ n < 2^w - 1, Denotes s n → result = some n) ∧ ((∀ n < 2^w - 1, ¬ Denotes s n) → result = some (2^w - 1))

/-- A leading part of the number is less than the part without its last digit, both in 64 bits. -/
def OverflowSeen (n : ℕ) : Prop := ∃ k, n / 10^k % 2^64 < n / 10^(k+1) % 2^64

/-- The digits of a text, with the test for overflow. -/
def accumulate (v : UInt64) : List UInt8 → UInt64
  | [] => v
  | d :: ds =>
    let n := v * 10 + d.toUInt64 - 48
    if n < v then -1 else accumulate n ds

section
variable {s r ds : List UInt8} {t c : UInt8} {v : UInt64}

lemma IsDigit.not_ends (h : IsDigit c) : ¬ EndsText c := by
  simp only [IsDigit, EndsText, UInt8.le_iff_toNat_le, ← UInt8.toNat_inj] at *
  simp at *
  omega

lemma IsDigit.ne_space (h : IsDigit c) : c ≠ 32 := by
  rintro rfl
  exact absurd h (by decide)

lemma not_endsText_space : ¬ EndsText 32 := by decide

lemma scanUint64_end (ht : EndsText t) (started done : Bool) (v : UInt64) (r : List UInt8) :
    scanUint64 started done v (t :: r) = some (if started then v else -1) := by rw [scanUint64, if_pos ht]

lemma scanUint64_space (started done : Bool) (v : UInt64) (p : List UInt8) :
    scanUint64 started done v (32 :: p) = scanUint64 started (started || done) v p := by
  rw [scanUint64, if_neg not_endsText_space, if_pos rfl]

lemma scanUint64_digit (hc : IsDigit c) (started : Bool) (v : UInt64) (p : List UInt8) :
    scanUint64 started false v (c :: p) =
      if v * 10 + c.toUInt64 - 48 < v then some (-1) else scanUint64 true false (v * 10 + c.toUInt64 - 48) p := by
  rw [scanUint64, if_neg hc.not_ends, if_neg hc.ne_space, if_neg Bool.false_ne_true, if_neg (not_not.2 hc)]

lemma scanUint64_other (he : ¬ EndsText c) (hs : c ≠ 32) (hc : ¬ IsDigit c) (started done : Bool) (v : UInt64)
    (p : List UInt8) : scanUint64 started done v (c :: p) = some (-1) := by
  rw [scanUint64, if_neg he, if_neg hs, if_pos hc, ite_self]

/-- A text is read up to its end only. -/
lemma scanUint64_append (started done : Bool) (v : UInt64) (s r : List UInt8) :
    scanUint64 started done v (s ++ 0 :: r) = scanUint64 started done v (s ++ [0]) := by
  induction s generalizing started done v with
  | nil => rfl
  | cons c s ih => simp only [List.cons_append, scanUint64, ih]

lemma exists_scanUint64 (s r : List UInt8) (started done : Bool) (v : UInt64) :
    ∃ u, scanUint64 started done v (s ++ 0 :: r) = some u := by
  induction s generalizing started done v with
  | nil => exact ⟨_, scanUint64_end (by decide) started done v r⟩
  | cons c s ih =>
    rw [List.cons_append, scanUint64]
    dsimp only
    split_ifs
    all_goals first
      | exact ⟨_, rfl⟩
      | exact ih _ _ _

/-- Behind a number only spaces may follow. -/
lemma scanUint64_done (ht : EndsText t) (hs : ∀ c ∈ s, ¬ EndsText c) (v : UInt64) (r : List UInt8) :
    scanUint64 true true v (s ++ t :: r) = some (if s = List.replicate s.length 32 then v else -1) := by
  induction s with
  | nil => exact scanUint64_end ht true true v r
  | cons c s ih =>
    obtain ⟨hc, hs'⟩ := List.forall_mem_cons.1 hs
    by_cases hspace : c = 32
    · subst hspace
      simp [scanUint64_space, ih hs', List.replicate_succ]
    · rw [List.cons_append, scanUint64, if_neg hc, if_neg hspace, if_pos rfl, if_neg]
      intro h
      exact hspace (List.cons_eq_cons.1 h).1

/-- Digits to the first space, and spaces from there on. -/
def SpellsTail (s ds : List UInt8) : Prop := (∀ d ∈ ds, IsDigit d) ∧ ∃ b, s = ds ++ List.replicate b 32

lemma spellsTail_space : SpellsTail (32 :: s) ds ↔ ds = [] ∧ s = List.replicate s.length 32 := by
  constructor
  · rintro ⟨hd, b, h⟩
    cases ds with
    | nil =>
      have hall := List.eq_replicate_iff.1 h
      exact ⟨rfl, List.eq_replicate_iff.2 ⟨rfl, fun c hc => hall.2 c (List.mem_cons_of_mem 32 hc)⟩⟩
    | cons d ds => exact absurd (List.cons_eq_cons.1 h).1.symm (hd d List.mem_cons_self).ne_space
  · rintro ⟨rfl, h⟩
    refine ⟨by simp, s.length + 1, ?_⟩
    rw [List.nil_append, List.replicate_succ, ← h]

lemma spellsTail_digit (hc : IsDigit c) : SpellsTail (c :: s) ds ↔ ∃ ds', ds = c :: ds' ∧ SpellsTail s ds' := by
  constructor
  · rintro ⟨hd, b, h⟩
    cases ds with
    | nil => exact absurd ((List.eq_replicate_iff.1 h).2 c List.mem_cons_self) hc.ne_space
    | cons d ds =>
      obtain ⟨rfl, htail⟩ := List.cons_eq_cons.1 h
      exact ⟨ds, rfl, (List.forall_mem_cons.1 hd).2, b, htail⟩
  · rintro ⟨ds', rfl, hd, b, rfl⟩
    exact ⟨List.forall_mem_cons.2 ⟨hc, hd⟩, b, rfl⟩

lemma not_spellsTail (hs : c ≠ 32) (hc : ¬ IsDigit c) : ¬ SpellsTail (c :: s) ds := by
  rintro ⟨hd, b, h⟩
  cases ds with
  | nil => exact hs ((List.eq_replicate_iff.1 h).2 c List.mem_cons_self)
  | cons d ds => exact hc ((List.cons_eq_cons.1 h).1 ▸ hd d List.mem_cons_self)

/-- The scan within a number goes on with digits and ends with spaces, or fails. -/
lemma scanUint64_tail (ht : EndsText t) (hs : ∀ c ∈ s, ¬ EndsText c) (v : UInt64) (r : List UInt8) :
    (∃ ds, SpellsTail s ds ∧ scanUint64 true false v (s ++ t :: r) = some (accumulate v ds)) ∨
      (∀ ds, ¬ SpellsTail s ds) ∧ scanUint64 true false v (s ++ t :: r) = some (-1) := by
  induction s generalizing v with
  | nil => exact .inl ⟨[], ⟨by simp, 0, rfl⟩, scanUint64_end ht true false v r⟩
  | cons c s ih =>
    obtain ⟨hc, hs'⟩ := List.forall_mem_cons.1 hs
    by_cases hspace : c = 32
    · subst hspace
      rw [List.cons_append, scanUint64_space, Bool.or_false, scanUint64_done ht hs']
      split_ifs with h
      · exact .inl ⟨[], spellsTail_space.2 ⟨rfl, h⟩, rfl⟩
      · exact .inr ⟨fun ds htail => h (spellsTail_space.1 htail).2, rfl⟩
    by_cases hdigit : IsDigit c
    · rw [List.cons_append, scanUint64_digit hdigit]
      rcases ih hs' (v * 10 + c.toUInt64 - 48) with ⟨ds, htail, hscan⟩ | ⟨hno, hscan⟩
      · refine .inl ⟨c :: ds, (spellsTail_digit hdigit).2 ⟨ds, rfl, htail⟩, ?_⟩
        rw [hscan, accumulate]
        split_ifs <;> rfl
      · refine .inr ⟨fun ds htail => ?_, by rw [hscan, ite_self]⟩
        obtain ⟨ds', -, htail⟩ := (spellsTail_digit hdigit).1 htail
        exact hno ds' htail
    · exact .inr ⟨fun ds => not_spellsTail hspace hdigit, scanUint64_other hc hspace hdigit true false v _⟩

lemma spells_space : Spells (32 :: s) ds ↔ Spells s ds := by
  constructor
  · rintro ⟨hne, hd, a, b, h⟩
    cases a with
    | zero =>
      obtain ⟨d, ds, rfl⟩ := List.exists_cons_of_ne_nil hne
      exact absurd (List.cons_eq_cons.1 h).1.symm (hd d List.mem_cons_self).ne_space
    | succ a => exact ⟨hne, hd, a, b, (List.cons_eq_cons.1 h).2⟩
  · rintro ⟨hne, hd, a, b, rfl⟩
    exact ⟨hne, hd, a + 1, b, rfl⟩

lemma spells_iff_tail (hs : c ≠ 32) : Spells (c :: s) ds ↔ IsDigit c ∧ SpellsTail (c :: s) ds := by
  constructor
  · rintro ⟨hne, hd, a, b, h⟩
    cases a with
    | zero =>
      obtain ⟨d, ds, rfl⟩ := List.exists_cons_of_ne_nil hne
      exact ⟨(List.cons_eq_cons.1 h).1 ▸ hd d List.mem_cons_self, hd, b, h⟩
    | succ a => exact absurd (List.cons_eq_cons.1 h).1 hs
  · rintro ⟨hc, hd, b, h⟩
    refine ⟨?_, hd, 0, b, h⟩
    rintro rfl
    exact hs ((List.eq_replicate_iff.1 h).2 c List.mem_cons_self)

/-- The scan of a text: its digits, or the mark of failure. -/
lemma buf2uint64_eq (ht : EndsText t) (hs : ∀ c ∈ s, ¬ EndsText c) (r : List UInt8) :
    (∃ ds, Spells s ds ∧ buf2uint64 (some (s ++ t :: r)) = some (accumulate 0 ds)) ∨
      (∀ ds, ¬ Spells s ds) ∧ buf2uint64 (some (s ++ t :: r)) = some (-1) := by
  unfold buf2uint64
  induction s with
  | nil =>
    refine .inr ⟨?_, scanUint64_end ht false false 0 r⟩
    rintro ds ⟨hne, hd, a, b, h⟩
    simp [hne] at h
  | cons c s ih =>
    obtain ⟨hc, hs'⟩ := List.forall_mem_cons.1 hs
    by_cases hspace : c = 32
    · subst hspace
      simp only [List.cons_append, scanUint64_space, Bool.or_self, spells_space]
      exact ih hs'
    by_cases hdigit : IsDigit c
    · simp only [spells_iff_tail hspace, hdigit, true_and, List.cons_append, scanUint64_digit hdigit, spellsTail_digit hdigit]
      rcases scanUint64_tail ht hs' (0 * 10 + c.toUInt64 - 48) r with ⟨ds, htail, hscan⟩ | ⟨hno, hscan⟩
      · refine .inl ⟨c :: ds, ⟨ds, rfl, htail⟩, ?_⟩
        rw [hscan, accumulate]
        split_ifs <;> rfl
      · refine .inr ⟨?_, by rw [hscan, ite_self]⟩
        rintro _ ⟨ds, -, htail⟩
        exact hno ds htail
    · refine .inr ⟨fun ds h => hdigit ((spells_iff_tail hspace).1 h).1, scanUint64_other hc hspace hdigit false false 0 _⟩

/-- A text has one number only. -/
lemma Spells.eq_filter (h : Spells s ds) : ds = s.filter (· != 32) := by
  obtain ⟨a, b, rfl⟩ := h.spaces
  have hds : ds.filter (· != 32) = ds := by
    apply List.filter_eq_self.2
    intro d hd
    exact bne_iff_ne.2 (h.digits d hd).ne_space
  simp [List.filter_append, hds]

lemma Denotes.unique {m n : ℕ} (hm : Denotes s m) (hn : Denotes s n) : m = n := by
  obtain ⟨ds, hds, rfl⟩ := hm
  obtain ⟨es, hes, rfl⟩ := hn
  rw [hds.eq_filter, hes.eq_filter]

lemma numberFrom_div (hd : ∀ d ∈ ds, IsDigit d) (m : ℕ) : numberFrom m ds / 10^ds.length = m := by
  induction ds generalizing m with
  | nil => exact Nat.div_one m
  | cons d ds ih =>
    obtain ⟨hc, hd'⟩ := List.forall_mem_cons.1 hd
    have hle := UInt8.le_iff_toNat_le.1 hc.2
    have hstep : numberFrom m (d :: ds) = numberFrom (m * 10 + (d.toNat - 48)) ds := rfl
    rw [hstep, List.length_cons, Nat.pow_succ, ← Nat.div_div_eq_div_mul, ih hd']
    have hval : (57 : UInt8).toNat = 57 := rfl
    omega

/-- A step of the scan, in 64 bits. -/
lemma toNat_step (hc : IsDigit c) {m : ℕ} (hv : v.toNat = m % 2^64) :
    (v * 10 + c.toUInt64 - 48).toNat = (m * 10 + (c.toNat - 48)) % 2^64 := by
  have hle : 48 ≤ c.toNat := UInt8.le_iff_toNat_le.1 hc.1
  rw [UInt64.toNat_sub, UInt64.toNat_add, UInt64.toNat_mul, UInt8.toNat_toUInt64, hv]
  have h10 : (10 : UInt64).toNat = 10 := rfl
  have h48 : (48 : UInt64).toNat = 48 := rfl
  rw [h10, h48]
  omega

/-- The digits give the number in 64 bits, unless an overflow shows up in a smaller value. -/
lemma accumulate_eq (hd : ∀ d ∈ ds, IsDigit d) {m : ℕ} (hv : v.toNat = m % 2^64) :
    accumulate v ds = if ∃ k < ds.length, numberFrom m ds / 10^k % 2^64 < numberFrom m ds / 10^(k+1) % 2^64 then -1
      else UInt64.ofNat (numberFrom m ds) := by
  induction ds generalizing v m with
  | nil =>
    rw [if_neg (by simp)]
    apply UInt64.toNat_inj.1
    rw [UInt64.toNat_ofNat', accumulate, hv]
    rfl
  | cons d ds ih =>
    obtain ⟨hc, hd'⟩ := List.forall_mem_cons.1 hd
    have hstep : numberFrom m (d :: ds) = numberFrom (m * 10 + (d.toNat - 48)) ds := rfl
    have hlast : (v * 10 + d.toUInt64 - 48 < v) ↔ numberFrom m (d :: ds) / 10^ds.length % 2^64 <
        numberFrom m (d :: ds) / 10^(ds.length + 1) % 2^64 := by
      have hdiv := numberFrom_div hd m
      rw [List.length_cons] at hdiv
      rw [hdiv, hstep, numberFrom_div hd', UInt64.lt_iff_toNat_lt, toNat_step hc hv, hv]
    rw [accumulate, ih hd' (toNat_step hc hv), ← hstep, List.length_cons]
    simp only [hlast, Nat.lt_succ_iff_lt_or_eq, or_and_right, exists_or, exists_eq_left]
    split_ifs with hlt hany hearly hany hany
    · rfl
    · exact absurd (.inr hlt) hany
    · rfl
    · exact absurd (.inl hearly) hany
    · exact absurd hany (not_or.2 ⟨hearly, hlt⟩)
    · rfl

lemma overflowSeen_iff (hd : ∀ d ∈ ds, IsDigit d) : OverflowSeen (numberFrom 0 ds) ↔
    ∃ k < ds.length, numberFrom 0 ds / 10^k % 2^64 < numberFrom 0 ds / 10^(k+1) % 2^64 := by
  constructor
  · rintro ⟨k, hk⟩
    refine ⟨k, not_le.1 fun hle => ?_, hk⟩
    have hzero : numberFrom 0 ds / 10^(k+1) = 0 := by
      obtain ⟨j, hj⟩ := Nat.exists_eq_add_of_le (hle.trans (Nat.le_succ k))
      rw [Nat.succ_eq_add_one] at hj
      rw [hj, Nat.pow_add, ← Nat.div_div_eq_div_mul, numberFrom_div hd, Nat.zero_div]
    rw [hzero] at hk
    exact absurd hk (Nat.not_lt_zero _)
  · rintro ⟨k, -, hk⟩
    exact ⟨k, hk⟩

open Classical in
/-- The scan of digits. -/
lemma accumulate_zero (hd : ∀ d ∈ ds, IsDigit d) : (accumulate 0 ds).toNat =
    if OverflowSeen (numberFrom 0 ds) then 2^64 - 1 else numberFrom 0 ds % 2^64 := by
  rw [accumulate_eq hd (m := 0) rfl]
  simp only [← overflowSeen_iff hd]
  split_ifs
  · rfl
  · exact UInt64.toNat_ofNat' ..

/-- Numbers below 2^64 never overflow. -/
lemma not_overflowSeen {n : ℕ} (h : n < 2^64) : ¬ OverflowSeen n := by
  rintro ⟨k, hk⟩
  have hpow : 10^k ≤ 10^(k+1) := Nat.pow_le_pow_right (by omega) (Nat.le_succ k)
  have hle : n / 10^(k+1) ≤ n / 10^k := Nat.div_le_div_left hpow (Nat.pow_pos (by omega))
  have hlt : n / 10^k < 2^64 := (Nat.div_le_self _ _).trans_lt h
  rw [Nat.mod_eq_of_lt hlt, Nat.mod_eq_of_lt (hle.trans_lt hlt)] at hk
  omega

/-- The 32-bit scan limits what the 64-bit scan gives. -/
lemma buf2uint_eq {p : Option (List UInt8)} (hv : buf2uint64 p = some v) :
    (buf2uint p).map UInt32.toNat = some (min v.toNat (2^32 - 1)) := by
  have hlow : v.toUInt32.toNat = v.toNat % 2^32 := rfl
  have hiff : v.toUInt32.toUInt64 = v ↔ v.toNat < 2^32 := by
    rw [← UInt64.toNat_inj, UInt32.toNat_toUInt64, hlow]
    omega
  have hdef : buf2uint p = if v.toUInt32.toUInt64 ≠ v then some (-1) else some v.toUInt32 := by
    rw [buf2uint, hv]
    rfl
  rw [hdef]
  by_cases hlt : v.toNat < 2^32
  · rw [if_neg (not_not.2 (hiff.2 hlt)), Option.map_some, hlow, Nat.mod_eq_of_lt hlt, min_eq_left (by omega)]
  · rw [if_pos (mt hiff.1 hlt), Option.map_some, min_eq_right (by omega)]
    rfl

lemma exactScan_iff_of_denotes {w n : ℕ} {result : Option ℕ} (h : Denotes s n) :
    ExactScan w s result ↔ result = some (min n (2^w - 1)) := by
  constructor
  · rintro ⟨hnum, hother⟩
    rcases lt_or_ge n (2^w - 1) with hlt | hle
    · rw [hnum n hlt h, min_eq_left hlt.le]
    · rw [min_eq_right hle]
      apply hother
      intro m hm hden
      have heq := h.unique hden
      omega
  · rintro rfl
    constructor
    · intro m hm hden
      rw [h.unique hden, min_eq_left hm.le]
    · intro hother
      rw [min_eq_right (not_lt.1 fun hlt => hother n hlt h)]

lemma exactScan_of_not_denotes {w : ℕ} (h : ∀ n, ¬ Denotes s n) : ExactScan w s (some (2^w - 1)) :=
  ⟨fun n _ hden => absurd hden (h n), fun _ => rfl⟩

/-- Both scans are exact, unless the number is too large and wraps around without a smaller value on the way. -/
theorem buf2uint_exact_iff (ht : EndsText t) (hs : ∀ c ∈ s, ¬ EndsText c) :
    ExactScan 64 s ((buf2uint64 (some (s ++ t :: r))).map UInt64.toNat) ∧
        ExactScan 32 s ((buf2uint (some (s ++ t :: r))).map UInt32.toNat) ↔
      ∀ n, Denotes s n → 2^64 ≤ n → OverflowSeen n ∨ n % 2^64 = 2^64 - 1 := by
  rcases buf2uint64_eq ht hs r with ⟨ds, hsp, hscan⟩ | ⟨hno, hscan⟩
  · have hden : Denotes s (numberFrom 0 ds) := ⟨ds, hsp, rfl⟩
    have hval := accumulate_zero hsp.digits
    rw [exactScan_iff_of_denotes hden, exactScan_iff_of_denotes hden, buf2uint_eq hscan, hscan, Option.map_some, hval,
      Option.some_inj, Option.some_inj]
    have hiff : (∀ n, Denotes s n → 2^64 ≤ n → OverflowSeen n ∨ n % 2^64 = 2^64 - 1) ↔
        (2^64 ≤ numberFrom 0 ds → OverflowSeen (numberFrom 0 ds) ∨ numberFrom 0 ds % 2^64 = 2^64 - 1) := by
      refine ⟨fun h => h _ hden, fun h n hn => ?_⟩
      rw [← hden.unique hn]
      exact h
    rw [hiff]
    by_cases hlt : numberFrom 0 ds < 2^64
    · rw [if_neg (not_overflowSeen hlt)]
      omega
    · by_cases hseen : OverflowSeen (numberFrom 0 ds)
      · simp only [hseen, if_true, true_or, implies_true, iff_true]
        omega
      · simp only [hseen, if_false, false_or]
        omega
  · have hnone : ∀ n, ¬ Denotes s n := by
      rintro n ⟨ds, hsp, -⟩
      exact hno ds hsp
    refine iff_of_true ⟨?_, ?_⟩ fun n hn => absurd hn (hnone n)
    · rw [hscan]
      exact exactScan_of_not_denotes hnone
    · rw [buf2uint_eq hscan]
      exact exactScan_of_not_denotes hnone

end

/-- A number with spaces around it. -/
theorem buf2uint_exact_spaced :
    ExactScan 64 [32, 49, 50, 32] ((buf2uint64 (some [32, 49, 50, 32, 10])).map UInt64.toNat) ∧
      ExactScan 32 [32, 49, 50, 32] ((buf2uint (some [32, 49, 50, 32, 10])).map UInt32.toNat) := by
  apply (buf2uint_exact_iff (s := [32, 49, 50, 32]) (r := []) (t := 10) (by decide) (by simp [EndsText])).2
  intro n hn hle
  have hden : Denotes [32, 49, 50, 32] 12 := ⟨[49, 50], ⟨by decide, by simp [IsDigit], 1, 1, rfl⟩, rfl⟩
  rw [hn.unique hden] at hle
  omega

/-- Thirty quintillion wraps around to a larger value, which is taken. -/
theorem not_buf2uint_exact_wrapped :
    ¬ ∀ (s r : List UInt8) (t : UInt8), EndsText t → (∀ c ∈ s, ¬ EndsText c) →
      ExactScan 64 s ((buf2uint64 (some (s ++ t :: r))).map UInt64.toNat) ∧
        ExactScan 32 s ((buf2uint (some (s ++ t :: r))).map UInt32.toNat) := by
  intro h
  have hden : Denotes (51 :: List.replicate 19 48) 30000000000000000000 :=
    ⟨51 :: List.replicate 19 48, ⟨by decide, by simp [IsDigit], 0, 0, rfl⟩, by decide⟩
  have hexact := (h (51 :: List.replicate 19 48) [] 0 (by decide) (by simp [EndsText])).1
  rw [exactScan_iff_of_denotes hden] at hexact
  exact absurd hexact (by decide)

end CredaCash.Text
