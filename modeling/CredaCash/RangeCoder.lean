import Mathlib.Algebra.Order.Group.Nat
import Mathlib.Data.List.Induction
import Mathlib.Data.Nat.Find
import Mathlib.Tactic.Ring
import Mathlib.Tactic.Linarith

/-! Carry-less range coding. The interval of a code is kept in registers of a fixed number of digits;
a common leading digit is shifted out, and so is the leading digit of the low end when the interval
has become too narrow for another symbol. -/

namespace RangeCoder

/-- Registers of `p` digits to the base `b`, for the coding of `m` symbols. -/
structure Params where
  b : ℕ
  p : ℕ
  m : ℕ
  two_le_m : 2 ≤ m
  m_le_b : m ≤ b
  p_pos : 0 < p

/-- The number of a list of digits, the leading one first. -/
def value (b : ℕ) (ds : List ℕ) : ℕ := ds.foldl (fun x d => x * b + d) 0

@[simp] lemma value_nil (b : ℕ) : value b [] = 0 := rfl

@[simp] lemma value_concat (b : ℕ) (ds : List ℕ) (d : ℕ) : value b (ds ++ [d]) = value b ds * b + d := by
  simp [value]

lemma value_append (b : ℕ) (ds es : List ℕ) : value b (ds ++ es) = value b ds * b^es.length + value b es := by
  induction es using List.reverseRecOn with
  | nil => simp
  | append_singleton es e ih =>
    rw [← List.append_assoc, value_concat, ih, value_concat, List.length_append, List.length_singleton, pow_succ]
    ring

lemma value_cons (b d : ℕ) (ds : List ℕ) : value b (d :: ds) = d * b^ds.length + value b ds := by
  have h := value_append b [d] ds
  rw [List.singleton_append] at h
  rw [h]
  simp [value]

lemma value_lt {b : ℕ} {ds : List ℕ} (h : ∀ d ∈ ds, d < b) : value b ds < b^ds.length := by
  induction ds using List.reverseRecOn with
  | nil => simp
  | append_singleton ds d ih =>
    have hinit := ih fun e he => h e (by simp [he])
    have hd := h d (by simp)
    rw [value_concat, List.length_append, List.length_singleton, pow_succ]
    nlinarith

@[simp] lemma value_replicate_zero (b k : ℕ) : value b (List.replicate k 0) = 0 := by
  induction k with
  | zero => rfl
  | succ k ih => rw [List.replicate_succ', value_concat, ih, Nat.zero_mul]

lemma value_replicate_last {b : ℕ} (hb : 0 < b) (k : ℕ) : value b (List.replicate k (b - 1)) + 1 = b^k := by
  induction k with
  | zero => rfl
  | succ k ih =>
    rw [List.replicate_succ', value_concat, pow_succ, ← ih, Nat.add_mul, Nat.one_mul, Nat.add_assoc,
      Nat.sub_add_cancel hb]

namespace Params
variable (P : Params)

lemma b_pos : 0 < P.b := by
  have h1 := P.two_le_m
  have h2 := P.m_le_b
  omega

lemma pow_pos (k : ℕ) : 0 < P.b^k := Nat.pow_pos P.b_pos

lemma pow_mul_pow {i : ℕ} (h : i ≤ P.p) : P.b^(P.p - i) * P.b^i = P.b^P.p := by
  rw [← pow_add, Nat.sub_add_cancel h]

/-- A register after some digits were shifted in. -/
def slide (x : ℕ) (ds : List ℕ) : ℕ := x % P.b^(P.p - ds.length) * P.b^ds.length + value P.b ds

variable {P}

lemma slide_nil {x : ℕ} (h : x < P.b^P.p) : P.slide x [] = x := by
  simp [slide, Nat.mod_eq_of_lt h]

lemma slide_lt {ds : List ℕ} (hds : ∀ d ∈ ds, d < P.b) (hlen : ds.length ≤ P.p) (x : ℕ) : P.slide x ds < P.b^P.p := by
  have hmod : x % P.b^(P.p - ds.length) < P.b^(P.p - ds.length) := Nat.mod_lt _ (P.pow_pos _)
  have hval := value_lt hds
  rw [slide, ← P.pow_mul_pow hlen]
  nlinarith

/-- The leading digit of a register is the next digit of the number it started from. -/
lemma slide_div {ds : List ℕ} (hds : ∀ d ∈ ds, d < P.b) (hlen : ds.length < P.p) (x : ℕ) :
    P.slide x ds / P.b^(P.p - 1) = x / P.b^(P.p - 1 - ds.length) % P.b := by
  have hval := value_lt hds
  have hsplit : P.b^(P.p - 1) = P.b^ds.length * P.b^(P.p - 1 - ds.length) := by
    rw [← pow_add]
    congr 1
    omega
  have hpow : P.b^(P.p - ds.length) = P.b^(P.p - 1 - ds.length) * P.b := by
    rw [← pow_succ]
    congr 1
    omega
  rw [slide, hsplit, ← Nat.div_div_eq_div_mul, Nat.mul_comm, Nat.mul_add_div (P.pow_pos _), Nat.div_eq_of_lt hval,
    Nat.add_zero, hpow, Nat.mod_mul_right_div_self]

/-- Shifting in a digit, as the registers do it. -/
lemma slide_concat {ds : List ℕ} (hds : ∀ d ∈ ds, d < P.b) (hlen : ds.length < P.p) (x d : ℕ) :
    P.slide x (ds ++ [d]) = P.slide x ds % P.b^(P.p - 1) * P.b + d := by
  have hval := value_lt hds
  have hpow : P.b^(P.p - ds.length) = P.b^(P.p - 1 - ds.length) * P.b := by
    rw [← pow_succ]
    congr 1
    omega
  have hsplit : P.b^(P.p - 1) = P.b^(P.p - 1 - ds.length) * P.b^ds.length := by
    rw [← pow_add]
    congr 1
    omega
  have hlast : x % P.b^(P.p - 1 - ds.length) * P.b^ds.length + value P.b ds < P.b^(P.p - 1) := by
    have hmod : x % P.b^(P.p - 1 - ds.length) < P.b^(P.p - 1 - ds.length) := Nat.mod_lt _ (P.pow_pos _)
    rw [hsplit]
    nlinarith
  have hmod : P.slide x ds % P.b^(P.p - 1) = x % P.b^(P.p - 1 - ds.length) * P.b^ds.length + value P.b ds := by
    have hx := Nat.mod_mul (a := P.b^(P.p - 1 - ds.length)) (b := P.b) (x := x)
    rw [slide, hpow, hx]
    have hform : (x % P.b^(P.p - 1 - ds.length) + P.b^(P.p - 1 - ds.length) * (x / P.b^(P.p - 1 - ds.length) % P.b)) *
        P.b^ds.length + value P.b ds = x % P.b^(P.p - 1 - ds.length) * P.b^ds.length + value P.b ds +
          P.b^(P.p - 1) * (x / P.b^(P.p - 1 - ds.length) % P.b) := by
      rw [hsplit]
      ring
    rw [hform, Nat.add_mul_mod_self_left, Nat.mod_eq_of_lt hlast]
  rw [hmod, slide, value_concat, List.length_append, List.length_singleton,
    show P.p - (ds.length + 1) = P.p - 1 - ds.length by omega, pow_succ]
  ring

/-- The first `k` digits of a register. -/
def top (P : Params) (x k : ℕ) : List ℕ := (List.range k).map fun i => x / P.b^(P.p - 1 - i) % P.b

@[simp] lemma length_top (x k : ℕ) : (P.top x k).length = k := by simp [top]

lemma top_succ (x k : ℕ) : P.top x (k + 1) = P.top x k ++ [x / P.b^(P.p - 1 - k) % P.b] := by
  rw [top, List.range_succ, List.map_append]
  rfl

lemma value_top {x k : ℕ} (hx : x < P.b^P.p) (hk : k ≤ P.p) : value P.b (P.top x k) = x / P.b^(P.p - k) := by
  induction k with
  | zero => rw [Nat.sub_zero, Nat.div_eq_of_lt hx]; rfl
  | succ k ih =>
    have hpow : P.b^(P.p - k) = P.b^(P.p - (k + 1)) * P.b := by
      rw [← pow_succ]
      congr 1
      omega
    rw [top_succ, value_concat, ih (by omega), hpow, ← Nat.div_div_eq_div_mul, Nat.sub_sub, Nat.add_comm 1 k]
    exact Nat.div_add_mod' _ _

lemma mem_top_lt {x k d : ℕ} (h : d ∈ P.top x k) : d < P.b := by
  obtain ⟨i, -, rfl⟩ := List.mem_map.1 h
  exact Nat.mod_lt _ P.b_pos

end Params

/-- A closed interval of the numbers that fit in a register. -/
structure Interval (P : Params) where
  lo : ℕ
  hi : ℕ
  le : lo ≤ hi
  lt : hi < P.b^P.p

/-- The condition for shifting out a digit. -/
def Narrow (P : Params) (l h : ℕ) : Prop := h / P.b^(P.p - 1) = l / P.b^(P.p - 1) ∨ h + 1 < l + P.m

instance (P : Params) (l h : ℕ) : Decidable (Narrow P l h) := inferInstanceAs (Decidable (_ ∨ _))

namespace Interval
variable {P : Params} (I : Interval P)

instance : Membership ℕ (Interval P) := ⟨fun I x => I.lo ≤ x ∧ x ≤ I.hi⟩

lemma mem_iff {x : ℕ} : x ∈ I ↔ I.lo ≤ x ∧ x ≤ I.hi := Iff.rfl

lemma lo_lt : I.lo < P.b^P.p := I.le.trans_lt I.lt

/-- The ends after `k` digits were shifted out: zeros come in below, last digits above. -/
def loAt (k : ℕ) : ℕ := P.slide I.lo (List.replicate k 0)

def hiAt (k : ℕ) : ℕ := P.slide I.hi (List.replicate k (P.b - 1))

lemma loAt_eq (k : ℕ) : I.loAt k = I.lo % P.b^(P.p - k) * P.b^k := by
  rw [loAt, Params.slide, value_replicate_zero, List.length_replicate, Nat.add_zero]

lemma hiAt_eq (k : ℕ) : I.hiAt k + 1 = (I.hi % P.b^(P.p - k) + 1) * P.b^k := by
  rw [hiAt, Params.slide, Nat.add_assoc, value_replicate_last P.b_pos, List.length_replicate, Nat.add_mul, Nat.one_mul]

/-- When all digits were shifted out the interval is everything. -/
lemma not_narrow_all : ¬Narrow P (I.loAt P.p) (I.hiAt P.p) := by
  have hlo : I.loAt P.p = 0 := by rw [loAt_eq, Nat.sub_self, pow_zero, Nat.mod_one, Nat.zero_mul]
  have hhi := I.hiAt_eq P.p
  rw [Nat.sub_self, pow_zero, Nat.mod_one, Nat.zero_add, Nat.one_mul] at hhi
  have hpow : P.b^P.p = P.b^(P.p - 1) * P.b := by rw [← pow_succ, Nat.sub_add_cancel P.p_pos]
  have hone := P.pow_pos (P.p - 1)
  have h1 := P.two_le_m
  have h2 := P.m_le_b
  have hbig : P.m ≤ P.b^P.p := hpow ▸ h2.trans (Nat.le_mul_of_pos_left _ hone)
  rintro (htop | hwidth)
  · rw [hlo, Nat.zero_div, Nat.div_eq_zero_iff] at htop
    have : P.b^(P.p - 1) * 2 ≤ P.b^P.p := hpow ▸ Nat.mul_le_mul_left _ (h1.trans h2)
    omega
  · omega

/-- How many digits are shifted out. -/
def shifts : ℕ := Nat.find (⟨P.p, I.not_narrow_all⟩ : ∃ k, ¬Narrow P (I.loAt k) (I.hiAt k))

lemma not_narrow_shifts : ¬Narrow P (I.loAt I.shifts) (I.hiAt I.shifts) :=
  Nat.find_spec (⟨P.p, I.not_narrow_all⟩ : ∃ k, ¬Narrow P (I.loAt k) (I.hiAt k))

lemma narrow_of_lt {k : ℕ} (h : k < I.shifts) : Narrow P (I.loAt k) (I.hiAt k) := not_not.1 (Nat.find_min _ h)

lemma shifts_le : I.shifts ≤ P.p := Nat.find_min' _ I.not_narrow_all

lemma loAt_div {k : ℕ} (h : k < P.p) : I.loAt k / P.b^(P.p - 1) = I.lo / P.b^(P.p - 1 - k) % P.b := by
  have hdiv := @Params.slide_div P (List.replicate k 0)
    (fun d hd => by rw [List.eq_of_mem_replicate hd]; exact P.b_pos) (by simpa using h) I.lo
  rw [List.length_replicate] at hdiv
  exact hdiv

lemma hiAt_div {k : ℕ} (h : k < P.p) : I.hiAt k / P.b^(P.p - 1) = I.hi / P.b^(P.p - 1 - k) % P.b := by
  have hdiv := @Params.slide_div P (List.replicate k (P.b - 1))
    (fun d hd => by rw [List.eq_of_mem_replicate hd]; exact Nat.sub_lt P.b_pos Nat.one_pos) (by simpa using h) I.hi
  rw [List.length_replicate] at hdiv
  exact hdiv

/-- An interval across two leading digits that is too narrow loses all its digits. -/
lemma narrow_of_across (htop : I.hi / P.b^(P.p - 1) ≠ I.lo / P.b^(P.p - 1)) (hwidth : I.hi + 1 < I.lo + P.m) {k : ℕ}
    (hk : k < P.p) : Narrow P (I.loAt k) (I.hiAt k) := by
  refine Or.inr ?_
  rw [hiAt_eq, loAt_eq]
  rcases Nat.eq_zero_or_pos k with rfl | hpos
  · simp only [Nat.sub_zero, pow_zero, Nat.mul_one]
    rw [Nat.mod_eq_of_lt I.lt, Nat.mod_eq_of_lt I.lo_lt]
    exact hwidth
  · set N := P.b^(P.p - k) with hN
    have hbN : P.b ≤ N := by
      calc P.b = P.b^1 := (pow_one _).symm
        _ ≤ N := Nat.pow_le_pow_right P.b_pos (by omega)
    have hsplit : P.b^(P.p - 1) = N * P.b^(k - 1) := by
      rw [hN, ← pow_add]
      congr 1
      omega
    have hne : I.hi / N ≠ I.lo / N := fun h => htop (by
      rw [hsplit, ← Nat.div_div_eq_div_mul, ← Nat.div_div_eq_div_mul, h])
    have hmono : I.lo / N ≤ I.hi / N := Nat.div_le_div_right I.le
    have h1 := Nat.div_add_mod I.hi N
    have h2 := Nat.div_add_mod I.lo N
    have hm := P.m_le_b
    have hstep : N * (I.lo / N + 1) ≤ N * (I.hi / N) := Nat.mul_le_mul_left _ (by omega)
    rw [Nat.mul_add, Nat.mul_one] at hstep
    have hmod : I.hi % N + 1 ≤ I.lo % N := by omega
    have htwo := P.two_le_m
    calc (I.hi % N + 1) * P.b^k ≤ I.lo % N * P.b^k := Nat.mul_le_mul_right _ hmod
      _ < I.lo % N * P.b^k + P.m := by omega

/-- While the digits that were shifted out are common to both ends, the interval is wide enough. -/
lemma width_of_prefix {k : ℕ} (hpos : 0 < k) (heq : I.lo / P.b^(P.p - k) = I.hi / P.b^(P.p - k)) :
    I.loAt k + P.m ≤ I.hiAt k + 1 := by
  have h1 := Nat.div_add_mod I.hi (P.b^(P.p - k))
  have h2 := Nat.div_add_mod I.lo (P.b^(P.p - k))
  have hle := I.le
  have hmod : I.lo % P.b^(P.p - k) ≤ I.hi % P.b^(P.p - k) := by
    rw [heq] at h2
    omega
  have hbk : P.b ≤ P.b^k := by
    calc P.b = P.b^1 := (pow_one _).symm
      _ ≤ P.b^k := Nat.pow_le_pow_right P.b_pos hpos
  have hm := P.m_le_b
  rw [hiAt_eq, loAt_eq, Nat.add_mul, Nat.one_mul]
  exact Nat.add_le_add (Nat.mul_le_mul_right _ hmod) (hm.trans hbk)

/-- Unless all digits are shifted out, those that are belong to both ends. -/
theorem shifts_eq_or_prefix : I.shifts = P.p ∨ I.lo / P.b^(P.p - I.shifts) = I.hi / P.b^(P.p - I.shifts) := by
  by_cases hB : I.hi / P.b^(P.p - 1) ≠ I.lo / P.b^(P.p - 1) ∧ I.hi + 1 < I.lo + P.m
  · left
    apply le_antisymm I.shifts_le
    exact (Nat.le_find_iff _ _).2 fun k hk => not_not.2 (I.narrow_of_across hB.1 hB.2 hk)
  right
  have hprefix : ∀ k ≤ I.shifts, I.lo / P.b^(P.p - k) = I.hi / P.b^(P.p - k) := by
    intro k
    induction k with
    | zero =>
      intro
      rw [Nat.sub_zero, Nat.div_eq_of_lt I.lo_lt, Nat.div_eq_of_lt I.lt]
    | succ k ih =>
      intro hk
      have heq := ih (by omega)
      have hkp : k < P.p := lt_of_lt_of_le hk I.shifts_le
      have hdigit : I.hi / P.b^(P.p - 1 - k) % P.b = I.lo / P.b^(P.p - 1 - k) % P.b := by
        rcases I.narrow_of_lt hk with htop | hwidth
        · rw [I.hiAt_div hkp, I.loAt_div hkp] at htop
          exact htop
        rcases Nat.eq_zero_or_pos k with rfl | hpos
        · rw [hiAt_eq, loAt_eq] at hwidth
          simp only [Nat.sub_zero, pow_zero, Nat.mul_one] at hwidth ⊢
          rw [Nat.mod_eq_of_lt I.lt, Nat.mod_eq_of_lt I.lo_lt] at hwidth
          have htop : I.hi / P.b^(P.p - 1) = I.lo / P.b^(P.p - 1) := by
            by_contra h
            exact hB ⟨h, hwidth⟩
          rw [htop]
        · exact absurd hwidth (I.width_of_prefix hpos heq).not_gt
      have hpow : P.b^(P.p - k) = P.b^(P.p - 1 - k) * P.b := by
        rw [← pow_succ]
        congr 1
        omega
      rw [hpow, ← Nat.div_div_eq_div_mul, ← Nat.div_div_eq_div_mul] at heq
      rw [show P.p - (k + 1) = P.p - 1 - k by omega, ← Nat.div_add_mod (I.lo / _) P.b, heq, ← hdigit, Nat.div_add_mod]
  exact hprefix _ le_rfl

end Interval

/-- An interval from which nothing is to be shifted out. -/
structure Settled (P : Params) extends Interval P where
  settled : ¬Narrow P lo hi

namespace Settled
variable {P : Params} (S : Settled P)

/-- The number of values in the interval. -/
def width : ℕ := S.hi - S.lo + 1

lemma m_le_width : P.m ≤ S.width := by
  have h := S.settled
  rw [Narrow, not_or] at h
  unfold width
  omega

lemma m_pos (P : Params) : 0 < P.m := lt_of_lt_of_le Nat.two_pos P.two_le_m

/-- Where the part of symbol `c` starts, counted from the low end. -/
def start (c : ℕ) : ℕ := (c * S.width + P.m - 1) / P.m

lemma start_le_iff {c x : ℕ} : S.start c ≤ x ↔ c * S.width ≤ x * P.m := by
  have hm := m_pos P
  rw [start, ← Nat.lt_add_one_iff, Nat.div_lt_iff_lt_mul hm, Nat.add_mul, Nat.one_mul]
  omega

lemma start_zero : S.start 0 = 0 := by
  rw [← Nat.le_zero, start_le_iff]
  simp

lemma start_last : S.start P.m = S.width := by
  apply le_antisymm
  · rw [start_le_iff, Nat.mul_comm]
  · have h := S.start_le_iff.1 (le_refl (S.start P.m))
    rw [Nat.mul_comm] at h
    exact Nat.le_of_mul_le_mul_right h (m_pos P)

lemma start_mono {c d : ℕ} (h : c ≤ d) : S.start c ≤ S.start d :=
  S.start_le_iff.2 ((Nat.mul_le_mul_right _ h).trans (S.start_le_iff.1 le_rfl))

/-- Every symbol has a part. -/
lemma start_lt_succ (c : ℕ) : S.start c < S.start (c + 1) := by
  have hm := m_pos P
  rw [start, start, ← Nat.add_one_le_iff, Nat.le_div_iff_mul_le hm, Nat.add_mul, Nat.one_mul, Nat.add_mul, Nat.one_mul]
  have h := Nat.div_mul_le_self (c * S.width + P.m - 1) P.m
  have hwidth := S.m_le_width
  omega

/-- A part has at most its share, rounded up. -/
lemma start_succ_le (c : ℕ) : S.start (c + 1) ≤ S.start c + (S.width + P.m - 1) / P.m := by
  have hm := m_pos P
  have hc := S.start_le_iff.1 (le_refl (S.start c))
  rw [Nat.add_comm (S.start c), ← Nat.add_mul_div_right _ _ hm, start]
  apply Nat.div_le_div_right
  rw [Nat.add_mul, Nat.one_mul]
  omega

/-- The part of a symbol. -/
def narrow (c : Fin P.m) : Interval P where
  lo := S.lo + S.start c
  hi := S.lo + S.start (c + 1) - 1
  le := by
    have h := S.start_lt_succ c
    omega
  lt := by
    have h : S.start (c + 1) ≤ S.start P.m := S.start_mono c.isLt
    have hle := S.le
    have hlt := S.lt
    rw [start_last, width] at h
    omega

lemma narrow_subset (c : Fin P.m) : S.lo ≤ (S.narrow c).lo ∧ (S.narrow c).hi ≤ S.hi := by
  have h : S.start (c + 1) ≤ S.start P.m := S.start_mono c.isLt
  have hle := S.le
  rw [start_last, width] at h
  exact ⟨Nat.le_add_right _ _, by simp only [narrow]; omega⟩

/-- The part of a symbol is smaller than the interval. -/
lemma narrow_width_lt (c : Fin P.m) : (S.narrow c).hi - (S.narrow c).lo < S.hi - S.lo := by
  have hstep := S.start_lt_succ c
  have hlast : S.start (c + 1) ≤ S.start P.m := S.start_mono c.isLt
  have hle := S.le
  rw [start_last, width] at hlast
  simp only [narrow]
  rcases Nat.eq_zero_or_pos c with hzero | hpos
  · have htwo := P.two_le_m
    have hnext : S.start 1 < S.start P.m := (S.start_lt_succ 1).trans_le (S.start_mono htwo)
    rw [start_last, width] at hnext
    rw [hzero, Nat.zero_add] at hstep ⊢
    rw [start_zero] at hstep ⊢
    omega
  · have hfirst : S.start 0 < S.start c := (S.start_lt_succ 0).trans_le (S.start_mono hpos)
    rw [start_zero] at hfirst
    omega

/-- The symbol whose part a value lies in. -/
def symbol (x : ℕ) : ℕ := (x - S.lo) * P.m / S.width

lemma symbol_lt {x : ℕ} (h : x ∈ S.toInterval) : S.symbol x < P.m := by
  have hwidth : x - S.lo < S.width := by
    have := h.2
    unfold width
    omega
  have hm := m_pos P
  rw [symbol, Nat.div_lt_iff_lt_mul (by unfold width; omega), Nat.mul_comm]
  exact Nat.mul_lt_mul_of_pos_left hwidth hm

lemma symbol_eq_iff {x c : ℕ} : S.symbol x = c ↔ S.start c ≤ x - S.lo ∧ x - S.lo < S.start (c + 1) := by
  have hpos : 0 < S.width := Nat.succ_pos _
  rw [← not_le (b := x - S.lo), start_le_iff, start_le_iff, not_le, symbol, Nat.div_eq_iff hpos, Nat.add_mul, Nat.one_mul]
  omega

lemma mem_narrow_symbol {x : ℕ} (h : x ∈ S.toInterval) : x ∈ S.narrow ⟨S.symbol x, S.symbol_lt h⟩ := by
  obtain ⟨h1, h2⟩ := (S.symbol_eq_iff (x := x)).1 rfl
  have hlo := h.1
  constructor
  · simp only [narrow]
    omega
  · simp only [narrow]
    omega

theorem symbol_of_mem_narrow {x : ℕ} {c : Fin P.m} (h : x ∈ S.narrow c) : S.symbol x = c := by
  obtain ⟨h1, h2⟩ := h
  have hstep := S.start_lt_succ c
  simp only [narrow] at h1 h2
  exact S.symbol_eq_iff.2 ⟨by omega, by omega⟩

end Settled

namespace Interval
variable {P : Params} (I : Interval P)

/-- The interval after all digits are shifted out that have to be. -/
def refill : Settled P where
  lo := I.loAt I.shifts
  hi := I.hiAt I.shifts
  le := by
    have h := I.not_narrow_shifts
    have hm := P.two_le_m
    rw [Narrow, not_or] at h
    omega
  lt := Params.slide_lt (fun d hd => by rw [List.eq_of_mem_replicate hd]; exact Nat.sub_lt P.b_pos Nat.one_pos)
    (by simpa using I.shifts_le) _
  settled := I.not_narrow_shifts

/-- With any further digits, a value of the interval becomes one of the refilled interval. -/
theorem slide_mem_refill {x : ℕ} (h : x ∈ I) {ds : List ℕ} (hds : ∀ d ∈ ds, d < P.b) (hlen : ds.length = I.shifts) :
    P.slide x ds ∈ I.refill.toInterval := by
  have hval := value_lt hds
  have hmod : I.lo % P.b^(P.p - I.shifts) ≤ x % P.b^(P.p - I.shifts) ∧
      x % P.b^(P.p - I.shifts) ≤ I.hi % P.b^(P.p - I.shifts) := by
    rcases I.shifts_eq_or_prefix with hall | hprefix
    · rw [hall, Nat.sub_self, pow_zero]
      simp [Nat.mod_one]
    · have hxlo : I.lo / P.b^(P.p - I.shifts) ≤ x / P.b^(P.p - I.shifts) := Nat.div_le_div_right h.1
      have hxhi : x / P.b^(P.p - I.shifts) ≤ I.hi / P.b^(P.p - I.shifts) := Nat.div_le_div_right h.2
      have hx : x / P.b^(P.p - I.shifts) = I.lo / P.b^(P.p - I.shifts) := by omega
      have h1 := Nat.div_add_mod I.lo (P.b^(P.p - I.shifts))
      have h2 := Nat.div_add_mod x (P.b^(P.p - I.shifts))
      have h3 := Nat.div_add_mod I.hi (P.b^(P.p - I.shifts))
      have hlo := h.1
      have hhi := h.2
      rw [hx] at h2
      rw [← hprefix] at h3
      omega
  rw [hlen] at hval
  constructor
  · change I.loAt _ ≤ _
    rw [loAt_eq, Params.slide, hlen]
    exact (Nat.mul_le_mul_right _ hmod.1).trans (Nat.le_add_right _ _)
  · change _ ≤ I.hiAt _
    have hhi := I.hiAt_eq I.shifts
    have hmul : x % P.b^(P.p - I.shifts) * P.b^I.shifts ≤ I.hi % P.b^(P.p - I.shifts) * P.b^I.shifts :=
      Nat.mul_le_mul_right _ hmod.2
    rw [Nat.add_mul, Nat.one_mul] at hhi
    rw [Params.slide, hlen]
    omega

/-- An interval of one value loses all its digits. -/
lemma shifts_of_lo_eq_hi (h : I.lo = I.hi) : I.shifts = P.p := by
  apply le_antisymm I.shifts_le
  refine (Nat.le_find_iff _ _).2 fun k hk => not_not.2 (Or.inl ?_)
  rw [I.hiAt_div hk, I.loAt_div hk, h]

/-- The interval of zero alone. -/
def zero (P : Params) : Interval P := ⟨0, 0, le_rfl, P.pow_pos _⟩

lemma shifts_zero : (zero P).shifts = P.p := shifts_of_lo_eq_hi _ rfl

lemma refill_lo_div {j : ℕ} : I.refill.lo / P.b^(j + I.shifts) = I.lo % P.b^(P.p - I.shifts) / P.b^j := by
  change I.loAt _ / _ = _
  rw [loAt_eq, Nat.add_comm, pow_add, ← Nat.div_div_eq_div_mul, Nat.mul_div_cancel _ (P.pow_pos _)]

lemma refill_hi_div {j : ℕ} : I.refill.hi / P.b^(j + I.shifts) = I.hi % P.b^(P.p - I.shifts) / P.b^j := by
  have hhi : I.refill.hi + 1 = (I.hi % P.b^(P.p - I.shifts) + 1) * P.b^I.shifts := I.hiAt_eq I.shifts
  have hpos := P.pow_pos I.shifts
  rw [Nat.add_mul, Nat.one_mul] at hhi
  have hform : I.refill.hi = P.b^I.shifts * (I.hi % P.b^(P.p - I.shifts)) + (P.b^I.shifts - 1) := by
    rw [Nat.mul_comm (P.b^I.shifts)]
    omega
  rw [hform, Nat.add_comm j, pow_add, ← Nat.div_div_eq_div_mul, Nat.mul_add_div hpos,
    Nat.div_eq_of_lt (Nat.sub_lt hpos Nat.one_pos), Nat.add_zero]

lemma refill_of_shifts_eq_zero (h : I.shifts = 0) : I.refill.lo = I.lo ∧ I.refill.hi = I.hi := by
  constructor
  · change I.loAt _ = _
    rw [h]
    exact Params.slide_nil I.lo_lt
  · change I.hiAt _ = _
    rw [h]
    exact Params.slide_nil I.lt

/-- The last `n` digits of a code, counted from a narrowed interval: symbols that stand for nothing
are coded until there are enough of them. -/
def finish (phantom : Fin P.m) (n : ℕ) (I : Interval P) : List ℕ :=
  if n ≤ I.shifts then P.top I.lo n
  else P.top I.lo I.shifts ++ finish phantom (n - I.shifts) (I.refill.narrow phantom)
termination_by (n, I.hi - I.lo)
decreasing_by
  rename_i h
  rcases Nat.eq_zero_or_pos I.shifts with hzero | hpos
  · have hlt := I.refill.narrow_width_lt phantom
    obtain ⟨hlo, hhi⟩ := I.refill_of_shifts_eq_zero hzero
    rw [hlo, hhi] at hlt
    rw [hzero, Nat.sub_zero]
    exact Prod.Lex.right _ hlt
  · exact Prod.Lex.left _ _ (by omega)

end Interval

/-- The interval of all values. -/
def Settled.whole (P : Params) : Settled P := (Interval.zero P).refill

lemma Settled.whole_lo (P : Params) : (whole P).lo = 0 := by
  change (Interval.zero P).loAt _ = 0
  rw [Interval.loAt_eq, Interval.shifts_zero, Nat.sub_self, pow_zero, Nat.mod_one, Nat.zero_mul]

lemma Settled.whole_hi (P : Params) : (whole P).hi + 1 = P.b^P.p := by
  change (Interval.zero P).hiAt _ + 1 = _
  rw [Interval.hiAt_eq, Interval.shifts_zero, Nat.sub_self, pow_zero, Nat.mod_one, Nat.zero_add, Nat.one_mul]

lemma div_split (b x i j : ℕ) : x / b^j = x / b^(j + i) * b^i + x % b^(j + i) / b^j := by
  rw [pow_add, ← Nat.div_div_eq_div_mul, Nat.mod_mul_right_div_self]
  exact (Nat.div_add_mod' _ _).symm

namespace Interval
variable {P : Params} (phantom : Fin P.m)

lemma length_finish (n : ℕ) (I : Interval P) : (finish phantom n I).length = n := by
  induction n, I using finish.induct phantom with
  | case1 n I h => rw [finish, if_pos h, Params.length_top]
  | case2 n I h ih =>
    rw [finish, if_neg h, List.length_append, Params.length_top, ih]
    omega

lemma lt_of_mem_finish {n : ℕ} {I : Interval P} {d : ℕ} (hd : d ∈ finish phantom n I) : d < P.b := by
  induction n, I using finish.induct phantom with
  | case1 n I h =>
    rw [finish, if_pos h] at hd
    exact Params.mem_top_lt hd
  | case2 n I h ih =>
    rw [finish, if_neg h, List.mem_append] at hd
    exact hd.elim Params.mem_top_lt ih

/-- Digits that were shifted out, before digits of the refilled interval, are digits of the interval. -/
lemma value_top_append (I : Interval P) {n : ℕ} {ds : List ℕ} (hk : I.shifts < n) (hn : n ≤ P.p)
    (hlen : ds.length = n - I.shifts) (hlow : I.refill.lo / P.b^(P.p - n + I.shifts) ≤ value P.b ds)
    (hhigh : value P.b ds ≤ I.refill.hi / P.b^(P.p - n + I.shifts)) :
    I.lo / P.b^(P.p - n) ≤ value P.b (P.top I.lo I.shifts ++ ds) ∧
      value P.b (P.top I.lo I.shifts ++ ds) ≤ I.hi / P.b^(P.p - n) := by
  have hprefix := I.shifts_eq_or_prefix.resolve_left (by omega)
  have hpow : P.p - n + (n - I.shifts) = P.p - I.shifts := by omega
  rw [refill_lo_div] at hlow
  rw [refill_hi_div] at hhigh
  rw [value_append, Params.value_top I.lo_lt I.shifts_le, hlen, div_split P.b I.lo (n - I.shifts),
    div_split P.b I.hi (n - I.shifts), hpow, ← hprefix]
  exact ⟨Nat.add_le_add_left hlow _, Nat.add_le_add_left hhigh _⟩

lemma div_mem {S : Settled P} {c : Fin P.m} {v j : ℕ} (hlow : (S.narrow c).lo / P.b^j ≤ v)
    (hhigh : v ≤ (S.narrow c).hi / P.b^j) : S.lo / P.b^j ≤ v ∧ v ≤ S.hi / P.b^j := by
  obtain ⟨h1, h2⟩ := S.narrow_subset c
  exact ⟨(Nat.div_le_div_right h1).trans hlow, hhigh.trans (Nat.div_le_div_right h2)⟩

/-- The digits of the tail lie in the interval as far as they go. -/
theorem value_finish {n : ℕ} (I : Interval P) (hn : n ≤ P.p) :
    I.lo / P.b^(P.p - n) ≤ value P.b (finish phantom n I) ∧ value P.b (finish phantom n I) ≤ I.hi / P.b^(P.p - n) := by
  induction n, I using finish.induct phantom with
  | case1 n I h =>
    rw [finish, if_pos h, Params.value_top I.lo_lt hn]
    exact ⟨le_rfl, Nat.div_le_div_right I.le⟩
  | case2 n I h ih =>
    obtain ⟨h1, h2⟩ := ih (by omega)
    have hmem := div_mem h1 h2
    rw [show P.p - (n - I.shifts) = P.p - n + I.shifts by omega] at hmem
    rw [finish, if_neg h]
    exact I.value_top_append (by omega) hn (length_finish _ _ _) hmem.1 hmem.2

end Interval

namespace Settled
variable {P : Params} (phantom : Fin P.m)

/-- The code of a list of symbols: after the last one, as many digits as a register has. -/
def encode : Settled P → List (Fin P.m) → List ℕ
  | _, [] => []
  | S, [c] => (S.narrow c).finish phantom P.p
  | S, c :: d :: cs => P.top (S.narrow c).lo (S.narrow c).shifts ++ encode (S.narrow c).refill (d :: cs)

lemma le_length_encode (S : Settled P) (c : Fin P.m) (cs : List (Fin P.m)) :
    P.p ≤ (encode phantom S (c :: cs)).length := by
  induction cs generalizing S c with
  | nil => rw [encode, Interval.length_finish]
  | cons d cs ih =>
    rw [encode, List.length_append]
    exact (ih _ d).trans (Nat.le_add_left _ _)

/-- Every symbol puts out at most as many digits as a register has. -/
lemma length_encode_le (S : Settled P) (cs : List (Fin P.m)) : (encode phantom S cs).length ≤ P.p * cs.length := by
  induction S, cs using encode.induct with
  | case1 => simp [encode]
  | case2 S c => rw [encode, Interval.length_finish, List.length_singleton, Nat.mul_one]
  | case3 S c d cs ih =>
    have hk := (S.narrow c).shifts_le
    rw [encode, List.length_append, Params.length_top, List.length_cons, Nat.mul_add, Nat.mul_one, Nat.add_comm]
    exact Nat.add_le_add ih hk

lemma lt_of_mem_encode {S : Settled P} {cs : List (Fin P.m)} {x : ℕ} (h : x ∈ encode phantom S cs) : x < P.b := by
  induction S, cs using encode.induct with
  | case1 => simp [encode] at h
  | case2 S c =>
    rw [encode] at h
    exact Interval.lt_of_mem_finish phantom h
  | case3 S c d cs ih =>
    rw [encode, List.mem_append] at h
    exact h.elim Params.mem_top_lt ih

lemma value_take {b : ℕ} {ds : List ℕ} (hds : ∀ d ∈ ds, d < b) (k : ℕ) :
    value b (ds.take (ds.length - k)) = value b ds / b^k ∨ ds.length < k := by
  rcases Nat.lt_or_ge ds.length k with hlt | hge
  · exact Or.inr hlt
  · left
    have hdrop : value b (ds.drop (ds.length - k)) < b^k := by
      have h := @value_lt b (ds.drop (ds.length - k)) fun d hd => hds d (List.mem_of_mem_drop hd)
      rw [List.length_drop, Nat.sub_sub_self hge] at h
      exact h
    have hval := value_append b (ds.take (ds.length - k)) (ds.drop (ds.length - k))
    rw [List.take_append_drop, List.length_drop, Nat.sub_sub_self hge] at hval
    have hpos : 0 < b^k := by omega
    rw [hval, Nat.mul_comm, Nat.mul_add_div hpos, Nat.div_eq_of_lt hdrop, Nat.add_zero]

/-- The first digits of a code lie in the part of its first symbol. -/
theorem value_take_encode (S : Settled P) (c : Fin P.m) (cs : List (Fin P.m)) :
    value P.b ((encode phantom S (c :: cs)).take P.p) ∈ S.narrow c := by
  induction cs generalizing S c with
  | nil =>
    have h := Interval.value_finish phantom (S.narrow c) (le_refl P.p)
    rw [Nat.sub_self, pow_zero, Nat.div_one, Nat.div_one] at h
    rw [encode, List.take_of_length_le (Interval.length_finish _ _ _).le]
    exact h
  | cons d cs ih =>
    have hlen := le_length_encode phantom (S.narrow c).refill d cs
    have hk := (S.narrow c).shifts_le
    rw [encode, List.take_append, Params.length_top, List.take_of_length_le (by rw [Params.length_top]; exact hk)]
    rcases hk.eq_or_lt with hall | hlt
    · rw [hall, Nat.sub_self, List.take_zero, List.append_nil, Params.value_top (S.narrow c).lo_lt le_rfl, Nat.sub_self,
        pow_zero, Nat.div_one]
      exact ⟨le_rfl, (S.narrow c).le⟩
    · have hwindow := ih (S.narrow c).refill d
      obtain ⟨h1, h2⟩ := hwindow
      have hsub := (S.narrow c).refill.narrow_subset d
      set E := encode phantom (S.narrow c).refill (d :: cs) with hE
      have hwin : (E.take P.p).length = P.p := by rw [List.length_take]; omega
      have hval := (@value_take P.b (E.take P.p) (fun x hx => lt_of_mem_encode phantom (List.mem_of_mem_take hx))
        (S.narrow c).shifts).resolve_right (by omega)
      rw [hwin, List.take_take, Nat.min_eq_left (by omega)] at hval
      have happ := @Interval.value_top_append P (S.narrow c) P.p (E.take (P.p - (S.narrow c).shifts)) hlt le_rfl
        (by rw [List.length_take]; omega)
      rw [Nat.sub_self, Nat.zero_add, hval, pow_zero, Nat.div_one, Nat.div_one] at happ
      exact happ (Nat.div_le_div_right (hsub.1.trans h1)) (Nat.div_le_div_right (h2.trans hsub.2))

/-- Shifting in the next digits moves the window along the code. -/
lemma slide_window {ds : List ℕ} {k : ℕ} (hds : ∀ d ∈ ds, d < P.b) (hk : k ≤ P.p) (hlen : P.p + k ≤ ds.length) :
    P.slide (value P.b (ds.take P.p)) ((ds.drop P.p).take k) = value P.b ((ds.drop k).take P.p) := by
  have hlenk : ((ds.drop P.p).take k).length = k := by
    rw [List.length_take, List.length_drop]
    omega
  have hsplit : ds.take P.p = ds.take k ++ (ds.drop k).take (P.p - k) := by
    rw [← List.take_add, Nat.add_sub_cancel' hk]
  have hnext : (ds.drop k).take P.p = (ds.drop k).take (P.p - k) ++ (ds.drop P.p).take k := by
    conv_lhs => rw [← Nat.sub_add_cancel hk, List.take_add, List.drop_drop, Nat.add_sub_cancel' hk]
  have hmid : ((ds.drop k).take (P.p - k)).length = P.p - k := by
    rw [List.length_take, List.length_drop]
    omega
  have hlt : value P.b ((ds.drop k).take (P.p - k)) < P.b^(P.p - k) := by
    have h := @value_lt P.b ((ds.drop k).take (P.p - k)) fun d hd =>
      hds d (List.mem_of_mem_drop (List.mem_of_mem_take hd))
    rw [hmid] at h
    exact h
  rw [Params.slide, hlenk, hsplit, value_append, hmid, hnext, value_append, hlenk, Nat.mul_comm (value _ _),
    Nat.mul_add_mod, Nat.mod_eq_of_lt hlt]

end Settled
end RangeCoder
