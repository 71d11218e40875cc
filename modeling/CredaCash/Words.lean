import Mathlib.Algebra.Group.Nat.Defs
import Mathlib.Data.Nat.Bitwise

/-! Numbers in words of a fixed width, the least significant one first, and what is carried between neighbours. -/

namespace Words
variable {w n L : ℕ} {f : ℕ → ℕ}

/-- The number of the first words. -/
def value (w : ℕ) (f : ℕ → ℕ) : ℕ → ℕ
  | 0 => 0
  | L+1 => 2^(w*L) * f L + value w f L

/-- Words shifted up within themselves, each with the top bits of the one below it. -/
def carriedUp (w n : ℕ) (f : ℕ → ℕ) : ℕ → ℕ
  | 0 => f 0 * 2^n % 2^w
  | j+1 => f (j+1) * 2^n % 2^w ||| f j / 2^(w-n)

/-- Words shifted down within themselves, each but the last with the low bits of the one above it. -/
def carriedDown (w n L : ℕ) (f : ℕ → ℕ) (j : ℕ) : ℕ :=
  f j / 2^n ||| if j + 1 < L then f (j+1) * 2^(w-n) % 2^w else 0

/-- Words cut off behind a number of bits. -/
def masked (w n : ℕ) (f : ℕ → ℕ) (j : ℕ) : ℕ :=
  if n ≤ j * w then 0 else if n < (j+1) * w then f j % 2^(n - j*w) else f j

section
variable (hf : ∀ j, f j < 2^w)
include hf

lemma value_lt (L : ℕ) : value w f L < 2^(w*L) := by
  induction L with
  | zero => simp [value]
  | succ L ih =>
    have hfL : 2^(w*L) * (f L + 1) ≤ 2^(w*L) * 2^w := Nat.mul_le_mul_left _ (hf L)
    rw [value, Nat.mul_succ w L, Nat.pow_add]
    rw [Nat.mul_succ] at hfL
    omega

lemma testBit_word {b : ℕ} (h : w ≤ b) (j : ℕ) : (f j).testBit b = false :=
  Nat.testBit_lt_two_pow ((hf j).trans_le (Nat.pow_le_pow_right Nat.two_pos h))

/-- A bit of the number is one of the word that it falls in. -/
theorem testBit_value (L b : ℕ) : (value w f L).testBit b = (decide (b < w*L) && (f (b/w)).testBit (b%w)) := by
  rcases Nat.eq_zero_or_pos w with rfl | hw
  · have hlt := value_lt hf L
    rw [Nat.zero_mul, Nat.pow_zero, Nat.lt_one_iff] at hlt
    simp [hlt]
  induction L with
  | zero => simp [value]
  | succ L ih =>
    rw [value, Nat.testBit_two_pow_mul_add _ (value_lt hf L), ih, Nat.mul_succ]
    split_ifs with hlow
    · simp [hlow, show b < w*L + w by omega]
    · by_cases hb : b < w*L + w
      · have hdiv : b / w = L :=
          Nat.div_eq_of_lt_le (by rw [Nat.mul_comm]; omega) (by rw [Nat.succ_mul, Nat.mul_comm]; omega)
        have hmod : b % w = b - w*L := by rw [Nat.mod_eq_sub_mul_div, hdiv]
        simp [hb, hdiv, hmod]
      · rw [testBit_word hf (by omega)]
        simp [hb]

end

/-- Bits of the words decide the number. -/
lemma value_eq {g : ℕ → ℕ} {v : ℕ} (hg : ∀ j, g j < 2^w) (hv : v < 2^(w*L))
    (h : ∀ b < w*L, (g (b/w)).testBit (b%w) = v.testBit b) : value w g L = v := by
  apply Nat.eq_of_testBit_eq
  intro b
  rw [testBit_value hg]
  by_cases hb : b < w*L
  · simp [hb, h b hb]
  · rw [Nat.testBit_lt_two_pow (hv.trans_le (Nat.pow_le_pow_right Nat.two_pos (not_lt.1 hb)))]
    simp [hb]

section
variable (hf : ∀ j, f j < 2^w)
include hf

lemma carriedUp_lt (n j : ℕ) : carriedUp w n f j < 2^w := by
  cases j with
  | zero => exact Nat.mod_lt _ (Nat.two_pow_pos w)
  | succ j => exact Nat.or_lt_two_pow (Nat.mod_lt _ (Nat.two_pow_pos w)) ((Nat.div_le_self _ _).trans_lt (hf j))

lemma carriedDown_lt (n L j : ℕ) : carriedDown w n L f j < 2^w := by
  apply Nat.or_lt_two_pow ((Nat.div_le_self _ _).trans_lt (hf j))
  split_ifs
  · exact Nat.mod_lt _ (Nat.two_pow_pos w)
  · exact Nat.two_pow_pos w

lemma masked_lt (n j : ℕ) : masked w n f j < 2^w := by
  unfold masked
  split_ifs
  · exact Nat.two_pow_pos w
  · exact (Nat.mod_le _ _).trans_lt (hf j)
  · exact hf j

/-- The bits of a word after the shift are those that many places below. -/
lemma testBit_carriedUp (hn : n ≤ w) {j s : ℕ} (hs : s < w) :
    (carriedUp w n f j).testBit s = (decide (n ≤ w*j + s) && (f ((w*j + s - n) / w)).testBit ((w*j + s - n) % w)) := by
  by_cases hle : n ≤ s
  · have hb : w*j + s - n = s - n + w*j := by omega
    have hlt : s - n < w := by omega
    rw [hb, Nat.add_mul_div_left _ _ (by omega), Nat.add_mul_mod_self_left, Nat.div_eq_of_lt hlt, Nat.mod_eq_of_lt hlt,
      Nat.zero_add]
    have hlow : (f j * 2^n % 2^w).testBit s = (f j).testBit (s - n) := by simp [Nat.testBit_mul_two_pow, hs, hle]
    have hpos : n ≤ w*j + s := by omega
    cases j with
    | zero => simp [carriedUp, hlow, hle]
    | succ j => simp [carriedUp, hlow, hpos, Nat.testBit_div_two_pow, testBit_word hf (show w ≤ s + (w - n) by omega)]
  · cases j with
    | zero => simp [carriedUp, Nat.testBit_mul_two_pow, hle]
    | succ j =>
      have hb : w*(j+1) + s - n = s + (w - n) + w*j := by rw [Nat.mul_succ]; omega
      have hlt : s + (w - n) < w := by omega
      have hpos : n ≤ w*(j+1) + s := by rw [Nat.mul_succ]; omega
      rw [hb, Nat.add_mul_div_left _ _ (by omega), Nat.add_mul_mod_self_left, Nat.div_eq_of_lt hlt, Nat.mod_eq_of_lt hlt,
        Nat.zero_add]
      simp [carriedUp, Nat.testBit_mul_two_pow, Nat.testBit_div_two_pow, hle, hpos]

theorem value_carriedUp (hn : n ≤ w) (L : ℕ) : value w (carriedUp w n f) L = value w f L * 2^n % 2^(w*L) := by
  apply value_eq (carriedUp_lt hf n) (Nat.mod_lt _ (Nat.two_pow_pos _))
  intro b hb
  have hw : 0 < w := Nat.pos_of_ne_zero (by rintro rfl; simp at hb)
  rw [testBit_carriedUp hf hn (Nat.mod_lt b hw), Nat.div_add_mod, Nat.testBit_mod_two_pow, Nat.testBit_mul_two_pow,
    testBit_value hf]
  simp [hb, show b - n < w*L by omega]

/-- The bits of a word after the shift are those that many places above. -/
lemma testBit_carriedDown (hn : n ≤ w) {j s : ℕ} (hs : s < w) (hj : j < L) :
    (carriedDown w n L f j).testBit s =
      (decide (w*j + s + n < w*L) && (f ((w*j + s + n) / w)).testBit ((w*j + s + n) % w)) := by
  rw [carriedDown, Nat.testBit_or, Nat.testBit_div_two_pow]
  have hL : w*(j+1) ≤ w*L := Nat.mul_le_mul_left w hj
  rw [Nat.mul_succ] at hL
  by_cases hlt : s + n < w
  · rw [show w*j + s + n = s + n + w*j by omega, Nat.add_mul_div_left _ _ (by omega), Nat.add_mul_mod_self_left,
      Nat.div_eq_of_lt hlt, Nat.mod_eq_of_lt hlt, Nat.zero_add]
    have hpos : s + n + w*j < w*L := by omega
    split_ifs <;> simp [Nat.testBit_mul_two_pow, hpos, show ¬ w - n ≤ s by omega]
  · have hb : w*j + s + n = s - (w - n) + w*(j+1) := by rw [Nat.mul_succ]; omega
    have hlt' : s - (w - n) < w := by omega
    rw [hb, Nat.add_mul_div_left _ _ (by omega), Nat.add_mul_mod_self_left, Nat.div_eq_of_lt hlt', Nat.mod_eq_of_lt hlt',
      Nat.zero_add, testBit_word hf (show w ≤ s + n by omega)]
    by_cases hjL : j + 1 < L
    · have hL' : w*(j+1+1) ≤ w*L := Nat.mul_le_mul_left w hjL
      rw [Nat.mul_succ] at hL'
      have hpos : s - (w - n) + w*(j+1) < w*L := by omega
      simp [hjL, Nat.testBit_mul_two_pow, hs, hpos, show w - n ≤ s by omega]
    · have hend : L = j + 1 := by omega
      subst hend
      simp

theorem value_carriedDown (hn : n ≤ w) (L : ℕ) : value w (carriedDown w n L f) L = value w f L / 2^n := by
  apply value_eq (carriedDown_lt hf n L) ((Nat.div_le_self _ _).trans_lt (value_lt hf L))
  intro b hb
  have hw : 0 < w := Nat.pos_of_ne_zero (by rintro rfl; simp at hb)
  rw [testBit_carriedDown hf hn (Nat.mod_lt b hw) (Nat.div_lt_of_lt_mul hb), Nat.div_add_mod, Nat.testBit_div_two_pow,
    testBit_value hf]

theorem value_masked (n L : ℕ) : value w (masked w n f) L = value w f L % 2^n := by
  apply value_eq (masked_lt hf n) ((Nat.mod_le _ _).trans_lt (value_lt hf L))
  intro b hb
  have hw : 0 < w := Nat.pos_of_ne_zero (by rintro rfl; simp at hb)
  rw [Nat.testBit_mod_two_pow, testBit_value hf, masked]
  have hdiv := Nat.div_add_mod b w
  have hlt := Nat.mod_lt b hw
  rw [Nat.mul_comm (b/w) w, Nat.add_mul, Nat.mul_comm (b/w) w, Nat.one_mul]
  split_ifs with hlow hcut
  · simp [show ¬ b < n by omega]
  · rw [Nat.testBit_mod_two_pow]
    simp [hb, show b % w < n - w*(b/w) ↔ b < n by omega]
  · simp [hb, show b < n by omega]

end

end Words
