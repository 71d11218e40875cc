import Mathlib.Data.Nat.Digits.Lemmas

/-! Digits, the least significant one first: a number of them, or as many as there are, but one at least. -/

namespace PlaceValue
variable {b n v k : ℕ}

/-- The `n` lowest digits. -/
def lowDigits (b : ℕ) : ℕ → ℕ → List ℕ
  | 0, _ => []
  | n+1, v => v % b :: lowDigits b n (v / b)

/-- The number of digits of a number, where 0 has one. -/
def width (b v : ℕ) : ℕ := max 1 (Nat.digits b v).length

@[simp] lemma length_lowDigits (b n v : ℕ) : (lowDigits b n v).length = n := by
  induction n generalizing v with
  | zero => rfl
  | succ n ih => rw [lowDigits, List.length_cons, ih]

lemma lt_of_mem_lowDigits (hb : 0 < b) {d : ℕ} (hd : d ∈ lowDigits b n v) : d < b := by
  induction n generalizing v with
  | zero => exact absurd hd List.not_mem_nil
  | succ n ih =>
    rcases List.mem_cons.1 hd with rfl | hd
    · exact Nat.mod_lt v hb
    · exact ih hd

/-- Digits stand for the number, as far as they go. -/
lemma ofDigits_lowDigits (b n v : ℕ) : Nat.ofDigits b (lowDigits b n v) = v % b^n := by
  induction n generalizing v with
  | zero => rw [lowDigits, Nat.ofDigits_nil, pow_zero, Nat.mod_one]
  | succ n ih => rw [lowDigits, Nat.ofDigits_cons, ih, pow_succ', Nat.mod_mul]

lemma ofDigits_lowDigits_of_lt (h : v < b^n) : Nat.ofDigits b (lowDigits b n v) = v := by
  rw [ofDigits_lowDigits, Nat.mod_eq_of_lt h]

lemma lt_pow_width (hb : 1 < b) (v : ℕ) : v < b^(width b v) :=
  (Nat.lt_base_pow_length_digits hb).trans_le (Nat.pow_le_pow_right (by omega) (le_max_right _ _))

lemma width_le (hb : 1 < b) (hk : 0 < k) (h : v < b^k) : width b v ≤ k :=
  max_le hk ((Nat.digits_length_le_iff hb v).2 h)

lemma width_eq (hb : 1 < b) (hle : b^n ≤ v) (hlt : v < b^(n + 1)) : width b v = n + 1 := by
  apply le_antisymm (width_le hb (Nat.succ_pos n) hlt)
  exact ((Nat.lt_digits_length_iff hb v).2 hle).trans_le (le_max_right _ _)

/-- Before the last digit something is left. -/
lemma div_pow_ne_zero (hb : 1 < b) (hk : 0 < k) (hlt : k < width b v) : v / b^k ≠ 0 := by
  have hlen : k < (Nat.digits b v).length := by
    unfold width at hlt
    omega
  have hle := (Nat.lt_digits_length_iff hb v).1 hlen
  exact (Nat.div_pos hle (Nat.pow_pos (by omega))).ne'

lemma div_pow_width (hb : 1 < b) (v : ℕ) : v / b^(width b v) = 0 := Nat.div_eq_of_lt (lt_pow_width hb v)

end PlaceValue
