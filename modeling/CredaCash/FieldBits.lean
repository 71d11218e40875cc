import CredaCash.PlaceValue
import Mathlib.Algebra.CharP.Basic
import Mathlib.Algebra.Field.Basic
import Mathlib.Tactic.Ring

/-! Numbers as lists of bits in a field, the least significant one first, and weighted sums of such lists. -/

namespace FieldBits
open PlaceValue
variable {F : Type} [Field F] {n m v v' i : ℕ} {l : List F} {base : ℕ → F} {b x : F}

/-- The `n` lowest bits of a number. -/
def bits (F : Type) [Field F] (n v : ℕ) : List F := (lowDigits 2 n v).map Nat.cast

/-- The sum of a list with weights. -/
def weighted (base : ℕ → F) : List F → F
  | [] => 0
  | b :: rest => b * base 0 + weighted (fun i => base (i + 1)) rest

@[simp] lemma length_bits : (bits F n v).length = n := by rw [bits, List.length_map, length_lowDigits]

lemma bits_succ : bits F (n + 1) v = ((v % 2 : ℕ) : F) :: bits F n (v / 2) := rfl

lemma isBit_of_mem_bits (h : b ∈ bits F n v) : b = 0 ∨ b = 1 := by
  obtain ⟨d, hd, rfl⟩ := List.mem_map.1 h
  have hlt := lt_of_mem_lowDigits two_pos hd
  interval_cases d
  · exact .inl Nat.cast_zero
  · exact .inr Nat.cast_one

/-- Bits are those of a number. -/
lemma exists_eq_bits (h : ∀ b ∈ l, b = 0 ∨ b = 1) : ∃ v < 2^l.length, l = bits F l.length v := by
  induction l with
  | nil => exact ⟨0, by simp, rfl⟩
  | cons b l ih =>
    obtain ⟨hb, hl⟩ := List.forall_mem_cons.1 h
    obtain ⟨v, hv, heq⟩ := ih hl
    rw [List.length_cons]
    obtain ⟨d, hd, rfl⟩ : ∃ d : ℕ, d < 2 ∧ b = (d : F) := by
      rcases hb with rfl | rfl
      · exact ⟨0, two_pos, Nat.cast_zero.symm⟩
      · exact ⟨1, one_lt_two, Nat.cast_one.symm⟩
    refine ⟨2 * v + d, ?_, ?_⟩
    · rw [pow_succ]
      omega
    · rw [bits_succ, show (2 * v + d) % 2 = d by omega, show (2 * v + d) / 2 = v by omega, ← heq]

lemma bits_mod : bits F n (v % 2^n) = bits F n v := by
  induction n generalizing v with
  | zero => rfl
  | succ n ih =>
    have hmod : v % 2^(n + 1) % 2 = v % 2 := Nat.mod_mod_of_dvd _ (dvd_pow_self 2 (Nat.succ_ne_zero n))
    have hdiv : v % 2^(n + 1) / 2 = v / 2 % 2^n := by rw [pow_succ', Nat.mod_mul_right_div_self]
    rw [bits_succ, bits_succ, hmod, hdiv, ih]

lemma bits_getElem? : (bits F n v)[i]? = if i < n then some ((v / 2^i % 2 : ℕ) : F) else none := by
  induction n generalizing v i with
  | zero => simp [bits, lowDigits]
  | succ n ih =>
    cases i with
    | zero => simp [bits_succ]
    | succ i => rw [bits_succ, List.getElem?_cons_succ, ih, pow_succ', Nat.div_div_eq_div_mul]; simp

lemma bits_getD (h : i < n) : (bits F n v).getD i 0 = ((v / 2^i % 2 : ℕ) : F) := by
  rw [List.getD_eq_getElem?_getD, bits_getElem?, if_pos h, Option.getD_some]

/-- The lower bits. -/
lemma bits_take (h : m ≤ n) : (bits F n v).take m = bits F m v := by
  induction m generalizing n v with
  | zero => rfl
  | succ m ih =>
    obtain ⟨n, rfl⟩ := Nat.exists_eq_succ_of_ne_zero (by omega : n ≠ 0)
    rw [bits_succ, List.take_succ_cons, ih (by omega), bits_succ]

/-- The higher bits. -/
lemma bits_drop : (bits F n v).drop m = bits F (n - m) (v / 2^m) := by
  induction m generalizing n v with
  | zero => simp
  | succ m ih =>
    cases n with
    | zero => simp [bits, lowDigits]
    | succ n => rw [bits_succ, List.drop_succ_cons, ih, Nat.succ_sub_succ, Nat.div_div_eq_div_mul, pow_succ']

/-- The product of the powers that the bits of a number stand for. -/
lemma foldl_powers (base : F) (bits : ℕ → F) (h : ∀ i < n, bits i = ((v / 2^i % 2 : ℕ) : F)) :
    (List.range n).foldl (fun x i => x * (base^2^i * bits i + (1 - bits i))) x = x * base^(v % 2^n) := by
  induction n with
  | zero => simp [Nat.mod_one]
  | succ n ih =>
    rw [List.range_succ, List.foldl_append, ih fun i hi => h i (by omega), List.foldl_cons, List.foldl_nil,
      h n (by omega), Nat.mod_pow_succ, pow_add, mul_assoc]
    rcases Nat.mod_two_eq_zero_or_one (v / 2^n) with hbit | hbit <;> simp [hbit]

/-- A number is the sum of the powers of two that its bits stand for. -/
lemma weighted_bits (h : v < 2^n) : weighted (fun i => (2 : F)^i) (bits F n v) = v := by
  suffices hscale : ∀ k : ℕ, weighted (fun i => (2 : F)^(i + k)) (bits F n v) = 2^k * v by
    simpa using hscale 0
  induction n generalizing v with
  | zero =>
    intro k
    obtain rfl : v = 0 := by omega
    simp [bits, lowDigits, weighted]
  | succ n ih =>
    intro k
    have hrest := ih (v := v / 2) (by omega) (k + 1)
    have hsplit : (v : F) = ((v % 2 : ℕ) : F) + 2 * ((v / 2 : ℕ) : F) := by
      rw [← Nat.cast_ofNat (R := F), ← Nat.cast_mul, ← Nat.cast_add, Nat.mod_add_div]
    rw [bits_succ, weighted, zero_add]
    simp only [Nat.add_right_comm _ 1 k, Nat.add_assoc _ k 1] at hrest ⊢
    rw [hrest, hsplit, pow_succ]
    ring

section Char
variable {p : ℕ} [CharP F p]

/-- Small numbers stay different in a field of large characteristic. -/
lemma natCast_inj_of_lt (hv : v < p) (hv' : v' < p) : (v : F) = v' ↔ v = v' :=
  ⟨fun h => CharP.natCast_injOn_Iio F p hv hv' h, fun h => h ▸ rfl⟩

lemma natCast_eq_zero_of_lt (hv : v < p) : (v : F) = 0 ↔ v = 0 := by
  rw [CharP.cast_eq_zero_iff F p]
  exact ⟨fun h => Nat.eq_zero_of_dvd_of_lt h hv, fun h => h ▸ dvd_zero p⟩

/-- A difference is small only if it is not negative. -/
lemma exists_natCast_eq_sub (hn : 2^n + 2^n ≤ p) {a b : ℕ} (ha : a < 2^n) (hb : b < 2^n) :
    (∃ d : ℕ, d < 2^n ∧ (d : F) = (a : F) - b) ↔ b ≤ a := by
  constructor
  · rintro ⟨d, hd, heq⟩
    have hsum : ((d + b : ℕ) : F) = (a : ℕ) := by
      rw [Nat.cast_add, heq, sub_add_cancel]
    have := (natCast_inj_of_lt (F := F) (p := p) (by omega) (by omega)).1 hsum
    omega
  · intro hle
    exact ⟨a - b, by omega, Nat.cast_sub hle⟩

end Char

end FieldBits
