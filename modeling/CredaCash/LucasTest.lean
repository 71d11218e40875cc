import Mathlib.NumberTheory.LucasPrimality

/-! Lucas's test of large prime numbers, with powers that are computed by squaring. -/

namespace LucasTest
variable {p a k n : ℕ}

/-- `a^n % p` for an exponent of `k` bits. -/
def powMod (p a : ℕ) : ℕ → ℕ → ℕ
  | 0, _ => 1 % p
  | k + 1, n => powMod p a k (n / 2)^2 * a^(n % 2) % p

lemma powMod_eq (hn : n < 2^k) : powMod p a k n = a^n % p := by
  induction k generalizing n with
  | zero => rw [powMod, Nat.lt_one_iff.1 hn, pow_zero]
  | succ k ih =>
    have hsplit : a^n = (a^(n / 2))^2 * a^(n % 2) := by
      rw [← pow_mul, ← pow_add]
      congr 1
      omega
    rw [powMod, ih (by omega), hsplit]
    exact Nat.ModEq.mul_right _ (Nat.ModEq.pow 2 (Nat.mod_modEq _ p))

/-- The order of `a` modulo `p` is `p - 1`, where the prime factors of `p - 1` are given. -/
def lucasTest (k p a : ℕ) (factors : List ℕ) : Bool :=
  1 < p && p < 2^k && factors.prod^k % (p - 1) == 0 && powMod p a k (p - 1) == 1 &&
    factors.all fun q => powMod p a k ((p - 1) / q) != 1

lemma natCast_pow_eq_one_iff (hp : 1 < p) : (a : ZMod p)^n = 1 ↔ a^n % p = 1 := by
  rw [← Nat.cast_pow, ← Nat.cast_one, ZMod.natCast_eq_natCast_iff', Nat.mod_eq_of_lt hp]

theorem prime_of_lucasTest (factors : List ℕ) (hfactors : ∀ q ∈ factors, q.Prime)
    (h : lucasTest k p a factors = true) : p.Prime := by
  simp only [lucasTest, Bool.and_eq_true, decide_eq_true_eq, beq_iff_eq, bne_iff_ne, List.all_eq_true] at h
  obtain ⟨⟨⟨⟨hp, hk⟩, hdvd⟩, hone⟩, hne⟩ := h
  have hpow : ∀ n ≤ p - 1, ((a : ZMod p)^n = 1 ↔ powMod p a k n = 1) := fun n hn => by
    rw [natCast_pow_eq_one_iff hp, powMod_eq (by omega)]
  refine lucas_primality p a ((hpow _ le_rfl).2 hone) fun q hq hqp => ?_
  obtain ⟨r, hr, hqr⟩ := (Prime.dvd_prod_iff hq.prime).1
    (hq.dvd_of_dvd_pow (hqp.trans (Nat.dvd_of_mod_eq_zero hdvd)))
  obtain rfl := (Nat.prime_dvd_prime_iff_eq hq (hfactors r hr)).1 hqr
  exact mt (hpow _ (Nat.div_le_self _ _)).1 (hne q hr)

end LucasTest
