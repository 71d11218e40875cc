import Mathlib.Algebra.GroupWithZero.Nat
import Mathlib.Algebra.Order.Group.Nat

/-! The operators of `bigint_t`. They compute modulo a number that the library of the 256-bit integers fixes. -/

namespace CredaCash.Wallet

/-- What the operators compute modulo, 2^256 or the prime of the field. -/
structure Modulus where
  n : ℕ
  large : 2^253 ≤ n

namespace Modulus
variable (M : Modulus) {a b : ℕ}

def add (a b : ℕ) : ℕ := (a + b) % M.n
def sub (a b : ℕ) : ℕ := (a + M.n - b) % M.n
def mul (a b : ℕ) : ℕ := a * b % M.n

lemma add_eq (h : a + b < 2^253) : M.add a b = a + b := Nat.mod_eq_of_lt (h.trans_le M.large)

lemma sub_eq (hle : b ≤ a) (ha : a < M.n) : M.sub a b = a - b := by
  rw [sub, Nat.sub_add_comm hle, Nat.add_mod_right, Nat.mod_eq_of_lt ((Nat.sub_le a b).trans_lt ha)]

/-- Amounts added one after the other, to a first one. -/
def sumFrom (first : ℕ) (amounts : List ℕ) : ℕ := amounts.foldl M.add first

lemma sumFrom_eq {first : ℕ} {amounts : List ℕ} (h : first + amounts.sum < 2^253) :
    M.sumFrom first amounts = first + amounts.sum := by
  induction amounts generalizing first with
  | nil => rfl
  | cons a amounts ih =>
    rw [List.sum_cons, ← Nat.add_assoc] at h
    rw [sumFrom, List.foldl_cons, M.add_eq (by omega), List.sum_cons, ← Nat.add_assoc]
    exact ih h

end Modulus

/-- A bound of all amounts. What the code of an amount can stand for is far below. -/
def amountBound : ℕ := 2^192

end CredaCash.Wallet
