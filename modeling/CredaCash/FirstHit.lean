import Mathlib.Data.Nat.Notation
import Mathlib.Order.Basic
import Mathlib.Tactic.SplitIfs

/-! The search for the first hit in a window of numbers, and the search of a window in pieces. -/

namespace FirstHit
variable (hit : ℕ → Bool)

/-- The first hit among `n` numbers from `s` on, and the number after them when there is none. -/
def firstHit (s : ℕ) : ℕ → ℕ
  | 0 => s
  | n+1 => if hit s then s else firstHit (s+1) n

variable {hit} {s a b n x : ℕ}

lemma le_firstHit : s ≤ firstHit hit s n := by
  induction n generalizing s with
  | zero => exact Nat.le_refl s
  | succ n ih =>
    rw [firstHit]
    split_ifs
    · exact Nat.le_refl s
    · exact Nat.le_trans (Nat.le_succ s) ih

lemma firstHit_le : firstHit hit s n ≤ s + n := by
  induction n generalizing s with
  | zero => exact Nat.le_refl s
  | succ n ih =>
    rw [firstHit]
    split_ifs
    · exact Nat.le_add_right s (n + 1)
    · have h := @ih (s + 1)
      omega

lemma hit_firstHit (h : firstHit hit s n < s + n) : hit (firstHit hit s n) = true := by
  induction n generalizing s with
  | zero => exact absurd h (Nat.lt_irrefl s)
  | succ n ih =>
    rw [firstHit] at h ⊢
    split_ifs at h ⊢ with hs
    · exact hs
    · exact ih (by omega)

lemma firstHit_of_hit (h : hit s = true) (n : ℕ) : firstHit hit s n = s := by
  cases n with
  | zero => rfl
  | succ n => rw [firstHit, if_pos h]

lemma lt_firstHit (h : hit s = false) (hn : 0 < n) : s < firstHit hit s n := by
  cases n with
  | zero => exact absurd hn (Nat.lt_irrefl 0)
  | succ n =>
    rw [firstHit, if_neg (by rw [h]; decide)]
    exact le_firstHit

/-- A window is searched in two pieces. -/
theorem firstHit_add (s a b : ℕ) :
    firstHit hit s (a + b) = if firstHit hit s a < s + a then firstHit hit s a else firstHit hit (s + a) b := by
  induction a generalizing s with
  | zero => simp [firstHit]
  | succ a ih =>
    rw [Nat.succ_add, firstHit, firstHit]
    by_cases hs : hit s = true
    · rw [if_pos hs, if_pos hs, if_pos (by omega)]
    · rw [if_neg hs, if_neg hs, ih, show s + 1 + a = s + (a + 1) by omega]

end FirstHit
