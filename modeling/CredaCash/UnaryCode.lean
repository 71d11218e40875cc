import Mathlib.Algebra.BigOperators.Group.List.Basic
import Mathlib.Data.List.Induction
import Mathlib.Data.List.Lex
import Mathlib.Tactic.Ring

/-! Sequences of numbers in unary, each as that many zeros before a one, behind a leading one. Aligned to the left of
a word, the codes are ordered as the sequences are, with smaller numbers first. -/

namespace UnaryCode

/-- Appends a number to a code, which has some bits. -/
def push (code : ℕ × ℕ) (k : ℕ) : ℕ × ℕ := (code.1 * 2^(k + 1) + 1, code.2 + (k + 1))

def encode (xs : List ℕ) : ℕ × ℕ := xs.foldl push (1, 1)

/-- The bits that a sequence adds to a code. -/
def width (xs : List ℕ) : ℕ := (xs.map (· + 1)).sum

/-- A code at the left of a word of `w` bits. -/
def align (w : ℕ) (code : ℕ × ℕ) : ℕ := code.1 * 2^(w - code.2)

/-- What a sequence adds to a code that has `r` bits at its right. -/
def tail : List ℕ → ℕ → ℕ
  | [], _ => 0
  | k :: xs, r => 2^(r - (k + 1)) + tail xs (r - (k + 1))

@[simp] lemma width_nil : width [] = 0 := rfl

@[simp] lemma width_cons (k : ℕ) (xs : List ℕ) : width (k :: xs) = k + 1 + width xs := by
  simp [width]

@[simp] lemma width_append (xs ys : List ℕ) : width (xs ++ ys) = width xs + width ys := by
  simp [width]

@[simp] lemma encode_nil : encode [] = (1, 1) := rfl

@[simp] lemma encode_concat (xs : List ℕ) (k : ℕ) : encode (xs ++ [k]) = push (encode xs) k := by
  simp [encode]

lemma encode_bits (xs : List ℕ) : (encode xs).2 = 1 + width xs := by
  induction xs using List.reverseRecOn with
  | nil => rfl
  | append_singleton xs k ih =>
    rw [encode_concat, push, ih, width_append]
    simp only [width_cons, width_nil]
    ring

lemma encode_pos (xs : List ℕ) : 0 < (encode xs).1 := by
  induction xs using List.reverseRecOn with
  | nil => exact Nat.one_pos
  | append_singleton xs k ih =>
    rw [encode_concat, push]
    exact Nat.succ_pos _

/-- A code fits its bits. -/
lemma encode_lt (xs : List ℕ) : (encode xs).1 < 2^(encode xs).2 := by
  induction xs using List.reverseRecOn with
  | nil => decide
  | append_singleton xs k ih =>
    rw [encode_concat, push]
    have hpow : 2^0 < 2^(k + 1) := Nat.pow_lt_pow_right (by decide) (Nat.succ_pos k)
    calc (encode xs).1 * 2^(k + 1) + 1 < ((encode xs).1 + 1) * 2^(k + 1) := by
          rw [Nat.add_mul]
          omega
      _ ≤ 2^(encode xs).2 * 2^(k + 1) := Nat.mul_le_mul_right _ ih
      _ = 2^((encode xs).2 + (k + 1)) := (pow_add ..).symm

lemma align_foldl {w : ℕ} (xs : List ℕ) (code : ℕ × ℕ) (h : code.2 + width xs ≤ w) :
    align w (xs.foldl push code) = align w code + tail xs (w - code.2) := by
  induction xs generalizing code with
  | nil => rfl
  | cons k xs ih =>
    rw [width_cons] at h
    have hpush : w - (code.2 + (k + 1)) = w - code.2 - (k + 1) := by omega
    have hpow : 2^(k + 1) * 2^(w - code.2 - (k + 1)) = 2^(w - code.2) := by
      rw [← pow_add]
      congr 1
      omega
    rw [List.foldl_cons, ih (push code k) (by simp only [push]; omega)]
    simp only [push, align, tail, hpush, ← hpow]
    ring

lemma tail_lt {xs : List ℕ} {r : ℕ} (h : width xs ≤ r) : tail xs r < 2^r := by
  induction xs generalizing r with
  | nil => exact Nat.two_pow_pos r
  | cons k xs ih =>
    rw [width_cons] at h
    have hlt := ih (r := r - (k + 1)) (by omega)
    calc tail (k :: xs) r < 2^(r - (k + 1)) + 2^(r - (k + 1)) := Nat.add_lt_add_left hlt _
      _ = 2^(r - (k + 1) + 1) := by ring
      _ ≤ 2^r := Nat.pow_le_pow_right (by decide) (by omega)

/-- At the first difference the smaller number has its one further to the left; a longer sequence has one more. -/
lemma tail_lt_of_lex {xs ys : List ℕ} {r : ℕ} (hlex : List.Lex (· > ·) xs ys) (hxs : width xs ≤ r) (hys : width ys ≤ r) :
    tail xs r < tail ys r := by
  induction hlex generalizing r with
  | @nil l ys => exact Nat.lt_of_lt_of_le (Nat.two_pow_pos _) (Nat.le_add_right _ _)
  | @cons k xs ys hrest ih =>
    rw [width_cons] at hxs hys
    exact Nat.add_lt_add_left (ih (by omega) (by omega)) _
  | @rel k xs l ys hlt =>
    rw [width_cons] at hxs hys
    have htail := @tail_lt xs (r - (k + 1)) (by omega)
    calc tail (k :: xs) r < 2^(r - (k + 1)) + 2^(r - (k + 1)) := Nat.add_lt_add_left htail _
      _ = 2^(r - (k + 1) + 1) := by ring
      _ ≤ 2^(r - (l + 1)) := Nat.pow_le_pow_right (by decide) (by omega)
      _ ≤ tail (l :: ys) r := Nat.le_add_right _ _

/-- Aligned codes that fit the word are ordered as the sequences are. -/
theorem align_lt_iff {w : ℕ} {xs ys : List ℕ} (hxs : (encode xs).2 ≤ w) (hys : (encode ys).2 ≤ w) :
    align w (encode xs) < align w (encode ys) ↔ List.Lex (· > ·) xs ys := by
  rw [encode_bits] at hxs hys
  rw [encode, align_foldl xs (1, 1) hxs, encode, align_foldl ys (1, 1) hys, Nat.add_lt_add_iff_left]
  have hxs : width xs ≤ w - 1 := by omega
  have hys : width ys ≤ w - 1 := by omega
  constructor
  · intro hlt
    rcases trichotomous_of (List.Lex (· > ·)) xs ys with hlex | rfl | hlex
    · exact hlex
    · exact absurd hlt (lt_irrefl _)
    · exact absurd hlt (lt_asymm (tail_lt_of_lex hlex hys hxs))
  · exact fun hlex => tail_lt_of_lex hlex hxs hys

theorem align_inj {w : ℕ} {xs ys : List ℕ} (hxs : (encode xs).2 ≤ w) (hys : (encode ys).2 ≤ w)
    (h : align w (encode xs) = align w (encode ys)) : xs = ys := by
  rcases trichotomous_of (List.Lex (· > ·)) xs ys with hlex | heq | hlex
  · exact absurd h ((align_lt_iff hxs hys).2 hlex).ne
  · exact heq
  · exact absurd h ((align_lt_iff hys hxs).2 hlex).ne'

lemma align_pos (w : ℕ) (xs : List ℕ) : 0 < align w (encode xs) := Nat.mul_pos (encode_pos xs) (Nat.two_pow_pos _)

end UnaryCode
