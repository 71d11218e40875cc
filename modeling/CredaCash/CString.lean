import Mathlib.Algebra.Group.Nat.Defs
import Mathlib.Data.List.TakeWhile

/-! Texts in memory that end at a zero byte. A read beyond the memory has no result. -/

namespace CString
variable {p r s ts : List UInt8}

/-- The bytes before the first zero. -/
def cstring : List UInt8 → Option (List UInt8)
  | [] => none
  | c :: p => if c = 0 then some [] else (cstring p).map (c :: ·)

/-- Comparison with some bytes, one after the other up to the first difference. -/
def startsWith : List UInt8 → List UInt8 → Option Bool
  | _, [] => some true
  | [], _ :: _ => none
  | c :: p, t :: ts => if c = t then startsWith p ts else some false

lemma cstring_append (h : 0 ∉ s) (r : List UInt8) : cstring (s ++ 0 :: r) = some s := by
  induction s with
  | nil => simp [cstring]
  | cons c s ih =>
    rw [List.mem_cons, not_or] at h
    rw [List.cons_append, cstring, if_neg (Ne.symm h.1), ih h.2, Option.map_some]

lemma startsWith_of_le (h : ts.length ≤ p.length) : ∃ b, startsWith p ts = some b := by
  induction ts generalizing p with
  | nil => exact ⟨true, by cases p <;> rfl⟩
  | cons t ts ih =>
    cases p with
    | nil => simp at h
    | cons c p =>
      rw [startsWith]
      split_ifs
      · exact ih (Nat.le_of_succ_le_succ h)
      · exact ⟨false, rfl⟩

lemma startsWith_eq_true : startsWith p ts = some true ↔ ∃ r, p = ts ++ r := by
  induction ts generalizing p with
  | nil => cases p <;> simp [startsWith]
  | cons t ts ih =>
    cases p with
    | nil => simp [startsWith]
    | cons c p =>
      by_cases hc : c = t
      · simp [startsWith, hc, ih]
      · simp [startsWith, hc]

end CString
