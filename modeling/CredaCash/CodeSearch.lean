import Mathlib.Data.Nat.Notation
import Mathlib.Order.Bounds.Basic
import Mathlib.Order.Interval.Set.Defs
import Mathlib.Order.Monotone.Defs

/-! Linear searches: down, up, and from place to place until a test holds. Two of them find the least code whose value is
large enough, or the greatest one whose value is small enough. -/

namespace CodeSearch

/-- Go down while a test holds, to 0 at most. -/
def lower (go : ℕ → Bool) : ℕ → ℕ
  | 0 => 0
  | k+1 => if go (k+1) then lower go k else k+1

/-- Go up while a test holds, a number of places at most. -/
def raise (go : ℕ → Bool) : ℕ → ℕ → ℕ
  | 0, k => k
  | room+1, k => if go k then raise go room (k+1) else k

/-- Go on to the next place until a test holds. -/
def seek (next : ℕ → ℕ) (stop : ℕ → Bool) : ℕ → ℕ → Option ℕ
  | 0, _ => none
  | fuel+1, k => if stop (next k) then some (next k) else seek next stop fuel (next k)

variable {go stop : ℕ → Bool} {next : ℕ → ℕ} {fuel k j room top val n : ℕ} {decode : ℕ → ℕ}

lemma lower_le : lower go k ≤ k := by
  induction k with
  | zero => exact le_rfl
  | succ k ih =>
    rw [lower]
    split_ifs
    · exact ih.trans (Nat.le_succ k)
    · exact le_rfl

lemma lower_stops : lower go k = 0 ∨ go (lower go k) = false := by
  induction k with
  | zero => exact Or.inl rfl
  | succ k ih =>
    rw [lower]
    split_ifs with hgo
    · exact ih
    · exact Or.inr (Bool.eq_false_of_not_eq_true hgo)

lemma go_of_lower_lt (hlt : lower go k < j) (hle : j ≤ k) : go j = true := by
  induction k with
  | zero => exact absurd (hlt.trans_le hle) (Nat.not_lt_zero _)
  | succ k ih =>
    rw [lower] at hlt
    split_ifs at hlt with hgo
    · rcases Nat.le_or_eq_of_le_succ hle with hle | rfl
      · exact ih hlt hle
      · exact hgo
    · exact absurd hle (not_le.2 hlt)

lemma raise_le : raise go room k ≤ k + room := by
  induction room generalizing k with
  | zero => exact le_rfl
  | succ room ih =>
    rw [raise]
    split_ifs
    · have h := @ih (k + 1)
      omega
    · exact Nat.le_add_right k (room + 1)

lemma raise_stops : raise go room k = k + room ∨ go (raise go room k) = false := by
  induction room generalizing k with
  | zero => exact Or.inl rfl
  | succ room ih =>
    rw [raise]
    split_ifs with hgo
    · rw [show k + (room + 1) = k + 1 + room by omega]
      exact ih
    · exact Or.inr (Bool.eq_false_of_not_eq_true hgo)

lemma go_of_lt_raise (hle : k ≤ j) (hlt : j < raise go room k) : go j = true := by
  induction room generalizing k with
  | zero => exact absurd (hle.trans_lt hlt) (lt_irrefl k)
  | succ room ih =>
    rw [raise] at hlt
    split_ifs at hlt with hgo
    · rcases eq_or_lt_of_le hle with rfl | hle
      · exact hgo
      · exact ih hle hlt
    · exact absurd (hle.trans_lt hlt) (lt_irrefl k)

lemma lower_false (k : ℕ) : lower (fun _ => false) k = k := by
  cases k <;> rfl

/-- A search comes to the first place where its test holds. -/
lemma seek_eq (hstop : stop (next^[n+1] k) = true) (hgo : ∀ m < n, stop (next^[m+1] k) = false) (hfuel : n < fuel) :
    seek next stop fuel k = some (next^[n+1] k) := by
  induction n generalizing fuel k with
  | zero =>
    obtain ⟨fuel, rfl⟩ := Nat.exists_eq_succ_of_ne_zero hfuel.ne'
    rw [seek, if_pos (by exact hstop)]
    rfl
  | succ n ih =>
    obtain ⟨fuel, rfl⟩ := Nat.exists_eq_succ_of_ne_zero (Nat.ne_zero_of_lt hfuel)
    have hfirst : stop (next k) = false := hgo 0 (Nat.succ_pos n)
    rw [seek, if_neg (by rw [hfirst]; decide)]
    exact ih hstop (fun m hm => hgo (m + 1) (Nat.succ_lt_succ hm)) (Nat.lt_of_succ_lt_succ hfuel)

/-- A search whose test never holds does not end. -/
lemma seek_eq_none (hgo : ∀ m, stop (next m) = false) : seek next stop fuel k = none := by
  induction fuel generalizing k with
  | zero => rfl
  | succ fuel ih =>
    rw [seek, if_neg (by rw [hgo]; decide)]
    exact ih

/-- Down to a code whose value is too small, and up from there. -/
theorem isLeast_raise_lower (hmono : MonotoneOn decode (Set.Iic top)) (hk : k ≤ top) :
    IsLeast {j | j ≤ top ∧ (val ≤ decode j ∨ j = top)}
      (raise (fun j => decide (decode j < val)) (top - lower (fun j => decide (val ≤ decode j)) k)
        (lower (fun j => decide (val ≤ decode j)) k)) := by
  have hlow : lower (fun j => decide (val ≤ decode j)) k = 0 ∨ _ := lower_stops
  have hstart : lower (fun j => decide (val ≤ decode j)) k ≤ top := lower_le.trans hk
  generalize lower (fun j => decide (val ≤ decode j)) k = start at hlow hstart
  have hle : raise (fun j => decide (decode j < val)) (top - start) start ≤ _ := raise_le
  have hstop : raise (fun j => decide (decode j < val)) (top - start) start = _ ∨ _ := raise_stops
  rw [Nat.add_sub_cancel' hstart] at hle hstop
  refine ⟨⟨hle, ?_⟩, ?_⟩
  · rcases hstop with htop | hval
    · exact Or.inr htop
    · exact Or.inl (not_lt.1 (of_decide_eq_false hval))
  · rintro j ⟨hjtop, hj⟩
    by_contra hlt
    rw [not_le] at hlt
    have hval : val ≤ decode j := hj.resolve_right (hlt.trans_le hle).ne
    rcases le_or_gt start j with hjs | hjs
    · have hbelow := of_decide_eq_true (go_of_lt_raise hjs hlt)
      exact absurd hval (not_le.2 hbelow)
    · have hsmall := of_decide_eq_false (hlow.resolve_left (Nat.ne_zero_of_lt hjs))
      exact hsmall (hval.trans (hmono hjtop hstart hjs.le))

/-- Up to a code whose value is too large, and down from there. -/
theorem isGreatest_lower_raise (hmono : MonotoneOn decode (Set.Iic top)) (hk : k ≤ top) :
    IsGreatest {j | j ≤ top ∧ (decode j ≤ val ∨ j = 0)}
      (lower (fun j => decide (val < decode j)) (raise (fun j => decide (decode j ≤ val)) (top - k) k)) := by
  have hle : raise (fun j => decide (decode j ≤ val)) (top - k) k ≤ _ := raise_le
  have hstop : raise (fun j => decide (decode j ≤ val)) (top - k) k = _ ∨ _ := raise_stops
  rw [Nat.add_sub_cancel' hk] at hle hstop
  generalize raise (fun j => decide (decode j ≤ val)) (top - k) k = start at hle hstop
  have hend : lower (fun j => decide (val < decode j)) start = 0 ∨ _ := lower_stops
  refine ⟨⟨lower_le.trans hle, ?_⟩, ?_⟩
  · rcases hend with hzero | hval
    · exact Or.inr hzero
    · exact Or.inl (not_lt.1 (of_decide_eq_false hval))
  · rintro j ⟨hjtop, hj⟩
    by_contra hlt
    rw [not_le] at hlt
    have hval : decode j ≤ val := hj.resolve_right (Nat.ne_zero_of_lt hlt)
    rcases le_or_gt j start with hjs | hjs
    · have habove := of_decide_eq_true (go_of_lower_lt hlt hjs)
      exact absurd hval (not_le.2 habove)
    · have hlarge := of_decide_eq_false (hstop.resolve_left (hjs.trans_le hjtop).ne)
      exact hlarge ((hmono hle hjtop hjs.le).trans hval)

end CodeSearch
