import Mathlib.Data.Nat.Notation
import Mathlib.Order.Interval.Set.Defs
import Mathlib.Order.Monotone.Basic

/-! Rounded interpolation between the entries of a table. -/

namespace Interpolation
variable {t : ℕ → ℕ} {w n x y : ℕ}

/-- The value at `x`, between the entries that `x` stands between, `w` places a step. -/
def interp (t : ℕ → ℕ) (w x : ℕ) : ℕ := ((t (x / w + 1) - t (x / w)) * (x % w) + w / 2) / w + t (x / w)

lemma le_interp : t (x / w) ≤ interp t w x := Nat.le_add_left _ _

/-- Rounding does not go beyond the next entry. -/
lemma interp_le (hw : 0 < w) (ht : t (x / w) ≤ t (x / w + 1)) : interp t w x ≤ t (x / w + 1) := by
  have hpos := Nat.mod_lt x hw
  have hdiv : ((t (x / w + 1) - t (x / w)) * (x % w) + w / 2) / w ≤ t (x / w + 1) - t (x / w) := by
    apply Nat.le_of_lt_succ
    rw [Nat.div_lt_iff_lt_mul hw, Nat.succ_mul]
    have hmul := Nat.mul_le_mul_left (t (x / w + 1) - t (x / w)) hpos.le
    omega
  unfold interp
  omega

/-- Values between entries that do not decrease do not decrease. -/
theorem interp_monotoneOn (hw : 1 < w) (ht : MonotoneOn t (Set.Iic n)) : MonotoneOn (interp t w) (Set.Iic (n * w)) := by
  intro x hx y hy hxy
  have hw' : 0 < w := by omega
  have hle : x / w ≤ y / w := Nat.div_le_div_right hxy
  have hyn : y / w ≤ n := Nat.div_le_of_le_mul (by rw [Nat.mul_comm]; exact hy)
  rcases eq_or_lt_of_le hle with heq | hlt
  · have hmod : x % w ≤ y % w := by
      have hxd := Nat.div_add_mod x w
      have hyd := Nat.div_add_mod y w
      rw [heq] at hxd
      omega
    rw [interp, interp, heq]
    exact Nat.add_le_add_right (Nat.div_le_div_right (Nat.add_le_add_right (Nat.mul_le_mul_left _ hmod) _)) _
  · have hnext : x / w + 1 ≤ n := hlt.trans_le hyn
    have hentry : t (x / w) ≤ t (x / w + 1) := ht (hle.trans hyn) hnext (Nat.le_succ _)
    calc interp t w x ≤ t (x / w + 1) := interp_le hw' hentry
      _ ≤ t (y / w) := ht hnext hyn hlt
      _ ≤ interp t w y := le_interp

end Interpolation
