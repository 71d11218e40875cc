import Mathlib.Data.List.Perm.Basic
import Mathlib.Order.Lattice
import Mathlib.Order.Defs.LinearOrder
import Mathlib.Order.MinMax

/-! The selection of the best of some values, which are looked at one after the other. -/

namespace Selection
variable {α β : Type*} [LinearOrder β] (rank : α → β)

/-- The better of two values, which is the one of lower rank; the first one is kept when the ranks are the same. -/
def better (a b : α) : α := if rank b < rank a then b else a

/-- Two values can be looked at in either order, unless they are different and have the same rank. -/
lemma better_right_comm {x y : α} (h : rank x = rank y → x = y) (z : α) :
    better rank (better rank z x) y = better rank (better rank z y) x := by
  by_cases hxy : rank x = rank y
  · rw [h hxy]
  · by_cases hx : rank x < rank z
    · by_cases hy : rank y < rank z
      · rcases lt_or_gt_of_ne hxy with hlt | hlt
        · simp only [better, if_pos hx, if_pos hy, if_pos hlt, if_neg hlt.not_gt]
        · simp only [better, if_pos hx, if_pos hy, if_pos hlt, if_neg hlt.not_gt]
      · have hlt : ¬ rank y < rank x := fun hlt => hy (hlt.trans hx)
        simp only [better, if_pos hx, if_neg hy, if_neg hlt]
    · by_cases hy : rank y < rank z
      · have hlt : ¬ rank x < rank y := fun hlt => hx (hlt.trans hy)
        simp only [better, if_neg hx, if_pos hy, if_neg hlt]
      · simp only [better, if_neg hx, if_neg hy]

variable {l l' : List α}

/-- The best of values whose ranks tell them apart does not depend on their order. -/
theorem foldl_better_perm (hperm : l.Perm l') (hrank : ∀ x ∈ l, ∀ y ∈ l, rank x = rank y → x = y) (init : α) :
    l.foldl (better rank) init = l'.foldl (better rank) init :=
  hperm.foldl_eq' (fun x hx y hy z => better_right_comm rank (hrank x hx y hy) z) init

end Selection
