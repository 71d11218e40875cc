import Mathlib.Data.ZMod.Basic

/-! Square roots that are told apart by a sign: of two roots the one with a given sign is chosen, by negating the other
one. This gives a root back unless both have the same sign. -/

namespace RootSign

section
variable {α σ : Type} [InvolutiveNeg α] [DecidableEq σ] {sign : α → σ} {r y : α}

/-- A root, negated unless it has the sign. -/
def withSign (sign : α → σ) (s : σ) (r : α) : α := if sign r ≠ s then -r else r

/-- One of the two roots is corrected to the one whose sign is given, unless the signs of both are the same. -/
theorem withSign_eq_iff (h : r = y ∨ r = -y) : withSign sign (sign y) r = y ↔ (sign (-y) = sign y → r = y) := by
  unfold withSign
  rcases h with rfl | rfl
  · rw [if_neg (not_not.2 rfl)]
    exact iff_of_true rfl fun _ => rfl
  · split_ifs with hsign
    · rw [neg_neg]
      exact iff_of_true rfl fun heq => absurd heq hsign
    · exact ⟨fun heq _ => heq, fun h => h (not_not.1 hsign)⟩

end

section Parity
variable {p : ℕ}

/-- Modulo an odd number the parity tells a number and its negative apart. -/
lemma val_neg_mod_two_iff (hodd : p % 2 = 1) (y : ZMod p) : (-y).val % 2 = y.val % 2 ↔ y = 0 := by
  have : NeZero p := ⟨fun h => by omega⟩
  have hlt := ZMod.val_lt y
  rw [ZMod.neg_val]
  split_ifs with hy
  · exact iff_of_true (by rw [hy, ZMod.val_zero]) hy
  · have hpos : y.val ≠ 0 := fun h => hy ((ZMod.val_eq_zero y).1 h)
    exact iff_of_false (by omega) hy

end Parity

end RootSign
