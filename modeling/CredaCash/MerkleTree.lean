import Mathlib.Data.Nat.Bitwise
import Mathlib.Tactic.Ring

/-! Merkle trees over the leaves up to a last one: the nodes of the tree computed from scratch, where a
right sibling that is missing is replaced by a null value, and the paths from a leaf to the root. -/

namespace MerkleTree

variable {α : Type} (leaf : ℕ → α) (combine : ℕ → α → α → α) (null : α) (last : ℕ)

/-- The node at a height and an index. -/
def node : ℕ → ℕ → α
  | 0, i => leaf i
  | h+1, i => combine h (node h (2*i)) (if 2*i + 1 ≤ last / 2^h then node h (2*i + 1) else null)

/-- The other input of the node above. -/
def sibling (h i : ℕ) : α :=
  if i ^^^ 1 ≤ last / 2^h then node leaf combine null last h (i ^^^ 1) else null

/-- The siblings on the way from a node up, over a number of heights. -/
def path : ℕ → ℕ → ℕ → List α
  | _, _, 0 => []
  | h, i, n+1 => sibling leaf combine null last h i :: path (h + 1) (i / 2) n

/-- The value that a path leads to, with its values left or right by the bits of the index. -/
def climb : ℕ → ℕ → α → List α → α
  | _, _, value, [] => value
  | h, i, value, other :: rest =>
    climb (h + 1) (i / 2) (if i % 2 = 0 then combine h value other else combine h other value) rest

variable {leaf combine null last}

lemma xor_one_of_mod_zero {i : ℕ} (h : i % 2 = 0) : i ^^^ 1 = i + 1 := Nat.xor_one_of_even (Nat.even_iff.2 h)

lemma xor_one_of_mod_one {i : ℕ} (h : i % 2 = 1) : i ^^^ 1 = i - 1 := Nat.xor_one_of_odd (Nat.odd_iff.2 h)

lemma div_pow_succ (n h : ℕ) : n / 2^(h + 1) = n / 2^h / 2 := by
  rw [pow_succ, Nat.div_div_eq_div_mul]

/-- A node combined with its sibling gives the node above. -/
lemma node_above {h i : ℕ} (hi : i ≤ last / 2^h) : node leaf combine null last (h + 1) (i / 2) =
    if i % 2 = 0 then combine h (node leaf combine null last h i) (sibling leaf combine null last h i)
    else combine h (sibling leaf combine null last h i) (node leaf combine null last h i) := by
  rcases Nat.mod_two_eq_zero_or_one i with hmod | hmod
  · have hleft : 2 * (i / 2) = i := by omega
    rw [if_pos hmod, node, sibling, xor_one_of_mod_zero hmod, hleft]
  · have hright : 2 * (i / 2) + 1 = i := by omega
    have hleft : 2 * (i / 2) = i - 1 := by omega
    rw [if_neg (by omega), node, sibling, xor_one_of_mod_one hmod, hright, hleft, if_pos hi, if_pos (by omega)]

/-- The path of a node leads to the node above it. -/
theorem climb_path {h i : ℕ} (n : ℕ) (hi : i ≤ last / 2^h) :
    climb combine h i (node leaf combine null last h i) (path leaf combine null last h i n) =
      node leaf combine null last (h + n) (i / 2^n) := by
  induction n generalizing h i with
  | zero => simp [path, climb]
  | succ n ih =>
    have hup : i / 2 ≤ last / 2^(h + 1) := by
      rw [div_pow_succ]
      exact Nat.div_le_div_right hi
    rw [path, climb, ← node_above hi, ih hup, Nat.div_div_eq_div_mul, ← pow_succ', Nat.add_right_comm, Nat.add_assoc]

lemma path_length (h i n : ℕ) : (path leaf combine null last h i n).length = n := by
  induction n generalizing h i with
  | zero => rfl
  | succ n ih => rw [path, List.length_cons, ih]

/-- With a symmetric combination the bits of the index do not matter. -/
lemma climb_of_comm (hcomm : ∀ h a b, combine h a b = combine h b a) (h i : ℕ) (value : α) (others : List α) :
    climb combine h i value others = climb combine h 0 value others := by
  induction others generalizing h i value with
  | nil => rfl
  | cons other rest ih =>
    rw [climb, climb, ih, Nat.zero_mod, Nat.zero_div, if_pos rfl]
    split_ifs
    · rfl
    · rw [hcomm]

/-- A node whose leaves are all there does not depend on the null value, nor on later leaves. -/
theorem node_complete {leaf' : ℕ → α} {null' : α} {last' h i : ℕ} (hfull : (i + 1) * 2^h ≤ last + 1)
    (hfull' : (i + 1) * 2^h ≤ last' + 1) (hleaf : ∀ j ≤ last, leaf j = leaf' j) :
    node leaf combine null last h i = node leaf' combine null' last' h i := by
  induction h generalizing i with
  | zero => exact hleaf i (by omega)
  | succ h ih =>
    have hpow : (2 * i + 1 + 1) * 2^h = (i + 1) * 2^(h + 1) := by ring
    have hleft : (2 * i + 1) * 2^h ≤ (2 * i + 1 + 1) * 2^h := Nat.mul_le_mul_right _ (Nat.le_succ _)
    have hstrict : (2 * i + 1) * 2^h < (2 * i + 1 + 1) * 2^h :=
      Nat.mul_lt_mul_of_pos_right (Nat.lt_succ_self _) (Nat.two_pow_pos h)
    have hright : 2 * i + 1 ≤ last / 2^h := (Nat.le_div_iff_mul_le (Nat.two_pow_pos h)).2 (by omega)
    have hright' : 2 * i + 1 ≤ last' / 2^h := (Nat.le_div_iff_mul_le (Nat.two_pow_pos h)).2 (by omega)
    rw [node, node, if_pos hright, if_pos hright', ih (by omega) (by omega), ih (by omega) (by omega)]

end MerkleTree
