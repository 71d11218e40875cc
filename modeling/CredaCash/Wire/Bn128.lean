import CredaCash.LucasTest
import CredaCash.Wire.CompressProof
import Mathlib.Algebra.QuadraticAlgebra.Basic
import Mathlib.NumberTheory.LegendreSymbol.Basic
import Mathlib.Tactic.NormNum.Prime

/-! The pair of groups that proofs are made with, with any square roots. -/

namespace CredaCash.Wire
open LucasTest

section Jacobian
variable {K : Type} [CommRing K] [NoZeroDivisors K]

open Classical in
/-- Any root. -/
noncomputable def someRoot (z : K) : K := if h : ∃ y, y * y = z then h.choose else 0

lemma someRoot_mul_self (y : K) : someRoot (y * y) = y ∨ someRoot (y * y) = -y := by
  have h : ∃ y', y' * y' = y * y := ⟨y, rfl⟩
  rw [someRoot, dif_pos h]
  exact mul_self_eq_mul_self_iff.1 h.choose_spec

/-- The group of a curve, with points in Jacobian coordinates. -/
noncomputable def jacobian [DecidableEq K] [Inv K] (hinv : (1 : K)⁻¹ = 1) (coeffB : K) : Group K where
  affineCoordinates g := if g.z = 0 then g else ⟨g.x * (g.z^2)⁻¹, g.y * (g.z^3)⁻¹, 1⟩
  isZero g := g.z = 0
  coeffB := coeffB
  sqrt := someRoot
  z_affineCoordinates g h := by
    split_ifs at h ⊢ with hz
    · exact absurd hz (of_decide_eq_false h)
    · rfl
  affineCoordinates_one x y := by
    split_ifs
    · rfl
    · rw [one_pow, one_pow, hinv, mul_one, mul_one]
  sqrt_mul_self := someRoot_mul_self

end Jacobian

section Primes

lemma prime_1263766531 : Nat.Prime 1263766531 :=
  prime_of_lucasTest (k := 31) (a := 10) [2, 3, 5, 13, 911, 3557] (by norm_num) (by decide +kernel)

lemma prime_35385462869 : Nat.Prime 35385462869 :=
  prime_of_lucasTest (k := 36) (a := 2) [1263766531, 2, 7]
    (List.forall_mem_cons.2 ⟨prime_1263766531, by norm_num⟩) (by decide +kernel)

lemma prime_2480874801745591 : Nat.Prime 2480874801745591 :=
  prime_of_lucasTest (k := 52) (a := 6) [35385462869, 2, 3, 5, 19, 41]
    (List.forall_mem_cons.2 ⟨prime_35385462869, by norm_num⟩) (by decide +kernel)

lemma prime_173171039 : Nat.Prime 173171039 :=
  prime_of_lucasTest (k := 28) (a := 13) [2, 73, 89, 13327] (by norm_num) (by decide +kernel)

lemma prime_13427688667394608761327070753331941386769 : Nat.Prime 13427688667394608761327070753331941386769 :=
  prime_of_lucasTest (k := 134) (a := 17) [2480874801745591, 173171039, 2, 3, 7, 11, 1853641, 4562087]
    (List.forall_mem_cons.2 ⟨prime_2480874801745591, List.forall_mem_cons.2 ⟨prime_173171039, by norm_num⟩⟩)
    (by decide +kernel)

lemma prime_405928799 : Nat.Prime 405928799 :=
  prime_of_lucasTest (k := 29) (a := 22) [2, 11, 3691, 4999] (by norm_num) (by decide +kernel)

lemma prime_11465965001 : Nat.Prime 11465965001 :=
  prime_of_lucasTest (k := 34) (a := 3) [2, 5, 7, 327599] (by norm_num) (by decide +kernel)

/-- The characteristic of the fields. -/
abbrev bn128Prime : ℕ := 21888242871839275222246405745257275088696311157297823662689037894645226208583

instance : Fact bn128Prime.Prime := ⟨prime_of_lucasTest (k := 254) (a := 3)
  [13427688667394608761327070753331941386769, 11465965001, 405928799, 2, 3, 13, 29, 67, 229, 311, 983, 11003]
  (List.forall_mem_cons.2 ⟨prime_13427688667394608761327070753331941386769,
    List.forall_mem_cons.2 ⟨prime_11465965001, List.forall_mem_cons.2 ⟨prime_405928799, by norm_num⟩⟩⟩)
  (by decide +kernel)⟩

end Primes

/-- The field of the first group. -/
abbrev Fq : Type := ZMod bn128Prime

/-- The field of the second group. -/
abbrev Fq2 : Type := QuadraticAlgebra Fq (-1) 0

instance : Fact (∀ r : Fq, r^2 ≠ -1 + 0 * r) := ⟨fun r h =>
  ZMod.mod_four_ne_three_of_sq_eq_neg_one (h.trans (by rw [zero_mul, add_zero])) rfl⟩

/-- The coefficient of the second curve, 3 / (9 + u) where u^2 = -1. -/
def twistCoeff : Fq2 :=
  ⟨19485874751759354771024239261021720505790618469301721065564631296452457478373,
    266929791119991161246907387137283842545076965332900288569378510910307636690⟩

example : twistCoeff * ⟨9, 1⟩ = 3 := by decide +kernel

/-- `BN128_PAIRING`: the curves y^2 = x^3 + 3 and, over the extension, y^2 = x^3 + 3 / (9 + u). -/
noncomputable abbrev bn128 : Pairing where
  p := bn128Prime
  odd := rfl
  fits := by decide
  nonresidue := -1
  G1 := jacobian inv_one 3
  G2 := jacobian inv_one twistCoeff

end CredaCash.Wire
