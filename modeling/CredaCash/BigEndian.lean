import CredaCash.ByteFormat

/-! Numbers with the most significant byte first, which compare as their bytes do. -/

namespace BoundedReader

/-- The first bytes of a number, the most significant first. -/
def beBytes (n v : ℕ) : List UInt8 := (leBytes n v).reverse

@[simp] lemma length_beBytes (n v : ℕ) : (beBytes n v).length = n := by simp [beBytes]

lemma beBytes_succ (n v : ℕ) : beBytes (n+1) v = beBytes n (v / 256) ++ [UInt8.ofNat v] := by
  simp [beBytes, leBytes]

lemma leBytes_append (n m v : ℕ) : leBytes n v ++ leBytes m (v / 256^n) = leBytes (n + m) v := by
  induction n generalizing v with
  | zero => simp [leBytes]
  | succ n ih =>
    rw [Nat.pow_succ', ← Nat.div_div_eq_div_mul, Nat.succ_add]
    simp [leBytes, ih]

lemma beBytes_append (n m v : ℕ) : beBytes m (v / 256^n) ++ beBytes n v = beBytes (n + m) v := by
  rw [beBytes, beBytes, ← List.reverse_append, leBytes_append, beBytes]

/-- Only the bytes that are written of a number count. -/
lemma leBytes_mod (n v : ℕ) : leBytes n (v % 256^n) = leBytes n v := by
  induction n generalizing v with
  | zero => rfl
  | succ n ih =>
    have hdiv : v % 256^(n+1) / 256 = v / 256 % 256^n := by rw [Nat.pow_succ', Nat.mod_mul_right_div_self]
    have hmod : UInt8.ofNat (v % 256^(n+1)) = UInt8.ofNat v := by
      apply UInt8.toNat_inj.1
      rw [UInt8.toNat_ofNat', UInt8.toNat_ofNat', Nat.pow_succ']
      exact Nat.mod_mul_right_mod v 256 (256^n)
    rw [leBytes, hdiv, ih, hmod, leBytes]

lemma beBytes_mod (n v : ℕ) : beBytes n (v % 256^n) = beBytes n v := by rw [beBytes, leBytes_mod, beBytes]

/-- Lists of one length compare by their last elements where the others are the same. -/
lemma concat_lt_concat_iff {xs ys : List UInt8} (h : xs.length = ys.length) (a b : UInt8) :
    xs ++ [a] < ys ++ [b] ↔ xs < ys ∨ xs = ys ∧ a < b := by
  induction xs generalizing ys with
  | nil =>
    obtain rfl : ys = [] := List.eq_nil_of_length_eq_zero h.symm
    simp [List.cons_lt_cons_iff]
  | cons x xs ih =>
    cases ys with
    | nil => simp at h
    | cons y ys =>
      simp only [List.cons_append, List.cons_lt_cons_iff, ih (Nat.succ.inj h), List.cons.injEq]
      tauto

lemma beBytes_inj {n v w : ℕ} (hv : v < 256^n) (hw : w < 256^n) : beBytes n v = beBytes n w ↔ v = w := by
  refine ⟨fun h => ?_, fun h => by rw [h]⟩
  rw [← leNat_leBytes hv, List.reverse_inj.1 h, leNat_leBytes hw]

/-- The order of the bytes is the order of the numbers. -/
theorem beBytes_lt_iff {n v w : ℕ} (hv : v < 256^n) (hw : w < 256^n) : beBytes n v < beBytes n w ↔ v < w := by
  induction n generalizing v w with
  | zero => simp [beBytes, leBytes] at *; omega
  | succ n ih =>
    have hv' : v / 256 < 256^n := Nat.div_lt_of_lt_mul (by rwa [← Nat.pow_succ'])
    have hw' : w / 256 < 256^n := Nat.div_lt_of_lt_mul (by rwa [← Nat.pow_succ'])
    rw [beBytes_succ, beBytes_succ, concat_lt_concat_iff (by simp), ih hv' hw', beBytes_inj hv' hw', UInt8.lt_iff_toNat_lt,
      UInt8.toNat_ofNat', UInt8.toNat_ofNat']
    omega

end BoundedReader
