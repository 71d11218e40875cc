import Mathlib.Algebra.BigOperators.Group.Finset.Basic
import Mathlib.Algebra.Order.Group.Nat
import Mathlib.Data.List.Basic
import Mathlib.Tactic.SplitIfs

/-! Places in a row that are divided into groups, each of them behind the one before it. -/

namespace Groups
variable {α : Type*} {size size' : ℕ → ℕ} {label : ℕ → α} {n k r : ℕ}

/-- The place at which a group starts. -/
def start (size : ℕ → ℕ) : ℕ → ℕ
  | 0 => 0
  | i+1 => start size i + size i

/-- The group that a place is in, none behind the last one. -/
def groupOf : (ℕ → ℕ) → ℕ → ℕ → Option ℕ
  | _, 0, _ => none
  | size, n+1, k => if k < size 0 then some 0 else (groupOf (fun i => size (i + 1)) n (k - size 0)).map (· + 1)

/-- A label for each place, which is that of its group. -/
def labels : (ℕ → ℕ) → (ℕ → α) → ℕ → List α
  | _, _, 0 => []
  | size, label, n+1 =>
    List.replicate (size 0) (label 0) ++ labels (fun i => size (i + 1)) (fun i => label (i + 1)) n

lemma start_succ' (size : ℕ → ℕ) (i : ℕ) : start size (i + 1) = size 0 + start (fun i => size (i + 1)) i := by
  induction i with
  | zero => simp [start]
  | succ i ih => rw [start, ih, start, Nat.add_assoc]

lemma start_eq_sum (size : ℕ → ℕ) (n : ℕ) : start size n = ∑ i ∈ Finset.range n, size i := by
  induction n with
  | zero => rfl
  | succ n ih => rw [start, ih, Finset.sum_range_succ]

lemma start_congr (h : ∀ i < n, size i = size' i) : start size n = start size' n := by
  induction n with
  | zero => rfl
  | succ n ih => rw [start, start, ih fun i hi => h i (Nat.lt_succ_of_lt hi), h n (Nat.lt_succ_self n)]

lemma labels_congr {label' : ℕ → α} (hsize : ∀ i < n, size i = size' i) (hlabel : ∀ i < n, label i = label' i) :
    labels size label n = labels size' label' n := by
  induction n generalizing size size' label label' with
  | zero => rfl
  | succ n ih =>
    rw [labels, labels, hsize 0 (Nat.succ_pos n), hlabel 0 (Nat.succ_pos n),
      ih (fun i hi => hsize (i + 1) (Nat.succ_lt_succ hi)) fun i hi => hlabel (i + 1) (Nat.succ_lt_succ hi)]

lemma labels_succ (size : ℕ → ℕ) (label : ℕ → α) (n : ℕ) :
    labels size label (n + 1) = labels size label n ++ List.replicate (size n) (label n) := by
  induction n generalizing size label with
  | zero => simp [labels]
  | succ n ih => rw [labels, ih, labels, List.append_assoc]

lemma length_labels (size : ℕ → ℕ) (label : ℕ → α) (n : ℕ) : (labels size label n).length = start size n := by
  induction n with
  | zero => rfl
  | succ n ih => rw [labels_succ, List.length_append, ih, List.length_replicate, start]

/-- The label of a place is that of its group. -/
theorem getElem?_labels (size : ℕ → ℕ) (label : ℕ → α) (n k : ℕ) :
    (labels size label n)[k]? = (groupOf size n k).map label := by
  induction n generalizing size label k with
  | zero => rfl
  | succ n ih =>
    rw [labels, groupOf]
    split_ifs with hk
    · rw [List.getElem?_append_left (by rwa [List.length_replicate]), List.getElem?_replicate, if_pos hk, Option.map_some]
    · rw [List.getElem?_append_right (by rw [List.length_replicate]; exact not_lt.1 hk), List.length_replicate, ih,
        Option.map_map]
      rfl

lemma mem_labels {a : α} (h : a ∈ labels size label n) : ∃ i < n, a = label i := by
  induction n with
  | zero => exact absurd h List.not_mem_nil
  | succ n ih =>
    rw [labels_succ, List.mem_append] at h
    rcases h with h | h
    · obtain ⟨i, hi, ha⟩ := ih h
      exact ⟨i, Nat.lt_succ_of_lt hi, ha⟩
    · exact ⟨n, Nat.lt_succ_self n, List.eq_of_mem_replicate h⟩

lemma groupOf_lt {i : ℕ} (h : groupOf size n k = some i) : i < n := by
  induction n generalizing size k i with
  | zero => cases h
  | succ n ih =>
    rw [groupOf] at h
    split_ifs at h
    · obtain rfl := Option.some.inj h
      exact Nat.succ_pos n
    · obtain ⟨j, hj, rfl⟩ := Option.map_eq_some_iff.1 h
      exact Nat.succ_lt_succ (ih hj)

lemma groupOf_eq_none : groupOf size n k = none ↔ start size n ≤ k := by
  induction n generalizing size k with
  | zero => exact ⟨fun _ => Nat.zero_le k, fun _ => rfl⟩
  | succ n ih =>
    rw [groupOf, start_succ']
    split_ifs with hk
    · exact ⟨fun h => h.elim, fun h => by omega⟩
    · rw [Option.map_eq_none_iff, ih]
      omega

lemma groupOf_congr (h : ∀ i < n, size i = size' i) : groupOf size n k = groupOf size' n k := by
  induction n generalizing size size' k with
  | zero => rfl
  | succ n ih =>
    rw [groupOf, groupOf, h 0 (Nat.succ_pos n), ih fun i hi => h (i + 1) (Nat.succ_lt_succ hi)]

/-- Two places are in one group just when no group ends in between. -/
theorem groupOf_add_iff : groupOf size n (k + r) = groupOf size n k ↔
    ∀ i < n, start size (i + 1) ≤ k ∨ k + r < start size (i + 1) := by
  induction n generalizing size k with
  | zero => exact ⟨fun _ i hi => absurd hi (Nat.not_lt_zero i), fun _ => rfl⟩
  | succ n ih =>
    have hstart : ∀ i, start size (i + 1) = size 0 + start (fun i => size (i + 1)) i := start_succ' size
    rw [groupOf, groupOf]
    by_cases hk : k < size 0
    · rw [if_pos hk]
      by_cases hkr : k + r < size 0
      · rw [if_pos hkr]
        refine ⟨fun _ i _ => .inr ?_, fun _ => rfl⟩
        rw [hstart]
        omega
      · rw [if_neg hkr]
        constructor
        · intro h
          obtain ⟨j, -, hj⟩ := Option.map_eq_some_iff.1 h
          exact absurd hj (Nat.succ_ne_zero j)
        · intro h
          have hzero := h 0 (Nat.succ_pos n)
          rw [hstart, start] at hzero
          omega
    · rw [if_neg hk, if_neg (by omega), (Option.map_injective Nat.succ_injective).eq_iff,
        show k + r - size 0 = k - size 0 + r by omega, ih]
      constructor
      · intro h i hi
        rw [hstart]
        cases i with
        | zero => exact .inl (by rw [start]; omega)
        | succ i =>
          have hi := h i (Nat.lt_of_succ_lt_succ hi)
          omega
      · intro h i hi
        have hi := h (i + 1) (Nat.succ_lt_succ hi)
        rw [hstart] at hi
        omega

/-- Places that have been taken from the first group. -/
lemma groupOf_taken (hr : r ≤ size 0) :
    groupOf (fun i => if i = 0 then size 0 - r else size i) n k = groupOf size n (k + r) := by
  cases n with
  | zero => rfl
  | succ n =>
    rw [groupOf, groupOf, if_pos rfl]
    by_cases hk : k < size 0 - r
    · rw [if_pos hk, if_pos (by omega)]
    · rw [if_neg hk, if_neg (by omega), show k + r - size 0 = k - (size 0 - r) by omega]
      rfl

lemma start_taken (hr : r ≤ size 0) (hn : n ≠ 0) :
    start (fun i => if i = 0 then size 0 - r else size i) n + r = start size n := by
  obtain ⟨n, rfl⟩ := Nat.exists_eq_succ_of_ne_zero hn
  rw [start_succ', start_succ', if_pos rfl]
  simp only [Nat.succ_ne_zero, if_false]
  omega

end Groups
