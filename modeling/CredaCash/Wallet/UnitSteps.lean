import CredaCash.ProRata
import CredaCash.Wallet.BigintOps

/-! The correction of rounded shares: units are added to the shares in turn, or taken from them, until their total is the
one that is aimed at. -/

namespace CredaCash.Wallet
open Finset ProRata

/-- The shares of the outputs with their total, and whether a subtraction has gone below zero or an index was not that
of an output. -/
structure Shares where
  adj : ℕ → ℕ
  total : ℕ
  fault : Bool

variable (M : Modulus) (sel : ℕ → Bool) (source : ℕ → ℕ) (nout target : ℕ)

/-- The part of `x` for an amount. -/
def Modulus.share (x total amount : ℕ) : ℕ := M.add (M.mul x amount) (total / 2) / total

/-- The loop that computes shares. -/
def assign (value : ℕ → ℕ) (s : Shares) : Shares :=
  (List.range nout).foldl (fun s i =>
    if sel i then { s with adj := Function.update s.adj i (value i), total := M.add s.total (value i) } else s) s

def Shares.addOne (s : Shares) (i : ℕ) : Shares :=
  { s with adj := Function.update s.adj i (M.add (s.adj i) 1), total := M.add s.total 1 }

/-- A share becomes one unit less than another one, which is meant to be itself. -/
def Shares.takeOne (s : Shares) (i j : ℕ) : Shares where
  adj := Function.update s.adj i (M.sub (s.adj j) 1)
  total := M.sub s.total 1
  fault := s.fault || decide (nout ≤ j) || decide (s.adj j < 1) || decide (s.total < 1)

/-- The outputs in turn, as long as the total is too small. -/
def raise (s : Shares) : Shares :=
  (List.range nout).foldl (fun s i => if s.total < target ∧ sel i then s.addOne M i else s) s

/-- The outputs from the last one on, as long as the total is too large. `source` is the index that a share is read
from. -/
def lower : ℕ → Shares → Shares
  | 0, s => s
  | i+1, s =>
    if s.total > target then lower i (if s.adj i ≠ 0 then s.takeOne M nout i (source i) else s) else s

/-- The passes that the corrections make at most. -/
def maxIters : ℕ := 2000

/-- Both loops, again and again until the total is right. -/
def correct : ℕ → Shares → Shares
  | 0, s => s
  | iters+1, s =>
    if s.total = target then s else correct iters (lower M source nout target nout (raise M sel nout target s))

section
variable {M sel source nout target} {s s' s'' : Shares} {i n m p q iters : ℕ} {k k' : ℕ → ℕ}

lemma share_eq (x total amount : ℕ) : M.share x total amount = wrappedShare M.n x total amount := by
  rw [Modulus.share, Modulus.add, Modulus.mul, Nat.mod_add_mod]
  rfl

lemma sum_selected_succ (value : ℕ → ℕ) :
    ∑ j ∈ range (n + 1) with sel j, value j = ∑ j ∈ range n with sel j, value j + if sel n then value n else 0 := by
  rw [sum_filter, sum_filter, sum_range_succ]

lemma assign_eq {value : ℕ → ℕ} (h : s.total + ∑ j ∈ range n with sel j, value j < 2^253) :
    assign M sel n value s =
      { s with
        adj := fun j => if j < n ∧ sel j then value j else s.adj j
        total := s.total + ∑ j ∈ range n with sel j, value j } := by
  unfold assign
  induction n with
  | zero => simp
  | succ n ih =>
    rw [sum_selected_succ] at h ⊢
    rw [List.range_succ, List.foldl_append, List.foldl_cons, List.foldl_nil, ih (by omega)]
    by_cases hsel : sel n
    · rw [if_pos hsel] at h
      rw [if_pos hsel, if_pos hsel, M.add_eq (by dsimp only; omega)]
      simp only [Shares.mk.injEq, and_true, Nat.add_assoc]
      funext j
      by_cases hj : j = n
      · rw [hj, Function.update_self, if_pos ⟨Nat.lt_succ_self n, hsel⟩]
      · rw [Function.update_of_ne hj]
        exact if_congr (by simp only [Nat.lt_succ_iff_lt_or_eq, hj, or_false]) rfl rfl
    · rw [if_neg hsel, if_neg hsel]
      simp only [Shares.mk.injEq, and_true, Nat.add_zero]
      funext j
      by_cases hj : j = n
      · rw [hj, if_neg fun hlt => lt_irrefl n hlt.1, if_neg fun hlt => hsel hlt.2]
      · exact if_congr (by simp only [Nat.lt_succ_iff_lt_or_eq, hj, or_false]) rfl rfl

section InRange

lemma Modulus.pos (M : Modulus) : 0 < M.n := (by decide : 0 < 2^253).trans_le M.large

lemma update_lt {f : ℕ → ℕ} {v : ℕ} (hf : ∀ j, f j < M.n) (hv : v < M.n) (j : ℕ) : Function.update f i v j < M.n := by
  by_cases hj : j = i
  · rwa [hj, Function.update_self]
  · rw [Function.update_of_ne hj]
    exact hf j

lemma assign_lt {value : ℕ → ℕ} (hvalue : ∀ i, value i < M.n) (hs : ∀ j, s.adj j < M.n) (j : ℕ) :
    (assign M sel n value s).adj j < M.n := by
  unfold assign
  induction n generalizing j with
  | zero => exact hs j
  | succ n ih =>
    rw [List.range_succ, List.foldl_append, List.foldl_cons, List.foldl_nil]
    split_ifs
    · exact update_lt ih (hvalue n) j
    · exact ih j

lemma raise_lt (hs : ∀ j, s.adj j < M.n) (j : ℕ) : (raise M sel n target s).adj j < M.n := by
  unfold raise
  induction n generalizing j with
  | zero => exact hs j
  | succ n ih =>
    rw [List.range_succ, List.foldl_append, List.foldl_cons, List.foldl_nil]
    split_ifs
    · exact update_lt ih (Nat.mod_lt _ M.pos) j
    · exact ih j

lemma lower_lt (hs : ∀ j, s.adj j < M.n) (j : ℕ) : (lower M source nout target n s).adj j < M.n := by
  induction n generalizing s with
  | zero => exact hs j
  | succ n ih =>
    rw [lower]
    split_ifs
    · exact ih fun j => update_lt hs (Nat.mod_lt _ M.pos) j
    · exact ih hs
    · exact hs j

/-- The loops compute numbers modulo the modulus. -/
lemma correct_lt (hs : ∀ j, s.adj j < M.n) (j : ℕ) : (correct M sel source nout target iters s).adj j < M.n := by
  induction iters generalizing s with
  | zero => exact hs j
  | succ iters ih =>
    rw [correct]
    split_ifs
    · exact hs j
    · exact ih fun j => lower_lt (raise_lt hs) j

end InRange

/-- Units have been added to selected shares, at most `p` to each, until the total was right or each had its `p`. -/
structure Raised (M : Modulus) (sel : ℕ → Bool) (n target p : ℕ) (s s' : Shares) (k : ℕ → ℕ) : Prop where
  le : ∀ j, k j ≤ p
  selected : ∀ j, k j ≠ 0 → j < n ∧ sel j
  adj : ∀ j, s'.adj j = (s.adj j + k j) % M.n
  total : s'.total = s.total + ∑ j ∈ range n, k j
  total_eq : s'.total = min target (s.total + p * #{j ∈ range n | sel j})
  fault : s'.fault = s.fault

lemma Raised.refl (hadj : ∀ j, s.adj j < M.n) (htotal : s.total = min target (s.total + p * #{j ∈ range n | sel j})) :
    Raised M sel n target p s s fun _ => 0 where
  le _ := Nat.zero_le p
  selected _ h := absurd rfl h
  adj j := (Nat.mod_eq_of_lt (hadj j)).symm
  total := by simp
  total_eq := htotal
  fault := rfl

lemma Raised.trans (h : Raised M sel n target p s s' k) (h' : Raised M sel n target q s' s'' k') :
    Raised M sel n target (p + q) s s'' fun j => k j + k' j where
  le j := Nat.add_le_add (h.le j) (h'.le j)
  selected j hj := by
    by_cases hk : k j = 0
    · exact h'.selected j (by omega)
    · exact h.selected j hk
  adj j := by rw [h'.adj, h.adj, Nat.mod_add_mod, Nat.add_assoc]
  total := by rw [h'.total, h.total, sum_add_distrib, Nat.add_assoc]
  total_eq := by
    rw [h'.total_eq, h.total_eq, Nat.add_mul]
    omega
  fault := h'.fault.trans h.fault

lemma Raised.adj_lt (h : Raised M sel n target p s s' k) (j : ℕ) : s'.adj j < M.n := by
  have hlarge := M.large
  rw [h.adj]
  exact Nat.mod_lt _ (by omega)

lemma card_selected_succ : #{j ∈ range (n + 1) | sel j} = #{j ∈ range n | sel j} + if sel n then 1 else 0 := by
  rw [range_add_one, filter_insert]
  split_ifs
  · rw [card_insert_of_notMem (by simp)]
  · rfl

/-- A pass over the outputs adds a unit to each selected share while the total is too small. -/
lemma raise_raised (hadj : ∀ j, s.adj j < M.n) (htarget : target < 2^253) (hle : s.total ≤ target) :
    ∃ k, Raised M sel nout target 1 s (raise M sel nout target s) k := by
  unfold raise
  induction nout with
  | zero => exact ⟨fun _ => 0, Raised.refl hadj (by simp [hle])⟩
  | succ n ih =>
    obtain ⟨k, h⟩ := ih
    rw [List.range_succ, List.foldl_append, List.foldl_cons, List.foldl_nil]
    set s' := (List.range n).foldl (fun s i => if s.total < target ∧ sel i then s.addOne M i else s) s
    have hn : k n = 0 := by_contra fun hn => lt_irrefl n (h.selected n hn).1
    have htotal := h.total_eq
    by_cases hadds : s'.total < target ∧ sel n
    · rw [if_pos hadds]
      refine ⟨fun j => if j = n then 1 else k j, fun j => ?_, fun j hj => ?_, fun j => ?_, ?_, ?_, h.fault⟩
      · split_ifs
        · exact le_rfl
        · exact h.le j
      · split_ifs at hj with hjn
        · exact ⟨hjn ▸ Nat.lt_succ_self n, hjn ▸ hadds.2⟩
        · exact ⟨(h.selected j hj).1.trans (Nat.lt_succ_self n), (h.selected j hj).2⟩
      · change Function.update s'.adj n (M.add (s'.adj n) 1) j = _
        by_cases hjn : j = n
        · rw [hjn, Function.update_self, if_pos rfl, h.adj, hn, Nat.add_zero, Modulus.add, Nat.mod_add_mod]
        · rw [Function.update_of_ne hjn, if_neg hjn, h.adj]
      · change M.add s'.total 1 = _
        rw [M.add_eq (by omega), h.total, sum_range_succ, if_pos rfl, Nat.add_assoc]
        congr 2
        exact sum_congr rfl fun j hj => (if_neg (mem_range.1 hj).ne).symm
      · change M.add s'.total 1 = _
        rw [M.add_eq (by omega), card_selected_succ, if_pos hadds.2]
        omega
    · rw [if_neg hadds]
      refine ⟨k, h.le, fun j hj => ⟨(h.selected j hj).1.trans (Nat.lt_succ_self n), (h.selected j hj).2⟩, h.adj, ?_, ?_,
        h.fault⟩
      · rw [h.total, sum_range_succ, hn, Nat.add_zero]
      · rw [card_selected_succ]
        split_ifs with hsel
        · have hge : ¬s'.total < target := fun hlt => hadds ⟨hlt, hsel⟩
          omega
        · rw [Nat.add_zero]
          exact htotal

/-- Where the total is not too small, nothing is added. -/
lemma raise_of_le (h : target ≤ s.total) : raise M sel nout target s = s := by
  unfold raise
  induction nout with
  | zero => rfl
  | succ n ih =>
    rw [List.range_succ, List.foldl_append, ih, List.foldl_cons, List.foldl_nil, if_neg fun hlt => absurd hlt.1 (not_lt.2 h)]

lemma lower_of_le (h : s.total ≤ target) : lower M source nout target n s = s := by
  cases n with
  | zero => rfl
  | succ n => rw [lower, if_neg (not_lt.2 h)]

/-- From a total that is not too large on units are only added. -/
lemma correct_raised (hadj : ∀ j, s.adj j < M.n) (htarget : target < 2^253) (hle : s.total ≤ target) :
    ∃ k, Raised M sel nout target iters s (correct M sel source nout target iters s) k := by
  induction iters generalizing s with
  | zero => exact ⟨fun _ => 0, Raised.refl hadj (by simp [hle])⟩
  | succ iters ih =>
    rw [correct]
    split_ifs with heq
    · exact ⟨fun _ => 0, Raised.refl hadj (by rw [heq]; exact (Nat.min_eq_left (Nat.le_add_right ..)).symm)⟩
    · obtain ⟨k, h⟩ := @raise_raised M sel nout target s hadj htarget hle
      have hle' : (raise M sel nout target s).total ≤ target := h.total_eq.trans_le (min_le_left _ _)
      rw [lower_of_le hle']
      obtain ⟨k', h'⟩ := ih h.adj_lt hle'
      exact ⟨_, Nat.add_comm iters 1 ▸ h.trans h'⟩

/-- Units are taken from the last shares that are not zero. -/
lemma lower_id (hadj : ∀ j, s.adj j < M.n) (htotal : s.total < 2^253) (hn : n ≤ nout) :
    lower M id nout target n s =
      { s with
        adj := fun j => if j ∈ lastNonzero s.adj n (s.total - target) then s.adj j - 1 else s.adj j
        total := s.total - #(lastNonzero s.adj n (s.total - target)) } := by
  induction n generalizing s with
  | zero =>
    have hempty : lastNonzero s.adj 0 (s.total - target) = ∅ := rfl
    simp [lower, hempty]
  | succ n ih =>
    rw [lower]
    by_cases hlt : s.total > target
    · rw [if_pos hlt]
      by_cases hzero : s.adj n = 0
      · rw [if_neg (not_not.2 hzero), ih hadj htotal (Nat.le_of_succ_le hn), lastNonzero_succ_of_eq hzero]
      · obtain ⟨d, hd⟩ : ∃ d, s.total - target = d + 1 := Nat.exists_eq_succ_of_ne_zero (by omega)
        have htake : s.takeOne M nout n n =
            { s with adj := Function.update s.adj n (s.adj n - 1), total := s.total - 1 } := by
          have hshare := M.sub_eq (Nat.one_le_iff_ne_zero.2 hzero) (hadj n)
          have hless := M.sub_eq (show 1 ≤ s.total by omega) (htotal.trans_le M.large)
          have hindex : ¬nout ≤ n := not_le.2 (Nat.lt_of_succ_le hn)
          rw [Shares.takeOne, hshare, hless]
          simp [hindex, hzero, show s.total ≠ 0 by omega]
        have hother : ∀ j < n, Function.update s.adj n (s.adj n - 1) j = s.adj j := fun j hj =>
          Function.update_of_ne hj.ne ..
        have hlast : n ∉ lastNonzero s.adj n d := fun hmem => lt_irrefl n (mem_lastNonzero.1 hmem).1
        rw [if_pos hzero, id, htake, ih (fun j => ?_) (by dsimp only; omega) (Nat.le_of_succ_le hn)]
        · dsimp only
          rw [show s.total - 1 - target = d by omega, lastNonzero_congr hother, hd, lastNonzero_succ_of_ne hzero,
            card_insert_of_notMem hlast]
          congr 1
          · funext j
            by_cases hj : j = n
            · rw [hj, if_neg hlast, if_pos (mem_insert_self ..), Function.update_self]
            · rw [Function.update_of_ne hj]
              simp only [mem_insert, hj, false_or]
          · omega
        · by_cases hj : j = n
          · rw [hj]
            change Function.update s.adj n (s.adj n - 1) n < M.n
            rw [Function.update_self]
            exact (Nat.sub_le ..).trans_lt (hadj n)
          · change Function.update s.adj n (s.adj n - 1) j < M.n
            rw [Function.update_of_ne hj]
            exact hadj j
    · rw [if_neg hlt, Nat.sub_eq_zero_of_le (not_lt.1 hlt), lastNonzero_zero]
      simp

/-- Too large a total that can be corrected is corrected by the first pass. -/
lemma correct_lower (hadj : ∀ j, s.adj j < M.n) (htotal : s.total < 2^253) (hlt : target < s.total)
    (hcard : s.total ≤ target + #{j ∈ range nout | s.adj j ≠ 0}) :
    correct M sel id nout target (iters + 1) s =
      { s with
        adj := fun j => if j ∈ lastNonzero s.adj nout (s.total - target) then s.adj j - 1 else s.adj j
        total := target } := by
  have hall : #(lastNonzero s.adj nout (s.total - target)) = s.total - target := by
    rw [card_lastNonzero]
    omega
  rw [correct, if_neg hlt.ne', raise_of_le hlt.le, lower_id hadj htotal le_rfl, hall, Nat.sub_sub_self hlt.le]
  cases iters with
  | zero => rfl
  | succ iters => rw [correct, if_pos rfl]

lemma fault_lower (h : s.fault = true) : (lower M source nout target n s).fault = true := by
  induction n generalizing s with
  | zero => exact h
  | succ n ih =>
    rw [lower]
    split_ifs
    · exact ih (by rw [Shares.takeOne, h]; rfl)
    · exact ih h
    · exact h

lemma fault_raise (h : s.fault = true) : (raise M sel nout target s).fault = true := by
  unfold raise
  induction nout with
  | zero => exact h
  | succ n ih =>
    rw [List.range_succ, List.foldl_append, List.foldl_cons, List.foldl_nil]
    split_ifs
    · exact ih
    · exact ih

lemma fault_correct (h : s.fault = true) : (correct M sel source nout target iters s).fault = true := by
  induction iters generalizing s with
  | zero => exact h
  | succ iters ih =>
    rw [correct]
    split_ifs
    · exact h
    · exact ih (fault_lower (fault_raise h))

/-- Where a share is read from the next one, the first unit that is taken is a fault. -/
lemma lower_succ_fault (hlt : target < s.total) (hn : n = nout ∨ s.adj n = 0) (hsome : ∃ j < n, s.adj j ≠ 0) :
    (lower M (· + 1) nout target n s).fault = true := by
  induction n generalizing s with
  | zero =>
    obtain ⟨j, hj, -⟩ := hsome
    exact absurd hj (Nat.not_lt_zero j)
  | succ n ih =>
    rw [lower, if_pos hlt]
    split_ifs with hne
    · apply fault_lower
      rcases hn with hn | hn
      · simp [Shares.takeOne, hn]
      · simp [Shares.takeOne, hn]
    · obtain ⟨j, hj, hadj⟩ := hsome
      have hzero : s.adj n = 0 := not_not.1 hne
      refine ih hlt (.inr hzero) ⟨j, lt_of_le_of_ne (Nat.le_of_lt_succ hj) fun heq => ?_, hadj⟩
      exact hadj (heq ▸ hzero)

lemma correct_succ_fault (hlt : target < s.total) (hsome : ∃ j < nout, s.adj j ≠ 0) :
    (correct M sel (· + 1) nout target (iters + 1) s).fault = true := by
  rw [correct, if_neg hlt.ne', raise_of_le hlt.le]
  exact fault_correct (lower_succ_fault hlt (.inl rfl) hsome)

end

end CredaCash.Wallet
