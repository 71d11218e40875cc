import CredaCash.Wallet.UnitSteps

/-! The two distributions of units over outputs: the one whose loop takes units from the shares themselves, and the one
whose loop reads the next share instead. -/

namespace CredaCash.Wallet
open Finset ProRata

variable {M : Modulus} {sel : ℕ → Bool} {n x total N : ℕ} {a adj : ℕ → ℕ} {fault : Bool}

/-- The shares of the selected outputs with the values that the others have kept. -/
def startShares (sel : ℕ → Bool) (n : ℕ) (value adj : ℕ → ℕ) (j : ℕ) : ℕ := if j < n ∧ sel j then value j else adj j

lemma startShares_of_sel {value : ℕ → ℕ} {j : ℕ} (hj : j < n) (hsel : sel j) :
    startShares sel n value adj j = value j :=
  if_pos ⟨hj, hsel⟩

/-- Only the values of the outputs that are not selected matter. -/
lemma startShares_congr {value adj' : ℕ → ℕ} (h : ∀ j, ¬(j < n ∧ sel j) → adj' j = adj j) :
    startShares sel n value adj' = startShares sel n value adj :=
  funext fun j => ite_congr rfl (fun _ => rfl) (h j)

lemma sum_startShares {value : ℕ → ℕ} :
    ∑ j ∈ range n with sel j, startShares sel n value adj j = ∑ j ∈ range n with sel j, value j := by
  refine sum_congr rfl fun j hj => ?_
  obtain ⟨hj, hsel⟩ := mem_filter.1 hj
  exact startShares_of_sel (mem_range.1 hj) hsel

lemma startShares_lt {value : ℕ → ℕ} {bound : ℕ} (hvalue : ∀ j < n, sel j → value j < bound) (hadj : ∀ j, adj j < bound)
    (j : ℕ) : startShares sel n value adj j < bound := by
  unfold startShares
  split_ifs with h
  · exact hvalue j h.1 h.2
  · exact hadj j

/-- What raising leaves of the selected shares and of the others. -/
lemma Raised.sums {target p : ℕ} {s s' : Shares} {k : ℕ → ℕ} (h : Raised M sel n target p s s' k)
    (htotal : s.total = ∑ j ∈ range n with sel j, s.adj j) (hlt : s'.total < 2^253) (hadj : ∀ j, s.adj j < M.n) :
    ∑ j ∈ range n with sel j, s'.adj j = s'.total ∧ (∀ j < n, sel j → s'.adj j = s.adj j + k j) ∧
      ∀ j, ¬(j < n ∧ sel j) → s'.adj j = s.adj j := by
  have hsum := h.total
  have hselected : ∀ j < n, sel j → s'.adj j = s.adj j + k j := by
    intro j hj hsel
    have hshare : s.adj j ≤ s.total := by
      rw [htotal]
      exact single_le_sum (fun _ _ => Nat.zero_le _) (mem_filter.2 ⟨mem_range.2 hj, hsel⟩)
    have hunits : k j ≤ ∑ j ∈ range n, k j := single_le_sum (fun _ _ => Nat.zero_le _) (mem_range.2 hj)
    have hlarge := M.large
    rw [h.adj, Nat.mod_eq_of_lt (by omega)]
  refine ⟨?_, hselected, fun j hj => ?_⟩
  · have hunits : ∑ j ∈ range n with sel j, k j = ∑ j ∈ range n, k j :=
      sum_filter_of_ne fun j _ hk => (h.selected j hk).2
    rw [hsum, htotal, ← hunits, ← sum_add_distrib]
    refine sum_congr rfl fun j hj => ?_
    obtain ⟨hj, hsel⟩ := mem_filter.1 hj
    exact hselected j (mem_range.1 hj) hsel
  · have hzero : k j = 0 := by_contra fun hk => hj (h.selected j hk)
    rw [h.adj, hzero, Nat.add_zero, Nat.mod_eq_of_lt (hadj j)]

/-- The numerators of the shares do not reach the modulus. -/
def NumeratorsFit (M : Modulus) (sel : ℕ → Bool) (n x total : ℕ) (a : ℕ → ℕ) : Prop :=
  ∀ j < n, sel j → x * a j + total / 2 < M.n

instance (M : Modulus) (sel : ℕ → Bool) (n x total : ℕ) (a : ℕ → ℕ) : Decidable (NumeratorsFit M sel n x total a) :=
  inferInstanceAs (Decidable (∀ j < n, sel j → x * a j + total / 2 < M.n))

lemma sum_wrapped_eq (h : NumeratorsFit M sel n x total a) :
    ∑ j ∈ range n with sel j, wrappedShare M.n x total (a j) = ∑ j ∈ range n with sel j, share x total (a j) := by
  refine sum_congr rfl fun j hj => ?_
  obtain ⟨hj, hsel⟩ := mem_filter.1 hj
  exact wrappedShare_of_lt (h j (mem_range.1 hj) hsel)

/-- When they do, the corrections do not make up for it. -/
lemma sum_wrapped_short (h : ¬NumeratorsFit M sel n x total a) (hsum : ∑ j ∈ range n with sel j, a j ≤ total)
    (hbound : (maxIters + 1) * n * total < 2^253) :
    ∑ j ∈ range n with sel j, wrappedShare M.n x total (a j) + maxIters * #{j ∈ range n | sel j} < x := by
  have hwrap : ∃ j ∈ {j ∈ range n | sel j}, M.n ≤ x * a j + total / 2 := by
    unfold NumeratorsFit at h
    push Not at h
    obtain ⟨j, hj, hsel, hle⟩ := h
    exact ⟨j, mem_filter.2 ⟨mem_range.2 hj, hsel⟩, hle⟩
  refine sum_wrappedShare_lt hwrap hsum (lt_of_le_of_lt ?_ (hbound.trans_le M.large))
  refine Nat.mul_le_mul_right _ (Nat.mul_le_mul_left _ ?_)
  exact (card_filter_le _ _).trans_eq (card_range n)

/-- The units of `x` are spread over the selected outputs only: no share is computed wrongly, and before the units by
which the shares exceed `x` have been taken, from the last output on, no other output comes that has kept a value. -/
def Spreads (M : Modulus) (sel : ℕ → Bool) (n x total : ℕ) (a adj : ℕ → ℕ) : Prop :=
  NumeratorsFit M sel n x total a ∧ ∀ j < n, ¬sel j → adj j ≠ 0 →
    ∑ j ∈ range n with sel j, share x total (a j) - x ≤ #{i ∈ Ioo j n |
      startShares sel n (fun i => share x total (a i)) adj i ≠ 0}

instance (M : Modulus) (sel : ℕ → Bool) (n x total : ℕ) (a adj : ℕ → ℕ) :
    Decidable (Spreads M sel n x total a adj) := by
  unfold Spreads
  infer_instance

/-- The shares of `x` by amount, corrected. -/
def spread (M : Modulus) (sel : ℕ → Bool) (n x total : ℕ) (a adj : ℕ → ℕ) (fault : Bool) : Shares :=
  correct M sel id n x maxIters ⟨startShares sel n (fun j => wrappedShare M.n x total (a j)) adj,
    ∑ j ∈ range n with sel j, wrappedShare M.n x total (a j), fault⟩

section Spread
variable (htotal : 0 < total) (hsum : ∑ j ∈ range n with sel j, a j = total)
  (hbound : (maxIters + 1) * n * total < 2^253) (hx : x + n < 2^253) (hadj : ∀ j, adj j < M.n)
include htotal hsum

lemma sum_wrapped_le : ∑ j ∈ range n with sel j, wrappedShare M.n x total (a j) ≤ x + n := by
  refine (sum_le_sum fun j _ => wrappedShare_le).trans ((sum_share_le htotal hsum.le).trans (Nat.add_le_add_left ?_ x))
  exact ((card_filter_le _ _).trans (card_filter_le _ _)).trans_eq (card_range n)

include hx

lemma wrapped_lt {j : ℕ} (hj : j < n) (hsel : sel j) : wrappedShare M.n x total (a j) < M.n := by
  have hle : wrappedShare M.n x total (a j) ≤ ∑ j ∈ range n with sel j, wrappedShare M.n x total (a j) :=
    single_le_sum (f := fun j => wrappedShare M.n x total (a j)) (fun _ _ => Nat.zero_le _)
      (mem_filter.2 ⟨mem_range.2 hj, hsel⟩)
  exact (hle.trans (sum_wrapped_le htotal hsum)).trans_lt (hx.trans_le M.large)

include hbound hadj

/-- Shares that do not exceed `x` are raised, and then nothing else than the selected shares changes. -/
lemma spread_raises (hle : ∑ j ∈ range n with sel j, wrappedShare M.n x total (a j) ≤ x) :
    (spread M sel n x total a adj fault).fault = fault ∧
    (∑ j ∈ range n with sel j, (spread M sel n x total a adj fault).adj j = x ↔ NumeratorsFit M sel n x total a) ∧
    ∀ j, ¬(j < n ∧ sel j) → (spread M sel n x total a adj fault).adj j = adj j := by
  have hstart := startShares_lt (fun j hj hsel => wrapped_lt (M := M) htotal hsum hx hj hsel) hadj
  obtain ⟨k, hk⟩ : ∃ k, Raised M sel n x maxIters _ (spread M sel n x total a adj fault) k :=
    correct_raised hstart (by omega) hle
  have heq := hk.total_eq
  dsimp only at heq
  obtain ⟨hsums, -, hother⟩ := hk.sums sum_startShares.symm (by omega) hstart
  refine ⟨hk.fault, ?_, fun j hj => (hother j hj).trans (if_neg hj)⟩
  rw [hsums]
  by_cases hfit : NumeratorsFit M sel n x total a
  · have hall := le_sum_share (x := x) htotal hsum
    rw [← sum_wrapped_eq hfit] at hall
    refine iff_of_true ?_ hfit
    rw [heq, maxIters]
    omega
  · have hshort := sum_wrapped_short hfit hsum.le hbound
    refine iff_of_false ?_ hfit
    omega

/-- From shares that exceed `x` the units are taken that these are too many. -/
lemma spread_eq_lowered (hlt : x < ∑ j ∈ range n with sel j, wrappedShare M.n x total (a j)) :
    NumeratorsFit M sel n x total a ∧ ∃ start lowered, start = startShares sel n (fun j => share x total (a j)) adj ∧
      lowered = lastNonzero start n (∑ j ∈ range n with sel j, share x total (a j) - x) ∧ lowered.card =
        ∑ j ∈ range n with sel j, share x total (a j) - x ∧
      spread M sel n x total a adj fault = ⟨fun j => if j ∈ lowered then start j - 1 else start j, x, fault⟩ := by
  have hfit : NumeratorsFit M sel n x total a := by_contra fun hnot => by
    have hshort := sum_wrapped_short hnot hsum.le hbound
    omega
  have hstart := startShares_lt (fun j hj hsel => wrapped_lt (M := M) htotal hsum hx hj hsel) hadj
  have hsame : startShares sel n (fun j => wrappedShare M.n x total (a j)) adj =
      startShares sel n (fun j => share x total (a j)) adj := by
    funext j
    exact ite_congr rfl (fun h => wrappedShare_of_lt (hfit j h.1 h.2)) fun _ => rfl
  have hle := sum_wrapped_le (M := M) (x := x) htotal hsum
  rw [sum_wrapped_eq hfit] at hlt hle
  rw [hsame] at hstart
  set start := startShares sel n (fun j => share x total (a j)) adj with hdef
  have hcard : ∑ j ∈ range n with sel j, share x total (a j) ≤ x + #{j ∈ range n | start j ≠ 0} := by
    refine (sum_share_le htotal hsum.le).trans (Nat.add_le_add_left (card_le_card fun j hj => ?_) x)
    obtain ⟨hj, hne⟩ := mem_filter.1 hj
    obtain ⟨hj, hsel⟩ := mem_filter.1 hj
    refine mem_filter.2 ⟨hj, ?_⟩
    rw [hdef, startShares_of_sel (mem_range.1 hj) hsel]
    exact hne
  refine ⟨hfit, start, _, rfl, rfl, ?_, ?_⟩
  · rw [card_lastNonzero]
    omega
  · rw [spread, hsame, sum_wrapped_eq hfit]
    change correct M sel id n x (1999 + 1) _ = _
    exact correct_lower hstart (by dsimp only; omega) hlt hcard

/-- Then the sum of the selected shares is right just when all of them are taken from these. -/
lemma spread_lowers (hlt : x < ∑ j ∈ range n with sel j, wrappedShare M.n x total (a j)) :
    (spread M sel n x total a adj fault).fault = fault ∧
    (∑ j ∈ range n with sel j, (spread M sel n x total a adj fault).adj j = x ↔ Spreads M sel n x total a adj) ∧
    (Spreads M sel n x total a adj →
      ∀ j, ¬(j < n ∧ sel j) → (spread M sel n x total a adj fault).adj j = adj j) := by
  obtain ⟨hfit, start, lowered, hstart, hlowered, hcard, heq⟩ :=
    @spread_eq_lowered M sel n x total a adj fault htotal hsum hbound hx hadj hlt
  rw [sum_wrapped_eq hfit] at hlt
  have hmem : ∀ j, j ∈ lowered ↔ j < n ∧ start j ≠ 0 ∧ #{l ∈ Ioo j n | start l ≠ 0} <
      ∑ j ∈ range n with sel j, share x total (a j) - x := fun j => by
    rw [hlowered, mem_lastNonzero]
  have hspreads : Spreads M sel n x total a adj ↔ ∀ j ∈ lowered, sel j := by
    rw [Spreads, ← hstart, and_iff_right hfit]
    constructor
    · intro h j hj
      obtain ⟨hj, hne, hcount⟩ := (hmem j).1 hj
      by_contra hsel
      rw [hstart, startShares, if_neg fun h => hsel h.2] at hne
      exact absurd (h j hj hsel hne) (not_le.2 hcount)
    · intro h j hj hsel hne
      refine not_lt.1 fun hcount => hsel (h j ((hmem j).2 ⟨hj, ?_, hcount⟩))
      rwa [hstart, startShares, if_neg fun h => hsel h.2]
  have htaken : ∑ j ∈ range n with sel j, (if j ∈ lowered then start j - 1 else start j) + #{j ∈ {j ∈ range n | sel j} |
      j ∈ lowered} = ∑ j ∈ range n with sel j, share x total (a j) := by
    have hshares : ∑ j ∈ range n with sel j, start j = ∑ j ∈ range n with sel j, share x total (a j) := by
      rw [hstart, sum_startShares]
    rw [card_filter, ← sum_add_distrib, ← hshares]
    refine sum_congr rfl fun j _ => ?_
    split_ifs with hj
    · have hne := ((hmem j).1 hj).2.1
      omega
    · exact Nat.add_zero _
  have hall : #{j ∈ {j ∈ range n | sel j} | j ∈ lowered} = lowered.card ↔ ∀ j ∈ lowered, sel j := by
    have hsub : {j ∈ {j ∈ range n | sel j} | j ∈ lowered} ⊆ lowered := fun j hj => (mem_filter.1 hj).2
    constructor
    · intro h j hj
      rw [← eq_of_subset_of_card_le hsub h.ge] at hj
      exact (mem_filter.1 (mem_filter.1 hj).1).2
    · intro h
      refine congrArg card (subset_antisymm hsub fun j hj => ?_)
      exact mem_filter.2 ⟨mem_filter.2 ⟨mem_range.2 ((hmem j).1 hj).1, h j hj⟩, hj⟩
  rw [heq]
  refine ⟨rfl, ?_, fun h j hj => ?_⟩
  · rw [hspreads, ← hall, hcard]
    dsimp only
    omega
  · dsimp only
    rw [if_neg fun hl => hj ⟨((hmem j).1 hl).1, hspreads.1 h j hl⟩, hstart, startShares, if_neg hj]

/-- The selected shares sum to `x` just when the units are spread over the selected outputs only, and then nothing else
changes. -/
theorem spread_sum :
    (spread M sel n x total a adj fault).fault = fault ∧
    (∑ j ∈ range n with sel j, (spread M sel n x total a adj fault).adj j = x ↔ Spreads M sel n x total a adj) ∧
    (Spreads M sel n x total a adj →
      ∀ j, ¬(j < n ∧ sel j) → (spread M sel n x total a adj fault).adj j = adj j) := by
  rcases Nat.lt_or_ge x (∑ j ∈ range n with sel j, wrappedShare M.n x total (a j)) with hlt | hle
  · exact spread_lowers htotal hsum hbound hx hadj hlt
  · obtain ⟨hfault, hiff, hother⟩ := @spread_raises M sel n x total a adj fault htotal hsum hbound hx hadj hle
    refine ⟨hfault, hiff.trans ⟨fun hfit => ⟨hfit, fun j _ _ _ => ?_⟩, And.left⟩, fun _ => hother⟩
    rw [sum_wrapped_eq hfit] at hle
    rw [Nat.sub_eq_zero_of_le hle]
    exact Nat.zero_le _

end Spread

/-- Where no shares have been computed, units are added to the values that the selected outputs have kept. -/
lemma correct_unspread (hx : x < 2^253) (hadj : ∀ j, adj j < M.n) :
    (correct M sel id n x maxIters ⟨adj, 0, fault⟩).fault = fault ∧
    (∀ j, (correct M sel id n x maxIters ⟨adj, 0, fault⟩).adj j < M.n) ∧
    ((correct M sel id n x maxIters ⟨adj, 0, fault⟩).adj = adj ↔ x = 0 ∨ ∀ j < n, ¬sel j) := by
  obtain ⟨k, hk⟩ : ∃ k, Raised M sel n x maxIters ⟨adj, 0, fault⟩ (correct M sel id n x maxIters ⟨adj, 0, fault⟩) k :=
    correct_raised hadj hx (Nat.zero_le x)
  refine ⟨hk.fault, hk.adj_lt, ?_⟩
  have hunits : ∑ j ∈ range n, k j = min x (maxIters * #{j ∈ range n | sel j}) := by
    have htotal := hk.total
    rw [hk.total_eq, Nat.zero_add, Nat.zero_add] at htotal
    exact htotal.symm
  have hnone : (x = 0 ∨ ∀ j < n, ¬sel j) ↔ ∑ j ∈ range n, k j = 0 := by
    have hcard : #{j ∈ range n | sel j} = 0 ↔ ∀ j < n, ¬sel j := by
      rw [card_eq_zero, filter_eq_empty_iff]
      simp only [mem_range]
    rw [hunits, ← hcard, maxIters]
    omega
  rw [hnone, sum_eq_zero_iff]
  constructor
  · intro h j _
    have hle := hk.le j
    have heq := hk.adj j
    rw [h] at heq
    dsimp only at heq
    have hlarge := M.large
    have hlt := hadj j
    rw [maxIters] at hle
    by_cases hover : adj j + k j < M.n
    · rw [Nat.mod_eq_of_lt hover] at heq
      omega
    · rw [Nat.mod_eq_sub_mod (not_lt.1 hover), Nat.mod_eq_of_lt (by omega)] at heq
      omega
  · intro h
    funext j
    have hzero : k j = 0 := by_contra fun hne => hne (h j (mem_range.2 (hk.selected j hne).1))
    rw [hk.adj, hzero, Nat.add_zero, Nat.mod_eq_of_lt (hadj j)]

/-- The amounts of the selected outputs with their shares of `x`, corrected to a total by the loop that reads the next
share. -/
def spreadNext (M : Modulus) (sel : ℕ → Bool) (n x total : ℕ) (a adj : ℕ → ℕ) : Shares :=
  correct M sel (· + 1) n total maxIters ⟨startShares sel n (fun j => a j + wrappedShare M.n x total (a j)) adj,
    ∑ j ∈ range n with sel j, (a j + wrappedShare M.n x total (a j)), false⟩

/-- The shares of `x` do not exceed it, and fall short of it by no more than the corrections can make up for. -/
def Reaches (M : Modulus) (sel : ℕ → Bool) (n x total : ℕ) (a : ℕ → ℕ) : Prop :=
  NumeratorsFit M sel n x total a ∧ ∑ j ∈ range n with sel j, share x total (a j) ≤ x ∧
    x ≤ ∑ j ∈ range n with sel j, share x total (a j) + maxIters * #{j ∈ range n | sel j}

instance (M : Modulus) (sel : ℕ → Bool) (n x total : ℕ) (a : ℕ → ℕ) : Decidable (Reaches M sel n x total a) := by
  unfold Reaches
  infer_instance

section SpreadNext
variable (htotal : 0 < total) (hN : total = N + x) (hle : N ≤ ∑ j ∈ range n with sel j, a j)
  (hsmall : ∑ j ∈ range n with sel j, a j < 2^250) (hx : x < 2^250)
  (hbound : (maxIters + 1) * n * total < 2^253) (hadj : ∀ j, adj j < M.n)
/-- A unit that the loop takes is a fault. -/
lemma spreadNext_fault (hlt : total < ∑ j ∈ range n with sel j, (a j + wrappedShare M.n x total (a j))) :
    (spreadNext M sel n x total a adj).fault = true := by
  have hsome : ∃ j < n, startShares sel n (fun j => a j + wrappedShare M.n x total (a j)) adj j ≠ 0 := by
    by_contra hall
    push Not at hall
    rw [← @sum_startShares sel n adj, sum_eq_zero fun j hj => hall j (mem_range.1 (mem_filter.1 hj).1)] at hlt
    exact Nat.not_lt_zero _ hlt
  change (correct M sel (· + 1) n total (1999 + 1) _).fault = true
  exact correct_succ_fault hlt hsome

include htotal hN

lemma wrapped_le_amount (j : ℕ) : wrappedShare M.n x total (a j) ≤ a j := by
  refine wrappedShare_le.trans ?_
  rw [share, ← Nat.lt_succ_iff, Nat.div_lt_iff_lt_mul htotal, Nat.succ_mul, Nat.mul_comm (a j)]
  have hmul : x * a j ≤ total * a j := Nat.mul_le_mul_right _ (by omega)
  have hhalf := Nat.div_lt_self htotal (by decide : 1 < 2)
  omega

lemma sum_next_le : ∑ j ∈ range n with sel j, (a j + wrappedShare M.n x total (a j)) ≤
    2 * ∑ j ∈ range n with sel j, a j := by
  rw [mul_sum]
  refine sum_le_sum fun j _ => ?_
  have hle := wrapped_le_amount (M := M) (a := a) htotal hN j
  omega

include hsmall hadj

lemma startNext_lt (j : ℕ) :
    startShares sel n (fun j => a j + wrappedShare M.n x total (a j)) adj j < M.n := by
  refine startShares_lt (fun j hj hsel => ?_) hadj j
  have hamount : a j ≤ ∑ j ∈ range n with sel j, a j :=
    single_le_sum (fun _ _ => Nat.zero_le _) (mem_filter.2 ⟨mem_range.2 hj, hsel⟩)
  have hshare := wrapped_le_amount (M := M) (a := a) htotal hN j
  have hlarge := M.large
  omega

include hle hx

/-- A loop that has nothing to take only adds. -/
lemma spreadNext_raises (hge : ∑ j ∈ range n with sel j, (a j + wrappedShare M.n x total (a j)) ≤ total) :
    (spreadNext M sel n x total a adj).fault = false ∧
    ∑ j ∈ range n with sel j, (spreadNext M sel n x total a adj).adj j = min total
      (∑ j ∈ range n with sel j, (a j + wrappedShare M.n x total (a j)) + maxIters * #{j ∈ range n | sel j}) ∧
    (∀ j < n, sel j → a j ≤ (spreadNext M sel n x total a adj).adj j) ∧
    ∀ j, ¬(j < n ∧ sel j) → (spreadNext M sel n x total a adj).adj j = adj j := by
  have hstart := @startNext_lt M sel n x total N a adj htotal hN hsmall hadj
  obtain ⟨k, hk⟩ : ∃ k, Raised M sel n total maxIters _ (spreadNext M sel n x total a adj) k :=
    correct_raised hstart (by omega) hge
  have heq := hk.total_eq
  dsimp only at heq
  obtain ⟨hsums, hselected, hother⟩ := hk.sums sum_startShares.symm (by omega) hstart
  refine ⟨hk.fault, hsums.trans heq, fun j hj hsel => ?_, fun j hj => (hother j hj).trans (if_neg hj)⟩
  rw [hselected j hj hsel]
  dsimp only
  rw [startShares_of_sel hj hsel]
  exact (Nat.le_add_right _ _).trans (Nat.le_add_right _ _)

include hbound

/-- The totals are right just when every selected amount counts and the shares can be raised to `x`. -/
theorem spreadNext_sum :
    ((spreadNext M sel n x total a adj).fault = false ∧
        ∑ j ∈ range n with sel j, (spreadNext M sel n x total a adj).adj j = ∑ j ∈ range n with sel j, a j + x ↔
      N = ∑ j ∈ range n with sel j, a j ∧ Reaches M sel n x total a) ∧
    (N = ∑ j ∈ range n with sel j, a j ∧ Reaches M sel n x total a →
      (∀ j < n, sel j → a j ≤ (spreadNext M sel n x total a adj).adj j ∧
        (x = 0 → (spreadNext M sel n x total a adj).adj j = a j)) ∧
      ∀ j, ¬(j < n ∧ sel j) → (spreadNext M sel n x total a adj).adj j = adj j) := by
  have hstart : ∑ j ∈ range n with sel j, (a j + wrappedShare M.n x total (a j)) =
      ∑ j ∈ range n with sel j, a j + ∑ j ∈ range n with sel j, wrappedShare M.n x total (a j) := sum_add_distrib
  have hreaches : N = ∑ j ∈ range n with sel j, a j → (Reaches M sel n x total a ↔
      ∑ j ∈ range n with sel j, wrappedShare M.n x total (a j) ≤ x ∧
        x ≤ ∑ j ∈ range n with sel j, wrappedShare M.n x total (a j) + maxIters * #{j ∈ range n | sel j}) := by
    intro hall
    by_cases hfit : NumeratorsFit M sel n x total a
    · rw [Reaches, sum_wrapped_eq hfit, and_iff_right hfit]
    · have hshort := sum_wrapped_short hfit (by omega) hbound
      exact iff_of_false (fun h => hfit h.1) fun h => by omega
  rcases Nat.lt_or_ge total (∑ j ∈ range n with sel j, (a j + wrappedShare M.n x total (a j))) with hlt | hge
  · have hfault := @spreadNext_fault M sel n x total a adj hlt
    have hnot : ¬(N = ∑ j ∈ range n with sel j, a j ∧ Reaches M sel n x total a) := fun h => by
      have hshares := ((hreaches h.1).1 h.2).1
      omega
    refine ⟨iff_of_false (fun h => ?_) hnot, fun h => absurd h hnot⟩
    rw [hfault] at h
    cases h.1
  · obtain ⟨hfault, hsum, hamounts, hother⟩ := spreadNext_raises htotal hN hle hsmall hx hadj hge
    refine ⟨?_, fun h => ⟨fun j hj hsel => ⟨hamounts j hj hsel, fun hzero => ?_⟩, hother⟩⟩
    · rw [and_iff_right hfault, hsum]
      constructor
      · intro h
        have hall : N = ∑ j ∈ range n with sel j, a j := by omega
        exact ⟨hall, (hreaches hall).2 (by omega)⟩
      · rintro ⟨hall, h⟩
        have hshares := (hreaches hall).1 h
        omega
    · -- the shares together are the amounts together, and none is smaller
      have hsums :
          ∑ j ∈ range n with sel j, (spreadNext M sel n x total a adj).adj j = ∑ j ∈ range n with sel j, a j := by
        omega
      refine ((sum_eq_sum_iff_of_le fun j hj => ?_).1 hsums.symm j (mem_filter.2 ⟨mem_range.2 hj, hsel⟩)).symm
      obtain ⟨hj, hsel⟩ := mem_filter.1 hj
      exact hamounts j (mem_range.1 hj) hsel

end SpreadNext

end CredaCash.Wallet
