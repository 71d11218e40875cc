import CredaCash.Exchange.CheckMatch
import CredaCash.UniFloat.SumResidue

/-! The rate that a request requires for an amount, as an exact fraction: what its computation loses to rounding are
remainders of the amount, the rate and the costs. -/

namespace CredaCash.Exchange
open UniFloat Rounding

/-- A request whose rate and costs came from the wire and passed validation. -/
structure WireRequest (x : Xreq) : Prop where
  rate : IsWire x.netRateRequired
  ratePos : 0 < x.netRateRequired
  quoteCosts : IsWire x.quoteCosts
  baseCosts : x.baseCosts = 0

lemma WireRequest.rateFloat {x : Xreq} (h : WireRequest x) : IsRateFloat x.netRateRequired :=
  isRateFloat_of_wire h.rate h.ratePos

lemma ne_zero_of_pos {a : UniFloat} (ha : 0 < a.val) : a ≠ 0 := by
  rintro rfl
  exact lt_irrefl _ ha

lemma natAbs_le_iff {a : UniFloat} (ha : 0 < a.val) {n : ℕ} : a.val.natAbs ≤ n ↔ a.val ≤ n := by omega

lemma le_natAbs_iff {a : UniFloat} (ha : 0 < a.val) {n : ℕ} : n ≤ a.val.natAbs ↔ n ≤ a.val := by omega

lemma natCast_natAbs {a : UniFloat} (ha : 0 < a.val) : ((a.val.natAbs : ℕ) : ℤ) = a.val := by omega

/-- The quotient of `d` by an amount `a` is rounded to a rate of at most `n`; the other side of the comparison is half a
unit of the 64-bit quotient. -/
def ExactBelow (d a : ℤ) (n : ℕ) : Prop :=
  a * 2^bitLength d.natAbs < 2^(63 + bitLength a.natAbs) * ((4*n + slackAbove n) * a - 4*d)

/-- The quotient is rounded to a rate of at least `n`. -/
def ExactReaches (d a : ℤ) (n : ℕ) : Prop :=
  2^(63 + bitLength a.natAbs) * ((4*n - slackBelow n) * a - 4*d) ≤ a * 2^bitLength d.natAbs

instance (d a : ℤ) (n : ℕ) : Decidable (ExactBelow d a n) := Int.decLt _ _
instance (d a : ℤ) (n : ℕ) : Decidable (ExactReaches d a n) := Int.decLe _ _

/-- The costs of a request as its required rate takes them into account: they lower that of a buyer. -/
def signedCosts (x : Xreq) : ℤ := if x.isBuyer then -x.quoteCosts.val else x.quoteCosts.val

/-- The quote that a request requires for an amount `a`, in units of `2^-2148`: its net rate times the amount, and its
costs, without what the product and then the sum lose to rounding. -/
def requiredQuote (x : Xreq) (a : ℤ) : ℤ :=
  let exact := a * x.netRateRequired.val
  let e := lost exact.natAbs 1074
  exact - e + 2^1074 * (signedCosts x - sumLost ((exact - e) / 2^1074) (signedCosts x))

section Required
variable {x : Xreq} (hx : WireRequest x) {a : UniFloat} (ha : 0 < a.val)

/-- What `MatchRateRequired` divides by the amount. -/
def requiredDividend (x : Xreq) (a : UniFloat) : UniFloat :=
  add (multiply a x.netRateRequired 0) (applySign (Xreq.rateSign x.isBuyer) x.quoteCosts) 0 false

lemma applySign_costs (x : Xreq) : (applySign (Xreq.rateSign x.isBuyer) x.quoteCosts).val = signedCosts x := by
  unfold signedCosts
  split_ifs with h
  · rw [Xreq.rateSign_buyer h]
    rfl
  · rw [Xreq.rateSign_seller (Bool.eq_false_iff.2 h)]
    rfl

include hx

lemma WireRequest.costs_rounded : Rounded (signedCosts x).natAbs := by
  have hnat : (signedCosts x).natAbs = x.quoteCosts.val.natAbs := by
    unfold signedCosts
    split_ifs
    · exact Int.natAbs_neg _
    · rfl
  rw [hnat]
  refine .inr ?_
  rcases lt_or_ge 0 x.quoteCosts.val with hpos | hle
  · exact (isRateFloat_of_wire hx.quoteCosts hpos).rate.bits
  · obtain ⟨v, hv, heq⟩ := hx.quoteCosts
    obtain rfl : v = 0 := by
      by_contra h0
      rw [heq, wireDecode_val h0 hv] at hle
      have hmant : 0 < (v % 2^21 + 2^21) * 2^(v / 2^21 + 29) := by positivity
      omega
    rw [heq]
    exact is52_of_le (Nat.zero_le _)

include ha

/-- The dividend is what the exact product and costs leave after their losses. -/
lemma requiredDividend_val : (requiredDividend x a).val * 2^1074 = requiredQuote x a.val := by
  have hproduct := multiply_add_lost ha hx.rateFloat.pos
  have hrounded : Rounded (multiply a x.netRateRequired 0).val.natAbs := by
    rw [multiply_val ha hx.rateFloat.pos, Int.natAbs_natCast]
    exact store_is52 _ _
  have hsum := add_add_sumLost hrounded (b := applySign (Xreq.rateSign x.isBuyer) x.quoteCosts)
    (by rw [applySign_costs]; exact hx.costs_rounded)
  rw [applySign_costs] at hsum
  rw [requiredQuote, requiredDividend, Int.natAbs_mul, ← hproduct, add_sub_cancel_right,
    Int.mul_ediv_cancel _ (by positivity)]
  generalize (2:ℤ)^1074 = p
  linear_combination p * hsum

omit hx
variable (hbase : x.baseCosts = 0)
include hbase

lemma matchRateRequired_buyer (hbuyer : x.isBuyer = true) :
    x.matchRateRequired a 0 = min x.netRateRequired (divide (requiredDividend x a) a 0) := by
  simp only [Xreq.matchRateRequired, requiredDividend, Xreq.rateSign_buyer hbuyer, if_neg (ne_zero_of_pos ha), hbase,
    applySign_zero, add_zero]
  generalize divide (add (multiply a x.netRateRequired 0) (applySign (-1) x.quoteCosts) 0 false) a 0 = r
  rcases le_or_gt r x.netRateRequired with hle | hlt
  · rw [if_neg (by simp [hle.not_gt]), min_eq_right hle]
  · rw [if_pos (by simp [hlt]), min_eq_left hlt.le]

lemma matchRateRequired_seller (hseller : x.isBuyer = false) :
    x.matchRateRequired a 0 = Max.max x.netRateRequired (divide (requiredDividend x a) a 0) := by
  simp only [Xreq.matchRateRequired, requiredDividend, Xreq.rateSign_seller hseller, if_neg (ne_zero_of_pos ha), hbase,
    applySign_zero, add_zero]
  generalize divide (add (multiply a x.netRateRequired 0) (applySign 1 x.quoteCosts) 0 false) a 0 = r
  rcases le_or_gt x.netRateRequired r with hle | hlt
  · rw [if_neg (by simp [hle.not_gt]), max_eq_right hle]
  · rw [if_pos (by simp [hlt]), max_eq_left hlt.le]

end Required

lemma val_min (p q : UniFloat) : (min p q).val = min p.val q.val := by
  rcases le_total p q with h | h
  · rw [min_eq_left h, min_eq_left (le_iff.1 h)]
  · rw [min_eq_right h, min_eq_right (le_iff.1 h)]

lemma val_max_eq (p q : UniFloat) : (Max.max p q).val = Max.max p.val q.val := by
  rcases le_total p q with h | h
  · rw [max_eq_right h, max_eq_right (le_iff.1 h)]
  · rw [max_eq_left h, max_eq_left (le_iff.1 h)]

section Compare
variable {x : Xreq} (hx : WireRequest x) {a : UniFloat} (ha : 0 < a.val) {n : ℕ} (hn : IsRate n)
include hx ha hn

lemma exactBelow_iff : ExactBelow (requiredQuote x a.val) a.val n ↔ (divide (requiredDividend x a) a 0).val ≤ n :=
  (divide_le_iff_exact ha hn (requiredDividend_val hx ha)).symm

lemma exactReaches_iff : ExactReaches (requiredQuote x a.val) a.val n ↔ n ≤ (divide (requiredDividend x a) a 0).val :=
  (le_divide_iff_exact ha hn (requiredDividend_val hx ha)).symm

/-- The rate that a buyer requires is the smaller one of its net rate and the quotient. -/
lemma buyer_le_iff (hbuyer : x.isBuyer = true) : (x.matchRateRequired a 0).val ≤ n ↔
    x.netRateRequired.val.natAbs ≤ n ∨ ExactBelow (requiredQuote x a.val) a.val n := by
  rw [matchRateRequired_buyer ha hx.baseCosts hbuyer, val_min, min_le_iff, exactBelow_iff hx ha hn,
    natAbs_le_iff hx.rateFloat.pos]

lemma le_buyer_iff (hbuyer : x.isBuyer = true) (hle : n ≤ x.netRateRequired.val.natAbs) :
    n ≤ (x.matchRateRequired a 0).val ↔ ExactReaches (requiredQuote x a.val) a.val n := by
  rw [matchRateRequired_buyer ha hx.baseCosts hbuyer, val_min, le_min_iff, exactReaches_iff hx ha hn,
    ← le_natAbs_iff hx.rateFloat.pos, and_iff_right hle]

/-- The rate that a seller requires is the larger one. -/
lemma le_seller_iff (hseller : x.isBuyer = false) : n ≤ (x.matchRateRequired a 0).val ↔
    n ≤ x.netRateRequired.val.natAbs ∨ ExactReaches (requiredQuote x a.val) a.val n := by
  rw [matchRateRequired_seller ha hx.baseCosts hseller, val_max_eq, le_max_iff, exactReaches_iff hx ha hn,
    le_natAbs_iff hx.rateFloat.pos]

lemma seller_le_iff (hseller : x.isBuyer = false) (hle : x.netRateRequired.val.natAbs ≤ n) :
    (x.matchRateRequired a 0).val ≤ n ↔ ExactBelow (requiredQuote x a.val) a.val n := by
  rw [matchRateRequired_seller ha hx.baseCosts hseller, val_max_eq, max_le_iff, exactBelow_iff hx ha hn,
    ← natAbs_le_iff hx.rateFloat.pos, and_iff_right hle]

end Compare

lemma matchRateRequired_is52 {x : Xreq} (hx : WireRequest x) {a : UniFloat} (ha : 0 < a.val) :
    (x.matchRateRequired a 0).val.natAbs = dblMax ∨ Is52 (x.matchRateRequired a 0).val.natAbs := by
  unfold Xreq.matchRateRequired
  simp only [if_neg (ne_zero_of_pos ha)]
  split_ifs
  · exact Or.inr hx.rateFloat.rate.bits
  · exact divide_is52 _ ha

lemma isRateFloat_of_between {x : Xreq} (hx : WireRequest x) {a : UniFloat} (ha : 0 < a.val)
    {n m : UniFloat} (hn : IsRateFloat n) (hm : IsRateFloat m) (hlow : n ≤ x.matchRateRequired a 0)
    (hhigh : x.matchRateRequired a 0 ≤ m) : IsRateFloat (x.matchRateRequired a 0) := by
  rw [le_iff] at hlow hhigh
  have h1 := hn.rate.large
  have h2 := hm.rate.finite
  have h3 := hn.pos
  refine ⟨by omega, by omega, by omega, ?_⟩
  rcases matchRateRequired_is52 hx ha with h | h
  · omega
  · exact h

/-- `n` whole coins. -/
def coins (n : ℕ) : ℕ := n * 10^27

end CredaCash.Exchange
