import CredaCash.Exchange.MatchRate
import CredaCash.UniFloat.Limits

/-! What matching promises about net rates at the match rate. -/

namespace CredaCash.Exchange
open UniFloat Rounding

/-- `CheckMatch` accepts a pair whose rates meet. -/
def RatesMeet (buyer seller : Xreq) (a : UniFloat) : Prop := seller.matchRateRequired a 0 ≤ buyer.matchRateRequired a 0

/-- The match rate of a buyer and a seller that both recompute their rates at one amount. -/
def rateAt (buyer seller : Xreq) (a : UniFloat) : UniFloat :=
  average (buyer.matchRateRequired a 0) (seller.matchRateRequired a 0) 0

/-- The net rates that matching promises to a pair it accepts without a hold. -/
def KeepsNetRates (buyer seller : Xreq) (a : UniFloat) : Prop :=
  buyer.netRate a (rateAt buyer seller a) 0 ≤ buyer.netRateRequired ∧
    seller.netRateRequired ≤ seller.netRate a (rateAt buyer seller a) 0

instance (buyer seller : Xreq) (a : UniFloat) : Decidable (RatesMeet buyer seller a) :=
  inferInstanceAs (Decidable (_ ≤ _))

instance (buyer seller : Xreq) (a : UniFloat) : Decidable (KeepsNetRates buyer seller a) :=
  inferInstanceAs (Decidable (_ ∧ _))

/-- The rates below it lead to a net rate of at most `n`, for an amount `a` and the quote costs `c` as the net rate
takes them into account. -/
def netRateLimit (a n : ℕ) (c : ℤ) : ℕ :=
  let q := quotientLimit a n
  let p := sumLimit (floor52 q) c
  if dblMax ≤ q ∨ dblMax < p then dblMax + 1
  else if p = 0 then 0
  else productBound (floor52 (p - 1)) ⌈/⌉ a

/-- The rate that a buyer requires for an amount `a` is at most `r`: it is the smaller one of its net rate and the
rounded quotient. -/
def BuyerWithin (x : Xreq) (a : ℤ) (r : ℕ) : Prop :=
  x.netRateRequired.val.natAbs ≤ r ∨ ExactBelow (requiredQuote x a) a r

/-- The rate that a seller requires is the larger one. -/
def SellerWithin (x : Xreq) (a : ℤ) (r : ℕ) : Prop :=
  x.netRateRequired.val.natAbs ≤ r ∧ ExactBelow (requiredQuote x a) a r

/-- The mean of the rates that both sides require is rounded to less than `t`. It lies between their net rates. -/
def MeanBelow (buyer seller : Xreq) (a : ℤ) (t : ℕ) : Prop :=
  buyer.netRateRequired.val.natAbs < t ∨
  seller.netRateRequired.val.natAbs < t ∧ ∃ b s, IsRate b ∧ IsRate s ∧ BuyerWithin buyer a b ∧ SellerWithin seller a s ∧
    2^64*(s + b) + 2^(bitLength b + 1) < 2^63*(4*floor52 (t - 1) + slackAbove (floor52 (t - 1)))

/-- The mean is below the rates at which the buyer would pay more than its net rate, and not below those at which the
seller would get less than its own. -/
def MeanWithinLimits (buyer seller : Xreq) (a : ℤ) : Prop :=
  MeanBelow buyer seller a
    (netRateLimit a.natAbs buyer.netRateRequired.val.natAbs buyer.quoteCosts.val) ∧
  ¬MeanBelow buyer seller a
    (netRateLimit a.natAbs (floor52 (seller.netRateRequired.val.natAbs - 1)) (-seller.quoteCosts.val))

theorem netRate_le_iff_limit {a m c : UniFloat} {n : ℕ} (ha : 0 < a.val) (hm : 0 < m.val)
    (hc : 2^excess 22 c.val.natAbs ∣ c.val.natAbs) (hn : IsRate n) :
    (divide (add (multiply a m 0) c 0 false) a 0).val ≤ n ↔ m.val.natAbs < netRateLimit a.val.natAbs n c.val := by
  have hprod := multiply_val ha hm
  have hprod52 : Rounded (multiply a m 0).val.natAbs := by
    rw [hprod, Int.natAbs_natCast]
    exact store_is52 _ _
  have hprod0 : 0 ≤ (multiply a m 0).val := by
    rw [hprod]
    exact Int.natCast_nonneg _
  have hc52 : Is52 c.val.natAbs := (pow_dvd_pow 2 (by unfold excess; omega)).trans hc
  have hsum52 := add_rounded hprod52 (.inr hc52)
  have hmax : m.val.natAbs < dblMax + 1 := Nat.lt_add_one_iff.2 m.isDouble.1
  have hmul := @multiply_le_iff_limit a m
  rw [divide_le_iff_limit ha hn, netRateLimit]
  generalize quotientLimit a.val.natAbs n = q
  rcases le_or_gt dblMax q with hq | hq
  · rw [if_pos (.inl hq)]
    exact iff_of_true ((val_le_dblMax _).trans (Int.ofNat_le.2 hq)) hmax
  have hfloor : floor52 q < dblMax := (Nat.div_mul_le_self _ _).trans_lt hq
  rw [val_le_floor52_iff hsum52 hq, add_le_iff_limit hprod0 hprod52 hc (is52_floor52 q) hfloor]
  generalize sumLimit (floor52 q) c.val = p
  rcases lt_or_ge dblMax p with hp | hp
  · rw [if_pos (.inr hp)]
    exact iff_of_true ((val_le_dblMax _).trans_lt (Int.ofNat_lt.2 hp)) hmax
  rw [if_neg (not_or.2 ⟨hq.not_ge, hp.not_gt⟩)]
  rcases Nat.eq_zero_or_pos p with rfl | hpos
  · rw [if_pos rfl]
    exact iff_of_false hprod0.not_gt (Nat.not_lt_zero _)
  · have hlast : p - 1 < dblMax := lt_of_lt_of_le (Nat.sub_lt hpos one_pos) hp
    have hfloor' : floor52 (p - 1) < dblMax := (Nat.div_mul_le_self _ _).trans_lt hlast
    have hlt : (multiply a m 0).val < p ↔ (multiply a m 0).val ≤ (p - 1 : ℕ) := by
      rw [Nat.cast_pred hpos]
      exact Int.le_sub_one_iff.symm
    rw [if_neg hpos.ne', hlt, val_le_floor52_iff hprod52 hlast, hmul ha hm (is52_floor52 _) hfloor']

section Wire

lemma dvd_mul_pow {p m : ℕ} (h : m < 2^p) (k : ℕ) : 2^excess p (m * 2^k) ∣ m * 2^k := by
  rcases Nat.eq_zero_or_pos m with rfl | hpos
  · rw [zero_mul]
    exact Nat.dvd_zero _
  · have hlen := bitLength_le_iff.2 h
    refine (pow_dvd_pow 2 ?_).mul_left m
    rw [excess, bitLength_mul_pow hpos]
    omega

/-- Costs from the wire have 22 bits. -/
lemma dvd_of_wire {c : UniFloat} (h : IsWire c) : 2^excess 22 c.val.natAbs ∣ c.val.natAbs := by
  obtain ⟨v, hv, rfl⟩ := h
  rcases Nat.eq_zero_or_pos v with rfl | hpos
  · exact Nat.dvd_zero _
  · have hmod := Nat.mod_lt v (by norm_num : 0 < 2^21)
    rw [wireDecode_val hpos.ne' hv, Int.natAbs_natCast]
    exact dvd_mul_pow (by omega) _

/-- The number of 52 bits before a rate from the wire is a rate, too. -/
lemma isRate_pred_of_wire {r : UniFloat} (h : IsWire r) (hpos : 0 < r.val) : IsRate (floor52 (r.val.natAbs - 1)) := by
  have hr := (isRateFloat_of_wire h hpos).rate
  obtain ⟨v, hv, rfl⟩ := h
  have hv0 : v ≠ 0 := by
    rintro rfl
    exact lt_irrefl _ hpos
  have hlarge : 2^50 + 2 ≤ (wireDecode v).val.natAbs := by
    rw [wireDecode_val hv0 hv, Int.natAbs_natCast]
    rcases Nat.eq_zero_or_pos (v / 2^21) with hzero | hexp
    · rw [hzero]
      omega
    · calc 2^50 + 2 ≤ 2^21 * 2^30 := by norm_num
        _ ≤ (v % 2^21 + 2^21) * 2^(v / 2^21 + 29) :=
          Nat.mul_le_mul (Nat.le_add_left _ _) (Nat.pow_le_pow_right (by norm_num) (by omega))
  have hnext : 2^50 + 1 ≤ floor52 ((wireDecode v).val.natAbs - 1) :=
    (le_floor52_iff (is52_of_le (by norm_num))).2 (by omega)
  refine ⟨hnext, lt_of_le_of_lt (Nat.div_mul_le_self _ _) (lt_of_le_of_lt (Nat.sub_le _ _) hr.finite), is52_floor52 _⟩

end Wire

section Accepted
variable {buyer seller : Xreq} (hb : WireRequest buyer) (hs : WireRequest seller) (hbuyer : buyer.isBuyer = true)
  (hseller : seller.isBuyer = false) {a : UniFloat} (ha : 0 < a.val) (hmeet : RatesMeet buyer seller a)
include hb hs hbuyer hseller ha hmeet

lemma required_rateFloats :
    IsRateFloat (buyer.matchRateRequired a 0) ∧ IsRateFloat (seller.matchRateRequired a 0) := by
  have hlow := Xreq.le_matchRateRequired hseller (ne_zero_of_pos ha) 0
  have hhigh := Xreq.matchRateRequired_le hbuyer (ne_zero_of_pos ha) 0
  exact ⟨isRateFloat_of_between hb ha hs.rateFloat hb.rateFloat (hlow.trans hmeet) hhigh,
    isRateFloat_of_between hs ha hs.rateFloat hb.rateFloat hlow (LE.le.trans hmeet hhigh)⟩

lemma meanBelow_iff (t : ℕ) : MeanBelow buyer seller a.val t ↔ (rateAt buyer seller a).val.natAbs < t := by
  obtain ⟨hB, hS⟩ := required_rateFloats hb hs hbuyer hseller ha hmeet
  obtain ⟨hlow, hhigh⟩ := average_between hS hB hmeet
  have hm : 0 < (rateAt buyer seller a).val := lt_of_lt_of_le hS.pos hlow
  have hNs := natAbs_le hs.rateFloat.pos ((Xreq.le_matchRateRequired hseller (ne_zero_of_pos ha) 0).trans hlow)
  have hNb := natAbs_le hm (hhigh.trans (Xreq.matchRateRequired_le hbuyer (ne_zero_of_pos ha) 0))
  rcases lt_or_ge buyer.netRateRequired.val.natAbs t with hover | hbt
  · exact iff_of_true (.inl hover) (hNb.trans_lt hover)
  rcases lt_or_ge seller.netRateRequired.val.natAbs t with hst | hunder
  swap
  · refine iff_of_false ?_ (hunder.trans hNs).not_gt
    rintro (h | ⟨h, -⟩)
    · exact hbt.not_gt h
    · exact hunder.not_gt h
  have hr : IsRate (floor52 (t - 1)) := hs.rateFloat.rate.between hb.rateFloat.rate
    ((le_floor52_iff hs.rateFloat.rate.bits).2 (by omega)) ((Nat.div_mul_le_self _ _).trans (by omega)) (is52_floor52 _)
  have hlast : t - 1 < dblMax := (Nat.sub_le _ _).trans_lt (hbt.trans_lt hb.rateFloat.rate.finite)
  have hround : Rounded (rateAt buyer seller a).val.natAbs := by
    rw [rateAt, average_val hB.pos hS.pos hB.rate.bits hS.rate.bits, Int.natAbs_natCast]
    exact store_is52 _ _
  have hlt : (rateAt buyer seller a).val.natAbs < t ↔ (rateAt buyer seller a).val ≤ floor52 (t - 1) := by
    rw [← val_le_floor52_iff hround hlast]
    clear hlast hr
    omega
  rw [hlt, rateAt, average_le_iff_exact hS hB hmeet hr]
  constructor
  · rintro (h | ⟨-, b, s, hrb, hrs, hbw, hsw, hmean⟩)
    · exact absurd h hbt.not_gt
    have hBb := (natAbs_le_iff hB.pos).2 ((buyer_le_iff hb ha hrb hbuyer).2 hbw)
    have hSs := (natAbs_le_iff hS.pos).2 ((seller_le_iff hs ha hrs hseller hsw.1).2 hsw.2)
    refine lt_of_le_of_lt (Nat.add_le_add ?_ ?_) hmean
    · exact Nat.mul_le_mul_left _ (Nat.add_le_add hSs hBb)
    · exact Nat.pow_le_pow_right (by norm_num) (Nat.add_le_add_right (bitLength_mono hBb) 1)
  · intro h
    have hsN := natAbs_le hs.rateFloat.pos (Xreq.le_matchRateRequired hseller (ne_zero_of_pos ha) 0)
    exact .inr ⟨hst, _, _, hB.rate, hS.rate, (buyer_le_iff hb ha hB.rate hbuyer).1 (natCast_natAbs hB.pos).ge,
      ⟨hsN, (seller_le_iff hs ha hS.rate hseller hsN).1 (natCast_natAbs hS.pos).ge⟩, h⟩

end Accepted

/-- An accepted pair keeps both net rates exactly when the mean of the exact required rates is within the limits. -/
theorem keepsNetRates_iff (buyer seller : Xreq) (hb : WireRequest buyer) (hs : WireRequest seller)
    (hbuyer : buyer.isBuyer = true) (hseller : seller.isBuyer = false) (a : UniFloat) (ha : 0 < a.val)
    (hmeet : RatesMeet buyer seller a) :
    KeepsNetRates buyer seller a ↔ MeanWithinLimits buyer seller a.val := by
  have hne := ne_zero_of_pos ha
  have hm : 0 < (rateAt buyer seller a).val := by
    obtain ⟨hB, hS⟩ := required_rateFloats hb hs hbuyer hseller ha hmeet
    exact lt_of_lt_of_le hS.pos (average_between hS hB hmeet).1
  have hpred := isRate_pred_of_wire hs.rate hs.ratePos
  have hNs := hs.rateFloat.rate
  unfold KeepsNetRates MeanWithinLimits
  rw [Xreq.netRate_eq hb.baseCosts hne, Xreq.netRate_eq hs.baseCosts hne]
  refine and_congr ?_ ?_
  · have hlimit := netRate_le_iff_limit ha hm (dvd_of_wire hb.quoteCosts) hb.rateFloat.rate
    rw [meanBelow_iff hb hs hbuyer hseller ha hmeet, ← hlimit, natCast_natAbs hb.rateFloat.pos, le_iff, Xreq.totalQuote,
      Xreq.rateSign_buyer hbuyer]
    rfl
  · have hcosts : 2^excess 22 (-seller.quoteCosts).val.natAbs ∣ (-seller.quoteCosts).val.natAbs := by
      rw [val_neg, Int.natAbs_neg]
      exact dvd_of_wire hs.quoteCosts
    have hlimit := netRate_le_iff_limit ha hm hcosts hpred
    have hquote : seller.totalQuote a (rateAt buyer seller a) =
        add (multiply a (rateAt buyer seller a) 0) (-seller.quoteCosts) 0 false := by
      rw [Xreq.totalQuote, Xreq.rateSign_seller hseller]
      rfl
    have hlast : seller.netRateRequired.val.natAbs - 1 < dblMax := (Nat.sub_le _ _).trans_lt hNs.finite
    have hpos := hs.rateFloat.pos
    rw [← hquote, ← val_le_floor52_iff (divide_is52 _ ha) hlast, val_neg] at hlimit
    rw [meanBelow_iff hb hs hbuyer hseller ha hmeet, ← hlimit, le_iff]
    clear hlast hNs hpred
    omega

/-- A buyer at `3706809 * 2^-41` with costs of `2^-7`. -/
def costlyBuyer : Xreq :=
  { type := .simpleBuy, netRateRequired := wireDecode (1004 * 2^21 + 1609657),
    quoteCosts := wireDecode (1017 * 2^21) }

/-- A seller at `3706802 * 2^-41` without costs. -/
def cheapSeller : Xreq :=
  { type := .simpleSell, netRateRequired := wireDecode (1004 * 2^21 + 1609650) }

lemma costlyBuyer_wire : WireRequest costlyBuyer where
  rate := (isWire_wireDecode (by norm_num) : IsWire (wireDecode (1004 * 2^21 + 1609657)))
  ratePos := by decide +kernel
  quoteCosts := (isWire_wireDecode (by norm_num) : IsWire (wireDecode (1017 * 2^21)))
  baseCosts := rfl

lemma cheapSeller_wire : WireRequest cheapSeller where
  rate := (isWire_wireDecode (by norm_num) : IsWire (wireDecode (1004 * 2^21 + 1609650)))
  ratePos := by decide +kernel
  quoteCosts := isWire_zero
  baseCosts := rfl

lemma ratesMeet_largerAmount : RatesMeet costlyBuyer cheapSeller (roundingConv.asUniFloat (coins 2454268000)) := by
  decide +kernel

lemma meanWithinLimits_largerAmount :
    MeanWithinLimits costlyBuyer cheapSeller (roundingConv.asUniFloat (coins 2454268000)).val := by
  have hmean := meanBelow_iff costlyBuyer_wire cheapSeller_wire rfl rfl (by decide +kernel) ratesMeet_largerAmount
  exact ⟨(hmean _).2 (by decide +kernel), (hmean _).not.2 (by decide +kernel)⟩

theorem keepsNetRates_largerAmount :
    KeepsNetRates costlyBuyer cheapSeller (roundingConv.asUniFloat (coins 2454268000)) :=
  (keepsNetRates_iff costlyBuyer cheapSeller costlyBuyer_wire cheapSeller_wire rfl rfl
    (roundingConv.asUniFloat (coins 2454268000)) (by decide +kernel) ratesMeet_largerAmount).2 meanWithinLimits_largerAmount

/-- For 2454267026 coins the buyer and the seller require the same match rate, at which the
buyer's net rate is one unit in the last place above the one it accepts. -/
theorem netRate_exceeds_required :
    ¬ ∀ buyer seller : Xreq, buyer.isBuyer = true → seller.isBuyer = false → WireRequest buyer →
      WireRequest seller → ∀ a : UniFloat, 0 < a.val → RatesMeet buyer seller a → KeepsNetRates buyer seller a := by
  intro h
  have := h costlyBuyer cheapSeller rfl rfl costlyBuyer_wire cheapSeller_wire
    (roundingConv.asUniFloat (coins 2454267026)) (by decide +kernel) (by decide +kernel)
  exact absurd this (by decide +kernel)

end CredaCash.Exchange
