import CredaCash.Exchange.RequiredRate
import CredaCash.UniFloat.Mirror

/-! The match rate and the rates required at the full matching amounts: when it stays between them. -/

namespace CredaCash.Exchange
open UniFloat Rounding

/-- The matching columns of a row that the last matching pass left consistent. -/
structure MatchingRow (conv : AmountConv) (x : Xreq) : Prop where
  request : WireRequest x
  amount : 0 < x.matchingAmount
  rate : x.matchingRateRequired = x.matchRateRequired (conv.asUniFloat x.matchingAmount) 0

/-- Every match that `CheckMatch` finds has a rate between the two stored required rates. -/
def RateWithinRequired (conv : AmountConv) (buyer seller : Xreq) : Prop :=
  ∀ t, matchTerms conv buyer seller = some t →
    seller.matchingRateRequired ≤ t.matchRate ∧ t.matchRate ≤ buyer.matchingRateRequired

/-- For a smaller amount than its own a request may require another rate than the stored one. Where that rate still meets
the one that the other side has stored, it does not go beyond the mirror image of this one in its own stored rate. -/
def RecomputedRatesFit (conv : AmountConv) (buyer seller : Xreq) : Prop :=
  let b := buyer.matchingRateRequired.val.natAbs
  let s := seller.matchingRateRequired.val.natAbs
  (seller.matchingAmount < buyer.matchingAmount →
    let a := (conv.asUniFloat seller.matchingAmount).val
    ExactReaches (requiredQuote buyer a) a s →
      buyer.netRateRequired.val.natAbs ≤ mirrorAbove s b ∨ ExactBelow (requiredQuote buyer a) a (mirrorAbove s b)) ∧
  (buyer.matchingAmount < seller.matchingAmount →
    let a := (conv.asUniFloat buyer.matchingAmount).val
    ExactBelow (requiredQuote seller a) a b →
      mirrorBelow s b ≤ seller.netRateRequired.val.natAbs ∨ ExactReaches (requiredQuote seller a) a (mirrorBelow s b))

lemma average_between {x y : UniFloat} (hx : IsRateFloat x) (hy : IsRateFloat y) (h : x ≤ y) :
    x ≤ average y x 0 ∧ average y x 0 ≤ y := by
  rw [average_comm hy.pos hx.pos]
  exact ⟨le_average hx hy h, average_le hx hy h⟩

lemma average_self {x : UniFloat} (hx : IsRateFloat x) : average x x 0 = x :=
  le_antisymm (average_between hx hx le_rfl).2 (average_between hx hx le_rfl).1

instance (conv : AmountConv) (buyer seller : Xreq) : Decidable (RecomputedRatesFit conv buyer seller) :=
  inferInstanceAs (Decidable ((_ → _ → _ ∨ _) ∧ (_ → _ → _ ∨ _)))

section Mirrored
variable {x s b : UniFloat} (hx : IsRateFloat x) (hs : IsRateFloat s) (hb : IsRateFloat b)
include hx hs hb

/-- A rate goes beyond the mirror image of `s` just when the average with `s` passes `b`. -/
lemma average_le_iff_mirror (hsx : s ≤ x) :
    average x s 0 ≤ b ↔ x.val.natAbs ≤ mirrorAbove s.val.natAbs b.val.natAbs := by
  have hexact := average_le_iff_exact hs hx hsx hb.rate
  rw [natCast_natAbs hb.pos] at hexact
  rw [le_iff, hexact, le_mirrorAbove_iff hx.rate.bits (natAbs_pos_iff.2 hx.pos.ne')]

lemma le_average_iff_mirror (hxb : x ≤ b) :
    s ≤ average b x 0 ↔ mirrorBelow s.val.natAbs b.val.natAbs ≤ x.val.natAbs := by
  have hexact := le_average_iff_exact hx hb hxb hs.rate
  rw [natCast_natAbs hs.pos] at hexact
  rw [le_iff, hexact, mirrorBelow_le_iff hx.rate.bits]

end Mirrored

/-- The image of `s` in `b` is a rate unless it is beyond all rates. -/
lemma isRate_mirrorAbove {s b : UniFloat} (hs : IsRateFloat s) (hb : IsRateFloat b) (hsb : s ≤ b) {n : ℕ} (hn : IsRate n)
    (hlt : mirrorAbove s.val.natAbs b.val.natAbs ≤ n) : IsRate (mirrorAbove s.val.natAbs b.val.natAbs) := by
  have hself := (average_le_iff_mirror hs hs hb le_rfl).1 ((average_self hs).le.trans hsb)
  exact hs.rate.between hn hself hlt (is52_floor52 _)

lemma isRate_mirrorBelow {s b : UniFloat} (hs : IsRateFloat s) (hb : IsRateFloat b) (hsb : s ≤ b) {n : ℕ} (hn : IsRate n)
    (hlt : n ≤ mirrorBelow s.val.natAbs b.val.natAbs) : IsRate (mirrorBelow s.val.natAbs b.val.natAbs) := by
  have hself := (le_average_iff_mirror hs hs hb hsb).1 (average_between hs hb hsb).1
  exact hn.between hs.rate hlt hself (is52_ceil52 _)

section Within
variable {conv : AmountConv} {buyer seller : Xreq} (hb : MatchingRow conv buyer)
  (hs : MatchingRow conv seller) (hbuyer : buyer.isBuyer = true) (hseller : seller.isBuyer = false)
include hb hs hbuyer hseller

lemma buyer_rateFloat {a : UniFloat} (ha : 0 < a.val)
    (h : seller.matchingRateRequired ≤ buyer.matchRateRequired a 0) :
    IsRateFloat (buyer.matchRateRequired a 0) := by
  have hlow := Xreq.le_matchRateRequired hseller (ne_zero_of_pos (conv.asUniFloat_pos hs.amount)) 0
  rw [← hs.rate] at hlow
  exact isRateFloat_of_between hb.request ha hs.request.rateFloat hb.request.rateFloat
    (hlow.trans h) (Xreq.matchRateRequired_le hbuyer (ne_zero_of_pos ha) 0)

lemma seller_rateFloat {a : UniFloat} (ha : 0 < a.val)
    (h : seller.matchRateRequired a 0 ≤ buyer.matchingRateRequired) :
    IsRateFloat (seller.matchRateRequired a 0) := by
  have hhigh := Xreq.matchRateRequired_le hbuyer (ne_zero_of_pos (conv.asUniFloat_pos hb.amount)) 0
  rw [← hb.rate] at hhigh
  exact isRateFloat_of_between hs.request ha hs.request.rateFloat hb.request.rateFloat
    (Xreq.le_matchRateRequired hseller (ne_zero_of_pos ha) 0) (h.trans hhigh)

variable (hpre : seller.matchingRateRequired ≤ buyer.matchingRateRequired)
include hpre

lemma stored_rateFloats :
    IsRateFloat buyer.matchingRateRequired ∧ IsRateFloat seller.matchingRateRequired := by
  constructor
  · have h := hpre
    rw [hb.rate] at h ⊢
    exact buyer_rateFloat hb hs hbuyer hseller (conv.asUniFloat_pos hb.amount) h
  · have h := hpre
    rw [hs.rate] at h ⊢
    exact seller_rateFloat hb hs hbuyer hseller (conv.asUniFloat_pos hs.amount) h

lemma stored_le_netRate : buyer.matchingRateRequired.val.natAbs ≤ buyer.netRateRequired.val.natAbs ∧
    seller.netRateRequired.val.natAbs ≤ seller.matchingRateRequired.val.natAbs := by
  obtain ⟨hB, hS⟩ := stored_rateFloats hb hs hbuyer hseller hpre
  refine ⟨natAbs_le hB.pos ?_, natAbs_le hs.request.rateFloat.pos ?_⟩
  · rw [hb.rate]
    exact Xreq.matchRateRequired_le hbuyer (ne_zero_of_pos (conv.asUniFloat_pos hb.amount)) 0
  · rw [hs.rate]
    exact Xreq.le_matchRateRequired hseller (ne_zero_of_pos (conv.asUniFloat_pos hs.amount)) 0

/-- Seller's amount is the smaller one, so the buyer's rate is recomputed. -/
lemma rateWithin_iff_of_seller_lt (hlt : seller.matchingAmount < buyer.matchingAmount) :
    RateWithinRequired conv buyer seller ↔ RecomputedRatesFit conv buyer seller := by
  have hpos := conv.asUniFloat_pos hs.amount
  obtain ⟨hB, hS⟩ := stored_rateFloats hb hs hbuyer hseller hpre
  have hbase : buyer.baseCosts < conv.asUniFloat seller.matchingAmount := by
    rw [hb.request.baseCosts]
    exact hpos
  have hSn := (natAbs_le hS.pos hpre).trans (stored_le_netRate hb hs hbuyer hseller hpre).1
  have hreach := le_buyer_iff hb.request hpos hS.rate hbuyer hSn
  rw [natCast_natAbs hS.pos] at hreach
  simp only [RateWithinRequired, RecomputedRatesFit, matchTerms_of_seller_lt hlt hbase, hlt, hlt.not_gt,
    forall_true_left, IsEmpty.forall_iff, and_true, ← hreach]
  by_cases hcross : buyer.matchRateRequired (conv.asUniFloat seller.matchingAmount) 0 <
      seller.matchingRateRequired
  · simp [hcross, le_iff.not.1 hcross.not_ge]
  · have hle := not_lt.1 hcross
    have hb' := buyer_rateFloat hb hs hbuyer hseller hpos hle
    simp only [if_neg hcross, Option.some.injEq, forall_eq', MatchTerms.matchRate, le_iff.1 hle, forall_true_left]
    rw [and_iff_right (average_between hS hb' hle).1, average_le_iff_mirror hb' hS hB hle, natAbs_le_iff hb'.pos]
    rcases le_or_gt buyer.netRateRequired.val.natAbs
      (mirrorAbove seller.matchingRateRequired.val.natAbs buyer.matchingRateRequired.val.natAbs) with hnet | hnet
    · refine iff_of_true (le_trans ?_ ((natAbs_le_iff hb.request.rateFloat.pos).1 hnet)) (.inl hnet)
      exact Xreq.matchRateRequired_le hbuyer (ne_zero_of_pos hpos) 0
    · exact buyer_le_iff hb.request hpos (isRate_mirrorAbove hS hB hpre hb.request.rateFloat.rate hnet.le) hbuyer

/-- Buyer's amount is the smaller one, so the seller's rate is recomputed. -/
lemma rateWithin_iff_of_buyer_lt (hlt : buyer.matchingAmount < seller.matchingAmount) :
    RateWithinRequired conv buyer seller ↔ RecomputedRatesFit conv buyer seller := by
  have hpos := conv.asUniFloat_pos hb.amount
  obtain ⟨hB, hS⟩ := stored_rateFloats hb hs hbuyer hseller hpre
  have hnB := (stored_le_netRate hb hs hbuyer hseller hpre).2.trans (natAbs_le hS.pos hpre)
  have hbelow := seller_le_iff hs.request hpos hB.rate hseller hnB
  rw [natCast_natAbs hB.pos] at hbelow
  simp only [RateWithinRequired, RecomputedRatesFit, matchTerms_of_buyer_lt hlt, hlt, hlt.not_gt, forall_true_left,
    IsEmpty.forall_iff, true_and, ← hbelow]
  by_cases hcross : buyer.matchingRateRequired <
      seller.matchRateRequired (conv.asUniFloat buyer.matchingAmount) 0
  · simp [hcross, le_iff.not.1 hcross.not_ge]
  · have hle := not_lt.1 hcross
    have hs' := seller_rateFloat hb hs hbuyer hseller hpos hle
    simp only [if_neg hcross, Option.some.injEq, forall_eq', MatchTerms.matchRate, le_iff.1 hle, forall_true_left]
    rw [and_iff_left (average_between hs' hB hle).2, le_average_iff_mirror hs' hS hB hle, le_natAbs_iff hs'.pos]
    rcases le_or_gt (mirrorBelow seller.matchingRateRequired.val.natAbs buyer.matchingRateRequired.val.natAbs)
      seller.netRateRequired.val.natAbs with hnet | hnet
    · refine iff_of_true (((le_natAbs_iff hs.request.rateFloat.pos).1 hnet).trans ?_) (.inl hnet)
      exact Xreq.le_matchRateRequired hseller (ne_zero_of_pos hpos) 0
    · exact le_seller_iff hs.request hpos (isRate_mirrorBelow hS hB hpre hs.request.rateFloat.rate hnet.le) hseller

end Within

/-- The match rate stays inside both stored rates exactly when the recomputed rates meet them. -/
theorem rateWithinRequired_iff (conv : AmountConv) (buyer seller : Xreq) (hb : MatchingRow conv buyer)
    (hs : MatchingRow conv seller) (hbuyer : buyer.isBuyer = true) (hseller : seller.isBuyer = false)
    (hpre : seller.matchingRateRequired ≤ buyer.matchingRateRequired) :
    RateWithinRequired conv buyer seller ↔ RecomputedRatesFit conv buyer seller := by
  rcases lt_trichotomy seller.matchingAmount buyer.matchingAmount with hlt | heq | hgt
  · exact rateWithin_iff_of_seller_lt hb hs hbuyer hseller hpre hlt
  · obtain ⟨hB, hS⟩ := stored_rateFloats hb hs hbuyer hseller hpre
    simp only [RateWithinRequired, RecomputedRatesFit, matchTerms_of_eq heq, heq, lt_irrefl,
      IsEmpty.forall_iff, and_self, iff_true, Option.some.injEq, forall_eq', MatchTerms.matchRate]
    exact average_between hS hB hpre
  · exact rateWithin_iff_of_buyer_lt hb hs hbuyer hseller hpre hgt

/-- The row of a request at a given matching amount. -/
def atAmount (conv : AmountConv) (x : Xreq) (n : ℕ) : Xreq :=
  { x with matchingAmount := n, matchingRateRequired := x.matchRateRequired (conv.asUniFloat n) 0 }

lemma matchingRow_atAmount (conv : AmountConv) {x : Xreq} (hx : WireRequest x) {n : ℕ} (hn : 0 < n) :
    MatchingRow conv (atAmount conv x n) :=
  ⟨⟨hx.rate, hx.ratePos, hx.quoteCosts, hx.baseCosts⟩, hn, rfl⟩

/-- A buyer at `4080042 * 2^-41` without costs. -/
def freeBuyer : Xreq :=
  { type := .simpleBuy, netRateRequired := wireDecode (1004 * 2^21 + 1982890) }

/-- A seller at `4080033 * 2^-41` with costs of `2^-7`. -/
def costlySeller : Xreq :=
  { type := .simpleSell, netRateRequired := wireDecode (1004 * 2^21 + 1982881),
    quoteCosts := wireDecode (1017 * 2^21) }

lemma freeBuyer_wire : WireRequest freeBuyer where
  rate := (isWire_wireDecode (by norm_num) : IsWire (wireDecode (1004 * 2^21 + 1982890)))
  ratePos := by decide +kernel
  quoteCosts := isWire_zero
  baseCosts := rfl

lemma costlySeller_wire : WireRequest costlySeller where
  rate := (isWire_wireDecode (by norm_num) : IsWire (wireDecode (1004 * 2^21 + 1982881)))
  ratePos := by decide +kernel
  quoteCosts := (isWire_wireDecode (by norm_num) : IsWire (wireDecode (1017 * 2^21)))
  baseCosts := rfl

theorem rateWithinRequired_smallerAmount :
    RateWithinRequired roundingConv (atAmount roundingConv freeBuyer (coins 41235676482))
      (atAmount roundingConv costlySeller (coins 1908874355)) :=
  (rateWithinRequired_iff roundingConv _ _ (matchingRow_atAmount _ freeBuyer_wire (by decide))
    (matchingRow_atAmount _ costlySeller_wire (by decide)) rfl rfl (by decide +kernel)).2 (by decide +kernel)

lemma matchTerms_isSome_smallerAmount :
    (matchTerms roundingConv (atAmount roundingConv freeBuyer (coins 41235676482))
      (atAmount roundingConv costlySeller (coins 1908874354))).isSome = true := by
  decide +kernel

/-- The buyer's rate for 1908874354 coins is above its stored rate for 41235676482 coins, and the
average with the seller's rate is rounded up to it. -/
theorem matchRate_above_required :
    ¬ ∀ (conv : AmountConv) (buyer seller : Xreq), MatchingRow conv buyer → MatchingRow conv seller →
      buyer.isBuyer = true → seller.isBuyer = false →
      seller.matchingRateRequired ≤ buyer.matchingRateRequired →
      RateWithinRequired conv buyer seller := by
  intro h
  have hwithin := h roundingConv (atAmount roundingConv freeBuyer (coins 41235676482))
    (atAmount roundingConv costlySeller (coins 1908874354))
    (matchingRow_atAmount _ freeBuyer_wire (by decide))
    (matchingRow_atAmount _ costlySeller_wire (by decide)) rfl rfl (by decide +kernel)
  have hrate := (hwithin _ (Option.some_get matchTerms_isSome_smallerAmount).symm).2
  exact absurd hrate (by decide +kernel)

end CredaCash.Exchange
