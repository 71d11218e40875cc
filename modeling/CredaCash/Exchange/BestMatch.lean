import CredaCash.Exchange.RoundSteps
import CredaCash.Selection
import Mathlib.Data.Prod.Lex
import Mathlib.Order.WithBot
import Mathlib.Order.OrderDual

/-! The best potential match of a request does not depend on the order in which its counterparties are evaluated. -/

namespace CredaCash.Exchange
open UniFloat Checks

/-- The columns of a request that store its best match. -/
structure BestMatch where
  amount : ℕ
  rate : UniFloat
  netRate : UniFloat
  otherSeqnum : ℕ
  otherXreqnum : ℕ
  otherMatchingAmount : ℕ
  otherNetRate : UniFloat
  deriving DecidableEq

def bestMatch (x : Xreq) : BestMatch where
  amount := x.bestAmount
  rate := x.bestRate
  netRate := x.bestNetRate
  otherSeqnum := x.bestOtherSeqnum
  otherXreqnum := x.bestOtherXreqnum
  otherMatchingAmount := x.bestOtherMatchingAmount
  otherNetRate := x.bestOtherNetRate

/-- A counterparty with what `CheckMatch` computes for it and a request. -/
structure Counterparty where
  other : Xreq
  amount : ℕ
  rate : UniFloat
  hold : Bool
  selfNetRate : UniFloat
  otherNetRate : UniFloat

namespace Counterparty

/-- Returns true if the counterparty is better than the current best match. -/
def isBetter (self : Xreq) (c : Counterparty) : Bool := compareRates self c.selfNetRate c.other c.otherNetRate c.amount

/-- The request with the counterparty as its best match. -/
def set (self : Xreq) (c : Counterparty) : Xreq :=
  setMatch c.amount c.rate c.hold self c.selfNetRate c.other c.otherNetRate

/-- What `CheckMatch` does with one of its sides. -/
def evaluate (self : Xreq) (c : Counterparty) : Xreq := if isBetter self c then set self c else self

def best (c : Counterparty) : BestMatch where
  amount := c.amount
  rate := c.rate
  netRate := c.selfNetRate
  otherSeqnum := c.other.seqnum
  otherXreqnum := c.other.xreqnum
  otherMatchingAmount := c.other.matchingAmount
  otherNetRate := c.otherNetRate

/-- The order of counterparties, the best first: by the net rate in the side's direction, the net rate of the other, the
larger amount, the larger matching amount of the other, and the smaller request number. -/
def precedence (isBuyer : Bool) (c : Counterparty) : UniFloat ×ₗ UniFloat ×ₗ ℕᵒᵈ ×ₗ ℕᵒᵈ ×ₗ ℕ :=
  toLex (if isBuyer then c.selfNetRate else -c.selfNetRate,
    toLex (if isBuyer then -c.otherNetRate else c.otherNetRate,
      toLex (OrderDual.toDual c.amount, toLex (OrderDual.toDual c.other.matchingAmount, c.other.xreqnum))))

end Counterparty

/-- The place of a request number; a request that is not in the blockchain has none, and comes last. -/
def xreqnumRank (xreqnum : ℕ) : WithTop ℕ := if xreqnum = 0 then ⊤ else xreqnum

/-- The order of all best matches, also of those with requests that have no number yet, which come last; no match is
the worst. -/
def BestMatch.rank (isBuyer : Bool) (b : BestMatch) :
    WithTop (UniFloat ×ₗ UniFloat ×ₗ ℕᵒᵈ ×ₗ ℕᵒᵈ ×ₗ WithTop ℕ ×ₗ ℕ) :=
  if b.amount = 0 then ⊤
  else (toLex (if isBuyer then b.netRate else -b.netRate,
    toLex (if isBuyer then -b.otherNetRate else b.otherNetRate,
      toLex (OrderDual.toDual b.amount, toLex (OrderDual.toDual b.otherMatchingAmount,
        toLex (xreqnumRank b.otherXreqnum, b.otherSeqnum))))) :
      UniFloat ×ₗ UniFloat ×ₗ ℕᵒᵈ ×ₗ ℕᵒᵈ ×ₗ WithTop ℕ ×ₗ ℕ)

section Lemmas
variable {self : Xreq} {c d : Counterparty} {cs cs' : List Counterparty}

lemma neg_lt_neg_uniFloat {a b : UniFloat} : -a < -b ↔ b < a := Int.neg_lt_neg_iff

lemma neg_inj_uniFloat {a b : UniFloat} : -a = -b ↔ a = b := by
  constructor
  · intro h
    exact UniFloat.ext (Int.neg_inj.1 (congrArg UniFloat.val h))
  · exact congrArg _

/-- One level of the cascade of `CompareRates`. -/
lemma level_iff {α β : Type*} [LinearOrder α] [LinearOrder β] {a a' : α} {b b' : β} {p : Prop} [Decidable p]
    {x y : Bool} (hlevel : (a ≠ a' ↔ p) ∧ (p → (x = true ↔ a < a'))) (hnext : y = true ↔ b < b') :
    (if p then x else y) = true ↔ toLex (a, b) < toLex (a', b') := by
  rw [Prod.Lex.toLex_lt_toLex]
  by_cases hp : p
  · rw [if_pos hp, hlevel.2 hp]
    simp [hlevel.1.2 hp]
  · have heq : a = a' := not_not.1 fun hne => hp (hlevel.1.1 hne)
    rw [if_neg hp, hnext]
    simp [heq]

/-- A side prefers a lower net rate when it buys, and a higher one when it sells. -/
lemma netRate_level {b : Bool} {r best : UniFloat} :
    ((if b then r else -r) ≠ (if b then best else -best) ↔ r ≠ best) ∧
      (r ≠ best → ((b ^^ decide (best < r)) = true ↔ (if b then r else -r) < (if b then best else -best))) := by
  cases b
  · refine ⟨not_congr neg_inj_uniFloat, fun _ => ?_⟩
    simp [neg_lt_neg_uniFloat]
  · refine ⟨Iff.rfl, fun hne => ?_⟩
    simp [hne.le_iff_lt]

/-- The net rate of the other side is preferred the other way. -/
lemma otherNetRate_level {b : Bool} {r best : UniFloat} :
    ((if b then -r else r) ≠ (if b then -best else best) ↔ r ≠ best) ∧
      (r ≠ best → ((b ^^ decide (r < best)) = true ↔ (if b then -r else r) < (if b then -best else best))) := by
  cases b
  · refine ⟨Iff.rfl, fun _ => ?_⟩
    simp
  · refine ⟨not_congr neg_inj_uniFloat, fun hne => ?_⟩
    simp [neg_lt_neg_uniFloat, hne.symm.le_iff_lt]

/-- A larger amount is preferred. -/
lemma larger_level {n best : ℕ} : (OrderDual.toDual n ≠ OrderDual.toDual best ↔ n ≠ best) ∧
    (n ≠ best → (decide (best < n) = true ↔ OrderDual.toDual n < OrderDual.toDual best)) :=
  ⟨Iff.rfl, fun _ => decide_eq_true_iff⟩

/-- A request without a number comes after all others. -/
lemma xreqnum_level {n best : ℕ} : (xreqnumRank n ≠ xreqnumRank best ↔ n ≠ best) ∧
    (n ≠ best → ((best = 0 ∨ n ≠ 0 ∧ n < best) ↔ xreqnumRank n < xreqnumRank best)) := by
  unfold xreqnumRank
  rcases Nat.eq_zero_or_pos n with rfl | hn
  · rcases Nat.eq_zero_or_pos best with rfl | hbest
    · simp
    · simp [hbest.ne', hbest.ne]
  · rcases Nat.eq_zero_or_pos best with rfl | hbest
    · simp [hn.ne']
    · simp [hn.ne', hbest.ne']

/-- `CompareRates` compares the ranks. -/
lemma isBetter_iff (hamount : c.amount ≠ 0) :
    c.isBetter self = true ↔ c.best.rank self.isBuyer < (bestMatch self).rank self.isBuyer := by
  have hbest : c.best.amount ≠ 0 := hamount
  unfold Counterparty.isBetter compareRates
  rw [BestMatch.rank, if_neg hbest, BestMatch.rank]
  by_cases hnull : self.bestAmount = 0
  · rw [if_pos hnull, if_pos (show (bestMatch self).amount = 0 from hnull)]
    exact ⟨fun _ => WithTop.coe_lt_top _, fun _ => rfl⟩
  · rw [if_neg hnull, if_neg (show (bestMatch self).amount ≠ 0 from hnull), WithTop.coe_lt_coe]
    refine level_iff netRate_level (level_iff otherNetRate_level (level_iff larger_level (level_iff larger_level
      (level_iff ?_ decide_eq_true_iff))))
    refine ⟨xreqnum_level.1, fun hne => ?_⟩
    rw [decide_eq_true_iff]
    exact xreqnum_level.2 hne

/-- The best match after the evaluation of a counterparty is the better one of two. -/
lemma bestMatch_evaluate (hamount : c.amount ≠ 0) :
    bestMatch (c.evaluate self) = Selection.better (BestMatch.rank self.isBuyer) (bestMatch self) c.best := by
  unfold Counterparty.evaluate Selection.better
  simp only [isBetter_iff hamount]
  split_ifs <;> rfl

lemma isBuyer_evaluate : (c.evaluate self).isBuyer = self.isBuyer := by
  unfold Counterparty.evaluate
  split_ifs <;> rfl

/-- The best match after the evaluation of some counterparties is the best of all. -/
lemma bestMatch_foldl (hamount : ∀ c ∈ cs, c.amount ≠ 0) : bestMatch (cs.foldl Counterparty.evaluate self) =
    (cs.map Counterparty.best).foldl (Selection.better (BestMatch.rank self.isBuyer)) (bestMatch self) := by
  induction cs generalizing self with
  | nil => rfl
  | cons c cs ih =>
    rw [List.foldl_cons, ih fun d hd => hamount d (List.mem_cons_of_mem _ hd), isBuyer_evaluate,
      bestMatch_evaluate (hamount c (List.mem_cons_self ..))]
    rfl

lemma toLex_lt_congr {α β γ : Type*} [LinearOrder α] [LinearOrder β] [LinearOrder γ] {a a' : α} {b b' : β} {c c' : γ}
    (h : b < b' ↔ c < c') : toLex (a, b) < toLex (a', b') ↔ toLex (a, c) < toLex (a', c') := by
  rw [Prod.Lex.toLex_lt_toLex, Prod.Lex.toLex_lt_toLex, h]

/-- Counterparties that are in the blockchain are ranked by their precedence. -/
lemma rank_lt_iff {b : Bool} (hc : c.amount ≠ 0) (hd : d.amount ≠ 0) (hnum : c.other.xreqnum ≠ 0)
    (hnum' : d.other.xreqnum ≠ 0) (hsame : c.other.xreqnum = d.other.xreqnum → c = d) :
    c.best.rank b < d.best.rank b ↔ c.precedence b < d.precedence b := by
  rw [BestMatch.rank, if_neg (show c.best.amount ≠ 0 from hc), BestMatch.rank,
    if_neg (show d.best.amount ≠ 0 from hd), WithTop.coe_lt_coe]
  refine toLex_lt_congr (toLex_lt_congr (toLex_lt_congr (toLex_lt_congr ?_)))
  have hrank : xreqnumRank c.other.xreqnum = (c.other.xreqnum : WithTop ℕ) := if_neg hnum
  have hrank' : xreqnumRank d.other.xreqnum = (d.other.xreqnum : WithTop ℕ) := if_neg hnum'
  dsimp only [Counterparty.best]
  rw [hrank, hrank', Prod.Lex.toLex_lt_toLex, Nat.cast_lt, Nat.cast_inj]
  constructor
  · rintro (hlt | ⟨heq, hlt⟩)
    · exact hlt
    · rw [hsame heq] at hlt
      exact absurd hlt (lt_irrefl _)
  · exact Or.inl

lemma best_set : bestMatch (c.set self) = c.best := rfl

lemma isBuyer_set : (c.set self).isBuyer = self.isBuyer := rfl

/-- Of two counterparties that are in the blockchain the better one is the one that precedes. -/
lemma isBetter_set_iff (hc : c.amount ≠ 0) (hd : d.amount ≠ 0) (hnum : c.other.xreqnum ≠ 0)
    (hnum' : d.other.xreqnum ≠ 0) (hsame : c.other.xreqnum = d.other.xreqnum → c = d) :
    c.isBetter (d.set self) = true ↔ c.precedence self.isBuyer < d.precedence self.isBuyer := by
  rw [isBetter_iff hc, best_set, isBuyer_set, rank_lt_iff hc hd hnum hnum' hsame]

/-- The precedence tells requests with different numbers apart. -/
lemma xreqnum_of_precedence {b : Bool} (h : c.precedence b = d.precedence b) : c.other.xreqnum = d.other.xreqnum := by
  simp only [Counterparty.precedence, toLex_inj, Prod.mk.injEq] at h
  exact h.2.2.2.2

/-- The counterparties of a request, all of them in the blockchain and with a different number. -/
structure Added (cs : List Counterparty) : Prop where
  nodup : (cs.map (·.other.xreqnum)).Nodup
  xreqnum : ∀ c ∈ cs, c.other.xreqnum ≠ 0
  /-- an assertion of `CheckMatch` -/
  amount : ∀ c ∈ cs, c.amount ≠ 0

lemma Added.eq (h : Added cs) (hc : c ∈ cs) (hd : d ∈ cs) (hnum : c.other.xreqnum = d.other.xreqnum) : c = d :=
  List.inj_on_of_nodup_map h.nodup hc hd hnum

lemma Added.isBetter_iff (h : Added cs) (hc : c ∈ cs) (hd : d ∈ cs) :
    c.isBetter (d.set self) = true ↔ c.precedence self.isBuyer < d.precedence self.isBuyer :=
  isBetter_set_iff (h.amount c hc) (h.amount d hd) (h.xreqnum c hc) (h.xreqnum d hd) (h.eq hc hd)

/-- `CompareRates` is a strict total order of the counterparties. -/
lemma Added.isStrictTotalOrder (h : Added cs) (self : Xreq) :
    IsStrictTotalOrder {c // c ∈ cs} fun c d => c.1.isBetter (d.1.set self) = true where
  trichotomous c d hcd hdc := by
    rw [h.isBetter_iff c.2 d.2] at hcd
    rw [h.isBetter_iff d.2 c.2] at hdc
    exact Subtype.ext (h.eq c.2 d.2 (xreqnum_of_precedence (le_antisymm (not_lt.1 hdc) (not_lt.1 hcd))))
  irrefl c := by
    rw [h.isBetter_iff c.2 c.2]
    exact lt_irrefl _
  trans c d e hcd hde := by
    rw [h.isBetter_iff c.2 d.2] at hcd
    rw [h.isBetter_iff d.2 e.2] at hde
    rw [h.isBetter_iff c.2 e.2]
    exact hcd.trans hde

/-- `CompareRates` orders the counterparties of a request strictly by their precedence, and the best match that is left
after their evaluation does not depend on the order in which they are evaluated. -/
theorem bestMatch_orderIndependent (self : Xreq) (h : Added cs) :
    (∀ cs', cs.Perm cs' →
      bestMatch (cs.foldl Counterparty.evaluate self) = bestMatch (cs'.foldl Counterparty.evaluate self)) ∧
    (∀ c ∈ cs, ∀ d ∈ cs,
      (c.isBetter (d.set self) = true ↔ c.precedence self.isBuyer < d.precedence self.isBuyer)) ∧
    IsStrictTotalOrder {c // c ∈ cs} fun c d => c.1.isBetter (d.1.set self) = true := by
  refine ⟨fun cs' hperm => ?_, fun c hc d hd => h.isBetter_iff hc hd, h.isStrictTotalOrder self⟩
  rw [bestMatch_foldl h.amount, bestMatch_foldl fun c hc => h.amount c (hperm.mem_iff.2 hc)]
  refine Selection.foldl_better_perm _ (hperm.map _) ?_ _
  intro x hx y hy hrank
  obtain ⟨c, hc, rfl⟩ := List.mem_map.1 hx
  obtain ⟨d, hd, rfl⟩ := List.mem_map.1 hy
  have hcd : ¬ c.precedence self.isBuyer < d.precedence self.isBuyer := by
    rw [← rank_lt_iff (h.amount c hc) (h.amount d hd) (h.xreqnum c hc) (h.xreqnum d hd) (h.eq hc hd), hrank]
    exact lt_irrefl _
  have hdc : ¬ d.precedence self.isBuyer < c.precedence self.isBuyer := by
    rw [← rank_lt_iff (h.amount d hd) (h.amount c hc) (h.xreqnum d hd) (h.xreqnum c hc) (h.eq hd hc), hrank]
    exact lt_irrefl _
  rw [h.eq hc hd (xreqnum_of_precedence (le_antisymm (not_lt.1 hdc) (not_lt.1 hcd)))]

/-- Two counterparties of a buyer with the same rates. -/
def sameRates : List Counterparty :=
  [⟨{ type := .simpleSell, xreqnum := 7, matchingAmount := 2 }, 2, 1, false, 1, 1⟩,
   ⟨{ type := .simpleSell, xreqnum := 5, matchingAmount := 2 }, 2, 1, false, 1, 1⟩]

theorem sameRates_orderIndependent : Added sameRates ∧
    (bestMatch (sameRates.foldl Counterparty.evaluate { type := .simpleBuy })).otherXreqnum = 5 ∧
    (bestMatch (sameRates.reverse.foldl Counterparty.evaluate { type := .simpleBuy })).otherXreqnum = 5 := by
  have hadded : Added sameRates := ⟨by decide, by decide, by decide⟩
  have hfold : (bestMatch (sameRates.foldl Counterparty.evaluate { type := .simpleBuy })).otherXreqnum = 5 := by
    decide +kernel
  refine ⟨hadded, hfold, ?_⟩
  rw [← (bestMatch_orderIndependent { type := .simpleBuy } hadded).1 _ (List.reverse_perm _).symm]
  exact hfold

end Lemmas

/-- What `ComputeDiscount` leaves as it is. -/
lemma bestMatch_discount (hold : ℕ) (x : Xreq) (rate : UniFloat) (blockTime : ℕ) :
    bestMatch (if hold ≠ 0 then computeDiscount x rate hold blockTime else (x, rate)).1 = bestMatch x := by
  unfold computeDiscount
  dsimp only
  split_ifs <;> rfl

/-- What is evaluated is only the best match of a side, and what stays of the other when its best match changes. -/
lemma evaluate_congr {self self' other other' : Xreq} {amount : ℕ} {rate selfNetRate otherNetRate : UniFloat} {hold : Bool}
    (hself : bestMatch self' = bestMatch self) (herase : eraseBest self' = eraseBest self)
    (hother : eraseBest other' = eraseBest other) :
    bestMatch (if compareRates self' selfNetRate other' otherNetRate amount
      then setMatch amount rate hold self' selfNetRate other' otherNetRate else self') =
      bestMatch (Counterparty.evaluate self ⟨other, amount, rate, hold, selfNetRate, otherNetRate⟩) := by
  obtain ⟨hamount, hrate, hnet, hseqnum, hxreqnum, hmatching, hothernet⟩ := BestMatch.mk.inj hself
  have hbuyer : self'.isBuyer = self.isBuyer := by
    have htype : self'.type = self.type := by simpa only [eraseBest] using congrArg Xreq.type herase
    rw [Xreq.isBuyer, Xreq.isBuyer, htype]
  have hnum : other'.xreqnum = other.xreqnum := by simpa only [eraseBest] using congrArg Xreq.xreqnum hother
  have hseq : other'.seqnum = other.seqnum := by simpa only [eraseBest] using congrArg Xreq.seqnum hother
  have hleft : other'.matchingAmount = other.matchingAmount := by
    simpa only [eraseBest] using congrArg Xreq.matchingAmount hother
  have hcompare : compareRates self' selfNetRate other' otherNetRate amount =
      compareRates self selfNetRate other otherNetRate amount := by
    unfold compareRates
    rw [hamount, hnet, hseqnum, hxreqnum, hmatching, hothernet, hbuyer, hnum, hseq, hleft]
  rw [hcompare]
  unfold Counterparty.evaluate Counterparty.isBetter
  split_ifs
  · simp only [bestMatch, Counterparty.set, setMatch, hnum, hseq, hleft]
  · exact hself

/-- `CheckMatch` leaves the best matches of its sides or evaluates each side as a counterparty of the other, with the
same amount and net rates. -/
theorem checkMatch_evaluates {conv : AmountConv} {buyer seller buyer' seller' : Xreq} {blockTime : ℕ} {changed : Bool}
    (h : checkMatch conv buyer seller blockTime = .ok (changed, buyer', seller')) :
    (bestMatch buyer' = bestMatch buyer ∧ bestMatch seller' = bestMatch seller) ∨
      ∃ c d : Counterparty, c.other = seller ∧ d.other = buyer ∧ c.amount ≠ 0 ∧ d.amount = c.amount ∧
        d.selfNetRate = c.otherNetRate ∧ d.otherNetRate = c.selfNetRate ∧
        bestMatch buyer' = bestMatch (c.evaluate buyer) ∧ bestMatch seller' = bestMatch (d.evaluate seller) := by
  unfold checkMatch at h
  split_ifs at h with htypes
  · cases h
    exact .inl ⟨rfl, rfl⟩
  obtain ⟨_, -, h⟩ := bind_eq_ok.1 h
  cases hterms : matchTerms conv buyer seller with
  | none =>
    rw [hterms] at h
    cases h
    exact .inl ⟨rfl, rfl⟩
  | some t =>
    rw [hterms] at h
    obtain ⟨_, hcheck, h⟩ := bind_eq_ok.1 h
    simp only [checkMatchTerms, ccassert_bind_eq_ok] at hcheck
    dsimp only at h
    by_cases hexpire : buyer.expireTime ≤ blockTime + computeMatchHold buyer seller blockTime ∨
        seller.expireTime ≤ blockTime + computeMatchHold buyer seller blockTime
    · rw [if_pos hexpire] at h
      cases h
      exact .inl ⟨rfl, rfl⟩
    rw [if_neg hexpire] at h
    have hbuyer := bestMatch_discount (computeMatchHold buyer seller blockTime) buyer
      (buyer.netRate (conv.asUniFloat t.amount) t.matchRate 0) blockTime
    have hbuyer' := eraseBest_discount (computeMatchHold buyer seller blockTime) buyer
      (buyer.netRate (conv.asUniFloat t.amount) t.matchRate 0) blockTime
    have hseller := bestMatch_discount (computeMatchHold buyer seller blockTime) seller
      (seller.netRate (conv.asUniFloat t.amount) t.matchRate 0) blockTime
    have hseller' := eraseBest_discount (computeMatchHold buyer seller blockTime) seller
      (seller.netRate (conv.asUniFloat t.amount) t.matchRate 0) blockTime
    generalize (if computeMatchHold buyer seller blockTime ≠ 0 then computeDiscount buyer
      (buyer.netRate (conv.asUniFloat t.amount) t.matchRate 0) (computeMatchHold buyer seller blockTime) blockTime
      else (buyer, buyer.netRate (conv.asUniFloat t.amount) t.matchRate 0)) = b at h hbuyer hbuyer'
    generalize (if computeMatchHold buyer seller blockTime ≠ 0 then computeDiscount seller
      (seller.netRate (conv.asUniFloat t.amount) t.matchRate 0) (computeMatchHold buyer seller blockTime) blockTime
      else (seller, seller.netRate (conv.asUniFloat t.amount) t.matchRate 0)) = s at h hseller hseller'
    cases h
    refine .inr ⟨⟨seller, t.amount, t.matchRate, decide (computeMatchHold buyer seller blockTime ≠ 0), b.2, s.2⟩,
      ⟨buyer, t.amount, t.matchRate, decide (computeMatchHold buyer seller blockTime ≠ 0), s.2, b.2⟩, rfl, rfl,
      hcheck.2.1, rfl, rfl, rfl, ?_, ?_⟩
    · exact evaluate_congr hbuyer hbuyer' hseller'
    · exact evaluate_congr hseller hseller' ((eraseBest_setMatch _ _ _ _ _ _ _ _).trans hbuyer')

end CredaCash.Exchange
