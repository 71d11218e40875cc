import CredaCash.Chain.AmountCodec
import CredaCash.Json.HexText
import CredaCash.Json.Members

/-! The JSON interface to the codec of amounts: what it lets pass, and what it puts out for an amount that has no
code. -/

namespace CredaCash.Chain
open Json

def bitsKey (isDonation : Bool) : String := if isDonation then "donation-bits" else "amount-bits"

/-- A number that has to be there, and to be a certain one. -/
def fixedMember (key : String) (expected : ℕ) : Reading Unit := do
  if (← requiredMember key 8) % 2^32 = expected then return () else throw (errorInvalidValue key)

/-- A number of 32 bits that may be left out. -/
def unsignedMember (key : String) (default : ℕ) : Reading ℕ := do
  return (← intMember key 32 0).elim default (· % 2^32)

/-- `parse_amount_common`. The bits are those of a donation or of an amount, whichever it is. -/
def parseAmountCommon : Reading Bool := do
  let isDonation := (← intMember "is-donation" 1 0).elim false (· % 2^64 ≠ 0)
  fixedMember (bitsKey isDonation) (amountBits isDonation)
  fixedMember "exponent-bits" txAmountExponentBits
  return isDonation

structure EncodeParams where
  isDonation : Bool
  minExponent : ℕ
  maxExponent : ℕ
  rounding : ℕ
  amount : ℕ
deriving DecidableEq

/-- What `encode_amount_json` does before it encodes. The error for the exponents names the key that was read last. -/
def readEncodeParams : Reading EncodeParams := do
  let isDonation ← parseAmountCommon
  let minExponent ← unsignedMember "minimum-exponent" 0
  let maxExponent ← unsignedMember "maximum-exponent" (2^32 - 1)
  let rounding ← unsignedMember "rounding" (2^32 - 1)
  if maxExponent < minExponent then throw (errorInvalidValue "rounding")
  else
    let amount ← requiredMember "amount" 256
    checkEmpty
    return ⟨isDonation, minExponent, maxExponent, rounding, amount⟩

def encodeParams (root : Root) : Except String EncodeParams := readEncodeParams.run' root

def EncodeParams.window (p : EncodeParams) : ℕ × ℕ := exponentWindow p.minExponent p.maxExponent

/-- The code of the amount, or the failure value. -/
def EncodeParams.code (p : EncodeParams) : ℕ :=
  txAmountEncode p.amount p.isDonation p.minExponent p.maxExponent p.rounding

/-- `encode_amount_json`, up to the buffer that it writes the object to. The failure value has 64 bits, and the value
that it is compared with has 32. -/
def encodeAmountJson (root : Root) : Except String Root := do
  let p ← encodeParams root
  if p.code = 2^32 - 1 then throw (errorInvalidValue "amount") else return [("amount-encoded", .scalar (hexText p.code))]

def readDecodeAmount : Reading ℕ := do
  let isDonation ← parseAmountCommon
  let amount ← requiredMember "amount-encoded" (amountBits isDonation)
  checkEmpty
  return amount

/-- `decode_amount_json`, with the amount that it puts out. -/
def decodeAmountJson (root : Root) : Except String ℕ := do
  return txAmountDecode ((← readDecodeAmount.run' root) % 2^64)

/-- The members that both calls read. -/
def commonKeys (isDonation : Bool) : List String := ["is-donation", bitsKey isDonation, "exponent-bits"]

/-- An amount rounded per the mode: 2 not at all, 1 up, 3 down and 0 to the closest, where donations are rounded up
and a rounded amount stays within the largest one. -/
structure RoundedPerMode (isDonation : Bool) (window : ℕ × ℕ) (amount rounding v : ℕ) : Prop where
  exact : rounding = 2 → v = amount
  up : rounding ≠ 2 → rounding = 1 ∨ isDonation = true → amount ≤ topAmount isDonation window.2 →
    IsLeast {w | Representable isDonation window w ∧ amount ≤ w} v
  saturates : rounding ≠ 2 → rounding = 1 ∨ isDonation = true → topAmount isDonation window.2 < amount →
    IsGreatest {w | Representable isDonation window w} v
  down : rounding = 3 → isDonation = false → IsGreatest {w | Representable isDonation window w ∧ w ≤ amount} v
  closest : rounding = 0 → isDonation = false → Representable isDonation window v ∧
    ∀ w, Representable isDonation window w → Nat.dist amount v ≤ Nat.dist amount w

/-- Where an amount is rounded per its mode: it has a code at all, and it is not in the gaps of the codec. -/
def Encodable (isDonation : Bool) (window : ℕ × ℕ) (amount rounding : ℕ) : Prop :=
  if rounding = 2 then Representable isDonation window amount
  else if isDonation then rounding = 3 ∨ amount ≤ topAmount true window.2
  else (rounding = 3 → ¬ GapBelow window amount) ∧ (rounding = 0 → ¬ GapClosest window amount)

/-- `encode_amount_json` reports an error, or it puts out a code that `decode_amount_json`, called with the same members,
takes back to the amount rounded per the mode. -/
def EncodesWell (root : Root) : Prop :=
  ∀ p out, encodeParams root = .ok p → encodeAmountJson root = .ok out → ∃ code < 2^amountBits p.isDonation,
    out = [("amount-encoded", .scalar (hexText code))] ∧
    ∃ v, decodeAmountJson ((root.filter fun member => member.1 ∈ commonKeys p.isDonation) ++ out) = .ok v ∧
      RoundedPerMode p.isDonation p.window p.amount (p.rounding % 4) v

section Gaps
variable {window : ℕ × ℕ} {amount e e' : ℕ}

lemma amountFactor_succ (e : ℕ) : amountFactor (e + 1) = 10 * amountFactor e := by
  rw [amountFactor, amountFactor, pow_succ']

/-- The largest amount of an exponent is not a multiple of the next power of ten. -/
lemma floor_topAmount_lt (e : ℕ) : topAmount false e / amountFactor (e + 1) * amountFactor (e + 1) < topAmount false e := by
  have hpos := amountFactor_pos e
  rw [topAmount, amountFactor_succ, Nat.mul_div_mul_right _ _ hpos, ← Nat.mul_assoc]
  apply Nat.mul_lt_mul_of_pos_right _ hpos
  unfold mantissaMax
  split_ifs <;> decide

/-- The next multiple is held by the next exponent. -/
lemma nextAmount_le_topAmount (h : e < e') : nextAmount e ≤ topAmount false e' := by
  have hfloor := floor_topAmount_lt e
  have hpos := amountFactor_pos e
  have hnext : nextAmount e ≤ topAmount false (e + 1) := by
    have hstep := amountFactor_succ e
    have hsmall : topAmount false e ≤ 2^35 * amountFactor e := by
      apply Nat.mul_le_mul_right
      unfold mantissaMax
      exact Nat.sub_le _ _
    have hlarge : topAmount false (e + 1) = 2^35 * amountFactor (e + 1) := by
      rw [topAmount, mantissaMax, if_neg (Nat.succ_ne_zero e)]
      rfl
    rw [nextAmount, Nat.succ_mul]
    omega
  exact hnext.trans (topAmount_mono h)

/-- The next multiple is two units away at least. -/
lemma topAmount_add_le_nextAmount (e : ℕ) : topAmount false e + 2 * amountFactor e ≤ nextAmount e := by
  have hpos := amountFactor_pos e
  have hdigit : mantissaMax false e + 2 ≤ (mantissaMax false e / 10 + 1) * 10 := by
    unfold mantissaMax
    split_ifs <;> decide
  rw [nextAmount, topAmount, amountFactor_succ, Nat.mul_div_mul_right _ _ hpos, ← Nat.add_mul, ← Nat.mul_assoc]
  exact Nat.mul_le_mul_right _ hdigit

lemma amountMax_lt_nextAmount (index e : ℕ) : amountMax (roundIndex false index) e < nextAmount e := by
  have hnext := topAmount_add_le_nextAmount e
  have hpos := amountFactor_pos e
  have hhalf := Nat.div_le_self (amountFactor e) 2
  obtain rfl | rfl | hindex : index = 0 ∨ index = 1 ∨ 2 ≤ index := by omega
  · rw [show roundIndex false 0 = 0 from rfl, amountMax_closest]
    omega
  · rw [show roundIndex false 1 = 1 from rfl, amountMax_up]
    omega
  · rw [roundIndex, if_neg (by decide), if_neg (by omega), amountMax_down]
    split_ifs <;> omega

/-- An amount in a gap is encoded at the exponent behind the gap. -/
lemma LeastFit.eq_of_gap {index : ℕ} (h : LeastFit (amountMax (roundIndex false index)) window amount e')
    (hlo : window.1 ≤ e) (hbelow : amountMax (roundIndex false index) e < amount) (habove : amount < nextAmount e) :
    e' = e + 1 := by
  have hfits := h.fits
  rcases lt_trichotomy e' (e + 1) with hlt | heq | hgt
  · rcases eq_or_lt_of_le (Nat.le_of_lt_succ hlt) with rfl | hlt
    · omega
    · have hmax := amountMax_lt_nextAmount index e'
      have hnext := nextAmount_le_topAmount hlt
      have htop := topAmount_le_amountMax false index e
      omega
  · exact heq
  · have hleast := h.least (by omega)
    have hnext := nextAmount_le_topAmount (show e < e' - 1 by omega)
    have htop := topAmount_le_amountMax false index (e' - 1)
    omega

/-- An amount in a gap is between two neighbouring multiples. -/
lemma floor_of_gap (hbelow : topAmount false e < amount) (habove : amount < nextAmount e) :
    amount / amountFactor (e + 1) * amountFactor (e + 1) + amountFactor (e + 1) = nextAmount e ∧
      amount / amountFactor (e + 1) * amountFactor (e + 1) < topAmount false e := by
  have hpos := amountFactor_pos (e + 1)
  have hdiv : amount / amountFactor (e + 1) = topAmount false e / amountFactor (e + 1) := by
    apply le_antisymm
    · exact Nat.le_of_lt_succ ((Nat.div_lt_iff_lt_mul hpos).2 habove)
    · exact Nat.div_le_div_right hbelow.le
  rw [hdiv]
  exact ⟨(Nat.succ_mul _ _).symm, floor_topAmount_lt e⟩

lemma representable_of_mem (hlo : window.1 ≤ e) (hhi : e ≤ window.2) (hmask : window.2 ≤ txAmountExponentMask) :
    Representable false window (topAmount false e) := representable_mul hlo hhi hmask le_rfl

/-- Rounding down in a gap goes past the largest amount of an exponent. -/
lemma LeastFit.not_isGreatest (h : LeastFit (amountMax (roundIndex false 3)) window amount e')
    (hmask : window.2 ≤ txAmountExponentMask) (hgap : GapBelow window amount) :
    ¬ IsGreatest {w | Representable false window w ∧ w ≤ amount} (roundMantissa amount false 3 e' * amountFactor e') := by
  obtain ⟨e, hlo, hhi, hbelow, habove⟩ := hgap
  have htop := (topAmount_le_amountMax false 3 e).trans_lt hbelow
  obtain rfl := h.eq_of_gap hlo hbelow habove
  have hmantissa : roundMantissa amount false 3 (e + 1) = amount / amountFactor (e + 1) := by
    rw [(roundMantissa_spec (by decide) h.fits fun _ => by decide).1, if_neg (by simp), Nat.add_zero]
  intro hgreatest
  have hle := hgreatest.2 ⟨representable_of_mem hlo hhi.le hmask, htop.le⟩
  rw [hmantissa] at hle
  exact absurd hle (not_le.2 (floor_of_gap htop habove).2)

/-- Rounding to the closest in a gap goes past the largest amount of an exponent, which is closer. -/
lemma LeastFit.not_closest (h : LeastFit (amountMax (roundIndex false 0)) window amount e')
    (hmask : window.2 ≤ txAmountExponentMask) (hgap : GapClosest window amount) :
    ∃ w, Representable false window w ∧
      Nat.dist amount w < Nat.dist amount (roundMantissa amount false 0 e' * amountFactor e') := by
  obtain ⟨e, hlo, hhi, hbelow, habove⟩ := hgap
  have htop := (topAmount_le_amountMax false 0 e).trans_lt hbelow
  have hnext : amount < nextAmount e := by omega
  obtain rfl := h.eq_of_gap hlo hbelow hnext
  obtain ⟨hfloor, hlt⟩ := floor_of_gap htop hnext
  refine ⟨topAmount false e, representable_of_mem hlo hhi.le hmask, ?_⟩
  have hmantissa : roundMantissa amount false 0 (e + 1) = amount / amountFactor (e + 1) +
      if amount % amountFactor (e + 1) ≠ 0 ∧ amountFactor (e + 1) ≤ 2 * (amount % amountFactor (e + 1)) then 1 else 0 := by
    rw [(roundMantissa_spec (by decide) h.fits fun _ => by decide).1]
    simp
  rw [hmantissa, Nat.add_mul]
  unfold Nat.dist
  split_ifs
  · rw [Nat.one_mul]
    omega
  · rw [Nat.zero_mul]
    omega

/-- The code in a gap. -/
lemma txAmountEncode_of_gap {minExponent maxExponent rounding : ℕ} (hround : rounding % 4 ≠ 2)
    (hlo : (exponentWindow minExponent maxExponent).1 ≤ e) (hhi : e < (exponentWindow minExponent maxExponent).2)
    (hbelow : amountMax (roundIndex false (rounding % 4)) e < amount) (habove : amount < nextAmount e) :
    LeastFit (amountMax (roundIndex false (rounding % 4))) (exponentWindow minExponent maxExponent) amount (e + 1) ∧
      txAmountDecode (txAmountEncode amount false minExponent maxExponent rounding) =
        roundMantissa amount false (rounding % 4) (e + 1) * amountFactor (e + 1) := by
  have hamount : amount ≠ 0 := by omega
  have hmask := exponentWindow_mask minExponent maxExponent
  rcases txAmountEncode_cases false hamount minExponent maxExponent rounding with ⟨e', hfit, hcode⟩ | ⟨hover, -⟩
  · obtain rfl := hfit.eq_of_gap hlo hbelow habove
    refine ⟨hfit, ?_⟩
    rw [hcode]
    exact (encodeAt_fits (Nat.mod_lt _ (by decide)) hamount hhi hmask hfit.fits fun _ => hround).2
  · have hnext := nextAmount_le_topAmount hhi
    have htop := topAmount_le_amountMax false (rounding % 4) (exponentWindow minExponent maxExponent).2
    omega

/-- The mantissas in a gap are the two next to a tenth of the largest one. -/
lemma roundMantissa_of_gap {rounding : ℕ} (hround : rounding < 4) (hne : rounding ≠ 2)
    (hfits : amount ≤ amountMax (roundIndex false rounding) (e + 1)) (hbelow : topAmount false e < amount)
    (habove : amount < nextAmount e) :
    roundMantissa amount false rounding (e + 1) = 3435973836 ∨
      roundMantissa amount false rounding (e + 1) = 3435973837 := by
  have hdiv : amount / amountFactor (e + 1) = 3435973836 := by
    have hfloor : topAmount false e / amountFactor (e + 1) = 3435973836 := by
      rw [topAmount, amountFactor_succ, Nat.mul_div_mul_right _ _ (amountFactor_pos e)]
      unfold mantissaMax
      split_ifs <;> rfl
    have hnext : amount / amountFactor (e + 1) < 3435973836 + 1 := by
      rw [Nat.div_lt_iff_lt_mul (amountFactor_pos (e + 1)), ← hfloor]
      exact habove
    have hle := Nat.div_le_div_right (c := amountFactor (e + 1)) hbelow.le
    omega
  rw [(roundMantissa_spec hround hfits fun _ => hne).1, hdiv]
  simp only [Bool.false_eq_true, false_or]
  split_ifs
  · exact .inr rfl
  · exact .inl rfl

/-- The value that the code is compared with is not one of a gap. -/
lemma mul_amountFactor_ne {k : ℕ} (hk : k = 3435973836 ∨ k = 3435973837) (he : e ≤ 31) :
    k * amountFactor e ≠ txAmountDecode (2^32 - 1) := by
  intro heq
  have hvalue : txAmountDecode (2^32 - 1) = 2^27 * 10^(31 - e) * amountFactor e := by
    rw [amountFactor, Nat.mul_assoc, ← pow_add, Nat.sub_add_cancel he]
    rfl
  have hdvd : 2^27 ∣ k := by
    rw [Nat.eq_of_mul_eq_mul_right (amountFactor_pos e) (heq.trans hvalue)]
    exact Nat.dvd_mul_right _ _
  rcases hk with rfl | rfl
  · exact absurd hdvd (by decide)
  · exact absurd hdvd (by decide)

/-- The code in a gap is not taken for the failure value. -/
lemma txAmountEncode_ne_of_gap {minExponent maxExponent rounding : ℕ} (hround : rounding % 4 ≠ 2)
    (hlo : (exponentWindow minExponent maxExponent).1 ≤ e) (hhi : e < (exponentWindow minExponent maxExponent).2)
    (hbelow : amountMax (roundIndex false (rounding % 4)) e < amount) (habove : amount < nextAmount e) :
    txAmountEncode amount false minExponent maxExponent rounding ≠ 2^32 - 1 := by
  obtain ⟨hfit, hdecode⟩ := txAmountEncode_of_gap hround hlo hhi hbelow habove
  have hmask := exponentWindow_mask minExponent maxExponent
  have htop := (topAmount_le_amountMax false (rounding % 4) e).trans_lt hbelow
  have hmantissa := roundMantissa_of_gap (Nat.mod_lt _ (by decide)) hround hfit.fits htop habove
  intro heq
  rw [heq] at hdecode
  exact mul_amountFactor_ne hmantissa (Nat.succ_le_of_lt (hhi.trans_le hmask)) hdecode.symm

end Gaps

section Encodable
variable {isDonation : Bool} {amount minExponent maxExponent rounding : ℕ}

/-- In a gap the code stands for an amount that is not the rounded one. -/
lemma not_down_of_gap (h3 : rounding % 4 = 3) (hgap : GapBelow (exponentWindow minExponent maxExponent) amount) :
    txAmountEncode amount false minExponent maxExponent rounding ≠ 2^32 - 1 ∧
      ¬ IsGreatest {w | Representable false (exponentWindow minExponent maxExponent) w ∧ w ≤ amount}
        (txAmountDecode (txAmountEncode amount false minExponent maxExponent rounding)) := by
  have hmask := exponentWindow_mask minExponent maxExponent
  obtain ⟨e, hlo, hhi, hbelow, habove⟩ := id hgap
  have hround : rounding % 4 ≠ 2 := by omega
  have hindex : roundIndex false (rounding % 4) = 3 := by rw [h3]; rfl
  rw [← hindex] at hbelow
  obtain ⟨hfit, hdecode⟩ := txAmountEncode_of_gap hround hlo hhi hbelow habove
  refine ⟨txAmountEncode_ne_of_gap hround hlo hhi hbelow habove, ?_⟩
  rw [h3] at hfit hdecode
  rw [hdecode]
  exact hfit.not_isGreatest hmask hgap

lemma not_closest_of_gap (h0 : rounding % 4 = 0) (hgap : GapClosest (exponentWindow minExponent maxExponent) amount) :
    txAmountEncode amount false minExponent maxExponent rounding ≠ 2^32 - 1 ∧
      ∃ w, Representable false (exponentWindow minExponent maxExponent) w ∧ Nat.dist amount w <
        Nat.dist amount (txAmountDecode (txAmountEncode amount false minExponent maxExponent rounding)) := by
  have hmask := exponentWindow_mask minExponent maxExponent
  obtain ⟨e, hlo, hhi, hbelow, habove⟩ := id hgap
  have hround : rounding % 4 ≠ 2 := by omega
  have hindex : roundIndex false (rounding % 4) = 0 := by rw [h0]; rfl
  rw [← hindex] at hbelow
  have htop := (topAmount_le_amountMax false (rounding % 4) e).trans_lt hbelow
  have hnext : amount < nextAmount e := by omega
  obtain ⟨hfit, hdecode⟩ := txAmountEncode_of_gap hround hlo hhi hbelow hnext
  refine ⟨txAmountEncode_ne_of_gap hround hlo hhi hbelow hnext, ?_⟩
  rw [h0] at hfit hdecode
  rw [hdecode]
  exact hfit.not_closest hmask hgap

/-- A code that is not taken for the failure value is of an amount that is rounded per its mode, just where there is
one. -/
theorem encodable_iff :
    (txAmountEncode amount isDonation minExponent maxExponent rounding ≠ 2^32 - 1 →
      txAmountEncode amount isDonation minExponent maxExponent rounding < 2^amountBits isDonation ∧
        RoundedPerMode isDonation (exponentWindow minExponent maxExponent) amount (rounding % 4)
          (txAmountDecode (txAmountEncode amount isDonation minExponent maxExponent rounding))) ↔
      Encodable isDonation (exponentWindow minExponent maxExponent) amount (rounding % 4) := by
  have htight := (txAmountEncode_tight amount isDonation minExponent maxExponent rounding).1
  set code := txAmountEncode amount isDonation minExponent maxExponent rounding with hcode
  have hfails : code = txAmountError → ¬ (code ≠ 2^32 - 1 → code < 2^amountBits isDonation ∧
      RoundedPerMode isDonation (exponentWindow minExponent maxExponent) amount (rounding % 4) (txAmountDecode code)) := by
    intro herror h
    have hlt := (h (by rw [herror]; decide)).1
    rw [herror] at hlt
    exact absurd hlt (by cases isDonation <;> decide)
  unfold Encodable
  split_ifs with h2 hd
  · constructor
    · intro h
      by_contra hnot
      exact hfails ((htight.exact h2).2 hnot) h
    · intro hrep _
      obtain ⟨hdecode, hlt⟩ := (htight.exact h2).1 hrep
      exact ⟨hlt, fun _ => hdecode, fun hne => absurd h2 hne, fun hne => absurd h2 hne, fun h3 => by omega,
        fun h0 => by omega⟩
  · subst hd
    constructor
    · intro h
      by_contra hnot
      obtain ⟨hne, hover⟩ := not_or.1 hnot
      have hsaturates := htight.saturates h2 (.inr rfl) (not_le.1 hover)
      rw [if_pos ⟨rfl, hne⟩] at hsaturates
      exact hfails hsaturates h
    · intro h _
      refine ⟨htight.code_lt.resolve_right fun hfail => ?_, fun heq => absurd heq h2, htight.up, fun hne hup hover => ?_,
        fun _ hd => absurd hd (by decide), fun _ hd => absurd hd (by decide)⟩
      · rcases hfail.2 with ⟨heq, -⟩ | ⟨-, hne, hover⟩
        · exact h2 heq
        · exact absurd (h.resolve_left hne) (not_le.2 hover)
      · have hsaturates := htight.saturates hne hup hover
        rwa [if_neg fun hfail => absurd (h.resolve_left hfail.2) (not_le.2 hover)] at hsaturates
  · obtain rfl := Bool.eq_false_iff.2 hd
    have hlt := htight.code_lt.resolve_right fun hfail => hfail.2.elim (fun h => h2 h.1) fun h => hd h.1
    constructor
    · intro h
      refine ⟨fun h3 hgap => ?_, fun h0 hgap => ?_⟩
      · obtain ⟨hne, hnot⟩ := not_down_of_gap h3 hgap
        exact hnot ((h hne).2.down h3 rfl)
      · obtain ⟨hne, w, hw, hcloser⟩ := not_closest_of_gap h0 hgap
        exact absurd (((h hne).2.closest h0 rfl).2 w hw) (not_le.2 hcloser)
    · rintro ⟨hbelow, hclosest⟩ -
      refine ⟨hlt, fun heq => absurd heq h2, htight.up, fun hne hup hover => ?_, fun h3 _ => htight.down h3 rfl (hbelow h3),
        fun h0 _ => htight.closest h0 rfl (hclosest h0)⟩
      have hsaturates := htight.saturates hne hup hover
      rwa [if_neg fun hfail => hd hfail.1] at hsaturates

end Encodable

section Members
variable {α β : Type} {key : String} {x : Reading α} {f : α → Reading β} {g : α → Except String β} {a : α} {root r : Root}

lemma readsMember_fixedMember (key : String) (expected : ℕ) : ReadsMember key (fixedMember key expected) := by
  refine ReadsMember.bind
    (g := fun n => if n % 2^32 = expected then .ok () else .error (errorInvalidValue key))
    (readsMember_requiredMember key 8) fun n root => ?_
  split_ifs
  · rfl
  · rfl

/-- Only the common members are read. -/
lemma parseAmountCommon_congr {isDonation : Bool} (h : parseAmountCommon root = .ok (isDonation, r)) {root' : Root}
    (hsame : ∀ k ∈ commonKeys isDonation, root'.lookup k = root.lookup k) :
    parseAmountCommon root' = .ok (isDonation, root'.filter fun member => member.1 ∉ commonKeys isDonation) := by
  obtain ⟨flag, r₁, hflag, h⟩ := bind_eq_ok.1 h
  obtain ⟨u, r₂, hbits, h⟩ := bind_eq_ok.1 h
  obtain ⟨u', r₃, hexponent, h⟩ := bind_eq_ok.1 h
  obtain ⟨rfl, -⟩ := pure_eq_ok.1 h
  set isDonation := flag.elim false (· % 2^64 ≠ 0)
  have hne₁ : bitsKey isDonation ≠ "is-donation" := by cases isDonation <;> decide
  have hne₂ : "exponent-bits" ≠ bitsKey isDonation := by cases isDonation <;> decide
  have hne₃ : "exponent-bits" ≠ "is-donation" := by decide
  have hfirst : ∀ (rest : Root) {k : String}, k ≠ "is-donation" →
      (rest.filter fun member => member.1 ≠ "is-donation").lookup k = rest.lookup k := fun rest k => lookup_filter_ne rest
  have hlookup₁ : (root'.filter fun member => member.1 ≠ "is-donation").lookup (bitsKey isDonation) =
      (root.filter fun member => member.1 ≠ "is-donation").lookup (bitsKey isDonation) := by
    rw [hfirst _ hne₁, hfirst _ hne₁, hsame _ (by simp [commonKeys])]
  have hlookup₂ : ((root'.filter fun member => member.1 ≠ "is-donation").filter
      fun member => member.1 ≠ bitsKey isDonation).lookup "exponent-bits" =
      ((root.filter fun member => member.1 ≠ "is-donation").filter
        fun member => member.1 ≠ bitsKey isDonation).lookup "exponent-bits" := by
    rw [lookup_filter_ne _ hne₂, lookup_filter_ne _ hne₂, hfirst _ hne₃, hfirst _ hne₃, hsame _ (by simp [commonKeys])]
  obtain ⟨rfl, hflag'⟩ := (readsMember_intMember _ _ _).congr hflag (hsame _ (by simp [commonKeys]))
  obtain ⟨rfl, hbits'⟩ := (readsMember_fixedMember _ _).congr hbits hlookup₁
  obtain ⟨-, hexponent'⟩ := (readsMember_fixedMember _ _).congr hexponent hlookup₂
  refine bind_eq_ok.2 ⟨_, _, hflag', bind_eq_ok.2 ⟨_, _, hbits', bind_eq_ok.2 ⟨_, _, hexponent', ?_⟩⟩⟩
  refine pure_eq_ok.2 ⟨rfl, ?_⟩
  rw [List.filter_filter, List.filter_filter]
  refine List.filter_congr fun member _ => ?_
  rw [Bool.eq_iff_iff]
  simp only [commonKeys, List.mem_cons, List.not_mem_nil, or_false, not_or, Bool.and_eq_true, decide_eq_true_eq]
  tauto

/-- The parameters are read with the common members. -/
lemma encodeParams_common {p : EncodeParams} (h : encodeParams root = .ok p) :
    ∃ r, parseAmountCommon root = .ok (p.isDonation, r) := by
  obtain ⟨r, h⟩ := run'_eq_ok.1 h
  obtain ⟨isDonation, r₁, hcommon, h⟩ := bind_eq_ok.1 h
  have hgives : p.isDonation = isDonation := by
    refine gives_bind (P := fun p : EncodeParams => p.isDonation = isDonation) (fun minExponent => ?_) _ _ _ h
    refine gives_bind fun maxExponent => gives_bind fun rounding => ?_
    split_ifs
    · exact gives_throw _ _
    · exact gives_bind fun amount => gives_bind fun _ => gives_pure rfl
  exact ⟨r₁, hgives ▸ hcommon⟩

lemma amountBits_le (isDonation : Bool) : amountBits isDonation ≤ 64 := by cases isDonation <;> decide

lemma EncodeParams.code_lt (p : EncodeParams) : p.code < 2^64 := by
  rcases (txAmountEncode_tight p.amount p.isDonation p.minExponent p.maxExponent p.rounding).1.code_lt with h | h
  · exact h.trans_le (Nat.pow_le_pow_right (by decide) (amountBits_le _))
  · exact h.1.trans_lt (by decide)

/-- A code of the right bits is read again, and decoded. -/
lemma decodeAmountJson_hexText {isDonation : Bool} {code : ℕ} (h : parseAmountCommon root = .ok (isDonation, r))
    (hcode : code < 2^amountBits isDonation) :
    decodeAmountJson ((root.filter fun member => member.1 ∈ commonKeys isDonation) ++
      [("amount-encoded", .scalar (hexText code))]) = .ok (txAmountDecode code) := by
  have hbits := amountBits_le isDonation
  have hpow : 2^amountBits isDonation ≤ 2^64 := Nat.pow_le_pow_right (by decide) hbits
  have hkey : "amount-encoded" ∉ commonKeys isDonation := by cases isDonation <;> decide
  set out : Root := [("amount-encoded", .scalar (hexText code))] with hout
  have hcommon := @parseAmountCommon_congr root r isDonation h
    ((root.filter fun member => member.1 ∈ commonKeys isDonation) ++ out) fun k hk => by
      have hnone : out.lookup k = none := by
        have hne : k ≠ "amount-encoded" := fun heq => hkey (heq ▸ hk)
        rw [hout, List.lookup_cons, beq_false_of_ne hne]
        rfl
      rw [List.lookup_append, hnone, Option.or_none]
      exact lookup_filter root hk
  have hleft : ((root.filter fun member => member.1 ∈ commonKeys isDonation) ++ out).filter
      (fun member => member.1 ∉ commonKeys isDonation) = out := by
    rw [List.filter_append, List.filter_filter, List.filter_eq_nil_iff.2 fun member _ => by simp, List.nil_append, hout,
      List.filter_cons_of_pos (by simpa using hkey), List.filter_nil]
  rw [hleft] at hcommon
  have hvalue : (requiredMember "amount-encoded" (amountBits isDonation)) out = .ok (code, []) :=
    requiredMember_singleton ((asInt_scalar ..).trans (parseIntValue_hexText _ (hbits.trans (by decide)) hcode))
  have hread : readDecodeAmount.run' ((root.filter fun member => member.1 ∈ commonKeys isDonation) ++ out) = .ok code :=
    run'_eq_ok.2 ⟨[], bind_eq_ok.2 ⟨_, _, hcommon, bind_eq_ok.2 ⟨_, _, hvalue, rfl⟩⟩⟩
  rw [decodeAmountJson, hread]
  exact congrArg (fun n => Except.ok (txAmountDecode n)) (Nat.mod_eq_of_lt (hcode.trans_le hpow))

/-- Every other code is put out. -/
lemma encodeAmountJson_of_ne {p : EncodeParams} (hp : encodeParams root = .ok p) (hne : p.code ≠ 2^32 - 1) :
    encodeAmountJson root = .ok [("amount-encoded", .scalar (hexText p.code))] := by
  rw [encodeAmountJson, hp]
  exact if_neg hne

end Members

/-- The encoding goes well just where the amount is encodable. -/
theorem encodesWell_iff (root : Root) :
    EncodesWell root ↔ ∀ p, encodeParams root = .ok p → Encodable p.isDonation p.window p.amount (p.rounding % 4) := by
  constructor
  · intro h p hp
    obtain ⟨r, hcommon⟩ := encodeParams_common hp
    refine encodable_iff.1 fun hne => ?_
    obtain ⟨code, hcode, hout, v, hdecode, hrounded⟩ := h p _ hp (encodeAmountJson_of_ne hp hne)
    have heq : p.code = code := by
      simp only [List.cons.injEq, Prod.mk.injEq, Value.scalar.injEq, true_and, and_true] at hout
      exact hexText_inj p.code_lt (hcode.trans_le (Nat.pow_le_pow_right (by decide) (amountBits_le _))) hout
    rw [hout, decodeAmountJson_hexText hcommon hcode] at hdecode
    cases hdecode
    subst heq
    exact ⟨hcode, hrounded⟩
  · intro h p out hp hout
    obtain ⟨r, hcommon⟩ := encodeParams_common hp
    have hne : p.code ≠ 2^32 - 1 := by
      intro heq
      rw [encodeAmountJson, hp] at hout
      cases hout.symm.trans (if_pos heq)
    obtain ⟨hcode, hrounded⟩ := encodable_iff.2 (h p hp) hne
    obtain rfl := Except.ok.inj (hout.symm.trans (encodeAmountJson_of_ne hp hne))
    exact ⟨p.code, hcode, rfl, _, decodeAmountJson_hexText hcommon hcode, hrounded⟩

/-- Half a unit of 10, which is not to be rounded. -/
def unrepresentableRoot : Root :=
  [("amount-bits", .scalar [52, 48]), ("exponent-bits", .scalar [53]), ("minimum-exponent", .scalar [49]),
    ("rounding", .scalar [50]), ("amount", .scalar [53])]

/-- The failure value of 64 bits is put out. -/
theorem not_encodesWell : ¬ EncodesWell unrepresentableRoot := by
  intro h
  have hparams : encodeParams unrepresentableRoot = .ok ⟨false, 1, 2^32 - 1, 2, 5⟩ := by decide +kernel
  have hfail : EncodeParams.code ⟨false, 1, 2^32 - 1, 2, 5⟩ = 2^64 - 1 := by decide +kernel
  have hout : encodeAmountJson unrepresentableRoot = .ok [("amount-encoded", .scalar (hexText (2^64 - 1)))] := by
    rw [← hfail]
    exact encodeAmountJson_of_ne hparams (by decide +kernel)
  obtain ⟨code, hcode, heq, -⟩ := h _ _ hparams hout
  simp only [List.cons.injEq, Prod.mk.injEq, Value.scalar.injEq, true_and, and_true] at heq
  have hsame := hexText_inj (by decide) (hcode.trans_le (Nat.pow_le_pow_right (by decide) (amountBits_le _))) heq
  rw [← hsame] at hcode
  exact absurd hcode (by decide)

end CredaCash.Chain
