import CredaCash.Chain.TxOutputs
import Mathlib.Order.Bounds.Basic
import Mathlib.Data.Nat.Dist

/-! The codec of amounts as a rounding: what `tx_amount_encode` makes of an amount, compared with all amounts that
the exponents it may use can represent. -/

namespace CredaCash.Chain

/-- The bits of a code: `TX_DONATION_BITS` or `TX_AMOUNT_BITS`. -/
def amountBits (isDonation : Bool) : ℕ := if isDonation then txDonationBits else txAmountBits

/-- The exponents that `tx_amount_encode` may use. -/
def exponentWindow (minExponent maxExponent : ℕ) : ℕ × ℕ :=
  let minExponent := min minExponent txAmountExponentMask
  (minExponent, max (min maxExponent txAmountExponentMask) minExponent)

/-- The amounts with a code whose exponent is in a window. Nothing at all can always be encoded. -/
def Representable (isDonation : Bool) (window : ℕ × ℕ) (v : ℕ) : Prop :=
  v = 0 ∨ ∃ code < 2^amountBits isDonation, window.1 ≤ code % 2^txAmountExponentBits ∧
    code % 2^txAmountExponentBits ≤ window.2 ∧ txAmountDecode code = v

/-- The largest mantissa of an exponent. -/
def mantissaMax (isDonation : Bool) (exponent : ℕ) : ℕ :=
  2^amountMantissaBits isDonation - if exponent = 0 then 1 else 0

/-- The largest amount of an exponent. -/
def topAmount (isDonation : Bool) (exponent : ℕ) : ℕ := mantissaMax isDonation exponent * amountFactor exponent

/-- The least multiple of the next power of ten that is above the largest amount of an exponent. -/
def nextAmount (exponent : ℕ) : ℕ :=
  (topAmount false exponent / amountFactor (exponent + 1) + 1) * amountFactor (exponent + 1)

/-- The first index of `amount_maxs`. -/
def roundIndex (isDonation : Bool) (rounding : ℕ) : ℕ :=
  if isDonation then 2 else if rounding < 2 then rounding else 3

section Multiples
variable {f amount w : ℕ}

/-- Rounding down gives the greatest multiple that is not above an amount. -/
lemma multiple_le_floor (hw : f ∣ w) (hle : w ≤ amount) : w ≤ amount / f * f := by
  obtain ⟨k, rfl⟩ := hw
  rcases Nat.eq_zero_or_pos f with rfl | hf
  · simp
  · rw [Nat.mul_comm]
    exact Nat.mul_le_mul_right f ((Nat.le_div_iff_mul_le hf).2 (by rwa [Nat.mul_comm]))

variable (hf : 0 < f)
include hf

/-- Rounding up gives the least multiple that is not below an amount. -/
lemma ceil_le_multiple (hw : f ∣ w) (hle : amount ≤ w) :
    (amount / f + if amount % f ≠ 0 then 1 else 0) * f ≤ w := by
  obtain ⟨k, rfl⟩ := hw
  rw [Nat.mul_comm f k]
  refine Nat.mul_le_mul_right f ?_
  have hdiv := Nat.div_add_mod amount f
  split_ifs with hrem
  · refine Nat.succ_le_of_lt (Nat.lt_of_mul_lt_mul_left (a := f) ?_)
    omega
  · refine Nat.le_of_mul_le_mul_left ?_ hf
    rw [Nat.add_zero]
    omega

lemma le_ceil (amount : ℕ) : amount ≤ (amount / f + if amount % f ≠ 0 then 1 else 0) * f := by
  have hdiv := Nat.div_add_mod' amount f
  have hmod := Nat.mod_lt amount hf
  split_ifs with hrem
  · rw [Nat.succ_mul]
    omega
  · rw [Nat.add_zero]
    omega

/-- Rounding to the closest multiple. -/
lemma closest_multiple (hw : f ∣ w) :
    Nat.dist amount ((amount / f + if amount % f ≠ 0 ∧ f ≤ 2 * (amount % f) then 1 else 0) * f) ≤ Nat.dist amount w := by
  have hdiv := Nat.div_add_mod' amount f
  have hmod := Nat.mod_lt amount hf
  have hsucc : (amount / f + 1) * f = amount / f * f + f := Nat.succ_mul _ _
  rcases Nat.le_total w amount with hle | hle
  · have hfloor := multiple_le_floor hw hle
    unfold Nat.dist
    split_ifs
    · omega
    · rw [Nat.add_zero]
      omega
  · have hceil := ceil_le_multiple hf hw hle
    unfold Nat.dist
    by_cases hrem : amount % f = 0
    · rw [if_neg (by simp [hrem]), Nat.add_zero]
      omega
    · rw [if_pos hrem] at hceil
      split_ifs with hup
      · omega
      · rw [Nat.add_zero]
        omega

end Multiples

section Codes
variable {isDonation : Bool} {window : ℕ × ℕ} {exponent k v : ℕ}

lemma amountFactor_dvd {e e' : ℕ} (h : e ≤ e') : amountFactor e ∣ amountFactor e' := Nat.pow_dvd_pow 10 h

lemma amountFactor_le {e e' : ℕ} (h : e ≤ e') : amountFactor e ≤ amountFactor e' := Nat.pow_le_pow_right (by decide) h

lemma mantissaMax_mono {e e' : ℕ} (h : e ≤ e') : mantissaMax isDonation e ≤ mantissaMax isDonation e' := by
  unfold mantissaMax
  split_ifs <;> omega

lemma topAmount_mono {e e' : ℕ} (h : e ≤ e') : topAmount isDonation e ≤ topAmount isDonation e' :=
  Nat.mul_le_mul (mantissaMax_mono h) (amountFactor_le h)

lemma mantissaMax_pos : 0 < mantissaMax isDonation exponent := by
  unfold mantissaMax
  cases isDonation <;> split_ifs <;> decide

lemma packAmount_lt (hk : k ≤ mantissaMax isDonation exponent) (he : exponent ≤ txAmountExponentMask) :
    packAmount k exponent < 2^amountBits isDonation := by
  have hbits : 2^amountBits isDonation = 2^amountMantissaBits isDonation * 2^txAmountExponentBits := by
    cases isDonation <;> rfl
  have hpos : 0 < 2^amountMantissaBits isDonation := Nat.two_pow_pos _
  have hmask : txAmountExponentMask + 1 = 2^txAmountExponentBits := rfl
  have hmantissa : k - (if 0 < exponent then 1 else 0) + 1 ≤ 2^amountMantissaBits isDonation := by
    unfold mantissaMax at hk
    split_ifs at hk ⊢ <;> omega
  calc packAmount k exponent
    _ < (k - if 0 < exponent then 1 else 0) * 2^txAmountExponentBits + 2^txAmountExponentBits := by
      unfold packAmount
      omega
    _ = (k - (if 0 < exponent then 1 else 0) + 1) * 2^txAmountExponentBits := (Nat.succ_mul _ _).symm
    _ ≤ 2^amountBits isDonation := hbits ▸ Nat.mul_le_mul_right _ hmantissa

lemma packAmount_mod (he : exponent ≤ txAmountExponentMask) :
    packAmount k exponent % 2^txAmountExponentBits = exponent := by
  have hmask : txAmountExponentMask + 1 = 2^txAmountExponentBits := rfl
  rw [packAmount, Nat.mul_add_mod', Nat.mod_eq_of_lt (by omega)]

/-- What an exponent of the window holds is representable. -/
lemma representable_mul (hlo : window.1 ≤ exponent) (hhi : exponent ≤ window.2) (hmask : window.2 ≤ txAmountExponentMask)
    (hk : k ≤ mantissaMax isDonation exponent) : Representable isDonation window (k * amountFactor exponent) := by
  have he : exponent ≤ txAmountExponentMask := hhi.trans hmask
  rcases Nat.eq_zero_or_pos k with rfl | hpos
  · exact Or.inl (Nat.zero_mul _)
  · refine Or.inr ⟨packAmount k exponent, packAmount_lt hk he, ?_⟩
    rw [packAmount_mod he]
    exact ⟨hlo, hhi, txAmountDecode_pack hpos he⟩

/-- Every representable amount is held by an exponent of the window. -/
lemma Representable.exists_mul (h : Representable isDonation window v) (hwindow : window.1 ≤ window.2) :
    ∃ e k, window.1 ≤ e ∧ e ≤ window.2 ∧ k ≤ mantissaMax isDonation e ∧ v = k * amountFactor e := by
  rcases h with rfl | ⟨code, hcode, hlo, hhi, hv⟩
  · exact ⟨window.1, 0, le_refl _, hwindow, Nat.zero_le _, (Nat.zero_mul _).symm⟩
  · refine ⟨_, _, hlo, hhi, ?_, hv.symm⟩
    have hbits : 2^amountBits isDonation = 2^txAmountExponentBits * 2^amountMantissaBits isDonation := by
      cases isDonation <;> rfl
    have hdiv : code / 2^txAmountExponentBits < 2^amountMantissaBits isDonation :=
      Nat.div_lt_of_lt_mul (hbits ▸ hcode)
    unfold mantissaMax
    split_ifs <;> omega

end Codes

section Encode
variable {isDonation : Bool} {amount lo hi e rounding : ℕ}

lemma amountMax_up (e : ℕ) : amountMax 1 e = topAmount false e := rfl

lemma amountMax_closest (e : ℕ) :
    amountMax 0 e = topAmount false e + amountFactor e / 2 - if 0 < e then 1 else 0 := rfl

lemma amountMax_down (e : ℕ) : amountMax 3 e = topAmount false e + if e = 0 then 0 else amountFactor e - 1 := rfl

lemma amountFactor_zero : amountFactor 0 = 1 := rfl

/-- Every power of ten but the first one is even. -/
lemma two_mul_half_amountFactor (he : 0 < e) : 2 * (amountFactor e / 2) = amountFactor e := by
  obtain ⟨n, rfl⟩ : ∃ n, e = n + 1 := ⟨e - 1, by omega⟩
  have hten : amountFactor (n + 1) = 10 * amountFactor n := by rw [amountFactor, amountFactor, pow_succ']
  omega

lemma topAmount_le_amountMax (isDonation : Bool) (rounding e : ℕ) :
    topAmount isDonation e ≤ amountMax (roundIndex isDonation rounding) e := by
  have hpos := amountFactor_pos e
  cases isDonation with
  | true => exact le_refl _
  | false =>
    rw [roundIndex, if_neg (by decide)]
    by_cases hrounding : rounding < 2
    · rw [if_pos hrounding]
      obtain rfl | rfl : rounding = 0 ∨ rounding = 1 := by omega
      · rw [amountMax_closest]
        split_ifs with he
        · have := two_mul_half_amountFactor he
          omega
        · exact Nat.le_add_right _ _
      · exact le_refl _
    · rw [if_neg hrounding]
      exact Nat.le_add_right _ _

/-- The mantissa of an amount that fits an exponent does, too. -/
lemma mantissa_le (hround : rounding < 4) (hfits : amount ≤ amountMax (roundIndex isDonation rounding) e)
    (hexact : amount % amountFactor e ≠ 0 → rounding ≠ 2) :
    amount / amountFactor e + (if amount % amountFactor e ≠ 0 ∧
      (isDonation ∨ rounding = 1 ∨ (rounding = 0 ∧ amountFactor e ≤ 2 * (amount % amountFactor e))) then 1 else 0) ≤
        mantissaMax isDonation e := by
  have hpos := amountFactor_pos e
  have hmod := Nat.mod_lt amount hpos
  have hdiv := Nat.div_add_mod' amount (amountFactor e)
  -- a mantissa is above its maximum only where the amount is above the one that fits
  by_contra hlt
  have hmul := Nat.mul_le_mul_right (amountFactor e) (Nat.succ_le_of_lt (not_le.1 hlt))
  rw [Nat.succ_mul, Nat.add_mul] at hmul
  change topAmount isDonation e + amountFactor e ≤ _ at hmul
  cases isDonation with
  | true =>
    change amount ≤ topAmount true e at hfits
    split_ifs at hmul with hup <;> omega
  | false =>
    simp only [Bool.false_eq_true, false_or] at hmul
    obtain rfl | rfl | hdown : rounding = 0 ∨ rounding = 1 ∨ 2 ≤ rounding := by omega
    · change amount ≤ amountMax 0 e at hfits
      rw [amountMax_closest] at hfits
      simp only [zero_ne_one, false_or, true_and] at hmul
      rcases Nat.eq_zero_or_pos e with rfl | he
      · rw [amountFactor_zero] at *
        split_ifs at hmul hfits with hup <;> omega
      · have heven := two_mul_half_amountFactor he
        rw [if_pos he] at hfits
        split_ifs at hmul with hup <;> omega
    · change amount ≤ topAmount false e at hfits
      split_ifs at hmul with hup <;> omega
    · have hindex : roundIndex false rounding = 3 := by
        rw [roundIndex, if_neg (by decide), if_neg (by omega)]
      rw [hindex, amountMax_down] at hfits
      rw [if_neg (by omega)] at hmul
      split_ifs at hfits with he
      · subst he
        rw [amountFactor_zero] at *
        omega
      · omega

lemma roundMantissa_spec (hround : rounding < 4) (hfits : amount ≤ amountMax (roundIndex isDonation rounding) e)
    (hexact : amount % amountFactor e ≠ 0 → rounding ≠ 2) :
    roundMantissa amount isDonation rounding e = amount / amountFactor e + (if amount % amountFactor e ≠ 0 ∧
      (isDonation ∨ rounding = 1 ∨ (rounding = 0 ∧ amountFactor e ≤ 2 * (amount % amountFactor e))) then 1 else 0) ∧
    roundMantissa amount isDonation rounding e ≤ mantissaMax isDonation e := by
  have hle := mantissa_le hround hfits hexact
  have hmax : mantissaMax isDonation e ≤ 2^35 := by
    unfold mantissaMax
    cases isDonation
    · exact Nat.sub_le _ _
    · exact (Nat.sub_le _ _).trans (by decide)
  have heq : roundMantissa amount isDonation rounding e = amount / amountFactor e + (if amount % amountFactor e ≠ 0 ∧
      (isDonation ∨ rounding = 1 ∨ (rounding = 0 ∧ amountFactor e ≤ 2 * (amount % amountFactor e))) then 1 else 0) := by
    have hmod : amount / amountFactor e % 2^64 = amount / amountFactor e := Nat.mod_eq_of_lt (by omega)
    unfold roundMantissa
    dsimp only
    rw [hmod]
    split_ifs <;> rfl
  exact ⟨heq, heq ▸ hle⟩

lemma minimizeMantissa_le (n : ℕ) {k : ℕ} (hk : k ≤ mantissaMax isDonation e) :
    (minimizeMantissa n k e).1 ≤ mantissaMax isDonation (minimizeMantissa n k e).2 := by
  induction n generalizing k e with
  | zero => exact hk
  | succ n ih =>
    rw [minimizeMantissa]
    split_ifs with hstop
    · exact hk
    · exact ih ((Nat.div_le_self k 10).trans (hk.trans (mantissaMax_mono (Nat.le_succ e))))

/-- Encoding at an exponent of the window that an amount fits. -/
lemma encodeAt_fits (hround : rounding < 4) (hamount : amount ≠ 0) (he : e ≤ hi) (hmask : hi ≤ txAmountExponentMask)
    (hfits : amount ≤ amountMax (roundIndex isDonation rounding) e)
    (hexact : amount % amountFactor e ≠ 0 → rounding ≠ 2) :
    encodeAt amount isDonation hi rounding e < 2^amountBits isDonation ∧
      txAmountDecode (encodeAt amount isDonation hi rounding e) =
        roundMantissa amount isDonation rounding e * amountFactor e := by
  obtain ⟨heq, hle⟩ := roundMantissa_spec hround hfits hexact
  unfold encodeAt
  rw [if_neg (not_lt.2 he), if_neg fun h => hexact h.1 h.2]
  by_cases hzero : roundMantissa amount isDonation rounding e = 0
  · have hround2 : rounding ≠ 2 := by
      intro h2
      have hrem : amount % amountFactor e = 0 := not_not.1 fun hne => hexact hne h2
      have hquotient := (Nat.add_eq_zero_iff.1 (heq.symm.trans hzero)).1
      have hdiv := Nat.div_add_mod' amount (amountFactor e)
      rw [hquotient, hrem] at hdiv
      omega
    rw [if_pos hzero, if_neg hround2, hzero, Nat.zero_mul]
    exact ⟨Nat.two_pow_pos _, rfl⟩
  · rw [if_neg hzero]
    obtain ⟨hvalue, hexponent⟩ := minimizeMantissa_eq (hi - e) (roundMantissa amount isDonation rounding e) e
    have hpos : 0 < roundMantissa amount isDonation rounding e * amountFactor e :=
      Nat.mul_pos (Nat.pos_of_ne_zero hzero) (amountFactor_pos e)
    refine ⟨packAmount_lt (minimizeMantissa_le _ hle) (by omega), ?_⟩
    rw [txAmountDecode_pack (Nat.pos_of_mul_pos_right (hvalue ▸ hpos)) (by omega), hvalue]

/-- Encoding above the window, where no exponent holds an amount. -/
lemma encodeAt_over : encodeAt amount isDonation hi rounding (hi + 1) =
    if rounding = 2 ∨ (isDonation ∧ rounding ≠ 3) then txAmountError
    else packAmount (mantissaMax isDonation hi) hi := by
  have hmantissa : 2^amountMantissaBits isDonation - 1 + (if 0 < hi then 1 else 0) = mantissaMax isDonation hi := by
    have hpos : 0 < 2^amountMantissaBits isDonation := Nat.two_pow_pos _
    unfold mantissaMax
    split_ifs <;> omega
  rw [encodeAt, if_pos (Nat.lt_succ_self hi), hmantissa]

/-- The exponent at which an amount is encoded is the least one of the window that it fits. -/
structure LeastFit (bound : ℕ → ℕ) (window : ℕ × ℕ) (amount e : ℕ) : Prop where
  lo_le : window.1 ≤ e
  le_hi : e ≤ window.2
  fits : amount ≤ bound e
  least : window.1 < e → bound (e - 1) < amount

lemma exponentWindow_le (minExponent maxExponent : ℕ) :
    (exponentWindow minExponent maxExponent).1 ≤ (exponentWindow minExponent maxExponent).2 := le_max_right _ _

lemma exponentWindow_mask (minExponent maxExponent : ℕ) :
    (exponentWindow minExponent maxExponent).2 ≤ txAmountExponentMask := max_le (min_le_right _ _) (min_le_right _ _)

lemma txAmountEncode_zero (isDonation : Bool) (minExponent maxExponent rounding : ℕ) :
    txAmountEncode 0 isDonation minExponent maxExponent rounding = 0 := by
  simp only [txAmountEncode, if_pos]

/-- An amount is encoded at the least exponent that it fits, or above the window. -/
lemma txAmountEncode_cases (isDonation : Bool) (hamount : amount ≠ 0) (minExponent maxExponent rounding : ℕ) :
    (∃ e, LeastFit (amountMax (roundIndex isDonation (rounding % 4))) (exponentWindow minExponent maxExponent) amount e ∧
      txAmountEncode amount isDonation minExponent maxExponent rounding =
        encodeAt amount isDonation (exponentWindow minExponent maxExponent).2 (rounding % 4) e) ∨
    (amountMax (roundIndex isDonation (rounding % 4)) (exponentWindow minExponent maxExponent).2 < amount ∧
      txAmountEncode amount isDonation minExponent maxExponent rounding =
        encodeAt amount isDonation (exponentWindow minExponent maxExponent).2 (rounding % 4)
          ((exponentWindow minExponent maxExponent).2 + 1)) := by
  have hle := exponentWindow_le minExponent maxExponent
  have hunfold : txAmountEncode amount isDonation minExponent maxExponent rounding = _ := if_neg hamount
  cases hscan : scanExponent amount (roundIndex isDonation (rounding % 4)) (exponentWindow minExponent maxExponent).1
    (exponentWindow minExponent maxExponent).2 with
  | some exponent =>
    have hencode : txAmountEncode amount isDonation minExponent maxExponent rounding =
        encodeAt amount isDonation (exponentWindow minExponent maxExponent).2 (rounding % 4) exponent := by
      simp only [exponentWindow, roundIndex] at hscan
      rw [hunfold, hscan]
      rfl
    rw [hencode]
    generalize exponentWindow minExponent maxExponent = window at *
    obtain ⟨e, rfl, hlo, hhi, hbelow, habove⟩ := scanExponent_some hscan
    rcases Nat.lt_or_ge e window.2 with hlt | hge
    · exact Or.inl ⟨e + 1, ⟨by omega, hlt, habove hlt, fun _ => hbelow⟩, rfl⟩
    · obtain rfl : e = window.2 := by omega
      exact Or.inr ⟨hbelow, rfl⟩
  | none =>
    have hfits := scanExponent_none hle hscan
    have hencode : txAmountEncode amount isDonation minExponent maxExponent rounding =
        encodeAt amount isDonation (exponentWindow minExponent maxExponent).2 (rounding % 4)
          (exponentWindow minExponent maxExponent).1 := by
      simp only [exponentWindow, roundIndex] at hscan
      rw [hunfold, hscan]
      exact if_neg (not_lt.2 hfits)
    rw [hencode]
    exact Or.inl ⟨_, ⟨le_refl _, hle, hfits, fun h => absurd h (lt_irrefl _)⟩, rfl⟩

end Encode

section Rounding
variable {isDonation : Bool} {window : ℕ × ℕ} {amount e w : ℕ} {rounding : ℕ}

/-- An amount of the window is a multiple at the exponent of another amount, or below what that exponent is for. -/
lemma LeastFit.multiple_or_below
    (h : LeastFit (amountMax (roundIndex isDonation rounding)) window amount e) (hw : Representable isDonation window w) :
    amountFactor e ∣ w ∨ (window.1 < e ∧ w ≤ topAmount isDonation (e - 1) ∧ topAmount isDonation (e - 1) < amount) := by
  obtain ⟨e', k, hlo, -, hk, rfl⟩ := hw.exists_mul (h.lo_le.trans h.le_hi)
  rcases Nat.lt_or_ge e' e with hlt | hge
  · refine Or.inr ⟨by omega, ?_, (topAmount_le_amountMax isDonation rounding _).trans_lt (h.least (by omega))⟩
    exact (Nat.mul_le_mul_right _ hk).trans (topAmount_mono (by omega))
  · exact Or.inl (Dvd.dvd.mul_left (amountFactor_dvd hge) k)

lemma Representable.le_top (hw : Representable isDonation window w) (hwindow : window.1 ≤ window.2) :
    w ≤ topAmount isDonation window.2 := by
  obtain ⟨e', k, -, hhi, hk, rfl⟩ := hw.exists_mul hwindow
  exact (Nat.mul_le_mul_right _ hk).trans (topAmount_mono hhi)

lemma representable_top (hwindow : window.1 ≤ window.2) (hmask : window.2 ≤ txAmountExponentMask) :
    Representable isDonation window (topAmount isDonation window.2) :=
  representable_mul hwindow (le_refl _) hmask (le_refl _)

lemma LeastFit.representable (h : LeastFit (amountMax (roundIndex isDonation rounding)) window amount e)
    (hmask : window.2 ≤ txAmountExponentMask) (hround : rounding < 4)
    (hexact : amount % amountFactor e ≠ 0 → rounding ≠ 2) :
    Representable isDonation window (roundMantissa amount isDonation rounding e * amountFactor e) :=
  representable_mul h.lo_le h.le_hi hmask (roundMantissa_spec hround h.fits hexact).2

/-- Rounding up. -/
lemma LeastFit.isLeast (h : LeastFit (amountMax (roundIndex isDonation rounding)) window amount e)
    (hmask : window.2 ≤ txAmountExponentMask) (hround : rounding < 4) (hne : rounding ≠ 2)
    (hup : rounding = 1 ∨ isDonation = true) :
    IsLeast {w | Representable isDonation window w ∧ amount ≤ w}
      (roundMantissa amount isDonation rounding e * amountFactor e) := by
  have hmantissa : roundMantissa amount isDonation rounding e =
      amount / amountFactor e + if amount % amountFactor e ≠ 0 then 1 else 0 := by
    rw [(roundMantissa_spec hround h.fits fun _ => hne).1]
    congr 1
    rcases hup with rfl | rfl <;> simp
  refine ⟨⟨h.representable hmask hround fun _ => hne, ?_⟩, ?_⟩
  · rw [hmantissa]
    exact le_ceil (amountFactor_pos e) amount
  · rintro w ⟨hw, hle⟩
    rcases h.multiple_or_below hw with hdvd | ⟨-, hbelow, hlt⟩
    · rw [hmantissa]
      exact ceil_le_multiple (amountFactor_pos e) hdvd hle
    · omega

/-- The amounts between the largest of an exponent and the next multiple of a larger one, which the codec rounds
down past the former. -/
def GapBelow (window : ℕ × ℕ) (amount : ℕ) : Prop :=
  ∃ e, window.1 ≤ e ∧ e < window.2 ∧ amountMax 3 e < amount ∧ amount < nextAmount e

/-- The amounts that are closer to the largest of an exponent than to the next multiple of a larger one, to which
the codec rounds them. -/
def GapClosest (window : ℕ × ℕ) (amount : ℕ) : Prop :=
  ∃ e, window.1 ≤ e ∧ e < window.2 ∧ amountMax 0 e < amount ∧ 2 * amount < topAmount false e + nextAmount e

lemma topAmount_lt_nextAmount (e : ℕ) : topAmount false e < nextAmount e := by
  have hpos := amountFactor_pos (e + 1)
  rw [nextAmount, ← Nat.div_lt_iff_lt_mul hpos]
  exact Nat.lt_succ_self _

/-- Rounding down. -/
lemma LeastFit.isGreatest (h : LeastFit (amountMax (roundIndex false 3)) window amount e)
    (hmask : window.2 ≤ txAmountExponentMask)
    (hgap : ¬ GapBelow window amount) :
    IsGreatest {w | Representable false window w ∧ w ≤ amount}
      (roundMantissa amount false 3 e * amountFactor e) := by
  have hmantissa : roundMantissa amount false 3 e = amount / amountFactor e := by
    rw [(roundMantissa_spec (by decide) h.fits fun _ => by decide).1, if_neg (by simp), Nat.add_zero]
  refine ⟨⟨h.representable hmask (by decide) fun _ => by decide, ?_⟩, ?_⟩
  · rw [hmantissa]
    exact Nat.div_mul_le_self _ _
  · rintro w ⟨hw, hle⟩
    rw [hmantissa]
    rcases h.multiple_or_below hw with hdvd | ⟨hlo, hbelow, -⟩
    · exact multiple_le_floor hdvd hle
    · have hnext : nextAmount (e - 1) ≤ amount := by
        by_contra hlt
        have hhi := h.le_hi
        exact hgap ⟨e - 1, by omega, by omega, h.least hlo, not_le.1 hlt⟩
      have hdvd : amountFactor e ∣ nextAmount (e - 1) := by
        rw [nextAmount, show e - 1 + 1 = e by omega]
        exact Nat.dvd_mul_left _ _
      exact (hbelow.trans (topAmount_lt_nextAmount _).le).trans (multiple_le_floor hdvd hnext)

/-- Rounding to the closest. -/
lemma LeastFit.closest (h : LeastFit (amountMax (roundIndex false 0)) window amount e)
    (hgap : ¬ GapClosest window amount) (hw : Representable false window w) :
    Nat.dist amount (roundMantissa amount false 0 e * amountFactor e) ≤ Nat.dist amount w := by
  have hmantissa : roundMantissa amount false 0 e = amount / amountFactor e +
      if amount % amountFactor e ≠ 0 ∧ amountFactor e ≤ 2 * (amount % amountFactor e) then 1 else 0 := by
    rw [(roundMantissa_spec (by decide) h.fits fun _ => by decide).1]
    simp
  rw [hmantissa]
  rcases h.multiple_or_below hw with hdvd | ⟨hlo, hbelow, hlt⟩
  · exact closest_multiple (amountFactor_pos e) hdvd
  · have hnext : topAmount false (e - 1) + nextAmount (e - 1) ≤ 2 * amount := by
      by_contra hlt
      have hhi := h.le_hi
      exact hgap ⟨e - 1, by omega, by omega, h.least hlo, not_le.1 hlt⟩
    have hdvd : amountFactor e ∣ nextAmount (e - 1) := by
      rw [nextAmount, show e - 1 + 1 = e by omega]
      exact Nat.dvd_mul_left _ _
    refine (closest_multiple (amountFactor_pos e) hdvd).trans ?_
    have htop := topAmount_lt_nextAmount (e - 1)
    unfold Nat.dist
    omega

/-- What the code of an amount stands for. -/
structure TightRounding (isDonation : Bool) (window : ℕ × ℕ) (amount rounding code : ℕ) : Prop where
  /-- A code has `amount_bits`. -/
  code_lt : code < 2^amountBits isDonation ∨ (code = txAmountError ∧
    (rounding = 2 ∧ ¬ Representable isDonation window amount ∨
      isDonation = true ∧ rounding ≠ 3 ∧ topAmount isDonation window.2 < amount))
  /-- Without rounding the code is that of the amount, or the failure value. -/
  exact : rounding = 2 →
    (Representable isDonation window amount → txAmountDecode code = amount ∧ code < 2^amountBits isDonation) ∧
      (¬ Representable isDonation window amount → code = txAmountError)
  /-- Amounts are rounded up on request, donations always. -/
  up : rounding ≠ 2 → rounding = 1 ∨ isDonation = true → amount ≤ topAmount isDonation window.2 →
    IsLeast {w | Representable isDonation window w ∧ amount ≤ w} (txAmountDecode code)
  /-- Above the maximum the code is that of the maximum; a donation fails unless it is to be rounded down. -/
  saturates : rounding ≠ 2 → rounding = 1 ∨ isDonation = true → topAmount isDonation window.2 < amount →
    if isDonation = true ∧ rounding ≠ 3 then code = txAmountError
    else IsGreatest {w | Representable isDonation window w} (txAmountDecode code)
  down : rounding = 3 → isDonation = false → ¬ GapBelow window amount →
    IsGreatest {w | Representable isDonation window w ∧ w ≤ amount} (txAmountDecode code)
  closest : rounding = 0 → isDonation = false → ¬ GapClosest window amount →
    Representable isDonation window (txAmountDecode code) ∧
      ∀ w, Representable isDonation window w → Nat.dist amount (txAmountDecode code) ≤ Nat.dist amount w

lemma tightRounding_zero : TightRounding isDonation window 0 rounding 0 := by
  have hzero : Representable isDonation window 0 := Or.inl rfl
  refine ⟨Or.inl (Nat.two_pow_pos _), fun _ => ⟨fun _ => ⟨rfl, Nat.two_pow_pos _⟩, fun hnot => absurd hzero hnot⟩,
    fun _ _ _ => ⟨⟨hzero, le_refl _⟩, fun w _ => Nat.zero_le w⟩, fun _ _ hlt => absurd hlt (Nat.not_lt_zero _),
    fun _ _ _ => ⟨⟨hzero, le_refl _⟩, fun w hw => hw.2⟩, fun _ _ _ => ⟨hzero, fun w _ => ?_⟩⟩
  rw [show txAmountDecode 0 = 0 from rfl, Nat.dist_self]
  exact Nat.zero_le _

lemma LeastFit.tightRounding (h : LeastFit (amountMax (roundIndex isDonation rounding)) window amount e)
    (hamount : amount ≠ 0) (hmask : window.2 ≤ txAmountExponentMask) (hround : rounding < 4) :
    TightRounding isDonation window amount rounding (encodeAt amount isDonation window.2 rounding e) := by
  by_cases hexact : amount % amountFactor e ≠ 0 → rounding ≠ 2
  · obtain ⟨hcode, hdecode⟩ := encodeAt_fits hround hamount h.le_hi hmask h.fits hexact
    refine ⟨Or.inl hcode, fun h2 => ?_, fun hne hup _ => ?_, fun hne hup hlt => ?_, fun h3 hd hgap => ?_,
      fun h0 hd hgap => ⟨?_, fun w hw => ?_⟩⟩
    · have hrem : amount % amountFactor e = 0 := not_not.1 fun hne => hexact hne h2
      have hvalue : roundMantissa amount isDonation rounding e * amountFactor e = amount := by
        rw [(roundMantissa_spec hround h.fits hexact).1, if_neg fun hup => hup.1 hrem, Nat.add_zero]
        exact Nat.div_mul_cancel (Nat.dvd_of_mod_eq_zero hrem)
      have hrep := h.representable hmask hround hexact
      rw [hvalue] at hrep
      exact ⟨fun _ => ⟨hdecode.trans hvalue, hcode⟩, fun hnot => absurd hrep hnot⟩
    · exact hdecode ▸ h.isLeast hmask hround hne hup
    · have hfits : amount ≤ topAmount isDonation e := by
        have hfits := h.fits
        cases isDonation with
        | true => exact hfits
        | false =>
          obtain rfl := hup.resolve_right (by decide)
          exact hfits
      exact absurd (hfits.trans (topAmount_mono h.le_hi)) (not_le.2 hlt)
    · subst h3 hd
      exact hdecode ▸ h.isGreatest hmask hgap
    · exact hdecode ▸ h.representable hmask hround hexact
    · subst h0 hd
      exact hdecode ▸ h.closest hgap hw
  · -- without rounding an amount that is not a multiple has no code
    rw [Classical.not_imp, not_not] at hexact
    obtain ⟨hrem, rfl⟩ := hexact
    have hnot : ¬ Representable isDonation window amount := by
      intro hw
      rcases h.multiple_or_below hw with hdvd | ⟨-, hbelow, hlt⟩
      · exact hrem (Nat.mod_eq_zero_of_dvd hdvd)
      · omega
    have hcode : encodeAt amount isDonation window.2 2 e = txAmountError := by
      rw [encodeAt, if_neg (not_lt.2 h.le_hi), if_pos ⟨hrem, rfl⟩]
    exact ⟨Or.inr ⟨hcode, Or.inl ⟨rfl, hnot⟩⟩, fun _ => ⟨fun hw => absurd hw hnot, fun _ => hcode⟩,
      fun hne => absurd rfl hne, fun hne => absurd rfl hne, fun h3 => absurd h3 (by decide),
      fun h0 => absurd h0 (by decide)⟩

lemma tightRounding_over (hover : amountMax (roundIndex isDonation rounding) window.2 < amount)
    (hwindow : window.1 ≤ window.2) (hmask : window.2 ≤ txAmountExponentMask) :
    TightRounding isDonation window amount rounding (encodeAt amount isDonation window.2 rounding (window.2 + 1)) := by
  have htop := (topAmount_le_amountMax isDonation rounding window.2).trans_lt hover
  have hnot : ¬ Representable isDonation window amount := fun hw => absurd (hw.le_top hwindow) (not_le.2 htop)
  have hdecode :
      txAmountDecode (packAmount (mantissaMax isDonation window.2) window.2) = topAmount isDonation window.2 :=
    txAmountDecode_pack mantissaMax_pos hmask
  have hcode : packAmount (mantissaMax isDonation window.2) window.2 < 2^amountBits isDonation :=
    packAmount_lt (le_refl _) hmask
  have hrep : Representable isDonation window (topAmount isDonation window.2) := representable_top hwindow hmask
  rw [encodeAt_over]
  by_cases hfail : rounding = 2 ∨ (isDonation = true ∧ rounding ≠ 3)
  · rw [if_pos hfail]
    refine ⟨Or.inr ⟨rfl, ?_⟩, fun _ => ⟨fun hw => absurd hw hnot, fun _ => rfl⟩,
      fun _ _ hle => absurd hle (not_le.2 htop), fun hne _ _ => ?_, fun h3 hd _ => ?_, fun h0 hd _ => ?_⟩
    · exact hfail.imp (fun h2 => ⟨h2, hnot⟩) fun hd => ⟨hd.1, hd.2, htop⟩
    · rw [if_pos (hfail.resolve_left hne)]
    · rw [h3, hd] at hfail
      exact absurd hfail (by decide)
    · rw [h0, hd] at hfail
      exact absurd hfail (by decide)
  · rw [if_neg hfail]
    refine ⟨Or.inl hcode, fun h2 => absurd (Or.inl h2) hfail, fun _ _ hle => absurd hle (not_le.2 htop),
      fun _ _ _ => ?_, fun _ _ _ => ?_, fun _ _ _ => ?_⟩
    · rw [if_neg fun h => hfail (Or.inr h), hdecode]
      exact ⟨hrep, fun w hw => hw.le_top hwindow⟩
    · rw [hdecode]
      exact ⟨⟨hrep, htop.le⟩, fun w hw => hw.1.le_top hwindow⟩
    · rw [hdecode]
      refine ⟨hrep, fun w hw => ?_⟩
      have hle := hw.le_top hwindow
      unfold Nat.dist
      omega

/-- A representable amount is encoded exactly, in every mode of rounding. -/
lemma txAmountEncode_representable {minExponent maxExponent : ℕ} (rounding : ℕ)
    (hw : Representable isDonation (exponentWindow minExponent maxExponent) amount) :
    txAmountDecode (txAmountEncode amount isDonation minExponent maxExponent rounding) = amount := by
  have hmask := exponentWindow_mask minExponent maxExponent
  have hwindow := exponentWindow_le minExponent maxExponent
  have hround := Nat.mod_lt rounding (show 0 < 4 by decide)
  by_cases hamount : amount = 0
  · rw [hamount, txAmountEncode_zero]
    rfl
  · rcases txAmountEncode_cases isDonation hamount minExponent maxExponent rounding with
      ⟨e, hfit, hcode⟩ | ⟨hover, -⟩
    · have hrem : amount % amountFactor e = 0 := by
        rcases hfit.multiple_or_below hw with hdvd | ⟨-, hbelow, hlt⟩
        · exact Nat.mod_eq_zero_of_dvd hdvd
        · omega
      have hexact : amount % amountFactor e ≠ 0 → rounding % 4 ≠ 2 := fun hne => absurd hrem hne
      rw [hcode, (encodeAt_fits hround hamount hfit.le_hi hmask hfit.fits hexact).2,
        (roundMantissa_spec hround hfit.fits hexact).1, if_neg fun hup => hup.1 hrem, Nat.add_zero]
      exact Nat.div_mul_cancel (Nat.dvd_of_mod_eq_zero hrem)
    · have hle := hw.le_top hwindow
      exact absurd ((topAmount_le_amountMax isDonation (rounding % 4) _).trans_lt hover) (not_lt.2 hle)

/-- The codec of amounts rounds tightly, and an amount that was decoded is encoded exactly. -/
theorem txAmountEncode_tight (amount : ℕ) (isDonation : Bool) (minExponent maxExponent rounding : ℕ) :
    TightRounding isDonation (exponentWindow minExponent maxExponent) amount (rounding % 4)
      (txAmountEncode amount isDonation minExponent maxExponent rounding) ∧
    ∀ code < 2^amountBits isDonation,
      txAmountDecode (txAmountEncode (txAmountDecode code) isDonation 0 (2^32 - 1) rounding) = txAmountDecode code := by
  refine ⟨?_, fun code hcode => ?_⟩
  · have hround := Nat.mod_lt rounding (show 0 < 4 by decide)
    by_cases hamount : amount = 0
    · rw [hamount, txAmountEncode_zero]
      exact tightRounding_zero
    · rcases txAmountEncode_cases isDonation hamount minExponent maxExponent rounding with
        ⟨e, hfit, hcode⟩ | ⟨hover, hcode⟩
      · rw [hcode]
        exact hfit.tightRounding hamount (exponentWindow_mask _ _) hround
      · rw [hcode]
        exact tightRounding_over hover (exponentWindow_le _ _) (exponentWindow_mask _ _)
  · refine txAmountEncode_representable rounding (Or.inr ⟨code, hcode, Nat.zero_le _, ?_, rfl⟩)
    exact Nat.le_of_lt_succ (Nat.mod_lt code (Nat.two_pow_pos _))

/-- A donation is rounded up, also where rounding down was asked for. -/
theorem donation_roundsUp : ¬ IsGreatest {w | Representable true (exponentWindow 0 (2^32 - 1)) w ∧ w ≤ 20471}
    (txAmountDecode (txAmountEncode 20471 true 0 (2^32 - 1) 3)) := by
  intro h
  exact absurd h.1.2 (by decide)

/-- An amount in the first gap, of which rounding down loses more than it has to. -/
example : txAmountDecode (txAmountEncode (2^35 + 1) false 0 (2^32 - 1) 3) = 2^35 - 8 := by decide

end Rounding

end CredaCash.Chain
