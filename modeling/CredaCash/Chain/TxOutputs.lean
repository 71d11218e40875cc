import CredaCash.Chain.Persistent

/-! The decimal floating point of amounts, and the outputs that the node itself creates to pay an amount out. -/

namespace CredaCash.Chain

def txAmountBits : ℕ := 40
def txDonationBits : ℕ := 16
def txAmountExponentBits : ℕ := 5
def txAmountExponentMask : ℕ := 2^txAmountExponentBits - 1
def txCcMintExponent : ℕ := 22

def amountMantissaBits (isDonation : Bool) : ℕ :=
  (if isDonation then txDonationBits else txAmountBits) - txAmountExponentBits

/-- `amount_factors`. -/
def amountFactor (exponent : ℕ) : ℕ := 10^exponent

/-- `amount_maxs`: the largest amount that an exponent can hold, where the first index is 2 for donations,
1 for rounding up, 0 to the closest and 3 down. -/
def amountMax (roundIndex exponent : ℕ) : ℕ :=
  let amountMax1 := (2^amountMantissaBits false - if exponent = 0 then 1 else 0) * amountFactor exponent
  match roundIndex with
  | 2 => (2^amountMantissaBits true - if exponent = 0 then 1 else 0) * amountFactor exponent
  | 1 => amountMax1
  | 0 => amountMax1 + amountFactor exponent / 2 - if 0 < exponent then 1 else 0
  | _ => amountMax1 + if exponent = 0 then 0 else amountFactor exponent - 1

def txAmountDecode (amount : ℕ) : ℕ :=
  let exponent := amount % 2^txAmountExponentBits
  (amount / 2^txAmountExponentBits + if 0 < exponent then 1 else 0) * amountFactor exponent

/-- The value -1 that stands for an amount that cannot be encoded. -/
def txAmountError : ℕ := 2^64 - 1

/-- The scan of `tx_amount_encode` for the exponent: one above the first that is too small, from the top
down, or none where all of them will do. -/
def scanExponent (amount roundIndex minExponent : ℕ) : ℕ → Option ℕ
  | 0 => if minExponent = 0 ∧ amountMax roundIndex 0 < amount then some 1 else none
  | exponent+1 =>
    if exponent + 1 < minExponent then none
    else if amountMax roundIndex (exponent + 1) < amount then some (exponent + 2)
    else scanExponent amount roundIndex minExponent exponent

/-- Minimize the mantissa: the loop that divides by ten, with the room left for the exponent. -/
def minimizeMantissa : ℕ → ℕ → ℕ → ℕ × ℕ
  | 0, mantissa, exponent => (mantissa, exponent)
  | n+1, mantissa, exponent =>
    if mantissa / 10 * 10 ≠ mantissa then (mantissa, exponent)
    else minimizeMantissa n (mantissa / 10) (exponent + 1)

/-- The code of a mantissa and an exponent. -/
def packAmount (mantissa exponent : ℕ) : ℕ :=
  (mantissa - if 0 < exponent then 1 else 0) * 2^txAmountExponentBits + exponent

/-- The mantissa at an exponent, rounded. -/
def roundMantissa (amount : ℕ) (isDonation : Bool) (rounding exponent : ℕ) : ℕ :=
  let mantissa := amount / amountFactor exponent % 2^64
  let rem := amount % amountFactor exponent
  if rem ≠ 0 ∧ (isDonation ∨ rounding = 1 ∨ (rounding = 0 ∧ amountFactor exponent ≤ 2 * rem)) then mantissa + 1
  else mantissa

/-- The part of `tx_amount_encode` that follows the choice of the exponent. -/
def encodeAt (amount : ℕ) (isDonation : Bool) (maxExponent rounding exponent : ℕ) : ℕ :=
  if maxExponent < exponent then
    if rounding = 2 ∨ (isDonation ∧ rounding ≠ 3) then txAmountError
    else packAmount (2^amountMantissaBits isDonation - 1 + if 0 < maxExponent then 1 else 0) maxExponent
  else if amount % amountFactor exponent ≠ 0 ∧ rounding = 2 then txAmountError
  else
    let mantissa := roundMantissa amount isDonation rounding exponent
    if mantissa = 0 then if rounding = 2 then txAmountError else 0
    else
      let (mantissa, exponent) := minimizeMantissa (maxExponent - exponent) mantissa exponent
      packAmount mantissa exponent

/-- `tx_amount_encode`; the rounding is 0 to the closest, 1 up, 2 not at all and 3 down. -/
def txAmountEncode (amount : ℕ) (isDonation : Bool) (minExponent maxExponent rounding : ℕ) : ℕ :=
  let minExponent := min minExponent txAmountExponentMask
  let maxExponent := max (min maxExponent txAmountExponentMask) minExponent
  let rounding := rounding % 4
  let roundIndex := if isDonation then 2 else if rounding < 2 then rounding else 3
  if amount = 0 then 0
  else
    match scanExponent amount roundIndex minExponent maxExponent with
    | some exponent => encodeAt amount isDonation maxExponent rounding exponent
    | none =>
      -- every exponent will do, and the smallest is the most precise
      if amountMax roundIndex minExponent < amount then if rounding = 2 then txAmountError else minExponent
      else encodeAt amount isDonation maxExponent rounding minExponent

section Encode
variable {amount minExponent maxExponent : ℕ}

/-- A packed amount decodes to its mantissa times the power of its exponent. -/
lemma txAmountDecode_pack {mantissa exponent : ℕ} (hm : 0 < mantissa) (he : exponent ≤ txAmountExponentMask) :
    txAmountDecode (packAmount mantissa exponent) = mantissa * amountFactor exponent := by
  have he : exponent < 2^txAmountExponentBits := by
    have : txAmountExponentMask + 1 = 2^txAmountExponentBits := rfl
    omega
  have hmod : packAmount mantissa exponent % 2^txAmountExponentBits = exponent := by
    rw [packAmount, Nat.mul_add_mod', Nat.mod_eq_of_lt he]
  have hdiv : packAmount mantissa exponent / 2^txAmountExponentBits = mantissa - if 0 < exponent then 1 else 0 := by
    rw [packAmount, Nat.mul_comm, Nat.mul_add_div (Nat.two_pow_pos _), Nat.div_eq_of_lt he, Nat.add_zero]
  rw [txAmountDecode, hmod, hdiv]
  congr 1
  split_ifs <;> omega

/-- Minimizing a mantissa keeps the amount. -/
lemma minimizeMantissa_eq (n mantissa exponent : ℕ) :
    (minimizeMantissa n mantissa exponent).1 * amountFactor (minimizeMantissa n mantissa exponent).2 =
      mantissa * amountFactor exponent ∧ (minimizeMantissa n mantissa exponent).2 ≤ exponent + n := by
  induction n generalizing mantissa exponent with
  | zero => exact ⟨rfl, le_refl _⟩
  | succ n ih =>
    rw [minimizeMantissa]
    split_ifs with hstop
    · exact ⟨rfl, Nat.le_add_right _ _⟩
    · obtain ⟨hvalue, hle⟩ := ih (mantissa / 10) (exponent + 1)
      refine ⟨hvalue.trans ?_, by omega⟩
      rw [amountFactor, pow_succ', ← Nat.mul_assoc, not_not.1 hstop]
      rfl

/-- What the scan finds: the exponent below is too small, and the exponent itself will do if it is allowed. -/
lemma scanExponent_some {roundIndex exponent : ℕ}
    (h : scanExponent amount roundIndex minExponent maxExponent = some exponent) :
    ∃ e, exponent = e + 1 ∧ minExponent ≤ e ∧ e ≤ maxExponent ∧ amountMax roundIndex e < amount ∧
      (e + 1 ≤ maxExponent → amount ≤ amountMax roundIndex (e + 1)) := by
  induction maxExponent with
  | zero =>
    rw [scanExponent] at h
    split_ifs at h with hmax
    exact ⟨0, (Option.some_inj.1 h).symm, by omega, le_refl 0, hmax.2, fun hle => by omega⟩
  | succ max ih =>
    rw [scanExponent] at h
    split_ifs at h with hmin hmax
    · exact ⟨max + 1, (Option.some_inj.1 h).symm, by omega, le_refl _, hmax, fun hle => by omega⟩
    · obtain ⟨e, he, hemin, hemax, hbelow, habove⟩ := ih h
      refine ⟨e, he, hemin, by omega, hbelow, fun hle => ?_⟩
      rcases Nat.lt_or_ge max (e + 1) with hlast | hlast
      · rw [show e + 1 = max + 1 by omega]
        exact not_lt.1 hmax
      · exact habove hlast

lemma scanExponent_none {roundIndex : ℕ} (hle : minExponent ≤ maxExponent)
    (h : scanExponent amount roundIndex minExponent maxExponent = none) : amount ≤ amountMax roundIndex minExponent := by
  induction maxExponent with
  | zero =>
    obtain rfl : minExponent = 0 := by omega
    rw [scanExponent] at h
    split_ifs at h with hmax
    simpa using hmax
  | succ max ih =>
    rw [scanExponent] at h
    split_ifs at h with hmin hmax
    · omega
    · rcases Nat.lt_or_ge max minExponent with hlast | hlast
      · rw [show minExponent = max + 1 by omega]
        exact not_lt.1 hmax
      · exact ih hlast h

lemma amountFactor_pos (exponent : ℕ) : 0 < amountFactor exponent := Nat.pow_pos (by decide)

/-- The amounts that fit an exponent, rounding down. -/
lemma div_amountFactor_le {exponent : ℕ} (h : amount ≤ amountMax 3 exponent) :
    amount / amountFactor exponent ≤ 2^35 := by
  have hpos := amountFactor_pos exponent
  rw [← Nat.lt_succ_iff, Nat.div_lt_iff_lt_mul hpos, Nat.succ_mul]
  have hmax : amountMax 3 exponent = (2^35 - if exponent = 0 then 1 else 0) * amountFactor exponent +
    if exponent = 0 then 0 else amountFactor exponent - 1 := rfl
  split_ifs at hmax with hzero
  · have hle : (2^35 - 1) * amountFactor exponent ≤ 2^35 * amountFactor exponent := Nat.mul_le_mul_right _ (by decide)
    omega
  · rw [Nat.sub_zero] at hmax
    omega

/-- The largest mantissa that is packed at an exponent does not exceed the amounts that do not fit it. -/
lemma mantissa_le_amountMax (exponent : ℕ) :
    (2^35 - 1 + if 0 < exponent then 1 else 0) * amountFactor exponent ≤ amountMax 3 exponent := by
  refine le_trans (Nat.mul_le_mul_right _ ?_) (Nat.le_add_right _ _)
  have : 2^amountMantissaBits false = 2^35 := rfl
  split_ifs <;> omega

lemma amountFactor_succ_le (exponent : ℕ) : amountFactor (exponent + 1) ≤ amountMax 3 exponent := by
  refine le_trans ?_ (mantissa_le_amountMax exponent)
  rw [amountFactor, pow_succ', amountFactor]
  exact Nat.mul_le_mul_right _ (by omega)

/-- Encoding down at an exponent. -/
lemma encodeAt_down {exponent : ℕ} (hmask : maxExponent ≤ txAmountExponentMask)
    (hfit : exponent ≤ maxExponent → amount ≤ amountMax 3 exponent)
    (hover : maxExponent < exponent → amountMax 3 maxExponent < amount) :
    txAmountDecode (encodeAt amount false maxExponent 3 exponent) ≤ amount ∧
      (txAmountDecode (encodeAt amount false maxExponent 3 exponent) = 0 → amount < amountFactor exponent) := by
  unfold encodeAt
  by_cases hmax : maxExponent < exponent
  · have hbits : 2^amountMantissaBits false = 2^35 := rfl
    rw [if_pos hmax, if_neg (by decide), hbits, txAmountDecode_pack (by split_ifs <;> omega) hmask]
    refine ⟨(mantissa_le_amountMax maxExponent).trans (hover hmax).le, fun hzero => ?_⟩
    rcases Nat.mul_eq_zero.1 hzero with hzero | hzero
    · exact absurd hzero (by split_ifs <;> decide)
    · exact absurd hzero (amountFactor_pos _).ne'
  · have hfit := hfit (not_lt.1 hmax)
    have hround : roundMantissa amount false 3 exponent = amount / amountFactor exponent := by
      have hlt : amount / amountFactor exponent < 2^64 := lt_of_le_of_lt (div_amountFactor_le hfit) (by decide)
      rw [roundMantissa, if_neg (by simp), Nat.mod_eq_of_lt hlt]
    rw [if_neg hmax, if_neg (by simp), hround]
    by_cases hzero : amount / amountFactor exponent = 0
    · rw [if_pos hzero, if_neg (by decide)]
      refine ⟨Nat.zero_le _, fun _ => ?_⟩
      exact (Nat.div_eq_zero_iff.1 hzero).resolve_left (amountFactor_pos exponent).ne'
    · rw [if_neg hzero]
      obtain ⟨hvalue, hle⟩ :=
        minimizeMantissa_eq (maxExponent - exponent) (amount / amountFactor exponent) exponent
      have hpos : 0 < amount / amountFactor exponent * amountFactor exponent :=
        Nat.mul_pos (Nat.pos_of_ne_zero hzero) (amountFactor_pos exponent)
      rw [txAmountDecode_pack (Nat.pos_of_mul_pos_right (hvalue ▸ hpos)) (by omega), hvalue]
      exact ⟨Nat.div_mul_le_self _ _, fun h => absurd h hpos.ne'⟩

/-- Encoding down never exceeds an amount, and loses all of it only when the least exponent is too coarse. -/
theorem txAmountEncode_down (amount minExponent maxExponent : ℕ) {rounding : ℕ} (hround : rounding % 4 = 3) :
    txAmountDecode (txAmountEncode amount false minExponent maxExponent rounding) ≤ amount ∧
      (txAmountDecode (txAmountEncode amount false minExponent maxExponent rounding) = 0 →
        amount < amountFactor (min minExponent txAmountExponentMask)) := by
  have hindex : (if false = true then 2 else if rounding % 4 < 2 then rounding % 4 else 3) = 3 := by
    rw [if_neg (by decide), hround, if_neg (by decide)]
  have hmask :
      max (min maxExponent txAmountExponentMask) (min minExponent txAmountExponentMask) ≤ txAmountExponentMask :=
    max_le (min_le_right _ _) (min_le_right _ _)
  have hmin : min minExponent txAmountExponentMask ≤
    max (min maxExponent txAmountExponentMask) (min minExponent txAmountExponentMask) := le_max_right _ _
  simp only [txAmountEncode, hindex]
  rw [hround]
  generalize min minExponent txAmountExponentMask = least at *
  generalize max (min maxExponent txAmountExponentMask) least = greatest at *
  by_cases hamount : amount = 0
  · rw [if_pos hamount, hamount]
    exact ⟨Nat.zero_le _, fun _ => amountFactor_pos least⟩
  · rw [if_neg hamount]
    split
    · next exponent hscan =>
      obtain ⟨e, rfl, hle, hle', hbelow, habove⟩ := scanExponent_some hscan
      have hover : greatest < e + 1 → amountMax 3 greatest < amount := by
        intro hlt
        rwa [show greatest = e by omega]
      obtain ⟨hdown, hzero⟩ := encodeAt_down hmask habove hover
      refine ⟨hdown, fun h => ?_⟩
      -- an exponent above the least one is taken only for an amount that reaches it
      exact absurd (hzero h) (not_lt.2 ((amountFactor_succ_le e).trans hbelow.le))
    · next hscan =>
      have hfit := scanExponent_none hmin hscan
      rw [if_neg (not_lt.2 hfit)]
      exact encodeAt_down hmask (fun _ => hfit) fun hlt => absurd hmin (not_le.2 hlt)

end Encode

/-- An output that the node creates. -/
structure TxOutput where
  asset : ℕ
  dest : ℕ
  amountFp : ℕ
  deriving DecidableEq

/-- The exponents of outputs of the base currency, and what may stop the creation of outputs: a shutdown
before the output of a given index, or an error of the database at it. -/
structure OutputEnv where
  outvalmin : ℕ
  outvalmax : ℕ
  shutdown : ℕ → Bool
  dbFails : ℕ → Bool

/-- The least and the greatest exponent of the outputs of `CreateTxOutputs`. -/
def OutputEnv.exponents (env : OutputEnv) (asset : ℕ) (isMint : Bool) : ℕ × ℕ :=
  if isMint then (txCcMintExponent, txCcMintExponent)
  else if asset = 0 then (env.outvalmin, env.outvalmax)
  else (0, 2^32 - 1)

/-- The loop of `CreateTxOutputs`, with the outputs and what remains of the total. Every output makes the
total smaller. -/
def createTxOutputsLoop (env : OutputEnv) (asset dest : ℕ) (exponents : ℕ × ℕ) (oneOutput : Bool) :
    ℕ → ℕ → ℕ → Option (List TxOutput × ℕ)
  | 0, _, total => some ([], total)
  | n+1, index, total =>
    if total = 0 ∨ env.shutdown index then some ([], total)
    else
      let amountFp := txAmountEncode total false exponents.1 exponents.2 (2^32 - 1)
      let amount := txAmountDecode amountFp
      if amount = 0 then some ([], total)
      else if env.dbFails index then none
      -- the assertion that an output does not exceed the total
      else if total < amount then none
      else if oneOutput then some ([⟨asset, dest, amountFp⟩], total - amount)
      else (createTxOutputsLoop env asset dest exponents oneOutput n (index + 1) (total - amount)).map fun r =>
        (⟨asset, dest, amountFp⟩ :: r.1, r.2)

/-- `CreateTxOutputs`: the outputs and the remainder of the total, or none for an error. -/
def createTxOutputs (env : OutputEnv) (asset total dest : ℕ) (oneOutput isMint : Bool) : Option (List TxOutput × ℕ) :=
  if dest = 0 then none
  else createTxOutputsLoop env asset dest (env.exponents asset isMint) oneOutput total 0 total

/-- The coins in a list of outputs. -/
def paidOut (outputs : List TxOutput) : ℕ := (outputs.map fun o => txAmountDecode o.amountFp).sum

@[simp] lemma paidOut_nil : paidOut [] = 0 := rfl

@[simp] lemma paidOut_cons (o : TxOutput) (outputs : List TxOutput) :
    paidOut (o :: outputs) = txAmountDecode o.amountFp + paidOut outputs := rfl

section Outputs
variable {env : OutputEnv} {asset dest total : ℕ} {oneOutput isMint : Bool} {outputs : List TxOutput} {rest : ℕ}

lemma createTxOutputsLoop_spec {exponents : ℕ × ℕ} {n index : ℕ} (hn : total ≤ n)
    (h : createTxOutputsLoop env asset dest exponents oneOutput n index total = some (outputs, rest)) :
    paidOut outputs + rest = total ∧ (∀ o ∈ outputs, o.asset = asset ∧ o.dest = dest) ∧
      (oneOutput = false → (∀ i, env.shutdown i = false) →
        rest < amountFactor (min exponents.1 txAmountExponentMask)) := by
  induction n generalizing index total outputs with
  | zero =>
    obtain ⟨rfl, rfl⟩ := Prod.ext_iff.1 (Option.some_inj.1 h)
    refine ⟨by simp, fun o ho => absurd ho List.not_mem_nil, fun _ _ => ?_⟩
    rw [Nat.le_zero.1 hn]
    exact amountFactor_pos _
  | succ n ih =>
    obtain ⟨hdown, hzero⟩ := txAmountEncode_down total exponents.1 exponents.2
      (show (2^32 - 1) % 4 = 3 by decide)
    simp only [createTxOutputsLoop] at h
    split_ifs at h with hstop hnone hfails hassert hone
    · obtain ⟨rfl, rfl⟩ := Prod.ext_iff.1 (Option.some_inj.1 h)
      refine ⟨by simp, fun o ho => absurd ho List.not_mem_nil, fun _ hrun => ?_⟩
      rcases hstop with hstop | hstop
      · rw [hstop]
        exact amountFactor_pos _
      · rw [hrun] at hstop
        cases hstop
    · obtain ⟨rfl, rfl⟩ := Prod.ext_iff.1 (Option.some_inj.1 h)
      exact ⟨by simp, fun o ho => absurd ho List.not_mem_nil, fun _ _ => hzero hnone⟩
    · obtain ⟨rfl, rfl⟩ := Prod.ext_iff.1 (Option.some_inj.1 h)
      refine ⟨?_, fun o ho => ?_, fun hall => absurd (hone.symm.trans hall) (by decide)⟩
      · simp only [paidOut_cons, paidOut_nil]
        omega
      · rw [List.mem_singleton.1 ho]
        exact ⟨rfl, rfl⟩
    · obtain ⟨⟨outputs', rest'⟩, hloop, hr⟩ := Option.map_eq_some_iff.1 h
      obtain ⟨rfl, rfl⟩ := Prod.ext_iff.1 hr
      obtain ⟨hsum, hdest, hrest⟩ := ih (by omega) hloop
      refine ⟨?_, fun o ho => ?_, hrest⟩
      · simp only [paidOut_cons]
        omega
      · rcases List.mem_cons.1 ho with rfl | ho
        · exact ⟨rfl, rfl⟩
        · exact hdest o ho

/-- The outputs and the remainder are the total, and all outputs go to the destination. -/
theorem createTxOutputs_spec (h : createTxOutputs env asset total dest oneOutput isMint = some (outputs, rest)) :
    paidOut outputs + rest = total ∧ (∀ o ∈ outputs, o.asset = asset ∧ o.dest = dest) ∧
      (oneOutput = false → (∀ i, env.shutdown i = false) →
        rest < amountFactor (min (env.exponents asset isMint).1 txAmountExponentMask)) := by
  rw [createTxOutputs] at h
  split_ifs at h
  exact createTxOutputsLoop_spec (le_refl total) h

/-- Without errors of the database outputs are created for every destination. -/
theorem createTxOutputs_isSome (hdb : ∀ i, env.dbFails i = false) (hdest : dest ≠ 0) :
    ∃ outputs rest, createTxOutputs env asset total dest oneOutput isMint = some (outputs, rest) := by
  have hloop (n index total : ℕ) (exponents : ℕ × ℕ) :
      ∃ outputs rest, createTxOutputsLoop env asset dest exponents oneOutput n index total = some (outputs, rest) := by
    induction n generalizing index total with
    | zero => exact ⟨[], total, rfl⟩
    | succ n ih =>
      obtain ⟨hdown, -⟩ := txAmountEncode_down total exponents.1 exponents.2
        (show (2^32 - 1) % 4 = 3 by decide)
      simp only [createTxOutputsLoop]
      split_ifs with hstop hnone hfails hassert hone
      · exact ⟨[], total, rfl⟩
      · exact ⟨[], total, rfl⟩
      · rw [hdb] at hfails
        cases hfails
      · omega
      · exact ⟨_, _, rfl⟩
      · obtain ⟨outputs, rest, h⟩ :=
            ih (index + 1) (total - txAmountDecode (txAmountEncode total false exponents.1 exponents.2 (2^32 - 1)))
        rw [h]
        exact ⟨_, _, rfl⟩
  rw [createTxOutputs, if_neg hdest]
  exact hloop _ _ _ _

end Outputs

end CredaCash.Chain
