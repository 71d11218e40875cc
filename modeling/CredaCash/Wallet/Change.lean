import CredaCash.Chain.AmountCodec
import CredaCash.Wallet.BigintOps
import CredaCash.Xreq
import Mathlib.Algebra.BigOperators.Group.Finset.Basic

/-! The change of a transaction: outputs are added until what the inputs exceed the outputs and the donation by has
been given out, and each of them makes the donation larger. -/

namespace CredaCash.Wallet
open Chain Finset

def txMaxout : ℕ := 10
def txMaxin : ℕ := 8
def walletTxMinout : ℕ := 2

/-- The defaults of the maximum exponent and the rounding of `tx_amount_encode`, -1 in 32 bits. -/
def encodeDefault : ℕ := 2^32 - 1

inductive BuildType
  | null | final | split | consolidate | cancelTx
deriving DecidableEq

/-- The parameters of the transaction server that the change depends on. -/
structure TxParams where
  outvalmin : ℕ
  outvalmax : ℕ

/-- What a donation is computed with: the bytes that `txpay_to_wire` counts for some outputs and inputs, without those
of the work, none when it fails, and the formula for a type, bytes, outputs and inputs. -/
structure DonationEnv where
  nbytes : ℕ → ℕ → Option ℕ
  donation : Option XtxType → ℕ → ℕ → ℕ → ℕ

/-- A transaction, with the amounts of its billets. -/
structure TxBuild where
  type : Option XtxType
  buildType : BuildType
  inputBills : List ℕ
  nout : ℕ
  outputBills : ℕ → ℕ
  donation : ℕ
  change : ℕ

variable (M : Modulus) (p : TxParams) (env : DonationEnv) (t : TxBuild)

/-- The outputs that a transaction has at least. `TypeIsXtx` holds of every exchange type. -/
def TxBuild.minNout : ℕ :=
  if t.buildType ≠ .final then walletTxMinout
  else match t.type with
    | none => walletTxMinout
    | some type => if type.isXreq then 1 else 0

def TxBuild.resetNout (min : ℕ) : TxBuild := { t with nout := if t.minNout < min then min else t.minNout }

/-- `ComputeDonation`; none when it throws. -/
def TxBuild.computeDonation : Option ℕ :=
  if t.type.any XtxType.hasBareMsg then some 0
  else (env.nbytes t.nout t.inputBills.length).map fun nbytes =>
    env.donation t.type nbytes t.nout t.inputBills.length

/-- The outputs while their change is computed, and whether a subtraction has gone below zero. -/
structure ChangeRun where
  outputBills : ℕ → ℕ
  change : ℕ
  remainder : ℕ
  needed : ℕ
  below : Bool

/-- What remains of the inputs, or is needed, when they pay for a total. -/
def ChangeRun.settle (r : ChangeRun) (inputs total : ℕ) : ChangeRun :=
  if inputs > total then
    { r with remainder := M.sub inputs total, needed := 0, below := r.below || decide (inputs < total) }
  else { r with remainder := 0, needed := M.sub total inputs, below := r.below || decide (total < inputs) }

/-- The change outputs from one on, of which `left` are left. -/
def changeLoop (inputs outputs donation : ℕ) : ℕ → ℕ → ChangeRun → ChangeRun
  | 0, _, r => r.settle M inputs (M.add (M.add outputs donation) r.change)
  | left+1, i, r =>
    let r := r.settle M inputs (M.add (M.add outputs donation) r.change)
    let amountFp := txAmountEncode r.remainder false p.outvalmin p.outvalmax encodeDefault
    let amount := txAmountDecode amountFp
    changeLoop inputs outputs donation left (i + 1)
      { r with outputBills := Function.update r.outputBills i amount, change := M.add r.change amount }

/-- What `ComputeChange` leaves. -/
structure ChangeResult where
  tx : TxBuild
  remainder : ℕ
  needed : ℕ
  below : Bool

/-- What `ComputeChange` returns. -/
def ChangeResult.rc (r : ChangeResult) : ℕ := if r.remainder ≠ 0 ∨ r.needed ≠ 0 then 1 else 0

def ChangeResult.shortfall (r : ChangeResult) : ℕ := r.needed

/-- A turn of the loop: the donation for the outputs that there are, and the change outputs among them. -/
def changeTurn (inputs outputs changeStart : ℕ) (below : Bool) : Option ChangeResult :=
  (t.computeDonation env).map fun donation =>
    let amountFp := txAmountEncode donation true 0 encodeDefault encodeDefault
    let donation := txAmountDecode amountFp
    let r := changeLoop M p inputs outputs donation (t.nout - changeStart) changeStart ⟨t.outputBills, 0, 0, 0, below⟩
    ⟨{ t with outputBills := r.outputBills, donation, change := r.change }, r.remainder, r.needed, r.below⟩

/-- One more output after the other, `left` of them up to the limit. -/
def computeChangeLoop (inputs outputs changeStart : ℕ) : ℕ → Bool → TxBuild → Option ChangeResult
  | 0, below, t => changeTurn M p env t inputs outputs changeStart below
  | left+1, below, t => (changeTurn M p env t inputs outputs changeStart below).bind fun r =>
    if r.remainder = 0 then some r
    else computeChangeLoop inputs outputs changeStart left r.below { r.tx with nout := r.tx.nout + 1 }

/-- `ComputeChange`; none when it throws. -/
def TxBuild.computeChange (carryIn carryOut : ℕ) : Option ChangeResult :=
  let inputs := M.sumFrom carryIn t.inputBills
  let outputs := M.sumFrom carryOut ((List.range t.nout).map t.outputBills)
  let changeStart := t.nout
  let t := t.resetNout changeStart
  computeChangeLoop M p env inputs outputs changeStart (txMaxout - t.nout) false t

/-- The amounts of the billets of a transaction, and of what is carried, are amounts. -/
structure TxBuild.Bounded (carryIn carryOut : ℕ) : Prop where
  nin_le : t.inputBills.length ≤ txMaxin
  nout_le : t.nout ≤ txMaxout
  inputs_lt : ∀ amount ∈ t.inputBills, amount < amountBound
  outputs_lt : ∀ i < t.nout, t.outputBills i < amountBound
  carryIn_lt : carryIn < amountBound
  carryOut_lt : carryOut < amountBound

/-- What the inputs pay for. -/
def TxBuild.spent (carryOut : ℕ) : ℕ := ∑ i ∈ range t.nout, t.outputBills i + carryOut + t.donation

/-- What `ComputeChange` does for a transaction. -/
structure Balances (carryIn carryOut : ℕ) (r : ChangeResult) : Prop where
  inputBills : r.tx.inputBills = t.inputBills
  outputBills : ∀ i < t.nout, r.tx.outputBills i = t.outputBills i
  nout : t.nout ≤ r.tx.nout ∧ r.tx.nout ≤ txMaxout
  balanced : r.rc = 0 → t.inputBills.sum + carryIn = r.tx.spent carryOut
  unbalanced : r.rc ≠ 0 → Xor (r.remainder ≠ 0) (r.needed ≠ 0)
  shortfall : r.shortfall = r.tx.spent carryOut - (t.inputBills.sum + carryIn)
  change : r.tx.change = ∑ i ∈ Ico t.nout r.tx.nout, r.tx.outputBills i
  change_encodable : ∀ i ∈ Ico t.nout r.tx.nout,
    Representable false (exponentWindow p.outvalmin p.outvalmax) (r.tx.outputBills i)
  donation : ∃ donation, r.tx.computeDonation env = some donation ∧
    r.tx.donation = txAmountDecode (txAmountEncode donation true 0 encodeDefault encodeDefault)
  donation_encodable : Representable true (exponentWindow 0 encodeDefault) r.tx.donation
  above_zero : r.below = false

section
variable {M p env t} {inputs outputs donation total i left carryIn carryOut : ℕ} {r : ChangeRun}

/-- With the default rounding, which is down but for donations, the code is that of an amount of the window. -/
lemma encodeDefault_representable (amount : ℕ) (isDonation : Bool) (minExponent maxExponent : ℕ) :
    Representable isDonation (exponentWindow minExponent maxExponent)
      (txAmountDecode (txAmountEncode amount isDonation minExponent maxExponent encodeDefault)) := by
  have hmask := exponentWindow_mask minExponent maxExponent
  have hround : encodeDefault % 4 = 3 := rfl
  by_cases hamount : amount = 0
  · rw [hamount, txAmountEncode_zero]
    exact Or.inl rfl
  · have hcases := txAmountEncode_cases isDonation hamount minExponent maxExponent encodeDefault
    rw [hround] at hcases
    rcases hcases with ⟨e, hfit, hcode⟩ | ⟨-, hcode⟩
    · have hexact : amount % amountFactor e ≠ 0 → 3 ≠ 2 := fun _ => by decide
      rw [hcode, (encodeAt_fits (by decide) hamount hfit.le_hi hmask hfit.fits hexact).2]
      exact hfit.representable hmask (by decide) hexact
    · rw [hcode, encodeAt_over, if_neg (by simp), txAmountDecode_pack mantissaMax_pos hmask]
      exact representable_top (exponentWindow_le _ _) hmask

lemma Representable.lt_bound {isDonation : Bool} {minExponent maxExponent v : ℕ}
    (h : Representable isDonation (exponentWindow minExponent maxExponent) v) : v < amountBound := by
  have htop : topAmount isDonation txAmountExponentMask < amountBound := by cases isDonation <;> decide
  exact ((h.le_top (exponentWindow_le _ _)).trans (topAmount_mono (exponentWindow_mask _ _))).trans_lt htop

/-- What is settled: the one subtraction that does not go below zero. -/
lemma settle_eq (hinputs : inputs < 2^253) (htotal : total < 2^253) :
    r.settle M inputs total = { r with remainder := inputs - total, needed := total - inputs } := by
  unfold ChangeRun.settle
  split_ifs with hlt
  · rw [M.sub_eq hlt.le (hinputs.trans_le M.large), decide_eq_false (not_lt.2 hlt.le), Bool.or_false,
      Nat.sub_eq_zero_of_le hlt.le]
  · rw [M.sub_eq (not_lt.1 hlt) (htotal.trans_le M.large), decide_eq_false hlt, Bool.or_false,
      Nat.sub_eq_zero_of_le (not_lt.1 hlt)]

/-- What a run over change outputs leaves. -/
structure GivesChange (p : TxParams) (inputs total i left : ℕ) (r r' : ChangeRun) : Prop where
  other : ∀ j, ¬(i ≤ j ∧ j < i + left) → r'.outputBills j = r.outputBills j
  change : r'.change = r.change + ∑ j ∈ Ico i (i + left), r'.outputBills j
  encodable : ∀ j, i ≤ j → j < i + left →
    Representable false (exponentWindow p.outvalmin p.outvalmax) (r'.outputBills j)
  remainder : r'.remainder = inputs - (total + r'.change)
  needed : r'.needed = total + r'.change - inputs
  below : r'.below = r.below

/-- The change never exceeds what the inputs leave. -/
lemma changeLoop_gives (hinputs : inputs < 2^252) (htotal : outputs + donation < 2^252)
    (hchange : r.change ≤ inputs - (outputs + donation)) :
    GivesChange p inputs (outputs + donation) i left r (changeLoop M p inputs outputs donation left i r) := by
  have hadd : M.add outputs donation = outputs + donation := M.add_eq (by omega)
  induction left generalizing i r with
  | zero =>
    rw [changeLoop, hadd, M.add_eq (by omega), settle_eq (by omega) (by omega)]
    exact ⟨fun _ _ => rfl, by simp, fun j hle hlt => absurd hle (by omega), rfl, rfl, rfl⟩
  | succ left ih =>
    rw [changeLoop, hadd, M.add_eq (by omega), settle_eq (by omega) (by omega)]
    dsimp only
    set rest := inputs - (outputs + donation + r.change) with hrest
    set amount := txAmountDecode (txAmountEncode rest false p.outvalmin p.outvalmax encodeDefault) with hamount
    have hle : amount ≤ rest := (txAmountEncode_down rest p.outvalmin p.outvalmax (by decide)).1
    rw [M.add_eq (by omega)]
    set r₁ : ChangeRun := { r with
      outputBills := Function.update r.outputBills i amount
      change := r.change + amount
      remainder := rest
      needed := outputs + donation + r.change - inputs } with hr₁
    have hgives : GivesChange p inputs (outputs + donation) (i + 1) left r₁
        (changeLoop M p inputs outputs donation left (i + 1) r₁) := ih (show r.change + amount ≤ _ by omega)
    set r' := changeLoop M p inputs outputs donation left (i + 1) r₁
    have hfirst : r'.outputBills i = amount := by
      rw [hgives.other i (by omega)]
      exact Function.update_self ..
    refine ⟨fun j hj => ?_, ?_, fun j hle hlt => ?_, hgives.remainder, hgives.needed, hgives.below⟩
    · rw [hgives.other j (by omega)]
      exact Function.update_of_ne (by omega) ..
    · have hsum : ∑ j ∈ Ico i (i + (left + 1)), r'.outputBills j =
          amount + ∑ j ∈ Ico (i + 1) (i + 1 + left), r'.outputBills j := by
        rw [sum_eq_sum_Ico_succ_bot (by omega), hfirst, show i + (left + 1) = i + 1 + left by omega]
      rw [hgives.change, hsum, ← Nat.add_assoc]
    · rcases hle.eq_or_lt with rfl | hlt'
      · rw [hfirst]
        exact encodeDefault_representable ..
      · exact hgives.encodable j hlt' (by omega)

/-- What the loop over the number of outputs leaves. -/
structure Ends (p : TxParams) (env : DonationEnv) (inputs outputs changeStart left : ℕ) (t : TxBuild) (below : Bool)
    (r : ChangeResult) : Prop where
  inputBills : r.tx.inputBills = t.inputBills
  nout : t.nout ≤ r.tx.nout ∧ r.tx.nout ≤ t.nout + left
  other : ∀ i < changeStart, r.tx.outputBills i = t.outputBills i
  change : r.tx.change = ∑ i ∈ Ico changeStart r.tx.nout, r.tx.outputBills i
  encodable : ∀ i ∈ Ico changeStart r.tx.nout,
    Representable false (exponentWindow p.outvalmin p.outvalmax) (r.tx.outputBills i)
  donation : ∃ donation, r.tx.computeDonation env = some donation ∧
    r.tx.donation = txAmountDecode (txAmountEncode donation true 0 encodeDefault encodeDefault)
  remainder : r.remainder = inputs - (outputs + r.tx.donation + r.tx.change)
  needed : r.needed = outputs + r.tx.donation + r.tx.change - inputs
  below : r.below = below

lemma changeTurn_ends {below : Bool} {r : ChangeResult} {changeStart : ℕ} (hinputs : inputs < 2^252)
    (houtputs : outputs < 2^251) (hstart : changeStart ≤ t.nout)
    (h : changeTurn M p env t inputs outputs changeStart below = some r) :
    Ends p env inputs outputs changeStart 0 t below r := by
  obtain ⟨donation, hdonation, rfl⟩ := Option.map_eq_some_iff.1 h
  dsimp only
  have hencodable := encodeDefault_representable donation true 0 encodeDefault
  set amount := txAmountDecode (txAmountEncode donation true 0 encodeDefault encodeDefault) with hamount
  have hlt : amount < 2^192 := Representable.lt_bound hencodable
  set r := changeLoop M p inputs outputs amount (t.nout - changeStart) changeStart ⟨t.outputBills, 0, 0, 0, below⟩
  have hgives :
      GivesChange p inputs (outputs + amount) changeStart (t.nout - changeStart) ⟨t.outputBills, 0, 0, 0, below⟩ r :=
    changeLoop_gives hinputs (by omega) (Nat.zero_le _)
  have hchange : r.change = ∑ i ∈ Ico changeStart t.nout, r.outputBills i := by
    rw [hgives.change, Nat.zero_add, Nat.add_sub_cancel' hstart]
  refine ⟨rfl, ⟨le_rfl, le_rfl⟩, fun i hi => hgives.other i (by omega), hchange, fun i hi => ?_, ⟨donation, hdonation, rfl⟩,
    hgives.remainder, hgives.needed, hgives.below⟩
  have hi := mem_Ico.1 hi
  exact hgives.encodable i hi.1 (hi.2.trans_eq (Nat.add_sub_cancel' hstart).symm)

lemma computeChangeLoop_ends {below : Bool} {r : ChangeResult} {changeStart : ℕ} (hinputs : inputs < 2^252)
    (houtputs : outputs < 2^251) (hstart : changeStart ≤ t.nout)
    (h : computeChangeLoop M p env inputs outputs changeStart left below t = some r) :
    Ends p env inputs outputs changeStart left t below r := by
  induction left generalizing t below with
  | zero => exact changeTurn_ends hinputs houtputs hstart h
  | succ left ih =>
    obtain ⟨r₁, hturn, h⟩ := Option.bind_eq_some_iff.1 h
    have hends := changeTurn_ends hinputs houtputs hstart hturn
    obtain ⟨hge, hle⟩ := hends.nout
    split_ifs at h with hzero
    · cases h
      exact { hends with nout := ⟨hge, by omega⟩ }
    · have hrest := ih (show changeStart ≤ r₁.tx.nout + 1 by omega) h
      have hnout : r₁.tx.nout + 1 ≤ r.tx.nout ∧ r.tx.nout ≤ r₁.tx.nout + 1 + left := hrest.nout
      exact { hrest with
        inputBills := hrest.inputBills.trans hends.inputBills
        nout := ⟨by omega, by omega⟩
        other := fun i hi => (hrest.other i hi).trans (hends.other i hi)
        below := hrest.below.trans hends.below }

lemma sum_lt_of_forall_lt {amounts : List ℕ} {n bound : ℕ} (hlength : amounts.length ≤ n) (h : ∀ a ∈ amounts, a < bound) :
    amounts.sum ≤ n * bound :=
  (List.sum_le_card_nsmul amounts bound fun a ha => (h a ha).le).trans (Nat.mul_le_mul_right bound hlength)

lemma range_map_sum (f : ℕ → ℕ) (n : ℕ) : ((List.range n).map f).sum = ∑ i ∈ range n, f i := by
  rw [← List.sum_toFinset f List.nodup_range, List.toFinset_range]

lemma minNout_le : t.minNout ≤ walletTxMinout := by
  unfold TxBuild.minNout
  split_ifs with hfinal
  · exact le_rfl
  · cases t.type with
    | none => exact le_rfl
    | some type => cases type <;> decide

lemma resetNout_nout (hnout : t.nout ≤ txMaxout) :
    t.nout ≤ (t.resetNout t.nout).nout ∧ (t.resetNout t.nout).nout ≤ txMaxout := by
  have hmin : t.minNout ≤ txMaxout := minNout_le.trans (by decide)
  unfold TxBuild.resetNout
  dsimp only
  split_ifs with hlt
  · exact ⟨le_rfl, hnout⟩
  · exact ⟨not_lt.1 hlt, hmin⟩

lemma computeChangeLoop_isSome {below : Bool} {changeStart : ℕ}
    (h : ∀ nout, (TxBuild.computeDonation env { t with nout }).isSome) :
    (computeChangeLoop M p env inputs outputs changeStart left below t).isSome := by
  have hturn : ∀ t below, (∀ nout, (TxBuild.computeDonation env { t with nout }).isSome) →
      (changeTurn M p env t inputs outputs changeStart below).isSome := by
    intro t below h
    rw [changeTurn, Option.isSome_map]
    exact h t.nout
  induction left generalizing t below with
  | zero => exact hturn t below h
  | succ left ih =>
    obtain ⟨r, hr⟩ := Option.isSome_iff_exists.1 (hturn t below h)
    rw [computeChangeLoop, hr, Option.bind_some]
    split_ifs
    · rfl
    · obtain ⟨donation, -, rfl⟩ := Option.map_eq_some_iff.1 hr
      exact ih fun nout => h nout

/-- Whatever the donation is, for any number of outputs and inputs, `ComputeChange` ends, unless the donation cannot be
computed, and the transaction balances or is short by what it says. -/
theorem computeChange_balances (M : Modulus) (p : TxParams) (env : DonationEnv) {t : TxBuild} {carryIn carryOut : ℕ}
    (h : t.Bounded carryIn carryOut) :
    (∀ r, t.computeChange M p env carryIn carryOut = some r → Balances p env t carryIn carryOut r) ∧
    ((∀ nout, (TxBuild.computeDonation env { t with nout }).isSome) →
      (t.computeChange M p env carryIn carryOut).isSome) := by
  have hends : (∀ nout, (TxBuild.computeDonation env { t with nout }).isSome) →
      (t.computeChange M p env carryIn carryOut).isSome := fun hall => by
    rw [TxBuild.computeChange]
    exact computeChangeLoop_isSome fun nout => hall nout
  refine ⟨fun r hr => ?_, hends⟩
  have hin := sum_lt_of_forall_lt h.nin_le h.inputs_lt
  have hout : ((List.range t.nout).map t.outputBills).sum ≤ txMaxout * amountBound := by
    refine sum_lt_of_forall_lt (by rw [List.length_map, List.length_range]; exact h.nout_le) fun a ha => ?_
    obtain ⟨i, hi, rfl⟩ := List.mem_map.1 ha
    exact h.outputs_lt i (List.mem_range.1 hi)
  have hcarryIn := h.carryIn_lt
  have hcarryOut := h.carryOut_lt
  simp only [txMaxin, txMaxout, amountBound] at hin hout hcarryIn hcarryOut
  obtain ⟨hge, hle⟩ := resetNout_nout h.nout_le
  rw [TxBuild.computeChange, M.sumFrom_eq (by omega), M.sumFrom_eq (by omega)] at hr
  have hends := computeChangeLoop_ends (by omega) (by omega) hge hr
  rw [range_map_sum] at hends hout
  have hnout : (t.resetNout t.nout).nout ≤ r.tx.nout ∧ r.tx.nout ≤ (t.resetNout t.nout).nout + (txMaxout - _) := hends.nout
  have hstart : t.nout ≤ r.tx.nout := hge.trans hnout.1
  have hspent : r.tx.spent carryOut =
      carryOut + ∑ i ∈ range t.nout, t.outputBills i + r.tx.donation + r.tx.change := by
    have hold : ∑ i ∈ range t.nout, r.tx.outputBills i = ∑ i ∈ range t.nout, t.outputBills i :=
      sum_congr rfl fun i hi => hends.other i (mem_range.1 hi)
    rw [TxBuild.spent, ← sum_range_add_sum_Ico _ hstart, hold, hends.change]
    omega
  have hremainder := hends.remainder
  have hneeded := hends.needed
  refine ⟨hends.inputBills, hends.other, ⟨hstart, by omega⟩, fun hrc => ?_, fun hrc => ?_, ?_, hends.change,
    hends.encodable, hends.donation, ?_, hends.below⟩
  · have hzero : ¬(r.remainder ≠ 0 ∨ r.needed ≠ 0) := fun hne => by
      rw [ChangeResult.rc, if_pos hne] at hrc
      cases hrc
    omega
  · have hne : r.remainder ≠ 0 ∨ r.needed ≠ 0 := not_not.1 fun hne => hrc (if_neg hne)
    rcases hne with hne | hne
    · exact .inl ⟨hne, by omega⟩
    · exact .inr ⟨hne, by omega⟩
  · rw [ChangeResult.shortfall, hneeded, hspent]
    omega
  · obtain ⟨donation, -, hdonation⟩ := hends.donation
    rw [hdonation]
    exact encodeDefault_representable ..

end

/-- A payment of 70 from a billet of 100, for a donation of 1 for each output. -/
def smallPayment : TxBuild := ⟨none, .final, [100], 1, fun _ => 70, 0, 0⟩

def outputDonation : DonationEnv := ⟨fun _ _ => some 0, fun _ _ nout _ => nout⟩

theorem computeChange_small : ∃ r, smallPayment.computeChange ⟨2^256, by decide⟩ ⟨0, 31⟩ outputDonation 0 0 = some r ∧
    Balances ⟨0, 31⟩ outputDonation smallPayment 0 0 r := by
  have hbounded : smallPayment.Bounded 0 0 :=
    ⟨by decide, by decide, by decide, fun _ _ => (by decide : 70 < amountBound), by decide, by decide⟩
  obtain ⟨hbalances, hisSome⟩ := computeChange_balances ⟨2^256, by decide⟩ ⟨0, 31⟩ outputDonation hbounded
  obtain ⟨r, hr⟩ := Option.isSome_iff_exists.1 (hisSome fun _ => rfl)
  exact ⟨r, hr, hbalances r hr⟩

end CredaCash.Wallet
