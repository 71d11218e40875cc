import CredaCash.Wallet.Change
import CredaCash.Wallet.Distribution
import Mathlib.Algebra.Order.BigOperators.Group.Finset

/-! The amounts that the wallet reports for the outputs of a transaction: each has its part of the donation, and of what
the inputs exceed the outputs by. -/

namespace CredaCash.Wallet
open Finset ProRata

/-- The types of a secret that is a destination, in their order. -/
inductive Destination
  | spendable | track | watch | send
deriving DecidableEq

def Destination.typeIsWatchOnly (d : Destination) : Bool := d = .track || d = .watch

def Destination.fromThisWallet (d : Destination) (incwatch : Bool) : Bool :=
  d = .spendable || (incwatch && d.typeIsWatchOnly)

/-- An output billet with its destination. -/
structure OutputBill where
  asset : ℕ
  amount : ℕ
  isChange : Bool
  destination : Destination

/-- An input billet with its destination. -/
structure InputBill where
  asset : ℕ
  amount : ℕ
  destination : Destination

/-- A transaction that is reported. `weSent` has what has been computed before. -/
structure ReportedTx where
  nout : ℕ
  outputBills : ℕ → OutputBill
  inputBills : List InputBill
  donation : ℕ
  adjAmounts : ℕ → ℕ
  adjDonations : ℕ → ℕ
  weSent : Bool → Option Bool

namespace ReportedTx
variable (M : Modulus) (t : ReportedTx) (incwatch : Bool) (carryIn carryOut : ℕ)

def amount (i : ℕ) : ℕ := (t.outputBills i).amount
def isAsset0 (i : ℕ) : Bool := (t.outputBills i).asset = 0
def isSent (i : ℕ) : Bool := t.isAsset0 i && !(t.outputBills i).isChange
def leavesWallet (i : ℕ) : Bool := t.isAsset0 i && !(t.outputBills i).destination.fromThisWallet false
def hasAmount (i : ℕ) : Bool := t.isAsset0 i && t.amount i ≠ 0

def sumWhere (sel : ℕ → Bool) (first : ℕ) : ℕ := M.sumFrom first (((List.range t.nout).filter sel).map t.amount)

def totalSent : ℕ := t.sumWhere M t.isSent 0
def sumOut : ℕ := t.sumWhere M t.isAsset0 carryOut
def sumIn : ℕ := M.sumFrom carryIn ((t.inputBills.filter (·.asset = 0)).map InputBill.amount)

/-- What the inputs exceed the outputs and the donation by, and whether a subtraction goes below zero. -/
def excessIn : ℕ × Bool :=
  if t.sumIn M carryIn > M.add (t.sumOut M carryOut) t.donation then
    (M.sub (M.sub (t.sumIn M carryIn) (t.sumOut M carryOut)) t.donation,
      decide (t.sumIn M carryIn < t.sumOut M carryOut) ||
        decide (M.sub (t.sumIn M carryIn) (t.sumOut M carryOut) < t.donation))
  else (0, false)

def sumSent : ℕ := M.add (t.sumWhere M t.leavesWallet 0) (t.excessIn M carryIn carryOut).1

/-- `WeSent`, which calls `CalcWeSent` where it has not been called before. -/
def calcWeSent : Bool :=
  (t.weSent incwatch).getD (t.inputBills.any fun bill => bill.destination.fromThisWallet incwatch)

def netDonation : ℕ :=
  if t.calcWeSent incwatch then M.add t.donation (t.excessIn M carryIn carryOut).1 else 0

def donationShares : Shares :=
  correct M t.isSent id t.nout (t.netDonation M incwatch carryIn carryOut) maxIters
    (assign M (fun i => t.isSent i && t.totalSent M ≠ 0) t.nout
      (fun i => M.share (t.netDonation M incwatch carryIn carryOut) (t.totalSent M) (t.amount i))
      ⟨t.adjDonations, 0, (t.excessIn M carryIn carryOut).2⟩)

def amountShares : Shares :=
  correct M t.hasAmount (· + 1) t.nout (t.sumSent M carryIn carryOut) maxIters
    (assign M (fun i => t.hasAmount i && t.sumSent M carryIn carryOut ≠ 0) t.nout
      (fun i => M.add (t.amount i)
        (M.share (t.excessIn M carryIn carryOut).1 (t.sumSent M carryIn carryOut) (t.amount i)))
      ⟨t.adjAmounts, 0, false⟩)

/-- `SetAdjustedAmounts`, and whether a subtraction has gone below zero or an index was not that of an output. A
transaction without outputs has its donation in the first place of the array, which is not taken for such an index. -/
def setAdjustedAmounts : ReportedTx × Bool :=
  let weSent := Function.update t.weSent incwatch (some (t.calcWeSent incwatch))
  if t.nout = 0 then
    ({ t with weSent, adjDonations := Function.update t.adjDonations 0 (t.netDonation M incwatch carryIn carryOut) },
      (t.excessIn M carryIn carryOut).2)
  else
    let d := t.donationShares M incwatch carryIn carryOut
    let a := t.amountShares M carryIn carryOut
    ({ t with weSent, adjAmounts := a.adj, adjDonations := d.adj }, d.fault || a.fault)

/-- The amounts of a transaction, and what is carried, are amounts, and what earlier calls have left is in range. -/
structure Bounded (M : Modulus) (t : ReportedTx) (carryIn carryOut : ℕ) : Prop where
  nin_le : t.inputBills.length ≤ txMaxin
  nout_le : t.nout ≤ txMaxout
  inputs_lt : ∀ bill ∈ t.inputBills, bill.amount < amountBound
  outputs_lt : ∀ i < t.nout, t.amount i < amountBound
  donation_lt : t.donation < amountBound
  carryIn_lt : carryIn < amountBound
  carryOut_lt : carryOut < amountBound
  adjAmounts_lt : ∀ i, t.adjAmounts i < M.n
  adjDonations_lt : ∀ i, t.adjDonations i < M.n

/-- The amounts of some outputs together. -/
def total (sel : ℕ → Bool) : ℕ := ∑ i ∈ range t.nout with sel i, t.amount i

def paidIn : ℕ := carryIn + ((t.inputBills.filter (·.asset = 0)).map InputBill.amount).sum
def paidOut : ℕ := carryOut + t.total t.isAsset0 + t.donation

/-- The excess input. -/
def excess : ℕ := t.paidIn carryIn - t.paidOut carryOut

/-- The donation of a transaction of this wallet, with the excess input. -/
def donated : ℕ := if t.calcWeSent incwatch then t.donation + t.excess carryIn carryOut else 0

/-- What leaves the wallet, with the excess input. -/
def leaving : ℕ := t.total t.leavesWallet + t.excess carryIn carryOut

/-- The reported amounts add up. -/
structure Reported : Prop where
  donations : (∃ i < t.nout, t.isSent i ∧ t.amount i ≠ 0) →
    ∑ i ∈ range t.nout with t.isSent i, (t.setAdjustedAmounts M incwatch carryIn carryOut).1.adjDonations i =
      t.donated incwatch carryIn carryOut
  amounts : ∀ i < t.nout, t.hasAmount i →
    t.amount i ≤ (t.setAdjustedAmounts M incwatch carryIn carryOut).1.adjAmounts i ∧
    (t.paidIn carryIn ≤ t.paidOut carryOut →
      (t.setAdjustedAmounts M incwatch carryIn carryOut).1.adjAmounts i = t.amount i)
  total : ∑ i ∈ range t.nout with t.hasAmount i, (t.setAdjustedAmounts M incwatch carryIn carryOut).1.adjAmounts i =
    t.total t.hasAmount + t.excess carryIn carryOut
  inside : (t.setAdjustedAmounts M incwatch carryIn carryOut).2 = false
  again : ((t.setAdjustedAmounts M incwatch carryIn carryOut).1.setAdjustedAmounts M incwatch carryIn carryOut).1 =
    (t.setAdjustedAmounts M incwatch carryIn carryOut).1

/-- When the reported donations add up: nothing is sent and nothing is donated, or the donation is spread over what is
sent. -/
def DonationsAddUp : Prop :=
  if t.total t.isSent = 0 then t.donated incwatch carryIn carryOut = 0 ∨ ∀ i < t.nout, ¬t.isSent i
  else Spreads M t.isSent t.nout (t.donated incwatch carryIn carryOut) (t.total t.isSent) t.amount t.adjDonations

/-- When the reported amounts add up: nothing leaves the wallet and the amounts are there already, or every amount leaves
the wallet and the shares of the excess input reach it. -/
def AmountsAddUp : Prop :=
  if t.leaving carryIn carryOut = 0 then ∀ i < t.nout, t.hasAmount i → t.adjAmounts i = t.amount i
  else (∀ i < t.nout, t.hasAmount i → t.leavesWallet i) ∧
    Reaches M t.hasAmount t.nout (t.excess carryIn carryOut) (t.leaving carryIn carryOut) t.amount

instance : Decidable (t.DonationsAddUp M incwatch carryIn carryOut) := by
  unfold DonationsAddUp
  infer_instance

instance : Decidable (t.AmountsAddUp M carryIn carryOut) := by
  unfold AmountsAddUp
  infer_instance

section
variable {M t incwatch carryIn carryOut}

lemma sumWhere_eq {sel : ℕ → Bool} {first : ℕ} (h : first + t.total sel < 2^253) :
    t.sumWhere M sel first = first + t.total sel := by
  have hsum : (((List.range t.nout).filter sel).map t.amount).sum = t.total sel := by
    rw [total, ← List.sum_toFinset _ (List.nodup_range.filter _), List.toFinset_filter, List.toFinset_range]
  rw [sumWhere, M.sumFrom_eq (by omega), hsum]

lemma Bounded.total_le (h : Bounded M t carryIn carryOut) (sel : ℕ → Bool) : t.total sel ≤ txMaxout * amountBound := by
  have hle : t.total sel ≤ #{i ∈ range t.nout | sel i} * amountBound :=
    sum_le_card_nsmul _ _ _ fun i hi => (h.outputs_lt i (mem_range.1 (mem_filter.1 hi).1)).le
  refine hle.trans (Nat.mul_le_mul_right _ ?_)
  exact ((card_filter_le _ _).trans_eq (card_range _)).trans h.nout_le

lemma Bounded.paidIn_le (h : Bounded M t carryIn carryOut) : t.paidIn carryIn ≤ (txMaxin + 1) * amountBound := by
  have hle : ((t.inputBills.filter (·.asset = 0)).map InputBill.amount).sum ≤ txMaxin * amountBound := by
    refine sum_lt_of_forall_lt ((List.length_map ..).trans_le ((List.length_filter_le ..).trans h.nin_le)) fun a ha => ?_
    obtain ⟨bill, hbill, rfl⟩ := List.mem_map.1 ha
    exact h.inputs_lt bill (List.mem_filter.1 hbill).1
  have hcarry := h.carryIn_lt
  rw [paidIn, Nat.add_mul, Nat.one_mul]
  omega

/-- The bounds of all totals, in numbers. -/
lemma Bounded.small (h : Bounded M t carryIn carryOut) : t.paidIn carryIn ≤ 9 * 2^192 ∧ carryOut < 2^192 ∧
    t.donation < 2^192 ∧ ∀ sel, t.total sel ≤ 10 * 2^192 :=
  ⟨h.paidIn_le, h.carryOut_lt, h.donation_lt, h.total_le⟩

lemma Bounded.excessIn_eq (h : Bounded M t carryIn carryOut) :
    t.excessIn M carryIn carryOut = (t.excess carryIn carryOut, false) := by
  obtain ⟨hin, hcarry, hdonation, hout⟩ := h.small
  have hout := hout t.isAsset0
  have hlarge := M.large
  have hsumIn : t.sumIn M carryIn = t.paidIn carryIn := M.sumFrom_eq (by rw [paidIn] at hin; omega)
  have hsumOut : t.sumOut M carryOut = carryOut + t.total t.isAsset0 := sumWhere_eq (by omega)
  have hpaid : M.add (t.sumOut M carryOut) t.donation = t.paidOut carryOut := by
    rw [hsumOut, M.add_eq (by omega), paidOut]
  rw [excessIn, hpaid, hsumIn, hsumOut, excess]
  rw [paidOut]
  split_ifs with hlt
  · rw [M.sub_eq (show carryOut + t.total t.isAsset0 ≤ t.paidIn carryIn by omega) (by omega),
      M.sub_eq (by omega) (by omega), Nat.sub_sub]
    simp only [Prod.mk.injEq, true_and, Bool.or_eq_false_iff, decide_eq_false_iff_not]
    omega
  · rw [Nat.sub_eq_zero_of_le (not_lt.1 hlt)]

lemma Bounded.sumSent_eq (h : Bounded M t carryIn carryOut) :
    t.sumSent M carryIn carryOut = t.leaving carryIn carryOut := by
  obtain ⟨hin, -, -, hout⟩ := h.small
  have hout := hout t.leavesWallet
  have hexcess : t.excess carryIn carryOut ≤ t.paidIn carryIn := Nat.sub_le ..
  rw [sumSent, h.excessIn_eq, sumWhere_eq (by omega), Nat.zero_add, M.add_eq (by omega), leaving]

lemma Bounded.netDonation_eq (h : Bounded M t carryIn carryOut) :
    t.netDonation M incwatch carryIn carryOut = t.donated incwatch carryIn carryOut := by
  obtain ⟨hin, -, hdonation, -⟩ := h.small
  have hexcess : t.excess carryIn carryOut ≤ t.paidIn carryIn := Nat.sub_le ..
  rw [netDonation, h.excessIn_eq, M.add_eq (by omega), donated]

lemma Bounded.totalSent_eq (h : Bounded M t carryIn carryOut) : t.totalSent M = t.total t.isSent := by
  have hout := h.total_le t.isSent
  rw [txMaxout, amountBound] at hout
  rw [totalSent, sumWhere_eq (by omega), Nat.zero_add]

/-- Where nothing has an amount no share is computed. -/
lemma assign_none {n : ℕ} {sel : ℕ → Bool} {c : Bool} {value : ℕ → ℕ} {s : Shares} (h : c = false) :
    assign M (fun i => sel i && c) n value s = s := by
  simp [assign, h]

lemma assign_all {n : ℕ} {sel : ℕ → Bool} {c : Bool} {value : ℕ → ℕ} {s : Shares} (h : c = true) :
    assign M (fun i => sel i && c) n value s = assign M sel n value s := by
  simp only [h, Bool.and_true]

lemma Bounded.donated_le (h : Bounded M t carryIn carryOut) : t.donated incwatch carryIn carryOut ≤ 10 * 2^192 := by
  obtain ⟨hin, -, hdonation, -⟩ := h.small
  have hexcess : t.excess carryIn carryOut ≤ t.paidIn carryIn := Nat.sub_le ..
  rw [donated]
  split_ifs <;> omega

lemma Bounded.bound_of_le (h : Bounded M t carryIn carryOut) {total : ℕ} (htotal : total ≤ 20 * 2^192) :
    (maxIters + 1) * t.nout * total < 2^253 := by
  have hmul : (maxIters + 1) * t.nout * total ≤ (2000 + 1) * 10 * (20 * 2^192) :=
    Nat.mul_le_mul (Nat.mul_le_mul_left _ h.nout_le) htotal
  exact hmul.trans_lt (by decide)

lemma Bounded.donationShares_of_zero (h : Bounded M t carryIn carryOut) (hzero : t.total t.isSent = 0) :
    t.donationShares M incwatch carryIn carryOut =
      correct M t.isSent id t.nout (t.donated incwatch carryIn carryOut) maxIters ⟨t.adjDonations, 0, false⟩ := by
  rw [donationShares, h.netDonation_eq, h.totalSent_eq, h.excessIn_eq, assign_none (by simp [hzero])]

lemma Bounded.donationShares_of_ne (h : Bounded M t carryIn carryOut) (hne : t.total t.isSent ≠ 0) :
    t.donationShares M incwatch carryIn carryOut =
      spread M t.isSent t.nout (t.donated incwatch carryIn carryOut) (t.total t.isSent) t.amount t.adjDonations false := by
  have hdonated := @Bounded.donated_le M t incwatch carryIn carryOut h
  have hnout : t.nout ≤ 10 := h.nout_le
  have hsum := sum_wrapped_le (M := M) (x := t.donated incwatch carryIn carryOut) (Nat.pos_of_ne_zero hne) rfl
  have hshare : (fun i => M.share (t.donated incwatch carryIn carryOut) (t.total t.isSent) (t.amount i)) =
      fun i => wrappedShare M.n (t.donated incwatch carryIn carryOut) (t.total t.isSent) (t.amount i) :=
    funext fun i => share_eq ..
  rw [donationShares, h.netDonation_eq, h.totalSent_eq, h.excessIn_eq, assign_all (by simp [hne]), hshare,
    assign_eq (by rw [Nat.zero_add]; exact hsum.trans_lt (by omega)), Nat.zero_add]
  rfl

lemma Bounded.amountShares_of_zero (h : Bounded M t carryIn carryOut) (hzero : t.leaving carryIn carryOut = 0) :
    t.amountShares M carryIn carryOut = ⟨t.adjAmounts, 0, false⟩ := by
  rw [amountShares, h.sumSent_eq, assign_none (by simp [hzero]), hzero]
  rfl

lemma Bounded.amountShares_of_ne (h : Bounded M t carryIn carryOut) (hne : t.leaving carryIn carryOut ≠ 0) :
    t.amountShares M carryIn carryOut =
      spreadNext M t.hasAmount t.nout (t.excess carryIn carryOut) (t.leaving carryIn carryOut) t.amount t.adjAmounts := by
  obtain ⟨-, -, -, hout⟩ := h.small
  have hout := hout t.hasAmount
  have hpos := Nat.pos_of_ne_zero hne
  have hnext := @sum_next_le M t.hasAmount t.nout _ _ (t.total t.leavesWallet) t.amount hpos rfl
  have hvalue : ∀ i < t.nout, M.add (t.amount i)
      (M.share (t.excess carryIn carryOut) (t.leaving carryIn carryOut) (t.amount i)) =
        t.amount i + wrappedShare M.n (t.excess carryIn carryOut) (t.leaving carryIn carryOut) (t.amount i) := by
    intro i hi
    have hamount : t.amount i < 2^192 := h.outputs_lt i hi
    have hshare := @wrapped_le_amount M _ _ (t.total t.leavesWallet) t.amount hpos rfl i
    rw [share_eq, M.add_eq (by omega)]
  have hsum : ∑ i ∈ range t.nout with t.hasAmount i, M.add (t.amount i)
      (M.share (t.excess carryIn carryOut) (t.leaving carryIn carryOut) (t.amount i)) =
        ∑ i ∈ range t.nout with t.hasAmount i, (t.amount i +
          wrappedShare M.n (t.excess carryIn carryOut) (t.leaving carryIn carryOut) (t.amount i)) :=
    sum_congr rfl fun i hi => hvalue i (mem_range.1 (mem_filter.1 hi).1)
  have hstart : startShares t.hasAmount t.nout (fun i => M.add (t.amount i)
      (M.share (t.excess carryIn carryOut) (t.leaving carryIn carryOut) (t.amount i))) t.adjAmounts =
        startShares t.hasAmount t.nout (fun i => t.amount i +
          wrappedShare M.n (t.excess carryIn carryOut) (t.leaving carryIn carryOut) (t.amount i)) t.adjAmounts :=
    funext fun j => ite_congr rfl (fun hj => hvalue j hj.1) fun _ => rfl
  rw [amountShares, h.sumSent_eq, h.excessIn_eq, assign_all (by simp [hne])]
  rw [assign_eq (by rw [Nat.zero_add, hsum]; exact hnext.trans_lt (by rw [total] at hout; omega)), Nat.zero_add, hsum,
    spreadNext, ← hstart]
  rfl

/-- The transaction after a call, when it has outputs. -/
def called (M : Modulus) (t : ReportedTx) (incwatch : Bool) (carryIn carryOut : ℕ) : ReportedTx :=
  { t with
    weSent := Function.update t.weSent incwatch (some (t.calcWeSent incwatch))
    adjAmounts := (t.amountShares M carryIn carryOut).adj
    adjDonations := (t.donationShares M incwatch carryIn carryOut).adj }

lemma setAdjustedAmounts_of_ne (hne : t.nout ≠ 0) : t.setAdjustedAmounts M incwatch carryIn carryOut =
    (t.called M incwatch carryIn carryOut,
      (t.donationShares M incwatch carryIn carryOut).fault || (t.amountShares M carryIn carryOut).fault) := if_neg hne

lemma called_calcWeSent : (t.called M incwatch carryIn carryOut).calcWeSent incwatch = t.calcWeSent incwatch := by
  change (Function.update t.weSent incwatch (some (t.calcWeSent incwatch)) incwatch).getD _ = _
  rw [Function.update_self, Option.getD_some]

lemma called_donated :
    (t.called M incwatch carryIn carryOut).donated incwatch carryIn carryOut = t.donated incwatch carryIn carryOut := by
  rw [donated, called_calcWeSent]
  rfl

lemma share_lt (x total amount : ℕ) : M.share x total amount < M.n :=
  (Nat.div_le_self ..).trans_lt (Nat.mod_lt _ M.pos)

lemma Bounded.called (h : Bounded M t carryIn carryOut) :
    Bounded M (t.called M incwatch carryIn carryOut) carryIn carryOut where
  nin_le := h.nin_le
  nout_le := h.nout_le
  inputs_lt := h.inputs_lt
  outputs_lt := h.outputs_lt
  donation_lt := h.donation_lt
  carryIn_lt := h.carryIn_lt
  carryOut_lt := h.carryOut_lt
  adjAmounts_lt := correct_lt (assign_lt (fun _ => Nat.mod_lt _ M.pos) h.adjAmounts_lt)
  adjDonations_lt := correct_lt (assign_lt (fun _ => share_lt ..) h.adjDonations_lt)

/-- A second call changes nothing when it computes the shares that there are. -/
lemma again_iff (hne : t.nout ≠ 0) :
    ((t.called M incwatch carryIn carryOut).setAdjustedAmounts M incwatch carryIn carryOut).1 =
        t.called M incwatch carryIn carryOut ↔
      ((t.called M incwatch carryIn carryOut).donationShares M incwatch carryIn carryOut).adj =
        (t.donationShares M incwatch carryIn carryOut).adj ∧
      ((t.called M incwatch carryIn carryOut).amountShares M carryIn carryOut).adj =
        (t.amountShares M carryIn carryOut).adj := by
  set t' := t.called M incwatch carryIn carryOut with ht'
  have hweSent : Function.update t'.weSent incwatch (some (t'.calcWeSent incwatch)) = t'.weSent := by
    rw [ht', called_calcWeSent]
    exact Function.update_idem ..
  rw [@setAdjustedAmounts_of_ne M t' incwatch carryIn carryOut hne]
  constructor
  · intro h
    exact ⟨congrArg adjDonations h, congrArg adjAmounts h⟩
  · rintro ⟨hdonations, hamounts⟩
    change ({ t' with
      weSent := Function.update t'.weSent incwatch (some (t'.calcWeSent incwatch))
      adjAmounts := (t'.amountShares M carryIn carryOut).adj
      adjDonations := (t'.donationShares M incwatch carryIn carryOut).adj } : ReportedTx) = t'
    rw [hweSent, hdonations, hamounts]
    rfl

/-- The donations, and the same again. -/
lemma Bounded.donations_iff (h : Bounded M t carryIn carryOut) :
    (t.donationShares M incwatch carryIn carryOut).fault = false ∧
    (((∃ i < t.nout, t.isSent i ∧ t.amount i ≠ 0) →
        ∑ i ∈ range t.nout with t.isSent i, (t.donationShares M incwatch carryIn carryOut).adj i =
          t.donated incwatch carryIn carryOut) ∧
      ((t.called M incwatch carryIn carryOut).donationShares M incwatch carryIn carryOut).adj =
        (t.donationShares M incwatch carryIn carryOut).adj ↔ t.DonationsAddUp M incwatch carryIn carryOut) := by
  have hcalled : Bounded M (t.called M incwatch carryIn carryOut) carryIn carryOut := h.called
  have hdonated := @Bounded.donated_le M t incwatch carryIn carryOut h
  have hnout : t.nout ≤ 10 := h.nout_le
  have hsome : (∃ i < t.nout, t.isSent i ∧ t.amount i ≠ 0) ↔ t.total t.isSent ≠ 0 := by
    rw [total, Ne, sum_eq_zero_iff, not_forall]
    simp only [mem_filter, mem_range, not_forall, exists_prop, and_assoc]
  rw [hsome]
  by_cases hzero : t.total t.isSent = 0
  · have hagain := @Bounded.donationShares_of_zero M _ incwatch carryIn carryOut hcalled hzero
    rw [called_donated] at hagain
    rw [DonationsAddUp, if_pos hzero, hagain]
    change _ ∧ (_ ∧ (correct M t.isSent id t.nout (t.donated incwatch carryIn carryOut) maxIters
      ⟨(t.donationShares M incwatch carryIn carryOut).adj, 0, false⟩).adj = _ ↔ _)
    rw [h.donationShares_of_zero hzero]
    have hlt : t.donated incwatch carryIn carryOut < 2^253 := by omega
    obtain ⟨hfault, hrange, -⟩ := @correct_unspread M t.isSent t.nout _ _ false hlt h.adjDonations_lt
    refine ⟨hfault, ?_⟩
    rw [(correct_unspread hlt hrange).2.2]
    exact and_iff_right fun hne => absurd hzero hne
  · have hpos := Nat.pos_of_ne_zero hzero
    have hbound := h.bound_of_le ((h.small.2.2.2 t.isSent).trans (by decide))
    have hlt : t.donated incwatch carryIn carryOut + t.nout < 2^253 := by omega
    obtain ⟨hfault, hsum, hother⟩ :=
      @spread_sum M t.isSent t.nout _ _ t.amount _ false hpos rfl hbound hlt h.adjDonations_lt
    have hagain := @Bounded.donationShares_of_ne M _ incwatch carryIn carryOut hcalled hzero
    rw [called_donated] at hagain
    rw [DonationsAddUp, if_neg hzero, hagain, h.donationShares_of_ne hzero]
    refine ⟨hfault, fun hadds => hsum.1 (hadds.1 hzero), fun hspreads => ⟨fun _ => hsum.2 hspreads, ?_⟩⟩
    -- the second call starts from the same shares
    change (spread M t.isSent t.nout (t.donated incwatch carryIn carryOut) (t.total t.isSent) t.amount
      (t.donationShares M incwatch carryIn carryOut).adj false).adj = _
    rw [h.donationShares_of_ne hzero, spread, startShares_congr (hother hspreads), spread]

lemma leaving_le (i : ℕ) : (if t.leavesWallet i then t.amount i else 0) ≤ if t.hasAmount i then t.amount i else 0 := by
  split_ifs with hleaves hhas
  · exact le_rfl
  · rw [leavesWallet, Bool.and_eq_true] at hleaves
    rw [hasAmount, hleaves.1, Bool.true_and, decide_eq_true_eq, not_not] at hhas
    exact hhas.le
  · exact Nat.zero_le _
  · exact le_rfl

lemma total_leavesWallet_le : t.total t.leavesWallet ≤ t.total t.hasAmount := by
  rw [total, total, sum_filter, sum_filter]
  exact sum_le_sum fun i _ => leaving_le i

/-- Every amount leaves the wallet when the amounts that leave it are all. -/
lemma total_leavesWallet_eq_iff :
    t.total t.leavesWallet = t.total t.hasAmount ↔ ∀ i < t.nout, t.hasAmount i → t.leavesWallet i := by
  rw [total, total, sum_filter, sum_filter, sum_eq_sum_iff_of_le fun i _ => leaving_le i]
  refine forall_congr' fun i => ?_
  rw [mem_range]
  refine imp_congr_right fun _ => ⟨fun heq hhas => ?_, fun himp => ?_⟩
  · by_contra hleaves
    rw [if_neg hleaves, if_pos hhas] at heq
    rw [hasAmount, Bool.and_eq_true, decide_eq_true_eq] at hhas
    exact hhas.2 heq.symm
  · refine le_antisymm (leaving_le i) ?_
    split_ifs with hhas hleaves
    · exact le_rfl
    · exact absurd (himp hhas) hleaves
    · exact Nat.zero_le _
    · exact le_rfl

/-- The amounts, and the same again. -/
lemma Bounded.amounts_iff (h : Bounded M t carryIn carryOut) :
    (((∀ i < t.nout, t.hasAmount i → t.amount i ≤ (t.amountShares M carryIn carryOut).adj i ∧
        (t.paidIn carryIn ≤ t.paidOut carryOut → (t.amountShares M carryIn carryOut).adj i = t.amount i)) ∧
      ∑ i ∈ range t.nout with t.hasAmount i, (t.amountShares M carryIn carryOut).adj i =
        t.total t.hasAmount + t.excess carryIn carryOut ∧
      (t.amountShares M carryIn carryOut).fault = false) ∧
      ((t.called M incwatch carryIn carryOut).amountShares M carryIn carryOut).adj =
        (t.amountShares M carryIn carryOut).adj ↔ t.AmountsAddUp M carryIn carryOut) := by
  have hcalled : Bounded M (t.called M incwatch carryIn carryOut) carryIn carryOut := h.called
  have hexcess : t.paidIn carryIn ≤ t.paidOut carryOut ↔ t.excess carryIn carryOut = 0 := Nat.sub_eq_zero_iff_le.symm
  rw [hexcess]
  by_cases hzero : t.leaving carryIn carryOut = 0
  · have hnone : t.excess carryIn carryOut = 0 := by
      rw [leaving] at hzero
      omega
    rw [AmountsAddUp, if_pos hzero, hcalled.amountShares_of_zero hzero, h.amountShares_of_zero hzero, hnone]
    constructor
    · rintro ⟨⟨hamounts, -⟩, -⟩ i hi hhas
      exact (hamounts i hi hhas).2 rfl
    · intro hsame
      refine ⟨⟨fun i hi hhas => ⟨(hsame i hi hhas).ge, fun _ => hsame i hi hhas⟩, ?_, rfl⟩, ?_⟩
      · refine sum_congr rfl fun i hi => ?_
        obtain ⟨hi, hhas⟩ := mem_filter.1 hi
        exact hsame i (mem_range.1 hi) hhas
      · change (t.amountShares M carryIn carryOut).adj = t.adjAmounts
        rw [h.amountShares_of_zero hzero]
  · have hpos := Nat.pos_of_ne_zero hzero
    obtain ⟨hin, -, -, hout⟩ := h.small
    have hle : t.excess carryIn carryOut ≤ t.paidIn carryIn := Nat.sub_le ..
    have hleaves := hout t.leavesWallet
    have hhas := hout t.hasAmount
    have hbound := h.bound_of_le (show t.leaving carryIn carryOut ≤ 20 * 2^192 by rw [leaving]; omega)
    have hamounts : t.total t.hasAmount < 2^250 := by omega
    obtain ⟨hiff, hgives⟩ := @spreadNext_sum M t.hasAmount t.nout (t.excess carryIn carryOut) _ (t.total t.leavesWallet)
      t.amount _ hpos rfl total_leavesWallet_le hamounts (by omega) hbound h.adjAmounts_lt
    rw [AmountsAddUp, if_neg hzero, hcalled.amountShares_of_ne hzero, h.amountShares_of_ne hzero,
      ← total_leavesWallet_eq_iff]
    constructor
    · rintro ⟨⟨-, hsum, hfault⟩, -⟩
      exact hiff.1 ⟨hfault, hsum⟩
    · intro hadds
      obtain ⟨hfault, hsum⟩ := hiff.2 hadds
      obtain ⟨hamounts, hother⟩ := hgives hadds
      refine ⟨⟨hamounts, hsum, hfault⟩, ?_⟩
      change (spreadNext M t.hasAmount t.nout (t.excess carryIn carryOut) (t.leaving carryIn carryOut) t.amount
        (t.amountShares M carryIn carryOut).adj).adj = _
      rw [h.amountShares_of_ne hzero, spreadNext, startShares_congr hother, spreadNext]

/-- Without outputs a second call stores the same donation. -/
lemma again_of_zero (hzero : t.nout = 0) :
    ((t.setAdjustedAmounts M incwatch carryIn carryOut).1.setAdjustedAmounts M incwatch carryIn carryOut).1 =
      (t.setAdjustedAmounts M incwatch carryIn carryOut).1 := by
  have hset : ∀ u : ReportedTx, u.nout = 0 → (u.setAdjustedAmounts M incwatch carryIn carryOut).1 = { u with
      weSent := Function.update u.weSent incwatch (some (u.calcWeSent incwatch))
      adjDonations := Function.update u.adjDonations 0 (u.netDonation M incwatch carryIn carryOut) } := fun u hu => by
    rw [setAdjustedAmounts, if_pos hu]
  rw [hset t hzero]
  set t' : ReportedTx := { t with
    weSent := Function.update t.weSent incwatch (some (t.calcWeSent incwatch))
    adjDonations := Function.update t.adjDonations 0 (t.netDonation M incwatch carryIn carryOut) }
  have hcalc : t'.calcWeSent incwatch = t.calcWeSent incwatch := by
    change (Function.update t.weSent incwatch (some (t.calcWeSent incwatch)) incwatch).getD _ = _
    rw [Function.update_self, Option.getD_some]
  have hnet : t'.netDonation M incwatch carryIn carryOut = t.netDonation M incwatch carryIn carryOut := by
    rw [netDonation, hcalc]
    rfl
  rw [hset t' hzero, hcalc, hnet]
  change ({ t' with
    weSent := Function.update (Function.update t.weSent incwatch (some (t.calcWeSent incwatch))) incwatch
      (some (t.calcWeSent incwatch))
    adjDonations := Function.update (Function.update t.adjDonations 0 (t.netDonation M incwatch carryIn carryOut)) 0
      (t.netDonation M incwatch carryIn carryOut) } : ReportedTx) = t'
  rw [Function.update_idem, Function.update_idem]

/-- Without outputs there is nothing to share. -/
lemma Bounded.reported_of_zero (h : Bounded M t carryIn carryOut) (hzero : t.nout = 0) :
    t.Reported M incwatch carryIn carryOut ↔ t.DonationsAddUp M incwatch carryIn carryOut ∧
      t.AmountsAddUp M carryIn carryOut := by
  have hnone : ∀ (sel : ℕ → Bool) (f : ℕ → ℕ), ∑ i ∈ range t.nout with sel i, f i = 0 := fun _ _ => by
    rw [hzero]
    rfl
  have hlt : ∀ i, ¬i < t.nout := fun i => by
    rw [hzero]
    exact Nat.not_lt_zero i
  have hdonations : t.DonationsAddUp M incwatch carryIn carryOut := by
    rw [DonationsAddUp, total, hnone, if_pos rfl]
    exact .inr fun i hi => absurd hi (hlt i)
  have hamounts : t.AmountsAddUp M carryIn carryOut ↔ t.excess carryIn carryOut = 0 := by
    rw [AmountsAddUp, leaving, total, hnone, Nat.zero_add]
    split_ifs with hexcess
    · exact iff_of_true (fun i hi => absurd hi (hlt i)) hexcess
    · refine iff_of_false (fun hreaches => ?_) hexcess
      have hle := hreaches.2.2.2
      rw [hnone, hzero] at hle
      simp at hle
      exact hexcess hle
  have hset : t.setAdjustedAmounts M incwatch carryIn carryOut = (_, _) := if_pos hzero
  rw [and_iff_right hdonations, hamounts]
  constructor
  · intro hreported
    have htotal := hreported.total
    rw [hnone, total, hnone] at htotal
    omega
  · intro hexcess
    refine ⟨fun hsome => ?_, fun i hi => absurd hi (hlt i), ?_, ?_, again_of_zero hzero⟩
    · obtain ⟨i, hi, -⟩ := hsome
      exact absurd hi (hlt i)
    · rw [hnone, total, hnone, hexcess]
    · rw [hset, h.excessIn_eq]

/-- The reported amounts add up just when the donations and the amounts do. -/
theorem reported_iff (M : Modulus) (t : ReportedTx) (incwatch : Bool) {carryIn carryOut : ℕ}
    (h : Bounded M t carryIn carryOut) :
    t.Reported M incwatch carryIn carryOut ↔ t.DonationsAddUp M incwatch carryIn carryOut ∧
      t.AmountsAddUp M carryIn carryOut := by
  by_cases hzero : t.nout = 0
  · exact h.reported_of_zero hzero
  obtain ⟨hfault, hdonations⟩ := @Bounded.donations_iff M t incwatch carryIn carryOut h
  have hagain := @again_iff M t incwatch carryIn carryOut hzero
  have hset := @setAdjustedAmounts_of_ne M t incwatch carryIn carryOut hzero
  rw [← hdonations, ← h.amounts_iff]
  constructor
  · rintro ⟨hdonation, hamounts, htotal, hinside, hsame⟩
    rw [hset] at hdonation hamounts htotal hinside hsame
    obtain ⟨hsameDonations, hsameAmounts⟩ := hagain.1 hsame
    rw [hfault, Bool.false_or] at hinside
    exact ⟨⟨hdonation, hsameDonations⟩, ⟨hamounts, htotal, hinside⟩, hsameAmounts⟩
  · rintro ⟨⟨hdonation, hsameDonations⟩, ⟨hamounts, htotal, hinside⟩, hsameAmounts⟩
    constructor
    all_goals rw [hset]
    · exact hdonation
    · exact hamounts
    · exact htotal
    · rw [hfault, hinside]
      rfl
    · exact hagain.2 ⟨hsameDonations, hsameAmounts⟩

end

/-- A payment of 70 from a billet of 100, for a donation of 30. -/
def smallSend : ReportedTx where
  nout := 1
  outputBills _ := ⟨0, 70, false, .send⟩
  inputBills := [⟨0, 100, .spendable⟩]
  donation := 30
  adjAmounts _ := 0
  adjDonations _ := 0
  weSent _ := none

theorem reported_small : smallSend.Reported ⟨2^256, by decide⟩ true 0 0 := by
  have hbounded : Bounded ⟨2^256, by decide⟩ smallSend 0 0 :=
    ⟨by decide, by decide, by decide, fun _ _ => (by decide : 70 < amountBound), by decide, by decide, by decide,
      fun _ => (by decide : 0 < 2^256), fun _ => (by decide : 0 < 2^256)⟩
  exact (reported_iff ⟨2^256, by decide⟩ smallSend true hbounded).2 ⟨by decide +kernel, by decide +kernel⟩

/-- The same payment for a donation of 10, with 20 in change. -/
def changeSend : ReportedTx :=
  { smallSend with
    nout := 2
    outputBills := fun i => if i = 0 then ⟨0, 70, false, .send⟩ else ⟨0, 20, true, .spendable⟩
    donation := 10 }

/-- The change is one of the amounts but not of the total, and the units that are to go are taken from the place behind
the last output: the payment is reported as nearly 2^256. -/
theorem not_reported_change : ¬changeSend.Reported ⟨2^256, by decide⟩ true 0 0 ∧
    (changeSend.setAdjustedAmounts ⟨2^256, by decide⟩ true 0 0).1.adjAmounts 0 = 2^256 - 2 := by
  refine ⟨fun h => ?_, by decide +kernel⟩
  have hfault : (changeSend.setAdjustedAmounts ⟨2^256, by decide⟩ true 0 0).2 = true := by decide +kernel
  rw [h.inside] at hfault
  cases hfault

end ReportedTx

end CredaCash.Wallet
