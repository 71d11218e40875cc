import Mathlib.Algebra.Order.Group.Nat
import Mathlib.Algebra.BigOperators.Group.Multiset.Basic
import Mathlib.Data.List.Infix
import Mathlib.Data.List.Induction

/-! The amounts that transactions of a wallet wait for: two counters, which calls from all threads add to and subtract
from under one lock. The counters are numbers modulo a prime of 254 bits, and an amount has 128 bits: a sum of fewer than
`2^125` amounts is never reduced, so that natural numbers stand for them. -/

namespace CredaCash.Wallet

structure NoWait where
  pending : ℕ
  required : ℕ
deriving DecidableEq

/-- The arguments of a call. -/
structure NoWaitCall where
  pending : ℕ
  addPending : Bool
  required : ℕ
  addRequired : Bool
deriving DecidableEq

namespace NoWait

def init : NoWait := ⟨0, 0⟩

/-- `GetNoWaitNetPendingWithLock`. -/
def netPending (s : NoWait) : ℕ := if s.pending > s.required then s.pending - s.required else 0

/-- `GetNoWaitNetRequiredWithLock`. -/
def netRequired (s : NoWait) : ℕ := if s.required > s.pending then s.required - s.pending else 0

/-- The first half of a call. -/
def pendingAfter (s : NoWait) (c : NoWaitCall) : ℕ :=
  if c.addPending then s.pending + c.pending
  else if s.pending > c.pending then s.pending - c.pending
  else 0

/-- `AddNoWaitAmounts`: the counters after a call, and whether the amount could not be added to `required`. -/
def addNoWaitAmounts (s : NoWait) (c : NoWaitCall) : NoWait × Bool :=
  let pending := pendingAfter s c
  if c.addRequired then
    let newval := s.required + c.required
    if newval ≤ pending then (⟨pending, newval⟩, false)
    else (⟨pending, s.required⟩, true)
  else if s.required > c.required then (⟨pending, s.required - c.required⟩, false)
  else (⟨pending, 0⟩, false)

/-- The counters after some calls, in the order in which they get the lock, and what each call reported. -/
def run (calls : List NoWaitCall) : NoWait × List (NoWaitCall × Bool) :=
  calls.foldl (fun s c => ((addNoWaitAmounts s.1 c).1, s.2 ++ [(c, (addNoWaitAmounts s.1 c).2)])) (init, [])

/-- The amounts in a log of calls that satisfy a test. -/
def amounts (f : NoWaitCall × Bool → Option ℕ) (log : List (NoWaitCall × Bool)) : Multiset ℕ := (log.filterMap f : List ℕ)

/-- The amount that a call adds to `pending`, whatever it reports of `required`. -/
def pendingAdded (e : NoWaitCall × Bool) : Option ℕ := if e.1.addPending then some e.1.pending else none

/-- The amount that a call adds to `pending` if it reports success. -/
def pendingAddedOk (e : NoWaitCall × Bool) : Option ℕ := if e.1.addPending && !e.2 then some e.1.pending else none

def pendingSubtracted (e : NoWaitCall × Bool) : Option ℕ :=
  if !e.1.addPending && e.1.pending ≠ 0 then some e.1.pending else none

/-- The amount that a call adds to `required`, which it does just if it reports success. -/
def requiredAdded (e : NoWaitCall × Bool) : Option ℕ := if e.1.addRequired && !e.2 then some e.1.required else none

def requiredSubtracted (e : NoWaitCall × Bool) : Option ℕ :=
  if !e.1.addRequired && e.1.required ≠ 0 then some e.1.required else none

/-- What the calls subtract was added before by calls that reported success, also where the parts of an amount are
subtracted one by one. -/
def Backed (calls : List NoWaitCall) : Prop :=
  ∀ before c, before ++ [c] <+: calls →
    (amounts pendingSubtracted (run (before ++ [c])).2).sum ≤ (amounts pendingAddedOk (run before).2).sum ∧
    (amounts requiredSubtracted (run (before ++ [c])).2).sum ≤ (amounts requiredAdded (run before).2).sum

variable {f : NoWaitCall × Bool → Option ℕ} {log : List (NoWaitCall × Bool)} {e : NoWaitCall × Bool}
  {before calls : List NoWaitCall} {c : NoWaitCall} {s : NoWait}

@[simp] lemma run_nil : run [] = (init, []) := rfl

lemma run_concat : run (calls ++ [c]) = ((addNoWaitAmounts (run calls).1 c).1,
    (run calls).2 ++ [(c, (addNoWaitAmounts (run calls).1 c).2)]) := by
  rw [run, List.foldl_append]
  rfl

@[simp] lemma amounts_nil : amounts f [] = 0 := rfl

lemma sum_amounts_concat : (amounts f (log ++ [e])).sum = (amounts f log).sum + (f e).getD 0 := by
  rw [amounts, amounts, List.filterMap_append, Multiset.sum_coe, Multiset.sum_coe, List.sum_append]
  cases h : f e <;> simp [h]

lemma Backed.of_prefix (h : Backed calls) (hpre : before <+: calls) : Backed before :=
  fun before' c hc => h before' c (hc.trans hpre)

lemma sum_pendingAddedOk_le (log : List (NoWaitCall × Bool)) :
    (amounts pendingAddedOk log).sum ≤ (amounts pendingAdded log).sum := by
  induction log using List.reverseRecOn with
  | nil => exact le_rfl
  | append_singleton log e ih =>
    rw [sum_amounts_concat, sum_amounts_concat]
    refine Nat.add_le_add ih ?_
    unfold pendingAddedOk pendingAdded
    cases e.1.addPending <;> cases e.2 <;> simp

lemma addNoWaitAmounts_pending : (addNoWaitAmounts s c).1.pending = pendingAfter s c := by
  unfold addNoWaitAmounts
  dsimp only
  split
  · split <;> rfl
  · split <;> rfl

/-- A call that subtracts no more than `pending` holds takes away just what it says. -/
lemma pending_add (report : Bool) (h : c.addPending = false → c.pending ≤ s.pending) :
    (addNoWaitAmounts s c).1.pending + (pendingSubtracted (c, report)).getD 0 =
      s.pending + (pendingAdded (c, report)).getD 0 := by
  rw [addNoWaitAmounts_pending, pendingAfter, pendingSubtracted, pendingAdded]
  cases hadd : c.addPending with
  | true => simp
  | false =>
    have hle := h hadd
    by_cases hzero : c.pending = 0
    · simp [hzero]
      omega
    · simp [hzero]
      split <;> omega

/-- A call that subtracts no more than `required` holds takes away just what it says, and one that is refused adds
nothing. -/
lemma required_add (h : c.addRequired = false → c.required ≤ s.required) :
    (addNoWaitAmounts s c).1.required + (requiredSubtracted (c, (addNoWaitAmounts s c).2)).getD 0 =
      s.required + (requiredAdded (c, (addNoWaitAmounts s c).2)).getD 0 := by
  unfold addNoWaitAmounts requiredSubtracted requiredAdded
  dsimp only
  cases hadd : c.addRequired with
  | true =>
    by_cases hle : s.required + c.required ≤ pendingAfter s c
    · simp [hle]
    · simp [hle]
  | false =>
    have hle := h hadd
    by_cases hzero : c.required = 0
    · by_cases hpos : s.required > 0
      · simp [hzero, hpos]
      · simp [hzero, hpos]
        omega
    · by_cases hlt : s.required > c.required
      · simp [hzero, hlt]
        omega
      · simp [hzero, hlt]
        omega

/-- The counters are what was added less what was subtracted. -/
theorem run_sums (h : Backed calls) :
    (run calls).1.pending + (amounts pendingSubtracted (run calls).2).sum = (amounts pendingAdded (run calls).2).sum ∧
    (run calls).1.required + (amounts requiredSubtracted (run calls).2).sum =
      (amounts requiredAdded (run calls).2).sum := by
  induction calls using List.reverseRecOn with
  | nil => exact ⟨rfl, rfl⟩
  | append_singleton calls c ih =>
    obtain ⟨hpending, hrequired⟩ := ih (h.of_prefix (List.prefix_append ..))
    obtain ⟨hp, hr⟩ := h calls c List.prefix_rfl
    have hok := sum_pendingAddedOk_le (run calls).2
    rw [run_concat, sum_amounts_concat] at hp hr
    have hfirst := pending_add (s := (run calls).1) (c := c) (addNoWaitAmounts (run calls).1 c).2 fun hadd => by
      by_cases hzero : c.pending = 0
      · omega
      · have hsub : (pendingSubtracted (c, (addNoWaitAmounts (run calls).1 c).2)).getD 0 = c.pending := by
          simp [pendingSubtracted, hadd, hzero]
        omega
    have hsecond := required_add (s := (run calls).1) (c := c) fun hadd => by
      by_cases hzero : c.required = 0
      · omega
      · have hsub : (requiredSubtracted (c, (addNoWaitAmounts (run calls).1 c).2)).getD 0 = c.required := by
          simp [requiredSubtracted, hadd, hzero]
        omega
    rw [run_concat]
    simp only [sum_amounts_concat]
    omega

/-- For calls from any threads that subtract only what was added before with success: at all times the counters are
what was added less what was subtracted, an amount is added to `required` only if it then is at most `pending`, and when
all is subtracted that was added both counters are zero. -/
theorem accounting (h : Backed calls) (hpre : before <+: calls) :
    ((run before).1.pending + (amounts pendingSubtracted (run before).2).sum =
        (amounts pendingAdded (run before).2).sum ∧
      (run before).1.required + (amounts requiredSubtracted (run before).2).sum =
        (amounts requiredAdded (run before).2).sum) ∧
    (∀ c, c.addRequired = true → (addNoWaitAmounts (run before).1 c).2 = false →
      (addNoWaitAmounts (run before).1 c).1.required ≤ (addNoWaitAmounts (run before).1 c).1.pending) ∧
    ((amounts pendingSubtracted (run before).2).sum = (amounts pendingAdded (run before).2).sum →
      (amounts requiredSubtracted (run before).2).sum = (amounts requiredAdded (run before).2).sum →
        (run before).1 = init) := by
  have hsums := run_sums (h.of_prefix hpre)
  refine ⟨hsums, fun c hadd hreport => ?_, fun hpending hrequired => ?_⟩
  · rw [addNoWaitAmounts_pending]
    unfold addNoWaitAmounts at hreport ⊢
    dsimp only at hreport ⊢
    rw [if_pos hadd] at hreport ⊢
    split at hreport
    · rename_i hle
      rw [if_pos hle]
      exact hle
    · cases hreport
  · have hzero : (run before).1.pending = 0 ∧ (run before).1.required = 0 := by omega
    generalize (run before).1 = s at hzero
    obtain ⟨pending, required⟩ := s
    obtain ⟨rfl, rfl⟩ := hzero
    rfl

/-- One thread adds a total, asks and clears it in two parts, while another one asks for too much. -/
theorem accounting_two_threads : (run [⟨12, true, 0, true⟩, ⟨0, true, 5, true⟩, ⟨0, true, 8, true⟩, ⟨7, false, 5, false⟩,
    ⟨5, false, 0, false⟩]).1 = init := by
  refine (@accounting [⟨12, true, 0, true⟩, ⟨0, true, 5, true⟩, ⟨0, true, 8, true⟩, ⟨7, false, 5, false⟩,
    ⟨5, false, 0, false⟩] _ (fun before c hc => ?_) List.prefix_rfl).2.2 (by decide) (by decide)
  obtain ⟨rest, hrest⟩ := hc
  rcases before with _ | ⟨c1, _ | ⟨c2, _ | ⟨c3, _ | ⟨c4, _ | ⟨c5, before⟩⟩⟩⟩⟩ <;> simp at hrest
  · obtain ⟨rfl, -⟩ := hrest
    decide
  · obtain ⟨rfl, rfl, -⟩ := hrest
    decide
  · obtain ⟨rfl, rfl, rfl, -⟩ := hrest
    decide
  · obtain ⟨rfl, rfl, rfl, rfl, -⟩ := hrest
    decide
  · obtain ⟨rfl, rfl, rfl, rfl, rfl, -⟩ := hrest
    decide

end NoWait

end CredaCash.Wallet
