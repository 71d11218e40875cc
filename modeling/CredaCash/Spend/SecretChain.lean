import CredaCash.Spend.Secrets

/-! The chain of secrets of a billet: each is the hash of the one above it, and those that are given are checked. -/

namespace CredaCash.Spend
open Derivation

def hashBasesRootSecret : ℕ := 0
def hashBasesSpendSecret : ℕ := 1
def hashBasesTrustSecret : ℕ := 2
def hashBasesMonitorSecret : ℕ := 3
def hashBasesReceiveSecret : ℕ := 4

/-- `CCHash::Hash`: of values with their numbers of bits, with the index of the bases and the bits of the result. -/
abbrev Hash := List (ℕ × ℕ) → ℕ → ℕ → ℕ

section
variable (hash : Hash)

def rootFrom (masterSecret : ℕ) : ℕ := hash [(masterSecret, txInputBits)] hashBasesRootSecret txFieldBits

def spendFrom (spendSecretNumber rootSecret : ℕ) : ℕ :=
  hash [(rootSecret, txFieldBits), (spendSecretNumber, txSpendSecretnumBits)] hashBasesSpendSecret txFieldBits

def trustFrom (spendSecret : ℕ) : ℕ := hash [(spendSecret, txInputBits)] hashBasesTrustSecret txFieldBits

def monitorFrom (trustSecret : ℕ) : ℕ := hash [(trustSecret, txInputBits)] hashBasesMonitorSecret txFieldBits

/-- The monitor secret is hashed in two halves, of which the upper one is shifted down. -/
def receiveFrom (params : SpendSecretParams) (monitorSecret : ℕ) : ℕ :=
  hash [(monitorSecret, txInputBits / 2), (monitorSecret / 2^(txInputBits / 2), txInputBits / 2),
      (params.enforceSpendspecWithSpendSecrets, 1), (params.enforceSpendspecWithTrustSecrets, 1),
      (params.requiredSpendspecHash, txInputBits), (params.allowMasterSecret, 1), (params.allowFreeze, 1),
      (params.allowTrustUnfreeze, 1), (params.requirePublicHashkey, 1), (params.restrictAddresses, 1),
      (params.spendLocktime, txTimeBits), (params.trustLocktime, txTimeBits), (params.spendDelaytime, txDelaytimeBits),
      (params.trustDelaytime, txDelaytimeBits)] hashBasesReceiveSecret txFieldBits

/-- A secret is checked where it is given, and else takes the value of the check. -/
def checkSecret (check : ℕ) (above secret : Slot ℕ) (skip : Bool) (error : String) : Except String (Slot ℕ) :=
  if ¬ secret.present then .ok ⟨above.present, check⟩
  else if secret.value ≠ check ∧ ¬ skip then .error error
  else .ok secret

/-- A level of the chain, which has a value to check where the secret above it is there. -/
def verifyLevel (derive : ℕ → ℕ) (above secret : Slot ℕ) (skip : Bool) (error : String) : Except String (Slot ℕ) :=
  checkSecret (if above.present then derive above.value else secret.value) above secret skip error

/-- The last level: without a monitor secret the receive secret follows from what is there in its place. -/
def verifyReceive (derive : ℕ → ℕ) (monitor secret : Slot ℕ) (skip : Bool) (error : String) : Except String (Slot ℕ) := do
  let check := if monitor.present ∨ ¬ secret.present then derive monitor.value else secret.value
  let secret ← checkSecret check monitor secret skip error
  return { secret with present := true }

/-- The result is the error, or the secrets as they are left. -/
def computeOrVerifySecrets (params : SpendSecretParams) (secrets : SpendSecret) (noPrecheck : Bool) :
    Except String SpendSecret := do
  let rootSecret ← verifyLevel (rootFrom hash) secrets.masterSecret secrets.rootSecret noPrecheck
    "root-secret != zkhash(master-secret)"
  let spendSecret ← verifyLevel (spendFrom hash secrets.spendSecretNumber) rootSecret secrets.spendSecret noPrecheck
    "spend-secret != hash(root-secret, spend-secret-number)"
  let trustSecret ← verifyLevel (trustFrom hash) spendSecret secrets.trustSecret noPrecheck
    "trust-secret != hash(spend-secret)"
  let monitorSecret ← verifyLevel (monitorFrom hash) trustSecret secrets.monitorSecret
    (secrets.haveRestrictedAddress || noPrecheck) "monitor-secret != zkhash(trust-secret)"
  let receiveSecret ← verifyReceive (receiveFrom hash params) monitorSecret secrets.receiveSecret noPrecheck
    "receive-secret != zkhash(monitor-secret)"
  return { secrets with rootSecret, spendSecret, trustSecret, monitorSecret, receiveSecret }

/-- The hash that leads from each level to the next. -/
def deriveSecret (params : SpendSecretParams) (spendSecretNumber : ℕ) : ℕ → ℕ → ℕ
  | 0 => rootFrom hash
  | 1 => spendFrom hash spendSecretNumber
  | 2 => trustFrom hash
  | 3 => monitorFrom hash
  | _ => receiveFrom hash params

end

namespace SpendSecret

/-- The secrets from the master secret down. -/
def level (s : SpendSecret) : ℕ → Slot ℕ
  | 0 => s.masterSecret
  | 1 => s.rootSecret
  | 2 => s.spendSecret
  | 3 => s.trustSecret
  | 4 => s.monitorSecret
  | 5 => s.receiveSecret
  | _ => ⟨false, 0⟩

end SpendSecret

section
variable {above secret t : Slot ℕ} {derive : ℕ → ℕ} {error : String}

/-- A level fills its place of the chain, unless a given value does not follow. -/
lemma verifyLevel_ok_iff : verifyLevel derive above secret false error = .ok t ↔
    (above.present → secret.present → secret.value = derive above.value) ∧ t = secret.fill derive above := by
  rcases above with ⟨_ | _, a⟩ <;> rcases secret with ⟨_ | _, v⟩
  · simp [verifyLevel, checkSecret, Slot.fill, eq_comm]
  · simp [verifyLevel, checkSecret, Slot.fill, eq_comm]
  · simp [verifyLevel, checkSecret, Slot.fill, eq_comm]
  · by_cases hv : v = derive a <;> simp [verifyLevel, checkSecret, Slot.fill, hv, eq_comm]

/-- The last level, which is always there afterwards. -/
def receiveSlot (derive : ℕ → ℕ) (monitor secret : Slot ℕ) : Slot ℕ :=
  if secret.present then secret else ⟨true, derive monitor.value⟩

lemma receiveSlot_eq_fill (h : above.present ∨ secret.present) :
    receiveSlot derive above secret = secret.fill derive above := by
  unfold receiveSlot Slot.fill
  split_ifs with hs ha
  · rfl
  · rfl
  · exact absurd h (not_or.2 ⟨ha, hs⟩)

lemma receiveSlot_present : (receiveSlot derive above secret).present := by
  unfold receiveSlot
  split_ifs with hs
  · exact hs
  · rfl

lemma verifyReceive_ok_iff : verifyReceive derive above secret false error = .ok t ↔
    (above.present → secret.present → secret.value = derive above.value) ∧ t = receiveSlot derive above secret := by
  rcases above with ⟨_ | _, a⟩ <;> rcases secret with ⟨_ | _, v⟩
  · simp [verifyReceive, checkSecret, receiveSlot, bind, Except.bind, pure, Except.pure, eq_comm]
  · simp [verifyReceive, checkSecret, receiveSlot, bind, Except.bind, pure, Except.pure, eq_comm]
  · simp [verifyReceive, checkSecret, receiveSlot, bind, Except.bind, pure, Except.pure, eq_comm]
  · by_cases hv : v = derive a <;>
      simp [verifyReceive, checkSecret, receiveSlot, bind, Except.bind, pure, Except.pure, hv, eq_comm]

lemma bind_eq_ok_iff {α β : Type} {x : Except String α} {f : α → Except String β} {b : β} :
    (x >>= f) = .ok b ↔ ∃ a, x = .ok a ∧ f a = .ok b := by
  cases x <;> simp [bind, Except.bind]

end

variable (hash : Hash) (params : SpendSecretParams)

/-- The secrets, with the chain filled in. -/
def completed (s : SpendSecret) : SpendSecret :=
  let chain := filled (deriveSecret hash params s.spendSecretNumber) s.level
  { s with rootSecret := chain 1, spendSecret := chain 2, trustSecret := chain 3, monitorSecret := chain 4,
           receiveSecret := receiveSlot (receiveFrom hash params) (chain 4) s.receiveSecret }

lemma computeOrVerifySecrets_ok_iff {s t : SpendSecret} (hr : s.haveRestrictedAddress = false) :
    computeOrVerifySecrets hash params s false = .ok t ↔
      Fits (deriveSecret hash params s.spendSecretNumber) s.level 5 ∧ t = completed hash params s := by
  have hskip : (s.haveRestrictedAddress || false) = false := by rw [hr, Bool.or_false]
  simp only [computeOrVerifySecrets, bind_eq_ok_iff, hskip, verifyLevel_ok_iff, verifyReceive_ok_iff, and_assoc,
    exists_and_left, exists_eq_left, fits_succ, fits_zero, true_and, pure, Except.pure, Except.ok.injEq, @eq_comm _ _ t]
  exact Iff.rfl

section
variable {s : SpendSecret} {n : ℕ}

lemma SpendSecret.le_of_present (h : (s.level n).present) : n ≤ 5 := by
  by_contra hlt
  obtain ⟨k, rfl⟩ := Nat.exists_eq_add_of_lt (not_le.1 hlt)
  rw [show 5 + k + 1 = k + 6 by omega] at h
  exact Bool.false_ne_true h

/-- Down to the monitor secret the secrets are left as the chain. -/
lemma level_completed (hn : n ≤ 4) :
    (completed hash params s).level n = filled (deriveSecret hash params s.spendSecretNumber) s.level n := by
  obtain rfl | rfl | rfl | rfl | rfl : n = 0 ∨ n = 1 ∨ n = 2 ∨ n = 3 ∨ n = 4 := by omega
  all_goals rfl

lemma level_completed_five
    (h : (filled (deriveSecret hash params s.spendSecretNumber) s.level 4).present ∨ (s.level 5).present) :
    (completed hash params s).level 5 = filled (deriveSecret hash params s.spendSecretNumber) s.level 5 :=
  receiveSlot_eq_fill h

lemma level_completed_succ (hn : n < 5) (hp : (filled (deriveSecret hash params s.spendSecretNumber) s.level n).present) :
    (completed hash params s).level (n+1) = filled (deriveSecret hash params s.spendSecretNumber) s.level (n+1) := by
  rcases Nat.lt_or_ge n 4 with hlt | hge
  · exact level_completed hash params hlt
  · obtain rfl := le_antisymm (Nat.le_of_lt_succ hn) hge
    exact level_completed_five hash params (.inl hp)

lemma completed_of_present (h : (s.level n).present) : (completed hash params s).level n = s.level n := by
  rcases Nat.lt_or_ge n 5 with hn | hn
  · rw [level_completed hash params (Nat.le_of_lt_succ hn), filled_of_present h]
  · obtain rfl := le_antisymm (SpendSecret.le_of_present h) hn
    rw [level_completed_five hash params (.inr h), filled_of_present h]

lemma filled_completed (hn : n ≤ 4) :
    filled (deriveSecret hash params s.spendSecretNumber) (completed hash params s).level n =
    filled (deriveSecret hash params s.spendSecretNumber) s.level n := by
  rw [filled_congr fun k hk => level_completed hash params (hk.trans hn), filled_filled]

/-- Secrets that have been filled in are accepted as they are. -/
lemma computeOrVerifySecrets_completed (hr : s.haveRestrictedAddress = false)
    (hf : Fits (deriveSecret hash params s.spendSecretNumber) s.level 5) :
    computeOrVerifySecrets hash params (completed hash params s) false = .ok (completed hash params s) := by
  have hnum : (completed hash params s).spendSecretNumber = s.spendSecretNumber := rfl
  rw [computeOrVerifySecrets_ok_iff hash params (s := completed hash params s) hr, hnum]
  constructor
  · intro n hn hp hg
    rw [filled_completed hash params (Nat.le_of_lt_succ hn)] at hp ⊢
    rw [level_completed_succ hash params hn hp, hf.value_succ hn hp]
  · have hchain := fun n hn => filled_completed hash params (s := s) (n := n) hn
    have hreceive : (completed hash params s).receiveSecret.present := receiveSlot_present
    have heq : completed hash params (completed hash params s) =
        { completed hash params s with
          rootSecret := filled (deriveSecret hash params s.spendSecretNumber) (completed hash params s).level 1
          spendSecret := filled (deriveSecret hash params s.spendSecretNumber) (completed hash params s).level 2
          trustSecret := filled (deriveSecret hash params s.spendSecretNumber) (completed hash params s).level 3
          monitorSecret := filled (deriveSecret hash params s.spendSecretNumber) (completed hash params s).level 4
          receiveSecret := (completed hash params s).receiveSecret } := by
      conv_lhs => rw [completed, receiveSlot, if_pos hreceive]
      rfl
    rw [heq, hchain 1 (by omega), hchain 2 (by omega), hchain 3 (by omega), hchain 4 (by omega)]
    rfl

end

/-- Secrets are accepted exactly when the given ones follow from each other, and are then filled in below the highest
given one, for good. -/
theorem secretChain {s : SpendSecret} (hr : s.haveRestrictedAddress = false) :
    ((∃ t, computeOrVerifySecrets hash params s false = .ok t) ↔
        Consistent (deriveSecret hash params s.spendSecretNumber) s.level 5) ∧
      ∀ t, computeOrVerifySecrets hash params s false = .ok t →
        (∀ h, Highest s.level h → ∀ n, h ≤ n → n < 5 → (t.level (n+1)).present ∧
          (t.level (n+1)).value = deriveSecret hash params s.spendSecretNumber n (t.level n).value) ∧
        (∀ n, (s.level n).present → t.level n = s.level n) ∧
        (∀ h, Highest s.level h → ∀ n < h, (t.level n).present = false) ∧
        computeOrVerifySecrets hash params t false = .ok t := by
  constructor
  · rw [consistent_iff_fits]
    constructor
    · rintro ⟨t, ht⟩
      exact ((computeOrVerifySecrets_ok_iff hash params hr).1 ht).1
    · intro h
      exact ⟨_, (computeOrVerifySecrets_ok_iff hash params hr).2 ⟨h, rfl⟩⟩
  intro t ht
  obtain ⟨hf, rfl⟩ := (computeOrVerifySecrets_ok_iff hash params hr).1 ht
  refine ⟨fun h hh n hle hn => ?_, fun n hp => completed_of_present hash params hp, fun h hh n hlt => ?_,
    computeOrVerifySecrets_completed hash params hr hf⟩
  · have hp := present_of_le (deriveSecret hash params s.spendSecretNumber) hh.present hle
    rw [level_completed_succ hash params hn hp, level_completed hash params (Nat.le_of_lt_succ hn)]
    exact ⟨present_of_le _ hh.present (Nat.le_succ_of_le hle), hf.value_succ hn hp⟩
  · have hle := hlt.trans_le (SpendSecret.le_of_present hh.present)
    rw [level_completed hash params (Nat.le_of_lt_succ hle), hh.filled_eq hlt, hh.above n hlt]

/-- A spend secret is given and the monitor secret that follows from it: the rest below is derived. -/
theorem secretChain_spend_monitor :
    ∃ t, computeOrVerifySecrets (fun inputs bases _ => inputs.foldl (fun h i => h + i.1) (inputs.length + bases)) .clear
      { SpendSecret.clear with spendSecret := ⟨true, 5⟩, monitorSecret := ⟨true, 12⟩ } false = .ok t := by
  apply (secretChain _ _ (s := { SpendSecret.clear with spendSecret := ⟨true, 5⟩, monitorSecret := ⟨true, 12⟩ }) rfl).1.2
  rw [consistent_iff_fits]
  simp only [fits_succ, fits_zero]
  decide

end CredaCash.Spend
