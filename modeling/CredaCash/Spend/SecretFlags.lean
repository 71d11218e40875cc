import CredaCash.Spend.Secrets
import Mathlib.Tactic.Tauto

/-! The flags that say which secrets of an input are valid: how they are set, and how they are checked. -/

namespace CredaCash.Spend
open Derivation

/-- The fields of `TxIn` that the flags depend on. -/
structure TxIn where
  enforceMasterSecret : Bool
  enforceSpendSecrets : Bool
  enforceTrustSecrets : Bool
  enforceFreeze : Bool
  enforceUnfreeze : Bool
  params : SpendSecretParams
  secrets : SpendSecrets
  haveMasterSecretValid : Bool
  haveSpendSecretsValid : Bool
  haveTrustSecretsValid : Bool
  masterSecretValid : Bool
  spendSecretsValid : Bool
  trustSecretsValid : Bool
  delaytime : ℕ
  sHashkey : ℕ
  sSpendspecHashed : ℕ

/-- How many of the used secrets are known. -/
def countSecrets (use : ℕ → ℕ) (have_ : ℕ → Bool) : ℕ := (List.range txMaxSecrets).countP fun i => use i ≠ 0 && have_ i

namespace TxIn
variable (txin : TxIn)

def haveSpendSecret (i : ℕ) : Bool := (txin.secrets i).spendSecret.present
def haveTrustSecret (i : ℕ) : Bool := (txin.secrets i).trustSecret.present

def spendCount : ℕ := countSecrets txin.params.useSpendSecret txin.haveSpendSecret
def trustCount : ℕ := countSecrets txin.params.useTrustSecret txin.haveTrustSecret

/-- The count after `spend_secrets_valid` is set, which has secrets taken from the spend secrets. -/
def trustCountFromSpend : ℕ := countSecrets txin.params.useTrustSecret txin.haveSpendSecret

end TxIn

/-- `set_input_dependents`, without the serial number; `param_time` is the one of the transaction. -/
def setMasterSecretValid (txin : TxIn) : TxIn :=
  if ¬ txin.haveMasterSecretValid ∧ txin.params.allowMasterSecret ≠ 0 ∧ (txin.secrets 0).masterSecret.present then
    { txin with masterSecretValid := true }
  else txin

def trustTimes (paramTime : ℕ) (txin : TxIn) : Bool :=
  txin.params.trustLocktime ≤ paramTime && txin.params.trustDelaytime ≤ txin.delaytime

def spendTimes (paramTime : ℕ) (txin : TxIn) : Bool :=
  txin.params.spendLocktime ≤ paramTime && txin.params.spendDelaytime ≤ txin.delaytime

lemma trustTimes_iff (paramTime : ℕ) (txin : TxIn) : trustTimes paramTime txin ↔
    txin.params.trustLocktime ≤ paramTime ∧ txin.params.trustDelaytime ≤ txin.delaytime := by simp [trustTimes]

lemma spendTimes_iff (paramTime : ℕ) (txin : TxIn) : spendTimes paramTime txin ↔
    txin.params.spendLocktime ≤ paramTime ∧ txin.params.spendDelaytime ≤ txin.delaytime := by simp [spendTimes]

/-- The three assignments to `trust_secrets_valid`. -/
def trustSecretsFit (paramTime : ℕ) (txin : TxIn) : Bool :=
  let valid := txin.params.requiredTrustSecrets ≤ txin.trustCount && trustTimes paramTime txin
  let valid := if valid && txin.enforceUnfreeze then txin.params.allowTrustUnfreeze ≠ 0 else valid
  if valid && txin.params.enforceSpendspecWithTrustSecrets ≠ 0 then
    txin.sSpendspecHashed = txin.params.requiredSpendspecHash
  else valid

def setTrustSecretsValid (paramTime : ℕ) (txin : TxIn) : TxIn :=
  if ¬ txin.haveTrustSecretsValid ∧ (txin.enforceTrustSecrets ∨ txin.enforceUnfreeze) then
    { txin with trustSecretsValid := trustSecretsFit paramTime txin }
  else txin

/-- The three assignments to `spend_secrets_valid`. -/
def spendSecretsFit (paramTime : ℕ) (txin : TxIn) : Bool :=
  let valid := txin.params.requiredSpendSecrets ≤ txin.spendCount && spendTimes paramTime txin
  let valid := if valid && txin.params.requirePublicHashkey ≠ 0 then
    txin.sHashkey = (txin.secrets 1).spendSecret.value else valid
  if valid && txin.params.enforceSpendspecWithSpendSecrets ≠ 0 then
    txin.sSpendspecHashed = txin.params.requiredSpendspecHash
  else valid

def setSpendSecretsValid (paramTime : ℕ) (txin : TxIn) : TxIn :=
  if ¬ txin.haveSpendSecretsValid ∧
      (txin.enforceSpendSecrets ∨ txin.enforceTrustSecrets ∧ ¬ txin.trustSecretsValid) then
    { txin with spendSecretsValid := spendSecretsFit paramTime txin }
  else txin

/-- With `spend_secrets_valid` the trust secrets follow from the spend secrets. -/
def resetTrustSecretsValid (paramTime : ℕ) (txin : TxIn) : TxIn :=
  if ¬ txin.haveTrustSecretsValid ∧ txin.spendSecretsValid ∧ txin.trustSecretsValid then
    { txin with
      trustSecretsValid := txin.params.requiredTrustSecrets ≤ txin.trustCountFromSpend && trustTimes paramTime txin }
  else txin

def setInputDependents (paramTime : ℕ) (txin : TxIn) : TxIn :=
  resetTrustSecretsValid paramTime (setSpendSecretsValid paramTime (setTrustSecretsValid paramTime
    (setMasterSecretValid txin)))

/-- The checks on secrets of `txpay_precheck_input`, each with the error that it ends in. -/
def secretChecks (paramTime : ℕ) (txin : TxIn) : List (Bool × String) :=
  let m := txin.masterSecretValid
  let s := txin.spendSecretsValid
  let t := txin.trustSecretsValid
  let p := txin.params
  [(txin.enforceMasterSecret && !m, "enforce-master-secret set but master-secret-valid not set"),
   (m && p.allowMasterSecret = 0, "master-secret-valid set but allow-master-secret not set"),
   (txin.enforceFreeze && p.allowFreeze = 0, "enforce-freeze set but allow-freeze not set"),
   (txin.enforceUnfreeze && !m && !t, "enforce-unfreeze set but master-secret and trust secrets are both invalid"),
   (txin.enforceUnfreeze && t && p.allowTrustUnfreeze = 0,
    "enforce-unfreeze and trust-secrets-valid set but allow-trust-unfreeze not set"),
   (txin.enforceSpendSecrets && !m && !s,
    "enforce-spend-secrets set but master-secret and spend secrets are both invalid, or delaytime are invalid"),
   (txin.enforceTrustSecrets && !m && !s && !t,
    "enforce-trust-secrets set but master-secret, spend secrets and trust secrets are all invalid, or delaytime is invalid"),
   (p.requirePublicHashkey ≠ 0 && s && !txin.haveSpendSecret 1,
    "require-public-hashkey and spend secrets valid but second spend secret is invalid"),
   (p.requirePublicHashkey ≠ 0 && s && txin.sHashkey ≠ (txin.secrets 1).spendSecret.value,
    "require-public-hashkey and spend secrets valid but public hashkey != second spend secret"),
   ((s && p.enforceSpendspecWithSpendSecrets ≠ 0 || t && p.enforceSpendspecWithTrustSecrets ≠ 0) &&
      txin.sSpendspecHashed ≠ p.requiredSpendspecHash, "hashed-spendspec != required-spendspec-hash"),
   (s && txin.spendCount < p.requiredSpendSecrets, "insufficient spend-secrets"),
   (t && txin.trustCount < p.requiredTrustSecrets, "insufficient trust-secrets"),
   (s && paramTime < p.spendLocktime, "parameter-time < spend-locktime"),
   (t && paramTime < p.trustLocktime, "parameter-time < trust-locktime"),
   (s && txin.delaytime < p.spendDelaytime, "delaytime < spend-delaytime"),
   (t && txin.delaytime < p.trustDelaytime, "delaytime < trust-delaytime"),
   (m && !(txin.secrets 0).masterSecret.present, "master-secret-valid set but master-secret invalid")]

/-- The first check that fails for the input with this index. -/
def precheckSecrets (paramTime index : ℕ) (txin : TxIn) : Option String :=
  ((secretChecks paramTime txin).find? (·.1)).map fun c => "error: " ++ c.2 ++ " for input " ++ toString index

section
variable (paramTime : ℕ) (txin : TxIn)

/-- `secret_valid`: the spend secrets when they are valid, and else the trust secrets. -/
def secretValid (spendSecretsValid : Bool) (i : ℕ) : Bool :=
  if spendSecretsValid then txin.haveSpendSecret i else txin.haveTrustSecret i

/-- The rules for an input with the given values of `master_secret_valid`, `spend_secrets_valid` and
`trust_secrets_valid`, and with these known secrets. -/
structure RulesOn (spendKnown trustKnown : ℕ → Bool) (m s t : Bool) : Prop where
  masterEnforced : txin.enforceMasterSecret → m
  masterAllowed : m → txin.params.allowMasterSecret ≠ 0
  freeze : txin.enforceFreeze → txin.params.allowFreeze ≠ 0
  unfreeze : txin.enforceUnfreeze → m ∨ t
  trustUnfreeze : txin.enforceUnfreeze → t → txin.params.allowTrustUnfreeze ≠ 0
  spendEnforced : txin.enforceSpendSecrets → m ∨ s
  trustEnforced : txin.enforceTrustSecrets → m ∨ s ∨ t
  hashkeyKnown : txin.params.requirePublicHashkey ≠ 0 → s → spendKnown 1
  hashkey : txin.params.requirePublicHashkey ≠ 0 → s → txin.sHashkey = (txin.secrets 1).spendSecret.value
  spendSpendspec : s → txin.params.enforceSpendspecWithSpendSecrets ≠ 0 →
    txin.sSpendspecHashed = txin.params.requiredSpendspecHash
  trustSpendspec : t → txin.params.enforceSpendspecWithTrustSecrets ≠ 0 →
    txin.sSpendspecHashed = txin.params.requiredSpendspecHash
  spendEnough : s → txin.params.requiredSpendSecrets ≤ countSecrets txin.params.useSpendSecret spendKnown
  trustEnough : t → txin.params.requiredTrustSecrets ≤ countSecrets txin.params.useTrustSecret trustKnown
  spendTime : s → spendTimes paramTime txin
  trustTime : t → trustTimes paramTime txin
  masterKnown : m → (txin.secrets 0).masterSecret.present

/-- The rules as they are stated. -/
def Rules (m s t : Bool) : Prop := RulesOn paramTime txin (secretValid txin s) (secretValid txin s) m s t

/-- Flags set without explicit ones pass the checks whenever some flags meet the rules, and only if they meet the rules. -/
def FlagsExact (index : ℕ) : Prop :=
  ((∃ m s t, Rules paramTime txin m s t) → precheckSecrets paramTime index (setInputDependents paramTime txin) = none) ∧
    (precheckSecrets paramTime index (setInputDependents paramTime txin) = none →
      Rules paramTime txin (setInputDependents paramTime txin).masterSecretValid
        (setInputDependents paramTime txin).spendSecretsValid (setInputDependents paramTime txin).trustSecretsValid)

structure NoExplicitFlags : Prop where
  haveMaster : txin.haveMasterSecretValid = false
  haveSpend : txin.haveSpendSecretsValid = false
  haveTrust : txin.haveTrustSecretsValid = false
  master : txin.masterSecretValid = false
  spend : txin.spendSecretsValid = false
  trust : txin.trustSecretsValid = false

/-- The trust secrets of an input suffice. -/
structure TrustFits : Prop where
  enough : txin.params.requiredTrustSecrets ≤ txin.trustCount
  time : trustTimes paramTime txin
  unfreeze : txin.enforceUnfreeze → txin.params.allowTrustUnfreeze ≠ 0
  spendspec : txin.params.enforceSpendspecWithTrustSecrets ≠ 0 →
    txin.sSpendspecHashed = txin.params.requiredSpendspecHash

/-- The spend secrets of an input suffice, as far as they are looked at when the flag is set. -/
structure SpendFits : Prop where
  enough : txin.params.requiredSpendSecrets ≤ txin.spendCount
  time : spendTimes paramTime txin
  hashkey : txin.params.requirePublicHashkey ≠ 0 → txin.sHashkey = (txin.secrets 1).spendSecret.value
  spendspec : txin.params.enforceSpendspecWithSpendSecrets ≠ 0 →
    txin.sSpendspecHashed = txin.params.requiredSpendspecHash

/-- A public hashkey that is the stored value of a second spend secret that is not known, for an input that the master
secret can spend. -/
structure HashkeyMissed : Prop where
  required : txin.params.requirePublicHashkey ≠ 0
  unknown : txin.haveSpendSecret 1 = false
  fits : SpendFits paramTime txin
  wanted : txin.enforceSpendSecrets ∨ txin.enforceTrustSecrets ∧ ¬ TrustFits paramTime txin
  masterAllowed : txin.params.allowMasterSecret ≠ 0
  masterKnown : (txin.secrets 0).masterSecret.present
  freeze : txin.enforceFreeze → txin.params.allowFreeze ≠ 0

/-- An input to unfreeze without a master secret, whose trust secrets are enough only when they are counted as spend
secrets, that is, when a spend secret is known and the trust secret below it is not. -/
structure TrustUnderived : Prop where
  unfreeze : txin.enforceUnfreeze
  noMaster : ¬ (txin.params.allowMasterSecret ≠ 0 ∧ (txin.secrets 0).masterSecret.present)
  masterFree : txin.enforceMasterSecret = false
  freeze : txin.enforceFreeze → txin.params.allowFreeze ≠ 0
  few : txin.trustCount < txin.params.requiredTrustSecrets
  enough : txin.params.requiredTrustSecrets ≤ txin.trustCountFromSpend
  time : trustTimes paramTime txin
  allowed : txin.params.allowTrustUnfreeze ≠ 0
  spendspec : txin.params.enforceSpendspecWithTrustSecrets ≠ 0 →
    txin.sSpendspecHashed = txin.params.requiredSpendspecHash
  spend : SpendFits paramTime txin
  hashkeyKnown : txin.params.requirePublicHashkey ≠ 0 → txin.haveSpendSecret 1

variable {paramTime txin}

lemma trustSecretsFit_iff : trustSecretsFit paramTime txin = true ↔ TrustFits paramTime txin := by
  have hfits : TrustFits paramTime txin ↔ txin.params.requiredTrustSecrets ≤ txin.trustCount ∧ trustTimes paramTime txin ∧
      (txin.enforceUnfreeze → txin.params.allowTrustUnfreeze ≠ 0) ∧
      (txin.params.enforceSpendspecWithTrustSecrets ≠ 0 → txin.sSpendspecHashed = txin.params.requiredSpendspecHash) :=
    ⟨fun h => ⟨h.enough, h.time, h.unfreeze, h.spendspec⟩, fun h => ⟨h.1, h.2.1, h.2.2.1, h.2.2.2⟩⟩
  rw [hfits, trustSecretsFit]
  by_cases hu : txin.enforceUnfreeze <;> by_cases ha : txin.params.allowTrustUnfreeze = 0 <;>
    by_cases hs : txin.params.enforceSpendspecWithTrustSecrets = 0 <;> simp [hu, ha, hs, and_assoc]

lemma spendSecretsFit_iff : spendSecretsFit paramTime txin = true ↔ SpendFits paramTime txin := by
  have hfits : SpendFits paramTime txin ↔ txin.params.requiredSpendSecrets ≤ txin.spendCount ∧ spendTimes paramTime txin ∧
      (txin.params.requirePublicHashkey ≠ 0 → txin.sHashkey = (txin.secrets 1).spendSecret.value) ∧
      (txin.params.enforceSpendspecWithSpendSecrets ≠ 0 → txin.sSpendspecHashed = txin.params.requiredSpendspecHash) :=
    ⟨fun h => ⟨h.enough, h.time, h.hashkey, h.spendspec⟩, fun h => ⟨h.1, h.2.1, h.2.2.1, h.2.2.2⟩⟩
  rw [hfits, spendSecretsFit]
  by_cases hk : txin.params.requirePublicHashkey = 0 <;>
    by_cases hs : txin.params.enforceSpendspecWithSpendSecrets = 0 <;> simp [hk, hs, and_assoc]

/-- The checks are the rules, but for the trust secrets, which are counted as they are known. -/
lemma precheckSecrets_eq_none {index : ℕ} : precheckSecrets paramTime index txin = none ↔
    RulesOn paramTime txin txin.haveSpendSecret txin.haveTrustSecret txin.masterSecretValid txin.spendSecretsValid
      txin.trustSecretsValid := by
  rw [precheckSecrets, Option.map_eq_none_iff, List.find?_eq_none]
  simp only [secretChecks, List.forall_mem_cons, List.not_mem_nil, false_imp_iff, implies_true, and_true, Bool.and_eq_true,
    Bool.or_eq_true, Bool.not_eq_true', decide_eq_true_eq, ← Bool.not_eq_true]
  constructor
  · rintro ⟨h1, h2, h3, h4, h5, h6, h7, h8, h9, h10, h11, h12, h13, h14, h15, h16, h17⟩
    constructor
    case spendTime =>
      intro hs
      exact (spendTimes_iff paramTime txin).2 ⟨not_lt.1 fun h => h13 ⟨hs, h⟩, not_lt.1 fun h => h15 ⟨hs, h⟩⟩
    case trustTime =>
      intro ht
      exact (trustTimes_iff paramTime txin).2 ⟨not_lt.1 fun h => h14 ⟨ht, h⟩, not_lt.1 fun h => h16 ⟨ht, h⟩⟩
    case spendEnough => exact fun hs => not_lt.1 fun h => h11 ⟨hs, h⟩
    case trustEnough => exact fun ht => not_lt.1 fun h => h12 ⟨ht, h⟩
    case spendSpendspec => exact fun hs he => not_not.1 fun h => h10 ⟨.inl ⟨hs, he⟩, h⟩
    case trustSpendspec => exact fun ht he => not_not.1 fun h => h10 ⟨.inr ⟨ht, he⟩, h⟩
    case masterEnforced => exact fun he => not_not.1 fun hm => h1 ⟨he, hm⟩
    case masterAllowed => exact fun hm h0 => h2 ⟨hm, h0⟩
    case freeze => exact fun he h0 => h3 ⟨he, h0⟩
    case unfreeze => exact fun he => or_iff_not_imp_left.2 fun hm => not_not.1 fun ht => h4 ⟨⟨he, hm⟩, ht⟩
    case trustUnfreeze => exact fun he ht h0 => h5 ⟨⟨he, ht⟩, h0⟩
    case spendEnforced => exact fun he => or_iff_not_imp_left.2 fun hm => not_not.1 fun hs => h6 ⟨⟨he, hm⟩, hs⟩
    case trustEnforced =>
      exact fun he => or_iff_not_imp_left.2 fun hm => or_iff_not_imp_left.2 fun hs => not_not.1 fun ht =>
        h7 ⟨⟨⟨he, hm⟩, hs⟩, ht⟩
    case hashkeyKnown => exact fun hr hs => not_not.1 fun hk => h8 ⟨⟨hr, hs⟩, hk⟩
    case hashkey => exact fun hr hs => not_not.1 fun hk => h9 ⟨⟨hr, hs⟩, hk⟩
    case masterKnown => exact fun hm => not_not.1 fun hk => h17 ⟨hm, hk⟩
  · intro h
    have hspend := fun hs => (spendTimes_iff paramTime txin).1 (h.spendTime hs)
    have htrust := fun ht => (trustTimes_iff paramTime txin).1 (h.trustTime ht)
    refine ⟨fun hc => hc.2 (h.masterEnforced hc.1), fun hc => h.masterAllowed hc.1 hc.2, fun hc => h.freeze hc.1 hc.2,
      fun hc => ?_, fun hc => h.trustUnfreeze hc.1.1 hc.1.2 hc.2, fun hc => ?_, fun hc => ?_,
      fun hc => hc.2 (h.hashkeyKnown hc.1.1 hc.1.2), fun hc => hc.2 (h.hashkey hc.1.1 hc.1.2), fun hc => ?_,
      fun hc => not_lt.2 (h.spendEnough hc.1) hc.2, fun hc => not_lt.2 (h.trustEnough hc.1) hc.2,
      fun hc => not_lt.2 (hspend hc.1).1 hc.2, fun hc => not_lt.2 (htrust hc.1).1 hc.2,
      fun hc => not_lt.2 (hspend hc.1).2 hc.2, fun hc => not_lt.2 (htrust hc.1).2 hc.2,
      fun hc => hc.2 (h.masterKnown hc.1)⟩
    · exact (h.unfreeze hc.1.1).elim hc.1.2 hc.2
    · exact (h.spendEnforced hc.1.1).elim hc.1.2 hc.2
    · exact (h.trustEnforced hc.1.1.1).elim hc.1.1.2 fun hor => hor.elim hc.1.2 hc.2
    · rcases hc with ⟨⟨hs, he⟩ | ⟨ht, he⟩, hne⟩
      · exact hne (h.spendSpendspec hs he)
      · exact hne (h.trustSpendspec ht he)

/-- An input with other flags. -/
def TxIn.withFlags (txin : TxIn) (m s t : Bool) : TxIn :=
  { txin with masterSecretValid := m, spendSecretsValid := s, trustSecretsValid := t }

/-- Flags do not matter for the rules, which are given them apart. -/
lemma rulesOn_withFlags {k k' : ℕ → Bool} {m s t a b c : Bool} :
    RulesOn paramTime (txin.withFlags a b c) k k' m s t ↔ RulesOn paramTime txin k k' m s t := by
  constructor
  · rintro ⟨h1, h2, h3, h4, h5, h6, h7, h8, h9, h10, h11, h12, h13, h14, h15, h16⟩
    exact ⟨h1, h2, h3, h4, h5, h6, h7, h8, h9, h10, h11, h12, h13, h14, h15, h16⟩
  · rintro ⟨h1, h2, h3, h4, h5, h6, h7, h8, h9, h10, h11, h12, h13, h14, h15, h16⟩
    exact ⟨h1, h2, h3, h4, h5, h6, h7, h8, h9, h10, h11, h12, h13, h14, h15, h16⟩

/-- What the flags come out as, where `t₁` is the first value of `trust_secrets_valid`. -/
structure SetFlags (paramTime : ℕ) (txin : TxIn) (m s t₁ t : Bool) : Prop where
  master : m ↔ txin.params.allowMasterSecret ≠ 0 ∧ (txin.secrets 0).masterSecret.present
  trustFirst : t₁ ↔ (txin.enforceTrustSecrets ∨ txin.enforceUnfreeze) ∧ TrustFits paramTime txin
  spend : s ↔ (txin.enforceSpendSecrets ∨ txin.enforceTrustSecrets ∧ ¬ t₁) ∧ SpendFits paramTime txin
  trust : t ↔ t₁ ∧ (s → txin.params.requiredTrustSecrets ≤ txin.trustCountFromSpend)

lemma exists_setMaster (h : NoExplicitFlags txin) : ∃ m : Bool,
    (m ↔ txin.params.allowMasterSecret ≠ 0 ∧ (txin.secrets 0).masterSecret.present) ∧
      setMasterSecretValid txin = txin.withFlags m false false := by
  have hflags : txin = txin.withFlags txin.masterSecretValid txin.spendSecretsValid txin.trustSecretsValid := rfl
  by_cases hc : txin.params.allowMasterSecret ≠ 0 ∧ (txin.secrets 0).masterSecret.present
  · refine ⟨true, iff_of_true rfl hc, ?_⟩
    have hset : { txin with masterSecretValid := true } =
            txin.withFlags true txin.spendSecretsValid txin.trustSecretsValid := rfl
    rw [setMasterSecretValid, if_pos ⟨by simp [h.haveMaster], hc⟩, hset, h.spend, h.trust]
  · refine ⟨false, iff_of_false Bool.false_ne_true hc, ?_⟩
    rw [setMasterSecretValid, if_neg fun hand => hc hand.2]
    rwa [h.master, h.spend, h.trust] at hflags

lemma exists_setTrust (paramTime : ℕ) (h : NoExplicitFlags txin) (m : Bool) : ∃ t : Bool,
    (t ↔ (txin.enforceTrustSecrets ∨ txin.enforceUnfreeze) ∧ TrustFits paramTime txin) ∧
      setTrustSecretsValid paramTime (txin.withFlags m false false) = txin.withFlags m false t := by
  by_cases hc : txin.enforceTrustSecrets ∨ txin.enforceUnfreeze
  · refine ⟨trustSecretsFit paramTime txin, by rw [trustSecretsFit_iff, and_iff_right hc], ?_⟩
    rw [setTrustSecretsValid, if_pos ⟨by simp [TxIn.withFlags, h.haveTrust], hc⟩]
    rfl
  · refine ⟨false, iff_of_false Bool.false_ne_true fun hand => hc hand.1, ?_⟩
    rw [setTrustSecretsValid, if_neg fun hand => hc hand.2]

lemma exists_setSpend (paramTime : ℕ) (h : NoExplicitFlags txin) (m t : Bool) : ∃ s : Bool,
    (s ↔ (txin.enforceSpendSecrets ∨ txin.enforceTrustSecrets ∧ ¬ t) ∧ SpendFits paramTime txin) ∧
      setSpendSecretsValid paramTime (txin.withFlags m false t) = txin.withFlags m s t := by
  by_cases hc : txin.enforceSpendSecrets ∨ txin.enforceTrustSecrets ∧ ¬ t
  · refine ⟨spendSecretsFit paramTime txin, by rw [spendSecretsFit_iff, and_iff_right hc], ?_⟩
    rw [setSpendSecretsValid, if_pos ⟨by simp [TxIn.withFlags, h.haveSpend], hc⟩]
    rfl
  · refine ⟨false, iff_of_false Bool.false_ne_true fun hand => hc hand.1, ?_⟩
    rw [setSpendSecretsValid, if_neg fun hand => hc hand.2]

/-- The times have been checked already when the trust secrets are counted again. -/
lemma exists_resetTrust (h : NoExplicitFlags txin) (m s : Bool) {t₁ : Bool} (ht : t₁ → trustTimes paramTime txin) :
    ∃ t : Bool, (t ↔ t₁ ∧ (s → txin.params.requiredTrustSecrets ≤ txin.trustCountFromSpend)) ∧
      resetTrustSecretsValid paramTime (txin.withFlags m s t₁) = txin.withFlags m s t := by
  by_cases hc : s ∧ t₁
  · refine ⟨decide (txin.params.requiredTrustSecrets ≤ txin.trustCountFromSpend) && trustTimes paramTime txin, ?_, ?_⟩
    · simp [hc.1, hc.2, ht hc.2]
    · rw [resetTrustSecretsValid, if_pos ⟨by simp [TxIn.withFlags, h.haveTrust], hc⟩]
      rfl
  · refine ⟨t₁, ⟨fun h1 => ⟨h1, fun hs => absurd ⟨hs, h1⟩ hc⟩, fun hand => hand.1⟩, ?_⟩
    rw [resetTrustSecretsValid, if_neg fun hand => hc hand.2]

lemma exists_setFlags (paramTime : ℕ) (h : NoExplicitFlags txin) : ∃ m s t₁ t, SetFlags paramTime txin m s t₁ t ∧
    setInputDependents paramTime txin = txin.withFlags m s t := by
  obtain ⟨m, hm, hmaster⟩ := exists_setMaster h
  obtain ⟨t₁, ht₁, htrust⟩ := exists_setTrust paramTime h m
  obtain ⟨s, hs, hspend⟩ := exists_setSpend paramTime h m t₁
  obtain ⟨t, ht, hreset⟩ := exists_resetTrust h m s fun h1 => (ht₁.1 h1).2.time
  refine ⟨m, s, t₁, t, ⟨hm, ht₁, hs, ht⟩, ?_⟩
  rw [setInputDependents, hmaster, htrust, hspend, hreset]

section
variable {m s t₁ t : Bool}

/-- Flags that are set meet every rule but those that want some secret to be valid, and the one on the hashkey. -/
lemma SetFlags.passes_iff (hf : SetFlags paramTime txin m s t₁ t) :
    RulesOn paramTime txin txin.haveSpendSecret txin.haveTrustSecret m s t ↔
      (txin.enforceMasterSecret → m) ∧ (txin.enforceFreeze → txin.params.allowFreeze ≠ 0) ∧
        (txin.enforceUnfreeze → m ∨ t) ∧ (txin.enforceSpendSecrets → m ∨ s) ∧ (txin.enforceTrustSecrets → m ∨ s ∨ t) ∧
        (txin.params.requirePublicHashkey ≠ 0 → s → txin.haveSpendSecret 1) := by
  have hs := fun h => (hf.spend.1 h).2
  have ht := fun h => (hf.trustFirst.1 (hf.trust.1 h).1).2
  constructor
  · intro h
    exact ⟨h.masterEnforced, h.freeze, h.unfreeze, h.spendEnforced, h.trustEnforced, h.hashkeyKnown⟩
  · rintro ⟨hm, hfreeze, hu, hse, hte, hk⟩
    exact ⟨hm, fun h => (hf.master.1 h).1, hfreeze, hu, fun he h => (ht h).unfreeze he, hse, hte, hk,
      fun hr h => (hs h).hashkey hr, fun h => (hs h).spendspec, fun h => (ht h).spendspec, fun h => (hs h).enough,
      fun h => (ht h).enough, fun h => (hs h).time, fun h => (ht h).time, fun h => (hf.master.1 h).2⟩

/-- Flags that are set and pass the checks meet the rules. -/
lemma SetFlags.rules (hf : SetFlags paramTime txin m s t₁ t)
    (h : RulesOn paramTime txin txin.haveSpendSecret txin.haveTrustSecret m s t) : Rules paramTime txin m s t := by
  have hspend : s → secretValid txin s = txin.haveSpendSecret := fun hs => funext fun i => if_pos hs
  have htrust :
      t → txin.params.requiredTrustSecrets ≤ countSecrets txin.params.useTrustSecret (secretValid txin s) := by
    intro ht
    cases hs : s with
    | true => exact (hf.trust.1 ht).2 hs
    | false => exact h.trustEnough ht
  exact ⟨h.masterEnforced, h.masterAllowed, h.freeze, h.unfreeze, h.trustUnfreeze, h.spendEnforced, h.trustEnforced,
    fun hr hs => by rw [hspend hs]; exact h.hashkeyKnown hr hs, h.hashkey, h.spendSpendspec, h.trustSpendspec,
    fun hs => by rw [hspend hs]; exact h.spendEnough hs, htrust, h.spendTime, h.trustTime, h.masterKnown⟩

/-- The master secret alone meets the rules. -/
lemma rules_master (hallow : txin.params.allowMasterSecret ≠ 0) (hknown : (txin.secrets 0).masterSecret.present)
    (hfreeze : txin.enforceFreeze → txin.params.allowFreeze ≠ 0) : Rules paramTime txin true false false := by
  have hno : ∀ {p : Prop}, false = true → p := fun h => absurd h Bool.false_ne_true
  exact ⟨fun _ => rfl, fun _ => hallow, hfreeze, fun _ => .inl rfl, fun _ => hno, fun _ => .inl rfl, fun _ => .inl rfl,
    fun _ => hno, fun _ => hno, hno, hno, hno, hno, hno, hno, fun _ => hknown⟩

lemma Rules.spendFits (h : Rules paramTime txin m s t) (hs : s) : SpendFits paramTime txin := by
  subst hs
  exact ⟨h.spendEnough rfl, h.spendTime rfl, fun hr => h.hashkey hr rfl, h.spendSpendspec rfl⟩

lemma Rules.trustFits (h : Rules paramTime txin m false true) : TrustFits paramTime txin :=
  ⟨h.trustEnough rfl, h.trustTime rfl, fun hu => h.trustUnfreeze hu rfl, h.trustSpendspec rfl⟩

end

/-- A hashkey that is only by chance the one required, or trust secrets that are not derived, make the flags fail. -/
lemma SetFlags.not_missed {m s t₁ t : Bool} (hf : SetFlags paramTime txin m s t₁ t)
    (h : (∃ m s t, Rules paramTime txin m s t) →
      RulesOn paramTime txin txin.haveSpendSecret txin.haveTrustSecret m s t) :
    ¬ HashkeyMissed paramTime txin ∧ ¬ TrustUnderived paramTime txin := by
  constructor
  · intro hmiss
    have hpass := h ⟨_, _, _, rules_master hmiss.masterAllowed hmiss.masterKnown hmiss.freeze⟩
    have hs : s := by
      refine hf.spend.2 ⟨hmiss.wanted.imp_right fun hw => ⟨hw.1, fun h1 => hw.2 ?_⟩, hmiss.fits⟩
      exact (hf.trustFirst.1 h1).2
    have hknown := hpass.hashkeyKnown hmiss.required hs
    rw [hmiss.unknown] at hknown
    exact Bool.false_ne_true hknown
  · intro hund
    have hrules : Rules paramTime txin false true true :=
      ⟨fun he => absurd (hund.masterFree.symm.trans he) Bool.false_ne_true, fun h => absurd h Bool.false_ne_true,
        hund.freeze, fun _ => .inr rfl, fun _ _ => hund.allowed, fun _ => .inr rfl, fun _ => .inr (.inl rfl),
        fun hr _ => hund.hashkeyKnown hr, fun hr _ => hund.spend.hashkey hr, fun _ => hund.spend.spendspec,
        fun _ => hund.spendspec, fun _ => hund.spend.enough, fun _ => hund.enough, fun _ => hund.spend.time, fun _ => hund.time, fun h => absurd h Bool.false_ne_true⟩
    rcases (h ⟨_, _, _, hrules⟩).unfreeze hund.unfreeze with hm | ht
    · exact hund.noMaster (hf.master.1 hm)
    · exact absurd (hf.trustFirst.1 (hf.trust.1 ht).1).2.enough (not_le.2 hund.few)

/-- With the master secret only the hashkey can be in the way. -/
lemma SetFlags.passes_of_master {s t₁ t m' s' t' : Bool} (hf : SetFlags paramTime txin true s t₁ t)
    (hr : Rules paramTime txin m' s' t') (hmiss : ¬ HashkeyMissed paramTime txin) :
    RulesOn paramTime txin txin.haveSpendSecret txin.haveTrustSecret true s t := by
  refine hf.passes_iff.2 ⟨fun _ => rfl, hr.freeze, fun _ => .inl rfl, fun _ => .inl rfl, fun _ => .inl rfl, fun hreq hs => ?_⟩
  by_contra hun
  have hfits := hf.spend.1 hs
  refine hmiss ⟨hreq, Bool.eq_false_iff.2 hun, hfits.2, hfits.1.imp_right fun hw => ⟨hw.1, fun htf => hw.2 ?_⟩,
    (hf.master.1 rfl).1, (hf.master.1 rfl).2, hr.freeze⟩
  exact hf.trustFirst.2 ⟨.inl hw.1, htf⟩

/-- Without the master secret the flags that are set follow those that meet the rules. -/
lemma SetFlags.passes_of_no_master {s t₁ t m' s' t' : Bool} (hf : SetFlags paramTime txin false s t₁ t)
    (hr : Rules paramTime txin m' s' t') (hund : ¬ TrustUnderived paramTime txin) :
    RulesOn paramTime txin txin.haveSpendSecret txin.haveTrustSecret false s t := by
  have hno : ¬ (txin.params.allowMasterSecret ≠ 0 ∧ (txin.secrets 0).masterSecret.present) :=
    fun h => Bool.false_ne_true (hf.master.2 h)
  obtain rfl : m' = false := Bool.eq_false_iff.2 fun hm => hno ⟨hr.masterAllowed hm, hr.masterKnown hm⟩
  have hmaster : txin.enforceMasterSecret = false := Bool.eq_false_iff.2 fun he => Bool.false_ne_true (hr.masterEnforced he)
  have hspend : txin.enforceSpendSecrets → s' := fun he => (hr.spendEnforced he).resolve_left Bool.false_ne_true
  have htrust : txin.enforceTrustSecrets → s' ∨ t' := fun he => (hr.trustEnforced he).resolve_left Bool.false_ne_true
  have hunfreeze : txin.enforceUnfreeze → t' := fun he => (hr.unfreeze he).resolve_left Bool.false_ne_true
  cases s' with
  | false =>
    -- spend secrets are not valid and not enforced, so trust secrets suffice wherever some are wanted
    have hfirst : (txin.enforceTrustSecrets ∨ txin.enforceUnfreeze) → t₁ := by
      intro hw
      have ht' : t' := hw.elim (fun he => (htrust he).resolve_left Bool.false_ne_true) hunfreeze
      subst ht'
      exact hf.trustFirst.2 ⟨hw, hr.trustFits⟩
    have hs : s = false := by
      rw [Bool.eq_false_iff]
      intro hs
      rcases (hf.spend.1 hs).1 with he | ⟨he, hnt⟩
      · exact Bool.false_ne_true (hspend he)
      · exact hnt (hfirst (.inl he))
    subst hs
    have hlast : (txin.enforceTrustSecrets ∨ txin.enforceUnfreeze) → t :=
      fun hw => hf.trust.2 ⟨hfirst hw, fun h => absurd h Bool.false_ne_true⟩
    refine hf.passes_iff.2 ⟨fun he => absurd (hmaster.symm.trans he) Bool.false_ne_true, hr.freeze,
      fun he => .inr (hlast (.inr he)), fun he => absurd (hspend he) Bool.false_ne_true,
      fun he => .inr (.inr (hlast (.inl he))), fun _ h => absurd h Bool.false_ne_true⟩
  | true =>
    have hfits := hr.spendFits rfl
    refine hf.passes_iff.2 ⟨fun he => absurd (hmaster.symm.trans he) Bool.false_ne_true, hr.freeze, fun he => .inr ?_,
      fun he => .inr (hf.spend.2 ⟨.inl he, hfits⟩), fun he => .inr ?_, fun hreq _ => hr.hashkeyKnown hreq rfl⟩
    · obtain rfl : t' = true := hunfreeze he
      have henough : txin.params.requiredTrustSecrets ≤ txin.trustCountFromSpend := hr.trustEnough rfl
      refine hf.trust.2 ⟨hf.trustFirst.2 ⟨.inr he, ?_, hr.trustTime rfl, fun hu => hr.trustUnfreeze hu rfl,
        hr.trustSpendspec rfl⟩, fun _ => henough⟩
      by_contra hfew
      exact hund ⟨he, hno, hmaster, hr.freeze, not_le.1 hfew, henough, hr.trustTime rfl, hr.trustUnfreeze he rfl,
        hr.trustSpendspec rfl, hfits, fun hreq => hr.hashkeyKnown hreq rfl⟩
    · by_cases hs : s
      · exact .inl hs
      · refine .inr (hf.trust.2 ⟨?_, fun h => absurd h hs⟩)
        by_contra hnt
        exact hs (hf.spend.2 ⟨.inr ⟨he, hnt⟩, hfits⟩)

/-- Automatic flags are exact, but for a hashkey that is only by chance the one required, and trust secrets that are not
derived. -/
theorem flagsExact_iff {index : ℕ} (h : NoExplicitFlags txin) :
    FlagsExact paramTime txin index ↔ ¬ HashkeyMissed paramTime txin ∧ ¬ TrustUnderived paramTime txin := by
  obtain ⟨m, s, t₁, t, hf, hset⟩ := exists_setFlags paramTime h
  have hpass : precheckSecrets paramTime index (setInputDependents paramTime txin) = none ↔
      RulesOn paramTime txin txin.haveSpendSecret txin.haveTrustSecret m s t := by
    rw [hset, precheckSecrets_eq_none]
    exact rulesOn_withFlags
  have hexact : FlagsExact paramTime txin index ↔ ((∃ m s t, Rules paramTime txin m s t) →
      RulesOn paramTime txin txin.haveSpendSecret txin.haveTrustSecret m s t) := by
    rw [FlagsExact, hpass, hset]
    exact and_iff_left hf.rules
  rw [hexact]
  refine ⟨hf.not_missed, ?_⟩
  rintro ⟨hmiss, hund⟩ ⟨m', s', t', hr⟩
  cases m with
  | true => exact hf.passes_of_master hr hmiss
  | false => exact hf.passes_of_no_master hr hund

end

/-- An input with a known master secret and a second spend secret that is not known, of a billet that requires the
public hashkey. -/
def masterInput (hashkey : ℕ) : TxIn where
  enforceMasterSecret := false
  enforceSpendSecrets := true
  enforceTrustSecrets := true
  enforceFreeze := false
  enforceUnfreeze := false
  params := { SpendSecretParams.clear with
    allowMasterSecret := 1, requirePublicHashkey := 1, requiredSpendSecrets := 1, requiredTrustSecrets := 1,
    useSpendSecret := fun i => if i = 0 then 1 else 0 }
  secrets := fun i => if i = 0 then
      { SpendSecret.clear with
        masterSecret := ⟨true, 1⟩, rootSecret := ⟨true, 2⟩, spendSecret := ⟨true, 3⟩, trustSecret := ⟨true, 4⟩ }
    else .clear
  haveMasterSecretValid := false
  haveSpendSecretsValid := false
  haveTrustSecretsValid := false
  masterSecretValid := false
  spendSecretsValid := false
  trustSecretsValid := false
  delaytime := 0
  sHashkey := hashkey
  sSpendspecHashed := 0

/-- With some hashkey the flags of this input are exact. -/
theorem flagsExact_masterInput : FlagsExact 0 (masterInput 5) 0 := by
  refine (@flagsExact_iff 0 (masterInput 5) 0 ⟨rfl, rfl, rfl, rfl, rfl, rfl⟩).2 ⟨fun h => ?_, fun h => ?_⟩
  · exact absurd (h.fits.hashkey h.required) (by decide)
  · exact absurd h.unfreeze (by decide)

/-- With a hashkey of zero the unknown spend secret is taken for it, which then fails the check. -/
theorem not_flagsExact_masterInput :
    ¬ ∀ (paramTime : ℕ) (txin : TxIn) (index : ℕ), NoExplicitFlags txin → FlagsExact paramTime txin index := by
  intro h
  have hexact := (h 0 (masterInput 0) 0 ⟨rfl, rfl, rfl, rfl, rfl, rfl⟩).1
  have hnone := hexact ⟨_, _, _, rules_master (by decide) (by decide) (by decide)⟩
  exact absurd hnone (by decide)

end CredaCash.Spend
