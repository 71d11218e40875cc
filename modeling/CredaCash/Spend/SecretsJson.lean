import CredaCash.Json.Members
import CredaCash.Spend.SecretChain

/-! The secrets of a billet as they are read from JSON: those that are given, which of them are used, and the addresses
that the spender is restricted to, which take the places of secrets that are not used. -/

namespace CredaCash.Spend
open Json Derivation

def txDestnumBits : ℕ := 30

def restrictedAddressSecretIndex (slot : ℕ) : ℕ := txMaxSecretSlots - 1 - slot / 2

/-- A secret that is used for spending or trust. -/
def SpendSecretParams.Uses (params : SpendSecretParams) (j : ℕ) : Prop :=
  j < txMaxSecrets ∧ (params.useSpendSecret j ≠ 0 ∨ params.useTrustSecret j ≠ 0)

instance (params : SpendSecretParams) (j : ℕ) : Decidable (params.Uses j) := inferInstanceAs (Decidable (_ ∧ _))

def RestrictedAddressSlotOpen (params : SpendSecretParams) (slot : ℕ) : Prop :=
  ¬params.Uses (restrictedAddressSecretIndex slot)

instance (params : SpendSecretParams) (slot : ℕ) : Decidable (RestrictedAddressSlotOpen params slot) :=
  inferInstanceAs (Decidable (¬_))

/-- A value of 256 bits with the two words of its upper or lower half taken from the lowest words of another. -/
def setHalf (upper : Prop) [Decidable upper] (secret value : ℕ) : ℕ :=
  if upper then value % 2^128 * 2^128 + secret % 2^128 else secret / 2^128 * 2^128 + value % 2^128

def setRestrictedAddress (secrets : SpendSecrets) (slot value : ℕ) : SpendSecrets :=
  let j := restrictedAddressSecretIndex slot
  let secret := secrets j
  Function.update secrets j { secret with
    haveRestrictedAddress := true
    monitorSecret := ⟨true, setHalf (slot % 2 = 1) secret.monitorSecret.value value⟩ }

def getRestrictedAddress (secrets : SpendSecrets) (slot : ℕ) : ℕ :=
  let value := (secrets (restrictedAddressSecretIndex slot)).monitorSecret.value
  if slot % 2 = 1 then value / 2^(txInputBits / 2) else value % 2^(txInputBits / 2)

/-- A member that stays as it is when there is none, in a number of bits. -/
def paramMember (key : String) (nbits width old : ℕ) : Reading ℕ := do
  return ((← intMember key nbits 0).map (· % 2^width)).getD old

def requiredSecretsMember (key : String) (old : ℕ) : Reading ℕ := do
  return ((← intMember key 0 txMaxSecrets).map (· % 2^16)).getD old

/-- The hash is read only where it is enforced. -/
def spendspecHashMember (params : SpendSecretParams) : Reading ℕ :=
  if params.enforceSpendspecWithSpendSecrets ≠ 0 ∨ params.enforceSpendspecWithTrustSecrets ≠ 0 then do
    return (← intMember "required-spendspec-hash" txInputBits 0).getD params.requiredSpendspecHash
  else return params.requiredSpendspecHash

/-- The members that come with more than one secret. -/
def multiParams (params : SpendSecretParams) : Reading SpendSecretParams := do
  let requiredSpendSecrets ← requiredSecretsMember "required-spend-secrets" params.requiredSpendSecrets
  let requiredTrustSecrets ← requiredSecretsMember "required-trust-secrets" params.requiredTrustSecrets
  match ← intMember "destination-number" txDestnumBits 0 with
  | none => throw (errorMissingKey "destination-number")
  | some destnum => return { params with requiredSpendSecrets, requiredTrustSecrets, destnum := destnum % 2^32 }

def txParamsFromJson (allowMultiSecrets : Bool) (params : SpendSecretParams) : Reading SpendSecretParams := do
  let params := { params with
    enforceSpendspecWithSpendSecrets :=
      ← paramMember "enforce-spendspec-with-spend-secrets" 1 16 params.enforceSpendspecWithSpendSecrets
    enforceSpendspecWithTrustSecrets :=
      ← paramMember "enforce-spendspec-with-trust-secrets" 1 16 params.enforceSpendspecWithTrustSecrets }
  let params := { params with
    requiredSpendspecHash := ← spendspecHashMember params
    allowMasterSecret := ← paramMember "allow-master-secret" 1 16 params.allowMasterSecret
    allowFreeze := ← paramMember "allow-freeze" 1 16 params.allowFreeze
    allowTrustUnfreeze := ← paramMember "allow-trust-unfreeze" 1 16 params.allowTrustUnfreeze
    requirePublicHashkey := ← paramMember "require-public-hashkey" 1 16 params.requirePublicHashkey
    restrictAddresses := ← paramMember "restrict-addresses" 1 16 params.restrictAddresses
    spendLocktime := ← paramMember "spend-locktime" txTimeBits 64 params.spendLocktime
    trustLocktime := ← paramMember "trust-locktime" txTimeBits 64 params.trustLocktime
    spendDelaytime := ← paramMember "spend-delaytime" txDelaytimeBits 16 params.spendDelaytime
    trustDelaytime := ← paramMember "trust-delaytime" txDelaytimeBits 16 params.trustDelaytime }
  if allowMultiSecrets then multiParams params else return params

/-- A slot with what is given for it. -/
def giveSlot (s : Slot ℕ) (given : Option ℕ) : Slot ℕ := given.elim s fun value => ⟨true, value⟩

/-- A secret, or a list of them when there can be more than one and the first is not there; by their index. -/
def secretsMember (multi : Bool) (key keys : String) (limit : ℕ) (first : Slot ℕ) : Reading (ℕ → Option ℕ) := do
  match ← intMember key txInputBits 0 with
  | some value => return fun j => if j = 0 then some value else none
  | none =>
    if multi ∧ ¬first.present then do
      let values ← arrayMember keys limit txInputBits
      return fun j => ((values.getD [])[j]?).join
    else return fun _ => none

/-- The number of the spend secret is read where there is something to derive it from. -/
def spendSecretNumberMember (secret : SpendSecret) : Reading (Option ℕ) :=
  if secret.masterSecret.present ∨ secret.rootSecret.present then intMember "spend-secret-number" txSpendSecretnumBits 0
  else return none

/-- The secrets that are given. With them comes `bigval`, the number that was read last into that variable. -/
def readSecrets (multi : Bool) (secrets : SpendSecrets) (bigval : ℕ) : Reading (SpendSecrets × ℕ) := do
  let secret := secrets 0
  let secret := { secret with masterSecret := giveSlot secret.masterSecret (← intMember "master-secret" txInputBits 0) }
  let secret := { secret with rootSecret := giveSlot secret.rootSecret (← intMember "root-secret" 0 Text.txFieldMax) }
  let number ← spendSecretNumberMember secret
  let secret := { secret with spendSecretNumber := (number.map (· % 2^32)).getD secret.spendSecretNumber }
  let spend ← secretsMember multi "spend-secret" "spend-secrets" txMaxSecrets secret.spendSecret
  let trust ← secretsMember multi "trust-secret" "trust-secrets" txMaxSecrets secret.trustSecret
  let monitor ← secretsMember multi "monitor-secret" "monitor-secrets" txMaxSecretSlots secret.monitorSecret
  let receive ← intMember "receive-secret" 0 Text.txFieldMax
  let secrets := Function.update secrets 0 { secret with receiveSecret := giveSlot secret.receiveSecret receive }
  let secrets := fun j =>
    let secret := secrets j
    { secret with
      spendSecret := giveSlot secret.spendSecret (spend j)
      trustSecret := giveSlot secret.trustSecret (trust j)
      monitorSecret := giveSlot { secret.monitorSecret with value := 0 } (monitor j) }
  return (secrets, number.getD bigval)

/-- The flags of the secrets that are used, by default those that are there, and the number that was read last. -/
def useMember (key : String) (flags : ℕ → ℕ) (default : ℕ → Bool) (bigval : ℕ) : Reading ((ℕ → ℕ) × ℕ) := do
  match ← arrayMember key txMaxSecrets 1 with
  | none => return (fun j => if j < txMaxSecrets then (default j).toNat else flags j, bigval)
  | some values =>
    return (fun j => ((values[j]?.join).map (· % 2^16)).getD (flags j), (values.reduceOption.getLast?).getD bigval)

/-- Secrets without a flag are used for spending when there is anything of them. -/
def useSpendDefault (useTrust : ℕ → ℕ) (secrets : SpendSecrets) (j : ℕ) : Bool :=
  (secrets j).spendSecret.present ||
    useTrust j = 0 && ((secrets j).monitorSecret.present || (secrets j).receiveSecret.present) ||
    j = 0 && ((secrets 0).masterSecret.present || (secrets 0).rootSecret.present)

/-- The numbers of secrets, and of those that are required. -/
def countUse (params : SpendSecretParams) (j : ℕ) : SpendSecretParams :=
  { params with
    nsecrets := if params.useSpendSecret j ≠ 0 ∨ params.useTrustSecret j ≠ 0 then j + 1 else params.nsecrets
    requiredSpendSecrets := (params.requiredSpendSecrets + if params.useSpendSecret j ≠ 0 then 1 else 0) % 2^16
    requiredTrustSecrets := (params.requiredTrustSecrets + if params.useTrustSecret j ≠ 0 then 1 else 0) % 2^16 }

def requireOne (params : SpendSecretParams) : SpendSecretParams :=
  { params with
    requiredSpendSecrets := max params.requiredSpendSecrets 1
    requiredTrustSecrets := max params.requiredTrustSecrets 1 }

/-- Which secrets are used. -/
def readUse (params : SpendSecretParams) (secrets : SpendSecrets) (bigval : ℕ) : Reading (SpendSecretParams × ℕ) := do
  let (useTrust, bigval) ← useMember "use-trust-secrets" params.useTrustSecret
    (fun j => (secrets j).trustSecret.present) bigval
  let (useSpend, bigval) ← useMember "use-spend-secrets" params.useSpendSecret (useSpendDefault useTrust secrets) bigval
  let params := { params with useTrustSecret := useTrust, useSpendSecret := useSpend }
  return (requireOne ((List.range txMaxSecrets).foldl countUse params), bigval)

/-- What the loop over the restricted addresses has stored. -/
structure Stored where
  secrets : SpendSecrets
  nraddrs : ℕ
  bigval : ℕ

/-- The first open slot from some slot on. -/
def nextOpenSlot (params : SpendSecretParams) (nraddrs : ℕ) : Option ℕ :=
  (List.range' nraddrs (txMaxRestrictedAddresses - nraddrs)).find? fun slot => RestrictedAddressSlotOpen params slot

def restrictedAddressesKey : String := "restricted-addresses"

def storeAddress (params : SpendSecretParams) (s : Stored) (value : Value) : Except String Stored := do
  let bigval ← value.asInt restrictedAddressesKey txAddressBits 0
  match nextOpenSlot params s.nraddrs with
  | none => throw ("error: insufficient open slots for " ++ restrictedAddressesKey)
  | some slot => return ⟨setRestrictedAddress s.secrets slot bigval, slot + 1, bigval⟩

/-- The open slots that are left get the address that was read last. -/
def fillSlots (params : SpendSecretParams) (s : Stored) : SpendSecrets :=
  (List.range' s.nraddrs (txMaxRestrictedAddresses - s.nraddrs)).foldl
    (fun secrets slot =>
      if RestrictedAddressSlotOpen params slot then setRestrictedAddress secrets slot s.bigval else secrets) s.secrets

def restrictAddresses (params : SpendSecretParams) (secrets : SpendSecrets) (bigval : ℕ) :
    Reading (SpendSecretParams × SpendSecrets) := do
  match ← removeMember restrictedAddressesKey with
  | none => return (params, secrets)
  | some (.array values) =>
    if values.length > txMaxRestrictedAddresses then
      throw (errorTooManyObjs restrictedAddressesKey txMaxRestrictedAddresses)
    else do
      let s ← (values.foldlM (storeAddress params) ⟨secrets, params.nraddrs, bigval⟩ : Except String Stored)
      return ({ params with nraddrs := s.nraddrs }, fillSlots params s)
  | some _ => throw (errorNotArray restrictedAddressesKey)

/-- What is read before the restricted addresses. -/
def readMulti (params : SpendSecretParams) (secrets : SpendSecrets) (bigval : ℕ) :
    Reading (SpendSecretParams × SpendSecrets × ℕ) := do
  let (secrets, bigval) ← readSecrets true secrets bigval
  let (params, bigval) ← readUse params secrets bigval
  return (params, secrets, bigval)

section
variable (hash : Hash) (noPrecheck : Bool)

/-- The secrets that depend on others. -/
def dependentSecret (params : SpendSecretParams) (secrets : SpendSecrets) (j : ℕ) : Except String SpendSecrets :=
  match computeOrVerifySecrets hash params (secrets j) noPrecheck with
  | .error errmsg => .error ("error: " ++ errmsg ++ " for secret " ++ toString j)
  | .ok secret => .ok (Function.update secrets j secret)

/-- What follows when all has been read but the parameters. -/
def finishSecrets (multi : Bool) (params : SpendSecretParams) (secrets : SpendSecrets) :
    Reading (SpendSecretParams × SpendSecrets) := do
  let params ← txParamsFromJson multi params
  let secrets ← ((List.range txMaxSecrets).foldlM (dependentSecret hash noPrecheck params) secrets : Except String _)
  return (params, secrets)

/-- `tx_secrets_from_json`, where `bigval` is what the variable of that name holds at the start. -/
def txSecretsFromJson (allowMultiSecrets : Bool) (params : SpendSecretParams) (secrets : SpendSecrets) (bigval : ℕ) :
    Reading (SpendSecretParams × SpendSecrets) :=
  if allowMultiSecrets then do
    let (params, secrets, bigval) ← readMulti params secrets bigval
    let (params, secrets) ← restrictAddresses params secrets bigval
    finishSecrets hash noPrecheck true params secrets
  else do
    let (secrets, _) ← readSecrets false secrets bigval
    finishSecrets hash noPrecheck false params secrets

end

end CredaCash.Spend
