import CredaCash.Derivation

/-! The secrets of a billet and the parameters that they are used with. -/

namespace CredaCash.Spend
open Derivation

def txMaxSecrets : ℕ := 7
def txMaxSecretSlots : ℕ := txMaxSecrets + 1
def txMaxRestrictedAddresses : ℕ := 6

def txInputBits : ℕ := 256
def txFieldBits : ℕ := 254
def txSpendSecretnumBits : ℕ := 18
def txTimeBits : ℕ := 32
def txDelaytimeBits : ℕ := 8
def txAddressBits : ℕ := 128

/-- `SpendSecretParams`, where 0 is false and any other number true. -/
structure SpendSecretParams where
  nsecrets : ℕ
  nraddrs : ℕ
  enforceSpendspecWithSpendSecrets : ℕ
  enforceSpendspecWithTrustSecrets : ℕ
  requiredSpendspecHash : ℕ
  allowMasterSecret : ℕ
  allowFreeze : ℕ
  allowTrustUnfreeze : ℕ
  requirePublicHashkey : ℕ
  restrictAddresses : ℕ
  spendLocktime : ℕ
  trustLocktime : ℕ
  spendDelaytime : ℕ
  trustDelaytime : ℕ
  useSpendSecret : ℕ → ℕ
  useTrustSecret : ℕ → ℕ
  requiredSpendSecrets : ℕ
  requiredTrustSecrets : ℕ
  destnum : ℕ

def SpendSecretParams.clear : SpendSecretParams :=
  ⟨0, 0, 0, 0, 0, 0, 0, 0, 0, 0, 0, 0, 0, 0, fun _ => 0, fun _ => 0, 0, 0, 0⟩

/-- Each secret with its `have` flag. -/
structure SpendSecret where
  spendSecretNumber : ℕ
  haveRestrictedAddress : Bool
  masterSecret : Slot ℕ
  rootSecret : Slot ℕ
  spendSecret : Slot ℕ
  trustSecret : Slot ℕ
  monitorSecret : Slot ℕ
  receiveSecret : Slot ℕ
  deriving DecidableEq

def SpendSecret.clear : SpendSecret := ⟨0, false, ⟨false, 0⟩, ⟨false, 0⟩, ⟨false, 0⟩, ⟨false, 0⟩, ⟨false, 0⟩, ⟨false, 0⟩⟩

/-- The secrets by their index. -/
abbrev SpendSecrets := ℕ → SpendSecret

end CredaCash.Spend
