import CredaCash.Zk.Input

/-! The rules of an input, and the proof that its constraints amount to them. -/

namespace CredaCash.Zk
open Chain Circuit FieldBits Spend

/-- The private inputs of an input as numbers. -/
abbrev TxInNumbers (nassets nrouts : ℕ) : Type := TxInZKPriv nassets nrouts Bool BitVec (BitVec txInputBits)

/-- The secrets of an input as numbers. -/
abbrev SecretNumbers : Type := ZkSecrets Bool BitVec (BitVec txInputBits)

/-- The rules for the flags of an input. -/
structure FlagRules (pub : TxInZKPub) (params : ZkSpendParams Bool BitVec) (secrets : SecretNumbers) : Prop where
  masterSecret : pub.enforceMasterSecret = true → secrets.masterSecretValid = true
  allowMasterSecret : secrets.masterSecretValid = true → params.allowMasterSecret = true
  freeze : pub.enforceFreeze = true → params.allowFreeze = true
  unfreeze : pub.enforceUnfreeze = true → secrets.masterSecretValid = true ∨ secrets.trustSecretsValid = true
  trustUnfreeze : pub.enforceUnfreeze = true → secrets.trustSecretsValid = true → params.allowTrustUnfreeze = true
  spendSecrets : pub.enforceSpendSecrets = true →
    secrets.masterSecretValid = true ∨ secrets.spendSecretsValid = true
  trustSecrets : pub.enforceTrustSecrets = true →
    secrets.masterSecretValid = true ∨ secrets.spendSecretsValid = true ∨ secrets.trustSecretsValid = true

/-- The rules for the hash key and the spend specification. -/
structure HashkeyRules (pub : TxInZKPub) (params : ZkSpendParams Bool BitVec) (secrets : SecretNumbers) : Prop where
  valid : params.requirePublicHashkey = true → secrets.spendSecretsValid = true → secrets.secretValid 1 = true
  hashkey : params.requirePublicHashkey = true → secrets.spendSecretsValid = true →
    pub.hashkey = toVar (secrets.spendSecret 1)
  spendspec : secrets.spendSecretsValid = true → params.enforceSpendspecWithSpendSecrets = true →
    pub.spendspecHashed = toVar params.requiredSpendspecHash
  trustSpendspec : secrets.trustSecretsValid = true → params.enforceSpendspecWithTrustSecrets = true →
    pub.spendspecHashed = toVar params.requiredSpendspecHash

/-- The number of secrets that are valid and used. -/
def secretCount (valid use : Fin txMaxSecrets → Bool) : ℕ := (Finset.univ.filter fun i => (valid i && use i) = true).card

/-- The rules for the number of secrets and for the times. -/
structure RequiredRules (publics : TxPublics) (pub : TxInZKPub) (params : ZkSpendParams Bool BitVec)
    (secrets : SecretNumbers) : Prop where
  spendSecrets : secrets.spendSecretsValid = true →
    params.requiredSpendSecrets.toNat ≤ secretCount secrets.secretValid params.useSpendSecret
  trustSecrets : secrets.trustSecretsValid = true →
    params.requiredTrustSecrets.toNat ≤ secretCount secrets.secretValid params.useTrustSecret
  spendLocktime : secrets.spendSecretsValid = true → params.spendLocktime.toNat ≤ publics.paramTime.toNat
  trustLocktime : secrets.trustSecretsValid = true → params.trustLocktime.toNat ≤ publics.paramTime.toNat
  spendDelaytime : secrets.spendSecretsValid = true → params.spendDelaytime.toNat ≤ pub.delaytime.toNat
  trustDelaytime : secrets.trustSecretsValid = true → params.trustDelaytime.toNat ≤ pub.delaytime.toNat

/-- A secret is the hash of the one above it. -/
def Derives (t : HashTable) (basis : HashBasis) (above : BitVec txInputBits) (secret : ZkVar) : Prop :=
  Hashes t basis [bitsOf above] secret

/-- The rules for the chain of secrets. -/
structure SecretRules (t : HashTable) (secrets : SecretNumbers) : Prop where
  masterSecret : secrets.masterSecretValid = true → ∃ rootSecret : BitVec txFieldBits,
    Derives t .rootSecret secrets.masterSecret (toVar rootSecret) ∧
      Hashes t .spendSecret [bitsOf rootSecret, bitsOf secrets.spendSecretNumber] (toVar (secrets.spendSecret 0))
  trustSecret : ∀ i, (i = 0 ∧ secrets.masterSecretValid = true) ∨
    (secrets.spendSecretsValid = true ∧ secrets.secretValid i = true) →
      Derives t .trustSecret (secrets.spendSecret i) (toVar (secrets.trustSecret i))
  monitorSecret : ∀ i, (i = 0 ∧ secrets.masterSecretValid = true) ∨ secrets.secretValid i = true →
    Derives t .monitorSecret (secrets.trustSecret i) (toVar (secrets.monitorSecret i.castSucc))

/-- A half of a monitor secret as a restricted address. -/
def restrictedAddress (m : BitVec txInputBits) (j : Fin txMaxRestrictedAddresses) : BitVec (txInputBits / 2) :=
  if j.val % 2 = 1 then m.extractLsb' (txInputBits / 2) (txInputBits / 2) else m.extractLsb' 0 (txInputBits / 2)

/-- The addresses of the outputs are restricted. -/
def Restricts (pub : TxInZKPub) (p : TxInNumbers nassets nrouts) : Prop :=
  p.params.restrictAddresses = true ∧ p.secrets.masterSecretValid = false ∧ pub.enforceFreeze = false

/-- The rules for restricted addresses. -/
structure RestrictedRules (publics : TxPublics) (outputs : Fin nrouts → TxOutZKPub) (pub : TxInZKPub)
    (p : TxInNumbers nassets nrouts) : Prop where
  allowed : Restricts pub p → publics.allowRestrictedAddresses = true
  exists_match : ∀ i, Restricts pub p → (outputs i).enforceAddress = true → ∃ j, p.outputAddressMatches i j = true
  unused : ∀ i j, p.outputAddressMatches i j = true → ∀ h : (addressSlot j).val < txMaxSecrets,
    p.params.useSpendSecret ⟨addressSlot j, h⟩ = false ∧ p.params.useTrustSecret ⟨addressSlot j, h⟩ = false
  address : ∀ i j, p.outputAddressMatches i j = true →
    (outputs i).address.toNat = (restrictedAddress (p.secrets.monitorSecret (addressSlot j)) j).toNat

/-- The rules for the commitment and the serial number. -/
structure CommitmentRules (t : HashTable) (pub : TxInZKPub) (p : TxInNumbers nassets nrouts) : Prop where
  commitment : pub.enforce = true → ∃ receiveSecret dest : BitVec txFieldBits,
    Hashes t .receiveSecret (receiveInputs (p.params.map zkBit word) (monitorWord (p.secrets.monitorSecret 0)))
      (toVar receiveSecret) ∧
    Hashes t .destination (destinationInputs (word receiveSecret) (p.params.map zkBit word)
      fun i => monitorWord (p.secrets.monitorSecret i)) (toVar dest) ∧
    Commits t p.billet.commitmentIv dest p.billet.paynum pub.domain p.billet.asset p.billet.amountFp
      (toVar p.billet.commitment)
  publicCommitment : pub.enforcePublicCommitment = true → pub.commitment = toVar p.billet.commitment
  publicCommitnum : pub.enforcePublicCommitnum = true → pub.commitnum = p.billet.commitnum
  serialnum : pub.enforceSerialnum = true →
    Hashes t .serialnum [(monitorWord (p.secrets.monitorSecret 0)).lo.bits,
      (monitorWord (p.secrets.monitorSecret 0)).hi.bits, bitsOf p.billet.commitment, bitsOf p.billet.commitnum]
      pub.serialnum

/-- The rules of an input. -/
structure InputRules (t : HashTable) (txAsset : ℕ → ZkVar) (publics : TxPublics) (outputs : Fin nrouts → TxOutZKPub)
    (pub : TxInZKPub) (p : TxInNumbers nassets nrouts) : Prop where
  isAsset : IsAsset txAsset p.billet.isAsset p.billet.asset
  invalmax : pub.enforce = true → p.billet.asset = 0 →
    p.billet.amountFp.toNat % 2^txAmountExponentBits ≤ pub.invalmax.toNat
  flags : FlagRules pub p.params p.secrets
  hashkey : HashkeyRules pub p.params p.secrets
  required : RequiredRules publics pub p.params p.secrets
  secrets : SecretRules t p.secrets
  restricted : RestrictedRules publics outputs pub p
  commitment : CommitmentRules t pub p

section Allows
variable {nassets nrouts : ℕ} {t : HashTable} {txAsset : ℕ → ZkVar} {publics : TxPublics}
  {outputs : Fin nrouts → TxOutZKPub} {pub : TxInZKPub} {params : ZkSpendParams Bool BitVec} {secrets : SecretNumbers}
  {p : TxInNumbers nassets nrouts} {u : Unit} {r : ZkVar}

lemma checkFlags_allows : (checkFlags pub (params.map zkBit word) (secrets.map zkBit word monitorWord)).Allows u ↔
    FlagRules pub params secrets := by
  simp only [checkFlags, allows_bind, exists_unit, allows_constrainZero, ZkSpendParams.map, ZkSecrets.map,
    one_sub_zkBit, zkBit_mul_zkBit, zkBit_eq_zero]
  constructor
  · rintro ⟨h1, h2, h3, h4, h5, h6, h7⟩
    constructor <;> grind
  · rintro ⟨h1, h2, h3, h4, h5, h6, h7⟩
    grind

lemma checkHashkey_allows : (checkHashkey pub (params.map zkBit word) (secrets.map zkBit word monitorWord)).Allows u ↔
    HashkeyRules pub params secrets := by
  simp only [checkHashkey, allows_bind, exists_unit, allows_constrainZero, ZkSpendParams.map, ZkSecrets.map,
    one_sub_zkBit, zkBit_mul_zkBit, zkBit_mul_eq_zero, zkBit_eq_zero, Bool.and_eq_true, and_imp, sub_eq_zero]
  have hvalid : (params.requirePublicHashkey && secrets.spendSecretsValid && !secrets.secretValid 1) = false ↔
      (params.requirePublicHashkey = true → secrets.spendSecretsValid = true → secrets.secretValid 1 = true) := by
    cases params.requirePublicHashkey <;> cases secrets.spendSecretsValid <;> simp
  rw [hvalid]
  constructor
  · rintro ⟨h1, h2, h3, h4⟩
    exact ⟨h1, h2, h3, h4⟩
  · rintro ⟨h1, h2, h3, h4⟩
    exact ⟨h1, h2, h3, h4⟩

lemma foldl_add {ι : Type} (f : ι → ZkVar) (l : List ι) (x : ZkVar) :
    l.foldl (fun check i => check + f i) x = x + (l.map f).sum := by
  induction l generalizing x with
  | nil => simp
  | cons i l ih => rw [List.foldl_cons, ih, List.map_cons, List.sum_cons, add_assoc]

lemma countSecrets_eq (valid use : Fin txMaxSecrets → Bool) :
    countSecrets (fun i => zkBit (valid i)) (fun i => zkBit (use i)) = (secretCount valid use : ZkVar) := by
  simp only [countSecrets, zkBit_mul_zkBit]
  rw [foldl_add, zero_add, ← Fin.sum_univ_def, sum_zkBit, secretCount]

lemma secretCount_lt (valid use : Fin txMaxSecrets → Bool) : secretCount valid use < 2^txMaxSecretsBits :=
  ((Finset.card_filter_le _ _).trans_eq (Finset.card_fin _)).trans_lt (by decide)

/-- The check of a number that counts only where a flag is set. -/
lemma checkGreaterequal_zkBit {n a : ℕ} {v : BitVec n} {e : Bool} (hn : n ≤ 252) (ha : a < 2^n) :
    (checkGreaterequal a (toVar v * zkBit e) n none).Allows u ↔ (e = true → v.toNat ≤ a) := by
  have hb : (if e = true then v.toNat else 0) < 2^n := by
    split_ifs
    · exact v.isLt
    · exact Nat.two_pow_pos n
  rw [toVar_mul_zkBit, checkGreaterequal_allows hn ha hb]
  cases e <;> simp

lemma checkRequired_allows :
    (checkRequired publics pub (params.map zkBit word) (secrets.map zkBit word monitorWord)).Allows u ↔
      RequiredRules publics pub params secrets := by
  have htime {v : BitVec txTimeBits} {e : Bool} :
      (checkGreaterequal (toVar publics.paramTime) (toVar v * zkBit e) txTimeBits none).Allows () ↔
        (e = true → v.toNat ≤ publics.paramTime.toNat) := checkGreaterequal_zkBit (by decide) publics.paramTime.isLt
  have hdelay {v : BitVec txDelaytimeBits} {e : Bool} {u : Unit} :
      (checkGreaterequal (toVar pub.delaytime) (toVar v * zkBit e) txDelaytimeBits none).Allows u ↔
        (e = true → v.toNat ≤ pub.delaytime.toNat) := checkGreaterequal_zkBit (by decide) pub.delaytime.isLt
  have hcount {v : BitVec txMaxSecretsBits} {e : Bool} {valid use : Fin txMaxSecrets → Bool} :
      (checkGreaterequal (countSecrets (fun i => zkBit (valid i)) fun i => zkBit (use i)) (toVar v * zkBit e)
        txMaxSecretsBits none).Allows () ↔ (e = true → v.toNat ≤ secretCount valid use) := by
    rw [countSecrets_eq]
    exact checkGreaterequal_zkBit (by decide) (secretCount_lt valid use)
  simp only [checkRequired, allows_bind, exists_unit]
  constructor
  · rintro ⟨h1, h2, h3, h4, h5, h6⟩
    exact ⟨hcount.1 h1, hcount.1 h2, htime.1 h3, htime.1 h4, hdelay.1 h5, hdelay.1 h6⟩
  · rintro ⟨h1, h2, h3, h4, h5, h6⟩
    exact ⟨hcount.2 h1, hcount.2 h2, htime.2 h3, htime.2 h4, hdelay.2 h5, hdelay.2 h6⟩

lemma exists_toVar (x : ZkVar) : ∃ v : BitVec txFieldBits, x = toVar v :=
  ⟨BitVec.ofNat _ x.val, by rw [toVar, BitVec.toNat_ofNat, Nat.mod_eq_of_lt ((ZMod.val_lt x).trans fieldPrime_lt),
    ZMod.natCast_zmod_val]⟩

lemma exists_hashes_toVar (t : HashTable) (basis : HashBasis) (a : List (List ZkVar)) :
    ∃ v : BitVec txFieldBits, Hashes t basis a (toVar v) := by
  obtain ⟨r, hr⟩ := exists_hashes t basis a
  obtain ⟨v, rfl⟩ := exists_toVar r
  exact ⟨v, hr⟩

/-- A hash that is broken into bits again. -/
lemma exists_hashes_word {basis : HashBasis} {a : List (List ZkVar)} {P : ZkWord → Prop} :
    (∃ x, Hashes t basis a x ∧ ∃ w, (∃ v : BitVec txFieldBits, x = toVar v ∧ w = word v) ∧ P w) ↔
      ∃ v : BitVec txFieldBits, Hashes t basis a (toVar v) ∧ P (word v) := by
  constructor
  · rintro ⟨_, hx, _, ⟨v, rfl, rfl⟩, h⟩
    exact ⟨v, hx, h⟩
  · rintro ⟨v, hx, h⟩
    exact ⟨_, hx, _, ⟨v, rfl, rfl⟩, h⟩

lemma checkMasterSecret_allows : (checkMasterSecret t (secrets.map zkBit word monitorWord)).Allows u ↔
    (secrets.masterSecretValid = true → ∃ rootSecret : BitVec txFieldBits,
      Derives t .rootSecret secrets.masterSecret (toVar rootSecret) ∧
        Hashes t .spendSecret [bitsOf rootSecret, bitsOf secrets.spendSecretNumber] (toVar (secrets.spendSecret 0))) := by
  simp only [checkMasterSecret, allows_bind, hashBits_allows, breakout_allows_iff, allows_constrainZero,
    exists_hashes_word, ZkSecrets.map, mul_zkBit_eq_zero, exists_hashes_iff]
  constructor
  · rintro ⟨rootSecret, hroot, hspend⟩ hvalid
    exact ⟨rootSecret, hroot, hspend hvalid⟩
  · intro h
    by_cases hvalid : secrets.masterSecretValid = true
    · obtain ⟨rootSecret, hroot, hspend⟩ := h hvalid
      exact ⟨rootSecret, hroot, fun _ => hspend⟩
    · obtain ⟨rootSecret, hroot⟩ := exists_hashes_toVar t .rootSecret [bitsOf secrets.masterSecret]
      exact ⟨rootSecret, hroot, fun h => absurd h hvalid⟩

lemma mul_zkBit_add_eq_zero {x : ZkVar} {a b : Bool} :
    x * (zkBit a + zkBit b) = 0 ↔ (a = true ∨ b = true → x = 0) := by
  have htwo : (1 + 1 : ZkVar) ≠ 0 := by decide +kernel
  cases a <;> cases b <;> simp [htwo]

lemma checkSecret_allows {basis : HashBasis} {above : BitVec txInputBits} {x : ZkVar} {a b : Bool} :
    (checkSecret t basis (word above) x (zkBit a + zkBit b)).Allows u ↔
      (a = true ∨ b = true → Derives t basis above x) := by
  simp only [checkSecret, allows_bind, hashBits_allows, allows_constrainZero, mul_zkBit_add_eq_zero, exists_hashes_iff]
  rfl

lemma checkSecretChain_allows : (checkSecretChain t (secrets.map zkBit word monitorWord)).Allows u ↔
    (∀ i, (i = 0 ∧ secrets.masterSecretValid = true) ∨
      (secrets.spendSecretsValid = true ∧ secrets.secretValid i = true) →
        Derives t .trustSecret (secrets.spendSecret i) (toVar (secrets.trustSecret i))) ∧
    ∀ i, (i = 0 ∧ secrets.masterSecretValid = true) ∨ secrets.secretValid i = true →
      Derives t .monitorSecret (secrets.trustSecret i) (toVar (secrets.monitorSecret i.castSucc)) := by
  have hmaster (i : Fin txMaxSecrets) : (if i = 0 then zkBit secrets.masterSecretValid else 0) =
      zkBit (i = 0 && secrets.masterSecretValid) := by
    by_cases h : i = 0 <;> simp [h]
  simp only [checkSecretChain, allows_forM, List.mem_finRange, true_implies, allows_bind, exists_unit, ZkSecrets.map,
    hmaster, zkBit_mul_zkBit, checkSecret_allows, Bool.and_eq_true, decide_eq_true_iff, forall_and]
  rfl

lemma foldl_mul_zkBit {ι : Type} (b : ι → Bool) (l : List ι) (x : ZkVar) :
    l.foldl (fun check j => check * zkBit (b j)) x = x * zkBit (l.all b) := by
  induction l generalizing x with
  | nil => simp
  | cons j l ih => rw [List.foldl_cons, ih, mul_assoc, zkBit_mul_zkBit, List.all_cons]

lemma checkUnused_allows {b : Bool} {k : ℕ} : (checkUnused (zkBit b) (params.map zkBit word) k).Allows u ↔
    (b = true → ∀ h : k < txMaxSecrets, params.useSpendSecret ⟨k, h⟩ = false ∧ params.useTrustSecret ⟨k, h⟩ = false) := by
  rw [checkUnused]
  split_ifs with h
  · simp only [allows_bind, exists_unit, allows_constrainZero, ZkSpendParams.map, zkBit_mul_eq_zero, zkBit_eq_zero, h,
      forall_true_left]
    exact ⟨fun hu hb => ⟨hu.1 hb, hu.2 hb⟩, fun hu => ⟨fun hb => (hu hb).1, fun hb => (hu hb).2⟩⟩
  · exact iff_of_true (allows_pure.2 rfl) fun _ hlt => absurd hlt h

lemma monitorHalf_eq (m : BitVec txInputBits) (j : Fin txMaxRestrictedAddresses) :
    monitorHalf (monitorWord m) j = toVar (restrictedAddress m j) := by
  rw [monitorHalf, restrictedAddress]
  split_ifs <;> rfl

lemma toVar_sub_eq_zero {n m : ℕ} (hn : n ≤ 253) (hm : m ≤ 253) {v : BitVec n} {w : BitVec m} :
    toVar v - toVar w = 0 ↔ v.toNat = w.toNat := by
  rw [sub_eq_zero, toVar, toVar, natCast_inj_of_lt (p := fieldPrime) (lt_fieldPrime v.isLt hn) (lt_fieldPrime w.isLt hm)]

lemma checkRestrictedAddresses_allows :
    (checkRestrictedAddresses publics outputs pub (p.map zkBit word monitorWord)).Allows u ↔
      RestrictedRules publics outputs pub p := by
  have hrestricts : (p.params.restrictAddresses && !p.secrets.masterSecretValid && !pub.enforceFreeze) = true ↔
      Restricts pub p := by
    simp only [Restricts, Bool.and_eq_true, Bool.not_eq_true', and_assoc]
  have hallowed : (p.params.restrictAddresses && !p.secrets.masterSecretValid && !pub.enforceFreeze &&
      !publics.allowRestrictedAddresses) = false ↔ (Restricts pub p → publics.allowRestrictedAddresses = true) := by
    rw [← hrestricts]
    cases publics.allowRestrictedAddresses <;> simp
  have hmatch (i : Fin nrouts) : (p.params.restrictAddresses && !p.secrets.masterSecretValid && !pub.enforceFreeze &&
      (outputs i).enforceAddress && (List.finRange txMaxRestrictedAddresses).all fun j =>
        !p.outputAddressMatches i j) = false ↔ (Restricts pub p → (outputs i).enforceAddress = true →
          ∃ j, p.outputAddressMatches i j = true) := by
    rw [← hrestricts, ← Bool.not_eq_true, Bool.and_eq_true, Bool.and_eq_true, List.all_eq_true]
    simp only [List.mem_finRange, true_implies, Bool.not_eq_true', not_and, not_forall, Bool.not_eq_false, and_imp]
  have haddress (i : Fin nrouts) (j : Fin txMaxRestrictedAddresses) :
      zkBit (p.outputAddressMatches i j) * (toVar (outputs i).address -
        monitorHalf (monitorWord (p.secrets.monitorSecret (addressSlot j))) j) = 0 ↔
      (p.outputAddressMatches i j = true →
        (outputs i).address.toNat = (restrictedAddress (p.secrets.monitorSecret (addressSlot j)) j).toNat) := by
    rw [zkBit_mul_eq_zero, monitorHalf_eq, toVar_sub_eq_zero (by decide) (by decide)]
  simp only [checkRestrictedAddresses, allows_bind, exists_unit, allows_constrainZero, allows_forM, List.mem_finRange,
    true_implies, TxInZKPriv.map, checkUnused_allows]
  simp only [ZkSpendParams.map, ZkSecrets.map, foldl_mul_zkBit, one_sub_zkBit, zkBit_mul_zkBit, zkBit_eq_zero, hallowed,
    hmatch, haddress, forall_and]
  constructor
  · rintro ⟨hallows, hexists, ⟨hspend, htrust⟩, haddr⟩
    exact ⟨hallows, hexists, fun i j hm h => ⟨hspend i j hm h, htrust i j hm h⟩, haddr⟩
  · rintro ⟨hallows, hexists, hunused, haddr⟩
    exact ⟨hallows, hexists, ⟨fun i j hm h => (hunused i j hm h).1, fun i j hm h => (hunused i j hm h).2⟩, haddr⟩

lemma checkCommitment_allows :
    (checkCommitment t pub (word pub.domain) (p.map zkBit word monitorWord)).Allows u ↔
      (pub.enforce = true → ∃ receiveSecret dest : BitVec txFieldBits,
        Hashes t .receiveSecret (receiveInputs (p.params.map zkBit word) (monitorWord (p.secrets.monitorSecret 0)))
          (toVar receiveSecret) ∧
        Hashes t .destination (destinationInputs (word receiveSecret) (p.params.map zkBit word)
          fun i => monitorWord (p.secrets.monitorSecret i)) (toVar dest) ∧
        Commits t p.billet.commitmentIv dest p.billet.paynum pub.domain p.billet.asset p.billet.amountFp
          (toVar p.billet.commitment)) := by
  simp only [checkCommitment, allows_bind, hashBits_allows, breakout_allows_iff, allows_constrainZero,
    exists_hashes_word, mul_zkBit_eq_zero, exists_hashes_iff]
  constructor
  · rintro ⟨receiveSecret, hreceive, dest, hdest, hcommit⟩ he
    exact ⟨receiveSecret, dest, hreceive, hdest, hcommit he⟩
  · intro h
    by_cases he : pub.enforce = true
    · obtain ⟨receiveSecret, dest, hreceive, hdest, hcommit⟩ := h he
      exact ⟨receiveSecret, hreceive, dest, hdest, fun _ => hcommit⟩
    · obtain ⟨receiveSecret, hreceive⟩ := exists_hashes_toVar t .receiveSecret
        (receiveInputs (p.params.map zkBit word) (monitorWord (p.secrets.monitorSecret 0)))
      obtain ⟨dest, hdest⟩ := exists_hashes_toVar t .destination (destinationInputs (word receiveSecret)
        (p.params.map zkBit word) fun i => monitorWord (p.secrets.monitorSecret i))
      exact ⟨receiveSecret, hreceive, dest, hdest, fun h => absurd h he⟩

lemma checkPublicCommitment_allows : (checkPublicCommitment pub (p.billet.map zkBit word)).Allows u ↔
    (pub.enforcePublicCommitment = true → pub.commitment = toVar p.billet.commitment) ∧
      (pub.enforcePublicCommitnum = true → pub.commitnum = p.billet.commitnum) := by
  have hnum : toVar pub.commitnum - toVar p.billet.commitnum = 0 ↔ pub.commitnum = p.billet.commitnum := by
    rw [toVar_sub_eq_zero (by decide) (by decide), BitVec.toNat_inj]
  simp only [checkPublicCommitment, allows_bind, exists_unit, allows_constrainZero, mul_zkBit_eq_zero]
  exact and_congr (imp_congr_right fun _ => sub_eq_zero) (imp_congr_right fun _ => hnum)

lemma checkSerialnum_allows {monitor : MonitorWord} : (checkSerialnum t pub (p.billet.map zkBit word) monitor).Allows u ↔
    (pub.enforceSerialnum = true → Hashes t .serialnum [monitor.lo.bits, monitor.hi.bits, bitsOf p.billet.commitment,
      bitsOf p.billet.commitnum] pub.serialnum) := by
  simp only [checkSerialnum, allows_bind, hashBits_allows, allows_constrainZero, mul_zkBit_eq_zero, exists_hashes_iff]
  rfl

lemma checkInvalmax_allows : (checkGreaterequal (toVar pub.invalmax)
    (amountExponent (word p.billet.amountFp) * enforceMinmax pub.enforce (word p.billet.asset)) txAmountExponentBits
    none).Allows u ↔ (pub.enforce = true → p.billet.asset = 0 →
      p.billet.amountFp.toNat % 2^txAmountExponentBits ≤ pub.invalmax.toNat) := by
  have hlt : p.billet.amountFp.toNat % 2^txAmountExponentBits < 2^txAmountExponentBits := Nat.mod_lt _ (Nat.two_pow_pos _)
  have hvar : ((p.billet.amountFp.toNat % 2^txAmountExponentBits : ℕ) : ZkVar) =
      toVar (BitVec.ofNat txAmountExponentBits p.billet.amountFp.toNat) := by rw [toVar, BitVec.toNat_ofNat]
  rw [enforceMinmax_eq, amountExponent_eq, hvar]
  refine (checkGreaterequal_zkBit (by decide) pub.invalmax.isLt).trans ?_
  rw [BitVec.toNat_ofNat, Bool.and_eq_true, decide_eq_true_iff, and_imp]

/-- The constraints of an input are its rules. -/
theorem computeInput_allows (hn : nassets < fieldPrime) :
    (computeInput t txAsset publics outputs pub (word pub.domain) (p.map zkBit word monitorWord)).Allows r ↔
      InputRules t txAsset publics outputs pub p ∧ r = (txAmountDecode p.billet.amountFp.toNat : ZkVar) := by
  simp only [computeInput, allows_bind, exists_unit, allows_pure]
  constructor
  · rintro ⟨hasset, hinvalmax, hflags, hhashkey, hrequired, hmaster, hchain, hrestricted, hcommitment, hpublic, hserial,
      rfl⟩
    obtain ⟨htrust, hmonitor⟩ := checkSecretChain_allows.1 hchain
    obtain ⟨hcommit, hcommitnum⟩ := checkPublicCommitment_allows.1 hpublic
    refine ⟨?_, computeIntegerAmount_eq p.billet.amountFp⟩
    exact ⟨(checkIsAsset_allows hn).1 hasset, checkInvalmax_allows.1 hinvalmax, checkFlags_allows.1 hflags,
      checkHashkey_allows.1 hhashkey, checkRequired_allows.1 hrequired,
      ⟨checkMasterSecret_allows.1 hmaster, htrust, hmonitor⟩, checkRestrictedAddresses_allows.1 hrestricted,
      checkCommitment_allows.1 hcommitment, hcommit, hcommitnum, checkSerialnum_allows.1 hserial⟩
  · rintro ⟨h, rfl⟩
    exact ⟨(checkIsAsset_allows hn).2 h.isAsset, checkInvalmax_allows.2 h.invalmax, checkFlags_allows.2 h.flags,
      checkHashkey_allows.2 h.hashkey, checkRequired_allows.2 h.required,
      checkMasterSecret_allows.2 h.secrets.masterSecret,
      checkSecretChain_allows.2 ⟨h.secrets.trustSecret, h.secrets.monitorSecret⟩,
      checkRestrictedAddresses_allows.2 h.restricted, checkCommitment_allows.2 h.commitment.commitment,
      checkPublicCommitment_allows.2 ⟨h.commitment.publicCommitment, h.commitment.publicCommitnum⟩,
      checkSerialnum_allows.2 h.commitment.serialnum, (computeIntegerAmount_eq p.billet.amountFp).symm⟩

end Allows

end CredaCash.Zk
