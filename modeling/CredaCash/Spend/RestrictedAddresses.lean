import CredaCash.Spend.SecretsJson

/-! The addresses that a spender is restricted to: each half of a secret that is not used has one of them. -/

namespace CredaCash.Spend
open Json Derivation

/-- What can be read from the slots is what is listed, and secrets that are used are as they were. -/
structure NoStray (hash : Hash) (noPrecheck : Bool) (bigval : ℕ) (root : Root) (listed : List ℕ)
    (params : SpendSecretParams) (secrets : SpendSecrets) : Prop where
  stored : ∀ v ∈ listed, ∃ slot < txMaxRestrictedAddresses,
    RestrictedAddressSlotOpen params slot ∧ getRestrictedAddress secrets slot = v
  only : ∀ slot < txMaxRestrictedAddresses, RestrictedAddressSlotOpen params slot →
    getRestrictedAddress secrets slot ∈ listed
  separate : ∀ slot < txMaxRestrictedAddresses, ∀ other < txMaxRestrictedAddresses, other ≠ slot →
    ∀ secrets v, getRestrictedAddress (setRestrictedAddress secrets slot v) other = getRestrictedAddress secrets other
  kept : ∃ read r, readMulti .clear (fun _ => .clear) bigval root = .ok (read, r) ∧
    ∀ j, params.Uses j → computeOrVerifySecrets hash params (read.2.1 j) noPrecheck = .ok (secrets j)
  fits : listed.length ≤
    ((List.range txMaxRestrictedAddresses).filter fun slot => RestrictedAddressSlotOpen params slot).length

section
variable {secrets : SpendSecrets} {slot other v : ℕ}

lemma restrictedAddressSecretIndex_eq (slot : ℕ) : restrictedAddressSecretIndex slot = 7 - slot / 2 := rfl

lemma getRestrictedAddress_set_self : getRestrictedAddress (setRestrictedAddress secrets slot v) slot = v % 2^128 := by
  unfold getRestrictedAddress setRestrictedAddress setHalf
  rw [Function.update_self]
  simp only [txInputBits, Nat.reduceDiv]
  split_ifs
  · omega
  · omega

/-- The two slots of a secret are its halves. -/
lemma getRestrictedAddress_set_of_ne (hslot : slot < txMaxRestrictedAddresses) (hother : other < txMaxRestrictedAddresses)
    (hne : other ≠ slot) :
    getRestrictedAddress (setRestrictedAddress secrets slot v) other = getRestrictedAddress secrets other := by
  unfold txMaxRestrictedAddresses at hslot hother
  unfold getRestrictedAddress setRestrictedAddress setHalf
  by_cases hsame : restrictedAddressSecretIndex other = restrictedAddressSecretIndex slot
  · rw [hsame, Function.update_self]
    rw [restrictedAddressSecretIndex_eq, restrictedAddressSecretIndex_eq] at hsame
    simp only [txInputBits, Nat.reduceDiv]
    by_cases hodd : slot % 2 = 1
    · rw [if_pos hodd, if_neg (by omega), if_neg (by omega)]
      omega
    · rw [if_neg hodd, if_pos (by omega), if_pos (by omega)]
      omega
  · rw [Function.update_of_ne hsame]

lemma setRestrictedAddress_of_ne {j : ℕ} (h : j ≠ restrictedAddressSecretIndex slot) :
    setRestrictedAddress secrets slot v j = secrets j := Function.update_of_ne h ..

/-- A secret whose monitor secret holds restricted addresses. -/
def Restricted (s : SpendSecret) : Prop := s.haveRestrictedAddress ∧ s.monitorSecret.present

lemma restricted_set (h : Restricted (secrets (restrictedAddressSecretIndex other))) :
    Restricted (setRestrictedAddress secrets slot v (restrictedAddressSecretIndex other)) := by
  by_cases hsame : restrictedAddressSecretIndex other = restrictedAddressSecretIndex slot
  · rw [hsame, setRestrictedAddress, Function.update_self]
    exact ⟨rfl, rfl⟩
  · rwa [setRestrictedAddress_of_ne hsame]

lemma restricted_set_self : Restricted (setRestrictedAddress secrets slot v (restrictedAddressSecretIndex slot)) := by
  rw [setRestrictedAddress, Function.update_self]
  exact ⟨rfl, rfl⟩

end

/-- What holds of the slots that have been passed. -/
structure StoreInv (params : SpendSecretParams) (before : SpendSecrets) (listed : List ℕ) (s : Stored) : Prop where
  nraddrs_le : s.nraddrs ≤ txMaxRestrictedAddresses
  stored : ∀ v ∈ listed, ∃ slot < s.nraddrs,
    RestrictedAddressSlotOpen params slot ∧ getRestrictedAddress s.secrets slot = v % 2^128
  only : ∀ slot < s.nraddrs, RestrictedAddressSlotOpen params slot →
    ∃ v ∈ listed, getRestrictedAddress s.secrets slot = v % 2^128
  restricted : ∀ slot < s.nraddrs, RestrictedAddressSlotOpen params slot →
    Restricted (s.secrets (restrictedAddressSecretIndex slot))
  kept : ∀ j, params.Uses j → s.secrets j = before j
  last : listed ≠ [] → s.bigval ∈ listed
  fits : listed.length ≤ ((List.range s.nraddrs).filter fun slot => RestrictedAddressSlotOpen params slot).length

section
variable {params : SpendSecretParams} {before : SpendSecrets} {listed listed' : List ℕ} {s s' : Stored} {n v : ℕ}

/-- Slots that are used are passed over. -/
lemma StoreInv.skip (h : StoreInv params before listed s) (hle : s.nraddrs ≤ n) (hn : n ≤ txMaxRestrictedAddresses)
    (hused : ∀ slot, s.nraddrs ≤ slot → slot < n → ¬RestrictedAddressSlotOpen params slot) :
    StoreInv params before listed { s with nraddrs := n } := by
  have hlt : ∀ slot < n, RestrictedAddressSlotOpen params slot → slot < s.nraddrs := fun slot hslot hopen => by
    by_contra hge
    exact hused slot (not_lt.1 hge) hslot hopen
  refine ⟨hn, fun v hv => ?_, fun slot hslot hopen => h.only slot (hlt slot hslot hopen) hopen,
    fun slot hslot hopen => h.restricted slot (hlt slot hslot hopen) hopen, h.kept, h.last, ?_⟩
  · obtain ⟨slot, hslot, hopen, hget⟩ := h.stored v hv
    exact ⟨slot, hslot.trans_le hle, hopen, hget⟩
  · exact h.fits.trans (List.Sublist.length_le ((List.range_sublist.2 hle).filter _))

/-- The next slot takes an address, which is a new one of the list or is there already. -/
lemma StoreInv.set (h : StoreInv params before listed s) (hn : s.nraddrs < txMaxRestrictedAddresses)
    (hopen : RestrictedAddressSlotOpen params s.nraddrs) (hsub : ∀ w ∈ listed, w ∈ listed')
    (hnew : ∀ w ∈ listed', w ∈ listed ∨ w = v) (hv : v ∈ listed') (hlen : listed'.length ≤ listed.length + 1) :
    StoreInv params before listed' ⟨setRestrictedAddress s.secrets s.nraddrs v, s.nraddrs + 1, v⟩ := by
  have hold : ∀ slot < s.nraddrs,
      getRestrictedAddress (setRestrictedAddress s.secrets s.nraddrs v) slot = getRestrictedAddress s.secrets slot :=
    fun slot hslot => getRestrictedAddress_set_of_ne hn (hslot.trans hn) hslot.ne
  refine ⟨hn, fun w hw => ?_, fun slot hslot hopen' => ?_, fun slot hslot hopen' => ?_, fun j hj => ?_,
    fun _ => hv, ?_⟩
  · rcases hnew w hw with hw | rfl
    · obtain ⟨slot, hslot, hopen', hget⟩ := h.stored w hw
      exact ⟨slot, Nat.lt_succ_of_lt hslot, hopen', (hold slot hslot).trans hget⟩
    · exact ⟨s.nraddrs, Nat.lt_succ_self _, hopen, getRestrictedAddress_set_self⟩
  · rcases Nat.lt_succ_iff_lt_or_eq.1 hslot with hslot | rfl
    · obtain ⟨w, hw, hget⟩ := h.only slot hslot hopen'
      exact ⟨w, hsub w hw, (hold slot hslot).trans hget⟩
    · exact ⟨v, hv, getRestrictedAddress_set_self⟩
  · rcases Nat.lt_succ_iff_lt_or_eq.1 hslot with hslot | rfl
    · exact restricted_set (h.restricted slot hslot hopen')
    · exact restricted_set_self
  · exact (setRestrictedAddress_of_ne fun hsame => hopen (hsame ▸ hj)).trans (h.kept j hj)
  · have hfits := h.fits
    rw [List.range_succ, List.filter_append, List.length_append, List.filter_singleton, decide_eq_true hopen]
    exact hlen.trans (Nat.succ_le_succ hfits)

lemma nextOpenSlot_eq_some (h : nextOpenSlot params n = some v) :
    RestrictedAddressSlotOpen params v ∧ n ≤ v ∧ v < txMaxRestrictedAddresses ∧
      ∀ slot, n ≤ slot → slot < v → ¬RestrictedAddressSlotOpen params slot := by
  obtain ⟨hopen, hmem, hbefore⟩ := List.find?_range'_eq_some.1 h
  obtain ⟨hle, hlt⟩ := List.mem_range'_1.1 hmem
  exact ⟨of_decide_eq_true hopen, hle, by omega, fun slot hn hslot => by simpa using hbefore slot hn hslot⟩

/-- Values that have been read one after the other. -/
lemma StoreInv.foldlM {values : List Value} (h : StoreInv params before listed s)
    (hs : values.foldlM (storeAddress params) s = .ok s') :
    ∃ new, values.mapM (Value.asInt restrictedAddressesKey txAddressBits 0) = .ok new ∧
      StoreInv params before (listed ++ new) s' := by
  induction values generalizing listed s with
  | nil =>
    obtain rfl := Except.ok.inj hs
    exact ⟨[], rfl, by rwa [List.append_nil]⟩
  | cons value values ih =>
    rw [List.foldlM_cons] at hs
    obtain ⟨s₁, hs₁, hs⟩ := Checks.bind_eq_ok.1 hs
    obtain ⟨v, hv, hnext⟩ := Checks.bind_eq_ok.1 hs₁
    cases hslot : nextOpenSlot params s.nraddrs with
    | none =>
      rw [hslot] at hnext
      cases hnext
    | some slot =>
      rw [hslot] at hnext
      obtain rfl := Except.ok.inj hnext
      obtain ⟨hopen, hle, hlt, hused⟩ := nextOpenSlot_eq_some hslot
      have hset : StoreInv params before (listed ++ [v]) ⟨setRestrictedAddress s.secrets slot v, slot + 1, v⟩ :=
        (h.skip hle hlt.le hused).set hlt hopen (fun w hw => List.mem_append_left _ hw) (fun w hw => by simpa using hw)
          (by simp) (by simp)
      obtain ⟨new, hnew, hinv⟩ := ih hset hs
      refine ⟨v :: new, ?_, by rwa [List.append_assoc, List.singleton_append] at hinv⟩
      rw [List.mapM_cons, hv]
      simp only [Checks.ok_bind, hnew]
      rfl

/-- All open slots have a listed address in the end. -/
lemma StoreInv.fill (h : StoreInv params before listed s) (hne : listed ≠ []) :
    StoreInv params before listed ⟨fillSlots params s, txMaxRestrictedAddresses, s.bigval⟩ := by
  obtain ⟨m, hm⟩ : ∃ m, m = txMaxRestrictedAddresses - s.nraddrs := ⟨_, rfl⟩
  have hle := h.nraddrs_le
  unfold fillSlots
  rw [← hm]
  induction m generalizing s with
  | zero =>
    obtain heq : s.nraddrs = txMaxRestrictedAddresses := by omega
    rw [← heq]
    exact h
  | succ m ih =>
    have hlt : s.nraddrs < txMaxRestrictedAddresses := by omega
    rw [List.range'_succ, List.foldl_cons]
    split_ifs with hopen
    · have hset := h.set hlt hopen (fun w hw => hw) (fun w hw => .inl hw) (h.last hne) (Nat.le_succ _)
      exact ih hset (by dsimp only; omega) hset.nraddrs_le
    · have hskip := h.skip (Nat.le_succ s.nraddrs) hlt fun slot hge hlt' => by
        obtain rfl : slot = s.nraddrs := by omega
        exact hopen
      exact ih hskip (by dsimp only; omega) hskip.nraddrs_le

end

section
variable {params p q : SpendSecretParams} {secrets t u : SpendSecrets} {root r : Root} {bigval : ℕ} {values : List Value}

lemma keeps_secretsMember {key one many : String} (hone : key ≠ one) (hmany : key ≠ many) (multi : Bool) (limit : ℕ)
    (first : Slot ℕ) : Keeps key (secretsMember multi one many limit first) := by
  refine (keeps_intMember hone _ _).bind fun value => ?_
  cases value with
  | some value => exact keeps_pure key _
  | none =>
    dsimp only
    split_ifs
    · exact (keeps_arrayMember hmany _ _).bind fun _ => keeps_pure key _
    · exact keeps_pure key _

lemma keeps_useMember {key k : String} (h : key ≠ k) (flags : ℕ → ℕ) (default : ℕ → Bool) (bigval : ℕ) :
    Keeps key (useMember k flags default bigval) := by
  refine (keeps_arrayMember h _ _).bind fun values => ?_
  cases values with
  | none | some => exact keeps_pure key _

lemma keeps_spendSecretNumberMember (secret : SpendSecret) :
    Keeps restrictedAddressesKey (spendSecretNumberMember secret) := by
  unfold spendSecretNumberMember
  split_ifs
  · exact keeps_intMember (by decide) _ _
  · exact keeps_pure _ _

/-- What is read before leaves the restricted addresses. -/
lemma keeps_readMulti (params : SpendSecretParams) (secrets : SpendSecrets) (bigval : ℕ) :
    Keeps restrictedAddressesKey (readMulti params secrets bigval) := by
  have hsecrets : Keeps restrictedAddressesKey (readSecrets true secrets bigval) := by
    refine (keeps_intMember (by decide) _ _).bind fun _ => (keeps_intMember (by decide) _ _).bind fun _ => ?_
    refine (keeps_spendSecretNumberMember _).bind fun _ =>
      (keeps_secretsMember (by decide) (by decide) _ _ _).bind fun _ => ?_
    refine (keeps_secretsMember (by decide) (by decide) _ _ _).bind fun _ => ?_
    refine (keeps_secretsMember (by decide) (by decide) _ _ _).bind fun _ => ?_
    exact (keeps_intMember (by decide) _ _).bind fun _ => keeps_pure _ _
  refine hsecrets.bind fun _ => Keeps.bind ?_ fun _ => keeps_pure _ _
  refine (keeps_useMember (by decide) _ _ _).bind fun _ => ?_
  exact (keeps_useMember (by decide) _ _ _).bind fun _ => keeps_pure _ _

/-- No restricted address has been counted before. -/
lemma gives_readMulti (params : SpendSecretParams) (secrets : SpendSecrets) (bigval : ℕ) :
    Gives (fun read => read.1.nraddrs = params.nraddrs) (readMulti params secrets bigval) := by
  intro root read r h
  obtain ⟨read₁, r₁, -, h⟩ := bind_eq_ok.1 h
  obtain ⟨read₂, r₂, huse, h⟩ := bind_eq_ok.1 h
  obtain ⟨rfl, -⟩ := pure_eq_ok.1 h
  refine (?_ : Gives (fun use : SpendSecretParams × ℕ => use.1.nraddrs = params.nraddrs) _) r₁ read₂ r₂ huse
  exact gives_bind fun _ => gives_bind fun _ => gives_pure rfl

/-- The parameters leave open what is open. -/
lemma gives_txParamsFromJson (multi : Bool) (params : SpendSecretParams) :
    Gives (fun p => ∀ j, p.Uses j ↔ params.Uses j) (txParamsFromJson multi params) := by
  unfold txParamsFromJson
  refine gives_bind fun _ => gives_bind fun _ => gives_bind fun _ => gives_bind fun _ => gives_bind fun _ => ?_
  refine gives_bind fun _ => gives_bind fun _ => gives_bind fun _ => gives_bind fun _ => gives_bind fun _ => ?_
  refine gives_bind fun _ => gives_bind fun _ => ?_
  split_ifs
  · refine gives_bind fun _ => gives_bind fun _ => gives_bind fun destnum => ?_
    cases destnum with
    | none => exact gives_throw _ _
    | some destnum => exact gives_pure fun _ => Iff.rfl
  · exact gives_pure fun _ => Iff.rfl

lemma restrictAddresses_eq_ok (harray : root.lookup restrictedAddressesKey = some (.array values))
    (h : restrictAddresses params secrets bigval root = .ok ((p, t), r)) :
    ∃ s, values.foldlM (storeAddress params) ⟨secrets, params.nraddrs, bigval⟩ = .ok s ∧
      (∀ j, p.Uses j ↔ params.Uses j) ∧ t = fillSlots params s := by
  obtain ⟨value, r₁, hvalue, h⟩ := bind_eq_ok.1 h
  obtain ⟨rfl, rfl⟩ := Prod.mk.injEq .. ▸ Except.ok.inj hvalue
  rw [harray] at h
  dsimp only at h
  split_ifs at h with hlen
  · exact absurd h throw_ne_ok
  · obtain ⟨s, r₂, hs, h⟩ := bind_eq_ok.1 h
    obtain ⟨heq, -⟩ := pure_eq_ok.1 h
    obtain ⟨rfl, rfl⟩ := Prod.mk.inj heq
    exact ⟨s, (lift_eq_ok.1 hs).1, fun _ => Iff.rfl, rfl⟩

variable {hash : Hash} {noPrecheck multi : Bool}

/-- The secrets up to some index have been completed. -/
lemma foldlM_dependentSecret {n : ℕ} (h : (List.range n).foldlM (dependentSecret hash noPrecheck params) secrets = .ok t) :
    (∀ j < n, computeOrVerifySecrets hash params (secrets j) noPrecheck = .ok (t j)) ∧ ∀ j, n ≤ j → t j = secrets j := by
  induction n generalizing t with
  | zero =>
    obtain rfl := Except.ok.inj h
    exact ⟨fun j hj => absurd hj (Nat.not_lt_zero j), fun _ _ => rfl⟩
  | succ n ih =>
    rw [List.range_succ, List.foldlM_append] at h
    obtain ⟨t₁, ht₁, h⟩ := Checks.bind_eq_ok.1 h
    obtain ⟨hdone, hleft⟩ := ih ht₁
    have hone : dependentSecret hash noPrecheck params t₁ n = .ok t := by
      rw [List.foldlM_cons] at h
      obtain ⟨t₂, ht₂, h⟩ := Checks.bind_eq_ok.1 h
      rwa [← Except.ok.inj h]
    unfold dependentSecret at hone
    cases hc : computeOrVerifySecrets hash params (t₁ n) noPrecheck with
    | error e =>
      rw [hc] at hone
      cases hone
    | ok secret =>
      rw [hc] at hone
      obtain rfl := Except.ok.inj hone
      refine ⟨fun j hj => ?_, fun j hj => ?_⟩
      · rcases Nat.lt_succ_iff_lt_or_eq.1 hj with hj | rfl
        · rw [Function.update_of_ne hj.ne]
          exact hdone j hj
        · rw [Function.update_self, ← hleft j le_rfl]
          exact hc
      · rw [Function.update_of_ne (by omega)]
        exact hleft j (by omega)

lemma finishSecrets_eq_ok (h : finishSecrets hash noPrecheck multi params secrets root = .ok ((p, t), r)) :
    (∀ j, p.Uses j ↔ params.Uses j) ∧
      (∀ j < txMaxSecrets, computeOrVerifySecrets hash p (secrets j) noPrecheck = .ok (t j)) ∧
      ∀ j, txMaxSecrets ≤ j → t j = secrets j := by
  obtain ⟨q, r₁, hq, h⟩ := bind_eq_ok.1 h
  obtain ⟨u, r₂, hu, h⟩ := bind_eq_ok.1 h
  obtain ⟨heq, -⟩ := pure_eq_ok.1 h
  obtain ⟨rfl, rfl⟩ := Prod.mk.inj heq
  exact ⟨gives_txParamsFromJson multi params root q r₁ hq, foldlM_dependentSecret (lift_eq_ok.1 hu).1⟩

/-- Monitor secrets that hold addresses stay as they are. -/
lemma computeOrVerifySecrets_restricted {s s' : SpendSecret} (hs : Restricted s)
    (h : computeOrVerifySecrets hash params s noPrecheck = .ok s') : s'.monitorSecret = s.monitorSecret := by
  obtain ⟨hhave, hpresent⟩ := hs
  obtain ⟨_, -, h⟩ := Checks.bind_eq_ok.1 h
  obtain ⟨_, -, h⟩ := Checks.bind_eq_ok.1 h
  obtain ⟨_, -, h⟩ := Checks.bind_eq_ok.1 h
  obtain ⟨monitor, hmonitor, h⟩ := Checks.bind_eq_ok.1 h
  obtain ⟨_, -, h⟩ := Checks.bind_eq_ok.1 h
  obtain rfl := Except.ok.inj h
  rw [verifyLevel, checkSecret, if_neg (not_not.2 hpresent), hhave, Bool.true_or, if_neg (by simp)] at hmonitor
  exact (Except.ok.inj hmonitor).symm

/-- The first two slots are in a secret that cannot be used. -/
lemma restrictedAddressSlotOpen_zero (params : SpendSecretParams) : RestrictedAddressSlotOpen params 0 := fun h =>
  absurd h.1 (by decide)

/-- What is read from the slots at the end, when there is a listed address. -/
lemma StoreInv.noStray {s : Stored} {read : SpendSecretParams × SpendSecrets × ℕ} {listed : List ℕ}
    (h : StoreInv q read.2.1 listed s) (hn : s.nraddrs = txMaxRestrictedAddresses)
    (hread : readMulti .clear (fun _ => .clear) bigval root = .ok (read, r)) (huses : ∀ j, params.Uses j ↔ q.Uses j)
    (hdone : ∀ j < txMaxSecrets, computeOrVerifySecrets hash params (s.secrets j) noPrecheck = .ok (secrets j))
    (hleft : ∀ j, txMaxSecrets ≤ j → secrets j = s.secrets j) :
    NoStray hash noPrecheck bigval root listed params secrets ↔ ∀ v ∈ listed, v < 2^128 := by
  have hopen : ∀ slot, RestrictedAddressSlotOpen params slot ↔ RestrictedAddressSlotOpen q slot := fun slot =>
    not_congr (huses _)
  have hget : ∀ slot < txMaxRestrictedAddresses, RestrictedAddressSlotOpen params slot →
      getRestrictedAddress secrets slot = getRestrictedAddress s.secrets slot := by
    intro slot hslot hslotOpen
    have hrestricted := h.restricted slot (hn ▸ hslot) ((hopen slot).1 hslotOpen)
    have hmonitor : (secrets (restrictedAddressSecretIndex slot)).monitorSecret =
        (s.secrets (restrictedAddressSecretIndex slot)).monitorSecret := by
      rcases Nat.lt_or_ge (restrictedAddressSecretIndex slot) txMaxSecrets with hj | hj
      · exact computeOrVerifySecrets_restricted hrestricted (hdone _ hj)
      · rw [hleft _ hj]
    rw [getRestrictedAddress, hmonitor, getRestrictedAddress]
  constructor
  · intro hstray v hv
    obtain ⟨slot, hslot, hslotOpen, rfl⟩ := hstray.stored v hv
    obtain ⟨w, -, hw⟩ := h.only slot (hn ▸ hslot) ((hopen slot).1 hslotOpen)
    rw [hget slot hslot hslotOpen, hw]
    exact Nat.mod_lt _ (by decide)
  · intro hlt
    refine ⟨fun v hv => ?_, fun slot hslot hslotOpen => ?_,
      fun slot hslot other hother hne secrets v => getRestrictedAddress_set_of_ne hslot hother hne,
      ⟨read, r, hread, fun j hj => ?_⟩, ?_⟩
    · obtain ⟨slot, hslot, hslotOpen, hv'⟩ := h.stored v hv
      rw [Nat.mod_eq_of_lt (hlt v hv)] at hv'
      exact ⟨slot, hn ▸ hslot, (hopen slot).2 hslotOpen, (hget slot (hn ▸ hslot) ((hopen slot).2 hslotOpen)).trans hv'⟩
    · obtain ⟨v, hv, hv'⟩ := h.only slot (hn ▸ hslot) ((hopen slot).1 hslotOpen)
      rw [Nat.mod_eq_of_lt (hlt v hv)] at hv'
      rw [hget slot hslot hslotOpen, hv']
      exact hv
    · rw [← h.kept j ((huses j).1 hj)]
      exact hdone j hj.1
    · have hfits := h.fits
      simp only [← hopen] at hfits
      rwa [hn] at hfits

/-- Accepted restricted addresses are stored with no stray slot exactly when there is one, and each is in the bits of an
address, which a number below zero is not. -/
theorem noStray_iff (hash : Hash) (noPrecheck : Bool) (bigval : ℕ)
    (harray : root.lookup restrictedAddressesKey = some (.array values))
    (hok : txSecretsFromJson hash noPrecheck true .clear (fun _ => .clear) bigval root = .ok ((params, secrets), r)) :
    ∃ listed, values.mapM (Value.asInt restrictedAddressesKey txAddressBits 0) = .ok listed ∧
      (NoStray hash noPrecheck bigval root listed params secrets ↔ values ≠ [] ∧ ∀ v ∈ listed, v < 2^128) := by
  obtain ⟨read, r₁, hread, h⟩ := bind_eq_ok.1 hok
  obtain ⟨⟨q, t⟩, r₂, hrestrict, h⟩ := bind_eq_ok.1 h
  rw [← keeps_readMulti _ _ _ _ _ _ hread] at harray
  obtain ⟨s, hs, huses, rfl⟩ := restrictAddresses_eq_ok harray hrestrict
  obtain ⟨huses', hdone, hleft⟩ := finishSecrets_eq_ok h
  have hstart : StoreInv read.1 read.2.1 [] ⟨read.2.1, read.1.nraddrs, read.2.2⟩ := by
    rw [gives_readMulti _ _ _ _ _ _ hread]
    exact ⟨Nat.zero_le _, fun _ hv => absurd hv List.not_mem_nil, fun _ hslot => absurd hslot (Nat.not_lt_zero _),
      fun _ hslot => absurd hslot (Nat.not_lt_zero _), fun _ _ => rfl, fun hne => absurd rfl hne, Nat.zero_le _⟩
  obtain ⟨listed, hlisted, hinv⟩ := hstart.foldlM hs
  rw [List.nil_append] at hinv
  refine ⟨listed, hlisted, ?_⟩
  cases values with
  | nil =>
    obtain rfl := Except.ok.inj hlisted
    refine ⟨fun hstray => ?_, fun hne => absurd rfl hne.1⟩
    exact absurd (hstray.only 0 (by decide) (restrictedAddressSlotOpen_zero params)) List.not_mem_nil
  | cons value values =>
    have hne : listed ≠ [] := by
      rintro rfl
      rw [List.mapM_cons] at hlisted
      obtain ⟨v, -, hlisted⟩ := Checks.bind_eq_ok.1 hlisted
      obtain ⟨vs, -, hlisted⟩ := Checks.bind_eq_ok.1 hlisted
      exact absurd (Except.ok.inj hlisted) (List.cons_ne_nil _ _)
    rw [(hinv.fill hne).noStray rfl hread (fun j => (huses' j).trans (huses j)) hdone hleft]
    exact ⟨fun hlt => ⟨List.cons_ne_nil _ _, hlt⟩, fun hlt => hlt.2⟩

/-- Two addresses for the spender of a billet that has one secret. -/
theorem noStray_two : ∃ params secrets, NoStray (fun inputs bases _ => inputs.length + bases) false 0
    [("spend-secret", .scalar [57]), ("destination-number", .scalar [51]),
      (restrictedAddressesKey, .array [.scalar [53], .scalar [55]])] [5, 7] params secrets := by
  obtain ⟨⟨⟨params, secrets⟩, r⟩, hok⟩ := Checks.isOk_eq_true.1 (by decide +kernel :
    Except.isOk (txSecretsFromJson (fun inputs bases _ => inputs.length + bases) false true .clear (fun _ => .clear) 0
      [("spend-secret", .scalar [57]), ("destination-number", .scalar [51]),
        (restrictedAddressesKey, .array [.scalar [53], .scalar [55]])]))
  obtain ⟨listed, hlisted, hiff⟩ := noStray_iff _ false 0 rfl hok
  obtain rfl : listed = [5, 7] := Except.ok.inj (hlisted.symm.trans rfl)
  exact ⟨params, secrets, hiff.2 ⟨List.cons_ne_nil _ _, by decide⟩⟩

/-- An empty list of addresses is accepted. -/
theorem not_noStray_empty : ¬∀ (hash : Hash) (noPrecheck : Bool) (bigval : ℕ) (root r : Root) (values : List Value)
    (params : SpendSecretParams) (secrets : SpendSecrets),
    root.lookup restrictedAddressesKey = some (.array values) →
    txSecretsFromJson hash noPrecheck true .clear (fun _ => .clear) bigval root = .ok ((params, secrets), r) →
    ∃ listed, values.mapM (Value.asInt restrictedAddressesKey txAddressBits 0) = .ok listed ∧
      NoStray hash noPrecheck bigval root listed params secrets := by
  intro h
  obtain ⟨⟨⟨params, secrets⟩, r⟩, hok⟩ := Checks.isOk_eq_true.1 (by decide +kernel :
    Except.isOk (txSecretsFromJson (fun inputs bases _ => inputs.length + bases) false true .clear (fun _ => .clear) 0
      [("destination-number", .scalar [51]), (restrictedAddressesKey, .array [])]))
  obtain ⟨listed, hlisted, hstray⟩ := h _ _ _ _ _ _ _ _ rfl hok
  obtain rfl := Except.ok.inj hlisted
  exact absurd (hstray.only 0 (by decide) (restrictedAddressSlotOpen_zero params)) List.not_mem_nil

end

end CredaCash.Spend
