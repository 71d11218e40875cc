import CredaCash.Chain.TxOutputs
import CredaCash.Text.Stringify

/-! The text of a payment specifier and of an encrypted master secret: fields one after the other without their lengths,
and a checksum behind them. -/

namespace CredaCash.Text
open Chain PlaceValue

/-- `TX_FIELD_MAX`, the prime modulus less one. -/
def txFieldMax : ℕ := 0x30644e72e131a029b85045b68181585d2833e84879b9709143e1f593f0000001 - 1

def iterationsScale : ℕ := 10

def IsSeparator (c : UInt8) : Prop := c = encodeSeparator ∨ c = encodeSeparatorAlt

instance (c : UInt8) : Decidable (IsSeparator c) := inferInstanceAs (Decidable (_ ∨ _))

/-- A call that halts in a call. -/
def orHalt {α : Type} (x : Except Halt α) : Except Stop α := x.mapError Stop.halt

/-- What `payspec_from_json` reads: a destination, its own or the one that its secrets give, and what may be there. -/
structure PaySpecRequest where
  destination : ℕ
  type : Option ℕ := none
  requestedAmount : Option ℕ := none
  deriving DecidableEq

/-- What `payspec_to_json` puts out. -/
structure PaySpec where
  destination : ℕ
  requestedAmount : Option ℕ
  deriving DecidableEq

/-- What `compute_master_secret` finds in a string. -/
structure MasterSpec where
  salt : ℕ
  memory : ℕ
  iterations : ℕ
  deriving DecidableEq

section
variable (siphash : List UInt8 → ℕ)

/-- The five characters that check some text. -/
def checksum (text : List UInt8) : Except Halt (List UInt8) := stringify base57sym 0 false 5 (siphash text)

/-- The checks of `payspec_from_json`. -/
def checkRequest (root : PaySpecRequest) : Except Stop Unit :=
  if txFieldMax < root.destination then .error (.error "error: value of \"destination\" larger than prime modulus")
  else if 9 < root.type.getD 0 then .error (.error "error: value of \"type\" larger than 9")
  else if root.type.getD 0 ≠ 0 then .error (.error "error: invalid value for key \"type\"")
  else if 2^txAmountBits ≤ root.requestedAmount.getD 0 then
    .error (.error "error: value of \"requested-amount\" larger than 40 bits")
  else .ok ()

/-- The amount of a payment specifier, when there is one. -/
def amountText (requestedAmount : Option ℕ) : Except Halt (List UInt8) :=
  requestedAmount.elim (.ok []) (stringify base57sym 0 true (-1))

/-- `payspec_from_json`: the text that it puts out as the `payspec`. -/
def payspecFromJson (root : PaySpecRequest) : Except Stop (List UInt8) := do
  checkRequest root
  let dest ← orHalt (stringify base57sym txFieldMax false 0 root.destination)
  let amount ← orHalt (amountText root.requestedAmount)
  let outs := [67, 67, 48] ++ dest ++ amount ++ [encodeSeparator, encodeSeparator]
  return outs ++ (← orHalt (checksum siphash outs))

/-- The amount, where no separator comes first. -/
def readAmount (instring : List UInt8) : Except Stop (Option ℕ × List UInt8) :=
  if instring ≠ [] ∧ ¬ IsSeparator (instring.headD 0) then do
    let (amount, instring) ← destringify base57bin true 0 instring
    let testVal := amount / 2^64 * 2^64 + (amount % 2^64 &&& (2^64 - 1 - (2^txAmountBits - 1)))
    if testVal ≠ 0 then .error (.error "error: value of \"amount\" larger than 40 bits")
    else return (some amount, instring)
  else .ok (none, instring)

/-- The end of `payspec_to_json`: two separators and the checksum. -/
def checkPayspec (payspec instring : List UInt8) : Except Stop Unit :=
  if instring = [] ∨ ¬ IsSeparator (instring.headD 0) then .error errorUnexpectedChar
  else
    let instring := instring.drop 1
    if instring.length < 6 ∨ ¬ IsSeparator (instring.headD 0) then .error errorUnexpectedChar
    else do
      let outs ← orHalt (checksum siphash (payspec.take (payspec.length - instring.length + 1)))
      if outs ≠ (instring.drop 1).take 5 then .error errorChecksumMismatch else .ok ()

def payspecToJson (payspec : List UInt8) : Except Stop PaySpec :=
  if payspec.length < 3 then .error (.error "error: invalid payspec length")
  else if payspec.take 2 ≠ [67, 67] ∨ payspec.getD 2 0 ≠ 48 then .error (.error "error: unrecognized payspec type")
  else do
    let (dest, instring) ← destringify base57bin false 44 (payspec.drop 3)
    let (amount, instring) ← readAmount instring
    checkPayspec siphash payspec instring
    return ⟨dest, amount⟩

/-- The text that `generate_master_secret` puts together. -/
def masterSecretText (memory iterations salt : ℕ) : Except Stop (List UInt8) := do
  let saltText ← orHalt (stringify base57sym 0 false 0 salt)
  let memoryText ← orHalt (stringify base57sym 0 true (-1) memory)
  let iterationsText ← orHalt (stringify base57sym 0 false (-1) iterations)
  let outs := [67, 67, 77, 83] ++ saltText ++ memoryText ++ [encodeSeparator] ++ iterationsText
  return outs ++ (← orHalt (checksum siphash outs))

/-- The iterations that `hash_passphrase` takes for some milliseconds, none when that fails; or 1. -/
def startIterations (calibrate : ℕ → ℕ → ℕ → Option ℕ) (memory millisec salt : ℕ) : Except Stop ℕ :=
  if millisec ≠ 0 then (calibrate salt millisec memory).elim (.error (.error "error")) .ok else .ok 1

def generateMasterSecret (calibrate : ℕ → ℕ → ℕ → Option ℕ) (memory millisec salt : ℕ) : Except Stop (List UInt8) := do
  let iterations ← startIterations calibrate memory millisec salt
  masterSecretText siphash memory ((iterations + (iterationsScale - 1)) % 2^64 / iterationsScale) salt

/-- `compute_master_secret`, as far as it reads the string. -/
def parseMasterSecret (msspec : List UInt8) : Except Stop MasterSpec :=
  if msspec.length < 10 then .error (.error "error: invalid scrambled master secret length")
  else if msspec.take 4 ≠ [67, 67, 77, 83] then .error (.error "error: invalid scrambled master secret")
  else do
    let (salt, instring) ← destringify base57bin false 44 (msspec.drop 4)
    let (memory, instring) ← destringify base57bin true 0 instring
    if instring = [] ∨ ¬ IsSeparator (instring.headD 0) then .error errorUnexpectedChar
    else
      let instring := instring.drop 1
      if instring.length < 6 then .error errorUnexpectedChar
      else do
        let (iterations, instring) ← destringify base57bin false ((instring.length - 5) % 2^32) instring
        let outs ← orHalt (checksum siphash (msspec.take (msspec.length - 5)))
        if outs ≠ instring then .error errorChecksumMismatch
        else return ⟨salt, memory % 2^64, iterations % 2^64 * iterationsScale % 2^64⟩

/-- `compute_master_secret`, with `hash_passphrase`: none when that fails. -/
def computeMasterSecret (hashPassphrase : List UInt8 → ℕ → ℕ → ℕ → Option ℕ) (msspec passphrase : List UInt8) :
    Except Stop ℕ := do
  let spec ← parseMasterSecret siphash msspec
  if spec.iterations ≠ 0 then
    (hashPassphrase passphrase spec.salt spec.memory spec.iterations).elim (.error (.error "error")) .ok
  else return spec.salt

end

section Fields
variable {salt memory amount dest : ℕ} {rest : List UInt8}

lemma lt_of_mem_lowDigits57 {n v : ℕ} : ∀ d ∈ lowDigits 57 n v, d < 57 := fun _ hd => lt_of_mem_lowDigits (by decide) hd

lemma width_txFieldMax : width 57 txFieldMax = 44 := width_eq (by decide) (by decide) (by decide)

lemma width_whole : width 57 (2^256 - 1) = 44 := width_eq (by decide) (by decide) (by decide)

/-- A field of 44 characters holds 256 bits. -/
lemma destringify_whole (h : dest < 2^256) :
    destringify base57bin false 44 (symbols (lowDigits 57 44 dest) ++ rest) = .ok (dest, rest) := by
  rw [destringify_fixed lt_of_mem_lowDigits57 (length_lowDigits _ _ _) (by decide) (by decide),
    ofDigits_lowDigits_of_lt (h.trans_le (by decide)), Nat.mod_eq_of_lt h]

/-- A field behind a shift. -/
lemma exists_shifted (h : amount < 2^256) : ∃ text, stringify base57sym 0 true (-1) amount = .ok text ∧ text ≠ [] ∧
    ¬ IsSeparator (text.headD 0) ∧
    ∀ rest, destringify base57bin true 0 (text ++ encodeSeparator :: rest) = .ok (amount, encodeSeparator :: rest) := by
  obtain ⟨s, w, hs, hw, htext⟩ := stringify_normalize h
  refine ⟨_, htext, List.cons_ne_nil _ _, ?_, fun rest => ?_⟩
  · have hsymbol := symbol_table s (by omega)
    exact not_or.2 hsymbol.2
  · have hle : w ≤ amount := by
      rw [← hw]
      exact Nat.le_mul_of_pos_right w (Nat.pow_pos (by decide))
    have hwidth := width_le_of_lt (hle.trans_lt h)
    rw [destringify_shifted (by omega) lt_of_mem_lowDigits57 (by rw [length_lowDigits]; omega),
      ofDigits_lowDigits_of_lt (lt_pow_width (by decide) w), Nat.mod_eq_of_lt (hle.trans_lt h), Nat.shiftLeft_eq, hw,
      Nat.mod_eq_of_lt h]

lemma checksum_eq (siphash : List UInt8 → ℕ) (text : List UInt8) :
    checksum siphash text = .ok (symbols (lowDigits 57 5 (siphash text))) := stringify_five _

/-- An amount of 40 bits has no bits beyond them. -/
lemma amount_and_not_mask (h : amount < 2^txAmountBits) :
    amount / 2^64 * 2^64 + (amount % 2^64 &&& (2^64 - 1 - (2^txAmountBits - 1))) = 0 := by
  have hbits : txAmountBits = 40 := rfl
  rw [hbits] at h ⊢
  have hlow : amount % 2^64 = amount := Nat.mod_eq_of_lt (h.trans (by decide))
  have hand : amount &&& (2^64 - 1 - (2^40 - 1)) = 0 := by
    apply Nat.eq_of_testBit_eq
    intro b
    rw [show 2^64 - 1 - (2^40 - 1) = (2^24 - 1) <<< 40 from rfl, Nat.testBit_and, Nat.testBit_shiftLeft, Nat.zero_testBit]
    by_cases hb : 40 ≤ b
    · rw [Nat.testBit_lt_two_pow (lt_of_lt_of_le h (Nat.pow_le_pow_right (by decide) hb)), Bool.false_and]
    · simp [hb]
  rw [hlow, hand]
  omega

/-- The amount of a specifier is read back, and so is that there is none. -/
lemma readAmount_amountText {requestedAmount : Option ℕ} (h : ∀ amount ∈ requestedAmount, amount < 2^txAmountBits) :
    ∃ text, amountText requestedAmount = .ok text ∧
      ∀ rest, readAmount (text ++ encodeSeparator :: rest) = .ok (requestedAmount, encodeSeparator :: rest) := by
  cases requestedAmount with
  | none => exact ⟨[], rfl, fun rest => if_neg fun hsep => hsep.2 (Or.inl rfl)⟩
  | some amount =>
    have hamount := h amount rfl
    obtain ⟨text, htext, hne, hhead, hread⟩ := exists_shifted (hamount.trans (by decide : (2 : ℕ)^txAmountBits < 2^256))
    refine ⟨text, htext, fun rest => ?_⟩
    have hhead' : (text ++ encodeSeparator :: rest).headD 0 = text.headD 0 := by
      cases text with
      | nil => exact absurd rfl hne
      | cons c text => rfl
    rw [readAmount, if_pos ⟨List.append_ne_nil_of_left_ne_nil hne _, hhead' ▸ hhead⟩, hread, ok_bind]
    dsimp only
    rw [amount_and_not_mask hamount, if_neg (by decide)]
    rfl

/-- The end of a specifier passes its check. -/
lemma checkPayspec_ok (siphash : List UInt8 → ℕ) {front check : List UInt8}
    (hcheck : checksum siphash (front ++ [encodeSeparator, encodeSeparator]) = .ok check) (hlen : check.length = 5) :
    checkPayspec siphash (front ++ [encodeSeparator, encodeSeparator] ++ check)
      (encodeSeparator :: encodeSeparator :: check) =
      .ok () := by
  have htake : (front ++ [encodeSeparator, encodeSeparator] ++ check).take
      ((front ++ [encodeSeparator, encodeSeparator] ++ check).length - (encodeSeparator :: check).length + 1) =
        front ++ [encodeSeparator, encodeSeparator] := by
    apply List.take_left'
    simp only [List.length_append, List.length_cons, List.length_nil]
    omega
  have hfive : ((encodeSeparator :: check).drop 1).take 5 = check := List.take_of_length_le hlen.le
  have hfirst : ¬ (encodeSeparator :: encodeSeparator :: check = [] ∨
      ¬ IsSeparator ((encodeSeparator :: encodeSeparator :: check).headD 0)) := by
    rintro (h | h)
    · exact List.cons_ne_nil _ _ h
    · exact h (Or.inl rfl)
  have hsecond : ¬ ((encodeSeparator :: check).length < 6 ∨ ¬ IsSeparator ((encodeSeparator :: check).headD 0)) := by
    rintro (h | h)
    · rw [List.length_cons] at h
      omega
    · exact h (Or.inl rfl)
  rw [checkPayspec, if_neg hfirst]
  dsimp only
  rw [List.drop_one, List.tail_cons, if_neg hsecond, htake, hcheck, hfive]
  exact if_neg (not_not.2 rfl)

lemma checkRequest_ok {root : PaySpecRequest} (hdest : root.destination ≤ txFieldMax) (htype : root.type.getD 0 = 0)
    (hamount : ∀ amount ∈ root.requestedAmount, amount < 2^txAmountBits) : checkRequest root = .ok () := by
  have hget : root.requestedAmount.getD 0 < 2^txAmountBits := by
    cases hoption : root.requestedAmount with
    | none => decide
    | some amount => exact hamount amount hoption
  rw [checkRequest, if_neg (not_lt.2 hdest), htype, if_neg (by decide), if_neg (by decide), if_neg (not_le.2 hget)]

/-- A payment specifier is read back. -/
theorem payspecToJson_payspecFromJson (siphash : List UInt8 → ℕ) {root : PaySpecRequest}
    (hdest : root.destination ≤ txFieldMax)
    (htype : root.type.getD 0 = 0) (hamount : ∀ amount ∈ root.requestedAmount, amount < 2^txAmountBits) :
    ∃ payspec, payspecFromJson siphash root = .ok payspec ∧
      payspecToJson siphash payspec = .ok ⟨root.destination, root.requestedAmount⟩ := by
  obtain ⟨text, htext, hread⟩ := readAmount_amountText hamount
  have hwhole : txFieldMax < 2^256 := by decide
  have hdestText := stringify_zero (by decide) hwhole root.destination
  rw [width_txFieldMax] at hdestText
  generalize hfront : [67, 67, 48] ++ symbols (lowDigits 57 44 root.destination) ++ text = front
  have hcheck := checksum_eq siphash (front ++ [encodeSeparator, encodeSeparator])
  generalize hsum : symbols (lowDigits 57 5 (siphash (front ++ [encodeSeparator, encodeSeparator]))) = check at hcheck
  have hlen : check.length = 5 := by rw [← hsum, length_symbols, length_lowDigits]
  refine ⟨front ++ [encodeSeparator, encodeSeparator] ++ check, ?_, ?_⟩
  · rw [payspecFromJson, checkRequest_ok hdest htype hamount, ok_bind, hdestText, htext]
    change (orHalt (checksum siphash ([67, 67, 48] ++ symbols (lowDigits 57 44 root.destination) ++ text ++
      [encodeSeparator, encodeSeparator]))).bind _ = _
    rw [hfront, hcheck]
    rfl
  · have hcut : (front ++ [encodeSeparator, encodeSeparator] ++ check).drop 3 =
        symbols (lowDigits 57 44 root.destination) ++ (text ++ encodeSeparator :: encodeSeparator :: check) := by
      rw [← hfront]
      simp
    have hlength : ¬ (front ++ [encodeSeparator, encodeSeparator] ++ check).length < 3 := by
      simp only [List.length_append, List.length_cons, List.length_nil]
      omega
    have htype : ¬ ((front ++ [encodeSeparator, encodeSeparator] ++ check).take 2 ≠ [67, 67] ∨
        (front ++ [encodeSeparator, encodeSeparator] ++ check).getD 2 0 ≠ 48) := by
      rw [← hfront]
      simp
    rw [payspecToJson, if_neg hlength, if_neg htype, hcut, destringify_whole (hdest.trans_lt hwhole), ok_bind]
    dsimp only
    rw [hread, ok_bind]
    dsimp only
    rw [checkPayspec_ok siphash hcheck hlen]
    rfl

/-- As many characters as the number needs, ahead of the checksum. -/
lemma destringify_width {v : ℕ} (h : v < 2^256) (hlen : rest.length = 5) :
    destringify base57bin false (((symbols (lowDigits 57 (width 57 v) v) ++ rest).length - 5) % 2^32)
      (symbols (lowDigits 57 (width 57 v) v) ++ rest) = .ok (v, rest) := by
  have hwidth := width_le_of_lt h
  have hpos : 0 < width 57 v := lt_max_of_lt_left Nat.one_pos
  have hnchars : ((symbols (lowDigits 57 (width 57 v) v) ++ rest).length - 5) % 2^32 = width 57 v := by
    rw [List.length_append, length_symbols, length_lowDigits, hlen]
    omega
  rw [hnchars, destringify_fixed lt_of_mem_lowDigits57 (length_lowDigits _ _ _) hpos (by omega),
    ofDigits_lowDigits_of_lt (lt_pow_width (by decide) v), Nat.mod_eq_of_lt h]

/-- The text of a master secret is read back. -/
theorem parseMasterSecret_masterSecretText (siphash : List UInt8 → ℕ) {iterations : ℕ} (hsalt : salt < 2^256)
    (hmemory : memory < 2^64) (hiterations : iterations * iterationsScale < 2^64) :
    ∃ msspec, masterSecretText siphash memory iterations salt = .ok msspec ∧
      parseMasterSecret siphash msspec = .ok ⟨salt, memory, iterations * iterationsScale⟩ := by
  have hsmall : iterations < 2^64 := (Nat.le_mul_of_pos_right iterations (by decide)).trans_lt hiterations
  obtain ⟨text, htext, hne, hhead, hread⟩ := exists_shifted (hmemory.trans (by decide : (2 : ℕ)^64 < 2^256))
  have hsaltText : stringify base57sym 0 false 0 salt = .ok (symbols (lowDigits 57 44 salt)) := by
    have hfixed := @stringify_zero (2^256 - 1) (by decide) (by decide) salt
    rwa [width_whole] at hfixed
  have hiterationsText := stringify_neg (hsmall.trans (by decide))
  generalize hfront : [67, 67, 77, 83] ++ symbols (lowDigits 57 44 salt) ++ text ++ [encodeSeparator] ++
    symbols (lowDigits 57 (width 57 iterations) iterations) = front
  have hcheck := checksum_eq siphash front
  generalize hsum : symbols (lowDigits 57 5 (siphash front)) = check at hcheck
  have hlen : check.length = 5 := by rw [← hsum, length_symbols, length_lowDigits]
  have hwidth : 0 < width 57 iterations := lt_max_of_lt_left Nat.one_pos
  refine ⟨front ++ check, ?_, ?_⟩
  · rw [masterSecretText, hsaltText, htext, hiterationsText]
    change (orHalt (checksum siphash ([67, 67, 77, 83] ++ symbols (lowDigits 57 44 salt) ++ text ++ [encodeSeparator] ++
      symbols (lowDigits 57 (width 57 iterations) iterations)))).bind _ = _
    rw [hfront, hcheck]
    rfl
  · have hcut : (front ++ check).drop 4 = symbols (lowDigits 57 44 salt) ++
        (text ++ encodeSeparator :: (symbols (lowDigits 57 (width 57 iterations) iterations) ++ check)) := by
      rw [← hfront]
      simp
    have hlength : ¬ (front ++ check).length < 10 := by
      rw [← hfront]
      simp only [List.length_append, List.length_cons, List.length_nil, length_symbols, length_lowDigits, hlen]
      omega
    have hmagic : ¬ (front ++ check).take 4 ≠ [67, 67, 77, 83] := by
      rw [← hfront]
      simp
    have htake : (front ++ check).take ((front ++ check).length - 5) = front := by
      apply List.take_left'
      rw [List.length_append, hlen, Nat.add_sub_cancel]
    have hfirst : ¬ (encodeSeparator :: (symbols (lowDigits 57 (width 57 iterations) iterations) ++ check) = [] ∨
        ¬ IsSeparator ((encodeSeparator :: (symbols (lowDigits 57 (width 57 iterations) iterations) ++ check)).headD 0)) := by
      rintro (h | h)
      · exact List.cons_ne_nil _ _ h
      · exact h (Or.inl rfl)
    have hroom : ¬ (symbols (lowDigits 57 (width 57 iterations) iterations) ++ check).length < 6 := by
      rw [List.length_append, length_symbols, length_lowDigits, hlen]
      omega
    rw [parseMasterSecret, if_neg hlength, if_neg hmagic, hcut, destringify_whole hsalt, ok_bind]
    dsimp only
    rw [hread, ok_bind]
    dsimp only
    rw [if_neg hfirst, List.drop_one, List.tail_cons, if_neg hroom, destringify_width (hsmall.trans (by decide)) hlen, ok_bind]
    dsimp only
    rw [htake, hcheck, Nat.mod_eq_of_lt hmemory, Nat.mod_eq_of_lt hsmall, Nat.mod_eq_of_lt hiterations]
    exact if_neg (not_not.2 rfl)

end Fields

section Accepted
variable {siphash : List UInt8 → ℕ} {text rest instring : List UInt8} {val nchars : ℕ} {normalize : Bool}

/-- What goes well after a step goes well after its result. -/
lemma of_bind_ok {ε α β : Type} {x : Except ε α} {f : α → Except ε β} {b : β} (h : x >>= f = .ok b) :
    ∃ a, x = .ok a ∧ f a = .ok b := by
  cases x with
  | error e => cases h
  | ok a => exact ⟨a, rfl, h⟩

/-- A field leaves the end of the string. -/
lemma destringify_suffix (h : destringify base57bin normalize nchars instring = .ok (val, rest)) :
    rest <:+ instring := by
  obtain ⟨shift, -, h⟩ := of_bind_ok h
  obtain ⟨nchars, -, h⟩ := of_bind_ok h
  dsimp only at h
  split_ifs at h
  obtain ⟨val, -, h⟩ := of_bind_ok h
  obtain ⟨-, rfl⟩ := Prod.mk.inj (Except.ok.inj h)
  exact List.drop_suffix _ _

lemma readAmount_suffix {amount : Option ℕ} (h : readAmount instring = .ok (amount, rest)) : rest <:+ instring := by
  unfold readAmount at h
  split_ifs at h
  · obtain ⟨field, hfield, h⟩ := of_bind_ok h
    dsimp only at h
    split_ifs at h
    obtain ⟨-, rfl⟩ := Prod.mk.inj (Except.ok.inj h)
    exact destringify_suffix hfield
  · obtain ⟨-, rfl⟩ := Prod.mk.inj (Except.ok.inj h)
    exact List.suffix_refl _

/-- Text with its five checksum characters behind it, and something or nothing behind them. -/
def HasChecksum (siphash : List UInt8 → ℕ) (text : List UInt8) : Prop :=
  ∃ before check after, text = before ++ check ++ after ∧ check.length = 5 ∧ checksum siphash before = .ok check

lemma checksum_of_orHalt {check : List UInt8} (h : orHalt (checksum siphash text) = .ok check) :
    checksum siphash text = .ok check ∧ check.length = 5 := by
  rw [checksum_eq] at h ⊢
  obtain rfl := Except.ok.inj h
  exact ⟨rfl, by rw [length_symbols, length_lowDigits]⟩

/-- A payment specifier that is accepted has its checksum. -/
theorem hasChecksum_of_payspecToJson {payspec : List UInt8} {spec : PaySpec} (h : payspecToJson siphash payspec = .ok spec) :
    HasChecksum siphash payspec := by
  unfold payspecToJson at h
  split_ifs at h
  obtain ⟨⟨dest, fields⟩, hdest, h⟩ := of_bind_ok h
  obtain ⟨⟨amount, fields'⟩, hamount, h⟩ := of_bind_ok h
  obtain ⟨_, hcheck, -⟩ := of_bind_ok h
  have hsuffix : fields' <:+ payspec :=
    (readAmount_suffix hamount).trans ((destringify_suffix hdest).trans (List.drop_suffix _ _))
  obtain ⟨front, rfl⟩ := hsuffix
  unfold checkPayspec at hcheck
  dsimp only at hcheck
  split_ifs at hcheck with hfirst hsecond
  obtain ⟨check, hsum, heq⟩ := of_bind_ok hcheck
  split_ifs at heq with hsame
  rw [not_not] at hsame
  obtain ⟨hsum, hlen⟩ := checksum_of_orHalt hsum
  rcases fields' with _ | ⟨a, _ | ⟨b, tail⟩⟩
  · exact absurd (Or.inl rfl) hfirst
  · exact absurd (Or.inl (Nat.zero_lt_succ 5)) hsecond
  · have htake : (front ++ a :: b :: tail).take ((front ++ a :: b :: tail).length - ((a :: b :: tail).drop 1).length + 1) =
        front ++ [a, b] := by
      rw [show front ++ a :: b :: tail = (front ++ [a, b]) ++ tail by simp]
      apply List.take_left'
      simp only [List.drop_one, List.tail_cons, List.length_append, List.length_cons, List.length_nil]
      omega
    rw [htake] at hsum
    refine ⟨front ++ [a, b], check, tail.drop 5, ?_, hlen, hsum⟩
    rw [hsame]
    simp

/-- A master secret that is accepted ends with its checksum. -/
theorem hasChecksum_of_parseMasterSecret {msspec : List UInt8} {spec : MasterSpec}
    (h : parseMasterSecret siphash msspec = .ok spec) :
    ∃ before check, msspec = before ++ check ∧ check.length = 5 ∧ checksum siphash before = .ok check := by
  unfold parseMasterSecret at h
  split_ifs at h
  obtain ⟨⟨salt, fields⟩, hsalt, h⟩ := of_bind_ok h
  obtain ⟨⟨memory, fields'⟩, hmemory, h⟩ := of_bind_ok h
  dsimp only at h
  split_ifs at h
  obtain ⟨⟨iterations, last⟩, hiterations, h⟩ := of_bind_ok h
  obtain ⟨check, hsum, h⟩ := of_bind_ok h
  dsimp only at h
  split_ifs at h with hsame
  rw [not_not] at hsame
  obtain ⟨hsum, hlen⟩ := checksum_of_orHalt hsum
  have hsuffix : last <:+ msspec := (destringify_suffix hiterations).trans ((List.drop_suffix _ _).trans
    ((destringify_suffix hmemory).trans ((destringify_suffix hsalt).trans (List.drop_suffix _ _))))
  obtain ⟨front, rfl⟩ := hsuffix
  refine ⟨front, last, rfl, hsame ▸ hlen, ?_⟩
  rw [← hsame] at hsum ⊢
  rwa [List.length_append, hlen, Nat.add_sub_cancel, List.take_left'  rfl] at hsum

/-- Both texts are read back as what they were built from, and neither is accepted without its checksum. -/
structure SpecText (siphash : List UInt8 → ℕ) : Prop where
  payspec : ∀ dest ≤ txFieldMax, ∀ requestedAmount : Option ℕ, (∀ amount ∈ requestedAmount, amount < 2^txAmountBits) →
    ∃ payspec, payspecFromJson siphash ⟨dest, none, requestedAmount⟩ = .ok payspec ∧
      payspecToJson siphash payspec = .ok ⟨dest, requestedAmount⟩
  master : ∀ salt < 2^256, ∀ memory < 2^64, ∀ iterations, iterations * iterationsScale < 2^64 →
    ∃ msspec, masterSecretText siphash memory iterations salt = .ok msspec ∧
      parseMasterSecret siphash msspec = .ok ⟨salt, memory, iterations * iterationsScale⟩
  generated : ∀ calibrate memory millisec salt msspec,
    generateMasterSecret siphash calibrate memory millisec salt = .ok msspec →
    ∃ iterations, iterations * iterationsScale < 2^64 ∧ masterSecretText siphash memory iterations salt = .ok msspec
  payspecChecked : ∀ payspec spec, payspecToJson siphash payspec = .ok spec → HasChecksum siphash payspec
  masterChecked : ∀ hashPassphrase msspec passphrase secret,
    computeMasterSecret siphash hashPassphrase msspec passphrase = .ok secret →
      ∃ before check, msspec = before ++ check ∧ check.length = 5 ∧ checksum siphash before = .ok check

theorem specText (siphash : List UInt8 → ℕ) : SpecText siphash where
  payspec := fun dest hdest requestedAmount hamount =>
    @payspecToJson_payspecFromJson siphash ⟨dest, none, requestedAmount⟩ hdest rfl hamount
  master := fun _ hsalt _ hmemory _ hiterations => parseMasterSecret_masterSecretText siphash hsalt hmemory hiterations
  generated := by
    intro calibrate memory millisec salt msspec h
    obtain ⟨iterations, -, htext⟩ := of_bind_ok h
    refine ⟨_, ?_, htext⟩
    exact (Nat.div_mul_le_self _ _).trans_lt (Nat.mod_lt _ (by decide))
  payspecChecked := fun _ _ h => hasChecksum_of_payspecToJson h
  masterChecked := by
    intro hashPassphrase msspec passphrase secret h
    obtain ⟨spec, hspec, -⟩ := of_bind_ok h
    exact hasChecksum_of_parseMasterSecret hspec

end Accepted

end CredaCash.Text
