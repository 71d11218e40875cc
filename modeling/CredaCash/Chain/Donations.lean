import CredaCash.ByteFormat
import CredaCash.KeyedTable
import Mathlib.Algebra.BigOperators.Group.Finset.Basic
import Mathlib.Algebra.Group.Action.Defs
import Mathlib.Algebra.Order.BigOperators.Group.Finset
import Mathlib.Tactic.Linarith

/-! The donations of a block that becomes indelible: their split between the witnesses, and the totals that the
persistent database keeps in a packed format. -/

namespace CredaCash.Chain
open BoundedReader

def bswap64 (word : ℕ) : ℕ := leNat (leBytes 8 word).reverse

/-- `packed_unsigned_amount_t`: the words are swapped, so that the binary order is the same as the numeric one. -/
structure PackedUnsignedAmount where
  lo : ℕ
  hi : ℕ
  deriving DecidableEq

def unpackUnsignedAmount (packed : PackedUnsignedAmount) : ℕ := bswap64 packed.lo + 2^64 * bswap64 packed.hi

/-- `pack_unsigned_amount`; none for an amount that does not fit. -/
def packUnsignedAmount (amount : ℕ) : Option PackedUnsignedAmount :=
  let packed : PackedUnsignedAmount := ⟨bswap64 (amount % 2^64), bswap64 (amount / 2^64 % 2^64)⟩
  if unpackUnsignedAmount packed ≠ amount then none else some packed

/-- A row of `Parameters` with the key `DB_KEY_DONATION_TOTALS`; the subkey is the witness. -/
structure DonationTotal where
  witness : ℕ
  packed : PackedUnsignedAmount
  deriving DecidableEq

/-- The rows of `Parameters` with the key `DB_KEY_DONATION_TOTALS`. -/
abbrev DonationTable := KeyedTable DonationTotal.witness

/-- What the split of donations reads of an indelible block. -/
structure DonationBlock where
  totalDonations : ℕ
  nwitnesses : ℕ
  witness : ℕ

/-- The part of the witness that signed the block, and the part of every other witness. -/
def splitDonations (nwitnesses totalDonations : ℕ) : ℕ × ℕ :=
  let littleSplit := totalDonations * 2 / (3 * nwitnesses)
  let littleSum := (nwitnesses - 1) * littleSplit
  if littleSum < totalDonations then (totalDonations - littleSum, littleSplit) else (totalDonations, 0)

def DonationBlock.share (b : DonationBlock) (i : ℕ) : ℕ :=
  if i = b.witness then (splitDonations b.nwitnesses b.totalDonations).1
  else (splitDonations b.nwitnesses b.totalDonations).2

def DonationTotal.total (r : DonationTotal) : ℕ := unpackUnsignedAmount r.packed

/-- The total that is stored for a witness; zero when there is no row. -/
def storedTotal (t : DonationTable) (i : ℕ) : ℕ := (t.select i).elim 0 DonationTotal.total

/-- `ParameterInsert`, which inserts or replaces. -/
def parameterInsert (t : DonationTable) (r : DonationTotal) : DonationTable :=
  t.upsert r (fun old new => { old with packed := new.packed }) fun _ _ => rfl

/-- One turn of the loop over the witnesses. None when the assertion on the packed total fails; errors of the database
stop the node, too. -/
def addDonation (b : DonationBlock) (t : DonationTable) (i : ℕ) : Option DonationTable :=
  (packUnsignedAmount (storedTotal t i + b.share i)).map fun packed => parameterInsert t ⟨i, packed⟩

/-- The part of `SetNewlyIndelibleBlock` that stores donations. -/
def addDonations (t : DonationTable) (b : DonationBlock) : Option DonationTable :=
  if b.nwitnesses = 0 then none
  else if b.totalDonations = 0 then some t
  else (List.range b.nwitnesses).foldlM (addDonation b) t

/-- The donations of indelible blocks, one block after the other. -/
def storeDonations (t : DonationTable) (blocks : List DonationBlock) : Option DonationTable := blocks.foldlM addDonations t

/-- The sum of all stored totals. -/
def donationSum (t : DonationTable) : ℕ := t.total DonationTotal.total

section Packing

lemma bswap64_lt (word : ℕ) : bswap64 word < 2^64 := by
  have hlt := leNat_lt (leBytes 8 word).reverse
  rwa [List.length_reverse, leBytes_length] at hlt

lemma bswap64_bswap64 {word : ℕ} (h : word < 2^64) : bswap64 (bswap64 word) = word := by
  have hback : leBytes 8 (bswap64 word) = (leBytes 8 word).reverse := by
    have hbytes := leBytes_leNat (leBytes 8 word).reverse
    rwa [List.length_reverse, leBytes_length] at hbytes
  rw [bswap64, hback, List.reverse_reverse]
  exact leNat_leBytes h

lemma unpackUnsignedAmount_pack {amount : ℕ} {packed : PackedUnsignedAmount} (h : packUnsignedAmount amount = some packed) :
    unpackUnsignedAmount packed = amount := by
  unfold packUnsignedAmount at h
  dsimp only at h
  split_ifs at h with hne
  rw [← Option.some.inj h]
  exact not_not.1 hne

/-- Every amount of 128 bits can be packed. -/
lemma packUnsignedAmount_isSome {amount : ℕ} (h : amount < 2^128) : (packUnsignedAmount amount).isSome = true := by
  unfold packUnsignedAmount
  dsimp only
  rw [if_neg]
  · rfl
  · rw [not_not, unpackUnsignedAmount, bswap64_bswap64 (Nat.mod_lt _ (by decide)),
      bswap64_bswap64 (Nat.mod_lt _ (by decide))]
    omega

end Packing

section Split
variable {nwitnesses totalDonations : ℕ}

/-- The parts of all other witnesses leave at least as much for the witness that signed. -/
lemma splitDonations_spec (h : 0 < nwitnesses) : (nwitnesses - 1) * (splitDonations nwitnesses totalDonations).2 +
    (splitDonations nwitnesses totalDonations).1 = totalDonations ∧
      (splitDonations nwitnesses totalDonations).2 ≤ (splitDonations nwitnesses totalDonations).1 := by
  obtain ⟨n, rfl⟩ : ∃ n, nwitnesses = n + 1 := ⟨nwitnesses - 1, by omega⟩
  unfold splitDonations
  dsimp only
  rw [Nat.add_sub_cancel]
  generalize hlittle : totalDonations * 2 / (3 * (n + 1)) = little
  split_ifs with hlt
  · refine ⟨by dsimp only; omega, ?_⟩
    have hle : little * (3 * (n + 1)) ≤ totalDonations * 2 := hlittle ▸ Nat.div_mul_le_self _ _
    have hsum : n * little + little ≤ totalDonations := by nlinarith
    dsimp only
    omega
  · exact ⟨by simp, Nat.zero_le _⟩

variable {b : DonationBlock}

/-- The shares of a block are its donations. -/
lemma sum_share (h : b.witness < b.nwitnesses) : ∑ i ∈ Finset.range b.nwitnesses, b.share i = b.totalDonations := by
  have hmem : b.witness ∈ Finset.range b.nwitnesses := Finset.mem_range.2 h
  have hothers : ∀ i ∈ (Finset.range b.nwitnesses).erase b.witness,
      b.share i = (splitDonations b.nwitnesses b.totalDonations).2 :=
    fun i hi => if_neg (Finset.ne_of_mem_erase hi)
  rw [← Finset.add_sum_erase _ _ hmem, Finset.sum_congr rfl hothers, Finset.sum_const, Finset.card_erase_of_mem hmem,
    Finset.card_range, smul_eq_mul, DonationBlock.share, if_pos rfl, Nat.add_comm]
  exact (splitDonations_spec (by omega)).1

/-- No witness gets more than the one that signed. -/
lemma share_le (h : b.witness < b.nwitnesses) (i : ℕ) : b.share i ≤ b.share b.witness := by
  rw [DonationBlock.share, DonationBlock.share, if_pos rfl]
  split_ifs
  · exact le_refl _
  · exact (splitDonations_spec (by omega)).2

end Split

section Runs
variable {t t' : DonationTable} {b : DonationBlock}

/-- The row of a witness after an insertion. -/
lemma parameterInsert_row (t : DonationTable) (r : DonationTotal) :
    ((t.select r.witness).elim r fun old => { old with packed := r.packed }).total = r.total := by
  cases t.select r.witness <;> rfl

lemma storedTotal_parameterInsert (t : DonationTable) (r : DonationTotal) (k : ℕ) :
    storedTotal (parameterInsert t r) k = if k = r.witness then r.total else storedTotal t k := by
  rw [storedTotal, parameterInsert, KeyedTable.select_upsert]
  split_ifs
  · exact parameterInsert_row t r
  · rfl

lemma donationSum_parameterInsert (t : DonationTable) (r : DonationTotal) :
    donationSum (parameterInsert t r) + storedTotal t r.witness = donationSum t + r.total := by
  rw [← parameterInsert_row t r]
  exact KeyedTable.total_upsert

lemma storedTotal_addDonation {i : ℕ} (h : addDonation b t i = some t') (k : ℕ) :
    storedTotal t' k = storedTotal t k + if k = i then b.share i else 0 := by
  obtain ⟨packed, hpack, rfl⟩ := Option.map_eq_some_iff.1 h
  rw [storedTotal_parameterInsert]
  split_ifs with hk
  · rw [hk]
    exact unpackUnsignedAmount_pack hpack
  · rfl

lemma donationSum_addDonation {i : ℕ} (h : addDonation b t i = some t') :
    donationSum t' = donationSum t + b.share i := by
  obtain ⟨packed, hpack, rfl⟩ := Option.map_eq_some_iff.1 h
  have hsum := donationSum_parameterInsert t ⟨i, packed⟩
  have htotal : (⟨i, packed⟩ : DonationTotal).total = storedTotal t i + b.share i := unpackUnsignedAmount_pack hpack
  dsimp only at hsum
  omega

/-- A sum below 2^128 leaves room for every total. -/
lemma storedTotal_le (t : DonationTable) (i : ℕ) : storedTotal t i ≤ donationSum t := by
  unfold storedTotal
  cases h : t.select i with
  | none => exact Nat.zero_le _
  | some r =>
    rw [Option.elim_some]
    exact KeyedTable.le_total (KeyedTable.mem_of_select h)

lemma addDonation_isSome {i : ℕ} (h : donationSum t + b.share i < 2^128) : ∃ t', addDonation b t i = some t' := by
  have hle := storedTotal_le t i
  obtain ⟨packed, hpacked⟩ := Option.isSome_iff_exists.1
    (packUnsignedAmount_isSome (show storedTotal t i + b.share i < 2^128 by omega))
  exact ⟨_, Option.map_eq_some_iff.2 ⟨packed, hpacked, rfl⟩⟩

/-- The turns of the loop for some witnesses add the share of each to its total. -/
lemma foldlM_addDonation {is : List ℕ} (hnodup : is.Nodup) (h : is.foldlM (addDonation b) t = some t') (k : ℕ) :
    storedTotal t' k = storedTotal t k + if k ∈ is then b.share k else 0 := by
  induction is generalizing t with
  | nil =>
    cases h
    simp
  | cons i is ih =>
    rw [List.foldlM_cons] at h
    obtain ⟨t₁, hi, his⟩ := Option.bind_eq_some_iff.1 h
    obtain ⟨hmem, hnodup⟩ := List.nodup_cons.1 hnodup
    rw [ih hnodup his, storedTotal_addDonation hi]
    by_cases hk : k = i
    · rw [if_pos hk, hk, if_neg hmem, if_pos (List.mem_cons_self ..), Nat.add_zero]
    · rw [if_neg hk, Nat.add_zero]
      simp [hk]

lemma foldlM_addDonation_sum {is : List ℕ} (h : is.foldlM (addDonation b) t = some t') :
    donationSum t' = donationSum t + (is.map b.share).sum := by
  induction is generalizing t with
  | nil =>
    cases h
    rfl
  | cons i is ih =>
    rw [List.foldlM_cons] at h
    obtain ⟨t₁, hi, his⟩ := Option.bind_eq_some_iff.1 h
    rw [ih his, donationSum_addDonation hi, List.map_cons, List.sum_cons, Nat.add_assoc]

lemma foldlM_addDonation_isSome {is : List ℕ} (h : donationSum t + (is.map b.share).sum < 2^128) :
    ∃ t', is.foldlM (addDonation b) t = some t' := by
  induction is generalizing t with
  | nil => exact ⟨t, rfl⟩
  | cons i is ih =>
    rw [List.map_cons, List.sum_cons] at h
    obtain ⟨t₁, hi⟩ := addDonation_isSome (t := t) (b := b) (i := i) (by omega)
    obtain ⟨t', his⟩ := ih (t := t₁) (by rw [donationSum_addDonation hi]; omega)
    exact ⟨t', by rw [List.foldlM_cons, hi]; exact his⟩

lemma sum_share_list (h : b.witness < b.nwitnesses) :
    ((List.range b.nwitnesses).map b.share).sum = b.totalDonations := by
  rw [← sum_share h]
  rfl

/-- A block adds a share to the total of each of its witnesses. -/
lemma storedTotal_addDonations (hwitness : b.witness < b.nwitnesses) (h : addDonations t b = some t') (k : ℕ) :
    storedTotal t' k = storedTotal t k + if k < b.nwitnesses then b.share k else 0 := by
  unfold addDonations at h
  split_ifs at h with hnone hzero
  · cases h
    have hshare (i : ℕ) : b.share i = 0 := by
      have hle := share_le hwitness i
      have hsum := sum_share hwitness
      have hsigner := Finset.single_le_sum (fun i _ => Nat.zero_le (b.share i)) (Finset.mem_range.2 hwitness)
      omega
    rw [hshare, ite_self, Nat.add_zero]
  · rw [foldlM_addDonation List.nodup_range h k]
    simp only [List.mem_range]

lemma donationSum_addDonations (hwitness : b.witness < b.nwitnesses) (h : addDonations t b = some t') :
    donationSum t' = donationSum t + b.totalDonations := by
  unfold addDonations at h
  split_ifs at h with hnone hzero
  · cases h
    omega
  · rw [foldlM_addDonation_sum h, sum_share_list hwitness]

lemma addDonations_isSome (hwitness : b.witness < b.nwitnesses) (h : donationSum t + b.totalDonations < 2^128) :
    ∃ t', addDonations t b = some t' := by
  unfold addDonations
  rw [if_neg (by omega)]
  split_ifs
  · exact ⟨t, rfl⟩
  · exact foldlM_addDonation_isSome (by rwa [sum_share_list hwitness])

lemma storeDonations_cons {blocks : List DonationBlock} : storeDonations t (b :: blocks) = some t' ↔
    ∃ t₁, addDonations t b = some t₁ ∧ storeDonations t₁ blocks = some t' := by
  rw [storeDonations, List.foldlM_cons]
  exact Option.bind_eq_some_iff

lemma donationSum_storeDonations {blocks : List DonationBlock} (hwitness : ∀ b ∈ blocks, b.witness < b.nwitnesses)
    (h : storeDonations t blocks = some t') :
    donationSum t' = donationSum t + (blocks.map DonationBlock.totalDonations).sum := by
  induction blocks generalizing t with
  | nil =>
    cases h
    rfl
  | cons b blocks ih =>
    obtain ⟨t₁, hb, hblocks⟩ := storeDonations_cons.1 h
    rw [ih (fun b hb => hwitness b (List.mem_cons_of_mem _ hb)) hblocks,
      donationSum_addDonations (hwitness b (List.mem_cons_self ..)) hb, List.map_cons, List.sum_cons, Nat.add_assoc]

lemma storeDonations_isSome {blocks : List DonationBlock} (hwitness : ∀ b ∈ blocks, b.witness < b.nwitnesses)
    (h : donationSum t + (blocks.map DonationBlock.totalDonations).sum < 2^128) :
    ∃ t', storeDonations t blocks = some t' := by
  induction blocks generalizing t with
  | nil => exact ⟨t, rfl⟩
  | cons b blocks ih =>
    rw [List.map_cons, List.sum_cons] at h
    have hb := hwitness b (List.mem_cons_self ..)
    obtain ⟨t₁, ht₁⟩ := addDonations_isSome hb (show donationSum t + b.totalDonations < 2^128 by omega)
    obtain ⟨t', ht'⟩ := ih (fun b hb => hwitness b (List.mem_cons_of_mem _ hb))
      (show donationSum t₁ + _ < 2^128 by rw [donationSum_addDonations hb ht₁]; omega)
    exact ⟨t', storeDonations_cons.2 ⟨t₁, ht₁, ht'⟩⟩

/-- Every block adds its donations to the totals of its witnesses, with the largest part for the witness that signed it,
so that all totals together are the donations of all blocks. Nothing stops the node before they exceed 128 bits. -/
theorem storeDonations_exact (t : DonationTable) {blocks : List DonationBlock}
    (hwitness : ∀ b ∈ blocks, b.witness < b.nwitnesses) :
    (∀ b ∈ blocks, ∀ t₁ t₂, addDonations t₁ b = some t₂ →
      (∀ i, storedTotal t₁ i ≤ storedTotal t₂ i) ∧
      ∑ i ∈ Finset.range b.nwitnesses, (storedTotal t₂ i - storedTotal t₁ i) = b.totalDonations ∧
      (∀ i < b.nwitnesses,
        storedTotal t₂ i - storedTotal t₁ i ≤ storedTotal t₂ b.witness - storedTotal t₁ b.witness) ∧
      ∀ i, b.nwitnesses ≤ i → storedTotal t₂ i = storedTotal t₁ i) ∧
    (∀ t', storeDonations t blocks = some t' →
      donationSum t' = donationSum t + (blocks.map DonationBlock.totalDonations).sum) ∧
    (donationSum t + (blocks.map DonationBlock.totalDonations).sum < 2^128 →
      ∃ t', storeDonations t blocks = some t') := by
  refine ⟨fun b hb t₁ t₂ h => ?_, fun t' => donationSum_storeDonations hwitness, storeDonations_isSome hwitness⟩
  have hstored := storedTotal_addDonations (hwitness b hb) h
  have hadded {i : ℕ} (hi : i < b.nwitnesses) : storedTotal t₂ i - storedTotal t₁ i = b.share i := by
    rw [hstored, if_pos hi]
    omega
  refine ⟨fun i => by rw [hstored]; omega, ?_, fun i hi => ?_, fun i hi => ?_⟩
  · rw [Finset.sum_congr rfl fun i hi => hadded (Finset.mem_range.1 hi)]
    exact sum_share (hwitness b hb)
  · rw [hadded hi, hadded (hwitness b hb)]
    exact share_le (hwitness b hb) i
  · rw [hstored, if_neg (by omega), Nat.add_zero]

theorem storeDonations_threeBlocks : ∃ t',
    storeDonations .empty [⟨100, 3, 1⟩, ⟨7, 1, 0⟩, ⟨1, 5, 4⟩] = some t' ∧ donationSum t' = 108 := by
  obtain ⟨-, hsum, hsome⟩ := storeDonations_exact .empty
    (show ∀ b ∈ [(⟨100, 3, 1⟩ : DonationBlock), ⟨7, 1, 0⟩, ⟨1, 5, 4⟩], b.witness < b.nwitnesses by decide)
  obtain ⟨t', ht'⟩ := hsome (by decide)
  exact ⟨t', ht', hsum t' ht'⟩

end Runs

end CredaCash.Chain
