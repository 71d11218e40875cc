import CredaCash.KeyedTable
import Mathlib.Algebra.BigOperators.Ring.List
import Mathlib.Algebra.Ring.Int.Defs
import Mathlib.Data.List.Monad

/-! The balance query: the stored totals that its loops take, against those that it is meant to sum. -/

namespace CredaCash.Wallet

def totalTypeDaBit : ℕ := 1 <<< 5
def totalTypePendingBit : ℕ := 1 <<< 4
def totalTypeAllocatedBit : ℕ := 1 <<< 3
def totalTypePaBits : ℕ := totalTypePendingBit ||| totalTypeAllocatedBit
def totalTypePaLow : ℕ := totalTypeAllocatedBit
def totalTypeTrackBit : ℕ := 1 <<< 1
def totalTypeWatchBit : ℕ := 1 <<< 0
def totalTypeTwBits : ℕ := totalTypeTrackBit ||| totalTypeWatchBit
def totalTypeTwLow : ℕ := totalTypeWatchBit
def totalTypeMax : ℕ := totalTypeDaBit ||| totalTypePendingBit
def txDelaytimeMask : ℕ := 2^8 - 1
def int64Max : ℕ := 2^63 - 1

/-- A row of Totals. A delaytime has 8 bits, and the number of a chain fits its signed column. -/
structure StoredTotal where
  type : ℕ
  reference : ℕ
  asset : ℕ
  delaytime : ℕ
  blockchain : ℕ
  total : ℕ
  type_le : type ≤ totalTypeMax
  delaytime_le : delaytime ≤ txDelaytimeMask
  blockchain_le : blockchain ≤ int64Max
deriving DecidableEq

/-- The columns of the unique index of Totals. -/
def StoredTotal.key (r : StoredTotal) : ℕ × ℕ × ℕ × ℕ × ℕ :=
  (r.type, r.reference, r.asset, r.delaytime, r.blockchain)

abbrev StoredTotals : Type := KeyedTable StoredTotal.key

/-- The arguments of a balance query. -/
structure BalanceQuery where
  type : ℕ
  sumPc : Bool
  incwatch : Bool
  reference : ℕ
  asset : ℕ
  minDelaytime : ℕ
  maxDelaytime : ℕ
  minBlockchain : ℕ
  maxBlockchain : ℕ
  minBlockchain_le : minBlockchain ≤ int64Max

variable (t : StoredTotals) (q : BalanceQuery)

/-- The first total, by its chain, of a type and a delaytime from a chain on. -/
def totalSelectMatch (type delaytime blockchain : ℕ) : Option StoredTotal :=
  t.first (fun r => r.type = type ∧ r.reference = q.reference ∧ r.asset = q.asset ∧ r.delaytime = delaytime ∧
    blockchain ≤ r.blockchain) (·.blockchain)

/-- What a total counts for. -/
def signedTotal (r : StoredTotal) : ℤ :=
  if q.sumPc ∧ r.type &&& totalTypeAllocatedBit ≠ 0 then -r.total else r.total

/-- The totals of one type and delaytime, chain after chain; none when the fuel does not last. -/
def sumChains (type delaytime : ℕ) : ℕ → ℕ → ℤ → Option ℤ
  | 0, _, _ => none
  | fuel+1, blockchain, balance =>
    match totalSelectMatch t q type delaytime blockchain with
    | none => some balance
    | some total =>
      if total.blockchain > q.maxBlockchain then some balance
      else
        let balance := balance + signedTotal q total
        if total.blockchain = int64Max then some balance
        else sumChains type delaytime fuel (total.blockchain + 1) balance

/-- The values of the first loop that are passed over. -/
def skipsPending (pending : ℕ) : Bool :=
  q.sumPc && q.type &&& totalTypePaBits ≠ 0 &&
  if q.type &&& totalTypePaBits = totalTypePendingBit then
    -- sum only 0 and TOTAL_TYPE_PENDING_BIT
    pending ≠ 0 && pending * totalTypePaLow ≠ totalTypePendingBit
  else if q.type &&& totalTypePaBits = totalTypeAllocatedBit then
    -- sum only 0 and TOTAL_TYPE_ALLOCATED_BIT
    pending ≠ 0 && pending * totalTypePaLow ≠ totalTypeAllocatedBit
  else pending = 0

/-- The test in the second loop, which looks at the value of the first one. -/
def skipsWatch (pending : ℕ) : Bool :=
  q.incwatch && q.type &&& totalTypeTwBits ≠ 0 &&
  if q.type &&& totalTypeTwBits = totalTypeTrackBit then
    -- sum only 0 and TOTAL_TYPE_TRACK_BIT
    pending ≠ 0 && pending * totalTypeTwLow ≠ totalTypeTrackBit
  else if q.type &&& totalTypeTwBits = totalTypeWatchBit then
    -- sum only 0 and TOTAL_TYPE_WATCH_BIT
    pending ≠ 0 && pending * totalTypeTwLow ≠ totalTypeWatchBit
  else pending = 0

/-- The type that the loops make of the requested one. -/
def loopType (pending watch : ℕ) : ℕ := q.type ||| pending * totalTypePaLow ||| watch * totalTypeTwLow

def delaytimes : List ℕ := List.range' q.minDelaytime (min q.maxDelaytime txDelaytimeMask + 1 - q.minDelaytime)

/-- `Total::GetTotalBalance`; none when the fuel does not last for a loop over the chains. -/
def getTotalBalance (fuel : ℕ) : Option ℤ :=
  (List.range (2 * q.sumPc.toNat + 1)).foldlM (fun balance pending =>
    if skipsPending q pending then some balance
    else (List.range (2 * q.incwatch.toNat + 1)).foldlM (fun balance watch =>
      if skipsWatch q pending then some balance
      else (delaytimes q).foldlM (fun balance delaytime =>
        sumChains t q (loopType q pending watch) delaytime fuel q.minBlockchain balance) balance) balance) 0

/-- The values of the pending and allocated bits that a query is meant to sum. -/
def paVariants : List ℕ :=
  if !q.sumPc then [q.type &&& totalTypePaBits]
  else if q.type &&& totalTypePaBits = 0 then [0, totalTypeAllocatedBit, totalTypePendingBit]
  else if q.type &&& totalTypePaBits = totalTypePendingBit then [0, totalTypePendingBit]
  else if q.type &&& totalTypePaBits = totalTypeAllocatedBit then [0, totalTypeAllocatedBit]
  else [totalTypePendingBit, totalTypeAllocatedBit]

/-- The values of the track and watch bits that a query is meant to sum. -/
def twVariants : List ℕ :=
  if !q.incwatch then [q.type &&& totalTypeTwBits]
  else if q.type &&& totalTypeTwBits = 0 then [0, totalTypeTrackBit, totalTypeWatchBit]
  else if q.type &&& totalTypeTwBits = totalTypeTrackBit then [0, totalTypeTrackBit]
  else if q.type &&& totalTypeTwBits = totalTypeWatchBit then [0, totalTypeWatchBit]
  else [totalTypeTrackBit, totalTypeWatchBit]

/-- The types that a query is meant to sum: the requested one, with these bits. -/
def wantedTypes : List ℕ :=
  (paVariants q).flatMap fun pa => (twVariants q).map fun tw =>
    (q.type - (q.type &&& (totalTypePaBits ||| totalTypeTwBits))) ||| pa ||| tw

/-- A total of the account or destination, the asset, the delaytimes and the chains of a query. -/
def InRange (r : StoredTotal) : Prop :=
  r.reference = q.reference ∧ r.asset = q.asset ∧ (q.minDelaytime ≤ r.delaytime ∧ r.delaytime ≤ q.maxDelaytime) ∧
  q.minBlockchain ≤ r.blockchain ∧ r.blockchain ≤ q.maxBlockchain

instance (r : StoredTotal) : Decidable (InRange q r) := inferInstanceAs (Decidable (_ ∧ _ ∧ _ ∧ _ ∧ _))

/-- The sum of the totals that a query is meant to sum. -/
def wantedBalance : ℤ := (t.rows.map fun r => if r.type ∈ wantedTypes q ∧ InRange q r then signedTotal q r else 0).sum

/-- The types that the loops take, in turn. -/
def loopTypes : List ℕ :=
  (List.range (2 * q.sumPc.toNat + 1)).flatMap fun pending =>
    if skipsPending q pending then []
    else (List.range (2 * q.incwatch.toNat + 1)).flatMap fun watch =>
      if skipsWatch q pending then [] else [loopType q pending watch]

/-- The query sets none of the bits over which a loop goes, or has nothing to sum. -/
def SumsOnce : Prop :=
  min q.maxDelaytime txDelaytimeMask < q.minDelaytime ∨ q.maxBlockchain < q.minBlockchain ∨
  (∀ type ∈ wantedTypes q, totalTypeMax < type) ∨
  (q.sumPc = true → q.type &&& totalTypePaBits = 0) ∧ (q.incwatch = true → q.type &&& totalTypeTwBits = 0)

variable {t q} {type delaytime blockchain fuel : ℕ}

section Sums

lemma foldlM_add {α : Type} {f : ℤ → α → Option ℤ} {g : α → ℤ} (h : ∀ b a v, f b a = some v → v = b + g a)
    (l : List α) {b v : ℤ} (hv : l.foldlM f b = some v) : v = b + (l.map g).sum := by
  induction l generalizing b with
  | nil =>
    cases hv
    simp
  | cons a l ih =>
    rw [List.foldlM_cons] at hv
    obtain ⟨b', hb', hv⟩ := Option.bind_eq_some_iff.1 hv
    rw [ih hv, h b a b' hb', List.map_cons, List.sum_cons, add_assoc]

lemma foldlM_isSome {α : Type} {f : ℤ → α → Option ℤ} (h : ∀ b a, (f b a).isSome) (l : List α) (b : ℤ) :
    (l.foldlM f b).isSome := by
  induction l generalizing b with
  | nil => rfl
  | cons a l ih =>
    obtain ⟨b', hb'⟩ := Option.isSome_iff_exists.1 (h b a)
    rw [List.foldlM_cons, hb']
    exact ih b'

lemma sum_map_comm {α β : Type} (l : List α) (l' : List β) (g : α → β → ℤ) :
    (l.map fun a => (l'.map (g a)).sum).sum = (l'.map fun b => (l.map (g · b)).sum).sum := by
  induction l with
  | nil => simp
  | cons a l ih => simp only [List.map_cons, List.sum_cons, ih, List.sum_map_add]

/-- A sum in which at most one member counts. -/
lemma sum_map_single {α : Type} [DecidableEq α] {l : List α} (hl : l.Nodup) (a : α) (x : ℤ) :
    (l.map fun b => if b = a then x else 0).sum = if a ∈ l then x else 0 := by
  induction l with
  | nil => rfl
  | cons b l ih =>
    obtain ⟨hb, hl⟩ := List.nodup_cons.1 hl
    rw [List.map_cons, List.sum_cons, ih hl]
    by_cases hba : b = a
    · subst hba
      simp [hb]
    · simp [hba, Ne.symm hba]

lemma sum_map_flatMap {α β : Type} (l : List α) (f : α → List β) (g : β → ℤ) :
    (l.map fun a => ((f a).map g).sum).sum = ((l.flatMap f).map g).sum := by
  induction l with
  | nil => rfl
  | cons a l ih => rw [List.map_cons, List.sum_cons, ih, List.flatMap_cons, List.map_append, List.sum_append]

lemma sum_map_count (l : List ℕ) (a : ℕ) (x : ℤ) : (l.map fun b => if b = a then x else 0).sum = l.count a * x := by
  induction l with
  | nil => simp
  | cons b l ih =>
    rw [List.map_cons, List.sum_cons, ih]
    by_cases hba : b = a
    · subst hba
      rw [if_pos rfl, List.count_cons_self]
      rw [Nat.cast_add, Nat.cast_one, add_mul, one_mul, add_comm]
    · rw [if_neg hba, List.count_cons_of_ne hba, zero_add]

end Sums

section Chains

/-- The sum over the chains from one on. -/
def chainSum (t : StoredTotals) (q : BalanceQuery) (type delaytime blockchain : ℕ) : ℤ :=
  (t.rows.map fun r => if (r.type = type ∧ r.reference = q.reference ∧ r.asset = q.asset ∧ r.delaytime = delaytime) ∧
    blockchain ≤ r.blockchain ∧ r.blockchain ≤ q.maxBlockchain then signedTotal q r else 0).sum

lemma chainSum_eq_zero (h : ∀ r ∈ t, (r.type = type ∧ r.reference = q.reference ∧ r.asset = q.asset ∧
    r.delaytime = delaytime) → blockchain ≤ r.blockchain → q.maxBlockchain < r.blockchain) :
    chainSum t q type delaytime blockchain = 0 := by
  refine List.sum_eq_zero fun v hv => ?_
  obtain ⟨r, hr, rfl⟩ := List.mem_map.1 hv
  rw [if_neg]
  rintro ⟨hkey, hle, hmax⟩
  exact absurd (h r hr hkey hle) (by omega)

/-- The total that a select gives counts, and the rest are on later chains. -/
lemma chainSum_select {r : StoredTotal} (h : totalSelectMatch t q type delaytime blockchain = some r)
    (hmax : r.blockchain ≤ q.maxBlockchain) :
    chainSum t q type delaytime blockchain = signedTotal q r + chainSum t q type delaytime (r.blockchain + 1) := by
  obtain ⟨hr, hmatch⟩ := KeyedTable.mem_of_first h
  simp only [decide_eq_true_eq] at hmatch
  obtain ⟨htype, href, hasset, hdelay, hle⟩ := hmatch
  have hnodup : t.rows.Nodup := t.nodup.of_map _
  have hsingle := sum_map_single hnodup r (signedTotal q r)
  rw [if_pos (KeyedTable.mem_def.1 hr)] at hsingle
  rw [← hsingle, chainSum, chainSum, ← List.sum_map_add]
  refine congrArg List.sum (List.map_congr_left fun a ha => ?_)
  by_cases har : a = r
  · subst har
    rw [if_pos ⟨⟨htype, href, hasset, hdelay⟩, hle, hmax⟩, if_pos rfl, if_neg (by omega), add_zero]
  · rw [if_neg har, zero_add]
    refine if_congr (and_congr_right fun hkey => and_congr_left fun _ => ⟨fun hba => ?_, fun hlt => by omega⟩) rfl rfl
    have hfirst : r.blockchain ≤ a.blockchain := KeyedTable.first_le h ha (by
      simp only [decide_eq_true_eq]
      exact ⟨hkey.1, hkey.2.1, hkey.2.2.1, hkey.2.2.2, hba⟩)
    rcases Nat.lt_or_ge r.blockchain a.blockchain with hlt | hge
    · exact hlt
    · refine absurd (KeyedTable.eq_of_key ha hr ?_) har
      obtain ⟨hatype, haref, haasset, hadelay⟩ := hkey
      simp only [StoredTotal.key, Prod.mk.injEq]
      exact ⟨by omega, by omega, by omega, by omega, by omega⟩

/-- A loop over the chains that ends adds the sum of its totals. -/
theorem sumChains_spec {balance v : ℤ} (h : sumChains t q type delaytime fuel blockchain balance = some v) :
    v = balance + chainSum t q type delaytime blockchain := by
  induction fuel generalizing blockchain balance with
  | zero => cases h
  | succ fuel ih =>
    rw [sumChains] at h
    split at h
    · rename_i hnone
      cases h
      rw [chainSum_eq_zero, add_zero]
      intro r hr hkey hle
      have hno := KeyedTable.first_eq_none.1 hnone r hr
      simp only [decide_eq_false_iff_not] at hno
      exact absurd ⟨hkey.1, hkey.2.1, hkey.2.2.1, hkey.2.2.2, hle⟩ hno
    · rename_i r hr
      split at h
      · rename_i hmax
        cases h
        rw [chainSum_eq_zero, add_zero]
        intro a ha hkey hle
        have hfirst : r.blockchain ≤ a.blockchain := KeyedTable.first_le hr ha (by
          simp only [decide_eq_true_eq]
          exact ⟨hkey.1, hkey.2.1, hkey.2.2.1, hkey.2.2.2, hle⟩)
        omega
      · rename_i hmax
        dsimp only at h
        split at h
        · rename_i hlast
          cases h
          rw [chainSum_select hr (by omega), chainSum_eq_zero, add_zero]
          intro a _ _ hle
          have hbound := a.blockchain_le
          omega
        · rw [ih h, chainSum_select hr (by omega), add_assoc]

/-- A loop over the chains ends, as each turn goes on to a later one. -/
theorem sumChains_isSome (hfuel : int64Max < fuel + blockchain) (hblock : blockchain ≤ int64Max) (balance : ℤ) :
    (sumChains t q type delaytime fuel blockchain balance).isSome := by
  induction fuel generalizing blockchain balance with
  | zero => omega
  | succ fuel ih =>
    rw [sumChains]
    split
    · rfl
    · rename_i r hr
      split
      · rfl
      · dsimp only
        split
        · rfl
        · rename_i hlast
          have hmatch := (KeyedTable.mem_of_first hr).2
          simp only [decide_eq_true_eq] at hmatch
          have hbound := r.blockchain_le
          exact ih (by omega) (by omega) _

end Chains

section Loops

lemma mem_delaytimes {d : ℕ} : d ∈ delaytimes q ↔ q.minDelaytime ≤ d ∧ d ≤ min q.maxDelaytime txDelaytimeMask := by
  rw [delaytimes, List.mem_range'_1]
  omega

/-- Over all delaytimes a loop takes the totals of its type that are in range. -/
lemma sum_delaytimes (t : StoredTotals) (q : BalanceQuery) (type : ℕ) :
    ((delaytimes q).map fun d => chainSum t q type d q.minBlockchain).sum =
      (t.rows.map fun r => if type = r.type then (if InRange q r then signedTotal q r else 0) else 0).sum := by
  simp only [chainSum]
  rw [sum_map_comm]
  refine congrArg List.sum (List.map_congr_left fun r _ => ?_)
  have hnodup : (delaytimes q).Nodup := List.nodup_range'
  have hsingle := sum_map_single hnodup r.delaytime
    (if (type = r.type ∧ r.reference = q.reference ∧ r.asset = q.asset) ∧ q.minBlockchain ≤ r.blockchain ∧
      r.blockchain ≤ q.maxBlockchain then signedTotal q r else 0)
  have hle := r.delaytime_le
  calc ((delaytimes q).map fun d => if (r.type = type ∧ r.reference = q.reference ∧ r.asset = q.asset ∧
          r.delaytime = d) ∧ q.minBlockchain ≤ r.blockchain ∧ r.blockchain ≤ q.maxBlockchain then signedTotal q r
          else 0).sum
      = ((delaytimes q).map fun d => if d = r.delaytime then (if (type = r.type ∧ r.reference = q.reference ∧
          r.asset = q.asset) ∧ q.minBlockchain ≤ r.blockchain ∧ r.blockchain ≤ q.maxBlockchain then signedTotal q r
          else 0) else 0).sum := by
        refine congrArg List.sum (List.map_congr_left fun d _ => ?_)
        rw [← ite_and]
        refine if_congr ?_ rfl rfl
        constructor
        · rintro ⟨⟨rfl, href, hasset, rfl⟩, hrest⟩
          exact ⟨rfl, ⟨rfl, href, hasset⟩, hrest⟩
        · rintro ⟨rfl, ⟨rfl, href, hasset⟩, hrest⟩
          exact ⟨⟨rfl, href, hasset, rfl⟩, hrest⟩
    _ = _ := hsingle
    _ = _ := by
        rw [← ite_and, ← ite_and]
        refine if_congr ?_ rfl rfl
        rw [mem_delaytimes, InRange]
        constructor
        · rintro ⟨⟨hmin, hmax⟩, ⟨htype, href, hasset⟩, hrest⟩
          exact ⟨htype, href, hasset, ⟨hmin, by omega⟩, hrest⟩
        · rintro ⟨htype, href, hasset, ⟨hmin, hmax⟩, hrest⟩
          exact ⟨⟨hmin, by omega⟩, ⟨htype, href, hasset⟩, hrest⟩

/-- What the loops sum: each total in range as often as its type is taken. -/
def takenBalance (t : StoredTotals) (q : BalanceQuery) : ℤ :=
  (t.rows.map fun r => (loopTypes q).count r.type * if InRange q r then signedTotal q r else 0).sum

theorem getTotalBalance_spec {v : ℤ} (h : getTotalBalance t q fuel = some v) : v = takenBalance t q := by
  let sumType : ℕ → ℤ := fun type => ((delaytimes q).map fun d => chainSum t q type d q.minBlockchain).sum
  have hwatches : ∀ pending b v, (List.range (2 * q.incwatch.toNat + 1)).foldlM (fun balance watch =>
      if skipsWatch q pending then some balance
      else (delaytimes q).foldlM (fun balance delaytime =>
        sumChains t q (loopType q pending watch) delaytime fuel q.minBlockchain balance) balance) b = some v →
      v = b + ((List.range (2 * q.incwatch.toNat + 1)).map fun watch =>
        ((if skipsWatch q pending then [] else [loopType q pending watch]).map sumType).sum).sum := fun pending b v h => by
    refine foldlM_add (fun b watch v h => ?_) _ h
    split at h
    · rename_i hskip
      cases h
      simp [hskip]
    · rename_i hskip
      have hdelays := foldlM_add (g := fun d => chainSum t q (loopType q pending watch) d q.minBlockchain)
        (fun _ _ _ => sumChains_spec) _ h
      simp [hskip, hdelays, sumType]
  have hpendings : v = 0 + ((List.range (2 * q.sumPc.toNat + 1)).map fun pending =>
      ((if skipsPending q pending then []
      else (List.range (2 * q.incwatch.toNat + 1)).flatMap fun watch =>
        if skipsWatch q pending then [] else [loopType q pending watch]).map sumType).sum).sum := by
    refine foldlM_add (fun b pending v h => ?_) _ h
    split at h
    · rename_i hskip
      cases h
      simp [hskip]
    · rename_i hskip
      rw [if_neg hskip, ← sum_map_flatMap]
      exact hwatches _ _ _ h
  calc v = ((loopTypes q).map sumType).sum := by rw [hpendings, zero_add, sum_map_flatMap, loopTypes]
    _ = takenBalance t q := by
      simp only [sumType, sum_delaytimes]
      rw [sum_map_comm, takenBalance]
      simp only [sum_map_count]

theorem getTotalBalance_eq (t : StoredTotals) (q : BalanceQuery) (hfuel : int64Max < fuel) :
    getTotalBalance t q fuel = some (takenBalance t q) := by
  have hsome : (getTotalBalance t q fuel).isSome := by
    refine foldlM_isSome (fun b pending => ?_) _ _
    split
    · rfl
    · refine foldlM_isSome (fun b watch => ?_) _ _
      split
      · rfl
      · exact foldlM_isSome (fun b d => sumChains_isSome (by omega) q.minBlockchain_le b) _ _
  obtain ⟨v, hv⟩ := Option.isSome_iff_exists.1 hsome
  rw [hv, getTotalBalance_spec hv]

end Loops

section Types

/-- A query for a type and the two switches. -/
def typeQuery (type : ℕ) (sumPc incwatch : Bool) : BalanceQuery :=
  ⟨type, sumPc, incwatch, 0, 0, 0, 0, 0, 0, Nat.zero_le _⟩

/-- Below 64 the loops take the types that totals can have and that are wanted, each of them once, just for the queries
that set no bit of a loop, and for those which want no type that a total can have. -/
lemma perm_iff_of_lt : ∀ type < 64, ∀ sumPc incwatch,
    ((loopTypes (typeQuery type sumPc incwatch)).filter (· ≤ totalTypeMax)).Perm
      ((wantedTypes (typeQuery type sumPc incwatch)).filter (· ≤ totalTypeMax)) ↔
    (∀ ty ∈ wantedTypes (typeQuery type sumPc incwatch), totalTypeMax < ty) ∨
      (sumPc = true → type &&& totalTypePaBits = 0) ∧ (incwatch = true → type &&& totalTypeTwBits = 0) := by
  decide +kernel

lemma wantedTypes_nodup_of_lt : ∀ type < 64, ∀ sumPc incwatch, (wantedTypes (typeQuery type sumPc incwatch)).Nodup := by
  decide +kernel

lemma lt_of_mem_wantedTypes (h : 64 ≤ q.type) {ty : ℕ} (hty : ty ∈ wantedTypes q) : totalTypeMax < ty := by
  obtain ⟨pa, -, hty⟩ := List.mem_flatMap.1 hty
  obtain ⟨tw, -, rfl⟩ := List.mem_map.1 hty
  have hand : q.type &&& (totalTypePaBits ||| totalTypeTwBits) ≤ q.type % 2^6 := by
    have hlt : q.type &&& (totalTypePaBits ||| totalTypeTwBits) < 2^6 := Nat.and_le_right.trans_lt (by decide)
    rw [← Nat.mod_eq_of_lt hlt, Nat.and_mod_two_pow]
    exact Nat.and_le_left
  have hbase : 64 ≤ q.type - (q.type &&& (totalTypePaBits ||| totalTypeTwBits)) := by omega
  exact lt_of_lt_of_le (by decide) (hbase.trans (Nat.left_le_or.trans Nat.left_le_or))

lemma lt_of_mem_loopTypes (h : 64 ≤ q.type) {ty : ℕ} (hty : ty ∈ loopTypes q) : totalTypeMax < ty := by
  obtain ⟨pending, -, hty⟩ := List.mem_flatMap.1 hty
  split at hty
  · cases hty
  · obtain ⟨watch, -, hty⟩ := List.mem_flatMap.1 hty
    split at hty
    · cases hty
    · rw [List.mem_singleton.1 hty]
      exact lt_of_lt_of_le (by decide) (h.trans (Nat.left_le_or.trans Nat.left_le_or))

/-- Which queries take each type that a total can have as often as it is wanted. -/
theorem count_loopTypes_iff :
    (∀ ty ≤ totalTypeMax, (loopTypes q).count ty = if ty ∈ wantedTypes q then 1 else 0) ↔
    (∀ ty ∈ wantedTypes q, totalTypeMax < ty) ∨
      (q.sumPc = true → q.type &&& totalTypePaBits = 0) ∧ (q.incwatch = true → q.type &&& totalTypeTwBits = 0) := by
  rcases Nat.lt_or_ge q.type 64 with hlt | hge
  · have hperm := perm_iff_of_lt q.type hlt q.sumPc q.incwatch
    have hnodup : (wantedTypes q).Nodup := wantedTypes_nodup_of_lt q.type hlt q.sumPc q.incwatch
    refine Iff.trans ?_ hperm
    have hcount : ∀ l : List ℕ, ∀ ty, (l.filter (· ≤ totalTypeMax)).count ty =
        if ty ≤ totalTypeMax then l.count ty else 0 := fun l ty => by
      by_cases hty : ty ≤ totalTypeMax
      · rw [if_pos hty, List.count_filter (by simpa using hty)]
      · rw [if_neg hty, List.count_eq_zero]
        exact fun hmem => hty (by simpa using (List.mem_filter.1 hmem).2)
    rw [List.perm_iff_count]
    refine forall_congr' fun ty => ?_
    rw [hcount, hcount]
    by_cases hty : ty ≤ totalTypeMax
    · have hone : (wantedTypes q).count ty = if ty ∈ wantedTypes q then 1 else 0 := by
        split
        · rename_i hmem
          exact List.count_eq_one_of_mem hnodup hmem
        · rename_i hmem
          exact List.count_eq_zero.2 hmem
      rw [if_pos hty, if_pos hty]
      exact ⟨fun h => (h hty).trans hone.symm, fun h _ => h.trans hone⟩
    · rw [if_neg hty, if_neg hty]
      exact ⟨fun _ => rfl, fun _ h => absurd h hty⟩
  · refine ⟨fun _ => .inl fun ty => lt_of_mem_wantedTypes hge, fun _ ty hty => ?_⟩
    rw [if_neg fun hmem => absurd (lt_of_mem_wantedTypes hge hmem) (by omega), List.count_eq_zero]
    exact fun hmem => absurd (lt_of_mem_loopTypes hge hmem) (by omega)

end Types

section Main

lemma takenBalance_eq (h : ∀ r ∈ t, InRange q r → (loopTypes q).count r.type = if r.type ∈ wantedTypes q then 1 else 0) :
    takenBalance t q = wantedBalance t q := by
  refine congrArg List.sum (List.map_congr_left fun r hr => ?_)
  by_cases hrange : InRange q r
  · rw [if_pos hrange, h r hr hrange, if_congr (and_iff_left hrange) rfl rfl]
    split <;> simp
  · rw [if_neg hrange, mul_zero, if_neg fun hboth => hrange hboth.2]

lemma signedTotal_ne_zero {r : StoredTotal} (h : r.total ≠ 0) : signedTotal q r ≠ 0 := by
  unfold signedTotal
  split <;> omega

/-- A balance query sums each stored total that it is meant to sum once, and no other, whatever the stored totals are,
just when it sets none of the bits over which a loop goes or has nothing to sum. -/
theorem getTotalBalance_iff (q : BalanceQuery) :
    (∀ t, ∃ fuel, getTotalBalance t q fuel = some (wantedBalance t q)) ↔ SumsOnce q := by
  constructor
  · intro h
    by_contra honce
    simp only [SumsOnce, ← count_loopTypes_iff, not_or, not_lt] at honce
    obtain ⟨hdelay, hchain, htypes⟩ := honce
    push Not at htypes
    obtain ⟨ty, hty, hne⟩ := htypes
    let r : StoredTotal := ⟨ty, q.reference, q.asset, q.minDelaytime, q.minBlockchain, 1, hty, by omega,
      q.minBlockchain_le⟩
    have hrange : InRange q r := ⟨rfl, rfl, ⟨le_rfl, by simp only [r]; omega⟩, le_rfl, hchain⟩
    obtain ⟨fuel, hbalance⟩ := h ⟨[r], List.nodup_singleton _⟩
    have heq := getTotalBalance_spec hbalance
    have hsigned : signedTotal q r ≠ 0 := signedTotal_ne_zero Nat.one_ne_zero
    simp only [wantedBalance, takenBalance, List.map_cons, List.map_nil, List.sum_cons, List.sum_nil, add_zero,
      if_pos hrange, and_iff_left hrange] at heq
    refine hne (Nat.cast_injective (R := ℤ) (mul_right_cancel₀ hsigned (heq.symm.trans ?_)))
    split <;> simp
  · intro honce t
    refine ⟨int64Max + 1, ?_⟩
    rw [getTotalBalance_eq t q (Nat.lt_succ_self _), takenBalance_eq]
    intro r _ hrange
    obtain ⟨-, -, ⟨hmin, hmax⟩, hmin', hmax'⟩ := hrange
    have hdelay := r.delaytime_le
    rcases honce with hempty | hempty | htypes
    · omega
    · omega
    · exact count_loopTypes_iff.2 htypes r.type r.type_le

/-- Of received amounts that are tracked or watched, the query with both bits sums none. -/
theorem getTotalBalance_tracked : ¬∃ fuel, getTotalBalance
      ⟨[⟨totalTypeDaBit ||| 1 <<< 2 ||| totalTypeTrackBit, 0, 0, 0, 1, 5, by decide, by decide, by decide⟩],
        List.nodup_singleton _⟩
      ⟨totalTypeDaBit ||| 1 <<< 2 ||| totalTypeTwBits, false, true, 0, 0, 0, 2^32 - 1, 0, 2^64 - 1, by decide⟩ fuel =
    some (wantedBalance
      ⟨[⟨totalTypeDaBit ||| 1 <<< 2 ||| totalTypeTrackBit, 0, 0, 0, 1, 5, by decide, by decide, by decide⟩],
        List.nodup_singleton _⟩
      ⟨totalTypeDaBit ||| 1 <<< 2 ||| totalTypeTwBits, false, true, 0, 0, 0, 2^32 - 1, 0, 2^64 - 1, by decide⟩) := by
  rintro ⟨fuel, h⟩
  have heq := getTotalBalance_spec h
  revert heq
  decide +kernel

end Main

end CredaCash.Wallet
