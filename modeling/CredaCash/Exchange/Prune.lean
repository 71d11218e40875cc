import CredaCash.Checks
import CredaCash.Exchange.Synchronize

/-! The limits on the number of requests: how pruning ends, and in which order it removes requests. -/

namespace CredaCash.Exchange
open UniFloat Chain

/-- The table with the counters `xreq_count_pending` and `xreq_count_persistent`. -/
structure CountedXreqs where
  table : XreqTable
  pending : ℕ
  persistent : ℕ

/-- `XreqsDeleteWithLock`, none for an assertion on a counter. -/
def xreqsDeleteWithLock (s : CountedXreqs) (x : Xreq) : Option CountedXreqs :=
  let table := xreqsDelete s.table x
  let changes := (xreqsSelectSeqnum s.table x.seqnum).isSome
  if changes ∧ x.xreqnum ≠ 0 then
    if s.persistent = 0 then none else some ⟨table, s.pending, s.persistent - 1⟩
  else if changes ∧ x.xreqnum = 0 then
    if s.pending = 0 then none else some ⟨table, s.pending - 1, s.persistent⟩
  else some ⟨table, s.pending, s.persistent⟩

/-- `XreqsInsertWithLock`, none for a sequence number that is in use. -/
def xreqsInsertWithLock (s : CountedXreqs) (x : Xreq) : Option CountedXreqs :=
  (s.table.insert x).map fun table =>
    if x.xreqnum ≠ 0 then ⟨table, s.pending, s.persistent + 1⟩ else ⟨table, s.pending + 1, s.persistent⟩

/-- A table whose counters are the numbers of its rows. -/
def counted (t : XreqTable) : CountedXreqs := ⟨t, xreqCountPending t, xreqCountPersistent t⟩

/-- The limits that pruning restores. -/
def WithinLimits (t : XreqTable) : Prop :=
  xreqCountPersistent t ≤ xreqMaxPersistentCount ∧
    xreqCountPersistent t + xreqCountPending t ≤ xreqMaxPersistentCount + xreqMinNonPersistentCount

/-- A request that the first pass spares: it waits for a pending match and no part of it is filled, or it is new in
this block. -/
def Spared (newXreqnum : ℕ) (x : Xreq) : Prop :=
  (x.openAmount = x.maxAmount ∧ x.pendingMatchRate ≠ 0) ∨ newXreqnum ≤ x.xreqnum

/-- The twin of a request, where it is in the table. -/
def linkedXreq (t : XreqTable) (x : Xreq) : Option Xreq :=
  if x.linkedSeqnum = 0 then none else xreqsSelectSeqnum (xreqsDelete t x) x.linkedSeqnum

/-- The table without a request and its twin. -/
def removeXreq (t : XreqTable) (x : Xreq) : XreqTable :=
  (linkedXreq t x).elim (xreqsDelete t x) (xreqsDelete (xreqsDelete t x))

/-- A request that pruning removes, and the table before it is removed. -/
structure Removal where
  xreq : Xreq
  before : XreqTable

/-- The requests that a removal deletes. -/
def Removal.deletes (r : Removal) : List Xreq := r.xreq :: (linkedXreq r.before r.xreq).toList

/-- Removals, each with its twin, that lead from one table to another. -/
inductive Removes : XreqTable → List Removal → XreqTable → Prop
  | nil (t : XreqTable) : Removes t [] t
  | cons {t t' : XreqTable} {x : Xreq} {log : List Removal} (hx : x ∈ t) (rest : Removes (removeXreq t x) log t') :
    Removes t (⟨x, t⟩ :: log) t'

/-- The twin that goes with a persistent request keeps the order: all older ones that are left are spared. -/
def Removal.TwinInOrder (newXreqnum : ℕ) (r : Removal) : Prop :=
  r.xreq.xreqnum ≠ 0 → ∀ z, linkedXreq r.before r.xreq = some z →
    ∀ y ∈ r.before, y.xreqnum ≠ 0 → y ≠ r.xreq → y.xreqnum < z.xreqnum → Spared newXreqnum y

/-- The twin of a request is next in the order, apart from requests that are spared. -/
def TwinNext (newXreqnum : ℕ) (t : XreqTable) (x : Xreq) : Prop :=
  x.xreqnum ≠ 0 → ∀ z, linkedXreq t x = some z →
    ∀ y ∈ t, x.xreqnum < y.xreqnum → y.xreqnum < z.xreqnum → Spared newXreqnum y

/-- The order of removals: a persistent request goes when all older ones that are left are spared, and a spared one only
when it is the oldest; a pending request goes when there are not too many persistent ones and no pending one came
earlier. The twin of a persistent request keeps the order exactly if it is next. -/
structure Removal.InOrder (newXreqnum : ℕ) (r : Removal) : Prop where
  persistent : r.xreq.xreqnum ≠ 0 → ∀ y ∈ r.before, y.xreqnum ≠ 0 → y.xreqnum < r.xreq.xreqnum →
    Spared newXreqnum y ∧ ¬ Spared newXreqnum r.xreq
  pending : r.xreq.xreqnum = 0 → xreqCountPersistent r.before ≤ xreqMaxPersistentCount ∧
    ∀ y ∈ r.before, y.xreqnum = 0 → r.xreq.seqnum ≤ y.seqnum
  linked : r.TwinInOrder newXreqnum ↔ TwinNext newXreqnum r.before r.xreq

/-- Requests in the blockchain have different numbers. -/
def XreqnumsDistinct (t : XreqTable) : Prop := ∀ x ∈ t, ∀ y ∈ t, x.xreqnum ≠ 0 → x.xreqnum = y.xreqnum → x = y

section Counters
variable {t t' : XreqTable} {x : Xreq} {p : Xreq → Bool}

lemma mem_xreqsDelete {y : Xreq} (hx : x ∈ t) : y ∈ xreqsDelete t x ↔ y ∈ t ∧ y ≠ x := by
  rw [xreqsDelete, KeyedTable.mem_delete]
  refine and_congr_right fun hy => not_congr ⟨fun hkey => KeyedTable.eq_of_key hy hx hkey, fun heq => ?_⟩
  rw [heq]

lemma mem_of_mem_delete {y : Xreq} (hy : y ∈ xreqsDelete t x) : y ∈ t := (KeyedTable.mem_delete.1 hy).1

lemma countP_eq_total (t : XreqTable) (p : Xreq → Bool) : t.rows.countP p = t.total fun x => if p x then 1 else 0 := by
  rw [KeyedTable.total, List.countP_eq_length_filter, List.sum_map_ite]
  simp

/-- Deleting a row takes it from the numbers of rows. -/
lemma countP_delete (hx : x ∈ t) :
    t.rows.countP p = (if p x then 1 else 0) + (xreqsDelete t x).rows.countP p := by
  rw [countP_eq_total, countP_eq_total]
  exact KeyedTable.total_delete (KeyedTable.select_key hx)

lemma persistent_delete (hx : x ∈ t) : xreqCountPersistent t =
    (if x.xreqnum ≠ 0 then 1 else 0) + xreqCountPersistent (xreqsDelete t x) := by
  have h := countP_delete (p := fun x => x.xreqnum ≠ 0) hx
  simp only [decide_eq_true_eq] at h
  exact h

lemma pending_delete (hx : x ∈ t) : xreqCountPending t =
    (if x.xreqnum = 0 then 1 else 0) + xreqCountPending (xreqsDelete t x) := by
  have h := countP_delete (p := fun x => x.xreqnum = 0) hx
  simp only [decide_eq_true_eq] at h
  exact h

/-- A delete keeps the counters equal to the numbers of rows, and its assertions hold. -/
lemma xreqsDeleteWithLock_counted (hx : x ∈ t) :
    xreqsDeleteWithLock (counted t) x = some (counted (xreqsDelete t x)) := by
  have hpersistent := persistent_delete hx
  have hpending := pending_delete hx
  have hselect : (xreqsSelectSeqnum (counted t).table x.seqnum).isSome = true :=
    Option.isSome_iff_exists.2 ⟨x, KeyedTable.select_key hx⟩
  rw [xreqsDeleteWithLock]
  by_cases hzero : x.xreqnum = 0
  · rw [if_neg (not_not.2 hzero)] at hpersistent
    rw [if_pos hzero] at hpending
    have hne : (counted t).pending ≠ 0 := by
      change xreqCountPending t ≠ 0
      omega
    rw [if_neg (fun h => h.2 hzero), if_pos ⟨hselect, hzero⟩, if_neg hne]
    simp only [counted]
    congr 2 <;> omega
  · rw [if_pos hzero] at hpersistent
    rw [if_neg hzero] at hpending
    have hne : (counted t).persistent ≠ 0 := by
      change xreqCountPersistent t ≠ 0
      omega
    rw [if_pos ⟨hselect, hzero⟩, if_neg hne]
    simp only [counted]
    congr 2 <;> omega

lemma xreqsInsertWithLock_counted (t : XreqTable) (x : Xreq) :
    xreqsInsertWithLock (counted t) x = (t.insert x).map counted := by
  rw [xreqsInsertWithLock]
  cases hinsert : (counted t).table.insert x with
  | none => rw [show t.insert x = none from hinsert, Option.map_none, Option.map_none]
  | some t' =>
    have hrows : t'.rows = x :: t.rows := by
      unfold KeyedTable.insert at hinsert
      split_ifs at hinsert
      cases hinsert
      rfl
    rw [show t.insert x = some t' from hinsert, Option.map_some, Option.map_some]
    by_cases hzero : x.xreqnum = 0 <;> simp [counted, xreqCountPending, xreqCountPersistent, hrows, hzero]

lemma mem_of_mem_remove {y : Xreq} (hy : y ∈ removeXreq t x) : y ∈ xreqsDelete t x := by
  rw [removeXreq] at hy
  cases h : linkedXreq t x with
  | none => rwa [h] at hy
  | some z =>
    rw [h] at hy
    exact mem_of_mem_delete hy

lemma mem_of_linked {z : Xreq} (h : linkedXreq t x = some z) : z ∈ xreqsDelete t x := by
  rw [linkedXreq] at h
  split_ifs at h
  exact KeyedTable.mem_of_select h

/-- In a part of a table a request has no other twin. -/
lemma linkedXreq_mono {z : Xreq} (hsub : ∀ y ∈ t, y ∈ t') (h : linkedXreq t x = some z) : linkedXreq t' x = some z := by
  rw [linkedXreq] at h ⊢
  split_ifs at h ⊢
  obtain ⟨hz, hkey⟩ := KeyedTable.select_eq_some.1 h
  obtain ⟨hmem, hne⟩ := KeyedTable.mem_delete.1 hz
  exact KeyedTable.select_eq_some.2 ⟨KeyedTable.mem_delete.2 ⟨hsub z hmem, hne⟩, hkey⟩

lemma TwinNext.mono {newXreqnum : ℕ} (hsub : ∀ y ∈ t, y ∈ t') (h : TwinNext newXreqnum t' x) :
    TwinNext newXreqnum t x :=
  fun hne z hz y hy => h hne z (linkedXreq_mono hsub hz) y (hsub y hy)

lemma countP_delete_le (hx : x ∈ t) : (xreqsDelete t x).rows.countP p ≤ t.rows.countP p :=
  (Nat.le_add_left _ _).trans_eq (countP_delete hx).symm

lemma countP_remove_le (t : XreqTable) (x : Xreq) (p : Xreq → Bool) :
    (removeXreq t x).rows.countP p ≤ (xreqsDelete t x).rows.countP p := by
  rw [removeXreq]
  cases h : linkedXreq t x with
  | none => exact le_refl _
  | some z => exact countP_delete_le (mem_of_linked h)

lemma removeXreq_counted (hx : x ∈ t) :
    (Removal.mk x t).deletes.foldlM xreqsDeleteWithLock (counted t) = some (counted (removeXreq t x)) := by
  rw [Removal.deletes, List.foldlM_cons, xreqsDeleteWithLock_counted hx, removeXreq]
  cases h : linkedXreq t x with
  | none => rfl
  | some z => exact congrArg (· >>= pure) (xreqsDeleteWithLock_counted (mem_of_linked h))

namespace Removes
variable {log : List Removal} {r : Removal}

/-- Removals keep the counters equal to the numbers of rows. -/
lemma counted (h : Removes t log t') :
    (log.flatMap (·.deletes)).foldlM xreqsDeleteWithLock (Exchange.counted t) = some (Exchange.counted t') := by
  induction h with
  | nil t => rfl
  | cons hx rest ih =>
    rw [List.flatMap_cons, List.foldlM_append, removeXreq_counted hx]
    exact ih

lemma append {t'' : XreqTable} {log' : List Removal} (h : Removes t log t') (h' : Removes t' log' t'') :
    Removes t (log ++ log') t'' := by
  induction h with
  | nil t => exact h'
  | cons hx rest ih => exact .cons hx (ih h')

end Removes

end Counters

/-- The request that the loop of `PruneXreqs` selects. -/
def pruneSelect (nextXreqnum : ℕ) (t : XreqTable) : Option Xreq :=
  xreqsSelectXreqnum t (if xreqMaxPersistentCount < xreqCountPersistent t then nextXreqnum else 0)

section Loop
variable (outputEnv : ℕ → OutputEnv) (pass newXreqnum : ℕ)

/-- A pass of `PruneXreqs` from the number of the next request, with the requests that it removes. -/
inductive PruneLoop : ℕ → XreqTable × Saved → List Removal → XreqTable × Saved → Prop
  | within {next : ℕ} {st : XreqTable × Saved} (h : WithinLimits st.1) : PruneLoop next st [] st
  | noneLeft {next : ℕ} {st : XreqTable × Saved} (hpass : pass = 0) (hover : ¬ WithinLimits st.1)
      (h : pruneSelect next st.1 = none) : PruneLoop next st [] st
  | isNew {next : ℕ} {st : XreqTable × Saved} {x : Xreq} (hpass : pass = 0) (hover : ¬ WithinLimits st.1)
      (hmany : xreqMaxPersistentCount < xreqCountPersistent st.1) (h : pruneSelect next st.1 = some x)
      (hnew : newXreqnum ≤ x.xreqnum) : PruneLoop next st [] st
  | spare {next : ℕ} {st st' : XreqTable × Saved} {x : Xreq} {log : List Removal} (hpass : pass = 0)
      (hover : ¬ WithinLimits st.1) (hmany : xreqMaxPersistentCount < xreqCountPersistent st.1)
      (h : pruneSelect next st.1 = some x) (hspared : x.openAmount = x.maxAmount ∧ x.pendingMatchRate ≠ 0)
      (rest : PruneLoop (x.xreqnum + 1) st log st') : PruneLoop next st log st'
  | remove {next : ℕ} {st st₁ st₂ st' : XreqTable × Saved} {x : Xreq} {log : List Removal}
      (hover : ¬ WithinLimits st.1) (h : pruneSelect next st.1 = some x)
      (hspared : pass = 0 → xreqMaxPersistentCount < xreqCountPersistent st.1 → ¬ Spared newXreqnum x)
      (hexpire : expireXreq outputEnv st x = .ok st₁) (hlinked : pruneLinked outputEnv st₁ x.linkedSeqnum = .ok st₂)
      (rest : PruneLoop (x.xreqnum + 1) st₂ log st') : PruneLoop next st (⟨x, st.1⟩ :: log) st'

end Loop

section Turns
variable {outputEnv : ℕ → OutputEnv} {pass newXreqnum next : ℕ} {st st' st₁ st₂ : XreqTable × Saved} {x : Xreq}

lemma createRefund_ends (outputEnv : ℕ → OutputEnv) (saved : Saved) (x : Xreq) (openAmount amount : ℕ) :
    Checks.Ends (fun e => e = .outputs) (fun _ => True) (createRefund outputEnv saved x openAmount amount) := by
  rw [createRefund]
  split
  · exact .error rfl
  · exact .ok trivial

/-- Closing a request deletes it, or fails where its refund does. -/
lemma expireXreq_ends (outputEnv : ℕ → OutputEnv) (st : XreqTable × Saved) (x : Xreq) :
    Checks.Ends (fun e => e = .outputs) (fun st' => st'.1 = xreqsDelete st.1 x) (expireXreq outputEnv st x) := by
  unfold expireXreq
  by_cases hrefund : x.xreqnum = 0 ∨ x.openAmount = 0
  · simp only [if_pos hrefund]
    exact .ok rfl
  · simp only [if_neg hrefund]
    split
    · exact .ok rfl
    · exact (createRefund_ends outputEnv _ x x.openAmount _).map fun _ _ => rfl

lemma pruneLinked_ends (outputEnv : ℕ → OutputEnv) (st : XreqTable × Saved) (linkedSeqnum : ℕ) :
    Checks.Ends (fun e => e = .outputs) (fun st' => st'.1 = if linkedSeqnum = 0 then st.1 else
      (xreqsSelectSeqnum st.1 linkedSeqnum).elim st.1 (xreqsDelete st.1)) (pruneLinked outputEnv st linkedSeqnum) := by
  rw [pruneLinked]
  split_ifs
  · exact .ok rfl
  · split
    · next hnone =>
      rw [hnone]
      exact .ok rfl
    · next y hsome =>
      rw [hsome]
      exact expireXreq_ends outputEnv st y

/-- A turn that removes a request removes its twin too. -/
lemma turn_remove (hexpire : expireXreq outputEnv st x = .ok st₁)
    (hlinked : pruneLinked outputEnv st₁ x.linkedSeqnum = .ok st₂) : st₂.1 = removeXreq st.1 x := by
  have hdelete := (expireXreq_ends outputEnv st x).2 st₁ hexpire
  have htwin := (pruneLinked_ends outputEnv st₁ x.linkedSeqnum).2 st₂ hlinked
  rw [htwin, hdelete, removeXreq, linkedXreq]
  split_ifs
  · rfl
  · rfl

lemma pruneSelect_mem {t : XreqTable} (h : pruneSelect next t = some x) : x ∈ t := (KeyedTable.mem_of_first h).1

/-- Beyond the limit on persistent requests the loop selects the next one. -/
lemma pruneSelect_many {t : XreqTable} (hmany : xreqMaxPersistentCount < xreqCountPersistent t)
    (h : pruneSelect next t = some x) : next ≤ x.xreqnum ∧ ∀ y ∈ t, next ≤ y.xreqnum → x.xreqnum ≤ y.xreqnum := by
  rw [pruneSelect, if_pos hmany] at h
  refine ⟨by simpa using (KeyedTable.mem_of_first h).2, fun y hy hle => ?_⟩
  exact Prod.Lex.monotone_fst _ _ (KeyedTable.first_le h hy (decide_eq_true hle))

/-- Within it the loop selects the pending request that came first. -/
lemma pruneSelect_few {t : XreqTable} (hmany : ¬ xreqMaxPersistentCount < xreqCountPersistent t)
    (hover : ¬ WithinLimits t) : ∃ x, pruneSelect next t = some x ∧ x.xreqnum = 0 ∧
      ∀ y ∈ t, y.xreqnum = 0 → x.seqnum ≤ y.seqnum := by
  have hpending : 0 < xreqCountPending t := by
    by_contra hzero
    refine hover ⟨not_lt.1 hmany, ?_⟩
    omega
  obtain ⟨z, hz, hzero⟩ := List.countP_pos_iff.1 hpending
  have hzero : z.xreqnum = 0 := of_decide_eq_true hzero
  cases h : pruneSelect next t with
  | none =>
    rw [pruneSelect, if_neg hmany] at h
    have hnone := KeyedTable.first_eq_none.1 h z hz
    simp at hnone
  | some x =>
    rw [pruneSelect, if_neg hmany] at h
    have hle (y : Xreq) (hy : y ∈ t) := KeyedTable.first_le h hy (decide_eq_true (Nat.zero_le y.xreqnum))
    have hx : x.xreqnum = 0 := Nat.le_zero.1 ((Prod.Lex.monotone_fst _ _ (hle z hz)).trans_eq hzero)
    refine ⟨x, rfl, hx, fun y hy hyzero => ?_⟩
    rcases Prod.Lex.le_iff.1 (hle y hy) with hlt | ⟨-, hseqnum⟩
    · exact absurd hlt (by simp [xreqnumOrder, hx, hyzero])
    · exact hseqnum

/-- What a pass knows of the requests before its cursor: the first pass spared them, the second removed them. -/
structure Cursor (pass newXreqnum next : ℕ) (t : XreqTable) : Prop where
  pos : 1 ≤ next
  distinct : XreqnumsDistinct t
  first : pass = 0 → ∀ y ∈ t, y.xreqnum ≠ 0 → y.xreqnum < next → Spared newXreqnum y
  second : pass ≠ 0 → ∀ y ∈ t, y.xreqnum ≠ 0 → next ≤ y.xreqnum

namespace Cursor
variable {t t' : XreqTable}

lemma start (pass newXreqnum : ℕ) (hdistinct : XreqnumsDistinct t) : Cursor pass newXreqnum 1 t where
  pos := le_refl 1
  distinct := hdistinct
  first := fun _ _ _ hne hlt => absurd (Nat.lt_one_iff.1 hlt) hne
  second := fun _ _ _ hne => Nat.one_le_iff_ne_zero.2 hne

/-- The sign of the number of the request that is found agrees with the count. -/
lemma select_xreqnum (h : Cursor pass newXreqnum next t) (hover : ¬ WithinLimits t)
    (hselect : pruneSelect next t = some x) : xreqMaxPersistentCount < xreqCountPersistent t ↔ x.xreqnum ≠ 0 := by
  by_cases hmany : xreqMaxPersistentCount < xreqCountPersistent t
  · have hpos : 1 ≤ x.xreqnum := h.pos.trans (pruneSelect_many hmany hselect).1
    exact iff_of_true hmany (Nat.one_le_iff_ne_zero.1 hpos)
  · obtain ⟨z, hz, hzero, -⟩ := @pruneSelect_few next t hmany hover
    rw [hselect, Option.some_inj] at hz
    rw [← hz] at hzero
    exact iff_of_false hmany (not_not.2 hzero)

/-- A turn moves the cursor behind the request that it selects, which stays only where the first pass spares it. -/
lemma turn (h : Cursor pass newXreqnum next t) (hover : ¬ WithinLimits t) (hselect : pruneSelect next t = some x)
    (hsub : ∀ y ∈ t', y ∈ t) (hstays : x ∈ t' → pass = 0 ∧ Spared newXreqnum x) :
    Cursor pass newXreqnum (x.xreqnum + 1) t' := by
  have hx : x ∈ t := pruneSelect_mem hselect
  have hfew (hmany : ¬ xreqMaxPersistentCount < xreqCountPersistent t) : x.xreqnum = 0 := by
    obtain ⟨z, hz, hzero, -⟩ := @pruneSelect_few next t hmany hover
    rw [hselect, Option.some_inj] at hz
    rw [hz, hzero]
  have hle (y : Xreq) (hy : y ∈ t) (hne : y.xreqnum ≠ 0) (hnext : next ≤ y.xreqnum) : x.xreqnum ≤ y.xreqnum := by
    by_cases hmany : xreqMaxPersistentCount < xreqCountPersistent t
    · exact (pruneSelect_many hmany hselect).2 y hy hnext
    · exact (hfew hmany).trans_le (Nat.zero_le _)
  have heq (y : Xreq) (hy : y ∈ t) (hne : y.xreqnum ≠ 0) (hyx : y.xreqnum = x.xreqnum) : y = x :=
    h.distinct y hy x hx hne hyx
  refine ⟨Nat.le_add_left 1 _, fun y hy z hz => h.distinct y (hsub y hy) z (hsub z hz), ?_, ?_⟩
  · intro hpass y hy hne hlt
    by_cases hnext : y.xreqnum < next
    · exact h.first hpass y (hsub y hy) hne hnext
    · have hyx : y = x := heq y (hsub y hy) hne
        (le_antisymm (Nat.lt_succ_iff.1 hlt) (hle y (hsub y hy) hne (not_lt.1 hnext)))
      rw [hyx] at hy ⊢
      exact (hstays hy).2
  · intro hpass y hy hne
    have hxy : x.xreqnum ≤ y.xreqnum := hle y (hsub y hy) hne (h.second hpass y (hsub y hy) hne)
    refine Nat.succ_le_of_lt (lt_of_le_of_ne hxy fun hnum => ?_)
    have hyx : y = x := heq y (hsub y hy) hne hnum.symm
    rw [hyx] at hy
    exact hpass (hstays hy).1

lemma remove (h : Cursor pass newXreqnum next t) (hover : ¬ WithinLimits t) (hselect : pruneSelect next t = some x) :
    Cursor pass newXreqnum (x.xreqnum + 1) (removeXreq t x) := by
  refine h.turn hover hselect (fun y hy => mem_of_mem_delete (mem_of_mem_remove hy)) fun hx => ?_
  exact absurd rfl ((mem_xreqsDelete (pruneSelect_mem hselect)).1 (mem_of_mem_remove hx)).2

/-- The request that a turn removes is next in the order. -/
lemma inOrder (h : Cursor pass newXreqnum next t) (hover : ¬ WithinLimits t) (hselect : pruneSelect next t = some x)
    (hspared : pass = 0 → xreqMaxPersistentCount < xreqCountPersistent t → ¬ Spared newXreqnum x) :
    Removal.InOrder newXreqnum ⟨x, t⟩ := by
  have hpersistent : x.xreqnum ≠ 0 → ∀ y ∈ t, y.xreqnum ≠ 0 → y.xreqnum < x.xreqnum →
      Spared newXreqnum y ∧ ¬ Spared newXreqnum x := by
    intro hne y hy hyne hlt
    have hmany := (h.select_xreqnum hover hselect).2 hne
    have hbefore : y.xreqnum < next :=
      not_le.1 fun hnext => absurd ((pruneSelect_many hmany hselect).2 y hy hnext) (not_le.2 hlt)
    by_cases hpass : pass = 0
    · exact ⟨h.first hpass y hy hyne hbefore, hspared hpass hmany⟩
    · exact absurd (h.second hpass y hy hyne) (not_le.2 hbefore)
  refine ⟨hpersistent, fun hzero => ?_, fun htwin hne z hz y hy hxy hyz => ?_,
    fun hnext hne z hz y hy hyne hyx hyz => ?_⟩
  · have hmany : ¬ xreqMaxPersistentCount < xreqCountPersistent t :=
      fun hmany => (h.select_xreqnum hover hselect).1 hmany hzero
    obtain ⟨z, hz, -, hseqnum⟩ := @pruneSelect_few next t hmany hover
    rw [hselect, Option.some_inj] at hz
    subst hz
    exact ⟨not_lt.1 hmany, hseqnum⟩
  · exact htwin hne z hz y hy (Nat.ne_zero_of_lt hxy) (fun heq => hxy.ne' (congrArg Xreq.xreqnum heq)) hyz
  · rcases lt_trichotomy y.xreqnum x.xreqnum with hlt | hnum | hgt
    · exact (hpersistent hne y hy hyne hlt).1
    · exact absurd (h.distinct y hy x (pruneSelect_mem hselect) hyne hnum) hyx
    · exact hnext hne z hz y hy hgt hyz

/-- The second pass always finds a request. -/
lemma select_isSome (h : Cursor pass newXreqnum next t) (hpass : pass ≠ 0) (hover : ¬ WithinLimits t) :
    pruneSelect next t ≠ none := by
  by_cases hmany : xreqMaxPersistentCount < xreqCountPersistent t
  · obtain ⟨y, hy, hne⟩ := List.countP_pos_iff.1 (Nat.zero_lt_of_lt hmany)
    have hne : y.xreqnum ≠ 0 := of_decide_eq_true hne
    intro hnone
    rw [pruneSelect, if_pos hmany] at hnone
    have hy' := KeyedTable.first_eq_none.1 hnone y hy
    exact absurd (h.second hpass y hy hne) (by simpa using hy')
  · obtain ⟨x, hx, -⟩ := @pruneSelect_few next t hmany hover
    rw [hx]
    exact Option.some_ne_none x

end Cursor

/-- How many turns a pass may still make. -/
def pruneTurns (next : ℕ) (t : XreqTable) : ℕ :=
  (if xreqMaxPersistentCount < xreqCountPersistent t then t.rows.countP fun x => x.xreqnum ≠ 0 ∧ next ≤ x.xreqnum
    else 0) + xreqCountPending t

lemma pruneTurns_le (next : ℕ) (t : XreqTable) : pruneTurns next t ≤ t.rows.length := by
  have hlength := List.length_eq_countP_add_countP (fun x : Xreq => x.xreqnum = 0) (l := t.rows)
  have hpending : xreqCountPending t = t.rows.countP fun x => x.xreqnum = 0 := rfl
  have hnext : t.rows.countP (fun x => x.xreqnum ≠ 0 ∧ next ≤ x.xreqnum) ≤
      t.rows.countP fun x => ¬ (decide (x.xreqnum = 0)) = true :=
    List.countP_mono_left fun x _ hx => by
      simp only [decide_eq_true_eq] at hx ⊢
      exact hx.1
  rw [pruneTurns]
  split_ifs <;> omega

/-- Every turn uses up one. -/
lemma pruneTurns_lt {t t' : XreqTable} (hnext : 1 ≤ next)
    (hselect : pruneSelect next t = some x) (hcount : ∀ p : Xreq → Bool, t'.rows.countP p ≤ t.rows.countP p)
    (hpending : xreqCountPersistent t ≤ xreqMaxPersistentCount → xreqCountPending t' < xreqCountPending t) :
    pruneTurns (x.xreqnum + 1) t' < pruneTurns next t := by
  have hpersistent : xreqCountPersistent t' ≤ xreqCountPersistent t := hcount _
  by_cases hmany : xreqMaxPersistentCount < xreqCountPersistent t
  · have hx : next ≤ x.xreqnum := (pruneSelect_many hmany hselect).1
    have hbehind : t'.rows.countP (fun y => y.xreqnum ≠ 0 ∧ x.xreqnum + 1 ≤ y.xreqnum) <
        t.rows.countP fun y => y.xreqnum ≠ 0 ∧ next ≤ y.xreqnum := by
      refine (hcount _).trans_lt ?_
      have hx₀ : x.xreqnum ≠ 0 := Nat.one_le_iff_ne_zero.1 (hnext.trans hx)
      rw [countP_delete (pruneSelect_mem hselect), countP_delete (pruneSelect_mem hselect)]
      simp only [decide_eq_true_eq, hx₀, hx, ne_eq, not_false_eq_true, true_and, if_pos, Nat.not_succ_le_self, if_false,
        zero_add]
      refine Nat.lt_one_add_iff.2 (List.countP_mono_left fun y _ hy => ?_)
      simp only [decide_eq_true_eq] at hy ⊢
      exact ⟨hy.1, hx.trans (Nat.le_of_succ_le hy.2)⟩
    have hle : xreqCountPending t' ≤ xreqCountPending t := hcount _
    rw [pruneTurns, pruneTurns, if_pos hmany]
    split_ifs <;> omega
  · have hlt := hpending (not_lt.1 hmany)
    rw [pruneTurns, pruneTurns, if_neg hmany, if_neg (fun h => hmany (h.trans_le hpersistent))]
    omega

lemma Cursor.remove_lt {t : XreqTable} (h : Cursor pass newXreqnum next t) (hover : ¬ WithinLimits t)
    (hselect : pruneSelect next t = some x) : pruneTurns (x.xreqnum + 1) (removeXreq t x) < pruneTurns next t := by
  have hx : x ∈ t := pruneSelect_mem hselect
  refine pruneTurns_lt h.pos hselect (fun p => (countP_remove_le t x p).trans (countP_delete_le hx)) fun hfew => ?_
  have hzero : x.xreqnum = 0 := not_not.1 fun hne => absurd ((h.select_xreqnum hover hselect).2 hne) (not_lt.2 hfew)
  have hdelete := pending_delete hx
  rw [if_pos hzero] at hdelete
  have hle : xreqCountPending (removeXreq t x) ≤ xreqCountPending (xreqsDelete t x) := countP_remove_le t x _
  omega

/-- A turn that removes a request and its twin. -/
lemma turn_ends (outputEnv : ℕ → OutputEnv) (st : XreqTable × Saved) (x : Xreq) {P : XreqTable × Saved → Prop}
    {f : XreqTable × Saved → Except SyncError (XreqTable × Saved)}
    (hf : ∀ st₁ st₂, expireXreq outputEnv st x = .ok st₁ → pruneLinked outputEnv st₁ x.linkedSeqnum = .ok st₂ →
      Checks.Ends (fun e => e = .outputs) P (f st₂)) :
    Checks.Ends (fun e => e = .outputs) P
      (expireXreq outputEnv st x >>= fun st => pruneLinked outputEnv st x.linkedSeqnum >>= f) := by
  cases h₁ : expireXreq outputEnv st x with
  | error e => exact .error ((expireXreq_ends outputEnv st x).1 e h₁)
  | ok st₁ =>
    change Checks.Ends _ P (pruneLinked outputEnv st₁ x.linkedSeqnum >>= f)
    cases h₂ : pruneLinked outputEnv st₁ x.linkedSeqnum with
    | error e => exact .error ((pruneLinked_ends outputEnv st₁ x.linkedSeqnum).1 e h₂)
    | ok st₂ => exact hf st₁ st₂ h₁ h₂

lemma prunePass_within (n : ℕ) (h : WithinLimits st.1) : prunePass outputEnv pass newXreqnum n next st = .ok st := by
  cases n with
  | zero => rfl
  | succ n =>
    rw [prunePass]
    exact if_pos ⟨by simpa using h.1, h.2⟩

/-- A turn that finds a request. -/
lemma prunePass_select (n : ℕ) (hcursor : Cursor pass newXreqnum next st.1) (hover : ¬ WithinLimits st.1)
    (hselect : pruneSelect next st.1 = some x) : prunePass outputEnv pass newXreqnum (n + 1) next st =
      if pass = 0 ∧ xreqMaxPersistentCount < xreqCountPersistent st.1 ∧ newXreqnum ≤ x.xreqnum then .ok st
      else if pass = 0 ∧ xreqMaxPersistentCount < xreqCountPersistent st.1 ∧
        x.openAmount = x.maxAmount ∧ x.pendingMatchRate ≠ 0 then
          prunePass outputEnv pass newXreqnum n (x.xreqnum + 1) st
      else expireXreq outputEnv st x >>= fun st =>
        pruneLinked outputEnv st x.linkedSeqnum >>= prunePass outputEnv pass newXreqnum n (x.xreqnum + 1) := by
  have hnum : decide (xreqMaxPersistentCount < xreqCountPersistent st.1) = decide (x.xreqnum ≠ 0) :=
    decide_eq_decide.2 (hcursor.select_xreqnum hover hselect)
  have hselect' : xreqsSelectXreqnum st.1 (if decide (xreqMaxPersistentCount < xreqCountPersistent st.1) = true
      then next else 0) = some x := by
    simp only [decide_eq_true_eq]
    exact hselect
  rw [prunePass, if_neg (fun h => hover ⟨by simpa using h.1, h.2⟩), hselect']
  dsimp only
  rw [if_neg (not_not.2 hnum)]
  simp only [decide_eq_true_eq]

/-- A pass has enough turns, and only a failing refund stops it early. -/
lemma prunePass_ends (outputEnv : ℕ → OutputEnv) (pass newXreqnum n next : ℕ) (st : XreqTable × Saved)
    (hcursor : Cursor pass newXreqnum next st.1) (hn : pruneTurns next st.1 < n) :
    Checks.Ends (fun e => e = .outputs) (fun st' => ∃ log, PruneLoop outputEnv pass newXreqnum next st log st')
      (prunePass outputEnv pass newXreqnum n next st) := by
  induction n generalizing next st with
  | zero => exact absurd hn (Nat.not_lt_zero _)
  | succ n ih =>
    by_cases hwithin : WithinLimits st.1
    · rw [prunePass_within _ hwithin]
      exact .ok ⟨[], .within hwithin⟩
    cases hx : pruneSelect next st.1 with
    | none =>
      have hpass : pass = 0 := not_not.1 fun hpass => hcursor.select_isSome hpass hwithin hx
      have hselect : xreqsSelectXreqnum st.1 (if decide (xreqMaxPersistentCount < xreqCountPersistent st.1) = true
          then next else 0) = none := by
        simp only [decide_eq_true_eq]
        exact hx
      rw [prunePass, if_neg (fun h => hwithin ⟨by simpa using h.1, h.2⟩), hselect, if_pos hpass]
      exact .ok ⟨[], .noneLeft hpass hwithin hx⟩
    | some x =>
      rw [prunePass_select n hcursor hwithin hx]
      split_ifs with hnew hspared
      · exact .ok ⟨[], .isNew hnew.1 hwithin hnew.2.1 hx hnew.2.2⟩
      · have hcursor' := hcursor.turn hwithin hx (fun _ h => h) fun _ => ⟨hspared.1, .inl hspared.2.2⟩
        have hlt : pruneTurns (x.xreqnum + 1) st.1 < pruneTurns next st.1 :=
          pruneTurns_lt hcursor.pos hx (fun _ => le_refl _) fun hfew => absurd hspared.2.1 (not_lt.2 hfew)
        exact (ih _ st hcursor' (hlt.trans_le (Nat.lt_succ_iff.1 hn))).mono fun st' ⟨log, hlog⟩ =>
          ⟨log, .spare hspared.1 hwithin hspared.2.1 hx hspared.2.2 hlog⟩
      · have hremove (hpass : pass = 0) (hmany : xreqMaxPersistentCount < xreqCountPersistent st.1) :
            ¬ Spared newXreqnum x := by
          rintro (hpending | hge)
          · exact hspared ⟨hpass, hmany, hpending⟩
          · exact hnew ⟨hpass, hmany, hge⟩
        refine turn_ends outputEnv st x fun st₁ st₂ hexpire hlinked => ?_
        have hturn : st₂.1 = removeXreq st.1 x := turn_remove hexpire hlinked
        have hcursor' := hcursor.remove hwithin hx
        have hlt := hcursor.remove_lt hwithin hx
        rw [← hturn] at hcursor' hlt
        exact (ih _ st₂ hcursor' (hlt.trans_le (Nat.lt_succ_iff.1 hn))).mono fun st' ⟨log, hlog⟩ =>
          ⟨_, .remove hwithin hx hremove hexpire hlinked hlog⟩

namespace PruneLoop
variable {log : List Removal}

/-- A pass only removes requests, each in the order. -/
lemma removes (h : PruneLoop outputEnv pass newXreqnum next st log st') (hcursor : Cursor pass newXreqnum next st.1) :
    Removes st.1 log st'.1 ∧ (∀ r ∈ log, r.InOrder newXreqnum) ∧ XreqnumsDistinct st'.1 := by
  induction h with
  | within h => exact ⟨.nil _, List.forall_mem_nil _, hcursor.distinct⟩
  | noneLeft hpass hover h => exact ⟨.nil _, List.forall_mem_nil _, hcursor.distinct⟩
  | isNew hpass hover hmany h hnew => exact ⟨.nil _, List.forall_mem_nil _, hcursor.distinct⟩
  | spare hpass hover hmany h hspared rest ih =>
    exact ih (hcursor.turn hover h (fun _ hy => hy) fun _ => ⟨hpass, .inl hspared⟩)
  | remove hover h hspared hexpire hlinked rest ih =>
    have hturn := turn_remove hexpire hlinked
    obtain ⟨hremoves, horder, hdistinct⟩ := ih (hturn ▸ hcursor.remove hover h)
    refine ⟨.cons (pruneSelect_mem h) (hturn ▸ hremoves), ?_, hdistinct⟩
    exact List.forall_mem_cons.2 ⟨hcursor.inOrder hover h hspared, horder⟩

end PruneLoop

end Turns

end CredaCash.Exchange
