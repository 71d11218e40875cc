import CredaCash.Exchange.CheckMatch
import CredaCash.KeyedTable
import Mathlib.Data.Prod.Lex
import Mathlib.Data.String.Basic

/-! The table `Xreqs` of requests: its statements, and what each of them leaves alone. -/

namespace CredaCash.Exchange
open UniFloat

/-- The table `Xreqs`; `Seqnum` is its primary key. -/
abbrev XreqTable := KeyedTable Xreq.seqnum

def signedRate (x : Xreq) (rate : UniFloat) : UniFloat := if x.isBuyer then -rate else rate

/-- The end of the index `Xreqs_OpenRateRequired_Index`, after the assets. -/
def rateOrder (x : Xreq) : UniFloat ×ₗ ℕ ×ₗ ℕ :=
  toLex (signedRate x x.openRateRequired, toLex (x.xreqnum, x.seqnum))

/-- `Xreqs_Xreqnum_Index`. -/
def xreqnumOrder (x : Xreq) : ℕ ×ₗ ℕ := toLex (x.xreqnum, x.seqnum)

/-- `Xreqs_Expire_Index`, with the key of the table. -/
def expireOrder (x : Xreq) : ℕ ×ₗ ℕ ×ₗ ℕ := toLex (x.expireTime, toLex (x.xreqnum, x.seqnum))

/-- The columns of a row that `Xreqs_update` writes. -/
def updateColumns (x row : Xreq) : Xreq :=
  { row with
    linkedSeqnum := x.linkedSeqnum
    openAmount := x.openAmount
    openRateRequired := x.openRateRequired
    pendingMatchEpoch := x.pendingMatchEpoch
    pendingMatchOrder := x.pendingMatchOrder
    pendingMatchAmount := x.pendingMatchAmount
    pendingMatchRate := x.pendingMatchRate
    pendingMatchHoldTime := x.pendingMatchHoldTime
    matchingAmount := x.matchingAmount
    matchingRateRequired := x.matchingRateRequired
    recalcTime := x.recalcTime
    lastMatched := x.lastMatched
    bestAmount := x.bestAmount
    bestRate := x.bestRate
    bestNetRate := x.bestNetRate
    bestOtherSeqnum := x.bestOtherSeqnum
    bestOtherXreqnum := x.bestOtherXreqnum
    bestOtherMatchingAmount := x.bestOtherMatchingAmount
    bestOtherNetRate := x.bestOtherNetRate }

/-- The columns of a row that are written only when it is inserted. -/
def statics (x : Xreq) : Xreq :=
  { updateColumns { type := x.type } x with recalc := false, changed := false }

@[simp] theorem statics_updateColumns (x row : Xreq) : statics (updateColumns x row) = statics row := rfl

section Statics
variable {x y : Xreq} (h : statics y = statics x)
include h

theorem seqnum_of_statics : y.seqnum = x.seqnum := by
  simpa only [statics, updateColumns] using congrArg Xreq.seqnum h

theorem xreqnum_of_statics : y.xreqnum = x.xreqnum := by
  simpa only [statics, updateColumns] using congrArg Xreq.xreqnum h

theorem type_of_statics : y.type = x.type := by
  simpa only [statics, updateColumns] using congrArg Xreq.type h

theorem maxAmount_of_statics : y.maxAmount = x.maxAmount := by
  simpa only [statics, updateColumns] using congrArg Xreq.maxAmount h

theorem isBuyer_of_statics : y.isBuyer = x.isBuyer := by
  rw [Xreq.isBuyer, Xreq.isBuyer, type_of_statics h]

theorem isSeller_of_statics : y.isSeller = x.isSeller := by
  rw [Xreq.isSeller, Xreq.isSeller, type_of_statics h]

end Statics

def xreqsUpdate (t : XreqTable) (x : Xreq) : XreqTable :=
  t.update x.seqnum (updateColumns x) fun row => seqnum_of_statics (statics_updateColumns x row)

theorem select_xreqsUpdate (t : XreqTable) (x : Xreq) (k : ℕ) :
    (xreqsUpdate t x).select k = (t.select k).map fun r => if k = x.seqnum then updateColumns x r else r :=
  KeyedTable.select_update

def xreqsSelectSeqnum (t : XreqTable) (seqnum : ℕ) : Option Xreq := t.select seqnum

def xreqsDelete (t : XreqTable) (x : Xreq) : XreqTable := t.delete x.seqnum

def xreqsSelectObjId (t : XreqTable) (objid : ℕ) : Option Xreq := t.first (·.objid = objid) Xreq.seqnum

/-- `XreqsSelectXreqnum`, for any type. -/
def xreqsSelectXreqnum (t : XreqTable) (xreqnum : ℕ) : Option Xreq := t.first (xreqnum ≤ ·.xreqnum) xreqnumOrder

def xreqCountPersistent (t : XreqTable) : ℕ := t.rows.countP (·.xreqnum ≠ 0)

def xreqCountPending (t : XreqTable) : ℕ := t.rows.countP (·.xreqnum = 0)

/-- The sequence number of an insert, and the table without the row that the insert replaces: one for
the same object that has not been added to the blockchain. -/
def xreqsReplace (t : XreqTable) (next : ℕ) (x : Xreq) : XreqTable × ℕ × Xreq :=
  let (t, x) := match xreqsSelectObjId t x.objid with
    | some old =>
      if old.xreqnum = 0 then (xreqsDelete t old, if x.seqnum = 0 then { x with seqnum := old.seqnum } else x)
      else (t, x)
    | none => (t, x)
  if x.seqnum = 0 then (t, next + 1, { x with seqnum := next }) else (t, next, x)

/-- `XreqsInsert`: the table, the next sequence number and the row, which is none when its number is in use. -/
def xreqsInsert (t : XreqTable) (next : ℕ) (x : Xreq) : XreqTable × ℕ × Option Xreq :=
  let (t, next, x) := xreqsReplace t next x
  match t.insert x with
  | some t => (t, next, some x)
  | none => (t, next, none)

def xreqsClearOldPendingMatches (t : XreqTable) (epoch maxXreqnum : ℕ) : XreqTable :=
  t.map (fun r =>
    if 0 < r.pendingMatchRate ∧ r.pendingMatchEpoch ≠ epoch ∧ r.xreqnum ≤ maxXreqnum
    then { r with pendingMatchRate := 0 } else r) fun r => by split_ifs <;> rfl

/-- `MatchingSelectNextPendingMatch`: the first pending match, with the buyer that the seller has stored. -/
def matchingSelectNextPendingMatch (t : XreqTable) : Option (Xreq × Xreq) :=
  (t.first (fun x => 0 < x.pendingMatchOrder && (t.select x.bestOtherSeqnum).isSome) Xreq.pendingMatchOrder).bind
    fun minor => (t.select minor.bestOtherSeqnum).map fun major => (major, minor)

section Inserts
variable {t t' : XreqTable} {next next' : ℕ} {x x' r : Xreq}

/-- What an insert replaces: at most a row that has not been added to the blockchain; and the sequence number that it
gives to its request. -/
structure Replaces (t : XreqTable) (next : ℕ) (x : Xreq) (t' : XreqTable) (next' : ℕ) (x' : Xreq) : Prop where
  subset : ∀ r ∈ t', r ∈ t
  keeps : ∀ r ∈ t, r.xreqnum ≠ 0 → r ∈ t'
  next_le : next ≤ next'
  row : x' = { x with seqnum := x'.seqnum }
  seqnum : x'.seqnum = x.seqnum ∧ x.seqnum ≠ 0 ∨ x'.seqnum = next ∧ next < next' ∨ ∃ r ∈ t, x'.seqnum = r.seqnum

theorem xreqsReplace_replaces (t : XreqTable) (next : ℕ) (x : Xreq) :
    Replaces t next x (xreqsReplace t next x).1 (xreqsReplace t next x).2.1 (xreqsReplace t next x).2.2 := by
  have hnumber {t' : XreqTable} {y : Xreq} (hsub : ∀ r ∈ t', r ∈ t) (hkeeps : ∀ r ∈ t, r.xreqnum ≠ 0 → r ∈ t')
      (hrow : y = { x with seqnum := y.seqnum })
      (hseq : y.seqnum = x.seqnum ∨ ∃ r ∈ t, y.seqnum = r.seqnum) :
      Replaces t next x (if y.seqnum = 0 then (t', next + 1, { y with seqnum := next }) else (t', next, y)).1
        (if y.seqnum = 0 then (t', next + 1, { y with seqnum := next }) else (t', next, y)).2.1
        (if y.seqnum = 0 then (t', next + 1, { y with seqnum := next }) else (t', next, y)).2.2 := by
    split_ifs with hzero
    · exact ⟨hsub, hkeeps, Nat.le_succ _, by rw [hrow], .inr (.inl ⟨rfl, Nat.lt_succ_self _⟩)⟩
    · refine ⟨hsub, hkeeps, le_rfl, hrow, ?_⟩
      rcases hseq with hseq | hseq
      · exact .inl ⟨hseq, hseq ▸ hzero⟩
      · exact .inr (.inr hseq)
  unfold xreqsReplace
  cases hold : xreqsSelectObjId t x.objid with
  | none => exact hnumber (fun _ h => h) (fun _ h _ => h) rfl (.inl rfl)
  | some old =>
    have hmem := (KeyedTable.mem_of_first hold).1
    dsimp only
    by_cases hx : old.xreqnum = 0
    · simp only [if_pos hx]
      have hsub (r : Xreq) (hr : r ∈ xreqsDelete t old) : r ∈ t := (KeyedTable.mem_delete.1 hr).1
      refine hnumber hsub (fun r hr hne => KeyedTable.mem_delete.2 ⟨hr, fun hkey => ?_⟩) ?_ ?_
      · rw [KeyedTable.eq_of_key hr hmem hkey] at hne
        exact hne hx
      · split_ifs <;> rfl
      · split_ifs with hzero
        · exact .inr ⟨old, hmem, rfl⟩
        · exact .inl rfl
    · simp only [if_neg hx]
      exact hnumber (fun _ h => h) (fun _ h _ => h) rfl (.inl rfl)

/-- An insert adds the row of its request, or finds its number in use. -/
theorem xreqsInsert_cases (t : XreqTable) (next : ℕ) (x : Xreq) :
    ∃ t₁ x₁, Replaces t next x t₁ (xreqsInsert t next x).2.1 x₁ ∧
      ((xreqsInsert t next x).2.2 = none ∧ (xreqsInsert t next x).1 = t₁ ∨
        (xreqsInsert t next x).2.2 = some x₁ ∧ (∀ r ∈ t₁, r.seqnum ≠ x₁.seqnum) ∧
          ∀ r, r ∈ (xreqsInsert t next x).1 ↔ r = x₁ ∨ r ∈ t₁) := by
  have hreplaces := xreqsReplace_replaces t next x
  unfold xreqsInsert
  generalize xreqsReplace t next x = p at hreplaces ⊢
  obtain ⟨t₁, next₁, x₁⟩ := p
  refine ⟨t₁, x₁, ?_⟩
  dsimp only
  cases hinsert : t₁.insert x₁ with
  | none => exact ⟨hreplaces, .inl ⟨rfl, rfl⟩⟩
  | some t' =>
    exact ⟨hreplaces, .inr ⟨rfl, KeyedTable.key_ne_of_insert hinsert, fun r => KeyedTable.mem_of_insert hinsert⟩⟩

end Inserts

end CredaCash.Exchange
