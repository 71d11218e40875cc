import CredaCash.KeyedTable
import Mathlib.Algebra.Order.Monoid.Unbundled.WithTop
import Mathlib.Data.Prod.Lex
import Mathlib.Order.WithBot

/-! The queue of the objects that wait for validation, `Process_Q`. -/

namespace CredaCash.Node

/-- `PROCESS_Q_STATUS_PENDING` and those after it; the flag `PROCESS_Q_STATUS_DONE_FLAG` is a column of its own. -/
inductive ProcessQStatus where
  | pending
  | hold
  | valid
  | invalid
  deriving DecidableEq, Repr

/-- A row of `Process_Q`. Only blocks have a prior object and a level; the object itself is not looked into. -/
structure ProcessQRow where
  objId : ℕ
  priorOid : Option ℕ := none
  level : WithBot ℕ := ⊥
  auxInt : ℕ := 0
  connId : ℕ := 0
  callbackId : ℕ := 0
  status : ProcessQStatus := .pending
  done : Bool := false
  priority : ℕ := 0
  seqnum : ℕ := 0
  deriving DecidableEq

abbrev ProcessQ := KeyedTable ProcessQRow.objId

/-- A row that the status of a statement selects: one with the flag set has none of the statuses. -/
def ProcessQRow.hasStatus (r : ProcessQRow) (status : ProcessQStatus) : Bool := r.status = status && !r.done

/-- `Process_Q_update_queue`. -/
def updateQueue (new row : ProcessQRow) : ProcessQRow :=
  { row with
    priority := min row.priority new.priority
    seqnum := max row.seqnum new.seqnum
    auxInt := row.auxInt + new.auxInt
    connId := max row.connId new.connId
    callbackId := if row.connId > new.connId then row.callbackId else new.callbackId }

/-- `ProcessQEnqueueValidate`, with its result: 0 for an object that is new, 1 for one that has its row already. -/
def processQEnqueueValidate (q : ProcessQ) (row : ProcessQRow) (isBlockTx : Bool) : ProcessQ × ℤ :=
  match q.insert row with
  | some q' => (q', 0)
  | none => (if isBlockTx then q.update row.objId (updateQueue row) fun _ => rfl else q, 1)

/-- `Process_Q_update`; a null leaves `AuxInt` as it is. -/
def setStatus (status : ProcessQStatus) (auxInt : Option ℕ) (row : ProcessQRow) : ProcessQRow :=
  { row with status := status, done := false, auxInt := auxInt.getD row.auxInt }

/-- The order in which rows are taken: priority, level from the highest, sequence number. -/
def nextOrder (row : ProcessQRow) : ℕ ×ₗ (WithBot ℕ)ᵒᵈ ×ₗ ℕ :=
  toLex (row.priority, toLex (OrderDual.toDual row.level, row.seqnum))

/-- `ProcessQGetNextValidateObj`: the next pending row, and the table with that row on hold. -/
def processQGetNextValidateObj (q : ProcessQ) : Option (ProcessQRow × ProcessQ) :=
  (q.first (·.hasStatus .pending) nextOrder).map fun row =>
    (row, q.update row.objId (setStatus .hold none) fun _ => rfl)

def processQUpdateObj (q : ProcessQ) (oid : ℕ) (status : ProcessQStatus) (auxInt : ℕ) : ProcessQ :=
  q.update oid (setStatus status (some auxInt)) fun _ => rfl

/-- `Process_Q_update_priorobj` on one row. -/
def releaseRow (oid : ℕ) (row : ProcessQRow) : ProcessQRow :=
  if row.hasStatus .hold && row.priorOid = some oid then { row with status := .pending } else row

theorem objId_releaseRow (oid : ℕ) (row : ProcessQRow) : (releaseRow oid row).objId = row.objId := by
  unfold releaseRow
  split_ifs <;> rfl

def processQUpdateSubsequentBlockStatus (q : ProcessQ) (oid : ℕ) : ProcessQ :=
  q.map (releaseRow oid) (objId_releaseRow oid)

/-- `ProcessQSelectAndDelete`: the row with its counts and callback, and the table without it. -/
def processQSelectAndDelete (q : ProcessQ) (oid : ℕ) : Option (ProcessQRow × ProcessQ) :=
  (q.select oid).map fun row => (row, q.delete oid)

/-- `Level < ?1`, which is not true of a null. -/
def ProcessQRow.isBelow (row : ProcessQRow) (level : ℕ) : Bool := ⊥ < row.level && row.level < (level : WithBot ℕ)

/-- `Process_Q_done` on one row. -/
def setDone (level : ℕ) (row : ProcessQRow) : ProcessQRow := { row with done := row.done || row.isBelow level }

def processQDone (q : ProcessQ) (level : ℕ) : ProcessQ := q.map (setDone level) fun _ => rfl

def processQPruneLevel (q : ProcessQ) (level : ℕ) : ProcessQ := q.filter fun row => !row.isBelow level

section Lemmas
variable {q q' : ProcessQ} {row : ProcessQRow} {oid : ℕ}

/-- What `ProcessQEnqueueValidate` does with an object that has no row. -/
theorem enqueue_new (new : ProcessQRow) (h : q.select new.objId = none) (isBlockTx : Bool) :
    ∃ q', q.insert new = some q' ∧ processQEnqueueValidate q new isBlockTx = (q', 0) := by
  obtain ⟨q', hq'⟩ := KeyedTable.insert_isSome (KeyedTable.select_eq_none.1 h)
  exact ⟨q', hq', by simp only [processQEnqueueValidate, hq']⟩

/-- What it does with an object that has one. -/
theorem enqueue_queued (new : ProcessQRow) (h : q.select new.objId = some row) (isBlockTx : Bool) :
    processQEnqueueValidate q new isBlockTx =
      (if isBlockTx then q.update new.objId (updateQueue new) fun _ => rfl else q, 1) := by
  have hinsert : q.insert new = none := by
    obtain ⟨hrow, hkey⟩ := KeyedTable.select_eq_some.1 h
    unfold KeyedTable.insert
    rw [dif_pos (List.mem_map.2 ⟨row, hrow, hkey⟩)]
  simp only [processQEnqueueValidate, hinsert]

theorem processQGetNextValidateObj_eq_some :
    processQGetNextValidateObj q = some (row, q') →
      row ∈ q ∧ row.hasStatus .pending = true ∧
        q' = q.update row.objId (setStatus .hold none) fun _ => rfl := by
  intro h
  obtain ⟨row', hfirst, heq⟩ := Option.map_eq_some_iff.1 h
  cases heq
  exact ⟨(KeyedTable.mem_of_first hfirst).1, (KeyedTable.mem_of_first hfirst).2, rfl⟩

theorem mem_of_processQGetNextValidateObj (h : processQGetNextValidateObj q = some (row, q')) {r : ProcessQRow} :
    r ∈ q' ↔ ∃ a ∈ q, (if a.objId = row.objId then setStatus .hold none a else a) = r := by
  obtain ⟨-, -, rfl⟩ := processQGetNextValidateObj_eq_some h
  exact KeyedTable.mem_update

theorem mem_processQDone {level : ℕ} : row ∈ processQDone q level ↔ ∃ a ∈ q, setDone level a = row :=
  KeyedTable.mem_map

theorem mem_processQUpdateSubsequent :
    row ∈ processQUpdateSubsequentBlockStatus q oid ↔ ∃ a ∈ q, releaseRow oid a = row := KeyedTable.mem_map

/-- A pending row is offered, unless another one comes before it. -/
theorem processQGetNextValidateObj_isSome (hrow : row ∈ q) (h : row.hasStatus .pending = true) :
    (processQGetNextValidateObj q).isSome = true := by
  unfold processQGetNextValidateObj
  rw [Option.isSome_map, Option.isSome_iff_ne_none]
  intro hnone
  have := KeyedTable.first_eq_none.1 hnone row hrow
  rw [h] at this
  cases this

theorem mem_processQUpdateObj {status : ProcessQStatus} {auxInt : ℕ} :
    row ∈ processQUpdateObj q oid status auxInt ↔
      ∃ a ∈ q, (if a.objId = oid then setStatus status (some auxInt) a else a) = row := KeyedTable.mem_update

theorem processQSelectAndDelete_eq_some :
    processQSelectAndDelete q oid = some (row, q') ↔ q.select oid = some row ∧ q' = q.delete oid := by
  unfold processQSelectAndDelete
  rw [Option.map_eq_some_iff]
  constructor
  · rintro ⟨row', hrow, heq⟩
    cases heq
    exact ⟨hrow, rfl⟩
  · rintro ⟨hrow, rfl⟩
    exact ⟨row, hrow, rfl⟩

end Lemmas

end CredaCash.Node
