import CredaCash.Machine
import CredaCash.Node.ProcessQueue

/-! The transactions of a block that wait for validation, and their counter `block_txs_pending`. -/

namespace CredaCash.Node
open KeyedTable Machine

/-- The queue of the transactions while threads enqueue and validate them. -/
structure TxQueue where
  processQ : ProcessQ
  /-- The static `sequence` of `ProcessQEnqueueValidate`. -/
  sequence : ℕ
  validObjs : List ℕ
  blockTxsPending : ℤ
  /-- The objects that a thread has taken from the queue and not yet finished. -/
  validating : List ℕ
  /-- The transactions of the current block that went into the queue and have not left it: no part of the code. -/
  blockTxs : List ℕ

def TxQueue.init : TxQueue := ⟨KeyedTable.empty, 0, [], 0, [], []⟩

/-- What happens at the queue, one event for each section under `processtx_mutex` or the lock of the queue. -/
inductive TxQueueEvent where
  | initBlockScan
  | txEnqueueValidate (isBlockTx : Bool) (priority oid : ℕ) (inXreqs : Bool) (connIndex callbackId : ℕ)
  | getNextValidateObj
  | validateDone (oid : ℕ) (validated : Bool)
  | validObjsInsert (oid : ℕ)
  | validObjsDelete (oid : ℕ)

/-- The row that `TxEnqueueValidate` inserts. -/
def txRow (isBlockTx : Bool) (priority oid connIndex callbackId seqnum : ℕ) : ProcessQRow where
  objId := oid
  auxInt := isBlockTx.toNat
  connId := connIndex
  callbackId := callbackId
  priority := priority
  seqnum := seqnum

/-- `TxEnqueueValidate`, with its result: 1 for a transaction that is already valid. -/
def txEnqueueValidate (s : TxQueue) (isBlockTx : Bool) (priority oid : ℕ) (inXreqs : Bool)
    (connIndex callbackId : ℕ) : TxQueue × ℤ :=
  if inXreqs || s.validObjs.contains oid then (s, 1)
  else
    let (q, rc) := processQEnqueueValidate s.processQ (txRow isBlockTx priority oid connIndex callbackId s.sequence)
      isBlockTx
    ({ s with
        processQ := q
        sequence := s.sequence + 1
        blockTxsPending := if rc = 0 ∧ isBlockTx then s.blockTxsPending + 1 else s.blockTxsPending
        blockTxs := if isBlockTx then oid :: s.blockTxs else s.blockTxs }, 0)

/-- The counter after `count` is taken from it: `ThreadProc` sets it back to zero when it goes below. -/
def decrementPending (pending : ℤ) (count : ℕ) : ℤ :=
  let btp := pending - count
  if count ≠ 0 ∧ btp < 0 then btp - btp else btp

/-- The last part of `ThreadProc`, after the validation of an object; none where `CCASSERTZ(rc)` fails. -/
def validateDone (s : TxQueue) (oid : ℕ) (validated : Bool) : Option TxQueue :=
  (processQSelectAndDelete s.processQ oid).map fun (row, q) =>
    { s with
      processQ := q
      validObjs := if validated && !s.validObjs.contains oid then oid :: s.validObjs else s.validObjs
      blockTxsPending := decrementPending s.blockTxsPending row.auxInt
      validating := s.validating.erase oid
      blockTxs := s.blockTxs.filter (· ≠ oid) }

/-- `WaitForBlockTxValidation` returns, as long as the node is not shutting down. -/
def waitReturns (s : TxQueue) : Bool := !(0 < s.blockTxsPending)

def txQueueStep (s : TxQueue) : TxQueueEvent → Option TxQueue
  | .initBlockScan => if waitReturns s then some { s with blockTxs := [] } else none
  | .txEnqueueValidate isBlockTx priority oid inXreqs connIndex callbackId =>
    some (txEnqueueValidate s isBlockTx priority oid inXreqs connIndex callbackId).1
  | .getNextValidateObj => (processQGetNextValidateObj s.processQ).map fun (row, q) =>
    { s with processQ := q, validating := row.objId :: s.validating }
  | .validateDone oid validated => if oid ∈ s.validating then validateDone s oid validated else none
  | .validObjsInsert oid => some { s with validObjs := oid :: s.validObjs }
  | .validObjsDelete oid => some { s with validObjs := s.validObjs.filter (· ≠ oid) }

/-- The counts of pending blocks in the rows of the queue. -/
def pendingTotal (s : TxQueue) : ℕ := s.processQ.total ProcessQRow.auxInt

/-- What the counter is for: it has the count of the rows, and whoever waits for it to reach zero finds that no
transaction of the current block is queued or being validated. -/
structure CounterExact (s : TxQueue) : Prop where
  counter : s.blockTxsPending = pendingTotal s
  nonneg : 0 ≤ s.blockTxsPending
  wait : waitReturns s = true → s.blockTxs = []

/-- The scan of a block enqueues a transaction that is in the queue already. -/
def enqueuesQueued (s : TxQueue) : TxQueueEvent → Bool
  | .txEnqueueValidate isBlockTx _ oid inXreqs _ _ =>
    isBlockTx && !(inXreqs || s.validObjs.contains oid) && (s.processQ.select oid).isSome
  | _ => false

/-- What every step keeps as long as no block enqueues a transaction that is queued: the counter is the count of the
rows, and the transactions of the block have rows that count. -/
structure Counted (s : TxQueue) : Prop where
  counter : s.blockTxsPending = pendingTotal s
  row : ∀ oid ∈ s.blockTxs, ∃ row ∈ s.processQ, row.objId = oid ∧ row.auxInt ≠ 0

theorem Counted.exact {s : TxQueue} (h : Counted s) : CounterExact s where
  counter := h.counter
  nonneg := by
    rw [h.counter]
    exact Int.natCast_nonneg _
  wait := fun hwait => by
    refine List.eq_nil_iff_forall_not_mem.2 fun oid hoid => ?_
    obtain ⟨row, hrow, -, hcount⟩ := h.row oid hoid
    have hle : row.auxInt ≤ pendingTotal s := le_total hrow
    have hpending : ¬ 0 < s.blockTxsPending := by simpa [waitReturns] using hwait
    have := h.counter
    omega

section Steps
variable {s s' : TxQueue} {oid count : ℕ} {pending : ℤ} {e : TxQueueEvent}

theorem decrementPending_of_le (h : (count : ℤ) ≤ pending) : decrementPending pending count = pending - count := by
  unfold decrementPending
  rw [if_neg]
  omega

/-- The rows keep their counts when a statement changes other columns. -/
theorem Counted.of_update {q : ProcessQ} {validating : List ℕ} (h : Counted s)
    (htotal : q.total ProcessQRow.auxInt = s.processQ.total ProcessQRow.auxInt)
    (hrow : ∀ r ∈ s.processQ, ∃ r' ∈ q, r'.objId = r.objId ∧ r'.auxInt = r.auxInt) :
    Counted { s with processQ := q, validating := validating } where
  counter := h.counter.trans (congrArg Nat.cast htotal.symm)
  row := fun oid hoid => by
    obtain ⟨row, hmem, hkey, hne⟩ := h.row oid hoid
    obtain ⟨row', hmem', hkey', haux⟩ := hrow row hmem
    exact ⟨row', hmem', hkey'.trans hkey, haux ▸ hne⟩

/-- A transaction that is new to the queue: its row has the count that goes to the counter. -/
theorem Counted.insert {q : ProcessQ} {new : ProcessQRow} (h : Counted s) (hinsert : s.processQ.insert new = some q)
    (sequence : ℕ) :
    Counted
      { s with
        processQ := q
        sequence := sequence
        blockTxsPending := s.blockTxsPending + new.auxInt
        blockTxs := if new.auxInt ≠ 0 then new.objId :: s.blockTxs else s.blockTxs } where
  counter := by
    have htotal := total_insert (f := ProcessQRow.auxInt) hinsert
    have hcounter := h.counter
    unfold pendingTotal at hcounter ⊢
    dsimp only
    omega
  row := fun oid hoid => by
    have hold : oid ∈ s.blockTxs → ∃ row ∈ q, row.objId = oid ∧ row.auxInt ≠ 0 := fun hmem => by
      obtain ⟨row, hrow, hkey, hne⟩ := h.row oid hmem
      exact ⟨row, (mem_of_insert hinsert).2 (.inr hrow), hkey, hne⟩
    dsimp only at hoid
    split_ifs at hoid with hne
    · rcases List.mem_cons.1 hoid with rfl | hmem
      · exact ⟨new, (mem_of_insert hinsert).2 (.inl rfl), rfl, hne⟩
      · exact hold hmem
    · exact hold hoid

theorem Counted.txEnqueueValidate {isBlockTx inXreqs : Bool} {priority connIndex callbackId : ℕ} (h : Counted s)
    (hqueued : enqueuesQueued s (.txEnqueueValidate isBlockTx priority oid inXreqs connIndex callbackId) = false) :
    Counted (txEnqueueValidate s isBlockTx priority oid inXreqs connIndex callbackId).1 := by
  unfold Node.txEnqueueValidate
  by_cases hvalid : (inXreqs || s.validObjs.contains oid) = true
  · rw [if_pos hvalid]
    exact h
  rw [if_neg hvalid]
  cases hselect : s.processQ.select oid with
  | none =>
    obtain ⟨q, hinsert, henqueue⟩ :=
      enqueue_new (txRow isBlockTx priority oid connIndex callbackId s.sequence) hselect isBlockTx
    rw [henqueue]
    have hnew := h.insert hinsert (s.sequence + 1)
    cases isBlockTx with
    | false => simpa [txRow] using hnew
    | true => simpa [txRow] using hnew
  | some row =>
    cases isBlockTx with
    | true =>
      rw [enqueuesQueued, Bool.eq_false_iff.2 hvalid, hselect] at hqueued
      cases hqueued
    | false =>
      rw [enqueue_queued (txRow false priority oid connIndex callbackId s.sequence) hselect]
      exact ⟨h.counter, h.row⟩

theorem Counted.validateDone {validated : Bool} (h : Counted s) (hdone : validateDone s oid validated = some s') :
    Counted s' := by
  obtain ⟨⟨row, q⟩, hdelete, rfl⟩ := Option.map_eq_some_iff.1 hdone
  obtain ⟨hrow, rfl⟩ := processQSelectAndDelete_eq_some.1 hdelete
  have htotal := total_delete (f := ProcessQRow.auxInt) hrow
  have hcounter := h.counter
  unfold pendingTotal at hcounter
  refine ⟨?_, fun o ho => ?_⟩
  · have hle : (row.auxInt : ℤ) ≤ s.blockTxsPending := by omega
    simp only [pendingTotal, decrementPending_of_le hle]
    omega
  · obtain ⟨ho, hne⟩ := List.mem_filter.1 ho
    obtain ⟨row', hrow', hkey, hcount⟩ := h.row o ho
    exact ⟨row', mem_delete.2 ⟨hrow', hkey ▸ of_decide_eq_true hne⟩, hkey, hcount⟩

theorem Counted.step (h : Counted s) (hqueued : enqueuesQueued s e = false) (hstep : txQueueStep s e = some s') :
    Counted s' := by
  cases e with
  | initBlockScan =>
    simp only [txQueueStep] at hstep
    split_ifs at hstep
    cases hstep
    exact ⟨h.counter, fun _ hoid => absurd hoid List.not_mem_nil⟩
  | txEnqueueValidate isBlockTx priority oid inXreqs connIndex callbackId =>
    cases hstep
    exact h.txEnqueueValidate hqueued
  | getNextValidateObj =>
    obtain ⟨⟨row, q⟩, hnext, rfl⟩ := Option.map_eq_some_iff.1 hstep
    obtain ⟨-, -, rfl⟩ := processQGetNextValidateObj_eq_some hnext
    refine h.of_update ?_ fun r hr => ?_
    · refine total_map fun r _ => ?_
      split_ifs <;> rfl
    · refine ⟨_, update_mem hr row.objId (setStatus .hold none) fun _ => rfl, ?_⟩
      split_ifs <;> exact ⟨rfl, rfl⟩
  | validateDone oid validated =>
    simp only [txQueueStep] at hstep
    split_ifs at hstep
    exact h.validateDone hstep
  | validObjsInsert oid =>
    cases hstep
    exact ⟨h.counter, h.row⟩
  | validObjsDelete oid =>
    cases hstep
    exact ⟨h.counter, h.row⟩

end Steps

theorem Counted.init : Counted TxQueue.init := ⟨rfl, fun _ h => absurd h List.not_mem_nil⟩

/-- The counter is exact in every state that is reached while no block enqueues a transaction that is in the queue. -/
theorem blockTxsPending_exact (es : List TxQueueEvent) {s : TxQueue} (h : run txQueueStep .init es = some s)
    (hmeets : Meets txQueueStep (fun s e => enqueuesQueued s e = false) .init es) : CounterExact s :=
  (run_induct (fun _ _ _ => Counted.step) Counted.init hmeets h).exact

/-- A block with one transaction, which a thread has begun to validate. -/
def scanOne : List TxQueueEvent := [.initBlockScan, .txEnqueueValidate true 2 1 false 0 0, .getNextValidateObj]

theorem blockTxsPending_exact_scanOne : ∃ s, run txQueueStep .init scanOne = some s ∧ CounterExact s :=
  ⟨_, rfl, blockTxsPending_exact scanOne rfl (by decide +kernel)⟩

/-- A wallet sends a transaction, and a block with it is scanned before a thread has validated it. -/
def scanQueued : List TxQueueEvent :=
  [.txEnqueueValidate false 5 1 false 1 0, .initBlockScan, .txEnqueueValidate true 2 1 false 0 0]

/-- The scan leaves the counter at zero, with the count of the row at one, and does not wait for the transaction. -/
theorem scanQueued_not_exact : ∃ s, run txQueueStep .init scanQueued = some s ∧ s.blockTxsPending = 0 ∧
    pendingTotal s = 1 ∧ waitReturns s = true ∧ s.blockTxs = [1] ∧ ¬ CounterExact s :=
  ⟨_, rfl, rfl, rfl, rfl, rfl, fun h => by cases h.counter⟩

/-- Each object that a thread is validating has its row, on hold. -/
structure Taken (s : TxQueue) : Prop where
  nodup : s.validating.Nodup
  row : ∀ oid ∈ s.validating, ∃ row ∈ s.processQ, row.objId = oid ∧ row.status = .hold

section Assertion
variable {s s' : TxQueue} {oid : ℕ} {e : TxQueueEvent}

theorem Taken.txEnqueueValidate {isBlockTx inXreqs : Bool} {priority connIndex callbackId : ℕ} (h : Taken s) :
    Taken (txEnqueueValidate s isBlockTx priority oid inXreqs connIndex callbackId).1 := by
  unfold Node.txEnqueueValidate
  by_cases hvalid : (inXreqs || s.validObjs.contains oid) = true
  · rw [if_pos hvalid]
    exact h
  rw [if_neg hvalid]
  cases hselect : s.processQ.select oid with
  | none =>
    obtain ⟨q, hinsert, henqueue⟩ :=
      enqueue_new (txRow isBlockTx priority oid connIndex callbackId s.sequence) hselect isBlockTx
    rw [henqueue]
    refine ⟨h.nodup, fun o ho => ?_⟩
    obtain ⟨row, hrow, hkey, hhold⟩ := h.row o ho
    exact ⟨row, (mem_of_insert hinsert).2 (.inr hrow), hkey, hhold⟩
  | some row =>
    rw [enqueue_queued (txRow isBlockTx priority oid connIndex callbackId s.sequence) hselect]
    refine ⟨h.nodup, fun o ho => ?_⟩
    obtain ⟨row, hrow, hkey, hhold⟩ := h.row o ho
    cases isBlockTx with
    | false => exact ⟨row, hrow, hkey, hhold⟩
    | true =>
      refine ⟨_, update_mem hrow oid (updateQueue _) fun _ => rfl, ?_⟩
      split_ifs <;> exact ⟨hkey, hhold⟩

theorem Taken.getNextValidateObj {row : ProcessQRow} {q : ProcessQ} (h : Taken s)
    (hnext : processQGetNextValidateObj s.processQ = some (row, q)) :
    Taken { s with processQ := q, validating := row.objId :: s.validating } := by
  obtain ⟨hrow, hpending, rfl⟩ := processQGetNextValidateObj_eq_some hnext
  refine ⟨List.nodup_cons.2 ⟨fun hmem => ?_, h.nodup⟩, fun o ho => ?_⟩
  · obtain ⟨row', hrow', hkey, hhold⟩ := h.row _ hmem
    rw [KeyedTable.eq_of_key hrow' hrow hkey] at hhold
    simp [ProcessQRow.hasStatus, hhold] at hpending
  · rcases List.mem_cons.1 ho with rfl | ho
    · refine ⟨_, update_mem hrow row.objId (setStatus .hold none) fun _ => rfl, ?_⟩
      rw [if_pos rfl]
      exact ⟨rfl, rfl⟩
    · obtain ⟨row', hrow', hkey, hhold⟩ := h.row o ho
      refine ⟨_, update_mem hrow' row.objId (setStatus .hold none) fun _ => rfl, ?_⟩
      split_ifs
      · exact ⟨hkey, rfl⟩
      · exact ⟨hkey, hhold⟩

theorem Taken.validateDone {validated : Bool} (h : Taken s) (hdone : validateDone s oid validated = some s') :
    Taken s' := by
  obtain ⟨⟨row, q⟩, hdelete, rfl⟩ := Option.map_eq_some_iff.1 hdone
  obtain ⟨-, rfl⟩ := processQSelectAndDelete_eq_some.1 hdelete
  refine ⟨h.nodup.erase oid, fun o ho => ?_⟩
  obtain ⟨hne, ho⟩ := h.nodup.mem_erase_iff.1 ho
  obtain ⟨row', hrow', hkey, hhold⟩ := h.row o ho
  exact ⟨row', mem_delete.2 ⟨hrow', hkey ▸ hne⟩, hkey, hhold⟩

theorem Taken.step (h : Taken s) (hstep : txQueueStep s e = some s') : Taken s' := by
  cases e with
  | initBlockScan =>
    simp only [txQueueStep] at hstep
    split_ifs at hstep
    cases hstep
    exact ⟨h.nodup, h.row⟩
  | txEnqueueValidate isBlockTx priority oid inXreqs connIndex callbackId =>
    cases hstep
    exact h.txEnqueueValidate
  | getNextValidateObj =>
    obtain ⟨⟨row, q⟩, hnext, rfl⟩ := Option.map_eq_some_iff.1 hstep
    exact h.getNextValidateObj hnext
  | validateDone oid validated =>
    simp only [txQueueStep] at hstep
    split_ifs at hstep
    exact h.validateDone hstep
  | validObjsInsert oid =>
    cases hstep
    exact ⟨h.nodup, h.row⟩
  | validObjsDelete oid =>
    cases hstep
    exact ⟨h.nodup, h.row⟩

end Assertion

/-- The deletion at the end of `ThreadProc`, which is not allowed to fail, does not fail in any run. -/
theorem validateDone_isSome {es : List TxQueueEvent} {s : TxQueue} (h : run txQueueStep .init es = some s) {oid : ℕ}
    (hoid : oid ∈ s.validating) (validated : Bool) : (validateDone s oid validated).isSome = true := by
  have htaken : Taken s := run_invariant (fun _ _ _ => Taken.step) ⟨List.nodup_nil, by simp [TxQueue.init]⟩ h
  obtain ⟨row, hrow, rfl, -⟩ := htaken.row oid hoid
  simp [validateDone, processQSelectAndDelete, select_key hrow]

end CredaCash.Node
