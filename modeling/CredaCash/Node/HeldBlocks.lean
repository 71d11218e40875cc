import CredaCash.Machine
import CredaCash.Node.ProcessQueue

/-! Blocks that wait on hold for their prior block: the threads that validate blocks and the thread of the witness. -/

namespace CredaCash.Node
open KeyedTable Machine

/-- What the queue needs of a block. The object id, which is a hash of the block, determines it. -/
structure BlockHeader where
  priorOid : ℕ
  level : ℕ

/-- How a validation ends that found the prior block. -/
inductive BlockResult where
  | valid
  /-- The result 1: the node shuts down, a serial number is in use, or `TempSerialnumUpdate` fails. -/
  | skip
  /-- A negative result. -/
  | invalid
  /-- The timestamp lies in the future: the row is deleted, and the result is negative. -/
  | future
  deriving DecidableEq

/-- Where a thread is in `ThreadProc`, `BlockValidate` and `ValidObjsBlockInsert`, with the id of its block. -/
inductive BlockTask where
  | idle
  /-- The block is taken from the queue. -/
  | selected (oid : ℕ)
  /-- The level of the block is not too old. -/
  | checked (oid : ℕ)
  /-- `ValidObjsGetObj` did not find the prior block; the result is going to be 2. -/
  | held (oid : ℕ)
  | found (oid : ℕ)
  /-- The result is negative; `ThreadProc` has not yet set the status. -/
  | rejected (oid : ℕ)
  /-- Before `ValidObjsInsert`. -/
  | inserting (oid : ℕ) (enqueue : Bool)
  /-- Before the row of the block is made valid. -/
  | inserted (oid : ℕ) (enqueue : Bool)
  /-- Before `ProcessQUpdateSubsequentBlockStatus`. -/
  | updating (oid : ℕ)
  deriving DecidableEq

structure BlockQueue where
  processQ : ProcessQ
  /-- The static `sequence` of `ProcessQEnqueueValidate`. -/
  sequence : ℕ
  validObjs : List ℕ
  /-- `ComputePruneLevel(1, BLOCK_PRUNE_ROUNDS)`. -/
  pruneLevel : ℕ
  threads : List BlockTask
  /-- The blocks of which a validation ended with the result 1, or which were in `ValidObjs` when a validation was
  about to insert them: no part of the code. -/
  skipped : List ℕ

def BlockQueue.init (nthreads : ℕ) : BlockQueue := ⟨KeyedTable.empty, 0, [], 1, List.replicate nthreads .idle, []⟩

inductive BlockQueueEvent where
  /-- A block is downloaded. -/
  | enqueueValidate (oid priority connIndex callbackId : ℕ)
  | getNextValidateObj (thread : ℕ)
  | checkLevel (thread : ℕ)
  /-- The block names a witness that does not exist. -/
  | badWitness (thread : ℕ)
  /-- `BlockValidate` needs the prior block, which may be linked to the block already. -/
  | findPrior (thread : ℕ) (linked : Bool)
  /-- `BlockValidate` returns 2. -/
  | validateHeld (thread : ℕ)
  | validateDone (thread : ℕ) (result : BlockResult)
  | setInvalid (thread : ℕ)
  /-- The witness has made a block. -/
  | newBlock (thread oid : ℕ) (enqueue : Bool)
  | validObjsInsert (thread : ℕ)
  | setValid (thread : ℕ)
  | updateSubsequent (thread : ℕ)
  /-- A block becomes indelible. -/
  | confirm (pruneLevel : ℕ)
  | pruneQueue (level : ℕ)
  | doneQueue (level : ℕ)
  | validObjsDelete (oid : ℕ)

def BlockQueue.setThread (s : BlockQueue) (thread : ℕ) (task : BlockTask) : BlockQueue :=
  { s with threads := s.threads.set thread task }

def BlockQueue.skip (s : BlockQueue) (oid : ℕ) : BlockQueue := { s with skipped := oid :: s.skipped }

variable (wire : ℕ → BlockHeader)

/-- The row of a block. -/
def blockRow (oid : ℕ) (status : ProcessQStatus) (priority connIndex callbackId seqnum : ℕ) : ProcessQRow where
  objId := oid
  priorOid := some (wire oid).priorOid
  level := ((wire oid).level : WithBot ℕ)
  connId := connIndex
  callbackId := callbackId
  status := status
  priority := priority
  seqnum := seqnum

/-- `ProcessQEnqueueValidate` of a block. -/
def enqueueBlock (s : BlockQueue) (oid : ℕ) (status : ProcessQStatus) (priority connIndex callbackId : ℕ) :
    BlockQueue :=
  { s with
    processQ := (processQEnqueueValidate s.processQ
      (blockRow wire oid status priority connIndex callbackId s.sequence) false).1
    sequence := s.sequence + 1 }

/-- `ValidObjsInsert`, which refuses an object that it has. -/
def insertBlock (s : BlockQueue) (thread oid : ℕ) (enqueue : Bool) : BlockQueue :=
  if s.validObjs.contains oid then (s.skip oid).setThread thread .idle
  else { s with validObjs := oid :: s.validObjs }.setThread thread (.inserted oid enqueue)

/-- The row of a block that is in `ValidObjs`. -/
def setBlockValid (s : BlockQueue) (oid : ℕ) (enqueue : Bool) : BlockQueue :=
  if enqueue then enqueueBlock wire s oid .valid 0 0 0
  else { s with processQ := processQUpdateObj s.processQ oid .valid 0 }

/-- What a thread does with the result of a validation that found the prior block. -/
def endValidation (s : BlockQueue) (thread oid : ℕ) : BlockResult → BlockQueue
  | .valid => s.setThread thread (.inserting oid false)
  | .skip => (s.skip oid).setThread thread .idle
  | .invalid => s.setThread thread (.rejected oid)
  | .future => { s with processQ := s.processQ.delete oid }.setThread thread (.rejected oid)

/-- The step of a thread that is at some place. -/
def taskStep (s : BlockQueue) (thread : ℕ) : BlockTask → BlockQueueEvent → Option BlockQueue
  | .idle, .getNextValidateObj _ => (processQGetNextValidateObj s.processQ).map fun (row, q) =>
    { s with processQ := q }.setThread thread (.selected row.objId)
  | .idle, .newBlock _ oid enqueue => some (s.setThread thread (.inserting oid enqueue))
  | .selected oid, .checkLevel _ => some <|
    if (wire oid).level < s.pruneLevel then (s.skip oid).setThread thread .idle
    else s.setThread thread (.checked oid)
  | .checked oid, .badWitness _ => some (s.setThread thread (.rejected oid))
  | .checked oid, .findPrior _ linked => some <|
    if linked || s.validObjs.contains (wire oid).priorOid then s.setThread thread (.found oid)
    else s.setThread thread (.held oid)
  | .held _, .validateHeld _ => some (s.setThread thread .idle)
  | .found oid, .validateDone _ result => some (endValidation s thread oid result)
  | .rejected oid, .setInvalid _ => some
    ({ s with processQ := processQUpdateObj s.processQ oid .invalid 0 }.setThread thread .idle)
  | .inserting oid enqueue, .validObjsInsert _ => some (insertBlock s thread oid enqueue)
  | .inserted oid enqueue, .setValid _ => some ((setBlockValid wire s oid enqueue).setThread thread (.updating oid))
  | .updating oid, .updateSubsequent _ => some
    ({ s with processQ := processQUpdateSubsequentBlockStatus s.processQ oid }.setThread thread .idle)
  | _, _ => none

/-- The thread of an event, none for what other threads do. -/
def BlockQueueEvent.thread : BlockQueueEvent → Option ℕ
  | .getNextValidateObj t | .checkLevel t | .badWitness t | .findPrior t _ | .validateHeld t | .validateDone t _
  | .setInvalid t | .newBlock t _ _ | .validObjsInsert t | .setValid t | .updateSubsequent t => some t
  | _ => none

def blockQueueStep (s : BlockQueue) (e : BlockQueueEvent) : Option BlockQueue :=
  match e with
  | .enqueueValidate oid priority connIndex callbackId =>
    some (enqueueBlock wire s oid .pending priority connIndex callbackId)
  | .confirm pruneLevel => some { s with pruneLevel := max s.pruneLevel pruneLevel }
  | .pruneQueue level => some { s with processQ := processQPruneLevel s.processQ level }
  | .doneQueue level => some { s with processQ := processQDone s.processQ level }
  | .validObjsDelete oid => some { s with validObjs := s.validObjs.filter (· ≠ oid) }
  | e => e.thread.bind fun thread => s.threads[thread]?.bind fun task => taskStep wire s thread task e

/-- A thread is at work on a block that it took from the queue, and its result is still open. -/
def BlockTask.validates (oid : ℕ) : BlockTask → Bool
  | .selected o | .checked o | .found o | .rejected o => o = oid
  | .inserting o enqueue | .inserted o enqueue => o = oid && !enqueue
  | _ => false

/-- A thread is at work on a block. -/
def BlockTask.inProgress (oid : ℕ) (task : BlockTask) : Bool := task.validates oid || task = .held oid

/-- A thread has put a block into `ValidObjs`, and its `ValidObjsBlockInsert` has not yet released the blocks after it. -/
def BlockTask.releases (oid : ℕ) : BlockTask → Bool
  | .inserted o _ | .updating o => o = oid
  | _ => false

/-- Why the row of a block may be on hold: the block is being validated, or its prior block is not valid, or the prior
block is just being inserted, or a validation has skipped the block. -/
def Explained (s : BlockQueue) (oid : ℕ) : Prop :=
  (∃ task ∈ s.threads, task.validates oid = true) ∨ (wire oid).priorOid ∉ s.validObjs ∨
    (∃ task ∈ s.threads, task.releases (wire oid).priorOid = true) ∨ oid ∈ s.skipped

/-- What every step keeps. -/
structure HoldReason (s : BlockQueue) (row : ProcessQRow) : Prop where
  priorOid : row.priorOid = some (wire row.objId).priorOid
  reason : row.hasStatus .hold = true → Explained wire s row.objId

def HoldInv (s : BlockQueue) : Prop := ∀ row ∈ s.processQ, HoldReason wire s row

variable {wire} {s s' : BlockQueue} {q : ProcessQ} {oid thread : ℕ} {a b : BlockTask}

section Threads
variable {α : Type*} {l : List α} {i : ℕ} {x y z : α}

theorem mem_set_self (hi : l[i]? = some x) (y : α) : y ∈ l.set i y := by
  obtain ⟨hlt, -⟩ := List.getElem?_eq_some_iff.1 hi
  exact List.mem_set hlt y

theorem mem_set_of_ne (hi : l[i]? = some x) (hz : z ∈ l) (hne : z ≠ x) (y : α) : z ∈ l.set i y := by
  obtain ⟨j, hj⟩ := List.mem_iff_getElem?.1 hz
  refine List.mem_iff_getElem?.2 ⟨j, ?_⟩
  rw [List.getElem?_set_ne, hj]
  rintro rfl
  rw [hi] at hj
  exact hne (Option.some.inj hj).symm

end Threads

/-- The reason of a hold outlasts a step of a thread, if it does where the thread itself was the reason. -/
theorem Explained.setThread (h : Explained wire s oid) (ha : s.threads[thread]? = some a)
    (hvalidates : a.validates oid = true → Explained wire (s.setThread thread b) oid)
    (hreleases : a.releases (wire oid).priorOid = true → Explained wire (s.setThread thread b) oid) :
    Explained wire (s.setThread thread b) oid := by
  rcases h with ⟨task, htask, hval⟩ | hprior | ⟨task, htask, hrel⟩ | hskipped
  · by_cases hne : task = a
    · exact hvalidates (hne ▸ hval)
    · exact .inl ⟨task, mem_set_of_ne ha htask hne b, hval⟩
  · exact .inr (.inl hprior)
  · by_cases hne : task = a
    · exact hreleases (hne ▸ hrel)
    · exact .inr (.inr (.inl ⟨task, mem_set_of_ne ha htask hne b, hrel⟩))
  · exact .inr (.inr (.inr hskipped))

/-- A thread goes on with its block. -/
theorem Explained.advance (h : Explained wire s oid) (ha : s.threads[thread]? = some a)
    (hvalidates : a.validates oid = true → b.validates oid = true)
    (hreleases : a.releases (wire oid).priorOid = true → b.releases (wire oid).priorOid = true) :
    Explained wire (s.setThread thread b) oid :=
  h.setThread ha (fun hval => .inl ⟨b, mem_set_self ha b, hvalidates hval⟩)
    fun hrel => .inr (.inr (.inl ⟨b, mem_set_self ha b, hreleases hrel⟩))

/-- Rows that no statement puts on hold keep their reasons. -/
theorem HoldInv.of_rows (h : HoldInv wire s)
    (hrows : ∀ row' ∈ s'.processQ, ∃ row ∈ s.processQ, row'.objId = row.objId ∧ row'.priorOid = row.priorOid ∧
      (row'.hasStatus .hold = true → row.hasStatus .hold = true ∧
        (Explained wire s row.objId → Explained wire s' row.objId))) : HoldInv wire s' := by
  intro row' hrow'
  obtain ⟨row, hrow, hkey, hprior, hhold⟩ := hrows row' hrow'
  refine ⟨?_, fun hs => ?_⟩
  · rw [hprior, hkey]
    exact (h row hrow).priorOid
  · obtain ⟨hs, hexplained⟩ := hhold hs
    rw [hkey]
    exact hexplained ((h row hrow).reason hs)

/-- The table is as it was. -/
theorem HoldInv.of_same (h : HoldInv wire s) (hq : s'.processQ = s.processQ)
    (hexplained : ∀ oid, Explained wire s oid → Explained wire s' oid) : HoldInv wire s' :=
  h.of_rows fun row hrow => ⟨row, hq ▸ hrow, rfl, rfl, fun hs => ⟨hs, hexplained _⟩⟩

theorem HoldInv.skip (h : HoldInv wire s) (ha : s.threads[thread]? = some a)
    (hvalidates : ∀ o, a.validates o = true → o = oid) (hreleases : ∀ o, a.releases o = false) :
    HoldInv wire ((s.skip oid).setThread thread .idle) := by
  refine h.of_same rfl fun o ho => ?_
  have hskip : Explained wire (s.skip oid) o := ho.imp_right (·.imp_right (·.imp_right (List.mem_cons_of_mem oid)))
  refine hskip.setThread ha (fun hval => ?_) fun hrel => ?_
  · rw [hvalidates o hval]
    exact .inr (.inr (.inr (List.mem_cons_self ..)))
  · rw [hreleases] at hrel
    cases hrel

theorem HoldInv.advance (h : HoldInv wire s) (ha : s.threads[thread]? = some a)
    (hvalidates : ∀ o, a.validates o = true → b.validates o = true)
    (hreleases : ∀ o, a.releases o = true → b.releases o = true) : HoldInv wire (s.setThread thread b) :=
  h.of_same rfl fun o ho => ho.advance ha (hvalidates o) (hreleases _)

theorem HoldInv.enqueueBlock {status : ProcessQStatus} {priority connIndex callbackId : ℕ} (h : HoldInv wire s)
    (hstatus : status ≠ .hold) :
    HoldInv wire (enqueueBlock wire s oid status priority connIndex callbackId) := by
  unfold Node.enqueueBlock
  generalize hnew : blockRow wire oid status priority connIndex callbackId s.sequence = new
  cases hselect : s.processQ.select new.objId with
  | none =>
    obtain ⟨q', hinsert, henqueue⟩ := enqueue_new new hselect false
    rw [henqueue]
    intro row hrow
    rcases (mem_of_insert hinsert).1 hrow with rfl | hrow
    · subst hnew
      refine ⟨rfl, fun hs => ?_⟩
      simp [ProcessQRow.hasStatus, blockRow, hstatus] at hs
    · exact ⟨(h row hrow).priorOid, (h row hrow).reason⟩
  | some row =>
    rw [enqueue_queued new hselect]
    exact h.of_same rfl fun o ho => ho

/-- A statement sets the status of a row to one that is not a hold, and the thread was at work on that row only. -/
theorem HoldInv.updateObj {status : ProcessQStatus} {auxInt : ℕ} (h : HoldInv wire s)
    (ha : s.threads[thread]? = some a) (hstatus : status ≠ .hold)
    (hvalidates : ∀ o, a.validates o = true → o = oid) (hreleases : ∀ o, a.releases o = true → b.releases o = true) :
    HoldInv wire ({ s with processQ := processQUpdateObj s.processQ oid status auxInt }.setThread thread b) := by
  refine h.of_rows fun row' hrow' => ?_
  obtain ⟨row, hrow, rfl⟩ := mem_processQUpdateObj.1 hrow'
  refine ⟨row, hrow, ?_, ?_, ?_⟩
  · split_ifs <;> rfl
  · split_ifs <;> rfl
  · split_ifs with hkey
    · intro hs
      simp [ProcessQRow.hasStatus, setStatus, hstatus] at hs
    · refine fun hs => ⟨hs, fun ho => ?_⟩
      refine Explained.setThread (s := { s with processQ := processQUpdateObj s.processQ oid status auxInt }) ho ha
        (fun hval => absurd (hvalidates _ hval) hkey) fun hrel => ?_
      exact .inr (.inr (.inl ⟨b, mem_set_self ha b, hreleases _ hrel⟩))

/-- Rows go away, and the reasons of those that stay are kept. -/
theorem HoldInv.of_subset (h : HoldInv wire s) (hq : ∀ row ∈ s'.processQ, row ∈ s.processQ)
    (hexplained : ∀ oid, Explained wire s oid → Explained wire s' oid) : HoldInv wire s' :=
  h.of_rows fun row hrow => ⟨row, hq row hrow, rfl, rfl, fun hs => ⟨hs, hexplained _⟩⟩

theorem HoldInv.getNextValidateObj {row : ProcessQRow} (h : HoldInv wire s) (ha : s.threads[thread]? = some .idle)
    (hnext : processQGetNextValidateObj s.processQ = some (row, q)) :
    HoldInv wire ({ s with processQ := q }.setThread thread (.selected row.objId)) := by
  obtain ⟨hrow, -, -⟩ := processQGetNextValidateObj_eq_some hnext
  intro row' hrow'
  obtain ⟨row₀, hrow₀, rfl⟩ := (mem_of_processQGetNextValidateObj hnext).1 hrow'
  split_ifs with hkey
  · rw [eq_of_key hrow₀ hrow hkey]
    exact ⟨(h row hrow).priorOid, fun _ => .inl ⟨_, mem_set_self ha _, by simp [BlockTask.validates, setStatus]⟩⟩
  · exact ⟨(h row₀ hrow₀).priorOid, fun hs => ((h row₀ hrow₀).reason hs).advance ha nofun nofun⟩

theorem HoldInv.findPrior {linked : Bool} (h : HoldInv wire s) (ha : s.threads[thread]? = some (.checked oid)) :
    HoldInv wire (if linked || s.validObjs.contains (wire oid).priorOid then s.setThread thread (.found oid)
      else s.setThread thread (.held oid)) := by
  split_ifs with hfound
  · exact h.advance ha (fun _ => id) fun _ => id
  · refine h.of_same rfl fun o ho => ho.setThread ha (fun hval => .inr (.inl ?_)) nofun
    have hkey : oid = o := of_decide_eq_true hval
    subst hkey
    simp only [Bool.or_eq_true, List.contains_iff_mem, not_or] at hfound
    exact hfound.2

theorem HoldInv.insertBlock {enqueue : Bool} (h : HoldInv wire s)
    (ha : s.threads[thread]? = some (.inserting oid enqueue)) : HoldInv wire (insertBlock s thread oid enqueue) := by
  unfold Node.insertBlock
  split_ifs
  · refine h.skip ha (fun o ho => ?_) fun _ => rfl
    simp only [BlockTask.validates, Bool.and_eq_true, decide_eq_true_eq] at ho
    exact ho.1.symm
  · refine h.of_same rfl fun o ho => ?_
    by_cases hprior : (wire o).priorOid = oid
    · exact .inr (.inr (.inl ⟨_, mem_set_self ha _, decide_eq_true hprior.symm⟩))
    · have hvalid : Explained wire { s with validObjs := oid :: s.validObjs } o :=
        ho.imp_right (·.imp_left fun hnot => List.not_mem_cons_of_ne_of_not_mem hprior hnot)
      exact hvalid.advance ha (fun hval => hval) nofun

theorem HoldInv.endValidation {result : BlockResult} (h : HoldInv wire s)
    (ha : s.threads[thread]? = some (.found oid)) : HoldInv wire (endValidation s thread oid result) := by
  cases result with
  | valid => exact h.advance ha (fun o ho => by simpa [BlockTask.validates] using ho) nofun
  | skip => exact h.skip ha (fun o ho => (of_decide_eq_true ho).symm) fun _ => rfl
  | invalid => exact h.advance ha (fun _ => id) nofun
  | future =>
    refine h.of_subset (fun row hrow => (mem_delete.1 hrow).1) fun o ho => ?_
    exact Explained.advance (s := { s with processQ := s.processQ.delete oid }) ho ha (fun hval => hval) nofun

theorem HoldInv.setBlockValid {enqueue : Bool} (h : HoldInv wire s)
    (ha : s.threads[thread]? = some (.inserted oid enqueue)) :
    HoldInv wire ((setBlockValid wire s oid enqueue).setThread thread (.updating oid)) := by
  cases enqueue with
  | true =>
    have hrow : HoldInv wire (Node.enqueueBlock wire s oid .valid 0 0 0) := h.enqueueBlock (by decide)
    exact hrow.advance ha (fun o ho => by simp [BlockTask.validates] at ho) fun _ => id
  | false => exact h.updateObj ha (by decide) (fun o ho => by simpa [BlockTask.validates, eq_comm] using ho) fun _ => id

/-- The inserter of a block releases the blocks after it. -/
theorem HoldInv.updateSubsequent (h : HoldInv wire s) (ha : s.threads[thread]? = some (.updating oid)) :
    HoldInv wire
      ({ s with processQ := processQUpdateSubsequentBlockStatus s.processQ oid }.setThread thread .idle) := by
  refine h.of_rows fun row' hrow' => ?_
  obtain ⟨row, hrow, rfl⟩ := mem_processQUpdateSubsequent.1 hrow'
  unfold releaseRow
  split_ifs with hrelease
  · exact ⟨row, hrow, rfl, rfl, fun hs => by simp [ProcessQRow.hasStatus] at hs⟩
  · refine ⟨row, hrow, rfl, rfl, fun hs => ⟨hs, fun ho => ?_⟩⟩
    refine Explained.setThread (s := { s with processQ := processQUpdateSubsequentBlockStatus s.processQ oid }) ho ha
      nofun fun hrel => ?_
    have hkey : oid = (wire row.objId).priorOid := of_decide_eq_true hrel
    simp [hs, (h row hrow).priorOid, ← hkey] at hrelease

theorem HoldInv.taskStep {e : BlockQueueEvent} (h : HoldInv wire s) (ha : s.threads[thread]? = some a)
    (hstep : taskStep wire s thread a e = some s') : HoldInv wire s' := by
  unfold Node.taskStep at hstep
  split at hstep
  · obtain ⟨⟨row, q⟩, hnext, rfl⟩ := Option.map_eq_some_iff.1 hstep
    exact h.getNextValidateObj ha hnext
  · cases hstep
    exact h.advance ha nofun nofun
  · cases hstep
    split_ifs
    · exact h.skip ha (fun o ho => (of_decide_eq_true ho).symm) fun _ => rfl
    · exact h.advance ha (fun _ => id) fun _ => id
  · cases hstep
    exact h.advance ha (fun _ => id) fun _ => id
  · cases hstep
    exact h.findPrior ha
  · cases hstep
    exact h.advance ha nofun nofun
  · cases hstep
    exact h.endValidation ha
  · cases hstep
    exact h.updateObj ha (by decide) (fun o ho => (of_decide_eq_true ho).symm) nofun
  · cases hstep
    exact h.insertBlock ha
  · cases hstep
    exact h.setBlockValid ha
  · cases hstep
    exact h.updateSubsequent ha
  · cases hstep

theorem HoldInv.step {e : BlockQueueEvent} (h : HoldInv wire s) (hstep : blockQueueStep wire s e = some s') :
    HoldInv wire s' := by
  unfold blockQueueStep at hstep
  split at hstep
  · cases hstep
    exact h.enqueueBlock (by decide)
  · cases hstep
    exact h.of_same rfl fun _ => id
  · cases hstep
    exact h.of_subset (fun row hrow => (mem_filter.1 hrow).1) fun _ => id
  · cases hstep
    refine h.of_rows fun row' hrow' => ?_
    obtain ⟨row, hrow, rfl⟩ := mem_processQDone.1 hrow'
    refine ⟨row, hrow, rfl, rfl, fun hs => ⟨?_, id⟩⟩
    simp only [ProcessQRow.hasStatus, setDone, Bool.and_eq_true, Bool.not_eq_true', Bool.or_eq_false_iff] at hs ⊢
    exact ⟨hs.1, hs.2.1⟩
  · cases hstep
    exact h.of_same rfl fun o ho => ho.imp_right (·.imp_left fun hnot hmem => hnot (List.mem_filter.1 hmem).1)
  · obtain ⟨thread, -, hstep⟩ := Option.bind_eq_some_iff.1 hstep
    obtain ⟨a, ha, hstep⟩ := Option.bind_eq_some_iff.1 hstep
    exact h.taskStep ha hstep

variable (wire) in
/-- What the queue promises to a block that waits for its prior block. -/
structure HoldReleased (s : BlockQueue) : Prop where
  /-- A row that is on hold although the prior block is valid and its inserter has finished, and no thread is at work
  on the block, is that of a block that a validation has skipped. -/
  held : ∀ row ∈ s.processQ, row.hasStatus .hold = true → (wire row.objId).priorOid ∈ s.validObjs →
    (∀ task ∈ s.threads, task.inProgress row.objId = false) →
    (∀ task ∈ s.threads, task.releases (wire row.objId).priorOid = false) → row.objId ∈ s.skipped
  /-- The inserter of a block makes the rows pending that wait for it. -/
  released : ∀ thread oid s', s.threads[thread]? = some (.updating oid) →
    blockQueueStep wire s (.updateSubsequent thread) = some s' →
    ∀ row ∈ s.processQ, row.hasStatus .hold = true → (wire row.objId).priorOid = oid →
      ∃ row' ∈ s'.processQ, row'.objId = row.objId ∧ row'.hasStatus .pending = true
  /-- A pending row is offered to the next thread that asks, unless another one comes before it. -/
  offered : ∀ row ∈ s.processQ, row.hasStatus .pending = true → (processQGetNextValidateObj s.processQ).isSome = true

theorem HoldInv.released (h : HoldInv wire s) : HoldReleased wire s where
  held := fun row hrow hhold hprior hidle hfinished => by
    rcases (h row hrow).reason hhold with ⟨task, htask, hval⟩ | hnot | ⟨task, htask, hrel⟩ | hskipped
    · have := hidle task htask
      simp [BlockTask.inProgress, hval] at this
    · exact absurd hprior hnot
    · rw [hfinished task htask] at hrel
      cases hrel
    · exact hskipped
  released := fun thread oid s' ha hstep row hrow hhold hprior => by
    simp only [blockQueueStep, BlockQueueEvent.thread, Option.bind_some, ha, Node.taskStep] at hstep
    cases hstep
    refine ⟨_, mem_processQUpdateSubsequent.2 ⟨row, hrow, rfl⟩, objId_releaseRow oid row, ?_⟩
    have hrelease : (row.hasStatus .hold && decide (row.priorOid = some oid)) = true := by
      simp [hhold, (h row hrow).priorOid, hprior]
    unfold releaseRow
    rw [if_pos hrelease]
    simpa [ProcessQRow.hasStatus] using And.right (Bool.and_eq_true_iff.1 hhold)
  offered := fun _ hrow hpending => processQGetNextValidateObj_isSome hrow hpending

/-- Blocks on hold are released in every run, with any number of threads, unless a validation has skipped them. -/
theorem held_blocks_released (wire : ℕ → BlockHeader) (nthreads : ℕ) (es : List BlockQueueEvent) {s : BlockQueue}
    (h : run (blockQueueStep wire) (.init nthreads) es = some s) : HoldReleased wire s :=
  (run_invariant (fun _ _ _ => HoldInv.step) (fun _ hrow => absurd hrow (not_mem_empty _)) h).released

/-- The blocks 1 and 2, the second after the first. -/
def twoBlocks (oid : ℕ) : BlockHeader := ⟨oid - 1, oid⟩

/-- Block 2 comes before block 1: its validation returns 2, and the witness then makes block 1. -/
def holdThenInsert : List BlockQueueEvent :=
  [.enqueueValidate 2 1 0 0, .getNextValidateObj 0, .checkLevel 0, .findPrior 0 false, .validateHeld 0,
    .newBlock 1 1 true, .validObjsInsert 1, .setValid 1, .updateSubsequent 1]

theorem held_blocks_released_holdThenInsert :
    ∃ s, run (blockQueueStep twoBlocks) (.init 2) holdThenInsert = some s ∧ HoldReleased twoBlocks s :=
  ⟨_, rfl, held_blocks_released twoBlocks 2 holdThenInsert rfl⟩

/-- Before a thread takes block 2 again, its level falls below the prune level: the validation returns 1, and the row
stays on hold, although block 1 is valid and no thread is at work. -/
theorem holdThenInsert_skipped :
    (run (blockQueueStep twoBlocks) (.init 2)
      (holdThenInsert ++ [.confirm 3, .getNextValidateObj 0, .checkLevel 0])).any (fun s =>
        s.threads = [.idle, .idle] && s.validObjs.contains 1 && s.processQ.rows.any fun row =>
          row.objId = 2 && row.priorOid = some 1 && row.hasStatus .hold) = true := by
  decide +kernel

end CredaCash.Node
