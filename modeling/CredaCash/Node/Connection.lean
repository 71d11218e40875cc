import CredaCash.Machine
import Mathlib.Algebra.Group.Int.Defs
import Mathlib.Data.Fintype.Card
import Mathlib.Logic.Function.Basic
import Mathlib.Tactic.SplitIfs

/-! The pool of connections: how a connection is counted, stopped and freed, whatever the order of the threads. -/

namespace CredaCash.Node
open Machine

inductive ConnState where
  | stopped
  | connecting
  | connected
  | stopping
  deriving DecidableEq

inductive RefLock where
  | free
  /-- `IncRef` has found that the connection is not stopping. -/
  | incRef
  /-- `DecRef` has left this number of references. -/
  | decRef (ops : ℤ)
  /-- `StopWithConnLock` has incremented `m_stopping`. -/
  | stop
  deriving DecidableEq

/-- Where a thread of `Stop` is that holds `m_conn_lock`. -/
inductive StopPc where
  | entered
  /-- With `m_ref_lock`, after it has found this value of `m_stopping`. -/
  | counting (already : ℤ)
  | counted (already ops : ℤ)
  /-- `m_conn_state` is set. -/
  | marked (ops : ℤ)
  deriving DecidableEq

/-- The thread that holds `m_conn_lock`; the sections that change nothing here are left out. -/
inductive ConnLock where
  | free
  | stop (pc : StopPc)
  | handleStop
  deriving DecidableEq

/-- Where a thread is that has a connection from the pool. -/
inductive ClientPc where
  | got
  | opsTested
  | stoppingTested
  | ready
  | inUse
  | stopped
  deriving DecidableEq

/-- A thread that has a connection. It keeps one that is owned, `m_autofree` being false, until it frees it. -/
structure Client where
  owned : Bool
  pc : ClientPc
  deriving DecidableEq

def Client.before (cl : Client) : Bool := cl.pc ≠ .inUse && cl.pc ≠ .stopped

structure Connection where
  connState : ConnState := .stopped
  /-- `m_stopping`, a number of 32 bits. -/
  stopping : ℤ := -9999
  opsPending : ℤ := 0
  /-- What `HandleStop` has added to `m_use_count`. -/
  useCount : ℕ := 0
  isFree : Bool := false
  incoming : Bool := false
  autofree : Bool := true
  refLock : RefLock := .free
  connLock : ConnLock := .free
  /-- The objects `AutoCount` that hold a reference. -/
  refs : ℕ := 0
  clients : List Client := []
  /-- The calls of `Post` by threads that do not keep the connection. -/
  posts : ℕ := 0
  /-- The threads of `HandleStop`: posted, before `m_conn_lock`, after it, after `m_stopping` is set, after
  `m_conn_state` is set. -/
  posted : ℕ := 0
  entering : ℕ := 0
  leaving : ℕ := 0
  stored : ℕ := 0
  testing : ℕ := 0
  /-- The threads of `Connection::FreeConnection`: before and after the test of `g_shutdown`. -/
  freeing : ℕ := 0
  storing : ℕ := 0
  /-- The threads of `ConnectionManager::FreeConnection`: before and after the test of `g_shutdown`. -/
  frees : ℕ := 0
  releasing : ℕ := 0
  failed : Bool := false
  /-- A `Stop` came after the last `InitNewConnection`, and the number of these. No part of the code. -/
  stopSeen : Bool := true
  uses : ℕ := 0
  deriving DecidableEq

inductive ConnectionEvent where
  | incRef
  | incRefAdds
  | decRef
  | decRefEnds
  | setState (s : ConnState)
  | stop
  | stopCounts
  | stopLoads
  | stopMarks
  | stopPosts
  | handleStop
  | handleStopLocks
  | handleStopCloses
  | handleStopStores
  | handleStopEnds
  | handleStopTests
  | setAutofree (autofree : Bool)
  | initTests (cl : Client)
  | initStores (owned : Bool)
  | stopReturns
  | waitForStopped
  | clientFrees
  | postDone
  /-- `Server::Connect` frees a connection on which its `Post` failed. -/
  | connectFails
  | freeTests
  | storeAutofree
  | managerTests
  deriving DecidableEq

/-- `fetch_add(1)` on a number of 32 bits. -/
def fetchAddOne (n : ℤ) : ℤ := if n = 2^31 - 1 then -2^31 else n + 1

namespace Connection

def check (c : Connection) (p : Prop) [Decidable p] : Connection := if p then c else { c with failed := true }

def move (c : Connection) (cl cl' : Client) : Connection := { c with clients := cl' :: c.clients.erase cl }

section Step
-- `live`: nothing keeps connections from being freed, as the shutdown of a program that is no library does.
variable (shutdown live : Bool) (c : Connection)

/-- `IncRef` and `DecRef`, each in two steps with `m_ref_lock`. -/
def refStep : ConnectionEvent → Option Connection
  | .incRef =>
    if c.refLock = .free then
      some (if shutdown ∨ c.stopping ≠ 0 then c else { c with refLock := .incRef })
    else none
  | .incRefAdds =>
    if c.refLock = .incRef then
      some { c with opsPending := c.opsPending + 1, refs := c.refs + 1, refLock := .free }
    else none
  | .decRef =>
    if c.refLock = .free ∧ 0 < c.refs then
      some ({ c with
        opsPending := c.opsPending - 1, refs := c.refs - 1, refLock := .decRef (c.opsPending - 1) }.check
          (0 ≤ c.opsPending - 1))
    else none
  | .decRefEnds =>
    match c.refLock with
    | .decRef ops =>
      some { c with
        refLock := .free
        posted := if c.stopping ≠ 0 ∧ ops = 0 then c.posted + 1 else c.posted }
    | _ => none
  | .setState s => if 0 < c.refs ∧ (s = .connecting ∨ s = .connected) then some { c with connState := s } else none
  | _ => none

def stopStep : ConnectionEvent → Option Connection
  | .stop => if c.connLock = .free then some { c with connLock := .stop .entered } else none
  | .stopCounts =>
    if c.connLock = .stop .entered ∧ c.refLock = .free then
      some { c with
        connLock := .stop (.counting c.stopping)
        refLock := .stop
        stopping := fetchAddOne c.stopping
        stopSeen := true }
    else none
  | .stopLoads =>
    match c.connLock with
    | .stop (.counting already) =>
      some { c with connLock := .stop (.counted already c.opsPending), refLock := .free }
    | _ => none
  | .stopMarks =>
    match c.connLock with
    | .stop (.counted already ops) =>
      some (if already ≠ 0 then { c with connLock := .free }
        else { c with connLock := .stop (.marked ops), connState := .stopping })
    | _ => none
  | .stopPosts =>
    match c.connLock with
    | .stop (.marked ops) =>
      some { c with connLock := .free, posted := if ops = 0 then c.posted + 1 else c.posted }
    | _ => none
  | _ => none

def handleStep : ConnectionEvent → Option Connection
  | .handleStop =>
    if 0 < c.posted then
      some ({ c with posted := c.posted - 1, entering := c.entering + 1 }.check (0 < c.stopping))
    else none
  | .handleStopLocks =>
    if 0 < c.entering ∧ c.connLock = .free then
      some ({ c with entering := c.entering - 1, connLock := .handleStop, useCount := c.useCount + 1 }.check
        (c.opsPending = 0))
    else none
  | .handleStopCloses =>
    if c.connLock = .handleStop then
      some ({ c with connLock := .free, leaving := c.leaving + 1 }.check (c.opsPending = 0))
    else none
  | .handleStopStores =>
    if 0 < c.leaving then
      some { c with leaving := c.leaving - 1, stored := c.stored + 1, stopping := -9999 }
    else none
  | .handleStopEnds =>
    if 0 < c.stored then
      some { c with stored := c.stored - 1, testing := c.testing + 1, connState := .stopped }
    else none
  | .handleStopTests =>
    if 0 < c.testing then
      some { c with
        testing := c.testing - 1
        freeing := if c.autofree then c.freeing + 1 else c.freeing }
    else none
  | _ => none

/-- The threads that have the connection. `InitNewConnection` makes its assertions one after the other. -/
def clientStep : ConnectionEvent → Option Connection
  | .setAutofree autofree =>
    if ⟨false, .got⟩ ∈ c.clients then
      some { c.move ⟨false, .got⟩ ⟨!autofree, .got⟩ with autofree := autofree }
    else none
  | .initTests cl =>
    if cl ∈ c.clients then
      match cl.pc with
      | .got => some ((c.move cl { cl with pc := .opsTested }).check (c.opsPending = 0))
      | .opsTested => some ((c.move cl { cl with pc := .stoppingTested }).check (c.stopping < 0))
      | .stoppingTested => some ((c.move cl { cl with pc := .ready }).check (c.connState = .stopped))
      | _ => none
    else none
  | .initStores owned =>
    if ⟨owned, .ready⟩ ∈ c.clients then
      some { c with
        connState := .stopped
        stopping := 0
        stopSeen := false
        uses := c.uses + 1
        clients := if owned then ⟨true, .inUse⟩ :: c.clients.erase ⟨true, .ready⟩ else c.clients.erase ⟨false, .ready⟩
        posts := if owned then c.posts else c.posts + 1 }
    else none
  -- Any `Stop` will do: with the lock, the thread's own one comes after the first or is the first.
  | .stopReturns =>
    if ⟨true, .inUse⟩ ∈ c.clients ∧ c.stopping ≠ 0 ∧ c.connLock = .free then
      some (c.move ⟨true, .inUse⟩ ⟨true, .stopped⟩)
    else none
  | .waitForStopped =>
    if ⟨true, .stopped⟩ ∈ c.clients ∧ c.connState = .stopped then some (c.move ⟨true, .stopped⟩ ⟨true, .got⟩) else none
  | .clientFrees =>
    if ⟨true, .got⟩ ∈ c.clients then
      some { c with clients := c.clients.erase ⟨true, .got⟩, freeing := c.freeing + 1 }
    else none
  | .postDone => if 0 < c.posts then some { c with posts := c.posts - 1 } else none
  | .connectFails =>
    if 0 < c.posts ∧ (shutdown ∨ c.stopping ≠ 0) then
      some { c with posts := c.posts - 1, freeing := c.freeing + 1 }
    else none
  | _ => none

/-- `Connection::FreeConnection`, and `ConnectionManager::FreeConnection` up to its lock. -/
def freeStep : ConnectionEvent → Option Connection
  | .freeTests =>
    if 0 < c.freeing then
      some { c with freeing := c.freeing - 1, storing := if live then c.storing + 1 else c.storing }
    else none
  | .storeAutofree =>
    if 0 < c.storing then some { c with storing := c.storing - 1, frees := c.frees + 1, autofree := true } else none
  | .managerTests =>
    if 0 < c.frees then
      some { c with frees := c.frees - 1, releasing := if live then c.releasing + 1 else c.releasing }
    else none
  | _ => none

def step (e : ConnectionEvent) : Option Connection :=
  (c.refStep shutdown e).or <| (c.stopStep e).or <| (c.handleStep e).or <| (c.clientStep shutdown e).or (c.freeStep live e)

end Step

end Connection

/-- The first `Stop` of a use has the lock, and has not yet set `m_conn_state`. -/
def ConnLock.unmarked : ConnLock → Bool
  | .stop (.counting already) | .stop (.counted already _) => already = 0
  | _ => false

def ConnLock.first : ConnLock → Bool
  | .stop (.marked _) => true
  | lock => lock.unmarked

lemma ConnLock.unmarked_eq_false {lock : ConnLock} (h : lock.first = false) : lock.unmarked = false := by
  unfold ConnLock.first at h
  split at h
  · cases h
  · exact h

/-- `HandleStop` has the lock, or a `Stop` that is going to post it. -/
def ConnLock.pending (ops : ℤ) : ConnLock → Bool
  | .stop (.counting already) => already = 0 ∧ ops = 0
  | .stop (.counted already ops) => already = 0 ∧ ops = 0
  | .stop (.marked ops) => ops = 0
  | .handleStop => true
  | _ => false

namespace Connection

/-- The calls of `HandleStop` that have not yet set `m_stopping`, with those that a thread is about to post. -/
def pendingStops (c : Connection) : ℕ :=
  c.posted + c.entering + c.leaving + (if c.refLock = .decRef 0 ∧ c.stopping ≠ 0 then 1 else 0) +
    if c.connLock.pending c.opsPending then 1 else 0

def holders (c : Connection) (live : Bool) : ℕ :=
  c.isFree.toNat + c.clients.length + c.storing + c.frees + c.releasing + if live then c.freeing else 0

/-- How a connection is to be used: the assertions hold; the count is never negative, and once a `Stop` came no `IncRef`
succeeds; `HandleStop` runs once for every use, when it is stopped and nothing is pending, and before the next use; and
the list has only connections that no operation of their last use has. -/
structure Protocol (c : Connection) : Prop where
  assertions : c.failed = false
  opsPending : 0 ≤ c.opsPending
  incRef : c.refLock = .incRef → c.stopSeen = false
  atMostOnce : c.useCount ≤ c.uses ∧ c.uses ≤ c.useCount + 1 ∧ c.pendingStops ≤ 1
  notBefore : (c.stopSeen = false → c.uses = c.useCount + 1) ∧ (0 < c.pendingStops → c.stopSeen = true ∧ c.opsPending = 0)
  notMissed : c.stopSeen = true → c.opsPending = 0 → c.uses = c.useCount + 1 → c.pendingStops = 1
  nextUse : (∃ cl ∈ c.clients, cl.before = true) → c.uses = c.useCount
  free : c.isFree = true → c.opsPending = 0 ∧ c.uses = c.useCount ∧ c.pendingStops = 0 ∧ c.stored + c.testing = 0 ∧
    c.clients = [] ∧ c.storing + c.frees + c.releasing = 0

structure Ok (live : Bool) (c : Connection) : Prop where
  failed : c.failed = false
  ops : c.opsPending = c.refs
  stopSeen : c.stopSeen = true ↔ c.stopping ≠ 0
  refInc : c.refLock = .incRef → c.stopping = 0
  refDec : ∀ ops, c.refLock = .decRef ops → ops = c.refs
  refStop : c.refLock = .stop ↔ ∃ already, c.connLock = .stop (.counting already)
  first : c.connLock.first = true → 0 < c.stopping ∧ c.leaving = 0
  pending : c.pendingStops = if 0 < c.stopping ∧ c.refs = 0 then 1 else 0
  idle : c.stopping < 0 → c.refs = 0 ∧ (c.connState = .stopped ↔ c.stored = 0)
  ending : 0 < c.stopping → c.connLock.unmarked = false → c.connState ≠ .stopped
  stored : 0 < c.stored → c.stopping < 0
  storedLe : c.stored ≤ 1
  uses : c.uses = c.useCount + if 0 ≤ c.stopping ∧ c.connLock ≠ .handleStop ∧ c.leaving = 0 then 1 else 0
  holders : c.holders live ≤ 1
  held : c.isFree = true ∨ 0 < c.storing + c.frees + c.releasing ∨ (live = true ∧ 0 < c.freeing) ∨
    (∃ cl ∈ c.clients, cl.before = true) → c.stopping < 0 ∧ c.stored = 0
  pooled : c.isFree = true ∨ 0 < c.frees + c.releasing ∨ (∃ cl ∈ c.clients, cl.owned = false) →
    c.autofree = true ∧ c.testing = 0
  clients : ∀ cl ∈ c.clients, (cl.owned = true → c.autofree = false) ∧ (cl.owned = false → cl.before = true)
  stoppedClient : ⟨true, .stopped⟩ ∈ c.clients → c.stopping ≠ 0 ∧ c.connLock.first = false
  auto : c.autofree = true → c.stored + c.testing ≤ 1 ∧
    (0 < c.stored + c.testing → c.stopping < 0 ∧ c.holders live = 0)

section Steps
variable {shutdown live : Bool} {c c' : Connection} {e : ConnectionEvent}

lemma Ok.pending_eq (h : c.Ok live) (hlock : c.refLock ≠ .stop) (ops : ℤ) :
    c.connLock.pending ops = c.connLock.pending c.opsPending := by
  unfold ConnLock.pending
  split
  · next already hcounting => exact absurd (h.refStop.2 ⟨already, hcounting⟩) hlock
  all_goals rfl

/-- Nobody has a connection that is in use or stopping, if `HandleStop` is going to free it. -/
lemma Ok.noHolder (h : c.Ok live) (hautofree : c.autofree = true) (hstopping : ¬ c.stopping < 0) :
    c.holders live = 0 := by
  have hheld : ¬ _ := fun hheld => hstopping (h.held hheld).1
  have hclients : c.clients = [] := by
    refine List.eq_nil_iff_forall_not_mem.2 fun cl hcl => ?_
    obtain ⟨howned, hpooled⟩ := h.clients cl hcl
    cases hown : cl.owned with
    | true => exact absurd hautofree (by rw [howned hown]; decide)
    | false => exact hheld (.inr (.inr (.inr ⟨cl, hcl, hpooled hown⟩)))
  simp only [hclients, Connection.holders, List.length_nil]
  grind

lemma refStep_ok (h : c.Ok live) (hstep : c.refStep shutdown e = some c') : c'.Ok live := by
  have hpending := h.pending
  rw [pendingStops] at hpending
  cases e with
  | incRef =>
    simp only [refStep] at hstep
    split_ifs at hstep with hlock hstop
    · cases hstep
      exact h
    · cases hstep
      have hzero : c.stopping = 0 := not_not.1 fun hne => hstop (.inr hne)
      exact { h with
        refInc := fun _ => hzero
        refDec := fun ops hops => by cases hops
        refStop := by grind [h.refStop]
        pending := by grind [pendingStops] }
  | incRefAdds =>
    simp only [refStep] at hstep
    split_ifs at hstep with hlock
    cases hstep
    have hzero : c.stopping = 0 := h.refInc hlock
    have hsame := h.pending_eq (by simp [hlock]) (c.opsPending + 1)
    exact { h with
      ops := by grind [h.ops]
      refInc := fun hfree => by cases hfree
      refDec := fun ops hops => by cases hops
      refStop := by grind [h.refStop]
      pending := by grind [pendingStops]
      idle := by grind }
  | decRef =>
    simp only [refStep] at hstep
    split_ifs at hstep with hlock
    have hops := h.ops
    rw [check, if_pos (by omega)] at hstep
    cases hstep
    have hsame := h.pending_eq (by simp [hlock.1]) (c.opsPending - 1)
    have hidle := h.idle
    exact { h with
      ops := by grind
      refInc := fun hfree => by cases hfree
      refDec := by grind
      refStop := by grind [h.refStop]
      pending := by grind [pendingStops]
      idle := by grind }
  | decRefEnds =>
    simp only [refStep] at hstep
    split at hstep
    · next ops hlock =>
      cases hstep
      have hops : ops = c.refs := h.refDec ops hlock
      exact { h with
        refInc := fun hfree => by cases hfree
        refDec := fun ops hops => by cases hops
        refStop := by grind [h.refStop]
        pending := by grind [pendingStops] }
    · cases hstep
  | setState s =>
    simp only [refStep] at hstep
    split_ifs at hstep with hs
    cases hstep
    exact { h with
      idle := by grind [h.idle]
      ending := by grind }
  | _ => simp [refStep] at hstep

lemma stopStep_ok (h : c.Ok live) (hcond : e = .stopCounts → c.stopping ≠ -1 ∧ c.stopping ≠ 2^31 - 1)
    (hstep : c.stopStep e = some c') : c'.Ok live := by
  have hpending := h.pending
  rw [pendingStops] at hpending
  cases e with
  | stop =>
    simp only [stopStep] at hstep
    split_ifs at hstep with hlock
    cases hstep
    exact { h with
      refStop := by grind [h.refStop]
      first := fun hfirst => by cases hfirst
      pending := by grind [pendingStops, ConnLock.pending]
      ending := by grind [h.ending, ConnLock.unmarked]
      uses := by grind [h.uses]
      stoppedClient := by grind [h.stoppedClient, ConnLock.first, ConnLock.unmarked] }
  | stopCounts =>
    obtain ⟨hidle, hmax⟩ := hcond rfl
    have hstored := h.stored
    simp only [stopStep, fetchAddOne, if_neg hmax] at hstep
    split_ifs at hstep with hlock
    cases hstep
    exact { h with
      stopSeen := by grind
      refInc := fun hinc => by cases hinc
      refDec := fun ops hops => by cases hops
      refStop := by grind
      first := by grind [ConnLock.first, ConnLock.unmarked]
      pending := by grind [pendingStops, ConnLock.pending, h.ops]
      idle := by grind [h.idle]
      ending := by grind [h.ending, ConnLock.unmarked]
      stored := by grind
      uses := by grind [h.uses]
      held := by grind [h.held]
      stoppedClient := by grind [h.stoppedClient, ConnLock.first, ConnLock.unmarked]
      auto := fun hautofree => ⟨(h.auto hautofree).1, fun hpos => by
        obtain ⟨hneg, hholders⟩ := (h.auto hautofree).2 hpos
        exact ⟨by grind, hholders⟩⟩ }
  | stopLoads =>
    simp only [stopStep] at hstep
    split at hstep
    · next already hlock =>
      cases hstep
      exact { h with
        refInc := fun hinc => by cases hinc
        refDec := fun ops hops => by cases hops
        refStop := by grind
        first := by grind [h.first, ConnLock.first, ConnLock.unmarked]
        pending := by grind [pendingStops, ConnLock.pending, h.refStop]
        ending := by grind [h.ending, ConnLock.unmarked]
        uses := by grind [h.uses]
        stoppedClient := by grind [h.stoppedClient, ConnLock.first, ConnLock.unmarked] }
    · cases hstep
  | stopMarks =>
    simp only [stopStep] at hstep
    split at hstep
    · next already ops hlock =>
      split_ifs at hstep with halready
      · cases hstep
        exact { h with
          refStop := by grind [h.refStop]
          first := fun hfirst => by cases hfirst
          pending := by grind [pendingStops, ConnLock.pending]
          ending := by grind [h.ending, ConnLock.unmarked]
          uses := by grind [h.uses]
          stoppedClient := by grind [h.stoppedClient, ConnLock.first, ConnLock.unmarked] }
      · cases hstep
        have hfirst := h.first (by grind [ConnLock.first, ConnLock.unmarked])
        exact { h with
          refStop := by grind [h.refStop]
          first := fun _ => hfirst
          pending := by grind [pendingStops, ConnLock.pending]
          idle := by grind
          ending := by grind
          uses := by grind [h.uses]
          stoppedClient := by grind [h.stoppedClient, ConnLock.first, ConnLock.unmarked] }
    · cases hstep
  | stopPosts =>
    simp only [stopStep] at hstep
    split at hstep
    · next ops hlock =>
      cases hstep
      have hfirst := h.first (by grind [ConnLock.first])
      exact { h with
        refStop := by grind [h.refStop]
        first := fun hfirst => by cases hfirst
        pending := by grind [pendingStops, ConnLock.pending]
        ending := by grind [h.ending, ConnLock.unmarked]
        uses := by grind [h.uses]
        stoppedClient := by grind [h.stoppedClient, ConnLock.first, ConnLock.unmarked] }
    · cases hstep
  | _ => simp [stopStep] at hstep

lemma handleStep_ok (h : c.Ok live) (hstep : c.handleStep e = some c') : c'.Ok live := by
  have hpending := h.pending
  rw [pendingStops] at hpending
  cases e with
  | handleStop =>
    simp only [handleStep] at hstep
    split_ifs at hstep with hposted
    have hstopping : 0 < c.stopping := by grind
    rw [check, if_pos hstopping] at hstep
    cases hstep
    exact { h with
      pending := by grind [pendingStops] }
  | handleStopLocks =>
    simp only [handleStep] at hstep
    split_ifs at hstep with hlock
    have hstopping : 0 < c.stopping ∧ c.refs = 0 := by grind
    have hops : c.opsPending = 0 := by grind [h.ops]
    rw [check, if_pos hops] at hstep
    cases hstep
    exact { h with
      refStop := by grind [h.refStop]
      first := fun hfirst => by cases hfirst
      pending := by grind [pendingStops, ConnLock.pending]
      ending := by grind [h.ending, ConnLock.unmarked]
      uses := by grind [h.uses]
      stoppedClient := by grind [h.stoppedClient, ConnLock.first, ConnLock.unmarked] }
  | handleStopCloses =>
    simp only [handleStep] at hstep
    split_ifs at hstep with hlock
    have hstopping : 0 < c.stopping ∧ c.refs = 0 := by grind [ConnLock.pending]
    have hops : c.opsPending = 0 := by grind [h.ops]
    rw [check, if_pos hops] at hstep
    cases hstep
    exact { h with
      refStop := by grind [h.refStop]
      first := fun hfirst => by cases hfirst
      pending := by grind [pendingStops, ConnLock.pending]
      ending := by grind [h.ending, ConnLock.unmarked]
      uses := by grind [h.uses]
      stoppedClient := by grind [h.stoppedClient, ConnLock.first, ConnLock.unmarked] }
  | handleStopStores =>
    simp only [handleStep] at hstep
    split_ifs at hstep with hleaving
    cases hstep
    have hstopping : 0 < c.stopping ∧ c.refs = 0 := by grind
    have hfirst : c.connLock.first = false := by grind [h.first]
    have hunmarked : c.connLock.unmarked = false := ConnLock.unmarked_eq_false hfirst
    have hstate : c.connState ≠ .stopped := h.ending hstopping.1 hunmarked
    have hstored := h.stored
    have hheld := h.held
    have hrefInc := h.refInc
    have hauto := h.auto
    have hneg : (-9999 : ℤ) < 0 := by decide
    exact { h with
      stopSeen := by grind [h.stopSeen]
      refInc := by grind
      first := by grind
      pending := by grind [pendingStops]
      idle := by grind
      ending := by grind
      stored := by grind
      storedLe := by grind
      uses := by grind [h.uses]
      held := by grind
      stoppedClient := fun _ => ⟨hneg.ne, hfirst⟩
      auto := fun hautofree => ⟨by grind, fun _ => ⟨hneg, h.noHolder hautofree (not_lt.2 hstopping.1.le)⟩⟩ }
  | handleStopEnds =>
    simp only [handleStep] at hstep
    split_ifs at hstep with hstored
    cases hstep
    have hneg : c.stopping < 0 := h.stored hstored
    have hidle := h.idle hneg
    have hle := h.storedLe
    have hheld := h.held
    have hclients := h.clients
    have hauto := h.auto
    exact { h with
      idle := by grind
      ending := by grind
      stored := fun _ => hneg
      storedLe := by grind
      held := by grind
      pooled := by grind
      auto := fun hautofree => ⟨by grind, fun hpos => (hauto hautofree).2 (by grind)⟩ }
  | handleStopTests =>
    simp only [handleStep] at hstep
    split_ifs at hstep with htesting hautofree
    · cases hstep
      have hauto := h.auto hautofree
      exact { h with
        holders := by grind [holders]
        held := by grind
        pooled := by grind
        auto := by grind }
    · cases hstep
      exact { h with
        pooled := by grind [h.pooled]
        auto := by grind }
  | _ => simp [handleStep] at hstep

lemma freeStep_ok (h : c.Ok live) (hcond : e = .storeAutofree → c.testing = 0) (hstep : c.freeStep live e = some c') :
    c'.Ok live := by
  have hholders := h.holders
  have hheld := h.held
  have hauto := h.auto
  rw [Connection.holders] at hholders
  cases e with
  | freeTests =>
    simp only [freeStep] at hstep
    split_ifs at hstep with hfreeing hlive
    · cases hstep
      exact { h with
        holders := by grind [holders]
        held := by grind
        auto := by grind [holders] }
    · cases hstep
      exact { h with
        holders := by grind [holders]
        held := by grind
        auto := by grind [holders] }
  | storeAutofree =>
    have htesting := hcond rfl
    simp only [freeStep] at hstep
    split_ifs at hstep with hstoring
    cases hstep
    have hstored : c.stored = 0 := (hheld (by grind)).2
    have hclients : c.clients = [] := List.length_eq_zero_iff.1 (by grind)
    exact { h with
      holders := by grind [holders]
      held := by grind
      pooled := fun _ => ⟨rfl, htesting⟩
      clients := by grind
      auto := by grind }
  | managerTests =>
    simp only [freeStep] at hstep
    split_ifs at hstep with hfrees hlive
    · cases hstep
      exact { h with
        holders := by grind [holders]
        held := by grind
        pooled := by grind [h.pooled]
        auto := by grind [holders] }
    · cases hstep
      exact { h with
        holders := by grind [holders]
        held := by grind
        pooled := by grind [h.pooled]
        auto := by grind [holders] }
  | _ => simp [freeStep] at hstep

lemma Ok.clients_eq (h : c.Ok live) {cl : Client} (hcl : cl ∈ c.clients) : c.clients = [cl] := by
  have hholders := h.holders
  rw [Connection.holders] at hholders
  have hlength : c.clients.length = 1 := by
    have hpos := List.length_pos_of_mem hcl
    omega
  obtain ⟨a, ha⟩ := List.length_eq_one_iff.1 hlength
  rw [ha] at hcl
  rw [ha, List.mem_singleton.1 hcl]

lemma Ok.move (h : c.Ok live) {cl cl' : Client} (hcl : cl ∈ c.clients) (howned : cl'.owned = cl.owned)
    (hpooled : cl.owned = false → cl'.before = true) (hbefore : cl'.before = true → c.stopping < 0 ∧ c.stored = 0)
    (hstopped : cl' = ⟨true, .stopped⟩ → c.stopping ≠ 0 ∧ c.connLock.first = false) : (c.move cl cl').Ok live := by
  have hclients : c.clients = [cl] := h.clients_eq hcl
  have hmove : (c.move cl cl').clients = [cl'] := by simp [Connection.move, hclients]
  have hlength : (c.move cl cl').holders live = c.holders live := by simp [Connection.holders, Connection.move, hclients]
  exact { h with
    holders := hlength.trans_le h.holders
    held := by
      rintro (hfree | hfree | hfree | ⟨a, ha, hbefore'⟩)
      · exact h.held (.inl hfree)
      · exact h.held (.inr (.inl hfree))
      · exact h.held (.inr (.inr (.inl hfree)))
      · rw [hmove, List.mem_singleton] at ha
        exact hbefore (ha ▸ hbefore')
    pooled := by
      rintro (hfree | hfree | ⟨a, ha, hpool⟩)
      · exact h.pooled (.inl hfree)
      · exact h.pooled (.inr (.inl hfree))
      · rw [hmove, List.mem_singleton] at ha
        exact h.pooled (.inr (.inr ⟨cl, hcl, by rw [← howned, ← ha, hpool]⟩))
    clients := by
      rw [hmove, List.forall_mem_singleton, howned]
      exact ⟨(h.clients cl hcl).1, hpooled⟩
    stoppedClient := fun hstop => by
      rw [hmove, List.mem_singleton] at hstop
      exact hstopped hstop.symm
    auto := fun hautofree => ⟨(h.auto hautofree).1, fun hpos => by
      rw [hlength]
      exact (h.auto hautofree).2 hpos⟩ }

lemma clientStep_ok (h : c.Ok live) (hcond : e = .connectFails → live = false)
    (hstep : c.clientStep shutdown e = some c') : c'.Ok live := by
  have hholders := h.holders
  have hheld := h.held
  have hpooled := h.pooled
  rw [Connection.holders] at hholders
  cases e with
  | setAutofree autofree =>
    simp only [clientStep] at hstep
    split_ifs at hstep with hcl
    cases hstep
    have hclients := h.clients_eq hcl
    have hidle := hheld (.inr (.inr (.inr ⟨_, hcl, rfl⟩)))
    have hauto := hpooled (.inr (.inr ⟨_, hcl, rfl⟩))
    simp only [move, hclients]
    exact { h with
      holders := by grind [holders]
      held := by grind [Client.before]
      pooled := by grind
      clients := by grind [Client.before]
      stoppedClient := by grind
      auto := by grind }
  | initTests cl =>
    simp only [clientStep] at hstep
    split_ifs at hstep with hcl
    have hidle (hbefore : cl.before = true) : c.stopping < 0 ∧ c.stored = 0 :=
      hheld (.inr (.inr (.inr ⟨cl, hcl, hbefore⟩)))
    split at hstep
    · next hpc =>
      have hneg := hidle (by simp [Client.before, hpc])
      have hops : c.opsPending = 0 := by grind [h.ops, h.idle]
      rw [check, if_pos hops] at hstep
      cases hstep
      exact h.move hcl rfl (fun _ => rfl) (fun _ => hneg) fun hstop => by injection hstop with _ hpc; cases hpc
    · next hpc =>
      have hneg := hidle (by simp [Client.before, hpc])
      rw [check, if_pos hneg.1] at hstep
      cases hstep
      exact h.move hcl rfl (fun _ => rfl) (fun _ => hneg) fun hstop => by injection hstop with _ hpc; cases hpc
    · next hpc =>
      have hneg := hidle (by simp [Client.before, hpc])
      rw [check, if_pos ((h.idle hneg.1).2.2 hneg.2)] at hstep
      cases hstep
      exact h.move hcl rfl (fun _ => rfl) (fun _ => hneg) fun hstop => by injection hstop with _ hpc; cases hpc
    · cases hstep
  | initStores owned =>
    have hcl : ⟨owned, .ready⟩ ∈ c.clients := by
      by_contra hcl
      rw [clientStep, if_neg hcl] at hstep
      cases hstep
    rw [clientStep, if_pos hcl] at hstep
    cases hstep
    have hclients := h.clients_eq hcl
    have hauto := h.auto
    have hown := h.clients _ hcl
    have hneg := hheld (.inr (.inr (.inr ⟨_, hcl, rfl⟩)))
    have hidle := h.idle hneg.1
    have hpending := h.pending
    rw [pendingStops] at hpending
    exact { h with
      stopSeen := by grind
      refInc := fun _ => rfl
      first := by grind [h.first]
      pending := by grind [pendingStops]
      idle := by grind
      ending := by grind
      stored := by grind
      uses := by grind [h.uses, ConnLock.pending]
      holders := by grind [holders]
      held := by grind [Client.before]
      pooled := by grind
      clients := by grind
      stoppedClient := by grind
      auto := by grind }
  | stopReturns =>
    simp only [clientStep] at hstep
    split_ifs at hstep with hcl
    cases hstep
    exact h.move hcl.1 rfl (fun hown => by cases hown) (fun hbefore => by cases hbefore)
      fun _ => ⟨hcl.2.1, by rw [hcl.2.2]; rfl⟩
  | waitForStopped =>
    simp only [clientStep] at hstep
    split_ifs at hstep with hcl
    cases hstep
    obtain ⟨hne, hfirst⟩ := h.stoppedClient hcl.1
    have hneg : c.stopping < 0 := by
      refine lt_of_le_of_ne (not_lt.1 fun hpos => ?_) hne
      exact h.ending hpos (ConnLock.unmarked_eq_false hfirst) hcl.2
    exact h.move hcl.1 rfl (fun hown => by cases hown) (fun _ => ⟨hneg, (h.idle hneg).2.1 hcl.2⟩)
      fun hstop => by cases hstop
  | clientFrees =>
    simp only [clientStep] at hstep
    split_ifs at hstep with hcl
    cases hstep
    have hclients := h.clients_eq hcl
    have hneg := hheld (.inr (.inr (.inr ⟨_, hcl, rfl⟩)))
    have hown := (h.clients _ hcl).1 rfl
    exact { h with
      holders := by grind [holders]
      held := fun _ => hneg
      pooled := by grind
      clients := by grind
      stoppedClient := by grind
      auto := by grind }
  | postDone =>
    simp only [clientStep] at hstep
    split_ifs at hstep with hposts
    cases hstep
    exact { h with }
  | connectFails =>
    have hlive := hcond rfl
    have hauto := h.auto
    simp only [clientStep] at hstep
    split_ifs at hstep with hposts
    cases hstep
    exact { h with
      holders := by grind [holders]
      held := by grind
      auto := by grind [holders] }
  | _ => simp [clientStep] at hstep

/-- What keeps a step from doing harm: `m_stopping` is not about to become zero or to overflow, `m_autofree` is not set
while a `HandleStop` has still to test it, and `Server::Connect` does not get to free a connection. -/
def Harmless (live : Bool) (c : Connection) : ConnectionEvent → Prop
  | .stopCounts => c.stopping ≠ -1 ∧ c.stopping ≠ 2^31 - 1
  | .storeAutofree => c.testing = 0
  | .connectFails => live = false
  | _ => True

lemma step_eq_some (hstep : c.step shutdown live e = some c') : c.refStep shutdown e = some c' ∨
    c.stopStep e = some c' ∨ c.handleStep e = some c' ∨ c.clientStep shutdown e = some c' ∨ c.freeStep live e = some c' := by
  simp only [step, Option.or_eq_some_iff] at hstep
  tauto

lemma step_ok (h : c.Ok live) (hcond : c.Harmless live e) (hstep : c.step shutdown live e = some c') : c'.Ok live := by
  rcases step_eq_some hstep with hstep | hstep | hstep | hstep | hstep
  · exact refStep_ok h hstep
  · exact stopStep_ok h (fun he => by rwa [he] at hcond) hstep
  · exact handleStep_ok h hstep
  · exact clientStep_ok h (fun he => by rwa [he] at hcond) hstep
  · exact freeStep_ok h (fun he => by rwa [he] at hcond) hstep

lemma step_isFree (hstep : c.step shutdown live e = some c') : c'.isFree = c.isFree ∧ c'.incoming = c.incoming := by
  rcases step_eq_some hstep with hstep | hstep | hstep | hstep | hstep
  · cases e <;> grind [refStep, check]
  · cases e <;> grind [stopStep, check]
  · cases e <;> grind [handleStep, check]
  · cases e <;> grind [clientStep, check, move]
  · cases e <;> grind [freeStep, check]

lemma Ok.get (h : c.Ok live) (hfree : c.isFree = true) (incoming : Bool) :
    Ok live { c with isFree := false, incoming := incoming, clients := ⟨false, .got⟩ :: c.clients } := by
  have hholders := h.holders
  rw [Connection.holders, hfree, Bool.toNat_true] at hholders
  have hclients : c.clients = [] := List.length_eq_zero_iff.1 (by omega)
  have hneg := h.held (.inl hfree)
  have hpooled := h.pooled (.inl hfree)
  exact { h with
    holders := by grind [Connection.holders]
    held := fun _ => hneg
    pooled := fun _ => hpooled
    clients := by grind [Client.before]
    stoppedClient := by grind
    auto := by grind }

lemma Ok.release (h : c.Ok live) (hreleasing : c.releasing ≠ 0) :
    c.isFree = false ∧ Ok live { c with releasing := c.releasing - 1, isFree := true } := by
  have hholders := h.holders
  rw [Connection.holders] at hholders
  have hfree : c.isFree = false := by
    cases hfree : c.isFree with
    | false => rfl
    | true =>
      rw [hfree, Bool.toNat_true] at hholders
      omega
  have hneg := h.held (.inr (.inl (by omega)))
  have hpooled := h.pooled (.inr (.inl (by omega)))
  exact ⟨hfree, { h with
    holders := by grind [Connection.holders]
    held := fun _ => hneg
    pooled := fun _ => hpooled
    auto := by grind }⟩

lemma Ok.protocol (h : c.Ok live) : c.Protocol := by
  have hops := h.ops
  have huses := h.uses
  have hseen := h.stopSeen
  have hpending := h.pending
  have hidle (hneg : c.stopping < 0) : c.opsPending = 0 ∧ c.uses = c.useCount ∧ c.pendingStops = 0 := by
    have hrefs := (h.idle hneg).1
    grind
  have hpos : 0 < c.pendingStops → 0 < c.stopping ∧ c.refs = 0 := by grind
  have hused (hzero : c.stopping = 0) : c.uses = c.useCount + 1 := by
    have hnone : c.pendingStops = 0 := by grind
    rw [pendingStops] at hnone
    grind [ConnLock.pending]
  exact {
    assertions := h.failed
    opsPending := by grind
    incRef := by grind [h.refInc]
    atMostOnce := by grind
    notBefore := by grind
    notMissed := by grind
    nextUse := fun hbefore => (hidle (h.held (.inr (.inr (.inr hbefore)))).1).2.1
    free := fun hfree => by
      obtain ⟨hneg, hstored⟩ := h.held (.inl hfree)
      obtain ⟨hzero, hstops, hnone⟩ := hidle hneg
      have htesting := (h.pooled (.inl hfree)).2
      have hholders := h.holders
      rw [Connection.holders, hfree, Bool.toNat_true] at hholders
      exact ⟨hzero, hstops, hnone, by omega, List.length_eq_zero_iff.1 (by omega), by omega⟩ }

lemma Ok.mono {live' : Bool} (h : c.Ok live) (hlive : live' = true → live = true) : c.Ok live' := by
  have hholders : c.holders live' ≤ c.holders live := by
    simp only [Connection.holders]
    grind
  exact { h with
    holders := hholders.trans h.holders
    held := fun hheld => h.held (by grind)
    auto := fun hautofree => ⟨(h.auto hautofree).1, fun hpos =>
      ⟨((h.auto hautofree).2 hpos).1, Nat.le_zero.1 (hholders.trans_eq ((h.auto hautofree).2 hpos).2)⟩⟩ }

lemma init_ok : Ok live { frees := 1 } := by
  constructor <;> simp [pendingStops, holders, ConnLock.first, ConnLock.unmarked, ConnLock.pending]

end Steps

end Connection

structure ConnectionManager (ι : Type) where
  conns : ι → Connection
  freeConnections : List ι
  incomingCount : ℕ
  maxIncoming : ℕ
  shutdown : Bool
  isDll : Bool

inductive PoolEvent (ι : Type) where
  | connection (i : ι) (e : ConnectionEvent)
  | getFreeConnection (incoming : Bool)
  | release (i : ι)
  | startShutdown
  deriving DecidableEq

namespace ConnectionManager
variable {ι : Type} [DecidableEq ι]

/-- The shutdown does not keep connections from being freed. -/
def live (m : ConnectionManager ι) : Bool := !m.shutdown || m.isDll

def init (maxIncoming : ℕ) (isDll : Bool) : ConnectionManager ι where
  conns _ := { frees := 1 }
  freeConnections := []
  incomingCount := 0
  maxIncoming := maxIncoming
  shutdown := false
  isDll := isDll

def set (m : ConnectionManager ι) (i : ι) (c : Connection) : ConnectionManager ι :=
  { m with conns := Function.update m.conns i c }

def step (m : ConnectionManager ι) : PoolEvent ι → Option (ConnectionManager ι)
  | .connection i e => ((m.conns i).step m.shutdown m.live e).map (m.set i)
  | .getFreeConnection incoming =>
    match m.freeConnections with
    | [] => none
    | i :: rest =>
      if incoming ∧ m.maxIncoming ≤ m.incomingCount then none
      else
        let c := m.conns i
        some { m.set i { c with isFree := false, incoming := incoming, clients := ⟨false, .got⟩ :: c.clients } with
          freeConnections := rest
          incomingCount := if incoming then m.incomingCount + 1 else m.incomingCount }
  | .release i =>
    let c := m.conns i
    if c.releasing = 0 then none
    else if c.isFree then some (m.set i { c with releasing := c.releasing - 1 })
    else
      some { m.set i { c with releasing := c.releasing - 1, isFree := true } with
        freeConnections := i :: m.freeConnections
        incomingCount := if c.incoming then m.incomingCount - 1 else m.incomingCount }
  | .startShutdown => some { m with shutdown := true }

def incomings [Fintype ι] (m : ConnectionManager ι) : Finset ι :=
  Finset.univ.filter fun i => (m.conns i).isFree = false ∧ (m.conns i).incoming = true

structure Ok [Fintype ι] (m : ConnectionManager ι) : Prop where
  conns : ∀ i, (m.conns i).Ok m.live
  nodup : m.freeConnections.Nodup
  mem : ∀ i, i ∈ m.freeConnections ↔ (m.conns i).isFree = true
  count : m.incomingCount = m.incomings.card

def Harmless (m : ConnectionManager ι) : PoolEvent ι → Prop
  | .connection i e => (m.conns i).Harmless m.live e
  | _ => True

/-- Every connection is used as it is to be; the list has every free connection once, and the count is that of the
connections in use that came from outside. -/
structure Protocol [Fintype ι] (m : ConnectionManager ι) : Prop where
  conns : ∀ i, (m.conns i).Protocol
  nodup : m.freeConnections.Nodup
  mem : ∀ i, i ∈ m.freeConnections ↔ (m.conns i).isFree = true
  incomingCount : m.incomingCount = m.incomings.card

instance (m : ConnectionManager ι) (e : PoolEvent ι) : Decidable (m.Harmless e) := by
  unfold Harmless Connection.Harmless
  split
  · split <;> infer_instance
  · infer_instance

lemma set_conns_self (m : ConnectionManager ι) (i : ι) (c : Connection) : (m.set i c).conns i = c :=
  Function.update_self ..

lemma set_conns_ne (m : ConnectionManager ι) {i j : ι} (c : Connection) (h : j ≠ i) :
    (m.set i c).conns j = m.conns j := Function.update_of_ne h ..

section Steps
variable {m m' : ConnectionManager ι} {e : PoolEvent ι}

lemma forall_set {P : Connection → Prop} {i : ι} {c : Connection} (h : ∀ j, P (m.conns j)) (hc : P c) (j : ι) :
    P ((m.set i c).conns j) := by
  by_cases hj : j = i
  · rw [hj, set_conns_self]
    exact hc
  · rw [set_conns_ne m c hj]
    exact h j

variable [Fintype ι]

omit [DecidableEq ι] in
lemma init_ok (maxIncoming : ℕ) (isDll : Bool) : (init maxIncoming isDll : ConnectionManager ι).Ok where
  conns _ := Connection.init_ok
  nodup := List.nodup_nil
  mem i := iff_of_false List.not_mem_nil Bool.false_ne_true
  count := by simp [init, incomings]

lemma incomings_set (m : ConnectionManager ι) (i : ι) (c : Connection) : (m.set i c).incomings =
    if c.isFree = false ∧ c.incoming = true then insert i m.incomings else m.incomings.erase i := by
  ext j
  by_cases hj : j = i
  · subst hj
    split_ifs with hc <;> simp [incomings, set_conns_self, hc]
  · split_ifs <;> simp [incomings, set_conns_ne m c hj, hj]

lemma step_ok (h : m.Ok) (hcond : m.Harmless e) (hstep : m.step e = some m') : m'.Ok := by
  cases e with
  | connection i e =>
    obtain ⟨c, hc, rfl⟩ := Option.map_eq_some_iff.1 hstep
    obtain ⟨hfree, hincoming⟩ := Connection.step_isFree hc
    have hsame (j : ι) : ((m.set i c).conns j).isFree = (m.conns j).isFree ∧
        ((m.set i c).conns j).incoming = (m.conns j).incoming := by
      by_cases hj : j = i
      · rw [hj, set_conns_self]
        exact ⟨hfree, hincoming⟩
      · rw [set_conns_ne m c hj]
        exact ⟨rfl, rfl⟩
    refine ⟨forall_set h.conns (Connection.step_ok (h.conns i) hcond hc), h.nodup, fun j => ?_, ?_⟩
    · rw [(hsame j).1]
      exact h.mem j
    · rw [incomings]
      simp only [hsame]
      exact h.count
  | getFreeConnection incoming =>
    rw [step] at hstep
    split at hstep
    · cases hstep
    · next i rest hlist =>
      by_cases hfull : incoming = true ∧ m.maxIncoming ≤ m.incomingCount
      · rw [if_pos hfull] at hstep
        cases hstep
      rw [if_neg hfull] at hstep
      cases hstep
      have hfree : (m.conns i).isFree = true := (h.mem i).1 (by simp [hlist])
      have hnodup := h.nodup
      rw [hlist, List.nodup_cons] at hnodup
      refine ⟨forall_set h.conns ((h.conns i).get hfree incoming), hnodup.2, fun j => ?_, ?_⟩
      · have hmem := h.mem j
        rw [hlist, List.mem_cons] at hmem
        by_cases hj : j = i
        · simp [hj, set_conns_self, hnodup.1]
        · simpa [set_conns_ne m _ hj, hj] using hmem
      · have hnot : i ∉ m.incomings := by simp [incomings, hfree]
        refine Eq.trans ?_ (congrArg Finset.card (incomings_set m i _)).symm
        cases incoming with
        | true => simp [Finset.card_insert_of_notMem hnot, h.count]
        | false => simp [Finset.erase_eq_of_notMem hnot, h.count]
  | release i =>
    rw [step] at hstep
    by_cases hreleasing : (m.conns i).releasing = 0
    · simp [hreleasing] at hstep
    obtain ⟨hfree, hrelease⟩ := (h.conns i).release hreleasing
    simp only [hreleasing, hfree, if_false, Bool.false_eq_true] at hstep
    cases hstep
    have hnot : i ∉ m.freeConnections := fun hmem => by simp [(h.mem i).1 hmem] at hfree
    refine ⟨forall_set h.conns hrelease, List.nodup_cons.2 ⟨hnot, h.nodup⟩, fun j => ?_, ?_⟩
    · by_cases hj : j = i
      · simp [hj, set_conns_self]
      · simpa [set_conns_ne m _ hj, hj] using h.mem j
    · refine Eq.trans ?_ (congrArg Finset.card (incomings_set m i _)).symm
      cases hincoming : (m.conns i).incoming with
      | true =>
        have hmem : i ∈ m.incomings := by simp [incomings, hfree, hincoming]
        simp [Finset.card_erase_of_mem hmem, h.count]
      | false =>
        have hmem : i ∉ m.incomings := by simp [incomings, hincoming]
        simp [Finset.erase_eq_of_notMem hmem, h.count]
  | startShutdown =>
    cases hstep
    exact ⟨fun i => (h.conns i).mono fun hlive => by grind [live], h.nodup, h.mem, h.count⟩

end Steps

/-- Any number of threads, in any order: while no step does harm, all connections keep the protocol. -/
theorem run_protocol [Fintype ι] (maxIncoming : ℕ) (isDll : Bool) (es : List (PoolEvent ι)) {m : ConnectionManager ι}
    (hmeets : Meets step Harmless (init maxIncoming isDll) es) (hrun : run step (init maxIncoming isDll) es = some m) :
    m.Protocol := by
  have h : m.Ok := run_induct (fun _ _ _ hok hcond hstep => step_ok hok hcond hstep) (init_ok maxIncoming isDll) hmeets hrun
  exact ⟨fun i => (h.conns i).protocol, h.nodup, h.mem, h.count⟩

section Runs

def startUse : List (PoolEvent (Fin 1)) :=
  [.getFreeConnection false, .connection 0 (.setAutofree false), .connection 0 (.initTests ⟨true, .got⟩),
    .connection 0 (.initTests ⟨true, .opsTested⟩), .connection 0 (.initTests ⟨true, .stoppingTested⟩),
    .connection 0 (.initStores true)]

def stopUse : List (PoolEvent (Fin 1)) :=
  [.stop, .stopCounts, .stopLoads, .stopMarks, .stopPosts, .stopReturns, .handleStop, .handleStopLocks,
    .handleStopCloses, .handleStopStores, .handleStopEnds].map (.connection 0)

def freeFirst : List (PoolEvent (Fin 1)) := [.connection 0 .managerTests, .release 0]

def freeUse : List (PoolEvent (Fin 1)) :=
  [.waitForStopped, .clientFrees, .freeTests, .storeAutofree].map (.connection 0)

/-- `HandleStop` finds that `m_autofree` is set by then, and frees the connection that another thread has got. -/
def freeTwice : List (PoolEvent (Fin 1)) :=
  freeFirst ++ startUse ++ stopUse ++ freeUse ++ [.connection 0 .handleStopTests] ++ freeFirst ++ startUse ++
    [.incRef, .incRefAdds, .freeTests, .storeAutofree].map (.connection 0) ++ freeFirst

def freeOnce : List (PoolEvent (Fin 1)) :=
  freeFirst ++ startUse ++ stopUse ++ [.connection 0 .handleStopTests] ++ freeUse ++ freeFirst ++ startUse ++
    [.connection 0 .incRef, .connection 0 .incRefAdds]

theorem freeOnce_protocol :
    ∃ m, run step (init 1 false) freeOnce = some m ∧ (m.conns 0).opsPending = 1 ∧ m.Protocol := by
  have hany : (run step (init 1 false) freeOnce).any (fun m => (m.conns 0).opsPending = 1) = true := by decide
  obtain ⟨m, hrun, hops⟩ := (Option.any_eq_true _ _).1 hany
  exact ⟨m, hrun, of_decide_eq_true hops, run_protocol 1 false freeOnce (by decide) hrun⟩

/-- The list has a connection that its second thread uses. -/
theorem freeTwice_freesInUse : ∃ m, run step (init 1 false) freeTwice = some m ∧ m.shutdown = false ∧
    (m.conns 0).isFree = true ∧ (m.conns 0).opsPending = 1 ∧ ¬ m.Protocol := by
  have hany : (run step (init 1 false) freeTwice).any (fun m => m.shutdown = false ∧ (m.conns 0).isFree = true ∧
      (m.conns 0).opsPending = 1) = true := by decide
  obtain ⟨m, hrun, hfree⟩ := (Option.any_eq_true _ _).1 hany
  obtain ⟨hshutdown, hfree, hops⟩ := of_decide_eq_true hfree
  refine ⟨m, hrun, hshutdown, hfree, hops, fun h => ?_⟩
  have hzero : (m.conns 0).opsPending = 0 := ((h.conns 0).free hfree).1
  rw [hops] at hzero
  cases hzero

end Runs

end ConnectionManager

end CredaCash.Node
