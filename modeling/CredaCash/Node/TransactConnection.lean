import CredaCash.Machine
import Mathlib.Data.List.Nodup
import Mathlib.Logic.Function.Basic

/-! A pooled connection of the transaction server: its use count is the ticket of the request that waits on it, for the
callback of the validation and for the timer. -/

namespace CredaCash.Node
open Machine

inductive ConnPhase where
  | stopped
  | opened
  | stopping
  deriving DecidableEq

/-- The callback id that a callback brings back, and the request that it belongs to; the code has only the id. -/
structure Ticket where
  callbackId : UInt32
  request : ℕ
  deriving DecidableEq

inductive EnqueueResult where
  | error
  | valid
  /-- A row is inserted, with the callback of this request. -/
  | inserted
  /-- The transaction is in the queue already, with the callback of another request or none. -/
  | queued
  deriving DecidableEq

/-- Where the thread of `HandleTx` is. -/
inductive TxHandler where
  | idle
  | loaded (callbackId : UInt32)
  | enqueued (callbackId : UInt32)
  /-- Before `SendServerError` or `SendValidateResult(0)`. -/
  | replying
  deriving DecidableEq

/-- A callback that holds an `AutoCount`, and where it is. -/
inductive Callback where
  /-- In `HandleValidateDone`, before the count is incremented. -/
  | done (t : Ticket)
  | expired (t : Ticket)
  | sendResult (t : Ticket)
  | sendTimeout (t : Ticket)
  deriving DecidableEq

/-- An answer that was sent: the request of the client that gets it, and the request whose result it is. -/
structure Answer where
  request : ℕ
  source : ℕ
  deriving DecidableEq

structure Conn where
  useCount : UInt32
  phase : ConnPhase
  handler : TxHandler
  timer : Option Ticket
  callbacks : List Callback
  tickets : List Ticket
  /-- The request of this use of the connection, and the number of the next one: no part of the code. -/
  request : Option ℕ
  nextRequest : ℕ
  /-- The request waits: its use count is read, and no callback has taken its ticket. No part of the code. -/
  waiting : Bool
  answers : List Answer

def Conn.init : Conn := ⟨0, .stopped, .idle, none, [], [], none, 0, false, []⟩

inductive ConnEvent where
  | start
  | handleTx
  | enqueue (result : EnqueueResult)
  | reply
  | setTimer
  | validateDone (t : Ticket)
  | timerExpires
  /-- `m_use_count.fetch_add(1)` and the comparison with the callback id. -/
  | takeTicket (cb : Callback)
  | send (cb : Callback)
  | stop
  | handleStop

def Callback.ticket : Callback → Ticket
  | .done t | .expired t | .sendResult t | .sendTimeout t => t

def Callback.sends : Callback → Bool
  | .sendResult _ | .sendTimeout _ => true
  | _ => false

def Callback.toSend : Callback → Callback
  | .done t => .sendResult t
  | .expired t => .sendTimeout t
  | cb => cb

/-- `WriteAsync` of an answer, which does nothing on a connection that is stopping. -/
def Conn.write (c : Conn) (source : ℕ) : Conn :=
  match c.phase, c.request with
  | .opened, some request => { c with answers := ⟨request, source⟩ :: c.answers }
  | _, _ => c

/-- `TxEnqueueValidate`, seen from the connection. -/
def Conn.enqueue (c : Conn) (callbackId : UInt32) (request : ℕ) : EnqueueResult → Conn
  | .error | .valid => { c with handler := .replying }
  | .inserted => { c with handler := .enqueued callbackId, tickets := ⟨callbackId, request⟩ :: c.tickets }
  | .queued => { c with handler := .enqueued callbackId }

/-- The count is incremented, whatever it was; the callback goes on if it was its id. -/
def Conn.takeTicket (c : Conn) (cb : Callback) : Conn :=
  if cb.ticket.callbackId = c.useCount then
    { c with useCount := c.useCount + 1, callbacks := cb.toSend :: c.callbacks.erase cb, waiting := false }
  else { c with useCount := c.useCount + 1, callbacks := c.callbacks.erase cb }

/-- `SendValidateResult` sets the timer anew, which cancels the validation timer. -/
def Conn.sendAnswer (c : Conn) (cb : Callback) : Conn :=
  { c with
    callbacks := c.callbacks.erase cb
    timer := match cb with
      | .sendResult _ => none
      | _ => c.timer }.write cb.ticket.request

def connStep (c : Conn) : ConnEvent → Option Conn
  | .start => if c.phase = .stopped then some { c with phase := .opened, request := none } else none
  | .handleTx =>
    if c.phase = .opened ∧ c.handler = .idle ∧ c.request = none then
      some { c with
        handler := .loaded c.useCount
        timer := none
        request := some c.nextRequest
        nextRequest := c.nextRequest + 1
        waiting := true }
    else none
  | .enqueue result => match c.handler, c.request with
    | .loaded callbackId, some request => some (c.enqueue callbackId request result)
    | _, _ => none
  | .reply => match c.handler, c.request with
    | .replying, some request => some ({ c with handler := .idle, waiting := false }.write request)
    | _, _ => none
  | .setTimer => match c.handler, c.request with
    | .enqueued callbackId, some request => some
      { c with handler := .idle, timer := if c.phase = .opened then some ⟨callbackId, request⟩ else c.timer }
    | _, _ => none
  | .validateDone t =>
    if t ∈ c.tickets then some
      { c with
        tickets := c.tickets.erase t
        callbacks := if c.phase = .opened then .done t :: c.callbacks else c.callbacks }
    else none
  | .timerExpires => c.timer.map fun t => { c with timer := none, callbacks := .expired t :: c.callbacks }
  | .takeTicket cb => if cb ∈ c.callbacks ∧ cb.sends = false then some (c.takeTicket cb) else none
  | .send cb => if cb ∈ c.callbacks ∧ cb.sends = true then some (c.sendAnswer cb) else none
  | .stop => some (if c.phase = .opened then { c with phase := .stopping, timer := none } else c)
  | .handleStop =>
    if c.phase = .stopping ∧ c.callbacks = [] ∧ c.handler = .idle then
      some { c with phase := .stopped, useCount := c.useCount + 1, waiting := false }
    else none

def poolStep (pool : ℕ → Conn) (e : ℕ × ConnEvent) : Option (ℕ → Conn) :=
  (connStep (pool e.1) e.2).map (Function.update pool e.1)

/-- A callback takes the ticket of another request: one that waits, or one that has the same number in the count. -/
def takesForeignTicket (c : Conn) : ConnEvent → Bool
  | .takeTicket cb =>
    if c.waiting && c.request = some cb.ticket.request then false
    else c.waiting || cb.ticket.callbackId = c.useCount
  | _ => false

/-- What a request is promised on its connection. -/
structure AnsweredOnce (c : Conn) : Prop where
  own : ∀ a ∈ c.answers, a.source = a.request
  once : (c.answers.map (·.request)).Nodup
  /-- While the connection is not stopped, a request without an answer has one on its way: `HandleTx` is still running,
  or a callback is about to send it, or its timer is set or has expired and its ticket is the use count. -/
  coming : ∀ request, c.phase = .opened → c.request = some request → request ∉ c.answers.map (·.request) →
    c.handler ≠ .idle ∨ (∃ cb ∈ c.callbacks, cb.sends = true ∧ cb.ticket.request = request) ∨
      c.timer = some ⟨c.useCount, request⟩ ∨ .expired ⟨c.useCount, request⟩ ∈ c.callbacks

def Conn.Outstanding (c : Conn) (t : Ticket) : Prop :=
  t ∈ c.tickets ∨ c.timer = some t ∨ ∃ cb ∈ c.callbacks, cb.sends = false ∧ cb.ticket = t

def Conn.answered (c : Conn) : List ℕ := c.answers.map (·.request)

/-- What a connection keeps also while it writes an answer. -/
structure ConnBase (c : Conn) : Prop where
  own : ∀ a ∈ c.answers, a.source = a.request
  once : c.answered.Nodup
  answered_lt : ∀ r ∈ c.answered, r < c.nextRequest
  request_lt : ∀ r, c.request = some r → r < c.nextRequest
  outstanding : ∀ t, c.Outstanding t → t.request < c.nextRequest ∧
    (c.waiting = true → c.request = some t.request → t.callbackId = c.useCount)
  timer_opened : ∀ t, c.timer = some t → c.phase = .opened
  stopped : c.phase = .stopped → c.callbacks = [] ∧ c.handler = .idle ∧ c.waiting = false
  /-- Before `TxEnqueueValidate` has returned there is no ticket of the request. -/
  fresh : (∃ callbackId, c.handler = .loaded callbackId) ∨ c.handler = .replying →
    c.waiting = true ∧ ∀ t, c.Outstanding t → c.request ≠ some t.request
  handler : ∀ callbackId, c.handler = .loaded callbackId ∨ c.handler = .enqueued callbackId →
    c.waiting = true → callbackId = c.useCount
  sends : ∀ cb ∈ c.callbacks, cb.sends = true →
    c.waiting = false ∧ c.request = some cb.ticket.request ∧ cb.ticket.request ∉ c.answered
  sends_one : (c.callbacks.filter (·.sends)).length ≤ 1
  waits : c.waiting = true → ∃ r, c.request = some r ∧ r ∉ c.answered
  timed : ∀ r, c.phase = .opened → c.waiting = true → c.request = some r →
    c.handler ≠ .idle ∨ c.timer = some ⟨c.useCount, r⟩ ∨ .expired ⟨c.useCount, r⟩ ∈ c.callbacks

/-- What every step keeps as long as no callback takes the ticket of another request. -/
structure ConnInv (c : Conn) : Prop extends ConnBase c where
  answering : ∀ r, c.phase = .opened → c.request = some r → r ∉ c.answered →
    c.waiting = true ∨ ∃ cb ∈ c.callbacks, cb.sends = true

theorem ConnInv.answeredOnce {c : Conn} (h : ConnInv c) : AnsweredOnce c where
  own := h.own
  once := h.once
  coming := fun r hopen hrequest hr => by
    rcases h.answering r hopen hrequest hr with hwaiting | ⟨cb, hcb, hsends⟩
    · rcases h.timed r hopen hwaiting hrequest with hhandler | htimer | hexpired
      · exact .inl hhandler
      · exact .inr (.inr (.inl htimer))
      · exact .inr (.inr (.inr hexpired))
    · obtain ⟨-, hcurrent, -⟩ := h.sends cb hcb hsends
      rw [hrequest] at hcurrent
      exact .inr (.inl ⟨cb, hcb, hsends, (Option.some.inj hcurrent).symm⟩)

theorem ConnInv.init : ConnInv .init where
  toConnBase := by constructor <;> simp [Conn.init, Conn.answered, Conn.Outstanding]
  answering := nofun

section Steps
variable {c c' : Conn} {cb : Callback} {t : Ticket} {callbackId : UInt32} {r : ℕ}

theorem ConnInv.start (h : ConnInv c) (hphase : c.phase = .stopped) :
    ConnInv { c with phase := .opened, request := none } := by
  obtain ⟨hcallbacks, hhandler, hwaiting⟩ := h.stopped hphase
  exact {
    own := h.own
    once := h.once
    answered_lt := h.answered_lt
    request_lt := nofun
    outstanding := fun t ht => ⟨(h.outstanding t ht).1, nofun⟩
    timer_opened := fun _ _ => rfl
    stopped := nofun
    fresh := fun hloaded => by rcases hloaded with ⟨_, hl⟩ | hl <;> rw [hhandler] at hl <;> cases hl
    handler := fun _ hl => by rcases hl with hl | hl <;> rw [hhandler] at hl <;> cases hl
    sends := fun cb hcb => by rw [hcallbacks] at hcb; cases hcb
    sends_one := h.sends_one
    waits := fun hw => by rw [hwaiting] at hw; cases hw
    answering := nofun
    timed := nofun }

theorem ConnInv.handleTx (h : ConnInv c) (hphase : c.phase = .opened) (hrequest : c.request = none) :
    ConnInv
      { c with
        handler := .loaded c.useCount
        timer := none
        request := some c.nextRequest
        nextRequest := c.nextRequest + 1
        waiting := true } := by
  have hold (t) (ht : t ∈ c.tickets ∨ (none : Option Ticket) = some t ∨ ∃ cb ∈ c.callbacks, cb.sends = false ∧
      cb.ticket = t) : t.request < c.nextRequest := by
    rcases ht with ht | ht | ht
    · exact (h.outstanding t (.inl ht)).1
    · cases ht
    · exact (h.outstanding t (.inr (.inr ht))).1
  have hnew (t : Ticket) (ht : t.request < c.nextRequest) : some c.nextRequest ≠ some t.request := by
    rintro heq
    have := Option.some.inj heq
    omega
  exact {
    own := h.own
    once := h.once
    answered_lt := fun r hr => Nat.lt_succ_of_lt (h.answered_lt r hr)
    request_lt := fun r hr => by cases hr; exact Nat.lt_succ_self _
    outstanding := fun t ht => ⟨Nat.lt_succ_of_lt (hold t ht), fun _ heq => absurd heq (hnew t (hold t ht))⟩
    timer_opened := nofun
    stopped := fun hs => by rw [hphase] at hs; cases hs
    fresh := fun _ => ⟨rfl, fun t ht => hnew t (hold t ht)⟩
    handler := fun id hl _ => by rcases hl with hl | hl <;> cases hl; rfl
    sends := fun cb hcb hs => by
      obtain ⟨-, hcurrent, -⟩ := h.sends cb hcb hs
      rw [hrequest] at hcurrent
      cases hcurrent
    sends_one := h.sends_one
    waits := fun _ => ⟨_, rfl, fun hr => absurd (h.answered_lt _ hr) (Nat.lt_irrefl _)⟩
    answering := fun _ _ _ _ => .inl rfl
    timed := fun _ _ _ _ => .inl nofun }

theorem ConnInv.enqueue {result : EnqueueResult} (h : ConnInv c) (hloaded : c.handler = .loaded callbackId)
    (hrequest : c.request = some r) : ConnInv (c.enqueue callbackId r result) := by
  obtain ⟨hwaiting, hfresh⟩ := h.fresh (.inl ⟨callbackId, hloaded⟩)
  have hid := h.handler callbackId (.inl hloaded) hwaiting
  have hopen : c.phase ≠ .stopped := fun hs => by
    rw [(h.stopped hs).2.1] at hloaded
    cases hloaded
  cases result with
  | error | valid => exact {
      h with
      stopped := fun hs => absurd hs hopen
      fresh := fun _ => ⟨hwaiting, hfresh⟩
      handler := fun _ hl => by rcases hl with hl | hl <;> cases hl
      timed := fun _ _ _ _ => .inl nofun }
  | inserted => exact {
      h with
      outstanding := fun t ht => by
        rcases ht with ht | ht | ht
        · rcases List.mem_cons.1 ht with rfl | ht
          · exact ⟨h.request_lt r hrequest, fun _ _ => hid⟩
          · exact h.outstanding t (.inl ht)
        · exact h.outstanding t (.inr (.inl ht))
        · exact h.outstanding t (.inr (.inr ht))
      stopped := fun hs => absurd hs hopen
      fresh := fun hl => by rcases hl with ⟨_, hl⟩ | hl <;> cases hl
      handler := fun id hl _ => by rcases hl with hl | hl <;> cases hl; exact hid
      timed := fun _ _ _ _ => .inl nofun }
  | queued => exact {
      h with
      stopped := fun hs => absurd hs hopen
      fresh := fun hl => by rcases hl with ⟨_, hl⟩ | hl <;> cases hl
      handler := fun id hl _ => by rcases hl with hl | hl <;> cases hl; exact hid
      timed := fun _ _ _ _ => .inl nofun }

theorem ConnInv.setTimer (h : ConnInv c) (hhandler : c.handler = .enqueued callbackId) (hrequest : c.request = some r) :
    ConnInv
      { c with
        handler := .idle
        timer := if c.phase = .opened then some ⟨callbackId, r⟩ else c.timer } := by
  have hid := h.handler callbackId (.inr hhandler)
  have htimer (t) (ht : (if c.phase = .opened then some ⟨callbackId, r⟩ else c.timer) = some t) :
      t = ⟨callbackId, r⟩ ∧ c.phase = .opened := by
    split_ifs at ht with hphase
    · cases ht
      exact ⟨rfl, hphase⟩
    · exact absurd (h.timer_opened t ht) hphase
  exact {
    h with
    outstanding := fun t ht => by
      rcases ht with ht | ht | ht
      · exact h.outstanding t (.inl ht)
      · obtain ⟨rfl, -⟩ := htimer t ht
        exact ⟨h.request_lt r hrequest, fun hw _ => hid hw⟩
      · exact h.outstanding t (.inr (.inr ht))
    timer_opened := fun t ht => (htimer t ht).2
    stopped := fun hs => ⟨(h.stopped hs).1, rfl, (h.stopped hs).2.2⟩
    fresh := fun hl => by rcases hl with ⟨_, hl⟩ | hl <;> cases hl
    handler := fun _ hl => by rcases hl with hl | hl <;> cases hl
    timed := fun r' hopen hw hr' => by
      rw [hrequest] at hr'
      cases hr'
      rw [if_pos hopen, hid hw]
      exact .inr (.inl rfl) }

theorem ConnInv.validateDone (h : ConnInv c) (ht : t ∈ c.tickets) :
    ConnInv
      { c with
        tickets := c.tickets.erase t
        callbacks := if c.phase = .opened then .done t :: c.callbacks else c.callbacks } := by
  have hcb (cb) (hcb : cb ∈ if c.phase = .opened then .done t :: c.callbacks else c.callbacks) :
      cb = .done t ∨ cb ∈ c.callbacks := by
    split_ifs at hcb
    · exact List.mem_cons.1 hcb
    · exact .inr hcb
  have hmem (cb) (hcb : cb ∈ c.callbacks) : cb ∈ if c.phase = .opened then .done t :: c.callbacks else c.callbacks := by
    split_ifs
    · exact List.mem_cons_of_mem _ hcb
    · exact hcb
  have houtstanding (t') (ht' : ({ c with
      tickets := c.tickets.erase t
      callbacks := if c.phase = .opened then .done t :: c.callbacks else c.callbacks } : Conn).Outstanding t') :
      c.Outstanding t' := by
    rcases ht' with ht' | ht' | ⟨cb, hmem', hs, hticket⟩
    · exact .inl (List.mem_of_mem_erase ht')
    · exact .inr (.inl ht')
    · rcases hcb cb hmem' with rfl | hmem'
      · exact .inl (hticket ▸ ht)
      · exact .inr (.inr ⟨cb, hmem', hs, hticket⟩)
  exact {
    h with
    outstanding := fun t' ht' => h.outstanding t' (houtstanding t' ht')
    stopped := fun hs => by
      dsimp only at hs
      rw [hs, if_neg nofun]
      exact h.stopped hs
    fresh := fun hl => ⟨(h.fresh hl).1, fun t' ht' => (h.fresh hl).2 t' (houtstanding t' ht')⟩
    sends := fun cb hmem' hs => by
      rcases hcb cb hmem' with rfl | hmem'
      · cases hs
      · exact h.sends cb hmem' hs
    sends_one := by
      dsimp only
      split_ifs
      · exact h.sends_one
      · exact h.sends_one
    answering := fun r hopen hr hnot => (h.answering r hopen hr hnot).imp_right fun ⟨cb, hcb, hs⟩ => ⟨cb, hmem cb hcb, hs⟩
    timed := fun r hopen hw hr => (h.timed r hopen hw hr).imp_right (·.imp_right (hmem _)) }

theorem ConnInv.timerExpires (h : ConnInv c) (ht : c.timer = some t) :
    ConnInv { c with timer := none, callbacks := .expired t :: c.callbacks } := by
  have houtstanding (t') (ht' : ({ c with timer := none, callbacks := .expired t :: c.callbacks } : Conn).Outstanding t') :
      c.Outstanding t' := by
    rcases ht' with ht' | ht' | ⟨cb, hmem', hs, hticket⟩
    · exact .inl ht'
    · cases ht'
    · rcases List.mem_cons.1 hmem' with rfl | hmem'
      · exact .inr (.inl (hticket ▸ ht))
      · exact .inr (.inr ⟨cb, hmem', hs, hticket⟩)
  exact {
    h with
    outstanding := fun t' ht' => h.outstanding t' (houtstanding t' ht')
    timer_opened := nofun
    stopped := fun hs => by
      have hopen := h.timer_opened t ht
      dsimp only at hs
      rw [hs] at hopen
      cases hopen
    fresh := fun hl => ⟨(h.fresh hl).1, fun t' ht' => (h.fresh hl).2 t' (houtstanding t' ht')⟩
    sends := fun cb hmem' hs => by
      rcases List.mem_cons.1 hmem' with rfl | hmem'
      · cases hs
      · exact h.sends cb hmem' hs
    answering := fun r hopen hr hnot =>
      (h.answering r hopen hr hnot).imp_right fun ⟨cb, hcb, hs⟩ => ⟨cb, List.mem_cons_of_mem _ hcb, hs⟩
    timed := fun r hopen hw hr => by
      rcases h.timed r hopen hw hr with hl | htimer | hexpired
      · exact .inl hl
      · rw [ht] at htimer
        cases htimer
        exact .inr (.inr (List.mem_cons_self ..))
      · exact .inr (.inr (List.mem_cons_of_mem _ hexpired)) }

theorem length_filter_erase (hcb : cb ∈ c.callbacks) (hs : cb.sends = true) (h : (c.callbacks.filter (·.sends)).length ≤ 1) :
    ∀ cb' ∈ c.callbacks.erase cb, cb'.sends = false := by
  intro cb' hcb'
  by_contra hsends
  have hlen := ((List.perm_cons_erase hcb).filter (·.sends)).length_eq
  rw [List.filter_cons, if_pos hs, List.length_cons] at hlen
  have hpos : 0 < ((c.callbacks.erase cb).filter (·.sends)).length :=
    List.length_pos_of_mem (List.mem_filter.2 ⟨hcb', by simpa using hsends⟩)
  omega

theorem ConnInv.missTicket (h : ConnInv c) (hs : cb.sends = false) (hwaiting : c.waiting = false) :
    ConnInv { c with useCount := c.useCount + 1, callbacks := c.callbacks.erase cb } := by
  have houtstanding (t) (ht : ({ c with
      useCount := c.useCount + 1, callbacks := c.callbacks.erase cb } : Conn).Outstanding t) : c.Outstanding t := by
    rcases ht with ht | ht | ⟨cb', hmem', hs', hticket⟩
    · exact .inl ht
    · exact .inr (.inl ht)
    · exact .inr (.inr ⟨cb', List.mem_of_mem_erase hmem', hs', hticket⟩)
  have hnot {p : Prop} (hw : c.waiting = true) : p := by
    rw [hwaiting] at hw
    cases hw
  exact {
    h with
    outstanding := fun t ht => ⟨(h.outstanding t (houtstanding t ht)).1, fun hw => hnot hw⟩
    stopped := fun hstop => by
      obtain ⟨hcallbacks, hhandler, -⟩ := h.stopped hstop
      exact ⟨by rw [hcallbacks, List.erase_nil], hhandler, hwaiting⟩
    fresh := fun hl => hnot (h.fresh hl).1
    handler := fun _ _ hw => hnot hw
    sends := fun cb' hcb' => h.sends cb' (List.mem_of_mem_erase hcb')
    sends_one := Nat.le_trans (List.Sublist.length_le (List.erase_sublist.filter _)) h.sends_one
    answering := fun r hopen hr hr' => by
      rcases h.answering r hopen hr hr' with hw | ⟨cb', hcb', hs'⟩
      · exact hnot hw
      · refine .inr ⟨cb', (List.mem_erase_of_ne ?_).2 hcb', hs'⟩
        rintro rfl
        rw [hs] at hs'
        cases hs'
    timed := fun _ _ hw => hnot hw }

theorem ConnInv.hitTicket (h : ConnInv c) (hcb : cb ∈ c.callbacks) (hs : cb.sends = false) (hwaiting : c.waiting = true)
    (hrequest : c.request = some cb.ticket.request) :
    ConnInv
      { c with useCount := c.useCount + 1, callbacks := cb.toSend :: c.callbacks.erase cb, waiting := false } := by
  have hticket : cb.toSend.ticket = cb.ticket := by cases cb <;> rfl
  have hsends : cb.toSend.sends = true := by
    cases cb with
    | done t => rfl
    | expired t => rfl
    | sendResult t => cases hs
    | sendTimeout t => cases hs
  have hnone (cb') (hcb' : cb' ∈ c.callbacks) : cb'.sends = false := by
    by_contra hs'
    obtain ⟨hw, -⟩ := h.sends cb' hcb' (by simpa using hs')
    rw [hwaiting] at hw
    cases hw
  obtain ⟨r, hr, hr'⟩ := h.waits hwaiting
  rw [hrequest] at hr
  cases hr
  have hopen : c.phase ≠ .stopped := fun hstop => by
    rw [(h.stopped hstop).2.2] at hwaiting
    cases hwaiting
  have hloaded : ¬ ((∃ callbackId, c.handler = .loaded callbackId) ∨ c.handler = .replying) := fun hl =>
    (h.fresh hl).2 cb.ticket (.inr (.inr ⟨cb, hcb, hs, rfl⟩)) hrequest
  exact {
    h with
    outstanding := fun t ht => by
      refine ⟨?_, nofun⟩
      rcases ht with ht | ht | ⟨cb', hmem', hs', rfl⟩
      · exact (h.outstanding t (.inl ht)).1
      · exact (h.outstanding t (.inr (.inl ht))).1
      · rcases List.mem_cons.1 hmem' with rfl | hmem'
        · rw [hsends] at hs'
          cases hs'
        · exact (h.outstanding _ (.inr (.inr ⟨cb', List.mem_of_mem_erase hmem', hs', rfl⟩))).1
    stopped := fun hstop => absurd hstop hopen
    fresh := fun hl => absurd hl hloaded
    handler := nofun
    sends := fun cb' hcb' hs' => by
      rcases List.mem_cons.1 hcb' with rfl | hcb'
      · rw [hticket]
        exact ⟨rfl, hrequest, hr'⟩
      · rw [hnone cb' (List.mem_of_mem_erase hcb')] at hs'
        cases hs'
    sends_one := by
      rw [List.filter_cons_of_pos hsends, List.filter_eq_nil_iff.2]
      · exact Nat.le_refl _
      · intro cb' hcb'
        rw [hnone cb' (List.mem_of_mem_erase hcb')]
        nofun
    waits := nofun
    answering := fun _ _ _ _ => .inr ⟨cb.toSend, List.mem_cons_self .., hsends⟩
    timed := nofun }

theorem ConnInv.takeTicket (h : ConnInv c) (hcb : cb ∈ c.callbacks) (hs : cb.sends = false)
    (hforeign : takesForeignTicket c (.takeTicket cb) = false) : ConnInv (c.takeTicket cb) := by
  unfold Conn.takeTicket
  unfold takesForeignTicket at hforeign
  cases hwaiting : c.waiting with
  | true =>
    rw [hwaiting] at hforeign
    have hrequest : c.request = some cb.ticket.request := by
      by_contra hne
      simp [hne] at hforeign
    have hid := (h.outstanding cb.ticket (.inr (.inr ⟨cb, hcb, hs, rfl⟩))).2 hwaiting hrequest
    rw [if_pos hid]
    exact h.hitTicket hcb hs hwaiting hrequest
  | false =>
    have hid : cb.ticket.callbackId ≠ c.useCount := by simpa [hwaiting] using hforeign
    rw [if_neg hid]
    have hmiss := h.missTicket hs hwaiting
    rwa [hwaiting] at hmiss

theorem Conn.write_opened {source : ℕ} (hphase : c.phase = .opened) (hrequest : c.request = some r) :
    c.write source = { c with answers := ⟨r, source⟩ :: c.answers } := by
  simp only [Conn.write, hphase, hrequest]

theorem Conn.write_closed {source : ℕ} (hphase : c.phase ≠ .opened) : c.write source = c := by
  unfold Conn.write
  split
  · exact absurd ‹_› hphase
  · rfl

theorem ConnBase.write (h : ConnBase c) (hrequest : c.request = some r) (hr : r ∉ c.answered)
    (hwaiting : c.waiting = false) (hsends : ∀ cb ∈ c.callbacks, cb.sends = false) : ConnInv (c.write r) := by
  by_cases hphase : c.phase = .opened
  · rw [Conn.write_opened hphase hrequest]
    exact {
      h with
      own := List.forall_mem_cons.2 ⟨rfl, h.own⟩
      once := List.nodup_cons.2 ⟨hr, h.once⟩
      answered_lt := List.forall_mem_cons.2 ⟨h.request_lt r hrequest, h.answered_lt⟩
      sends := fun cb hcb hs => by
        rw [hsends cb hcb] at hs
        cases hs
      waits := fun hw => by
        rw [hwaiting] at hw
        cases hw
      answering := fun r' _ hr' hnot' => by
        rw [hrequest] at hr'
        cases hr'
        exact absurd (List.mem_cons_self ..) hnot' }
  · rw [Conn.write_closed hphase]
    exact { h with answering := fun _ hopen => absurd hopen hphase }

theorem ConnInv.reply (h : ConnInv c) (hhandler : c.handler = .replying) (hrequest : c.request = some r) :
    ConnInv ({ c with handler := .idle, waiting := false }.write r) := by
  obtain ⟨hwaiting, -⟩ := h.fresh (.inr hhandler)
  obtain ⟨r', hr', hnot⟩ := h.waits hwaiting
  rw [hrequest] at hr'
  cases hr'
  have hsends (cb) (hcb : cb ∈ c.callbacks) : cb.sends = false := by
    by_contra hs
    obtain ⟨hw, -⟩ := h.sends cb hcb (by simpa using hs)
    rw [hwaiting] at hw
    cases hw
  refine ConnBase.write (c := { c with handler := .idle, waiting := false }) ?_ hrequest hnot rfl hsends
  exact {
    h with
    outstanding := fun t ht => ⟨(h.outstanding t ht).1, nofun⟩
    stopped := fun hs => ⟨(h.stopped hs).1, rfl, rfl⟩
    fresh := fun hl => by rcases hl with ⟨_, hl⟩ | hl <;> cases hl
    handler := nofun
    sends := fun cb hcb hs => ⟨rfl, (h.sends cb hcb hs).2⟩
    waits := nofun
    timed := nofun }

theorem ConnInv.sendAnswer (h : ConnInv c) (hcb : cb ∈ c.callbacks) (hs : cb.sends = true) :
    ConnInv (c.sendAnswer cb) := by
  obtain ⟨hwaiting, hrequest, hnot⟩ := h.sends cb hcb hs
  have hsends := length_filter_erase hcb hs h.sends_one
  unfold Conn.sendAnswer
  generalize htimer : (match cb with
    | .sendResult _ => none
    | _ => c.timer) = timer
  have hkeep (t) (ht : timer = some t) : c.timer = some t := by
    subst htimer
    split at ht
    · cases ht
    · exact ht
  refine ConnBase.write (c := { c with callbacks := c.callbacks.erase cb, timer := timer }) ?_ hrequest hnot hwaiting
    hsends
  have houtstanding (t) (ht : ({ c with callbacks := c.callbacks.erase cb, timer := timer } : Conn).Outstanding t) :
      c.Outstanding t := by
    rcases ht with ht | ht | ⟨cb', hmem', hs', hticket⟩
    · exact .inl ht
    · exact .inr (.inl (hkeep t ht))
    · exact .inr (.inr ⟨cb', List.mem_of_mem_erase hmem', hs', hticket⟩)
  exact {
    h with
    outstanding := fun t ht => h.outstanding t (houtstanding t ht)
    timer_opened := fun t ht => h.timer_opened t (hkeep t ht)
    stopped := fun hstop => by
      rw [(h.stopped hstop).1] at hcb
      cases hcb
    fresh := fun hl => ⟨(h.fresh hl).1, fun t ht => (h.fresh hl).2 t (houtstanding t ht)⟩
    sends := fun cb' hcb' => h.sends cb' (List.mem_of_mem_erase hcb')
    sends_one := Nat.le_trans (List.Sublist.length_le (List.erase_sublist.filter _)) h.sends_one
    timed := fun _ _ hw => by
      rw [hwaiting] at hw
      cases hw }

theorem ConnInv.stop (h : ConnInv c) : ConnInv { c with phase := .stopping, timer := none } := by
  have houtstanding (t) (ht : ({ c with phase := .stopping, timer := none } : Conn).Outstanding t) :
      c.Outstanding t := by
    rcases ht with ht | ht | ht
    · exact .inl ht
    · cases ht
    · exact .inr (.inr ht)
  exact {
    h with
    outstanding := fun t ht => h.outstanding t (houtstanding t ht)
    timer_opened := nofun
    stopped := nofun
    fresh := fun hl => ⟨(h.fresh hl).1, fun t ht => (h.fresh hl).2 t (houtstanding t ht)⟩
    answering := nofun
    timed := nofun }

theorem ConnInv.handleStop (h : ConnInv c) (hphase : c.phase = .stopping) (hcallbacks : c.callbacks = [])
    (hhandler : c.handler = .idle) :
    ConnInv { c with phase := .stopped, useCount := c.useCount + 1, waiting := false } where
  toConnBase := {
    h with
    outstanding := fun t ht => ⟨(h.outstanding t ht).1, nofun⟩
    timer_opened := fun t ht => by
      have hopen := h.timer_opened t ht
      rw [hphase] at hopen
      cases hopen
    stopped := fun _ => ⟨hcallbacks, hhandler, rfl⟩
    fresh := fun hl => by rcases hl with ⟨_, hl⟩ | hl <;> rw [hhandler] at hl <;> cases hl
    handler := nofun
    sends := fun cb hcb => by
      rw [hcallbacks] at hcb
      cases hcb
    waits := nofun
    timed := nofun }
  answering := nofun

theorem ConnInv.step {e : ConnEvent} (h : ConnInv c) (hforeign : takesForeignTicket c e = false)
    (hstep : connStep c e = some c') : ConnInv c' := by
  cases e with
  | start =>
    simp only [connStep] at hstep
    split_ifs at hstep with hphase
    cases hstep
    exact h.start hphase
  | handleTx =>
    simp only [connStep] at hstep
    split_ifs at hstep with hphase
    cases hstep
    exact h.handleTx hphase.1 hphase.2.2
  | enqueue result =>
    simp only [connStep] at hstep
    split at hstep
    · cases hstep
      exact h.enqueue ‹_› ‹_›
    · cases hstep
  | reply =>
    simp only [connStep] at hstep
    split at hstep
    · cases hstep
      exact h.reply ‹_› ‹_›
    · cases hstep
  | setTimer =>
    simp only [connStep] at hstep
    split at hstep
    · cases hstep
      exact h.setTimer ‹_› ‹_›
    · cases hstep
  | validateDone t =>
    by_cases ht : t ∈ c.tickets
    · rw [connStep, if_pos ht] at hstep
      cases hstep
      exact h.validateDone ht
    · rw [connStep, if_neg ht] at hstep
      cases hstep
  | timerExpires =>
    obtain ⟨t, ht, rfl⟩ := Option.map_eq_some_iff.1 hstep
    exact h.timerExpires ht
  | takeTicket cb =>
    simp only [connStep] at hstep
    split_ifs at hstep with hcb
    cases hstep
    exact h.takeTicket hcb.1 hcb.2 hforeign
  | send cb =>
    simp only [connStep] at hstep
    split_ifs at hstep with hcb
    cases hstep
    exact h.sendAnswer hcb.1 hcb.2
  | stop =>
    cases hstep
    split_ifs with hphase
    · exact h.stop
    · exact h
  | handleStop =>
    simp only [connStep] at hstep
    split_ifs at hstep with hphase
    cases hstep
    exact h.handleStop hphase.1 hphase.2.1 hphase.2.2

end Steps

/-- Every request gets one answer, its own, on every connection of the pool and in every order of the steps, as long
as no callback takes the ticket of another request. -/
theorem answered_once (es : List (ℕ × ConnEvent)) {pool : ℕ → Conn} (h : run poolStep (fun _ => .init) es = some pool)
    (hmeets : Meets poolStep (fun pool e => takesForeignTicket (pool e.1) e.2 = false) (fun _ => .init) es) (i : ℕ) :
    AnsweredOnce (pool i) := by
  have hinv : ∀ i, ConnInv (pool i) := by
    refine run_induct (P := fun pool => ∀ i, ConnInv (pool i)) (fun pool e pool' hpool hforeign hstep j => ?_)
      (fun _ => ConnInv.init) hmeets h
    obtain ⟨c, hc, rfl⟩ := Option.map_eq_some_iff.1 hstep
    by_cases hj : j = e.1
    · subst hj
      rw [Function.update_self]
      exact (hpool e.1).step hforeign hc
    · rw [Function.update_of_ne hj]
      exact hpool j
  exact (hinv i).answeredOnce

def timeoutThenReuse : List (ℕ × ConnEvent) :=
  [.start, .handleTx, .enqueue .inserted, .setTimer, .timerExpires, .takeTicket (.expired ⟨0, 0⟩),
    .send (.sendTimeout ⟨0, 0⟩), .stop, .handleStop, .start, .handleTx, .enqueue .inserted, .setTimer].map (0, ·)

def answerSecond : List (ℕ × ConnEvent) :=
  [.validateDone ⟨2, 1⟩, .takeTicket (.done ⟨2, 1⟩), .send (.sendResult ⟨2, 1⟩)].map (0, ·)

theorem answered_once_timeoutThenReuse :
    ∃ pool, run poolStep (fun _ => .init) (timeoutThenReuse ++ answerSecond) = some pool ∧ AnsweredOnce (pool 0) :=
  ⟨_, rfl, answered_once (timeoutThenReuse ++ answerSecond) rfl (by decide +kernel) 0⟩

def lateCallback : List (ℕ × ConnEvent) :=
  [.validateDone ⟨0, 0⟩, .takeTicket (.done ⟨0, 0⟩), .validateDone ⟨2, 1⟩, .takeTicket (.done ⟨2, 1⟩), .timerExpires,
    .takeTicket (.expired ⟨2, 1⟩)].map (0, ·)

def Conn.abandoned (c : Conn) : Bool :=
  c.phase = .opened && c.request = some 1 && c.answers = [⟨0, 0⟩] && c.handler = .idle && c.timer = none &&
    c.callbacks = [] && c.tickets = []

theorem lateCallback_abandons :
    ∃ pool, run poolStep (fun _ => .init) (timeoutThenReuse ++ lateCallback) = some pool ∧
      (pool 0).abandoned = true ∧ ¬ AnsweredOnce (pool 0) := by
  have hrun : ((run poolStep (fun _ => .init) (timeoutThenReuse ++ lateCallback)).any
      fun pool => (pool 0).abandoned) = true := by decide +kernel
  obtain ⟨pool, hpool, habandoned⟩ := (Option.any_eq_true _ _).1 hrun
  refine ⟨pool, hpool, habandoned, fun h => ?_⟩
  simp only [Conn.abandoned, Bool.and_eq_true, decide_eq_true_eq] at habandoned
  obtain ⟨⟨⟨⟨⟨⟨hphase, hrequest⟩, hanswers⟩, hhandler⟩, htimer⟩, hcallbacks⟩, -⟩ := habandoned
  rcases h.coming 1 hphase hrequest (by simp [hanswers]) with hl | ⟨cb, hcb, -⟩ | ht | hcb
  · exact hl hhandler
  · rw [hcallbacks] at hcb
    cases hcb
  · rw [htimer] at ht
    cases ht
  · rw [hcallbacks] at hcb
    cases hcb

end CredaCash.Node
