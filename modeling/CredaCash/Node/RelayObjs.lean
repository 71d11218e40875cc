import CredaCash.KeyedTable
import CredaCash.Machine

/-! The objects that peers announce, and which of them are downloaded from whom: `Relay_Objs` and `Relay_Peers`. -/

namespace CredaCash.Node
open KeyedTable Machine

/-- `BLOCK_SEQNUM_MAX`: blocks have the sequence numbers up to it, transactions those after it. -/
def blockSeqnumMax : ℤ := -7000000000000000000

inductive RelayStatus where
  | announced
  | downloaded
  deriving DecidableEq

inductive RelayPeerStatus where
  | ready
  | started
  deriving DecidableEq

/-- A row of `Relay_Objs`. -/
structure RelayObj where
  seqnum : ℤ
  time : ℕ
  objId : ℕ
  status : RelayStatus
  timeout : ℕ
  deriving DecidableEq

/-- A row of `Relay_Peers`, whose primary key is the sequence number alone. -/
structure RelayPeer where
  seqnum : ℤ
  peer : ℕ
  size : ℕ
  level : ℕ
  status : RelayPeerStatus
  priorOid : Option ℕ
  witness : Option ℕ
  deriving DecidableEq

/-- What a peer says of an object that it announces. -/
structure RelayRequestParams where
  oid : ℕ
  priorOid : ℕ
  level : ℕ
  size : ℕ
  witness : ℕ
  deriving DecidableEq

/-- An object that is requested from a peer, as it goes to the queue of the requests. -/
structure RelayRequest where
  oid : ℕ
  size : ℕ
  priorOid : ℕ
  level : ℕ
  witness : ℕ
  announceTicks : ℕ
  deriving DecidableEq

structure RelayDb where
  objs : KeyedTable RelayObj.seqnum
  peers : KeyedTable RelayPeer.seqnum
  /-- `g_seqnum[BLOCKSEQ][RELAYSEQ]` and `g_seqnum[TXSEQ][RELAYSEQ]`. -/
  nextBlock : ℤ
  nextTx : ℤ

def RelayDb.init : RelayDb := ⟨KeyedTable.empty, KeyedTable.empty, -9223372036854775807, blockSeqnumMax + 1⟩

namespace RelayDb

/-- The row of an object id, which `Relay_Objs_ObjId_Index` keeps unique. -/
def selectObjId (db : RelayDb) (oid : ℕ) : Option RelayObj := db.objs.rows.find? fun o => o.objId = oid

/-- `NextNum`; none when the counter overflows, which is a fatal error. -/
def nextNum (db : RelayDb) (isBlock : Bool) : Option (ℤ × RelayDb) :=
  if isBlock then if db.nextBlock ≤ blockSeqnumMax then some (db.nextBlock, { db with nextBlock := db.nextBlock + 1 })
    else none
  else if db.nextTx ≤ -1 then some (db.nextTx, { db with nextTx := db.nextTx + 1 }) else none

/-- `Relay_Objs_update`. -/
def updateObjs (db : RelayDb) (oid : ℕ) (status : RelayStatus) (timeout : ℕ) : RelayDb :=
  { db with
    objs := db.objs.map (fun o => if o.objId = oid then { o with status := status, timeout := timeout } else o)
      fun o => by split_ifs <;> rfl }

/-- `Relay_Peers_update_seqnum`. -/
def updatePeers (db : RelayDb) (seqnum : ℤ) (status : RelayPeerStatus) : RelayDb :=
  { db with peers := db.peers.update seqnum (fun p => { p with status := status }) fun _ => rfl }

end RelayDb

/-- The row that an announcement makes. -/
def relayPeerRow (seqnum : ℤ) (peer : ℕ) (isBlock : Bool) (params : RelayRequestParams) (status : RelayPeerStatus) :
    RelayPeer where
  seqnum := seqnum
  peer := peer
  size := params.size
  level := params.level
  status := status
  priorOid := if isBlock then some params.priorOid else none
  witness := if isBlock then some params.witness else none

/-- `RelayObjsInsert` at a time and a tick count. An announcement whose row is refused is rolled back. -/
def relayObjsInsert (db : RelayDb) (now ticks peer : ℕ) (isBlock : Bool) (params : RelayRequestParams)
    (objStatus : RelayStatus) (peerStatus : RelayPeerStatus) : Option RelayDb :=
  match db.selectObjId params.oid with
  | some o =>
    if o.status = .downloaded ∨ peer = 0 then some db
    else
      match db.peers.insert (relayPeerRow o.seqnum peer isBlock params peerStatus) with
      | some peers => some { db with peers := peers }
      | none => some db
  | none => do
    let (seqnum, db') ← db.nextNum isBlock
    match db'.objs.insert ⟨seqnum, ticks, params.oid, objStatus, now⟩ with
    | none => some db'
    | some objs =>
      if peer = 0 then some { db' with objs := objs }
      else
        match db'.peers.insert (relayPeerRow seqnum peer isBlock params peerStatus) with
        | some peers => some { db' with objs := objs, peers := peers }
        | none => some db'

/-- `Relay_Objs_select_download`, without its limit. -/
def selectDownload (db : RelayDb) (now connIndex lastIndelibleLevel : ℕ) : List (RelayPeer × RelayObj) :=
  (db.peers.sorted (fun p => p.peer = connIndex && p.status = .ready) (·.seqnum)).filterMap fun p =>
    (db.objs.select p.seqnum).bind fun o =>
      if o.status = .announced ∧ (p.seqnum ≤ blockSeqnumMax ∨ p.level ≤ lastIndelibleLevel) ∧ o.timeout ≤ now then
        some (p, o)
      else none

/-- Seconds that a download may take: `RELAY_DOWLOAD_RETRY_SECS` and `RELAY_DOWLOAD_RETRY_BYTES_PER_SEC`. -/
def downloadTimeout (bytes : ℕ) : ℕ := 5 + bytes / 2000

/-- `RELAY_DOWNLOAD_TIME_MAX`. -/
def downloadTimeMax : ℕ := 15

/-- A request that was sent: its time, and its download timeout, which a witness does not set for a block. -/
structure SentRequest where
  oid : ℕ
  peer : ℕ
  time : ℕ
  timeout : Option ℕ
  deriving DecidableEq

/-- The tables, and what has happened since the record of an object was made: which objects the peers that are still
connected have announced and were asked for, and the requests, the newest first. Only the tables are part of the code. -/
structure Relay where
  db : RelayDb
  announced : List (ℕ × ℕ)
  asked : List (ℕ × ℕ)
  requests : List SentRequest

def Relay.init : Relay := ⟨.init, [], [], []⟩

structure DownloadScan where
  relay : Relay
  haveBlocks : Bool
  totalSize : ℕ
  found : List RelayRequest

/-- The timeout that a request sets: a witness asks several peers for a block at once. -/
def requestTimeout (isWitness : Bool) (seqnum : ℤ) (bytes : ℕ) : Option ℕ :=
  if !isWitness || blockSeqnumMax < seqnum then some (downloadTimeout bytes) else none

/-- The update of the tables for one request. -/
def requestUpdate (isWitness : Bool) (now bytes : ℕ) (db : RelayDb) (p : RelayPeer) (o : RelayObj) : RelayDb :=
  match requestTimeout isWitness p.seqnum bytes with
  | some timeout => (db.updatePeers p.seqnum .started).updateObjs o.objId .announced (now + timeout)
  | none => db.updatePeers p.seqnum .started

/-- One turn of the loop of `RelayObjsFindDownloads`. -/
def requestObj (isWitness : Bool) (now connIndex : ℕ) (s : DownloadScan) (p : RelayPeer) (o : RelayObj) :
    DownloadScan :=
  let totalSize := s.totalSize + p.size
  { relay :=
      { db := requestUpdate isWitness now totalSize s.relay.db p o
        announced := s.relay.announced
        asked := (o.objId, connIndex) :: s.relay.asked
        requests := ⟨o.objId, connIndex, now, requestTimeout isWitness p.seqnum totalSize⟩ :: s.relay.requests }
    haveBlocks := s.haveBlocks || p.seqnum ≤ blockSeqnumMax
    totalSize := totalSize
    found := s.found ++ [⟨o.objId, p.size, p.priorOid.getD 0, p.level, p.witness.getD 0, o.time⟩] }

/-- The loop of `RelayObjsFindDownloads`: it does not mix blocks with transactions, and stops when the download would
take too long. -/
def findLoop (isWitness : Bool) (now connIndex : ℕ) : List (RelayPeer × RelayObj) → DownloadScan → DownloadScan
  | [], s => s
  | (p, o) :: rest, s =>
    if blockSeqnumMax < p.seqnum ∧ s.haveBlocks then s
    else
      let s' := requestObj isWitness now connIndex s p o
      if downloadTimeMax ≤ downloadTimeout s'.totalSize then s' else findLoop isWitness now connIndex rest s'

/-- `RelayObjsFindDownloads`, with the objects that it requests. -/
def relayObjsFindDownloads (isWitness : Bool) (relay : Relay) (now connIndex lastIndelibleLevel maxobjs
    bytesPending : ℕ) : DownloadScan :=
  if maxobjs = 0 ∨ downloadTimeMax ≤ downloadTimeout bytesPending then ⟨relay, false, bytesPending, []⟩
  else findLoop isWitness now connIndex
    ((selectDownload relay.db now connIndex lastIndelibleLevel).take maxobjs) ⟨relay, false, bytesPending, []⟩

/-- `RelayObjsSetStatus` with `RELAY_STATUS_DOWNLOADED`: the announcements of a transaction are deleted, those of a
block are kept. -/
def relayObjsSetDownloaded (db : RelayDb) (now oid : ℕ) : RelayDb :=
  let db' := db.updateObjs oid .downloaded now
  match db.selectObjId oid with
  | some o => if blockSeqnumMax < o.seqnum then { db' with peers := db'.peers.delete o.seqnum } else db'
  | none => db'

def relayObjsDeletePeer (db : RelayDb) (peer : ℕ) : RelayDb := { db with peers := db.peers.filter (·.peer ≠ peer) }

def relayObjsDeleteSeqnum (db : RelayDb) (seqnum : ℤ) : RelayDb :=
  { db with peers := db.peers.delete seqnum, objs := db.objs.delete seqnum }

inductive RelayEvent where
  /-- `CC_MSG_HAVE_BLOCK` or `CC_MSG_HAVE_TX`. -/
  | announce (peer : ℕ) (isBlock : Bool) (params : RelayRequestParams) (now ticks : ℕ)
  /-- An object that does not come from a peer. -/
  | insertOwn (isBlock : Bool) (oid now ticks : ℕ)
  | findDownloads (peer lastIndelibleLevel maxobjs bytesPending now : ℕ)
  | setDownloaded (oid now : ℕ)
  | deletePeer (peer : ℕ)
  /-- An object expires. -/
  | deleteSeqnum (seqnum : ℤ)

/-- An event at the tables; the connections of peers are numbered from one. -/
def relayStep (isWitness : Bool) (s : Relay) : RelayEvent → Option Relay
  | .announce peer isBlock params now ticks =>
    if peer = 0 then none
    else (relayObjsInsert s.db now ticks peer isBlock params .announced .ready).map fun db =>
      { s with db := db, announced := (params.oid, peer) :: s.announced }
  | .insertOwn isBlock oid now ticks =>
    (relayObjsInsert s.db now ticks 0 isBlock ⟨oid, 0, 0, 0, 0⟩ .downloaded .ready).map fun db => { s with db := db }
  | .findDownloads peer lastIndelibleLevel maxobjs bytesPending now =>
    some (relayObjsFindDownloads isWitness s now peer lastIndelibleLevel maxobjs bytesPending).relay
  | .setDownloaded oid now => some { s with db := relayObjsSetDownloaded s.db now oid }
  | .deletePeer peer => some
    { s with
      db := relayObjsDeletePeer s.db peer
      announced := s.announced.filter (·.2 ≠ peer)
      asked := s.asked.filter (·.2 ≠ peer) }
  | .deleteSeqnum seqnum => some <|
    match s.db.objs.select seqnum with
    | some o =>
      { db := relayObjsDeleteSeqnum s.db seqnum
        announced := s.announced.filter (·.1 ≠ o.objId)
        asked := s.asked.filter (·.1 ≠ o.objId)
        requests := s.requests.filter (·.oid ≠ o.objId) }
    | none => { s with db := relayObjsDeleteSeqnum s.db seqnum }

/-- A peer announces an object that is not downloaded while the announcement of another peer is held. -/
def announcesHeld (s : Relay) : RelayEvent → Bool
  | .announce peer _ params _ _ => (s.db.selectObjId params.oid).any fun o =>
    o.status = .announced && (s.db.peers.select o.seqnum).any fun p => p.peer ≠ peer
  | _ => false

/-- An object is selected for download from a peer as soon as its timeout has passed, a transaction also only when its
level is indelible. -/
def Selectable (db : RelayDb) (oid peer : ℕ) : Prop :=
  ∃ p o, o.objId = oid ∧ ∀ now lastIndelibleLevel, o.timeout ≤ now →
    (p.seqnum ≤ blockSeqnumMax ∨ p.level ≤ lastIndelibleLevel) →
      (p, o) ∈ selectDownload db now peer lastIndelibleLevel

/-- What the tables are for. -/
structure StaysDownloadable (s : Relay) : Prop where
  selectable : ∀ oid peer, (oid, peer) ∈ s.announced → (oid, peer) ∉ s.asked →
    (∃ o ∈ s.db.objs, o.objId = oid ∧ o.status = .downloaded) ∨ Selectable s.db oid peer
  timeout : s.requests.Pairwise fun later earlier =>
    later.oid = earlier.oid → ∀ t ∈ earlier.timeout, earlier.time + t ≤ later.time

section Statements
variable {db db' : RelayDb} {o o' : RelayObj} {p p' : RelayPeer} {oid : ℕ} {seqnum : ℤ} {isBlock : Bool}

theorem selectObjId_eq_some (h : db.selectObjId oid = some o) : o ∈ db.objs ∧ o.objId = oid :=
  ⟨List.mem_of_find?_eq_some h, by simpa using List.find?_some h⟩

theorem selectObjId_eq_none (h : db.selectObjId oid = none) (ho : o ∈ db.objs) : o.objId ≠ oid := by
  have := List.find?_eq_none.1 h o ho
  simpa using this

theorem mem_updateObjs {status : RelayStatus} {timeout : ℕ} : o ∈ (db.updateObjs oid status timeout).objs ↔
    ∃ a ∈ db.objs, (if a.objId = oid then { a with status := status, timeout := timeout } else a) = o :=
  List.mem_map

theorem mem_updatePeers {status : RelayPeerStatus} : p ∈ (db.updatePeers seqnum status).peers ↔
    ∃ a ∈ db.peers, (if a.seqnum = seqnum then { a with status := status } else a) = p :=
  List.mem_map

/-- A row is selected for download when it and its object are in the tables. -/
theorem mem_selectDownload {now connIndex lastIndelibleLevel : ℕ} :
    (p, o) ∈ selectDownload db now connIndex lastIndelibleLevel ↔
      (p ∈ db.peers ∧ p.peer = connIndex ∧ p.status = .ready) ∧ (o ∈ db.objs ∧ o.seqnum = p.seqnum) ∧
        o.status = .announced ∧ (p.seqnum ≤ blockSeqnumMax ∨ p.level ≤ lastIndelibleLevel) ∧ o.timeout ≤ now := by
  simp only [selectDownload, List.mem_filterMap, mem_sorted, Bool.and_eq_true, decide_eq_true_eq,
    Option.bind_eq_some_iff, select_eq_some, Option.ite_none_right_eq_some, Option.some.injEq, Prod.mk.injEq]
  constructor
  · rintro ⟨a, ha, b, hb, hcond, rfl, rfl⟩
    exact ⟨ha, hb, hcond⟩
  · rintro ⟨hp, ho, hcond⟩
    exact ⟨p, hp, o, ho, hcond, rfl, rfl⟩

theorem selectDownload_pairwise {now connIndex lastIndelibleLevel : ℕ} :
    (selectDownload db now connIndex lastIndelibleLevel).Pairwise fun a b => a.1.seqnum ≠ b.1.seqnum := by
  have hsorted : (db.peers.sorted (fun p => p.peer = connIndex && p.status = .ready) (·.seqnum)).Pairwise
      fun a b => a.seqnum ≠ b.seqnum :=
    List.pairwise_map.1 (((List.perm_insertionSort _ _).map _).nodup_iff.2
      (db.peers.nodup.sublist (List.filter_sublist.map _)))
  refine List.pairwise_filterMap.2 (hsorted.imp fun {a b} hne x hx y hy => ?_)
  obtain ⟨_, -, hx⟩ := Option.bind_eq_some_iff.1 hx
  obtain ⟨_, -, hy⟩ := Option.bind_eq_some_iff.1 hy
  cases (Option.ite_none_right_eq_some.1 hx).2
  cases (Option.ite_none_right_eq_some.1 hy).2
  exact hne

end Statements

/-- A peer can be asked for an object: its announcement is held and no request was made from it. -/
def HeldBy (db : RelayDb) (o : RelayObj) (peer : ℕ) : Prop :=
  ∃ p ∈ db.peers, p.seqnum = o.seqnum ∧ p.peer = peer ∧ p.status = .ready

/-- What the statements keep of the two tables. -/
structure RelayInv (s : Relay) : Prop where
  objIds : ∀ o ∈ s.db.objs, ∀ o' ∈ s.db.objs, o.objId = o'.objId → o = o'
  fresh : ∀ o ∈ s.db.objs, o.seqnum < s.db.nextBlock ∨ blockSeqnumMax < o.seqnum ∧ o.seqnum < s.db.nextTx
  nextBlock : s.db.nextBlock ≤ blockSeqnumMax + 1
  nextTx : blockSeqnumMax + 1 ≤ s.db.nextTx
  peerObj : ∀ p ∈ s.db.peers, ∃ o ∈ s.db.objs, o.seqnum = p.seqnum
  started : ∀ p ∈ s.db.peers, p.status = .started → ∀ o ∈ s.db.objs, o.seqnum = p.seqnum →
    (o.objId, p.peer) ∈ s.asked
  held : ∀ oid peer, (oid, peer) ∈ s.announced → (oid, peer) ∉ s.asked →
    ∃ o ∈ s.db.objs, o.objId = oid ∧ (o.status = .downloaded ∨ HeldBy s.db o peer)
  requests : ∀ r ∈ s.requests, ∀ t ∈ r.timeout,
    ∃ o ∈ s.db.objs, o.objId = r.oid ∧ (o.status = .downloaded ∨ r.time + t ≤ o.timeout)
  timeout : s.requests.Pairwise fun later earlier =>
    later.oid = earlier.oid → ∀ t ∈ earlier.timeout, earlier.time + t ≤ later.time

section Invariant
variable {s s' : Relay} {db : RelayDb} {o : RelayObj} {p : RelayPeer} {isWitness : Bool} {now oid peer : ℕ} {seqnum : ℤ}

theorem RelayInv.init : RelayInv .init where
  objIds := fun _ h => absurd h (not_mem_empty _)
  fresh := fun _ h => absurd h (not_mem_empty _)
  nextBlock := by decide
  nextTx := by decide
  peerObj := fun _ h => absurd h (not_mem_empty _)
  started := fun _ h => absurd h (not_mem_empty _)
  held := fun _ _ h => absurd h List.not_mem_nil
  requests := fun _ h => absurd h List.not_mem_nil
  timeout := List.Pairwise.nil

/-- An object that is not downloaded is selected from a peer that can be asked for it. -/
theorem RelayInv.stays (h : RelayInv s) : StaysDownloadable s where
  timeout := h.timeout
  selectable := fun oid peer hann hasked => by
    obtain ⟨o, ho, hoid, hcases⟩ := h.held oid peer hann hasked
    cases hstatus : o.status with
    | downloaded => exact .inl ⟨o, ho, hoid, hstatus⟩
    | announced =>
      refine .inr ?_
      rcases hcases with hdown | ⟨p, hp, hkey, hpeer, hready⟩
      · rw [hstatus] at hdown
        cases hdown
      · refine ⟨p, o, hoid, fun now level htimeout hlevel => ?_⟩
        exact mem_selectDownload.2 ⟨⟨hp, hpeer, hready⟩, ⟨ho, hkey.symm⟩, hstatus, hlevel, htimeout⟩

theorem RelayInv.selectObjId (h : RelayInv s) (ho : o ∈ s.db.objs) : s.db.selectObjId o.objId = some o := by
  cases hsel : s.db.selectObjId o.objId with
  | none => exact absurd rfl (selectObjId_eq_none hsel ho)
  | some a =>
    obtain ⟨ha, hid⟩ := selectObjId_eq_some hsel
    rw [h.objIds a ha o ho hid]

/-- The status and the timeout of objects change. -/
theorem RelayInv.updateObjs (h : RelayInv s) (oid : ℕ) (status : RelayStatus) (timeout : ℕ)
    (hkeep : ∀ o ∈ s.db.objs, o.objId = oid → status = .downloaded ∨ o.status = status ∧ o.timeout ≤ timeout) :
    RelayInv { s with db := s.db.updateObjs oid status timeout } := by
  have hmem : ∀ o ∈ s.db.objs, ∃ o' ∈ (s.db.updateObjs oid status timeout).objs, o'.seqnum = o.seqnum ∧
      o'.objId = o.objId ∧ (o'.status = .downloaded ∨ o'.status = o.status ∧ o.timeout ≤ o'.timeout) := by
    intro o ho
    refine ⟨_, mem_updateObjs.2 ⟨o, ho, rfl⟩, ?_⟩
    split_ifs with hoid
    · refine ⟨rfl, rfl, (hkeep o ho hoid).imp id fun hk => ⟨hk.1.symm, hk.2⟩⟩
    · exact ⟨rfl, rfl, .inr ⟨rfl, le_rfl⟩⟩
  have hback : ∀ o' ∈ (s.db.updateObjs oid status timeout).objs, ∃ o ∈ s.db.objs, o.seqnum = o'.seqnum ∧
      o.objId = o'.objId := by
    intro o' ho'
    obtain ⟨o, ho, rfl⟩ := mem_updateObjs.1 ho'
    exact ⟨o, ho, by split_ifs <;> rfl, by split_ifs <;> rfl⟩
  refine
    { objIds := ?_, fresh := ?_, nextBlock := h.nextBlock, nextTx := h.nextTx, peerObj := ?_, started := ?_, held := ?_,
      requests := ?_, timeout := h.timeout }
  · intro a ha b hb hid
    obtain ⟨a', ha', hkeya, hida⟩ := hback a ha
    obtain ⟨b', hb', hkeyb, hidb⟩ := hback b hb
    have heq := h.objIds a' ha' b' hb' (hida.trans (hid.trans hidb.symm))
    exact eq_of_key ha hb (hkeya.symm.trans (heq ▸ hkeyb))
  · intro o' ho'
    obtain ⟨o, ho, hkey, -⟩ := hback o' ho'
    exact hkey ▸ h.fresh o ho
  · intro p hp
    obtain ⟨o, ho, hkey⟩ := h.peerObj p hp
    obtain ⟨o', ho', hkey', -⟩ := hmem o ho
    exact ⟨o', ho', hkey'.trans hkey⟩
  · intro p hp hstarted o' ho' hkey'
    obtain ⟨o, ho, hkey, hid⟩ := hback o' ho'
    exact hid ▸ h.started p hp hstarted o ho (hkey.trans hkey')
  · intro oid' peer hann hasked
    obtain ⟨o, ho, hid, hcases⟩ := h.held oid' peer hann hasked
    obtain ⟨o', ho', hkey', hid', hstatus⟩ := hmem o ho
    refine ⟨o', ho', hid'.trans hid, ?_⟩
    rcases hstatus with hdown | ⟨hsame, -⟩
    · exact .inl hdown
    · refine hcases.imp (fun hd => hsame.trans hd) fun ⟨p, hp, hkey, hrest⟩ => ?_
      exact ⟨p, hp, hkey.trans hkey'.symm, hrest⟩
  · intro r hr t ht
    obtain ⟨o, ho, hid, hcases⟩ := h.requests r hr t ht
    obtain ⟨o', ho', -, hid', hstatus⟩ := hmem o ho
    refine ⟨o', ho', hid'.trans hid, ?_⟩
    rcases hstatus with hdown | ⟨hsame, hle⟩
    · exact .inl hdown
    · exact hcases.imp (fun hd => hsame.trans hd) fun hr => le_trans hr hle

/-- A request starts from the peer of a row. -/
theorem RelayInv.startPeer (h : RelayInv s) (hp : p ∈ s.db.peers) (ho : o ∈ s.db.objs) (hkey : o.seqnum = p.seqnum) :
    RelayInv { s with db := s.db.updatePeers p.seqnum .started, asked := (o.objId, p.peer) :: s.asked } := by
  have hback : ∀ p' ∈ (s.db.updatePeers p.seqnum .started).peers, ∃ a ∈ s.db.peers, a.seqnum = p'.seqnum ∧
      a.peer = p'.peer ∧ (a.seqnum = p.seqnum ∨ a.status = p'.status) := by
    intro p' hp'
    obtain ⟨a, ha, rfl⟩ := mem_updatePeers.1 hp'
    refine ⟨a, ha, by split_ifs <;> rfl, by split_ifs <;> rfl, ?_⟩
    split_ifs with hseq
    · exact .inl hseq
    · exact .inr rfl
  refine
    { objIds := h.objIds, fresh := h.fresh, nextBlock := h.nextBlock, nextTx := h.nextTx, peerObj := ?_, started := ?_,
      held := ?_, requests := h.requests, timeout := h.timeout }
  · intro p' hp'
    obtain ⟨a, ha, hseq, -⟩ := hback p' hp'
    exact hseq ▸ h.peerObj a ha
  · intro p' hp' hstarted o' ho' hkey'
    obtain ⟨a, ha, hseq, hpeer, hstatus⟩ := hback p' hp'
    by_cases hself : a.seqnum = p.seqnum
    · have ho'' : o' = o := eq_of_key ho' ho (hkey'.trans (hseq.symm.trans (hself.trans hkey.symm)))
      rw [ho'', ← hpeer, eq_of_key ha hp hself]
      exact List.mem_cons_self
    · rw [← hpeer]
      refine List.mem_cons_of_mem _ (h.started a ha ?_ o' ho' (hkey'.trans hseq.symm))
      exact (hstatus.resolve_left hself).trans hstarted
  · intro oid peer hann hasked
    obtain ⟨o', ho', hid, hcases⟩ := h.held oid peer hann fun hmem => hasked (List.mem_cons_of_mem _ hmem)
    refine ⟨o', ho', hid, hcases.imp id fun ⟨a, ha, hseq, hpeer, hready⟩ => ?_⟩
    refine ⟨_, mem_updatePeers.2 ⟨a, ha, rfl⟩, ?_⟩
    rw [if_neg fun hself => hasked ?_]
    · exact ⟨hseq, hpeer, hready⟩
    · rw [← hid, ← hpeer, eq_of_key ha hp hself, eq_of_key ho' ho (hseq.symm.trans (hself.trans hkey.symm))]
      exact List.mem_cons_self

/-- A request is remembered. -/
theorem RelayInv.addRequest {r : SentRequest} (h : RelayInv s)
    (hrow : ∀ t ∈ r.timeout, ∃ o ∈ s.db.objs, o.objId = r.oid ∧ (o.status = .downloaded ∨ r.time + t ≤ o.timeout))
    (hlater : ∀ r' ∈ s.requests, r.oid = r'.oid → ∀ t ∈ r'.timeout, r'.time + t ≤ r.time) :
    RelayInv { s with requests := r :: s.requests } :=
  { h with
    requests := fun r' hr' => by
      rcases List.mem_cons.1 hr' with rfl | hr'
      · exact hrow
      · exact h.requests r' hr'
    timeout := List.pairwise_cons.2 ⟨hlater, h.timeout⟩ }

/-- A row that is selected for download, and its object. -/
structure Candidate (db : RelayDb) (now connIndex : ℕ) (p : RelayPeer) (o : RelayObj) : Prop where
  peer : p ∈ db.peers
  obj : o ∈ db.objs
  key : o.seqnum = p.seqnum
  peerId : p.peer = connIndex
  announced : o.status = .announced
  timeout : o.timeout ≤ now

theorem Candidate.requestUpdate {bytes : ℕ} {p' : RelayPeer} {o' : RelayObj} (hinv : RelayInv s)
    (h : Candidate s.db now peer p o) (h' : Candidate s.db now peer p' o') (hne : p.seqnum ≠ p'.seqnum) :
    Candidate (requestUpdate isWitness now bytes s.db p o) now peer p' o' := by
  have hpeers : p' ∈ (s.db.updatePeers p.seqnum .started).peers :=
    mem_updatePeers.2 ⟨p', h'.peer, if_neg fun heq => hne heq.symm⟩
  unfold Node.requestUpdate
  cases requestTimeout isWitness p.seqnum bytes with
  | none => exact { h' with peer := hpeers }
  | some t =>
    refine { h' with peer := hpeers, obj := mem_updateObjs.2 ⟨o', h'.obj, if_neg fun hid => hne ?_⟩ }
    rw [← h.key, ← h'.key, hinv.objIds o' h'.obj o h.obj hid]

/-- One turn of the loop. -/
theorem RelayInv.requestObj {d : DownloadScan} (h : RelayInv d.relay) (hc : Candidate d.relay.db now peer p o) :
    RelayInv (requestObj isWitness now peer d p o).relay := by
  have hlater : ∀ r ∈ d.relay.requests, o.objId = r.oid → ∀ t ∈ r.timeout, r.time + t ≤ now := by
    intro r hr hoid t ht
    obtain ⟨a, ha, hid, hcases⟩ := h.requests r hr t ht
    rw [h.objIds a ha o hc.obj (hid.trans hoid.symm), hc.announced] at hcases
    exact le_trans (hcases.resolve_left nofun) hc.timeout
  have hstart := h.startPeer hc.peer hc.obj hc.key
  rw [hc.peerId] at hstart
  unfold Node.requestObj Node.requestUpdate
  dsimp only
  cases requestTimeout isWitness p.seqnum (d.totalSize + p.size) with
  | none => exact hstart.addRequest (r := ⟨o.objId, peer, now, none⟩) (fun t ht => by cases ht) hlater
  | some t =>
    have hupdate := hstart.updateObjs o.objId .announced (now + t) fun a ha hid => by
      rw [h.objIds a ha o hc.obj hid]
      exact .inr ⟨hc.announced, le_trans hc.timeout (Nat.le_add_right ..)⟩
    refine hupdate.addRequest (r := ⟨o.objId, peer, now, some t⟩) (fun t' ht' => ?_) hlater
    cases ht'
    exact ⟨_, mem_updateObjs.2 ⟨o, hc.obj, if_pos rfl⟩, rfl, .inr le_rfl⟩

theorem RelayInv.findLoop {d : DownloadScan} {l : List (RelayPeer × RelayObj)} (h : RelayInv d.relay)
    (hc : ∀ x ∈ l, Candidate d.relay.db now peer x.1 x.2) (hne : l.Pairwise fun a b => a.1.seqnum ≠ b.1.seqnum) :
    RelayInv (findLoop isWitness now peer l d).relay := by
  induction l generalizing d with
  | nil => exact h
  | cons x l ih =>
    obtain ⟨p, o⟩ := x
    have hx := hc (p, o) List.mem_cons_self
    obtain ⟨hhead, htail⟩ := List.pairwise_cons.1 hne
    have hrequest : RelayInv (Node.requestObj isWitness now peer d p o).relay := h.requestObj hx
    rw [Node.findLoop]
    split_ifs
    · exact h
    · dsimp only
      split_ifs
      · exact hrequest
      · refine ih hrequest (fun y hy => ?_) htail
        exact hx.requestUpdate h (hc y (List.mem_cons_of_mem _ hy)) (hhead y hy)

theorem RelayInv.findDownloads {level maxobjs bytes : ℕ} (h : RelayInv s) :
    RelayInv (relayObjsFindDownloads isWitness s now peer level maxobjs bytes).relay := by
  unfold relayObjsFindDownloads
  split_ifs
  · exact h
  · refine h.findLoop (d := ⟨s, false, bytes, []⟩) (fun x hx => ?_)
      (selectDownload_pairwise.sublist (List.take_sublist maxobjs _))
    obtain ⟨⟨hp, hpeer, -⟩, ⟨ho, hkey⟩, hann, -, htimeout⟩ := mem_selectDownload.1 (List.mem_of_mem_take hx)
    exact ⟨hp, ho, hkey, hpeer, hann, htimeout⟩

theorem RelayInv.setDownloaded (h : RelayInv s) : RelayInv { s with db := relayObjsSetDownloaded s.db now oid } := by
  have hupdate := h.updateObjs oid .downloaded now fun _ _ _ => .inl rfl
  unfold relayObjsSetDownloaded
  cases hsel : s.db.selectObjId oid with
  | none => exact hupdate
  | some o =>
    by_cases htx : blockSeqnumMax < o.seqnum
    · obtain ⟨ho, hoid⟩ := selectObjId_eq_some hsel
      simp only [htx, if_true]
      refine { hupdate with peerObj := ?_, started := ?_, held := ?_ }
      · exact fun p hp => hupdate.peerObj p (mem_delete.1 hp).1
      · exact fun p hp => hupdate.started p (mem_delete.1 hp).1
      · intro oid' peer hann hasked
        obtain ⟨o', ho', hid, hcases⟩ := hupdate.held oid' peer hann hasked
        refine ⟨o', ho', hid, ?_⟩
        rcases hcases with hd | ⟨p, hp, hkey, hrest⟩
        · exact .inl hd
        · by_cases hself : p.seqnum = o.seqnum
          · have hrow : { o with status := .downloaded, timeout := now } ∈ (s.db.updateObjs oid .downloaded now).objs :=
              mem_updateObjs.2 ⟨o, ho, if_pos hoid⟩
            rw [eq_of_key ho' hrow (hkey.symm.trans hself)]
            exact .inl rfl
          · exact .inr ⟨p, mem_delete.2 ⟨hp, hself⟩, hkey, hrest⟩
    · simp only [htx, if_false]
      exact hupdate

theorem RelayInv.deletePeer (h : RelayInv s) :
    RelayInv { s with
      db := relayObjsDeletePeer s.db peer
      announced := s.announced.filter (·.2 ≠ peer)
      asked := s.asked.filter (·.2 ≠ peer) } := by
  refine { h with peerObj := ?_, started := ?_, held := ?_ }
  · exact fun p hp => h.peerObj p (mem_filter.1 hp).1
  · intro p hp hstarted o ho hkey
    obtain ⟨hp, hpeer⟩ := mem_filter.1 hp
    exact List.mem_filter.2 ⟨h.started p hp hstarted o ho hkey, hpeer⟩
  · intro oid peer' hann hasked
    obtain ⟨hann, hpeer⟩ := List.mem_filter.1 hann
    obtain ⟨o, ho, hid, hcases⟩ := h.held oid peer' hann fun hmem => hasked (List.mem_filter.2 ⟨hmem, hpeer⟩)
    refine ⟨o, ho, hid, hcases.imp id fun ⟨p, hp, hkey, hpeer', hready⟩ => ?_⟩
    exact ⟨p, mem_filter.2 ⟨hp, by rw [hpeer']; exact hpeer⟩, hkey, hpeer', hready⟩

theorem RelayInv.deleteSeqnum (h : RelayInv s) (ho : o ∈ s.db.objs) :
    RelayInv
      { db := relayObjsDeleteSeqnum s.db o.seqnum
        announced := s.announced.filter (·.1 ≠ o.objId)
        asked := s.asked.filter (·.1 ≠ o.objId)
        requests := s.requests.filter (·.oid ≠ o.objId) } := by
  have hother : ∀ a ∈ s.db.objs, a.objId ≠ o.objId → a ∈ s.db.objs.delete o.seqnum := fun a ha hid =>
    mem_delete.2 ⟨ha, fun hkey => hid (eq_of_key ha ho hkey ▸ rfl)⟩
  refine
    { objIds := fun a ha b hb => h.objIds a (mem_delete.1 ha).1 b (mem_delete.1 hb).1
      fresh := fun a ha => h.fresh a (mem_delete.1 ha).1
      nextBlock := h.nextBlock, nextTx := h.nextTx, peerObj := ?_, started := ?_, held := ?_, requests := ?_
      timeout := h.timeout.sublist List.filter_sublist }
  · intro p hp
    obtain ⟨hp, hkey⟩ := mem_delete.1 hp
    obtain ⟨a, ha, hseq⟩ := h.peerObj p hp
    exact ⟨a, mem_delete.2 ⟨ha, hseq ▸ hkey⟩, hseq⟩
  · intro p hp hstarted a ha hkey
    obtain ⟨ha, hne⟩ := mem_delete.1 ha
    refine List.mem_filter.2 ⟨h.started p (mem_delete.1 hp).1 hstarted a ha hkey, decide_eq_true fun hid => hne ?_⟩
    rw [h.objIds a ha o ho hid]
  · intro oid peer hann hasked
    obtain ⟨hann, hid⟩ := List.mem_filter.1 hann
    obtain ⟨a, ha, hoid, hcases⟩ := h.held oid peer hann fun hmem => hasked (List.mem_filter.2 ⟨hmem, hid⟩)
    have ha' := hother a ha (hoid ▸ of_decide_eq_true hid)
    refine ⟨a, ha', hoid, hcases.imp id fun ⟨p, hp, hkey, hrest⟩ => ?_⟩
    exact ⟨p, mem_delete.2 ⟨hp, hkey ▸ (mem_delete.1 ha').2⟩, hkey, hrest⟩
  · intro r hr t ht
    obtain ⟨hr, hid⟩ := List.mem_filter.1 hr
    obtain ⟨a, ha, hoid, hcases⟩ := h.requests r hr t ht
    exact ⟨a, hother a ha (hoid ▸ of_decide_eq_true hid), hoid, hcases⟩

/-- A peer announces an object whose announcement by it is already remembered, or that is downloaded. -/
theorem RelayInv.announce (h : RelayInv s) (ho : o ∈ s.db.objs)
    (hheld : (o.objId, peer) ∉ s.asked → o.status = .downloaded ∨ HeldBy s.db o peer) :
    RelayInv { s with announced := (o.objId, peer) :: s.announced } :=
  { h with
    held := fun oid peer' hann hasked => by
      rcases List.mem_cons.1 hann with heq | hann
      · cases heq
        exact ⟨o, ho, rfl, hheld hasked⟩
      · exact h.held oid peer' hann hasked }

/-- The row of a peer is added to an object that no row is held of. -/
theorem RelayInv.insertPeer {peers : KeyedTable RelayPeer.seqnum} (h : RelayInv s) (ho : o ∈ s.db.objs)
    (hkey : p.seqnum = o.seqnum) (hready : p.status = .ready) (hinsert : s.db.peers.insert p = some peers) :
    RelayInv { s with db := { s.db with peers := peers } } := by
  have hmem := fun r => mem_of_insert (r := r) hinsert
  refine { h with peerObj := fun r hr => ?_, started := fun r hr hstarted => ?_, held := fun oid peer hann hasked => ?_ }
  · rcases (hmem r).1 hr with rfl | hr
    · exact ⟨o, ho, hkey.symm⟩
    · exact h.peerObj r hr
  · rcases (hmem r).1 hr with rfl | hr
    · rw [hready] at hstarted
      cases hstarted
    · exact h.started r hr hstarted
  · obtain ⟨a, ha, hid, hcases⟩ := h.held oid peer hann hasked
    exact ⟨a, ha, hid, hcases.imp id fun ⟨r, hr, hrest⟩ => ⟨r, (hmem r).2 (.inr hr), hrest⟩⟩

/-- A sequence number is used once. -/
theorem RelayInv.nextNum {isBlock : Bool} (h : RelayInv s) (hnext : s.db.nextNum isBlock = some (seqnum, db)) :
    RelayInv { s with db := db } ∧ db.objs = s.db.objs ∧ (∀ o ∈ s.db.objs, o.seqnum ≠ seqnum) ∧
      (seqnum < db.nextBlock ∨ blockSeqnumMax < seqnum ∧ seqnum < db.nextTx) := by
  have hblock := h.nextBlock
  have htx := h.nextTx
  unfold RelayDb.nextNum at hnext
  split_ifs at hnext with _ hle
  · cases hnext
    refine ⟨{ h with fresh := fun o ho => ?_, nextBlock := ?_ }, rfl, fun o ho => ?_, .inl (by dsimp only; omega)⟩
    · exact (h.fresh o ho).imp_left fun hlt => by dsimp only; omega
    · dsimp only
      omega
    · have := h.fresh o ho
      omega
  · cases hnext
    refine ⟨{ h with fresh := fun o ho => ?_, nextTx := ?_ }, rfl, fun o ho => ?_, .inr (by dsimp only; omega)⟩
    · exact (h.fresh o ho).imp_right fun hlt => by dsimp only; omega
    · dsimp only
      omega
    · have := h.fresh o ho
      omega

/-- A new object has a row of its own. -/
theorem RelayInv.insertObj {objs : KeyedTable RelayObj.seqnum} (h : RelayInv s)
    (hid : ∀ a ∈ s.db.objs, a.objId ≠ o.objId) (hseq : ∀ a ∈ s.db.objs, a.seqnum ≠ o.seqnum)
    (hfresh : o.seqnum < s.db.nextBlock ∨ blockSeqnumMax < o.seqnum ∧ o.seqnum < s.db.nextTx)
    (hinsert : s.db.objs.insert o = some objs) : RelayInv { s with db := { s.db with objs := objs } } := by
  have hmem := fun r => mem_of_insert (r := r) hinsert
  refine { h with objIds := ?_, fresh := ?_, peerObj := ?_, started := ?_, held := ?_, requests := ?_ }
  · intro a ha b hb heq
    rcases (hmem a).1 ha with rfl | ha <;> rcases (hmem b).1 hb with rfl | hb
    · rfl
    · exact absurd heq.symm (hid b hb)
    · exact absurd heq (hid a ha)
    · exact h.objIds a ha b hb heq
  · intro a ha
    rcases (hmem a).1 ha with rfl | ha
    · exact hfresh
    · exact h.fresh a ha
  · intro p hp
    obtain ⟨a, ha, hkey⟩ := h.peerObj p hp
    exact ⟨a, (hmem a).2 (.inr ha), hkey⟩
  · intro p hp hstarted a ha hkey
    rcases (hmem a).1 ha with rfl | ha
    · obtain ⟨b, hb, hkey'⟩ := h.peerObj p hp
      exact absurd (hkey'.trans hkey.symm) (hseq b hb)
    · exact h.started p hp hstarted a ha hkey
  · intro oid peer hann hasked
    obtain ⟨a, ha, hrest⟩ := h.held oid peer hann hasked
    exact ⟨a, (hmem a).2 (.inr ha), hrest⟩
  · intro r hr t ht
    obtain ⟨a, ha, hrest⟩ := h.requests r hr t ht
    exact ⟨a, (hmem a).2 (.inr ha), hrest⟩

/-- `RelayObjsInsert` of an object that is not in the table. -/
theorem RelayInv.insertNew {isBlock : Bool} {params : RelayRequestParams} {objStatus : RelayStatus} {ticks : ℕ}
    (h : RelayInv s) (hsel : s.db.selectObjId params.oid = none)
    (hinsert : relayObjsInsert s.db now ticks peer isBlock params objStatus .ready = some db) :
    RelayInv { s with db := db } ∧
      ∃ o ∈ db.objs, o.objId = params.oid ∧ (peer = 0 ∨ HeldBy db o peer) := by
  unfold relayObjsInsert at hinsert
  simp only [hsel, Option.bind_eq_bind, Option.bind_eq_some_iff, Prod.exists] at hinsert
  obtain ⟨seqnum, db', hnext, hinsert⟩ := hinsert
  obtain ⟨hinv, hobjs, hseq, hfresh⟩ := h.nextNum hnext
  rw [← hobjs] at hseq
  obtain ⟨objs, hobj⟩ := insert_isSome (t := db'.objs) (r := ⟨seqnum, ticks, params.oid, objStatus, now⟩) hseq
  have hid : ∀ a ∈ db'.objs, a.objId ≠ params.oid := fun a ha => selectObjId_eq_none hsel (hobjs ▸ ha)
  have hnew := hinv.insertObj hid hseq hfresh hobj
  have ho : ⟨seqnum, ticks, params.oid, objStatus, now⟩ ∈ objs := (mem_of_insert hobj).2 (.inl rfl)
  rw [hobj] at hinsert
  by_cases hpeer : peer = 0
  · simp only [hpeer, if_true] at hinsert
    cases hinsert
    exact ⟨hnew, _, ho, rfl, .inl hpeer⟩
  · simp only [hpeer, if_false] at hinsert
    obtain ⟨peers, hpeers⟩ : ∃ peers, db'.peers.insert (relayPeerRow seqnum peer isBlock params .ready) = some peers :=
      insert_isSome fun p hp hkey => by
        obtain ⟨a, ha, hkey'⟩ := hinv.peerObj p hp
        exact hseq a ha (hkey'.trans hkey)
    rw [hpeers] at hinsert
    cases hinsert
    exact ⟨hnew.insertPeer ho rfl rfl hpeers, _, ho, rfl,
      .inr ⟨_, (mem_of_insert hpeers).2 (.inl rfl), rfl, rfl, rfl⟩⟩

/-- An announcement whose row is refused is one that the peer has made before, when no other peer's row is held. -/
theorem RelayInv.rowHeld {isBlock : Bool} {params : RelayRequestParams} {ticks : ℕ} (h : RelayInv s)
    (ho : o ∈ s.db.objs) (hdown : o.status ≠ .downloaded) (hid : o.objId = params.oid)
    (hheld : announcesHeld s (.announce peer isBlock params now ticks) = false)
    (hrefused : s.db.peers.insert (relayPeerRow o.seqnum peer isBlock params .ready) = none) :
    (o.objId, peer) ∈ s.asked ∨ HeldBy s.db o peer := by
  obtain ⟨p, hp, hkey⟩ : ∃ p ∈ s.db.peers, p.seqnum = o.seqnum := by
    by_contra hnone
    obtain ⟨peers, hpeers⟩ : ∃ peers, s.db.peers.insert (relayPeerRow o.seqnum peer isBlock params .ready) = some peers :=
      insert_isSome fun p hp hkey => hnone ⟨p, hp, hkey⟩
    rw [hrefused] at hpeers
    cases hpeers
  have hpeer : p.peer = peer := by
    have hann : o.status = .announced := by
      cases hstatus : o.status with
      | announced => rfl
      | downloaded => exact absurd hstatus hdown
    simpa [announcesHeld, ← hid, h.selectObjId ho, hann, ← hkey, select_key hp] using hheld
  cases hstatus : p.status with
  | started => exact .inl (hpeer ▸ h.started p hp hstatus o ho hkey.symm)
  | ready => exact .inr ⟨p, hp, hkey, hpeer, hstatus⟩

/-- No row has the sequence number that is deleted. -/
theorem RelayInv.deleteUnused (h : RelayInv s) (hsel : s.db.objs.select seqnum = none) :
    RelayInv { s with db := relayObjsDeleteSeqnum s.db seqnum } := by
  have hobj : ∀ a, a ∈ s.db.objs.delete seqnum ↔ a ∈ s.db.objs := fun a =>
    mem_delete.trans (and_iff_left_of_imp (select_eq_none.1 hsel a))
  have hpeer : ∀ p, p ∈ s.db.peers.delete seqnum ↔ p ∈ s.db.peers := fun p =>
    mem_delete.trans (and_iff_left_of_imp fun hp hkey => by
      obtain ⟨a, ha, hseq⟩ := h.peerObj p hp
      exact select_eq_none.1 hsel a ha (hseq.trans hkey))
  exact
    { objIds := fun a ha b hb => h.objIds a ((hobj a).1 ha) b ((hobj b).1 hb)
      fresh := fun a ha => h.fresh a ((hobj a).1 ha)
      nextBlock := h.nextBlock
      nextTx := h.nextTx
      peerObj := fun p hp => (h.peerObj p ((hpeer p).1 hp)).imp fun a ha => ⟨(hobj a).2 ha.1, ha.2⟩
      started := fun p hp hstarted a ha => h.started p ((hpeer p).1 hp) hstarted a ((hobj a).1 ha)
      held := fun oid peer hann hasked => (h.held oid peer hann hasked).imp fun a ha =>
        ⟨(hobj a).2 ha.1, ha.2.1, ha.2.2.imp id fun ⟨p, hp, hrest⟩ => ⟨p, (hpeer p).2 hp, hrest⟩⟩
      requests := fun r hr t ht => (h.requests r hr t ht).imp fun a ha => ⟨(hobj a).2 ha.1, ha.2⟩
      timeout := h.timeout }

theorem RelayInv.step {e : RelayEvent} (h : RelayInv s) (hheld : announcesHeld s e = false)
    (hstep : relayStep isWitness s e = some s') : RelayInv s' := by
  cases e with
  | announce peer isBlock params now ticks =>
    simp only [relayStep, Option.ite_none_left_eq_some, Option.map_eq_some_iff] at hstep
    obtain ⟨hpeer, db, hinsert, rfl⟩ := hstep
    cases hsel : s.db.selectObjId params.oid with
    | none =>
      obtain ⟨hinv, o, ho, hid, hheldBy⟩ := h.insertNew hsel hinsert
      rw [← hid]
      exact hinv.announce ho fun _ => .inr (hheldBy.resolve_left hpeer)
    | some o =>
      obtain ⟨ho, hid⟩ := selectObjId_eq_some hsel
      rw [← hid]
      simp only [relayObjsInsert, hsel, hpeer, or_false] at hinsert
      by_cases hdown : o.status = .downloaded
      · simp only [hdown, if_true] at hinsert
        cases hinsert
        exact h.announce ho fun _ => .inl hdown
      · simp only [hdown, if_false] at hinsert
        cases hpeers : s.db.peers.insert (relayPeerRow o.seqnum peer isBlock params .ready) with
        | some peers =>
          rw [hpeers] at hinsert
          cases hinsert
          refine RelayInv.announce (h.insertPeer ho rfl rfl hpeers) ho fun _ => .inr ?_
          exact ⟨_, (mem_of_insert hpeers).2 (.inl rfl), rfl, rfl, rfl⟩
        | none =>
          rw [hpeers] at hinsert
          cases hinsert
          have hown := h.rowHeld ho hdown hid hheld hpeers
          exact h.announce ho fun hasked => .inr (hown.resolve_left hasked)
  | insertOwn isBlock oid now ticks =>
    simp only [relayStep, Option.map_eq_some_iff] at hstep
    obtain ⟨db, hinsert, rfl⟩ := hstep
    cases hsel : s.db.selectObjId oid with
    | none => exact (h.insertNew (by exact hsel) hinsert).1
    | some o =>
      simp only [relayObjsInsert, hsel, or_true, if_true] at hinsert
      cases hinsert
      exact h
  | findDownloads peer level maxobjs bytes now =>
    cases hstep
    exact h.findDownloads
  | setDownloaded oid now =>
    cases hstep
    exact h.setDownloaded
  | deletePeer peer =>
    cases hstep
    exact h.deletePeer
  | deleteSeqnum seqnum =>
    cases hstep
    cases hsel : s.db.objs.select seqnum with
    | some o =>
      obtain ⟨ho, rfl⟩ := select_eq_some.1 hsel
      exact h.deleteSeqnum ho
    | none => exact h.deleteUnused hsel

end Invariant

end CredaCash.Node
