import CredaCash.Machine
import CredaCash.Probing
import CredaCash.Tracker.Hostname

/-! The rendezvous directory: a circular list of names in the order in which they expire, and a hash table with
open addressing that finds a name's place in the list. -/

namespace CredaCash.Tracker
open Probing

def hashPointerNull : ℕ := 2^32 - 1
def hashPointerChained : ℕ := 2^32 - 2
def expireEntries : ℕ := 120
def secondsPerExpireCount : ℕ := 60

/-- What `Init` fixes for the life of a directory. A pointer stands for one list entry, as `Init` demands. -/
structure Config where
  listSize : ℕ
  hashSize : ℕ
  siphash : Hostname → ℕ
  expire : ℕ
  list_lt_hash : listSize < hashSize
  pointers_fit : listSize + 1 < 2^32

/-- A slot of the hash table. The name stays when the slot is not in use any more. -/
structure HashEntry where
  pointer : ℕ
  hostname : Hostname
deriving DecidableEq

/-- A slot that is marked neither NULL nor CHAINED. -/
def HashEntry.Used (e : HashEntry) : Prop := e.pointer ≠ hashPointerNull ∧ e.pointer ≠ hashPointerChained

instance (e : HashEntry) : Decidable e.Used := inferInstanceAs (Decidable (_ ∧ _))

/-- The directory. What stands at the places of `namelist` from the list size on is not the list's. -/
structure Dir where
  namelist : ℕ → Hostname
  hashtable : ℕ → HashEntry
  listHead : ℕ
  listNentries : ℕ
  expireLastListNentries : ℕ
  expireCountIndex : ℕ
  expireCount : ℕ → ℕ

/-- The directory after `Init`, with all bytes of its memory set. -/
def Dir.init : Dir where
  namelist _ := ⟨List.replicate torHostnameBytes 255, List.length_replicate ..⟩
  hashtable _ := ⟨hashPointerNull, ⟨List.replicate torHostnameBytes 255, List.length_replicate ..⟩⟩
  listHead := 0
  listNentries := 0
  expireLastListNentries := 0
  expireCountIndex := 0
  expireCount _ := 0

variable (c : Config) (d : Dir)

/-- The slot at which the probing for a name starts. -/
def hashIndex (name : Hostname) : ℕ := c.siphash name % c.hashSize

/-- The slot with the name, `some none` when a NULL comes first; none when the loop does not end within the fuel. -/
def find2 (fuel : ℕ) (name : Hostname) (hashIndex : ℕ) : Option (Option ℕ) :=
  (scan (fun i => (d.hashtable i).pointer = hashPointerNull ∨
      (d.hashtable i).pointer ≠ hashPointerChained ∧ (d.hashtable i).hostname = name) c.hashSize fuel hashIndex).map
    fun i => if (d.hashtable i).pointer = hashPointerNull then none else some i

/-- The list entry that a slot points to, none when its name is another one. -/
def findTable (name : Hostname) (hashFind : ℕ) : Option ℕ :=
  let p := (d.hashtable hashFind).pointer
  if p ≥ c.listSize then none
  else if d.namelist p = name then some p
  else none

/-- The seconds until the count in whose range a list entry lies has expired. -/
def findExpireLoop (listFind : ℕ) : ℕ → ℕ → ℕ → ℕ → ℤ
  | 0, _, _, _ => -1
  | left+1, listLo, index, period =>
    let listHi := (listLo + d.expireCount index) % 2^64
    if listLo ≤ listFind ∧ listFind < listHi then (period * c.expire * secondsPerExpireCount / expireEntries : ℕ)
    else findExpireLoop listFind left listHi (if index + 1 = expireEntries then 0 else index + 1) (period + 1)

def findExpire (listFind : ℕ) : ℤ := findExpireLoop c d listFind expireEntries d.listHead d.expireCountIndex 0

def clearHostname (place : ℕ) : Dir := { d with namelist := Function.update d.namelist place clearedHostname }

/-- A slot of the table gets a pointer and, but for the marks, a name. -/
def setEntry (i : ℕ) (e : HashEntry) : Dir := { d with hashtable := Function.update d.hashtable i e }

def setPointer (i pointer : ℕ) : Dir := setEntry d i { d.hashtable i with pointer }

/-- The list place after the last entry. -/
def tailPlace : ℕ :=
  let listIndex := d.listHead + d.listNentries
  if listIndex ≥ c.listSize then listIndex - c.listSize else listIndex

def addList (name : Hostname) (hashFind : ℕ) : Dir :=
  let listIndex := tailPlace c d
  setEntry { d with
    listNentries := d.listNentries + 1
    namelist := Function.update d.namelist listIndex name } hashFind ⟨listIndex % 2^32, name⟩

/-- A name that is in the table already: its entry moves to the end of the list when half of its time has passed. -/
def update (name : Hostname) (hashFind : ℕ) : ℤ × Dir :=
  match findTable c d name hashFind with
  | none => (-1, d)
  | some listFind =>
    let expires := findExpire c d listFind
    if expires < 0 ∨ expires * 2 > c.expire * secondsPerExpireCount then (expires, d)
    else (c.expire * secondsPerExpireCount, addList c (clearHostname d listFind) name hashFind)

/-- How the probing of `Add` ends: at the name, or with a slot for it. -/
inductive Probe
  | found (hashFind : ℕ)
  | free (hashAdd : ℕ)

/-- Probing for a name that keeps the first slot which can take it; none when the fuel does not last. -/
def addLoop (name : Hostname) : ℕ → ℕ → Option ℕ → Option Probe
  | 0, _, _ => none
  | fuel+1, hashFind, hashAdd =>
    let p := (d.hashtable hashFind).pointer
    if p = hashPointerNull then some (.free (hashAdd.getD hashFind))
    else if p = hashPointerChained then addLoop name fuel (next c.hashSize hashFind) (some (hashAdd.getD hashFind))
    else if (d.hashtable hashFind).hostname = name then some (.found hashFind)
    else addLoop name fuel (next c.hashSize hashFind) hashAdd

/-- The seconds until the name expires, or -1; none when the probing does not end. -/
def add (fuel : ℕ) (namestr : List UInt8) : Option (ℤ × Dir) :=
  match nameToBinary namestr with
  | none => some (-1, d)
  | some name =>
    if d.listNentries = c.listSize then some (-1, d)
    else
      (addLoop c d name fuel (hashIndex c name) none).map fun
        | .found hashFind => update c d name hashFind
        | .free hashAdd => (c.expire * secondsPerExpireCount, addList c d name hashAdd)

/-- The CHAINED slots to the left become NULL up to the first one that is not CHAINED. -/
def clearLeft : ℕ → ℕ → Dir → Option Dir
  | 0, _, _ => none
  | fuel+1, i, d =>
    let i := prev c.hashSize i
    if (d.hashtable i).pointer ≠ hashPointerChained then some d
    else clearLeft fuel i (setPointer d i hashPointerNull)

/-- The list without its first entry. -/
def dropHead : Dir :=
  { d with
    listHead := if d.listHead + 1 = c.listSize then 0 else d.listHead + 1
    listNentries := d.listNentries - 1 }

/-- The first entry of the list expires; none when one of the loops does not end. -/
def expireHead (fuel : ℕ) : Option Dir :=
  if d.listNentries = 0 then some d
  else
    let name := d.namelist d.listHead
    if name = clearedHostname then some (dropHead c d)
    else
      (find2 c d fuel name (hashIndex c name)).bind fun
        | none => some (dropHead c d)
        | some hashFind =>
          let d := setPointer (dropHead c d) hashFind hashPointerChained
          (scan (fun i => (d.hashtable i).pointer ≠ hashPointerChained) c.hashSize fuel (next c.hashSize hashFind)).bind
            fun hashFind =>
              if (d.hashtable hashFind).pointer ≠ hashPointerNull then some d
              else clearLeft c fuel hashFind d

/-- The end of a period of the expire thread: the entries that came in it are counted. -/
def closePeriod : Dir :=
  { d with
    expireCount := Function.update d.expireCount d.expireCountIndex
      ((d.expireCount d.expireCountIndex + d.listNentries + 2^64 - d.expireLastListNentries) % 2^64)
    expireLastListNentries := d.listNentries
    expireCountIndex := if d.expireCountIndex + 1 = expireEntries then 0 else d.expireCountIndex + 1 }

/-- What the server and the expire thread do with a directory, each under its lock. -/
inductive Event
  | add (namestr : List UInt8)
  | expireHead
  | closePeriod

/-- One event; none when a loop does not end within the fuel. -/
def step (fuel : ℕ) (d : Dir) : Event → Option Dir
  | .add namestr => (add c d fuel namestr).map (·.2)
  | .expireHead => expireHead c d fuel
  | .closePeriod => some (closePeriod d)

end CredaCash.Tracker
