import CredaCash.Groups
import CredaCash.Tracker.DirRun

/-! The expire thread: the entries of the list go one by one in the order in which they came, the ones of a period within
the period that comes a round of the counts later. -/

namespace CredaCash.Tracker
open Groups Probing

/-- What an iteration of `ExpireProc` has computed, and how often it has still to call `ExpireHead`. -/
structure Iteration where
  deltaT : ℤ
  nexpire : ℕ
  left : ℕ

/-- An entry that has left the list, with the periods in which it came and went. -/
structure Gone where
  cameIn : ℕ
  wentIn : ℕ
deriving DecidableEq

/-- The directory and the expire thread, which is within an iteration or sleeps. What follows `assertionFailed` is not
kept by the code: the number of the period, how many entries have come in it, and the periods in which the entries of the
list have come. -/
structure Expiry where
  dir : Dir
  expired : ℕ
  expireEndTime : ℤ
  iteration : Option Iteration
  assertionFailed : Bool
  period : ℕ
  added : ℕ
  cameIn : List ℕ
  gone : List Gone

/-- The thread at its start. Periods are numbered from the number of the counts on. -/
def Expiry.init (expireEndTime : ℤ) : Expiry :=
  ⟨Dir.init, 0, expireEndTime, none, false, expireEntries, 0, [], []⟩

/-- `(int)m_expire_end_time - (int)now`. -/
def deltaTime (expireEndTime now : ℤ) : ℤ := (expireEndTime - now).bmod (2^32)

namespace Expiry
variable (c : Config) (s : Expiry)

/-- An iteration up to its loop. -/
def startIteration (now : ℤ) : Expiry :=
  let deltaT := deltaTime s.expireEndTime now
  let nexpire := (s.dir.expireCount s.dir.expireCountIndex + 2^64 - s.expired) % 2^64
  let nexpire := if deltaT > 1 then nexpire / deltaT.toNat else nexpire
  { s with
    expireEndTime := if deltaT < -600 then now - 600 else s.expireEndTime
    iteration := some ⟨deltaT, nexpire, nexpire⟩ }

/-- The end of a period, with what has expired in it. -/
def closePeriod (expired : ℕ) : Expiry :=
  let d := s.dir
  { s with
    expireEndTime := s.expireEndTime + (c.expire * secondsPerExpireCount / expireEntries : ℕ)
    assertionFailed := s.assertionFailed || expired != d.expireCount d.expireCountIndex
    dir := { d with
      expireCount := Function.update d.expireCount d.expireCountIndex
        ((expired + d.listNentries + 2^64 - d.expireLastListNentries) % 2^64)
      expireLastListNentries := d.listNentries
      expireCountIndex := if d.expireCountIndex + 1 = expireEntries then 0 else d.expireCountIndex + 1 }
    expired := 0
    iteration := none
    period := s.period + 1
    added := 0 }

/-- An iteration behind its loop. -/
def endIteration (i : Iteration) : Expiry :=
  let expired := (s.expired + i.nexpire) % 2^64
  if i.deltaT ≤ 0 then s.closePeriod c expired else { s with expired, iteration := none }

/-- The directory after an `Add`, which may have put an entry at the end of the list. -/
def afterAdd (d : Dir) : Expiry :=
  if d.listNentries = s.dir.listNentries then { s with dir := d }
  else { s with dir := d, added := s.added + 1, cameIn := s.cameIn ++ [s.period] }

/-- The directory after an `ExpireHead` of the loop. -/
def afterExpireHead (i : Iteration) (d : Dir) : Expiry :=
  let s' := { s with dir := d, iteration := some { i with left := i.left - 1 } }
  match s.cameIn with
  | [] => s'
  | p :: cameIn => { s' with cameIn, gone := s.gone ++ [⟨p, s.period⟩] }

end Expiry

/-- The calls of the server, and the thread: an iteration starts at some time, calls `ExpireHead`, and ends. -/
inductive ExpiryEvent
  | add (namestr : List UInt8)
  | startIteration (now : ℤ)
  | expireHead
  | endIteration

/-- One event; none when it cannot happen, or a loop of the directory does not end within the fuel. -/
def expiryStep (c : Config) (fuel : ℕ) (s : Expiry) : ExpiryEvent → Option Expiry
  | .add namestr => (add c s.dir fuel namestr).map fun r => s.afterAdd r.2
  | .startIteration now => if s.iteration.isSome then none else some (s.startIteration now)
  | .expireHead => s.iteration.bind fun i =>
    if i.left = 0 then none else (expireHead c s.dir fuel).map (s.afterExpireHead i)
  | .endIteration => s.iteration.bind fun i => if i.left ≠ 0 then none else some (s.endIteration c i)

/-- The counts from the current period on. -/
def roundCounts (d : Dir) (i : ℕ) : ℕ := d.expireCount (slot expireEntries d.expireCountIndex i)

/-- How often `ExpireHead` has been called in the current period. -/
def Expiry.removed (s : Expiry) : ℕ := s.expired + s.iteration.elim 0 fun i => i.nexpire - i.left

/-- The groups of entries from the head of the list on: what is left of the current count, the other counts, and the
entries that have come in the current period. -/
def Expiry.groups (s : Expiry) (i : ℕ) : ℕ :=
  if i = 0 then roundCounts s.dir 0 - s.removed else if i = expireEntries then s.added else roundCounts s.dir i

/-- What the thread keeps. -/
structure ExpiryInv (c : Config) (s : Expiry) : Prop where
  index_lt : s.dir.expireCountIndex < expireEntries
  period_ge : expireEntries ≤ s.period
  count_le : ∀ i, s.dir.expireCount i ≤ c.listSize
  nentries_le : s.dir.listNentries ≤ c.listSize
  head_lt : 0 < c.listSize → s.dir.listHead < c.listSize
  removed_le : s.removed ≤ roundCounts s.dir 0
  added_eq : s.dir.expireLastListNentries + s.added = s.dir.listNentries + s.removed
  cameIn_eq : s.cameIn = labels s.groups (fun i => s.period + i - expireEntries) (expireEntries + 1)
  length_eq : s.cameIn.length = s.dir.listNentries
  iteration_le : ∀ i ∈ s.iteration, i.left ≤ i.nexpire ∧ s.expired + i.nexpire ≤ roundCounts s.dir 0 ∧
    (i.deltaT ≤ 1 → s.expired + i.nexpire = roundCounts s.dir 0)
  asserted : s.assertionFailed = false
  gone_eq : ∀ g ∈ s.gone, g.wentIn = g.cameIn + expireEntries

/-- The period of the count in whose range `FindExpire` sees a list place, none when it sees it in no range. -/
def findPeriodLoop (d : Dir) (listFind : ℕ) : ℕ → ℕ → ℕ → ℕ → Option ℕ
  | 0, _, _, _ => none
  | left+1, listLo, index, period =>
    let listHi := (listLo + d.expireCount index) % 2^64
    if listLo ≤ listFind ∧ listFind < listHi then some period
    else findPeriodLoop d listFind left listHi (if index + 1 = expireEntries then 0 else index + 1) (period + 1)

def findPeriod (d : Dir) (listFind : ℕ) : Option ℕ :=
  findPeriodLoop d listFind expireEntries d.listHead d.expireCountIndex 0

/-- What `FindExpire` returns for a period. -/
def expiresIn (c : Config) : Option ℕ → ℤ
  | none => -1
  | some period => (period * c.expire * secondsPerExpireCount / expireEntries : ℕ)

/-- The whole periods until the entry that comes `k` after the first expires, none when it has come in the current
one. -/
def Expiry.wholePeriods (s : Expiry) (k : ℕ) : Option ℕ :=
  s.cameIn[k]?.bind fun p => if p = s.period then none else some (p + expireEntries - s.period)

/-- What the thread keeps account of: all counts together, and when an entry has come. -/
structure Accounted (s : Expiry) : Prop where
  asserted : s.assertionFailed = false
  removed_le : s.removed ≤ s.dir.expireCount s.dir.expireCountIndex
  counted : ∑ i ∈ Finset.range expireEntries, s.dir.expireCount i - s.removed + s.added = s.dir.listNentries
  listed : s.cameIn.length = s.dir.listNentries
  stays : ∀ p ∈ s.cameIn, p ≤ s.period ∧ s.period ≤ p + expireEntries
  leaves : ∀ g ∈ s.gone, g.wentIn = g.cameIn + expireEntries

/-- `FindExpire` tells the period of an entry: no group ends within the places behind the entry that the current period
has emptied, or the entry lies past the end of the memory and has come in the current period. -/
def AgeKnown (c : Config) (s : Expiry) (k : ℕ) : Prop :=
  if s.dir.listHead + k < c.listSize then
    ∀ i < expireEntries, start (roundCounts s.dir) (i + 1) ≤ k ∨ k + s.removed < start (roundCounts s.dir) (i + 1)
  else s.cameIn[k]? = some s.period

instance (c : Config) (s : Expiry) (k : ℕ) : Decidable (AgeKnown c s k) := by
  unfold AgeKnown
  infer_instance

section
variable {c : Config} {d d' : Dir} {s s' : Expiry} {name : Hostname} {fuel i : ℕ}

lemma roundCounts_zero (h : d.expireCountIndex < expireEntries) :
    roundCounts d 0 = d.expireCount d.expireCountIndex := by
  rw [roundCounts, slot_zero h]

theorem ExpiryInv.init (c : Config) (expireEndTime : ℤ) : ExpiryInv c (Expiry.init expireEndTime) where
  index_lt := (by decide : 0 < expireEntries)
  period_ge := le_rfl
  count_le _ := Nat.zero_le _
  nentries_le := Nat.zero_le _
  head_lt h := h
  removed_le := le_rfl
  added_eq := rfl
  cameIn_eq := by
    symm
    apply List.eq_nil_of_length_eq_zero
    rw [length_labels, show (Expiry.init expireEndTime).groups = (Expiry.init 0).groups from rfl]
    decide
  length_eq := rfl
  iteration_le _ h := by cases h
  asserted := rfl
  gone_eq _ h := absurd h List.not_mem_nil

/-- The fields of a directory that an `Add` leaves as they are, and the length of its list. -/
structure ListGrows (c : Config) (d d' : Dir) : Prop where
  head : d'.listHead = d.listHead
  last : d'.expireLastListNentries = d.expireLastListNentries
  index : d'.expireCountIndex = d.expireCountIndex
  count : d'.expireCount = d.expireCount
  nentries : d'.listNentries = d.listNentries ∨ d'.listNentries = d.listNentries + 1 ∧ d.listNentries ≠ c.listSize

lemma add_grows {namestr : List UInt8} {r : ℤ} (h : add c d fuel namestr = some (r, d')) : ListGrows c d d' := by
  unfold add at h
  split at h
  · cases h
    exact ⟨rfl, rfl, rfl, rfl, .inl rfl⟩
  split at h
  · cases h
    exact ⟨rfl, rfl, rfl, rfl, .inl rfl⟩
  rename_i hroom
  obtain ⟨probe, -, heq⟩ := Option.map_eq_some_iff.1 h
  cases probe with
  | free hashAdd =>
    cases heq
    exact ⟨rfl, rfl, rfl, rfl, .inr ⟨rfl, hroom⟩⟩
  | found hashFind =>
    change update c d _ hashFind = (r, d') at heq
    unfold update at heq
    split at heq
    · cases heq
      exact ⟨rfl, rfl, rfl, rfl, .inl rfl⟩
    · dsimp only at heq
      split at heq
      · cases heq
        exact ⟨rfl, rfl, rfl, rfl, .inl rfl⟩
      · cases heq
        exact ⟨rfl, rfl, rfl, rfl, .inr ⟨rfl, hroom⟩⟩

/-- The list of a directory and its counts. -/
def listFields (d : Dir) : ℕ × ℕ × ℕ × ℕ × (ℕ → ℕ) :=
  (d.listHead, d.listNentries, d.expireLastListNentries, d.expireCountIndex, d.expireCount)

lemma clearLeft_listFields (h : clearLeft c fuel i d = some d') : listFields d' = listFields d := by
  induction fuel generalizing i d with
  | zero => cases h
  | succ fuel ih =>
    rw [clearLeft] at h
    split at h
    · cases h
      rfl
    · rw [ih h]
      rfl

/-- Whatever becomes of its slot, the first entry leaves the list. -/
lemma expireHead_listFields (hpos : d.listNentries ≠ 0) (h : expireHead c d fuel = some d') :
    listFields d' = listFields (dropHead c d) := by
  unfold expireHead at h
  rw [if_neg hpos] at h
  dsimp only at h
  split at h
  · cases h
    rfl
  obtain ⟨found, -, h⟩ := Option.bind_eq_some_iff.1 h
  cases found with
  | none =>
    cases h
    rfl
  | some hashFind =>
    obtain ⟨hashStop, -, h⟩ := Option.bind_eq_some_iff.1 h
    split at h
    · cases h
      rfl
    · rw [clearLeft_listFields h]
      rfl

lemma pow_bounds (c : Config) : c.listSize < 2^32 := by
  have hfit := c.pointers_fit
  omega

/-- The labels of the entries that have come in the current period are the last ones. -/
lemma labels_current (s : Expiry) (groups : ℕ → ℕ) :
    labels groups (fun i => s.period + i - expireEntries) (expireEntries + 1) =
      labels groups (fun i => s.period + i - expireEntries) expireEntries ++
        List.replicate (groups expireEntries) s.period := by
  rw [labels_succ, Nat.add_sub_cancel]

lemma ExpiryInv.added_le (h : ExpiryInv c s) : s.added ≤ s.dir.listNentries := by
  rw [← h.length_eq, h.cameIn_eq, labels_current, List.length_append, List.length_replicate]
  exact Nat.le_add_left ..

/-- An `Add` between two calls of the thread, or within its loop. -/
lemma ExpiryInv.afterAdd (h : ExpiryInv c s) (hd : ListGrows c s.dir d) : ExpiryInv c (s.afterAdd d) := by
  have hcounts : ∀ i, roundCounts d i = roundCounts s.dir i := fun i => by rw [roundCounts, roundCounts, hd.index, hd.count]
  unfold Expiry.afterAdd
  split_ifs with hsame
  · have hgroups : ({ s with dir := d } : Expiry).groups = s.groups := by
      funext i
      simp only [Expiry.groups, hcounts]
      rfl
    refine ⟨hd.index ▸ h.index_lt, h.period_ge, fun i => hd.count ▸ h.count_le i, hsame ▸ h.nentries_le,
      fun hpos => hd.head ▸ h.head_lt hpos, hcounts 0 ▸ h.removed_le, ?_, hgroups ▸ h.cameIn_eq, hsame ▸ h.length_eq,
      fun i hi => hcounts 0 ▸ h.iteration_le i hi, h.asserted, h.gone_eq⟩
    rw [hd.last, hsame]
    exact h.added_eq
  · obtain ⟨hn, hroom⟩ := hd.nentries.resolve_left hsame
    have hle := h.nentries_le
    set s' : Expiry := { s with dir := d, added := s.added + 1, cameIn := s.cameIn ++ [s.period] } with hs'
    have hgroups : ∀ i < expireEntries, s'.groups i = s.groups i := by
      intro i hi
      simp only [Expiry.groups, hs', hcounts, if_neg hi.ne]
      rfl
    have hlast : s'.groups expireEntries = s.groups expireEntries + 1 := rfl
    refine ⟨hd.index ▸ h.index_lt, h.period_ge, fun i => hd.count ▸ h.count_le i, hn.trans_le (by omega),
      fun hpos => hd.head ▸ h.head_lt hpos, hcounts 0 ▸ h.removed_le, ?_, ?_, ?_,
      fun i hi => hcounts 0 ▸ h.iteration_le i hi, h.asserted, h.gone_eq⟩
    · have hadded := h.added_eq
      rw [hd.last, hn]
      change s.dir.expireLastListNentries + (s.added + 1) = s.dir.listNentries + 1 + s.removed
      omega
    · change s.cameIn ++ [s.period] = labels s'.groups (fun i => s.period + i - expireEntries) (expireEntries + 1)
      rw [h.cameIn_eq, labels_current, labels_current, hlast, labels_congr hgroups fun _ _ => rfl, List.replicate_succ',
        List.append_assoc]
    · change (s.cameIn ++ [s.period]).length = d.listNentries
      rw [List.length_append, h.length_eq, hn]
      rfl

/-- What the thread computes before its loop. -/
lemma ExpiryInv.startIteration (h : ExpiryInv c s) (hsleeps : s.iteration = none) (now : ℤ) :
    ExpiryInv c (s.startIteration now) := by
  have hremoved : s.removed = s.expired := by
    rw [Expiry.removed, hsleeps]
    rfl
  have hle := h.removed_le
  rw [hremoved] at hle
  have hbound := (roundCounts_zero h.index_lt ▸ h.count_le _ : roundCounts s.dir 0 ≤ c.listSize)
  have hsize := pow_bounds c
  set nexpire := (s.dir.expireCount s.dir.expireCountIndex + 2^64 - s.expired) % 2^64 with hn
  have hnexpire : s.expired + nexpire = roundCounts s.dir 0 := by
    rw [hn, ← roundCounts_zero h.index_lt]
    omega
  have hremoved' : (s.startIteration now).removed = s.removed := by
    rw [hremoved, Expiry.removed, Expiry.startIteration]
    simp
  have hgroups : (s.startIteration now).groups = s.groups := by
    funext i
    simp only [Expiry.groups, hremoved']
    rfl
  refine ⟨h.index_lt, h.period_ge, h.count_le, h.nentries_le, h.head_lt, hremoved' ▸ h.removed_le, hremoved' ▸ h.added_eq,
    hgroups ▸ h.cameIn_eq, h.length_eq, fun i hi => ?_, h.asserted, h.gone_eq⟩
  obtain rfl := Option.some.inj hi
  refine ⟨le_rfl, ?_, fun hdelta => ?_⟩
  · change s.expired + (if deltaTime s.expireEndTime now > 1 then nexpire / _ else nexpire) ≤ roundCounts s.dir 0
    split_ifs
    · exact (Nat.add_le_add_left (Nat.div_le_self ..) _).trans hnexpire.le
    · exact hnexpire.le
  · change s.expired + (if deltaTime s.expireEndTime now > 1 then nexpire / _ else nexpire) = roundCounts s.dir 0
    rw [if_neg (not_lt.2 hdelta)]
    exact hnexpire

/-- A turn of the loop takes an entry that has come a round before. -/
lemma ExpiryInv.afterExpireHead (h : ExpiryInv c s) {i : Iteration} (hi : s.iteration = some i) (hleft : i.left ≠ 0)
    (hd : expireHead c s.dir fuel = some d) : ExpiryInv c (s.afterExpireHead i d) := by
  obtain ⟨hle, hcount, hexact⟩ := h.iteration_le i hi
  have hremoved : s.removed = s.expired + (i.nexpire - i.left) := by
    rw [Expiry.removed, hi]
    rfl
  obtain ⟨m, hm⟩ : ∃ m, s.groups 0 = m + 1 := Nat.exists_eq_succ_of_ne_zero (by
    change roundCounts s.dir 0 - s.removed ≠ 0
    omega)
  have hm' : roundCounts s.dir 0 - s.removed = m + 1 := hm
  have hcame := h.cameIn_eq
  rw [labels, hm, List.replicate_succ, List.cons_append] at hcame
  have hpos : s.dir.listNentries ≠ 0 := by
    rw [← h.length_eq, hcame]
    exact Nat.succ_ne_zero _
  have hfields := expireHead_listFields hpos hd
  simp only [listFields, dropHead, Prod.mk.injEq] at hfields
  obtain ⟨hhead, hn, hlast, hindex, hcounts⟩ := hfields
  have hround : ∀ k, roundCounts d k = roundCounts s.dir k := fun k => by rw [roundCounts, roundCounts, hindex, hcounts]
  unfold Expiry.afterExpireHead
  rw [hcame]
  set s' : Expiry := { s with
    dir := d
    iteration := some { i with left := i.left - 1 }
    cameIn := List.replicate m (s.period + 0 - expireEntries) ++
      labels (fun i => s.groups (i + 1)) (fun i => s.period + (i + 1) - expireEntries) expireEntries
    gone := s.gone ++ [⟨s.period + 0 - expireEntries, s.period⟩] } with hs'
  have hremoved' : s'.removed = s.removed + 1 := by
    change s.expired + (i.nexpire - (i.left - 1)) = s.removed + 1
    omega
  have hgroups : s'.groups 0 = m ∧ ∀ k, s'.groups (k + 1) = s.groups (k + 1) := by
    constructor
    · change roundCounts d 0 - s'.removed = m
      rw [hround, hremoved']
      omega
    · intro k
      simp only [Expiry.groups, if_neg (Nat.succ_ne_zero k)]
      change (if _ then s.added else roundCounts d (k + 1)) = _
      rw [hround]
  refine ⟨hindex ▸ h.index_lt, h.period_ge, fun k => hcounts ▸ h.count_le k, ?_, fun hsize => ?_, ?_, ?_, ?_, ?_,
    fun j hj => ?_, h.asserted, fun g hg => ?_⟩
  · rw [hn]
    exact (Nat.sub_le ..).trans h.nentries_le
  · rw [hhead]
    exact next_lt (h.head_lt hsize)
  · rw [hround, hremoved']
    omega
  · have hadded := h.added_eq
    rw [hlast, hn, hremoved']
    change s.dir.expireLastListNentries + s.added = s.dir.listNentries - 1 + (s.removed + 1)
    omega
  · have hrest : (fun k => s'.groups (k + 1)) = fun k => s.groups (k + 1) := funext hgroups.2
    change s'.cameIn = labels s'.groups (fun i => s.period + i - expireEntries) (expireEntries + 1)
    rw [labels, hgroups.1, hrest]
  · have hlength := h.length_eq
    rw [hcame, List.length_cons] at hlength
    rw [hn, ← hlength]
    rfl
  · obtain rfl := Option.some.inj hj
    rw [hround]
    exact ⟨(Nat.sub_le ..).trans hle, hcount, hexact⟩
  · rcases List.mem_append.1 hg with hg | hg
    · exact h.gone_eq g hg
    · obtain rfl := List.mem_singleton.1 hg
      have hperiod := h.period_ge
      change s.period = s.period + 0 - expireEntries + expireEntries
      omega

/-- The counts of a round that begins at the next place, when the first one has been set anew. -/
lemma roundCounts_close (hindex : d.expireCountIndex < expireEntries) {n : ℕ}
    (hcount : d'.expireCount = Function.update d.expireCount d.expireCountIndex n)
    (hnext : d'.expireCountIndex = next expireEntries d.expireCountIndex) (hi : i < expireEntries) :
    roundCounts d' i = if i + 1 = expireEntries then n else roundCounts d (i + 1) := by
  rw [roundCounts, hnext, next_eq hindex, slot_slot, Nat.add_comm 1, hcount]
  by_cases hlast : i + 1 = expireEntries
  · have hback : slot expireEntries d.expireCountIndex (0 + expireEntries) = d.expireCountIndex :=
      slot_add_size.trans (slot_zero hindex)
    rw [Nat.zero_add] at hback
    rw [if_pos hlast, hlast, hback, Function.update_self]
  · have hne : slot expireEntries d.expireCountIndex (i + 1) ≠ d.expireCountIndex := by
      intro heq
      rw [← slot_zero hindex, slot_slot, Nat.zero_add] at heq
      exact Nat.succ_ne_zero i (slot_inj (by omega) (by decide) heq)
    rw [if_neg hlast, Function.update_of_ne hne, roundCounts]

/-- At the end of a period its group is empty, and the entries that have come in it are the last group. -/
lemma ExpiryInv.closePeriod (h : ExpiryInv c s) (hall : s.removed = roundCounts s.dir 0) :
    ExpiryInv c (s.closePeriod c s.removed) := by
  have hsize := pow_bounds c
  have hadded_le := h.added_le
  have hnentries := h.nentries_le
  have hcount : (s.removed + s.dir.listNentries + 2^64 - s.dir.expireLastListNentries) % 2^64 = s.added := by
    have hadded := h.added_eq
    omega
  set s' := s.closePeriod c s.removed with hs'
  have hcounts : s'.dir.expireCount = Function.update s.dir.expireCount s.dir.expireCountIndex s.added := by
    rw [← hcount]
    rfl
  have hround : ∀ k < expireEntries, roundCounts s'.dir k = s.groups (k + 1) := by
    intro k hk
    rw [roundCounts_close h.index_lt hcounts rfl hk, Expiry.groups, if_neg (Nat.succ_ne_zero k)]
  have hgroups : ∀ k < expireEntries, s'.groups k = s.groups (k + 1) := by
    intro k hk
    rw [← hround k hk, Expiry.groups, if_neg hk.ne]
    split_ifs with hzero
    · rw [hzero]
      rfl
    · rfl
  refine ⟨next_lt h.index_lt, h.period_ge.trans (Nat.le_succ _), fun k => ?_, h.nentries_le, h.head_lt,
    Nat.zero_le _, rfl, ?_, h.length_eq, fun _ hi => absurd hi (Option.not_mem_none _), ?_, h.gone_eq⟩
  · rw [hcounts]
    by_cases hk : k = s.dir.expireCountIndex
    · rw [hk, Function.update_self]
      exact hadded_le.trans hnentries
    · rw [Function.update_of_ne hk]
      exact h.count_le k
  · have hempty : s.groups 0 = 0 := by
      change roundCounts s.dir 0 - s.removed = 0
      rw [hall, Nat.sub_self]
    change s.cameIn = labels s'.groups (fun i => s.period + 1 + i - expireEntries) (expireEntries + 1)
    rw [h.cameIn_eq, labels, hempty, List.replicate_zero, List.nil_append, labels_succ,
      show s'.groups expireEntries = 0 from rfl, List.replicate_zero, List.append_nil]
    exact labels_congr (fun k hk => (hgroups k hk).symm) fun k _ => by rw [Nat.add_right_comm, Nat.add_assoc]
  · change (s.assertionFailed || s.removed != s.dir.expireCount s.dir.expireCountIndex) = false
    rw [h.asserted, hall, roundCounts_zero h.index_lt, bne_self_eq_false]
    rfl

/-- The end of an iteration whose loop has ended. -/
lemma ExpiryInv.endIteration (h : ExpiryInv c s) {i : Iteration} (hi : s.iteration = some i) (hleft : i.left = 0) :
    ExpiryInv c (s.endIteration c i) := by
  obtain ⟨-, hcount, hexact⟩ := h.iteration_le i hi
  have hremoved : s.removed = s.expired + i.nexpire := by
    rw [Expiry.removed, hi]
    change s.expired + (i.nexpire - i.left) = _
    rw [hleft, Nat.sub_zero]
  have hbound := roundCounts_zero h.index_lt ▸ h.count_le _
  have hsize := pow_bounds c
  have hmod : (s.expired + i.nexpire) % 2^64 = s.removed := by omega
  unfold Expiry.endIteration
  simp only [hmod]
  by_cases hdelta : i.deltaT ≤ 0
  · rw [if_pos hdelta]
    exact h.closePeriod (hremoved.trans (hexact (hdelta.trans zero_le_one)))
  · rw [if_neg hdelta]
    have hgroups : ({ s with expired := s.removed, iteration := none } : Expiry).groups = s.groups := rfl
    exact ⟨h.index_lt, h.period_ge, h.count_le, h.nentries_le, h.head_lt, h.removed_le, h.added_eq,
      hgroups ▸ h.cameIn_eq, h.length_eq, fun _ hi => absurd hi (Option.not_mem_none _), h.asserted, h.gone_eq⟩

/-- Every event keeps what the thread keeps. -/
lemma ExpiryInv.step {e : ExpiryEvent} (h : ExpiryInv c s) (hstep : expiryStep c fuel s e = some s') :
    ExpiryInv c s' := by
  cases e with
  | add namestr =>
    obtain ⟨⟨r, d⟩, hadd, rfl⟩ := Option.map_eq_some_iff.1 hstep
    exact h.afterAdd (add_grows hadd)
  | startIteration now =>
    rw [expiryStep] at hstep
    split_ifs at hstep with hsleeps
    cases hstep
    exact h.startIteration (Option.not_isSome_iff_eq_none.1 hsleeps) now
  | expireHead =>
    obtain ⟨i, hi, hstep⟩ := Option.bind_eq_some_iff.1 hstep
    split_ifs at hstep with hleft
    obtain ⟨d, hd, rfl⟩ := Option.map_eq_some_iff.1 hstep
    exact h.afterExpireHead hi hleft hd
  | endIteration =>
    obtain ⟨i, hi, hstep⟩ := Option.bind_eq_some_iff.1 hstep
    split_ifs at hstep with hleft
    cases hstep
    exact h.endIteration hi (not_not.1 hleft)

/-- The counts together are those of the round. -/
lemma sum_roundCounts (h : d.expireCountIndex < expireEntries) :
    ∑ i ∈ Finset.range expireEntries, d.expireCount i = start (roundCounts d) expireEntries := by
  rw [start_eq_sum]
  symm
  refine Finset.sum_nbij (slot expireEntries d.expireCountIndex) (fun i _ => ?_) (fun i hi j hj heq => ?_)
    (fun i hi => ?_) fun i _ => rfl
  · exact Finset.mem_range.2 (slot_lt (by decide))
  · exact slot_inj (Finset.mem_range.1 hi) (Finset.mem_range.1 hj) heq
  · obtain ⟨k, hk, hslot⟩ := exists_slot h (Finset.mem_range.1 hi)
    exact ⟨k, Finset.mem_range.2 hk, hslot⟩

/-- The groups that are not of the current period are those of the counts, less what has expired. -/
lemma groups_eq (hi : i < expireEntries) :
    s.groups i = if i = 0 then roundCounts s.dir 0 - s.removed else roundCounts s.dir i := by
  rw [Expiry.groups, if_neg hi.ne]

theorem ExpiryInv.accounted (h : ExpiryInv c s) : Accounted s where
  asserted := h.asserted
  removed_le := roundCounts_zero h.index_lt ▸ h.removed_le
  counted := by
    have hlength := h.length_eq
    rw [h.cameIn_eq, length_labels, start, start_congr fun i hi => groups_eq hi] at hlength
    have htaken := start_taken h.removed_le (by decide : expireEntries ≠ 0)
    rw [sum_roundCounts h.index_lt, ← htaken, Nat.add_sub_cancel]
    exact hlength
  listed := h.length_eq
  stays p hp := by
    rw [h.cameIn_eq] at hp
    obtain ⟨i, hi, rfl⟩ := mem_labels hp
    have hperiod := h.period_ge
    omega
  leaves := h.gone_eq

lemma findPeriodLoop_succ {listFind left listLo index period : ℕ} (hsize : listLo + d.expireCount index < 2^64) :
    findPeriodLoop d listFind (left + 1) listLo index period =
      if listLo ≤ listFind ∧ listFind < listLo + d.expireCount index then some period
      else findPeriodLoop d listFind left (listLo + d.expireCount index) (next expireEntries index) (period + 1) := by
  rw [findPeriodLoop]
  simp only [Nat.mod_eq_of_lt hsize]
  rfl

lemma findExpireLoop_eq (c : Config) (d : Dir) (listFind left listLo index period : ℕ) :
    findExpireLoop c d listFind left listLo index period =
      expiresIn c (findPeriodLoop d listFind left listLo index period) := by
  induction left generalizing listLo index period with
  | zero => rfl
  | succ left ih =>
    rw [findExpireLoop, findPeriodLoop]
    split_ifs with hrange
    all_goals first | rfl | exact ih ..

/-- From the start of a group on `FindExpire` counts the groups up to that of a place. -/
lemma findPeriodLoop_of_le {listFind left listLo j : ℕ} (hcount : ∀ i, d.expireCount i < 2^32)
    (hsize : listLo + left * 2^32 < 2^64) (hle : listLo ≤ listFind) :
    findPeriodLoop d listFind left listLo (slot expireEntries d.expireCountIndex j) j =
      (groupOf (fun i => roundCounts d (j + i)) left (listFind - listLo)).map (j + ·) := by
  induction left generalizing listLo j with
  | zero => rfl
  | succ left ih =>
    have hlt : roundCounts d j < 2^32 := hcount _
    have hround : d.expireCount (slot expireEntries d.expireCountIndex j) = roundCounts d j := rfl
    have hfirst : roundCounts d (j + 0) = roundCounts d j := rfl
    rw [findPeriodLoop_succ (by omega), groupOf, hfirst, next_slot (by decide), hround]
    by_cases hrange : listFind < listLo + roundCounts d j
    · rw [if_pos ⟨hle, hrange⟩, if_pos (by omega)]
      rfl
    · rw [if_neg fun h => hrange h.2, if_neg (by omega), ih (by omega) (by omega), Option.map_map, Nat.sub_add_eq]
      simp only [Nat.add_assoc, Nat.add_comm 1, Function.comp_def]

/-- A place before that of the head is in no range. -/
lemma findPeriodLoop_of_lt {listFind left listLo index period : ℕ} (hcount : ∀ i, d.expireCount i < 2^32)
    (hsize : listLo + left * 2^32 < 2^64) (hlt : listFind < listLo) :
    findPeriodLoop d listFind left listLo index period = none := by
  induction left generalizing listLo index period with
  | zero => rfl
  | succ left ih =>
    have hcount := hcount index
    rw [findPeriodLoop_succ (by omega), if_neg fun h => absurd h.1 (not_le.2 hlt)]
    exact ih (by omega) (by omega)

lemma ExpiryInv.findPeriod_eq (h : ExpiryInv c s) {k : ℕ} (hk : k < s.dir.listNentries) :
    findPeriod s.dir (place c s.dir k) =
      if s.dir.listHead + k < c.listSize then groupOf (roundCounts s.dir) expireEntries k else none := by
  have hnentries := h.nentries_le
  have hhead := h.head_lt (by omega)
  have hsize := pow_bounds c
  have hcount : ∀ i, s.dir.expireCount i < 2^32 := fun i => (h.count_le i).trans_lt hsize
  have hback : ¬s.dir.listHead + k < c.listSize →
      s.dir.listHead + k - c.listSize < s.dir.listHead ∧ s.dir.listHead + k - c.listSize < c.listSize := by omega
  have hwide : s.dir.listHead + expireEntries * 2^32 < 2^64 := by
    rw [expireEntries]
    omega
  rw [findPeriod, place, slot]
  split_ifs with hwrap
  · have hstart := findPeriodLoop_of_le hcount hwide (Nat.le_add_right _ k) (j := 0)
    rw [slot_zero h.index_lt, Nat.add_sub_cancel_left] at hstart
    rw [Nat.mod_eq_of_lt hwrap, hstart]
    simp
  · rw [Nat.mod_eq_sub_mod (not_lt.1 hwrap), Nat.mod_eq_of_lt (hback hwrap).2]
    exact findPeriodLoop_of_lt hcount hwide (hback hwrap).1

/-- The group that the current period has not emptied tells when an entry expires. -/
lemma ExpiryInv.wholePeriods_eq (h : ExpiryInv c s) {k : ℕ} (hk : k < s.dir.listNentries) :
    s.wholePeriods k = groupOf (roundCounts s.dir) expireEntries (k + s.removed) := by
  have hgroups : groupOf s.groups expireEntries k = groupOf (roundCounts s.dir) expireEntries (k + s.removed) := by
    rw [groupOf_congr fun i hi => groups_eq hi, groupOf_taken h.removed_le]
  have hperiod := h.period_ge
  rw [← h.length_eq] at hk
  have hcame := h.cameIn_eq
  rw [labels_current] at hcame
  rw [← hgroups, Expiry.wholePeriods, hcame]
  cases hgroup : groupOf s.groups expireEntries k with
  | none =>
    have hle := groupOf_eq_none.1 hgroup
    rw [hcame, List.length_append, List.length_replicate, length_labels] at hk
    rw [List.getElem?_append_right (by rwa [length_labels]), List.getElem?_replicate, length_labels, if_pos (by omega),
      Option.bind_some, if_pos rfl]
  | some i =>
    have hi := groupOf_lt hgroup
    have hlt : k < start s.groups expireEntries := not_le.1 fun hle => by
      rw [groupOf_eq_none.2 hle] at hgroup
      cases hgroup
    rw [List.getElem?_append_left (by rwa [length_labels]), getElem?_labels, hgroup, Option.map_some, Option.bind_some,
      if_neg (by omega)]
    congr 1
    omega

/-- An entry of the current period has no whole periods. -/
lemma ExpiryInv.wholePeriods_eq_none (h : ExpiryInv c s) {k : ℕ} (hk : k < s.dir.listNentries) :
    s.wholePeriods k = none ↔ s.cameIn[k]? = some s.period := by
  rw [← h.length_eq] at hk
  rw [Expiry.wholePeriods, List.getElem?_eq_getElem hk, Option.bind_some, Option.some.injEq]
  split_ifs with hp
  · exact iff_of_true rfl hp
  · exact iff_of_false not_false hp

/-- In every run of the server's calls and the thread, which end in any order and at any time, the thread accounts for
the entries, and `FindExpire` tells the period of an entry just where the counts and the memory let it. -/
theorem expiry_run {expireEndTime : ℤ} {es : List ExpiryEvent}
    (hrun : Machine.run (expiryStep c fuel) (Expiry.init expireEndTime) es = some s) :
    Accounted s ∧ ∀ k < s.dir.listNentries,
      findExpire c s.dir (place c s.dir k) = expiresIn c (findPeriod s.dir (place c s.dir k)) ∧
      (findPeriod s.dir (place c s.dir k) = s.wholePeriods k ↔ AgeKnown c s k) := by
  have h : ExpiryInv c s :=
    Machine.run_invariant (fun _ _ _ h hstep => ExpiryInv.step h hstep) (ExpiryInv.init c expireEndTime) hrun
  refine ⟨h.accounted, fun k hk => ⟨findExpireLoop_eq .., ?_⟩⟩
  rw [h.findPeriod_eq hk, AgeKnown]
  split_ifs with hwrap
  · rw [h.wholePeriods_eq hk, eq_comm, groupOf_add_iff]
  · rw [eq_comm, h.wholePeriods_eq_none hk]

end

/-- The iteration in which a period ends at its time. -/
def closingIteration (now : ℤ) : List ExpiryEvent := [.startIteration now, .endIteration]

/-- A name comes in, one period ends, and another name comes in. -/
theorem expiry_run_small : ∃ s, Machine.run (expiryStep smallConfig 3) (Expiry.init 15)
    (.add (smallName 100) :: closingIteration 15 ++ [.add (smallName 99)]) = some s ∧ Accounted s ∧
    findPeriod s.dir (place smallConfig s.dir 0) = s.wholePeriods 0 := by
  have hrun : Machine.run (expiryStep smallConfig 3) (Expiry.init 15)
      (.add (smallName 100) :: closingIteration 15 ++ [.add (smallName 99)]) = some _ :=
    (Option.some_get (by decide +kernel)).symm
  obtain ⟨haccounted, hages⟩ := expiry_run hrun
  exact ⟨_, hrun, haccounted, (hages 0 (by decide +kernel)).2.2 (by decide +kernel)⟩

/-- The second name comes in a period after the first one. A round later the first one has gone and a third one has come
in, at the place that the first one had: that one expires after the 119 periods which follow, but `FindExpire` says that
it has come in the current period. -/
theorem findExpire_wrapped : ∃ s, Machine.run (expiryStep smallConfig 3) (Expiry.init 15)
    (.add (smallName 100) :: closingIteration 15 ++ .add (smallName 99) ::
      (List.range 119).flatMap (fun i => closingIteration (30 + 15 * i)) ++
      [.startIteration 1815, .expireHead, .add (smallName 98), .endIteration]) = some s ∧
    1 < s.dir.listNentries ∧ findExpire smallConfig s.dir (place smallConfig s.dir 1) = -1 ∧
    s.wholePeriods 1 = some 119 := by
  refine ⟨_, (Option.some_get (by decide +kernel)).symm, ?_, ?_, ?_⟩ <;> decide +kernel

end CredaCash.Tracker
