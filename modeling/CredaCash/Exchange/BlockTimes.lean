import CredaCash.KeyedTable
import CredaCash.Machine
import CredaCash.Wire.Request
import Mathlib.Order.Nat

/-! The numbers of requests that are saved with the blocks, and the block time of a request that is found from them
after a restart. -/

namespace CredaCash.Exchange

/-- A row of `Exchange_Nums`. -/
structure NumsRow where
  level : ℕ
  timestamp : ℕ
  nextXreqnum : ℕ
  nextXmatchnum : ℕ
  deriving DecidableEq

/-- The table `Exchange_Nums`, whose primary key is the level. -/
abbrev NumsTable := KeyedTable NumsRow.level

def int64Max : ℕ := 2^63 - 1
def uint64Max : ℕ := 2^64 - 1

/-- `XcxNumsSelect`: the row with the greatest level at most `maxLevel`, none for `SQLITE_DONE`. -/
def xcxNumsSelect (t : NumsTable) (maxLevel : ℕ) : Option NumsRow :=
  t.first (fun r => decide (r.level ≤ maxLevel)) fun r => OrderDual.toDual r.level

/-- What `XcxNumsSelect` leaves in its output arguments, which are zero without a row. -/
def selectedNums (t : NumsTable) (maxLevel : ℕ) : NumsRow := (xcxNumsSelect t maxLevel).getD ⟨0, 0, 0, 0⟩

/-- The variables of the loop in `GetXreqBlockTime`. -/
structure Search where
  lowerLevel : ℕ
  lowerNextXreqnum : ℕ
  upperLevel : ℕ
  upperNextXreqnum : ℕ
  blocktime : ℕ

def Search.start : Search := ⟨0, 0, int64Max, uint64Max, 0⟩

/-- A turn of the loop, and whether there is another one; none when an assertion fails. -/
def searchTurn (t : NumsTable) (xreqnum : ℕ) (s : Search) : Option (Search × Bool) :=
  let searchLevel := (s.lowerLevel + s.upperLevel) % 2^64 / 2
  if s.lowerLevel ≤ searchLevel ∧ searchLevel < s.upperLevel ∧
      s.lowerNextXreqnum ≤ xreqnum ∧ xreqnum < s.upperNextXreqnum then
    if searchLevel = s.lowerLevel then some (s, false)
    else
      let row := selectedNums t searchLevel
      let s := if row.nextXreqnum ≤ xreqnum then
          { s with lowerLevel := searchLevel, lowerNextXreqnum := row.nextXreqnum }
        else { s with upperLevel := row.level, upperNextXreqnum := row.nextXreqnum, blocktime := row.timestamp }
      some (s, decide (s.lowerLevel < s.upperLevel))
  else none

/-- The loop of `GetXreqBlockTime`: none when the turns do not suffice, `some none` when an assertion fails. -/
def searchLoop (t : NumsTable) (xreqnum : ℕ) : ℕ → Search → Option (Option ℕ)
  | 0, _ => none
  | turns+1, s =>
    match searchTurn t xreqnum s with
    | none => some none
    | some (s, true) => searchLoop t xreqnum turns s
    | some (s, false) => some (if s.blocktime = 0 then none else some s.blocktime)

/-- `GetXreqBlockTime` of a node that is not shut down. -/
def getXreqBlockTime (t : NumsTable) (xreqnum turns : ℕ) : Option (Option ℕ) := searchLoop t xreqnum turns .start

/-- The row of the block with a request: the first one whose next number is above that of the request. -/
structure FirstAbove (t : NumsTable) (xreqnum : ℕ) (r : NumsRow) : Prop where
  mem : r ∈ t
  above : xreqnum < r.nextXreqnum
  first : ∀ r' ∈ t, r'.level < r.level → r'.nextXreqnum ≤ xreqnum

/-- What blocks leave in the table. -/
structure ValidNums (t : NumsTable) : Prop where
  level_pos : ∀ r ∈ t, 0 < r.level
  level_lt : ∀ r ∈ t, r.level < 2^32
  timestamp_pos : ∀ r ∈ t, 0 < r.timestamp
  next_lt : ∀ r ∈ t, r.nextXreqnum < 2^64
  mono : ∀ r ∈ t, ∀ r' ∈ t, r.level ≤ r'.level → r.nextXreqnum ≤ r'.nextXreqnum

section Search
variable {t : NumsTable} {xreqnum maxLevel turns n : ℕ} {r row : NumsRow} {s : Search}

lemma xcxNumsSelect_eq_some (h : xcxNumsSelect t maxLevel = some row) :
    row ∈ t ∧ row.level ≤ maxLevel ∧ ∀ r ∈ t, r.level ≤ maxLevel → r.level ≤ row.level := by
  obtain ⟨hmem, hle⟩ := KeyedTable.mem_of_first h
  refine ⟨hmem, of_decide_eq_true hle, fun r hr hrle => ?_⟩
  have hfirst := KeyedTable.first_le h hr (decide_eq_true hrle)
  exact hfirst

lemma xcxNumsSelect_eq_none : xcxNumsSelect t maxLevel = none ↔ ∀ r ∈ t, maxLevel < r.level := by
  rw [xcxNumsSelect, KeyedTable.first_eq_none]
  simp

/-- When the numbers that are found at a level are not above a request, none is up to this level. -/
lemma ValidNums.le_of_selected (h : ValidNums t) (hsel : (selectedNums t maxLevel).nextXreqnum ≤ xreqnum)
    (hr : r ∈ t) (hle : r.level ≤ maxLevel) : r.nextXreqnum ≤ xreqnum := by
  unfold selectedNums at hsel
  cases hrow : xcxNumsSelect t maxLevel with
  | none => exact absurd hle (not_le.2 (xcxNumsSelect_eq_none.1 hrow r hr))
  | some row =>
    rw [hrow] at hsel
    obtain ⟨hmem, -, hgreatest⟩ := xcxNumsSelect_eq_some hrow
    exact (h.mono r hr row hmem (hgreatest r hr hle)).trans hsel

lemma selected_mem (hsel : xreqnum < (selectedNums t maxLevel).nextXreqnum) :
    selectedNums t maxLevel ∈ t ∧ (selectedNums t maxLevel).level ≤ maxLevel := by
  unfold selectedNums at hsel ⊢
  cases hrow : xcxNumsSelect t maxLevel with
  | none =>
    rw [hrow] at hsel
    exact absurd hsel (Nat.not_lt_zero _)
  | some row => exact ⟨(xcxNumsSelect_eq_some hrow).1, (xcxNumsSelect_eq_some hrow).2.1⟩

/-- The bounds enclose the level of the block with the request. -/
structure SearchInv (t : NumsTable) (xreqnum : ℕ) (s : Search) : Prop where
  level_lt : s.lowerLevel < s.upperLevel
  upper_le : s.upperLevel ≤ int64Max
  lower : s.lowerNextXreqnum ≤ xreqnum
  upper : xreqnum < s.upperNextXreqnum
  below : ∀ r ∈ t, r.level ≤ s.lowerLevel → r.nextXreqnum ≤ xreqnum
  above : s.upperLevel = int64Max ∨
    ∃ r ∈ t, r.level = s.upperLevel ∧ xreqnum < r.nextXreqnum ∧ r.timestamp = s.blocktime

lemma SearchInv.searchLevel_eq (h : SearchInv t xreqnum s) :
    (s.lowerLevel + s.upperLevel) % 2^64 / 2 = (s.lowerLevel + s.upperLevel) / 2 := by
  have hlt := h.level_lt
  have hle := h.upper_le
  unfold int64Max at hle
  omega

/-- What a turn does: it leaves the loop between neighbouring levels, or it halves the distance of the bounds. -/
lemma SearchInv.turn (hvalid : ValidNums t) (h : SearchInv t xreqnum s) :
    searchTurn t xreqnum s = some (s, false) ∧ s.upperLevel = s.lowerLevel + 1 ∨
    s.lowerLevel + 1 < s.upperLevel ∧ ∃ s', searchTurn t xreqnum s = some (s', true) ∧ SearchInv t xreqnum s' ∧
      2 * (s'.upperLevel - s'.lowerLevel) ≤ s.upperLevel - s.lowerLevel + 1 := by
  have hlt := h.level_lt
  unfold searchTurn
  simp only [h.searchLevel_eq]
  generalize hlevel : (s.lowerLevel + s.upperLevel) / 2 = searchLevel
  rw [if_pos ⟨by omega, by omega, h.lower, h.upper⟩]
  by_cases hsame : searchLevel = s.lowerLevel
  · rw [if_pos hsame]
    exact Or.inl ⟨rfl, by omega⟩
  · rw [if_neg hsame]
    refine Or.inr ⟨by omega, ?_⟩
    by_cases hsel : (selectedNums t searchLevel).nextXreqnum ≤ xreqnum
    · simp only [if_pos hsel]
      refine ⟨_, congrArg some (Prod.ext rfl (decide_eq_true ?_)), ⟨?_, h.upper_le, hsel, h.upper, ?_, h.above⟩, ?_⟩
      · omega
      · dsimp only
        omega
      · exact fun r hr hle => hvalid.le_of_selected hsel hr hle
      · dsimp only
        omega
    · simp only [if_neg hsel]
      rw [not_le] at hsel
      obtain ⟨hmem, hle⟩ := selected_mem hsel
      have habove : s.lowerLevel < (selectedNums t searchLevel).level := by
        by_contra hcon
        exact absurd (h.below _ hmem (not_lt.1 hcon)) (not_le.2 hsel)
      have hupper := h.upper_le
      refine ⟨_, congrArg some (Prod.ext rfl (decide_eq_true habove)),
        ⟨habove, ?_, h.lower, hsel, h.below, Or.inr ⟨_, hmem, rfl, hsel, rfl⟩⟩, ?_⟩
      · dsimp only
        omega
      · dsimp only
        omega

/-- Between neighbouring levels the search has found the block with the request. -/
lemma SearchInv.found (hvalid : ValidNums t) (hr : r ∈ t) (hx : xreqnum < r.nextXreqnum) (h : SearchInv t xreqnum s)
    (hnext : s.upperLevel = s.lowerLevel + 1) : ∃ row, FirstAbove t xreqnum row ∧ s.blocktime = row.timestamp := by
  rcases h.above with hmax | ⟨row, hrow, hlevel, hxrow, htime⟩
  · have hlevel := hvalid.level_lt r hr
    have hbelow := h.below r hr (by unfold int64Max at hmax; omega)
    exact absurd hbelow (not_le.2 hx)
  · exact ⟨row, ⟨hrow, hxrow, fun r' hr' hlt => h.below r' hr' (by omega)⟩, htime.symm⟩

/-- The loop ends when it has a turn for each bit of the distance. -/
lemma SearchInv.loop (hvalid : ValidNums t) (hr : r ∈ t) (hx : xreqnum < r.nextXreqnum) (h : SearchInv t xreqnum s)
    (hdist : s.upperLevel - s.lowerLevel ≤ 2^n) (hturns : n < turns) :
    ∃ row, FirstAbove t xreqnum row ∧ searchLoop t xreqnum turns s = some (some row.timestamp) := by
  induction turns generalizing s n with
  | zero => omega
  | succ turns ih =>
    rcases h.turn hvalid with ⟨hturn, hnext⟩ | ⟨hfar, s', hturn, h', hhalf⟩
    · obtain ⟨row, hrow, htime⟩ := h.found hvalid hr hx hnext
      have hpos := hvalid.timestamp_pos row hrow.mem
      refine ⟨row, hrow, ?_⟩
      rw [searchLoop, hturn]
      simp only [htime, if_neg hpos.ne']
    · cases n with
      | zero => omega
      | succ n =>
        obtain ⟨row, hrow, hloop⟩ := @ih n s' h' (by rw [Nat.pow_succ] at hdist; omega) (by omega)
        refine ⟨row, hrow, ?_⟩
        rw [searchLoop, hturn]
        exact hloop

/-- The search finds the block time of every request that is below a number of the table. -/
theorem getXreqBlockTime_eq (hvalid : ValidNums t) (hr : r ∈ t) (hx : xreqnum < r.nextXreqnum) (hturns : 64 ≤ turns) :
    ∃ row, FirstAbove t xreqnum row ∧ getXreqBlockTime t xreqnum turns = some (some row.timestamp) := by
  have hstart : SearchInv t xreqnum .start :=
    { level_lt := by decide
      upper_le := le_rfl
      lower := Nat.zero_le _
      upper := by
        have hlt := hvalid.next_lt r hr
        change xreqnum < 2^64 - 1
        omega
      below := fun r hr hle => absurd hle (not_le.2 (hvalid.level_pos r hr))
      above := Or.inl rfl }
  exact hstart.loop hvalid hr hx (n := 63) (by decide) (by omega)

end Search

/-- What a block that becomes indelible means for the numbers: its level and its timestamp as they are on the wire, for
each of its requests whether it is a mining trade, and how many matches follow. The size of a block is a number of 32
bits, and every transaction takes at least its size and its tag. The genesis block has no room for transactions. -/
structure NumsBlock where
  level : UInt32
  timestamp : UInt32
  xreqs : List Bool
  nmatches : ℕ
  length_lt : xreqs.length < 2^29
  genesis : level = 0 → xreqs = [] ∧ nmatches = 0

/-- `timestamp.GetValue()`. -/
def NumsBlock.blocktime (b : NumsBlock) : ℕ := b.timestamp.toNat + Wire.timeOffset

/-- `Exchange` and its table, the level of the last indelible block, and the number and the block time of every request
that `AddXreq` has added. -/
structure ExchangeNums where
  nextXreqnum : ℕ
  nextXmatchnum : ℕ
  saved : Bool
  nums : NumsTable
  lastLevel : Option ℕ
  added : List (ℕ × ℕ)

namespace ExchangeNums

/-- `Exchange::Init` of a node that starts. -/
def init (s : ExchangeNums) : ExchangeNums :=
  let row := selectedNums s.nums int64Max
  { s with nextXreqnum := if row.nextXreqnum ≠ 0 then row.nextXreqnum else 1
           nextXmatchnum := if row.nextXmatchnum ≠ 0 then row.nextXmatchnum else 1
           saved := true }

/-- `GetNextXreqnum(true)`, and the block time that `AddXreq` gives to the request with this number. -/
def getNextXreqnum (s : ExchangeNums) (blocktime : ℕ) : ExchangeNums :=
  { s with nextXreqnum := (s.nextXreqnum + 1) % 2^64, saved := false, added := s.added ++ [(s.nextXreqnum, blocktime)] }

/-- `GetNextXmatchnum(true)`. -/
def getNextXmatchnum (s : ExchangeNums) : ExchangeNums :=
  { s with nextXmatchnum := (s.nextXmatchnum + 1) % 2^64, saved := false }

/-- `AddXreq`: a mining trade becomes two requests. -/
def addXreq (blocktime : ℕ) (s : ExchangeNums) (miningTrade : Bool) : ExchangeNums :=
  if miningTrade then (s.getNextXreqnum blocktime).getNextXreqnum blocktime else s.getNextXreqnum blocktime

/-- `SaveNextNums`; none when its assertion or the insertion fails. -/
def saveNextNums (s : ExchangeNums) (level timestamp : ℕ) : Option ExchangeNums :=
  if s.saved then some s
  else if s.nextXreqnum = 0 then none
  else (s.nums.insert ⟨level, timestamp, s.nextXreqnum, s.nextXmatchnum⟩).map fun nums =>
    { s with saved := true, nums := nums }

/-- `SetNewlyIndelibleBlock`; none for a block that does not follow the last one. -/
def setNewlyIndelibleBlock (s : ExchangeNums) (b : NumsBlock) : Option ExchangeNums :=
  if b.level.toNat ≠ s.lastLevel.elim 0 (· + 1) then none
  else
    let s := b.xreqs.foldl (addXreq b.blocktime) s
    let s := getNextXmatchnum^[b.nmatches] s
    (s.saveNextNums b.level.toNat b.blocktime).map fun s => { s with lastLevel := some b.level.toNat }

/-- A block becomes indelible, or the node starts again. -/
inductive Event where
  | block (b : NumsBlock)
  | restart

def step (s : ExchangeNums) : Event → Option ExchangeNums
  | .block b => s.setNewlyIndelibleBlock b
  | .restart => some s.init

/-- A node with an empty database. -/
def start : ExchangeNums := init ⟨0, 0, true, .empty, none, []⟩

/-- The table is that of the blocks so far, and the node goes on with the number that it would restore. -/
structure Inv (s : ExchangeNums) : Prop where
  valid : ValidNums s.nums
  saved : s.saved = true
  current : s.nextXreqnum = s.init.nextXreqnum
  level_le : ∀ r ∈ s.nums, r.level < s.lastLevel.elim 0 (· + 1)
  last_lt : ∀ l, s.lastLevel = some l → l < 2^32
  bounded : s.nextXreqnum ≤ 1 + 2^30 * s.lastLevel.elim 0 (· + 1)
  added : ∀ n time, (n, time) ∈ s.added ↔ 1 ≤ n ∧ ∃ r, FirstAbove s.nums n r ∧ r.timestamp = time

section Run
variable {s s' : ExchangeNums} {b : NumsBlock} {n time level timestamp : ℕ} {r : NumsRow}

/-- The numbers that the requests of a block take. -/
def requestCount (xreqs : List Bool) : ℕ := (xreqs.map fun miningTrade => if miningTrade then 2 else 1).sum

lemma requestCount_cons (miningTrade : Bool) (xreqs : List Bool) :
    requestCount (miningTrade :: xreqs) = (if miningTrade then 2 else 1) + requestCount xreqs := List.sum_cons

lemma requestCount_le (xreqs : List Bool) : requestCount xreqs ≤ 2 * xreqs.length := by
  induction xreqs with
  | nil => rfl
  | cons miningTrade xreqs ih =>
    rw [requestCount_cons, List.length_cons]
    split_ifs <;> omega

/-- Some numbers in turn are given to requests of one block. -/
structure Adds (blocktime k : ℕ) (s s' : ExchangeNums) : Prop where
  eq : s' = { s with nextXreqnum := s.nextXreqnum + k, saved := s.saved && decide (k = 0), added := s'.added }
  mem_added : ∀ n time, (n, time) ∈ s'.added ↔
    (n, time) ∈ s.added ∨ s.nextXreqnum ≤ n ∧ n < s.nextXreqnum + k ∧ time = blocktime

lemma Adds.refl (blocktime : ℕ) (s : ExchangeNums) : Adds blocktime 0 s s where
  eq := by simp
  mem_added n time := by
    refine ⟨Or.inl, fun h => h.resolve_right ?_⟩
    omega

lemma Adds.trans {blocktime k l : ℕ} {s'' : ExchangeNums} (h : Adds blocktime k s s') (h' : Adds blocktime l s' s'') :
    Adds blocktime (k + l) s s'' := by
  have heq := h.eq
  refine ⟨?_, fun n time => ?_⟩
  · rw [h'.eq, heq]
    simp only [Nat.add_assoc, mk.injEq, true_and, and_true]
    cases s.saved <;> simp
  · rw [h'.mem_added, h.mem_added, heq, or_assoc]
    apply or_congr_right
    dsimp only
    omega

lemma adds_getNextXreqnum (blocktime : ℕ) (h : s.nextXreqnum + 1 < 2^64) :
    Adds blocktime 1 s (s.getNextXreqnum blocktime) where
  eq := by simpa [getNextXreqnum] using h
  mem_added n time := by
    simp only [getNextXreqnum, List.mem_append, List.mem_singleton, Prod.mk.injEq]
    apply or_congr_right
    omega

lemma adds_addXreq (blocktime : ℕ) (miningTrade : Bool) (h : s.nextXreqnum + (if miningTrade then 2 else 1) < 2^64) :
    Adds blocktime (if miningTrade then 2 else 1) s (s.addXreq blocktime miningTrade) := by
  unfold addXreq
  split_ifs at h ⊢
  · have hfirst := adds_getNextXreqnum blocktime (s := s) (by omega)
    refine hfirst.trans (adds_getNextXreqnum blocktime ?_)
    rw [hfirst.eq]
    exact h
  · exact adds_getNextXreqnum blocktime h

/-- What the requests of a block do. -/
lemma adds_foldl (blocktime : ℕ) (xreqs : List Bool) (h : s.nextXreqnum + requestCount xreqs < 2^64) :
    Adds blocktime (requestCount xreqs) s (xreqs.foldl (addXreq blocktime) s) := by
  induction xreqs generalizing s with
  | nil => exact .refl blocktime s
  | cons miningTrade xreqs ih =>
    rw [requestCount_cons] at h ⊢
    have hfirst := adds_addXreq blocktime miningTrade (s := s) (by omega)
    refine hfirst.trans (ih ?_)
    rw [hfirst.eq]
    dsimp only
    omega

lemma iterate_getNextXmatchnum (k : ℕ) : ∃ nextXmatchnum, getNextXmatchnum^[k] s =
    { s with nextXmatchnum := nextXmatchnum, saved := s.saved && decide (k = 0) } := by
  induction k generalizing s with
  | zero => exact ⟨s.nextXmatchnum, by simp⟩
  | succ k ih =>
    obtain ⟨nextXmatchnum, h⟩ := @ih s.getNextXmatchnum
    refine ⟨nextXmatchnum, ?_⟩
    rw [Function.iterate_succ_apply, h]
    simp [getNextXmatchnum]

/-- The last row is the one that a restart reads. -/
lemma nextXreqnum_init {t : NumsTable} (hs : s.nums = t) (h : ValidNums t) (hr : r ∈ t)
    (hlast : ∀ r' ∈ t, r'.level ≤ r.level) (hpos : r.nextXreqnum ≠ 0) : s.init.nextXreqnum = r.nextXreqnum := by
  subst hs
  have hlt := h.level_lt r hr
  have hmax : r.level ≤ int64Max := by
    unfold int64Max
    omega
  have hrow : xcxNumsSelect s.nums int64Max = some r := by
    cases hsel : xcxNumsSelect s.nums int64Max with
    | none => exact absurd (xcxNumsSelect_eq_none.1 hsel r hr) (not_lt.2 hmax)
    | some row =>
      obtain ⟨hmem, -, hgreatest⟩ := xcxNumsSelect_eq_some hsel
      rw [KeyedTable.eq_of_key hmem hr (le_antisymm (hlast row hmem) (hgreatest r hr hmax))]
  simp only [init, selectedNums, hrow, Option.getD_some, if_pos hpos]

/-- Below the number that a node goes on with, every request is in a block of the table. -/
lemma Inv.le_nextXreqnum (h : Inv s) (hr : r ∈ s.nums) : r.nextXreqnum ≤ s.nextXreqnum := by
  rw [h.current]
  have hlt := h.valid.level_lt r hr
  have hle : (selectedNums s.nums int64Max).nextXreqnum ≤ s.init.nextXreqnum := by
    simp only [init]
    split_ifs with hne <;> omega
  exact (h.valid.le_of_selected le_rfl hr (by unfold int64Max; omega)).trans hle

lemma Inv.one_le (h : Inv s) : 1 ≤ s.nextXreqnum := by
  rw [h.current]
  simp only [init]
  split_ifs <;> omega

/-- A number between the last row and the number that a node goes on with is the first one. -/
lemma Inv.eq_one (h : Inv s) (hn : ∀ r ∈ s.nums, r.nextXreqnum ≤ n) : s.nextXreqnum ≤ max n 1 := by
  rw [h.current]
  simp only [init]
  split_ifs with hne
  · have hmem := (selected_mem (t := s.nums) (Nat.pos_of_ne_zero hne)).1
    exact (hn _ hmem).trans (le_max_left _ _)
  · exact le_max_right _ _

lemma insert_rows {t t' : NumsTable} (h : t.insert r = some t') (r' : NumsRow) : r' ∈ t' ↔ r' = r ∨ r' ∈ t := by
  unfold KeyedTable.insert at h
  split_ifs at h
  rw [← Option.some.inj h]
  exact List.mem_cons

/-- A row for a new block, and what it means for the rows that requests are found at. -/
lemma Inv.insert_row (h : Inv s) {t : NumsTable} (hins : s.nums.insert r = some t)
    (hlevel : r.level = s.lastLevel.elim 0 (· + 1)) (hpos : 0 < r.level) (hlt : r.level < 2^32) (htime : 0 < r.timestamp)
    (hnext : s.nextXreqnum ≤ r.nextXreqnum) (hmax : r.nextXreqnum < 2^64) :
    ValidNums t ∧ ∀ n time, (1 ≤ n ∧ ∃ row, FirstAbove t n row ∧ row.timestamp = time) ↔
      (1 ≤ n ∧ ∃ row, FirstAbove s.nums n row ∧ row.timestamp = time) ∨
        s.nextXreqnum ≤ n ∧ n < r.nextXreqnum ∧ time = r.timestamp := by
  have hmem := insert_rows hins
  have hbefore (r' : NumsRow) (hr' : r' ∈ s.nums) : r'.level < r.level := hlevel ▸ h.level_le r' hr'
  refine ⟨⟨?_, ?_, ?_, ?_, ?_⟩, fun n time => ⟨?_, ?_⟩⟩
  · intro r' hr'
    rcases (hmem r').1 hr' with rfl | hr'
    · exact hpos
    · exact h.valid.level_pos r' hr'
  · intro r' hr'
    rcases (hmem r').1 hr' with rfl | hr'
    · exact hlt
    · exact h.valid.level_lt r' hr'
  · intro r' hr'
    rcases (hmem r').1 hr' with rfl | hr'
    · exact htime
    · exact h.valid.timestamp_pos r' hr'
  · intro r' hr'
    rcases (hmem r').1 hr' with rfl | hr'
    · exact hmax
    · exact h.valid.next_lt r' hr'
  · intro a ha b hb hab
    rcases (hmem a).1 ha with rfl | ha
    · rcases (hmem b).1 hb with rfl | hb
      · exact le_rfl
      · exact absurd hab (not_le.2 (hbefore b hb))
    · rcases (hmem b).1 hb with rfl | hb
      · exact (h.le_nextXreqnum ha).trans hnext
      · exact h.valid.mono a ha b hb hab
  · rintro ⟨hn, row, hrow, rfl⟩
    rcases (hmem row).1 hrow.mem with rfl | hold
    · refine Or.inr ⟨?_, hrow.above, rfl⟩
      have hle := h.eq_one fun r' hr' => hrow.first r' ((hmem r').2 (Or.inr hr')) (hbefore r' hr')
      omega
    · exact Or.inl ⟨hn, row, ⟨hold, hrow.above, fun r' hr' => hrow.first r' ((hmem r').2 (Or.inr hr'))⟩, rfl⟩
  · rintro (⟨hn, row, hrow, rfl⟩ | ⟨hn, hn', rfl⟩)
    · refine ⟨hn, row, ⟨(hmem row).2 (Or.inr hrow.mem), hrow.above, fun r' hr' hlt' => ?_⟩, rfl⟩
      rcases (hmem r').1 hr' with rfl | hr'
      · exact absurd (hbefore row hrow.mem) hlt'.not_gt
      · exact hrow.first r' hr' hlt'
    · refine ⟨h.one_le.trans hn, r, ⟨(hmem r).2 (Or.inl rfl), hn', fun r' hr' hlt' => ?_⟩, rfl⟩
      rcases (hmem r').1 hr' with rfl | hr'
      · exact absurd hlt' (lt_irrefl _)
      · exact (h.le_nextXreqnum hr').trans hn

/-- What an indelible block leaves. -/
lemma Inv.setNewlyIndelibleBlock (h : Inv s) (hstep : s.setNewlyIndelibleBlock b = some s') : Inv s' := by
  unfold ExchangeNums.setNewlyIndelibleBlock at hstep
  split_ifs at hstep with hlevel
  rw [ne_eq, not_not] at hlevel
  obtain ⟨s₁, hsave, rfl⟩ := Option.map_eq_some_iff.1 hstep
  have hlt : b.level.toNat < 2^32 := b.level.toNat_lt
  have hbounded := h.bounded
  rw [← hlevel] at hbounded
  have hlength := b.length_lt
  have hcount := requestCount_le b.xreqs
  have hadds := adds_foldl b.blocktime b.xreqs (s := s) (by omega)
  obtain ⟨nextXmatchnum, hiter⟩ := iterate_getNextXmatchnum b.nmatches (s := b.xreqs.foldl (addXreq b.blocktime) s)
  generalize b.xreqs.foldl (addXreq b.blocktime) s = s₂ at *
  have hadded := hadds.mem_added
  rw [hiter, hadds.eq] at hsave
  simp only [saveNextNums, h.saved, Bool.true_and] at hsave
  have hone := h.one_le
  split_ifs at hsave with hsaved hzero
  · -- no number was taken, and no row is written
    obtain rfl := Option.some.inj hsave
    have hcount0 : requestCount b.xreqs = 0 := by simp at hsaved; exact hsaved.1
    rw [hcount0] at hadded hsaved ⊢
    refine ⟨h.valid, hsaved, h.current, fun r hr => ?_, fun l hl => ?_, ?_, fun n time => ?_⟩
    · exact (h.level_le r hr).trans (hlevel ▸ Nat.lt_succ_self _)
    · obtain rfl := Option.some.inj hl
      exact hlt
    · change s.nextXreqnum ≤ 1 + 2^30 * (b.level.toNat + 1)
      omega
    · change (n, time) ∈ s₂.added ↔ _
      rw [hadded, h.added]
      exact or_iff_left (by omega)
  · -- the row of the block
    obtain ⟨t, hins, rfl⟩ := Option.map_eq_some_iff.1 hsave
    have hpos : 0 < b.level.toNat := by
      by_contra hcon
      obtain ⟨hxreqs, hmatches⟩ := b.genesis (UInt32.toNat_inj.1 (Nat.eq_zero_of_not_pos hcon))
      simp [hxreqs, hmatches, requestCount] at hsaved
    have htime : 0 < b.blocktime := Nat.add_pos_right _ (by decide)
    obtain ⟨hvalid, hfound⟩ := h.insert_row hins hlevel hpos hlt htime (Nat.le_add_right _ _) (by dsimp only; omega)
    have hmem := insert_rows hins
    refine ⟨hvalid, rfl, ?_, fun r hr => ?_, fun l hl => ?_, ?_, fun n time => ?_⟩
    · have hlast (r' : NumsRow) (hr' : r' ∈ t) : r'.level ≤ b.level.toNat := by
        rcases (hmem r').1 hr' with rfl | hr'
        · exact le_rfl
        · exact (hlevel ▸ h.level_le r' hr').le
      have hread := nextXreqnum_init (s := { s with nums := t }) rfl hvalid ((hmem _).2 (Or.inl rfl)) hlast hzero
      exact hread.symm
    · rcases (hmem r).1 hr with rfl | hr
      · exact Nat.lt_succ_self _
      · exact (h.level_le r hr).trans (hlevel ▸ Nat.lt_succ_self _)
    · obtain rfl := Option.some.inj hl
      exact hlt
    · change s.nextXreqnum + requestCount b.xreqs ≤ 1 + 2^30 * (b.level.toNat + 1)
      omega
    · change (n, time) ∈ s₂.added ↔ _
      rw [hadded, h.added]
      exact (hfound n time).symm

/-- What a restart leaves. -/
lemma Inv.init (h : Inv s) : Inv s.init where
  valid := h.valid
  saved := rfl
  current := rfl
  level_le := h.level_le
  last_lt := h.last_lt
  bounded := h.current ▸ h.bounded
  added := h.added

lemma Inv.start : Inv start where
  valid := ⟨by simp [ExchangeNums.start, ExchangeNums.init], by simp [ExchangeNums.start, ExchangeNums.init],
    by simp [ExchangeNums.start, ExchangeNums.init], by simp [ExchangeNums.start, ExchangeNums.init],
    by simp [ExchangeNums.start, ExchangeNums.init]⟩
  saved := rfl
  current := rfl
  level_le := by simp [ExchangeNums.start, ExchangeNums.init]
  last_lt := by simp [ExchangeNums.start, ExchangeNums.init]
  bounded := by decide
  added := fun n time => by
    refine iff_of_false (by simp [ExchangeNums.start, ExchangeNums.init]) ?_
    rintro ⟨-, r, hr, -⟩
    exact KeyedTable.not_mem_empty r hr.mem

/-- In every run, the search after a restart ends within 64 turns without a failed assertion and finds, for every number
below the one that is stored, the time of the first block whose next number is above it, which is the block time that the
request got when it was added. -/
theorem restored_blocktime {evs : List Event} {xreqnum : ℕ} {row : NumsRow} (hrun : Machine.run step start evs = some s)
    (hone : 1 ≤ xreqnum) (hrow : xcxNumsSelect s.nums int64Max = some row) (hlt : xreqnum < row.nextXreqnum) :
    ∃ r, FirstAbove s.nums xreqnum r ∧
      (∀ turns, 64 ≤ turns → getXreqBlockTime s.nums xreqnum turns = some (some r.timestamp)) ∧
      ∀ time, (xreqnum, time) ∈ s.added ↔ time = r.timestamp := by
  have h : Inv s := by
    refine Machine.run_invariant (fun s e s' hs hstep => ?_) Inv.start hrun
    cases e with
    | block b => exact hs.setNewlyIndelibleBlock hstep
    | restart =>
      obtain rfl := Option.some.inj hstep
      exact hs.init
  obtain ⟨hmem, -, -⟩ := xcxNumsSelect_eq_some hrow
  obtain ⟨r, hr, -⟩ := getXreqBlockTime_eq h.valid hmem hlt le_rfl
  have hunique (r' : NumsRow) (hr' : FirstAbove s.nums xreqnum r') : r' = r := by
    refine KeyedTable.eq_of_key hr'.mem hr.mem (le_antisymm ?_ ?_)
    · exact not_lt.1 fun hlt => absurd (hr'.first r hr.mem hlt) (not_le.2 hr.above)
    · exact not_lt.1 fun hlt => absurd (hr.first r' hr'.mem hlt) (not_le.2 hr'.above)
  refine ⟨r, hr, fun turns hturns => ?_, fun time => ?_⟩
  · obtain ⟨r', hr', heq⟩ := getXreqBlockTime_eq h.valid hmem hlt hturns
    rw [heq, hunique r' hr']
  · rw [h.added]
    constructor
    · rintro ⟨-, r', hr', rfl⟩
      rw [hunique r' hr']
    · rintro rfl
      exact ⟨hone, r, hr, rfl⟩

/-- A trade of the block at level 3, after a restart: its first request is the second one of the chain. -/
theorem restored_blocktime_trade : ∃ r, FirstAbove ⟨[⟨3, 30 + Wire.timeOffset, 4, 2⟩, ⟨1, 10 + Wire.timeOffset, 2, 1⟩],
      by decide⟩ 2 r ∧
    getXreqBlockTime ⟨[⟨3, 30 + Wire.timeOffset, 4, 2⟩, ⟨1, 10 + Wire.timeOffset, 2, 1⟩], by decide⟩ 2 64 =
      some (some r.timestamp) := by
  obtain ⟨r, hr, hsearch, -⟩ := restored_blocktime (s := ⟨4, 2, true,
    ⟨[⟨3, 30 + Wire.timeOffset, 4, 2⟩, ⟨1, 10 + Wire.timeOffset, 2, 1⟩], by decide⟩, some 3,
    [(1, 10 + Wire.timeOffset), (2, 30 + Wire.timeOffset), (3, 30 + Wire.timeOffset)]⟩)
    (show Machine.run step start [.block ⟨0, 0, [], 0, by decide, by decide⟩,
      .block ⟨1, 10, [false], 0, by decide, by decide⟩, .block ⟨2, 20, [], 0, by decide, by decide⟩,
      .block ⟨3, 30, [true], 1, by decide, by decide⟩, .restart] = _ from rfl)
    (show 1 ≤ 2 by decide) (show _ = some ⟨3, 30 + Wire.timeOffset, 4, 2⟩ by decide +kernel) (by decide)
  exact ⟨r, hr, hsearch 64 le_rfl⟩

end Run
end ExchangeNums

end CredaCash.Exchange
