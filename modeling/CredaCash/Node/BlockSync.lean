import CredaCash.Machine
import Mathlib.Data.List.Basic

/-! The levels that a node asks for while it syncs: handed out to connections in pieces, which come back when a
connection ends before it has received them. -/

namespace CredaCash.Node

def blocksyncNlevelsPerReq : ℕ := 100

/-- The `nlevels` levels from `level` on. -/
structure BlockSyncEntry where
  level : ℕ
  nlevels : ℕ
deriving DecidableEq

instance : Membership ℕ BlockSyncEntry := ⟨fun e l => e.level ≤ l ∧ l < e.level + e.nlevels⟩

lemma BlockSyncEntry.mem_def {e : BlockSyncEntry} {l : ℕ} : l ∈ e ↔ e.level ≤ l ∧ l < e.level + e.nlevels := Iff.rfl

structure BlockSyncList where
  list : List BlockSyncEntry
  nextLevel : ℕ

namespace BlockSyncList

def init (level : ℕ) : BlockSyncList := ⟨[], level⟩

/-- An entry without the levels up to the last indelible one. -/
def trim (lastIndelibleLevel : ℕ) (level : ℕ) : ℕ → BlockSyncEntry
  | 0 => ⟨level, 0⟩
  | n+1 => if level ≤ lastIndelibleLevel then trim lastIndelibleLevel (level + 1) n else ⟨level, n + 1⟩

/-- The span of the levels that may be asked for. -/
def maxSpan (maxOutconns : ℕ) : ℕ := 2 * blocksyncNlevelsPerReq * min (max 4 (maxOutconns + 1)) 10

/-- The first level to ask for anew. -/
def startLevel (lastIndelibleLevel nextLevel : ℕ) : ℕ :=
  if nextLevel ≤ lastIndelibleLevel then lastIndelibleLevel + 1 else nextLevel

/-- The loop of `GetNextEntry`; none when the fuel does not last. -/
def getNextLoop (lastIndelibleLevel maxOutconns : ℕ) :
    ℕ → BlockSyncEntry → BlockSyncList → Option (BlockSyncEntry × BlockSyncList)
  | 0, _, _ => none
  | fuel+1, entry, s =>
    if entry.nlevels ≠ 0 then some (entry, s)
    else
      match s.list with
      | front :: rest =>
        getNextLoop lastIndelibleLevel maxOutconns fuel (trim lastIndelibleLevel front.level front.nlevels)
          { s with list := rest }
      | [] =>
        let nextLevel := startLevel lastIndelibleLevel s.nextLevel
        if nextLevel > lastIndelibleLevel + maxSpan maxOutconns then some (entry, { s with nextLevel })
        else
          let nlevels := blocksyncNlevelsPerReq - (nextLevel + blocksyncNlevelsPerReq - 1) % blocksyncNlevelsPerReq
          getNextLoop lastIndelibleLevel maxOutconns fuel ⟨nextLevel, nlevels⟩
            { s with nextLevel := nextLevel + nlevels }

/-- `GetNextEntry`, which takes an entry from the list in each turn but the last two. -/
def getNextEntry (s : BlockSyncList) (lastIndelibleLevel maxOutconns : ℕ) : Option (BlockSyncEntry × BlockSyncList) :=
  getNextLoop lastIndelibleLevel maxOutconns (s.list.length + 2) ⟨0, 0⟩ s

def requeueEntry (s : BlockSyncList) (entry : BlockSyncEntry) : BlockSyncList :=
  if entry.nlevels = 0 then s
  else if entry.level ≥ s.nextLevel then s
  else
    { list := s.list ++ [entry]
      nextLevel := if s.nextLevel < entry.level + entry.nlevels then entry.level + entry.nlevels else s.nextLevel }

end BlockSyncList

/-- The list with what surrounds it: the last indelible level, the entries that connections hold, and the levels that
they have received. -/
structure BlockSync where
  syncList : BlockSyncList
  lastIndelibleLevel : ℕ
  held : List BlockSyncEntry
  received : List ℕ

/-- A call of the list, or what happens around it. Left out is the entry that `DoSync` itself requeues when the last
indelible level has not moved for `BLOCKSYNC_LOST_SECS`: it has a hundred levels from any place on, so that what is handed
out afterwards may cross from one request to the next. -/
inductive BlockSyncEvent
  /-- Some block has become indelible. -/
  | indelible (level : ℕ)
  /-- A sync starts, with the level after one that was the last indelible one when it was read. -/
  | init (lastIndelibleLevel : ℕ)
  /-- A connection asks for an entry. -/
  | getNextEntry (maxOutconns : ℕ)
  /-- A connection receives the first level of an entry that it holds. -/
  | receive (entry : BlockSyncEntry)
  /-- A connection ends, and an entry that it holds goes back. -/
  | requeueEntry (entry : BlockSyncEntry)
  /-- A level that was received turns out to be invalid, and goes back by itself. -/
  | requeueLevel (level : ℕ)

namespace BlockSync
open BlockSyncList

/-- Before the first sync. -/
def start (lastIndelibleLevel : ℕ) : BlockSync := ⟨⟨[], 0⟩, lastIndelibleLevel, [], []⟩

/-- One event, none when it cannot happen. -/
def step (s : BlockSync) : BlockSyncEvent → Option BlockSync
  | .indelible level => if s.lastIndelibleLevel ≤ level then some { s with lastIndelibleLevel := level } else none
  | .init read => if read ≤ s.lastIndelibleLevel then some { s with syncList := BlockSyncList.init (read + 1) } else none
  | .getNextEntry maxOutconns =>
    (getNextEntry s.syncList s.lastIndelibleLevel maxOutconns).map fun r =>
      { s with syncList := r.2, held := if r.1.nlevels = 0 then s.held else r.1 :: s.held }
  | .receive entry =>
    if entry ∈ s.held ∧ entry.nlevels ≠ 0 then
      some { s with
        held := ⟨entry.level + 1, entry.nlevels - 1⟩ :: s.held.erase entry
        received := entry.level :: s.received }
    else none
  | .requeueEntry entry =>
    if entry ∈ s.held then
      some { s with syncList := s.syncList.requeueEntry entry, held := s.held.erase entry }
    else none
  | .requeueLevel level =>
    if level ∈ s.received then some { s with syncList := s.syncList.requeueEntry ⟨level, 1⟩ } else none

end BlockSync

variable {s s' : BlockSync} {l : BlockSyncList} {e : BlockSyncEntry} {last level n maxOutconns fuel : ℕ}

/-- The levels of an entry are all of one request. -/
def BlockSyncEntry.WithinReq (e : BlockSyncEntry) : Prop :=
  ∀ level ∈ e, ∀ level' ∈ e, (level + 99) / blocksyncNlevelsPerReq = (level' + 99) / blocksyncNlevelsPerReq

section Entries

lemma BlockSyncEntry.WithinReq.mono {e' : BlockSyncEntry} (h : e.WithinReq) (hsub : ∀ level ∈ e', level ∈ e) :
    e'.WithinReq := fun level hl level' hl' => h level (hsub level hl) level' (hsub level' hl')

lemma BlockSyncEntry.WithinReq.nlevels_le (h : e.WithinReq) : e.nlevels ≤ blocksyncNlevelsPerReq := by
  by_contra hlt
  have hends := h e.level ⟨Nat.le_refl _, by omega⟩ (e.level + 100)
      ⟨by omega, by unfold blocksyncNlevelsPerReq at hlt; omega⟩
  unfold blocksyncNlevelsPerReq at hends
  omega

lemma BlockSyncEntry.withinReq_one (level : ℕ) : BlockSyncEntry.WithinReq ⟨level, 1⟩ := by
  rintro a ⟨ha, ha'⟩ b ⟨hb, hb'⟩
  have heq : a = b := by
    dsimp only at ha ha' hb hb'
    omega
  rw [heq]

/-- The levels that are asked for anew reach to the end of a request. -/
lemma withinReq_new (hpos : 0 < level) : BlockSyncEntry.WithinReq
    ⟨level, blocksyncNlevelsPerReq - (level + blocksyncNlevelsPerReq - 1) % blocksyncNlevelsPerReq⟩ := by
  rintro a ⟨ha, ha'⟩ b ⟨hb, hb'⟩
  unfold blocksyncNlevelsPerReq at *
  dsimp only at ha ha' hb hb'
  omega

lemma nlevels_new_pos : 0 < blocksyncNlevelsPerReq - (level + blocksyncNlevelsPerReq - 1) % blocksyncNlevelsPerReq := by
  unfold blocksyncNlevelsPerReq
  omega

/-- Trimming leaves the levels above the last indelible one. -/
lemma mem_trim {a : ℕ} :
    a ∈ BlockSyncList.trim last level n ↔ a ∈ (⟨level, n⟩ : BlockSyncEntry) ∧ last < a := by
  induction n generalizing level with
  | zero =>
    rw [BlockSyncList.trim, BlockSyncEntry.mem_def]
    dsimp only
    omega
  | succ n ih =>
    rw [BlockSyncList.trim]
    split
    · rw [ih, BlockSyncEntry.mem_def, BlockSyncEntry.mem_def]
      dsimp only
      omega
    · rw [BlockSyncEntry.mem_def]
      dsimp only
      omega

lemma lt_startLevel : last < BlockSyncList.startLevel last level := by
  unfold BlockSyncList.startLevel
  split <;> omega

lemma startLevel_le {a : ℕ} (ha : last < a) (hle : level ≤ a) : BlockSyncList.startLevel last level ≤ a := by
  unfold BlockSyncList.startLevel
  split <;> omega

end Entries

section List
open BlockSyncList

/-- A level is in an entry or in the list. -/
def Has (e : BlockSyncEntry) (l : BlockSyncList) (a : ℕ) : Prop := a ∈ e ∨ ∃ e' ∈ l.list, a ∈ e'

/-- What getting the next entry may do: no level above the last indelible one is lost, and the levels that are new are
all in the entry or the list. -/
structure Gets (last : ℕ) (e : BlockSyncEntry) (l : BlockSyncList) (e' : BlockSyncEntry) (l' : BlockSyncList) : Prop where
  keeps : ∀ a, last < a → Has e l a → Has e' l' a
  covers : ∀ a, last < a → l.nextLevel ≤ a → a < l'.nextLevel → Has e' l' a
  list : ∀ e'' ∈ l'.list, e'' ∈ l.list

lemma getNextLoop_gets {e' : BlockSyncEntry} {l' : BlockSyncList}
    (h : getNextLoop last maxOutconns fuel e l = some (e', l')) : Gets last e l e' l' := by
  induction fuel generalizing e l with
  | zero => cases h
  | succ fuel ih =>
    rw [getNextLoop] at h
    split at h
    · cases h
      exact ⟨fun _ _ h => h, fun a _ hge hlt => by omega, fun _ h => h⟩
    · rename_i hzero
      have hnone : ∀ a, a ∉ e := fun a ha => by
        obtain ⟨hge, hlt⟩ := BlockSyncEntry.mem_def.1 ha
        omega
      split at h
      · rename_i front rest hlist
        have hrest := ih h
        refine ⟨fun a ha hhas => hrest.keeps a ha ?_, hrest.covers, fun e'' he'' => ?_⟩
        · rcases hhas with hmem | ⟨e'', he'', hmem⟩
          · exact absurd hmem (hnone a)
          · rw [hlist] at he''
            rcases List.mem_cons.1 he'' with rfl | he''
            · exact .inl (mem_trim.2 ⟨hmem, ha⟩)
            · exact .inr ⟨e'', he'', hmem⟩
        · rw [hlist]
          exact List.mem_cons_of_mem _ (hrest.list e'' he'')
      · rename_i hlist
        dsimp only at h
        split at h
        · cases h
          refine ⟨fun _ _ h => h, fun a ha hge hlt => ?_, fun _ h => h⟩
          exact absurd hlt (Nat.not_lt.2 (startLevel_le ha hge))
        · have hrest := ih h
          refine ⟨fun a _ hhas => ?_, fun a ha hge hlt => ?_, hrest.list⟩
          · rcases hhas with hmem | ⟨e'', he'', -⟩
            · exact absurd hmem (hnone a)
            · rw [hlist] at he''
              cases he''
          · have hfrom := startLevel_le ha hge
            generalize startLevel last l.nextLevel = nextLevel at hfrom hrest
            by_cases hnew : a < nextLevel + (blocksyncNlevelsPerReq -
                (nextLevel + blocksyncNlevelsPerReq - 1) % blocksyncNlevelsPerReq)
            · exact hrest.keeps a ha (.inl ⟨hfrom, hnew⟩)
            · exact hrest.covers a ha (by dsimp only; omega) hlt

/-- An entry that is handed out is of one request and above the last indelible level. -/
lemma getNextLoop_entry {e' : BlockSyncEntry} {l' : BlockSyncList} (hl : ∀ e ∈ l.list, e.WithinReq)
    (he : e.WithinReq ∧ ∀ a ∈ e, last < a) (h : getNextLoop last maxOutconns fuel e l = some (e', l')) :
    e'.WithinReq ∧ ∀ a ∈ e', last < a := by
  induction fuel generalizing e l with
  | zero => cases h
  | succ fuel ih =>
    rw [getNextLoop] at h
    split at h
    · cases h
      exact he
    · split at h
      · rename_i front rest hlist
        refine ih (fun e'' he'' => hl e'' (by rw [hlist]; exact List.mem_cons_of_mem _ he'')) ⟨?_, ?_⟩ h
        · exact (hl front (by rw [hlist]; exact List.mem_cons_self)).mono fun a ha => (mem_trim.1 ha).1
        · exact fun a ha => (mem_trim.1 ha).2
      · dsimp only at h
        split at h
        · cases h
          exact he
        · have hlast : last < startLevel last l.nextLevel := lt_startLevel
          refine ih ?_ ⟨withinReq_new (Nat.zero_lt_of_lt hlast), fun a ha => ?_⟩ h
          · exact hl
          · have hge := (BlockSyncEntry.mem_def.1 ha).1
            dsimp only at hge
            omega

/-- The loop ends: the list gets shorter, and an entry that is new has levels. -/
lemma getNextLoop_isSome (hfuel : l.list.length + 2 ≤ fuel) (e : BlockSyncEntry) :
    (getNextLoop last maxOutconns fuel e l).isSome := by
  induction fuel generalizing e l with
  | zero => omega
  | succ fuel ih =>
    rw [getNextLoop]
    split
    · rfl
    · split
      · rename_i front rest hlist
        rw [hlist, List.length_cons] at hfuel
        exact ih (by dsimp only; omega) _
      · dsimp only
        split
        · rfl
        · obtain ⟨fuel, rfl⟩ := Nat.exists_eq_succ_of_ne_zero (show fuel ≠ 0 by omega)
          rw [getNextLoop, if_pos (Nat.ne_of_gt nlevels_new_pos)]
          rfl

theorem getNextEntry_isSome (l : BlockSyncList) (last maxOutconns : ℕ) : (getNextEntry l last maxOutconns).isSome :=
  getNextLoop_isSome (Nat.le_refl _) _

/-- Going back, an entry keeps the levels below the next one covered. -/
lemma requeueEntry_spec (l : BlockSyncList) (e : BlockSyncEntry) : (∀ e' ∈ l.list, e' ∈ (l.requeueEntry e).list) ∧
    (∀ e' ∈ (l.requeueEntry e).list, e' ∈ l.list ∨ e' = e) ∧
    ∀ a, a < (l.requeueEntry e).nextLevel → a ∈ e ∨ l.nextLevel ≤ a → ∃ e' ∈ (l.requeueEntry e).list, a ∈ e' := by
  unfold requeueEntry
  split
  · rename_i hzero
    refine ⟨fun _ h => h, fun _ h => .inl h, fun a hlt ha => ?_⟩
    rcases ha with ha | ha
    · obtain ⟨hge, hlt'⟩ := BlockSyncEntry.mem_def.1 ha
      omega
    · omega
  · split
    · refine ⟨fun _ h => h, fun _ h => .inl h, fun a hlt ha => ?_⟩
      rcases ha with ha | ha
      · obtain ⟨hge, hlt'⟩ := BlockSyncEntry.mem_def.1 ha
        omega
      · omega
    · dsimp only
      refine ⟨fun e' h => List.mem_append_left _ h, fun e' h => ?_, fun a hlt ha =>
        ⟨e, List.mem_append_right _ (List.mem_singleton_self e), ?_⟩⟩
      · exact (List.mem_append.1 h).imp_right List.mem_singleton.1
      · rcases ha with ha | ha
        · exact ha
        · refine ⟨by omega, ?_⟩
          split at hlt <;> omega

end List

namespace BlockSync

/-- Every level that will not be asked for again is in the list, held or received, and all entries are of one request. -/
structure Inv (s : BlockSync) : Prop where
  covered : ∀ a, s.lastIndelibleLevel < a → a < s.syncList.nextLevel →
    (∃ e ∈ s.syncList.list, a ∈ e) ∨ (∃ e ∈ s.held, a ∈ e) ∨ a ∈ s.received
  list : ∀ e ∈ s.syncList.list, e.WithinReq
  held : ∀ e ∈ s.held, e.WithinReq

theorem Inv.start (last : ℕ) : Inv (start last) :=
  ⟨fun a _ h => absurd h (Nat.not_lt_zero a), fun _ h => absurd h List.not_mem_nil, fun _ h => absurd h List.not_mem_nil⟩

lemma Inv.getNextEntry {r : BlockSyncEntry × BlockSyncList} (h : Inv s)
    (hget : BlockSyncList.getNextEntry s.syncList s.lastIndelibleLevel maxOutconns = some r) :
    Inv { s with syncList := r.2, held := if r.1.nlevels = 0 then s.held else r.1 :: s.held } := by
  obtain ⟨e, l⟩ := r
  have hgets := getNextLoop_gets hget
  obtain ⟨hwithin, -⟩ := getNextLoop_entry h.list ⟨fun a ha => absurd (BlockSyncEntry.mem_def.1 ha).2 (by simp),
    fun a ha => absurd (BlockSyncEntry.mem_def.1 ha).2 (by simp)⟩ hget
  have hheld : ∀ e', e' ∈ s.held → e' ∈ if e.nlevels = 0 then s.held else e :: s.held := fun e' he' => by
    split
    · exact he'
    · exact List.mem_cons_of_mem _ he'
  have hhas : ∀ a, Has e l a → (∃ e' ∈ l.list, a ∈ e') ∨
      ∃ e' ∈ if e.nlevels = 0 then s.held else e :: s.held, a ∈ e' := by
    rintro a (ha | ha)
    · refine .inr ⟨e, ?_, ha⟩
      obtain ⟨hge, hlt⟩ := BlockSyncEntry.mem_def.1 ha
      rw [if_neg (by omega)]
      exact List.mem_cons_self
    · exact .inl ha
  refine ⟨fun a ha hlt => ?_, fun e' he' => h.list e' (hgets.list e' he'), fun e' he' => ?_⟩
  · by_cases hnew : s.syncList.nextLevel ≤ a
    · rcases hhas a (hgets.covers a ha hnew hlt) with hmem | hmem
      · exact .inl hmem
      · exact .inr (.inl hmem)
    · rcases h.covered a ha (by omega) with hmem | ⟨e', he', hmem⟩ | hmem
      · rcases hhas a (hgets.keeps a ha (.inr hmem)) with hmem | hmem
        · exact .inl hmem
        · exact .inr (.inl hmem)
      · exact .inr (.inl ⟨e', hheld e' he', hmem⟩)
      · exact .inr (.inr hmem)
  · dsimp only at he'
    split at he'
    · exact h.held e' he'
    · rcases List.mem_cons.1 he' with rfl | he'
      · exact hwithin
      · exact h.held e' he'

/-- What goes back into the list may leave what is held when it is all of one entry. -/
lemma Inv.requeueEntry (h : Inv s) (hwithin : e.WithinReq) {held : List BlockSyncEntry} (hsub : ∀ e' ∈ held, e' ∈ s.held)
    (hheld : ∀ e' ∈ s.held, e' ∈ held ∨ e' = e) :
    Inv { s with syncList := s.syncList.requeueEntry e, held := held } := by
  obtain ⟨hkeep, hold, hcover⟩ := requeueEntry_spec s.syncList e
  refine ⟨fun a ha hlt => ?_, fun e' he' => ?_, fun e' he' => h.held e' (hsub e' he')⟩
  · by_cases hnew : s.syncList.nextLevel ≤ a
    · exact .inl (hcover a hlt (.inr hnew))
    · rcases h.covered a ha (by omega) with ⟨e', he', hmem⟩ | ⟨e', he', hmem⟩ | hmem
      · exact .inl ⟨e', hkeep e' he', hmem⟩
      · rcases hheld e' he' with he' | rfl
        · exact .inr (.inl ⟨e', he', hmem⟩)
        · exact .inl (hcover a hlt (.inl hmem))
      · exact .inr (.inr hmem)
  · rcases hold e' he' with he' | rfl
    · exact h.list e' he'
    · exact hwithin

lemma Inv.receive (h : Inv s) (he : e ∈ s.held) (hpos : e.nlevels ≠ 0) :
    Inv { s with held := ⟨e.level + 1, e.nlevels - 1⟩ :: s.held.erase e, received := e.level :: s.received } := by
  refine ⟨fun a ha hlt => ?_, h.list, fun e' he' => ?_⟩
  · rcases h.covered a ha hlt with hmem | ⟨e', he', hmem⟩ | hmem
    · exact .inl hmem
    · by_cases hsame : e' = e
      · subst hsame
        obtain ⟨hge, hlt'⟩ := BlockSyncEntry.mem_def.1 hmem
        by_cases hfirst : a = e'.level
        · exact .inr (.inr (by rw [hfirst]; exact List.mem_cons_self))
        · exact .inr (.inl ⟨_, List.mem_cons_self, by dsimp only; omega, by dsimp only; omega⟩)
      · exact .inr (.inl ⟨e', List.mem_cons_of_mem _ ((List.mem_erase_of_ne hsame).2 he'), hmem⟩)
    · exact .inr (.inr (List.mem_cons_of_mem _ hmem))
  · rcases List.mem_cons.1 he' with rfl | he'
    · refine (h.held e he).mono fun a ha => ?_
      obtain ⟨hge, hlt⟩ := BlockSyncEntry.mem_def.1 ha
      exact ⟨by dsimp only at hge; omega, by dsimp only at hlt hge; omega⟩
    · exact h.held e' (List.mem_of_mem_erase he')

/-- What one event leaves. -/
theorem Inv.step {ev : BlockSyncEvent} (h : Inv s) (hstep : step s ev = some s') : Inv s' := by
  cases ev with
  | indelible level =>
    simp only [BlockSync.step, Option.ite_none_right_eq_some, Option.some.injEq] at hstep
    obtain ⟨hle, rfl⟩ := hstep
    exact ⟨fun a ha => h.covered a (by dsimp only at ha; omega), h.list, h.held⟩
  | init read =>
    simp only [BlockSync.step, Option.ite_none_right_eq_some, Option.some.injEq] at hstep
    obtain ⟨hle, rfl⟩ := hstep
    exact ⟨fun a ha hlt => by dsimp only [BlockSyncList.init] at ha hlt; omega, fun e he => absurd he List.not_mem_nil,
      h.held⟩
  | getNextEntry maxOutconns =>
    obtain ⟨r, hget, rfl⟩ := Option.map_eq_some_iff.1 hstep
    exact h.getNextEntry hget
  | receive entry =>
    simp only [BlockSync.step, Option.ite_none_right_eq_some, Option.some.injEq] at hstep
    obtain ⟨⟨hmem, hpos⟩, rfl⟩ := hstep
    exact h.receive hmem hpos
  | requeueEntry entry =>
    simp only [BlockSync.step, Option.ite_none_right_eq_some, Option.some.injEq] at hstep
    obtain ⟨hmem, rfl⟩ := hstep
    refine h.requeueEntry (h.held entry hmem) (fun e' he' => List.mem_of_mem_erase he') fun e' he' => ?_
    by_cases hsame : e' = entry
    · exact .inr hsame
    · exact .inl ((List.mem_erase_of_ne hsame).2 he')
  | requeueLevel level =>
    simp only [BlockSync.step, Option.ite_none_right_eq_some, Option.some.injEq] at hstep
    obtain ⟨-, rfl⟩ := hstep
    exact h.requeueEntry (BlockSyncEntry.withinReq_one level) (fun _ he => he) fun _ he => .inl he

/-- In every run no level is lost, and what the next call hands out is above the last indelible level and of one
request. -/
theorem run_no_level_lost {evs : List BlockSyncEvent} (hrun : Machine.run step (start last) evs = some s) :
    (∀ a, s.lastIndelibleLevel < a → a < s.syncList.nextLevel →
      (∃ e ∈ s.syncList.list, a ∈ e) ∨ (∃ e ∈ s.held, a ∈ e) ∨ a ∈ s.received) ∧
    ∀ maxOutconns, ∃ e l, BlockSyncList.getNextEntry s.syncList s.lastIndelibleLevel maxOutconns = some (e, l) ∧
      (∀ a ∈ e, s.lastIndelibleLevel < a) ∧ e.nlevels ≤ blocksyncNlevelsPerReq ∧ e.WithinReq := by
  have h : Inv s := Machine.run_invariant (fun _ _ _ h hstep => h.step hstep) (Inv.start last) hrun
  refine ⟨h.covered, fun maxOutconns => ?_⟩
  obtain ⟨⟨e, l⟩, hget⟩ := Option.isSome_iff_exists.1 (getNextEntry_isSome s.syncList s.lastIndelibleLevel maxOutconns)
  obtain ⟨hwithin, habove⟩ := getNextLoop_entry h.list ⟨fun a ha => absurd (BlockSyncEntry.mem_def.1 ha).2 (by simp),
    fun a ha => absurd (BlockSyncEntry.mem_def.1 ha).2 (by simp)⟩ hget
  exact ⟨e, l, hget, habove, hwithin.nlevels_le, hwithin⟩

/-- A connection receives the first of a hundred levels and gives the others back. -/
theorem run_no_level_lost_requeued : ∃ e l, BlockSyncList.getNextEntry ⟨[⟨2, 99⟩], 101⟩ 0 4 = some (e, l) ∧
      (∀ a ∈ e, 0 < a) ∧ e.nlevels ≤ blocksyncNlevelsPerReq ∧ e.WithinReq :=
  (run_no_level_lost (s := ⟨⟨[⟨2, 99⟩], 101⟩, 0, [], [1]⟩)
    (show Machine.run step (start 0) [.init 0, .getNextEntry 4, .receive ⟨1, 100⟩, .requeueEntry ⟨2, 99⟩] = _ from rfl)).2 4

end BlockSync

end CredaCash.Node
