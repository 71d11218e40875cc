import CredaCash.Tracker.DirRun
import Mathlib.Data.List.Nodup

/-! The names that a reply of the tracker picks: which places of the list are read, and which names come out. -/

namespace CredaCash.Tracker
open Probing

variable {c : Config} {d : Dir} {ne pos nextpos m fuel n seed : ℕ}

/-- A reply in the making: the text, the names in it, and the list places that were read. -/
structure Reply where
  needComma : Bool
  buf : List UInt8
  names : List Hostname
  reads : List ℕ
deriving DecidableEq

/-- A name between double quotes. -/
def quoted (name : Hostname) : List UInt8 := 34 :: nameToString name ++ [34]

def Reply.emit (r : Reply) (name : Hostname) : Reply where
  needComma := true
  buf := r.buf ++ (if r.needComma then [44] else []) ++ quoted name
  names := r.names ++ [name]
  reads := r.reads

/-- From `pos` on up to `nextpos`, the first name that is not cleared; none when the fuel does not last. -/
def pickWhile (d : Dir) (ne nextpos : ℕ) : ℕ → ℕ → Reply → Option Reply
  | 0, _, _ => none
  | fuel+1, pos, r =>
    if pos = nextpos then some r
    else
      let hostname := d.namelist (d.listHead + pos)
      let r := { r with reads := r.reads ++ [d.listHead + pos] }
      if hostname = clearedHostname then pickWhile d ne nextpos fuel ((pos + 1) % ne) r
      else some (r.emit hostname)

/-- The strides that are left. -/
def pickFor (d : Dir) (ne n fuel : ℕ) : ℕ → ℕ → Reply → Option Reply
  | 0, _, r => some r
  | left+1, pos, r =>
    let nextpos := (pos + ne / n) % ne
    let nextpos := if ne = 1 then nextpos + 1 else nextpos
    (pickWhile d ne nextpos fuel pos r).bind fun r => pickFor d ne n fuel left nextpos r

/-- At most `n` names for a reply; none when a loop does not end. -/
def pickN (d : Dir) (fuel seed n : ℕ) : Option Reply :=
  let ne := d.listNentries
  if ne = 0 then some ⟨false, [], [], []⟩
  else
    let n := if n > ne then ne else n
    pickFor d ne n fuel n (seed % ne) ⟨false, [], [], []⟩

section Stride

/-- What the loop reads and finds in the next `m` places. -/
def stride (d : Dir) (ne : ℕ) : ℕ → ℕ → List ℕ × Option Hostname
  | _, 0 => ([], none)
  | pos, m+1 =>
    if d.namelist (d.listHead + pos) = clearedHostname then
      ((d.listHead + pos) :: (stride d ne ((pos + 1) % ne) m).1, (stride d ne ((pos + 1) % ne) m).2)
    else ([d.listHead + pos], some (d.namelist (d.listHead + pos)))

/-- A reply after one more stride. -/
def Reply.append (r : Reply) (s : List ℕ × Option Hostname) : Reply :=
  let r := { r with reads := r.reads ++ s.1 }
  s.2.elim r r.emit

lemma slot_succ : slot ne ((pos + 1) % ne) m = slot ne pos (m + 1) := by
  have h : (pos + 1) % ne = slot ne pos 1 := rfl
  rw [h, slot_slot, Nat.add_comm]

lemma pickWhile_spec (hpos : pos < ne) (hm : m < ne) (hnext : nextpos = slot ne pos m) {r r' : Reply}
    (h : pickWhile d ne nextpos fuel pos r = some r') : r' = r.append (stride d ne pos m) := by
  induction fuel generalizing pos m r with
  | zero => cases h
  | succ fuel ih =>
    rw [pickWhile] at h
    cases m with
    | zero =>
      rw [slot_zero hpos] at hnext
      rw [if_pos hnext.symm] at h
      cases h
      simp [Reply.append, stride]
    | succ m =>
      have hne : pos ≠ nextpos := fun heq => by
        rw [← slot_zero hpos] at heq
        have := slot_inj (by omega) hm (heq.trans hnext)
        omega
      rw [if_neg hne] at h
      dsimp only at h
      rw [stride]
      split at h
      · rename_i hclear
        rw [ih (m := m) (Nat.mod_lt _ (by omega)) (by omega) (by rw [slot_succ]; exact hnext) h, if_pos hclear]
        simp [Reply.append]
      · rename_i hclear
        cases h
        rw [if_neg hclear]
        rfl

lemma pickWhile_isSome (hpos : pos < ne) (hfuel : m < fuel) (hnext : nextpos = slot ne pos m) (r : Reply) :
    (pickWhile d ne nextpos fuel pos r).isSome := by
  induction m generalizing pos fuel r with
  | zero =>
    obtain ⟨fuel, rfl⟩ := Nat.exists_eq_add_of_lt hfuel
    rw [slot_zero hpos] at hnext
    rw [pickWhile, if_pos hnext.symm]
    rfl
  | succ m ih =>
    obtain ⟨fuel, rfl⟩ := Nat.exists_eq_succ_of_ne_zero (show fuel ≠ 0 by omega)
    rw [pickWhile]
    split
    · rfl
    · dsimp only
      split
      · exact ih (Nat.mod_lt _ (by omega)) (by omega) (by rw [slot_succ]; exact hnext) _
      · rfl

lemma stride_some {x : Hostname} (hpos : pos < ne) (h : (stride d ne pos m).2 = some x) :
    x ≠ clearedHostname ∧ ∃ j < m, d.listHead + slot ne pos j ∈ (stride d ne pos m).1 ∧
      d.namelist (d.listHead + slot ne pos j) = x := by
  induction m generalizing pos with
  | zero => cases h
  | succ m ih =>
    rw [stride] at h ⊢
    split at h
    · rename_i hclear
      rw [if_pos hclear]
      obtain ⟨hx, j, hj, hread, hname⟩ := ih (Nat.mod_lt _ (by omega)) h
      rw [slot_succ] at hread hname
      exact ⟨hx, j + 1, by omega, List.mem_cons_of_mem _ hread, hname⟩
    · rename_i hclear
      rw [if_neg hclear]
      obtain rfl := Option.some.inj h
      exact ⟨hclear, 0, by omega, by rw [slot_zero hpos]; exact List.mem_singleton_self _, by rw [slot_zero hpos]⟩

lemma stride_none (hpos : pos < ne) (h : (stride d ne pos m).2 = none) : ∀ j < m,
    d.listHead + slot ne pos j ∈ (stride d ne pos m).1 ∧ d.namelist (d.listHead + slot ne pos j) = clearedHostname := by
  induction m generalizing pos with
  | zero => exact fun j hj => absurd hj (Nat.not_lt_zero j)
  | succ m ih =>
    rw [stride] at h ⊢
    split at h
    · rename_i hclear
      rw [if_pos hclear]
      intro j hj
      cases j with
      | zero =>
        rw [slot_zero hpos]
        exact ⟨List.mem_cons_self, hclear⟩
      | succ j =>
        obtain ⟨hread, hname⟩ := ih (Nat.mod_lt _ (by omega)) h j (by omega)
        rw [slot_succ] at hread hname
        exact ⟨List.mem_cons_of_mem _ hread, hname⟩
    · cases h

/-- The places read are inside the list when no entry on which the loop comes lies past its end. -/
lemma stride_reads_iff (hpos : pos < ne) : (∀ l ∈ (stride d ne pos m).1, l < c.listSize) ↔
    ∀ j < m, (∀ i < j, d.namelist (place c d (slot ne pos i)) = clearedHostname) →
      d.listHead + slot ne pos j < c.listSize := by
  induction m generalizing pos with
  | zero => simp [stride]
  | succ m ih =>
    have hentry : d.listHead + pos < c.listSize → place c d pos = d.listHead + pos := fun h => Nat.mod_eq_of_lt h
    have hzero : slot ne pos 0 = pos := slot_zero hpos
    rw [stride]
    split
    · rename_i hclear
      rw [List.forall_mem_cons, ih (Nat.mod_lt _ (by omega))]
      constructor
      · rintro ⟨hfirst, hrest⟩ j hj hcleared
        cases j with
        | zero => rwa [hzero]
        | succ j =>
          rw [← slot_succ]
          refine hrest j (by omega) fun i hi => ?_
          rw [slot_succ]
          exact hcleared (i + 1) (by omega)
      · intro h
        have hfirst : d.listHead + pos < c.listSize := by
          have := h 0 (by omega) fun i hi => absurd hi (Nat.not_lt_zero i)
          rwa [hzero] at this
        refine ⟨hfirst, fun j hj hcleared => ?_⟩
        rw [slot_succ]
        refine h (j + 1) (by omega) fun i hi => ?_
        cases i with
        | zero => rwa [hzero, hentry hfirst]
        | succ i =>
          have := hcleared i (by omega)
          rwa [slot_succ] at this
    · rename_i hclear
      rw [List.forall_mem_singleton]
      constructor
      · intro hfirst j hj hcleared
        cases j with
        | zero => rwa [hzero]
        | succ j =>
          have := hcleared 0 (by omega)
          rw [hzero, hentry hfirst] at this
          exact absurd this hclear
      · intro h
        have := h 0 (by omega) fun i hi => absurd hi (Nat.not_lt_zero i)
        rwa [hzero] at this

end Stride

section Reply

/-- Names between quotes, with commas between them. -/
def jsonNames : List Hostname → List UInt8
  | [] => []
  | [x] => quoted x
  | x :: y :: xs => quoted x ++ 44 :: jsonNames (y :: xs)

lemma jsonNames_concat (xs : List Hostname) (x : Hostname) :
    jsonNames (xs ++ [x]) = jsonNames xs ++ (if xs = [] then [] else [44]) ++ quoted x := by
  induction xs with
  | nil => rfl
  | cons y ys ih =>
    cases ys with
    | nil => simp [jsonNames]
    | cons z zs =>
      have hrest : y :: z :: zs ++ [x] = y :: z :: (zs ++ [x]) := rfl
      rw [hrest, jsonNames, ← List.cons_append, ih, jsonNames]
      simp

/-- The text is that of the names. -/
def Reply.Text (r : Reply) : Prop := (r.needComma ↔ r.names ≠ []) ∧ r.buf = jsonNames r.names

lemma Reply.Text.append {r : Reply} (h : r.Text) (s : List ℕ × Option Hostname) : (r.append s).Text := by
  obtain ⟨reads, name⟩ := s
  cases name with
  | none => exact h
  | some x =>
    obtain ⟨hcomma, hbuf⟩ := h
    refine ⟨by simp [Reply.append, Reply.emit], ?_⟩
    by_cases hnil : r.names = []
    · simp [Reply.append, Reply.emit, hbuf, hnil] at hcomma ⊢
      simp [hcomma, jsonNames]
    · simp [Reply.append, Reply.emit, jsonNames_concat, hbuf, hnil] at hcomma ⊢
      simp [hcomma]

/-- A reply after some more strides. -/
def Reply.appends (r : Reply) (ss : List (List ℕ × Option Hostname)) : Reply := ss.foldl Reply.append r

lemma appends_reads (r : Reply) (ss : List (List ℕ × Option Hostname)) :
    (r.appends ss).reads = r.reads ++ (ss.map (·.1)).flatten := by
  induction ss generalizing r with
  | nil => simp [Reply.appends]
  | cons s ss ih =>
    have hs : (r.append s).reads = r.reads ++ s.1 := by
      obtain ⟨reads, name⟩ := s
      cases name <;> rfl
    calc ((r.append s).appends ss).reads = (r.append s).reads ++ (ss.map (·.1)).flatten := ih _
      _ = r.reads ++ ((s :: ss).map (·.1)).flatten := by rw [hs]; simp

lemma appends_names (r : Reply) (ss : List (List ℕ × Option Hostname)) :
    (r.appends ss).names = r.names ++ ss.filterMap (·.2) := by
  induction ss generalizing r with
  | nil => simp [Reply.appends]
  | cons s ss ih =>
    have hs : (r.append s).names = r.names ++ s.2.toList := by
      obtain ⟨reads, name⟩ := s
      cases name with
      | none => exact (List.append_nil _).symm
      | some x => rfl
    calc ((r.append s).appends ss).names = (r.append s).names ++ ss.filterMap (·.2) := ih _
      _ = r.names ++ (s :: ss).filterMap (·.2) := by
        rw [hs]
        cases hname : s.2 <;> simp [hname]

lemma Reply.Text.appends {r : Reply} (h : r.Text) (ss : List (List ℕ × Option Hostname)) : (r.appends ss).Text := by
  induction ss generalizing r with
  | nil => exact h
  | cons s ss ih => exact ih (h.append s)

end Reply

section Strides
variable (hne : 2 ≤ ne)
include hne

/-- The strides that start at `pos`, each of `m` places. -/
def strides (d : Dir) (ne m pos count : ℕ) : List (List ℕ × Option Hostname) :=
  (List.range count).map fun i => stride d ne (slot ne pos (i * m)) m

omit hne in
lemma strides_succ (count : ℕ) (hpos : pos < ne) : strides d ne m pos (count + 1) =
    stride d ne pos m :: strides d ne m (slot ne pos m) count := by
  rw [strides, List.range_succ_eq_map, List.map_cons, Nat.zero_mul, slot_zero hpos, strides, List.map_map]
  congr 1
  refine List.map_congr_left fun i _ => ?_
  rw [Function.comp_apply, slot_slot, Nat.succ_mul, Nat.add_comm]

private lemma nextpos_eq : (if ne = 1 then (pos + ne / n) % ne + 1 else (pos + ne / n) % ne) =
    slot ne pos (ne / n % ne) := by
  rw [if_neg (by omega), slot, Nat.add_mod_mod]

/-- What the strides give, if they end. -/
lemma pickFor_spec {count : ℕ} (hpos : pos < ne) {r r' : Reply} (h : pickFor d ne n fuel count pos r = some r') :
    r' = r.appends (strides d ne (ne / n % ne) pos count) := by
  induction count generalizing pos r with
  | zero =>
    cases h
    rfl
  | succ count ih =>
    obtain ⟨r'', hwhile, h⟩ := Option.bind_eq_some_iff.1 h
    rw [nextpos_eq hne] at hwhile h
    have hlt : ne / n % ne < ne := Nat.mod_lt _ (by omega)
    rw [ih (slot_lt (by omega)) h, strides_succ count hpos, pickWhile_spec hpos hlt rfl hwhile]
    rfl

lemma pickFor_isSome {count : ℕ} (hpos : pos < ne) (hfuel : ne ≤ fuel) (r : Reply) :
    (pickFor d ne n fuel count pos r).isSome := by
  induction count generalizing pos r with
  | zero => rfl
  | succ count ih =>
    have hlt : ne / n % ne < ne := Nat.mod_lt _ (by omega)
    rw [pickFor, nextpos_eq hne]
    obtain ⟨r', hr'⟩ := Option.isSome_iff_exists.1 (@pickWhile_isSome d ne pos (slot ne pos (ne / n % ne)) (ne / n % ne) fuel
      hpos (show ne / n % ne < fuel by omega) rfl r)
    rw [hr', Option.bind_some]
    exact ih (slot_lt (by omega)) r'

omit hne in
lemma stride_mem {l : ℕ} (hpos : pos < ne) (h : l ∈ (stride d ne pos m).1) :
    ∃ j < m, l = d.listHead + slot ne pos j := by
  induction m generalizing pos with
  | zero => cases h
  | succ m ih =>
    have hfirst : ∃ j < m + 1, d.listHead + pos = d.listHead + slot ne pos j := ⟨0, by omega, by rw [slot_zero hpos]⟩
    rw [stride] at h
    split at h
    · rcases List.mem_cons.1 h with rfl | h
      · exact hfirst
      · obtain ⟨j, hj, rfl⟩ := ih (Nat.mod_lt _ (by omega)) h
        exact ⟨j + 1, by omega, by rw [slot_succ]⟩
    · rw [List.mem_singleton.1 h]
      exact hfirst

end Strides

/-- A reply that publishes current names only. -/
structure PicksLive (c : Config) (d : Dir) (n : ℕ) (r : Reply) : Prop where
  reads : ∀ l ∈ r.reads, ∃ k < d.listNentries, l = place c d k
  few : r.names.length ≤ n
  distinct : (r.names.map nameToString).Nodup
  live : ∀ x ∈ r.names, x ≠ clearedHostname ∧ ∃ k < d.listNentries, d.namelist (place c d k) = x
  some : (∃ k < d.listNentries, d.namelist (place c d k) ≠ clearedHostname) → r.names ≠ []
  text : r.buf = jsonNames r.names

/-- The places of one stride. -/
def strideLength (ne n : ℕ) : ℕ := ne / min n ne % ne

/-- No entry on which a stride comes lies past the end of the memory of the list, and some stride comes on an entry
that is not cleared, if there is one. A single entry must not be cleared. -/
def StridesLive (c : Config) (d : Dir) (seed n : ℕ) : Prop :=
  d.listNentries = 0 ∨ d.listNentries = 1 ∧ d.namelist (place c d 0) ≠ clearedHostname ∨ 2 ≤ d.listNentries ∧
  (∀ i < min n d.listNentries, ∀ j < strideLength d.listNentries n,
    (∀ l < j, d.namelist (place c d (slot d.listNentries seed (i * strideLength d.listNentries n + l))) =
      clearedHostname) → d.listHead + slot d.listNentries seed (i * strideLength d.listNentries n + j) < c.listSize) ∧
  ((∃ k < d.listNentries, d.namelist (place c d k) ≠ clearedHostname) →
    ∃ t < min n d.listNentries * strideLength d.listNentries n,
      d.namelist (place c d (slot d.listNentries seed t)) ≠ clearedHostname)

instance : Decidable (StridesLive c d seed n) := by
  unfold StridesLive
  infer_instance

/-- What `pickN` gives for two entries or more. -/
def picked (d : Dir) (seed n : ℕ) : Reply :=
  Reply.appends ⟨false, [], [], []⟩
    (strides d d.listNentries (strideLength d.listNentries n) (seed % d.listNentries) (min n d.listNentries))

lemma pickN_spec (hne : 2 ≤ d.listNentries) {r : Reply} (h : pickN d fuel seed n = some r) : r = picked d seed n := by
  unfold pickN at h
  dsimp only at h
  rw [if_neg (by omega)] at h
  have hmin : (if n > d.listNentries then d.listNentries else n) = min n d.listNentries := by
    split <;> omega
  rw [hmin] at h
  exact pickFor_spec hne (Nat.mod_lt _ (by omega)) h

lemma pickN_eq (hne : 2 ≤ d.listNentries) (hfuel : d.listNentries ≤ fuel) :
    pickN d fuel seed n = some (picked d seed n) := by
  have hsome : (pickN d fuel seed n).isSome := by
    unfold pickN
    dsimp only
    rw [if_neg (by omega)]
    exact pickFor_isSome hne (Nat.mod_lt _ (by omega)) hfuel _
  obtain ⟨r, hr⟩ := Option.isSome_iff_exists.1 hsome
  rw [hr, pickN_spec hne hr]

section Picked
variable (hne : 2 ≤ d.listNentries)

private lemma stride_start {i j : ℕ} : slot ne (slot ne (seed % ne) i) j = slot ne seed (i + j) := by
  rw [slot_slot, slot, slot, Nat.mod_add_mod]

lemma mem_picked_reads {l : ℕ} : l ∈ (picked d seed n).reads ↔ ∃ i < min n d.listNentries,
    l ∈ (stride d d.listNentries (slot d.listNentries (seed % d.listNentries) (i * strideLength d.listNentries n))
      (strideLength d.listNentries n)).1 := by
  rw [picked, appends_reads, List.nil_append, strides, List.map_map, List.mem_flatten]
  simp

lemma picked_names : (picked d seed n).names = (List.range (min n d.listNentries)).filterMap fun i =>
    (stride d d.listNentries (slot d.listNentries (seed % d.listNentries) (i * strideLength d.listNentries n))
      (strideLength d.listNentries n)).2 := by
  rw [picked, appends_names, List.nil_append, strides, List.filterMap_map]
  rfl

include hne

lemma picked_reads_iff : (∀ l ∈ (picked d seed n).reads, l < c.listSize) ↔
    ∀ i < min n d.listNentries, ∀ j < strideLength d.listNentries n,
      (∀ l < j, d.namelist (place c d (slot d.listNentries seed (i * strideLength d.listNentries n + l))) =
        clearedHostname) → d.listHead + slot d.listNentries seed (i * strideLength d.listNentries n + j) < c.listSize := by
  have hstride : ∀ i, (∀ l ∈ (stride d d.listNentries (slot d.listNentries (seed % d.listNentries)
      (i * strideLength d.listNentries n)) (strideLength d.listNentries n)).1, l < c.listSize) ↔ _ := fun i =>
    stride_reads_iff (slot_lt (by omega))
  simp only [stride_start] at hstride
  simp only [← hstride]
  constructor
  · exact fun h i hi l hl => h l (mem_picked_reads.2 ⟨i, hi, hl⟩)
  · intro h l hl
    obtain ⟨i, hi, hl⟩ := mem_picked_reads.1 hl
    exact h i hi l hl

omit hne in
/-- A place that is read inside the list is that of a current entry. -/
lemma place_of_lt {k : ℕ} (h : d.listHead + k < c.listSize) : place c d k = d.listHead + k := Nat.mod_eq_of_lt h

lemma picked_reads_current (hinv : Inv c d) : (∀ l ∈ (picked d seed n).reads, ∃ k < d.listNentries, l = place c d k) ↔
    ∀ l ∈ (picked d seed n).reads, l < c.listSize := by
  constructor
  · intro h l hl
    obtain ⟨k, hk, rfl⟩ := h l hl
    exact place_lt hk hinv.nentries_le
  · intro h l hl
    obtain ⟨i, -, hmem⟩ := mem_picked_reads.1 hl
    obtain ⟨j, -, rfl⟩ := stride_mem (slot_lt (by omega)) hmem
    exact ⟨_, slot_lt (by omega), (place_of_lt (h _ hl)).symm⟩

/-- Where a name comes from: the place in the list, and its distance from the first stride. -/
lemma picked_name (h : ∀ l ∈ (picked d seed n).reads, l < c.listSize) {i : ℕ} (hi : i < min n d.listNentries)
    {x : Hostname} (hx : (stride d d.listNentries (slot d.listNentries (seed % d.listNentries)
      (i * strideLength d.listNentries n)) (strideLength d.listNentries n)).2 = some x) :
    x ≠ clearedHostname ∧ ∃ j < strideLength d.listNentries n,
      d.namelist (place c d (slot d.listNentries seed (i * strideLength d.listNentries n + j))) = x := by
  obtain ⟨hclear, j, hj, hread, hname⟩ := stride_some (slot_lt (by omega)) hx
  have hlt := h _ (mem_picked_reads.2 ⟨i, hi, hread⟩)
  rw [stride_start] at hlt hname
  exact ⟨hclear, j, hj, by rw [place_of_lt hlt, hname]⟩

lemma picked_some_iff (h : ∀ l ∈ (picked d seed n).reads, l < c.listSize) : (picked d seed n).names ≠ [] ↔
    ∃ t < min n d.listNentries * strideLength d.listNentries n,
      d.namelist (place c d (slot d.listNentries seed t)) ≠ clearedHostname := by
  rw [picked_names, ne_eq, List.filterMap_eq_nil_iff]
  simp only [List.mem_range]
  push Not
  constructor
  · rintro ⟨i, hi, hsome⟩
    obtain ⟨x, hx⟩ := Option.ne_none_iff_exists'.1 hsome
    obtain ⟨hclear, j, hj, hname⟩ := picked_name hne h hi hx
    exact ⟨i * strideLength d.listNentries n + j, by nlinarith, by rw [hname]; exact hclear⟩
  · rintro ⟨t, ht, hclear⟩
    have hm : 0 < strideLength d.listNentries n := Nat.pos_of_ne_zero fun hzero => by
      rw [hzero, Nat.mul_zero] at ht
      exact Nat.not_lt_zero t ht
    refine ⟨t / strideLength d.listNentries n, Nat.div_lt_of_lt_mul (by rwa [Nat.mul_comm]), fun hnone => hclear ?_⟩
    obtain ⟨hread, hname⟩ := stride_none (slot_lt (by omega)) hnone _ (Nat.mod_lt t hm)
    have hlt := h _ (mem_picked_reads.2 ⟨_, Nat.div_lt_of_lt_mul (by rwa [Nat.mul_comm]), hread⟩)
    rw [stride_start, Nat.div_add_mod'] at hlt hname
    rw [place_of_lt hlt, hname]

lemma picked_nodup (hinv : Inv c d) (h : ∀ l ∈ (picked d seed n).reads, l < c.listSize) :
    (picked d seed n).names.Nodup := by
  rw [picked_names, List.Nodup, List.pairwise_filterMap]
  refine List.pairwise_lt_range.imp_of_mem fun {i k} hi hk hlt x hx y hy hxy => ?_
  rw [List.mem_range] at hi hk
  obtain ⟨hclear, j, hj, hnamex⟩ := picked_name hne h hi hx
  obtain ⟨-, l, hl, hnamey⟩ := picked_name hne h hk hy
  have hplace := hinv.once (slot_lt (by omega)) (slot_lt (by omega)) (hnamex.trans (hxy.trans hnamey.symm))
    (by rw [hnamex]; exact hclear)
  have hle : min n d.listNentries * strideLength d.listNentries n ≤ d.listNentries := by
    calc min n d.listNentries * strideLength d.listNentries n
        ≤ min n d.listNentries * (d.listNentries / min n d.listNentries) := Nat.mul_le_mul_left _ (Nat.mod_le ..)
      _ ≤ d.listNentries := Nat.mul_div_le ..
  have hone := slot_inj (by nlinarith) (by nlinarith) hplace
  nlinarith

/-- With two entries or more the reply is live when the strides are. -/
lemma picked_live_iff (hinv : Inv c d) : PicksLive c d n (picked d seed n) ↔ StridesLive c d seed n := by
  have hstrides : StridesLive c d seed n ↔ (∀ l ∈ (picked d seed n).reads, l < c.listSize) ∧
      ((∃ k < d.listNentries, d.namelist (place c d k) ≠ clearedHostname) →
        ∃ t < min n d.listNentries * strideLength d.listNentries n,
          d.namelist (place c d (slot d.listNentries seed t)) ≠ clearedHostname) := by
    rw [picked_reads_iff hne, StridesLive]
    constructor
    · rintro (h | ⟨h, -⟩ | ⟨-, h⟩)
      · omega
      · omega
      · exact h
    · exact fun h => .inr (.inr ⟨hne, h⟩)
  rw [hstrides]
  constructor
  · intro hlive
    have hreads := (picked_reads_current hne hinv).1 hlive.reads
    exact ⟨hreads, fun hex => (picked_some_iff hne hreads).1 (hlive.some hex)⟩
  · rintro ⟨hreads, hsome⟩
    refine ⟨(picked_reads_current hne hinv).2 hreads, ?_,
      List.Nodup.map nameToString_injective (picked_nodup hne hinv hreads), fun x hx => ?_,
      fun hex => (picked_some_iff hne hreads).2 (hsome hex), (Reply.Text.appends ⟨by simp, rfl⟩ _).2⟩
    · rw [picked_names]
      refine (List.length_filterMap_le ..).trans ?_
      rw [List.length_range]
      omega
    · rw [picked_names] at hx
      obtain ⟨i, hi, hx⟩ := List.mem_filterMap.1 hx
      obtain ⟨hclear, j, -, hname⟩ := picked_name hne hreads (List.mem_range.1 hi) hx
      exact ⟨hclear, _, slot_lt (by omega), hname⟩

end Picked

section Few

lemma pickN_zero (h : d.listNentries = 0) : pickN d fuel seed n = some ⟨false, [], [], []⟩ := by
  unfold pickN
  rw [if_pos h]

private lemma pickN_one (h : d.listNentries = 1) (hn : 0 < n) :
    pickN d fuel seed n = pickWhile d 1 1 fuel 0 ⟨false, [], [], []⟩ := by
  have hmin : (if n > 1 then 1 else n) = 1 := by
    split <;> omega
  unfold pickN
  dsimp only
  rw [h, if_neg (by decide), hmin, Nat.mod_one, pickFor]
  rw [if_pos rfl]
  cases pickWhile d 1 1 fuel 0 ⟨false, [], [], []⟩ <;> rfl

/-- A single entry that is cleared is looked at for ever. -/
lemma pickWhile_one_cleared (h : d.namelist d.listHead = clearedHostname) (fuel : ℕ) (r : Reply) :
    pickWhile d 1 1 fuel 0 r = none := by
  induction fuel generalizing r with
  | zero => rfl
  | succ fuel ih =>
    rw [pickWhile, if_neg (by decide)]
    dsimp only
    rw [Nat.add_zero, if_pos h]
    exact ih _

end Few

/-- In every state of the directory the tracker publishes current names only, at most as many as it should, each once,
and at least one if there is one, if and only if the strides are live. -/
theorem pickN_live_iff {es : List Event} {runFuel : ℕ} (hrun : Machine.run (step c runFuel) Dir.init es = some d)
    (seed : ℕ) (hn : 0 < n) :
    (∃ fuel r, pickN d fuel seed n = some r ∧ PicksLive c d n r) ↔ StridesLive c d seed n := by
  have hinv := Inv.run hrun
  rcases Nat.lt_or_ge d.listNentries 2 with hlt | hne
  · rcases Nat.lt_or_ge d.listNentries 1 with hzero | hone
    · have hzero : d.listNentries = 0 := by omega
      refine ⟨fun _ => .inl hzero, fun _ => ⟨0, _, pickN_zero hzero, by simp, Nat.zero_le _, List.nodup_nil, by simp,
        fun ⟨k, hk, _⟩ => by omega, rfl⟩⟩
    · have hone : d.listNentries = 1 := by omega
      have hle := hinv.nentries_le
      have hplace : place c d 0 = d.listHead := slot_zero (hinv.head_lt (by omega))
      have hstrides : StridesLive c d seed n ↔ d.namelist d.listHead ≠ clearedHostname := by
        rw [StridesLive, hplace]
        constructor
        · rintro (h | ⟨-, h⟩ | ⟨h, -⟩)
          · omega
          · exact h
          · omega
        · exact fun h => .inr (.inl ⟨hone, h⟩)
      rw [hstrides]
      constructor
      · rintro ⟨fuel, r, hpick, -⟩ hclear
        rw [pickN_one hone hn, pickWhile_one_cleared hclear] at hpick
        cases hpick
      · intro hclear
        refine ⟨1, ⟨true, jsonNames [d.namelist d.listHead], [d.namelist d.listHead], [d.listHead]⟩, ?_, ?_, hn,
          by simp, ?_, by simp, rfl⟩
        · rw [pickN_one hone hn, pickWhile, if_neg (by decide)]
          dsimp only
          rw [Nat.add_zero, if_neg hclear]
          rfl
        · intro l hl
          exact ⟨0, by omega, by rw [hplace, List.mem_singleton.1 hl]⟩
        · intro x hx
          rw [List.mem_singleton.1 hx]
          exact ⟨hclear, 0, by omega, by rw [hplace]⟩
  · rw [← picked_live_iff hne hinv]
    constructor
    · rintro ⟨fuel, r, hpick, hlive⟩
      rwa [pickN_spec hne hpick] at hlive
    · exact fun hlive => ⟨d.listNentries, _, pickN_eq hne le_rfl, hlive⟩

/-- Two names in a list of two places, which starts at the first place. -/
theorem pickN_live_two : ∃ d, Machine.run (step smallConfig 3) Dir.init [.add (smallName 100), .add (smallName 99)] =
    some d ∧ ∃ fuel r, pickN d fuel 1 10 = some r ∧ PicksLive smallConfig d 10 r :=
  ⟨(Machine.run (step smallConfig 3) Dir.init [.add (smallName 100), .add (smallName 99)]).get (by decide +kernel),
    (Option.some_get _).symm, (pickN_live_iff (Option.some_get _).symm 1 (by decide)).2 (by decide +kernel)⟩

/-- When the list starts at its second place, the second of two names is read past the end. -/
theorem pickN_past_end : ∃ d, Machine.run (step smallConfig 3) Dir.init
      [.add (smallName 100), .expireHead, .add (smallName 99), .add (smallName 98)] = some d ∧
    ¬∃ fuel r, pickN d fuel 0 10 = some r ∧ PicksLive smallConfig d 10 r := by
  refine ⟨(Machine.run (step smallConfig 3) Dir.init
    [.add (smallName 100), .expireHead, .add (smallName 99), .add (smallName 98)]).get (by decide +kernel),
    (Option.some_get _).symm, ?_⟩
  rintro ⟨fuel, r, hpick, hlive⟩
  obtain rfl := pickN_spec (by decide +kernel) hpick
  exact absurd (hlive.reads 2 (by decide +kernel)) (by decide +kernel)

end CredaCash.Tracker
