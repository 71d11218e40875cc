import CredaCash.Tracker.DirInvariant

/-! The operations of the directory one by one: what the probing loops find, when they end, and what each operation
leaves of the table and the list. -/

namespace CredaCash.Tracker
open Probing

variable {c : Config} {d d' : Dir} {name : Hostname} {i j k q fuel : ℕ}

section Find2

/-- The probing for a name ends at its slot. -/
theorem Inv.find2_eq (h : Inv c d) (hi : i < c.hashSize) (hu : (d.hashtable i).Used) (hname : (d.hashtable i).hostname = name)
    (hfuel : c.hashSize ≤ fuel) : find2 c d fuel name (hashIndex c name) = some (some i) := by
  obtain ⟨k, hk, hslot, hbefore⟩ := h.path i hi hu
  rw [hname] at hslot hbefore
  have hscan : scan (fun i => (d.hashtable i).pointer = hashPointerNull ∨
      (d.hashtable i).pointer ≠ hashPointerChained ∧ (d.hashtable i).hostname = name) c.hashSize fuel (hashIndex c name) =
        some i := by
    refine (scan_eq_some_iff (hashIndex_lt c name)).2 ⟨k, by omega, hslot, .inr ⟨hu.2, hname⟩, fun m hm hstop => ?_⟩
    rcases hstop with hnull | ⟨hchained, hname'⟩
    · exact hbefore m hm hnull
    · have hsame := h.unique _ (slot_lt (hash_pos c)) i hi ⟨hbefore m hm, hchained⟩ hu (hname'.trans hname.symm)
      rw [hslot] at hsame
      have heq := slot_inj (by omega) hk hsame
      omega
  rw [find2, hscan, Option.map_some, if_neg hu.1]

lemma find2_mono {r : Option ℕ} {fuel' : ℕ} (hfuel : fuel ≤ fuel') (h : find2 c d fuel name (hashIndex c name) = some r) :
    find2 c d fuel' name (hashIndex c name) = some r := by
  obtain ⟨j, hscan, rfl⟩ := Option.map_eq_some_iff.1 h
  obtain ⟨k, hk, hrest⟩ := (scan_eq_some_iff (hashIndex_lt c name)).1 hscan
  rw [find2, (scan_eq_some_iff (hashIndex_lt c name)).2 ⟨k, by omega, hrest⟩, Option.map_some]

/-- The probing for the first entry that is not cleared ends, if it does, at a slot that points to it. -/
lemma Inv.find2_head (h : Inv c d) (hpos : d.listNentries ≠ 0) (hclear : d.namelist d.listHead ≠ clearedHostname) :
    ∃ i < c.hashSize, (d.hashtable i).Used ∧ (d.hashtable i).hostname = d.namelist d.listHead ∧
      (d.hashtable i).pointer = d.listHead ∧ ∀ {fuel r}, find2 c d fuel (d.namelist d.listHead)
        (hashIndex c (d.namelist d.listHead)) = some r → r = some i := by
  have hle := h.nentries_le
  have hzero : place c d 0 = d.listHead := slot_zero (h.head_lt (by omega))
  obtain ⟨i, hi, hu, hname, hptr⟩ := h.listed 0 (by omega) (by rwa [hzero])
  rw [hzero] at hname hptr
  refine ⟨i, hi, hu, hname, hptr, fun {fuel r} hfind => ?_⟩
  have hlong := find2_mono (le_max_left fuel c.hashSize) hfind
  rw [h.find2_eq hi hu hname (le_max_right ..)] at hlong
  exact (Option.some.inj hlong).symm

end Find2

section Expire

lemma used_setPointer_iff {pointer : ℕ} (hptr : pointer = hashPointerNull ∨ pointer = hashPointerChained) :
    ((setPointer d i pointer).hashtable j).Used ↔ (d.hashtable j).Used ∧ j ≠ i := by
  by_cases hji : j = i
  · subst hji
    have hself : ((setPointer d j pointer).hashtable j).pointer = pointer := by simp [setPointer]
    simp only [HashEntry.Used, hself, ne_eq, not_true, and_false, iff_false, not_and_or, not_not]
    exact hptr
  · rw [setPointer, setEntry_of_ne _ hji]
    exact ⟨fun hu => ⟨hu, hji⟩, And.left⟩

/-- What the operations may do to slots that they do not fill. -/
structure Frees (d d' : Dir) : Prop where
  null : ∀ j, Null d j → Null d' j
  used : ∀ j, (d'.hashtable j).Used → d'.hashtable j = d.hashtable j

lemma Frees.refl (d : Dir) : Frees d d := ⟨fun _ h => h, fun _ _ => rfl⟩

lemma Frees.trans {d'' : Dir} (h : Frees d d') (h' : Frees d' d'') : Frees d d'' where
  null j hj := h'.null j (h.null j hj)
  used j hj := by
    have heq := h'.used j hj
    rw [heq] at hj
    rw [heq, h.used j hj]

lemma frees_setPointer {pointer : ℕ} (hptr : pointer = hashPointerNull ∨ pointer = hashPointerChained)
    (hi : pointer = hashPointerNull ∨ ¬Null d i) : Frees d (setPointer d i pointer) where
  null j hj := by
    by_cases hji : j = i
    · subst hji
      rcases hi with hi | hi
      · simpa [Null, setPointer] using hi
      · exact absurd hj hi
    · rwa [Null, setPointer, setEntry_of_ne _ hji]
  used j hj := setEntry_of_ne _ ((used_setPointer_iff hptr).1 hj).2

lemma clearLeft_spec (h : Inv c d) (hi : i < c.hashSize) (hnull : Null d i) (hclear : clearLeft c fuel i d = some d') :
    Inv c d' ∧ Frees d d' := by
  induction fuel generalizing i d with
  | zero => cases hclear
  | succ fuel ih =>
    rw [clearLeft] at hclear
    split at hclear
    · cases hclear
      exact ⟨h, Frees.refl _⟩
    · rename_i hchained
      have hi' : prev c.hashSize i < c.hashSize := prev_lt hi
      have hunused : ¬(d.hashtable (prev c.hashSize i)).Used := fun hu => hchained hu.2
      have hinv : Inv c (setPointer d (prev c.hashSize i) hashPointerNull) :=
        (h.setPointer hunused (.inr (by rwa [next_prev hi]))).congr fun j _ => by
          rw [used_setPointer_iff (.inl rfl)]
          exact ⟨fun hu => ⟨hu, fun hj => hunused (hj ▸ hu)⟩, And.left⟩
      obtain ⟨hinv', hfrees⟩ := ih hinv hi' (by simp [Null, setPointer]) hclear
      exact ⟨hinv', (frees_setPointer (.inl rfl) (.inl rfl)).trans hfrees⟩

/-- The slots to the left of a NULL one are cleared before one round is over. -/
lemma clearLeft_isSome (hq : ¬(d.hashtable q).pointer = hashPointerChained) (hk : k < fuel)
    (hprev : (prev c.hashSize)^[k + 1] i = q) : (clearLeft c fuel i d).isSome := by
  induction fuel generalizing i k d with
  | zero => omega
  | succ fuel ih =>
    rw [clearLeft]
    split
    · rfl
    · rename_i hchained
      cases k with
      | zero => exact absurd (by rw [← hprev] at hq; exact hq) hchained
      | succ k =>
        refine ih (k := k) ?_ (by omega) (by rwa [Function.iterate_succ_apply] at hprev)
        by_cases hsame : q = prev c.hashSize i
        · rw [hsame]
          simp [setPointer, hashPointerNull, hashPointerChained]
        · rwa [setPointer, setEntry_of_ne _ hsame]

lemma prev_iterate (hi : i < c.hashSize) (hk : k ≤ c.hashSize) :
    (prev c.hashSize)^[k] i = slot c.hashSize i (c.hashSize - k) := by
  induction k with
  | zero =>
    have hround := slot_add_size (n := c.hashSize) (h := i) (k := 0)
    rw [Nat.zero_add, slot_zero hi] at hround
    rw [Function.iterate_zero_apply, Nat.sub_zero, hround]
  | succ k ih =>
    rw [Function.iterate_succ_apply', ih (by omega), prev_slot (by omega) (by omega), Nat.sub_sub]

/-- The first entry expires: the table and the list still agree, and no slot is taken. -/
theorem Inv.expireHead (h : Inv c d) (hexpire : expireHead c d fuel = some d') : Inv c d' ∧ Frees d d' := by
  unfold Tracker.expireHead at hexpire
  split at hexpire
  · cases hexpire
    exact ⟨h, Frees.refl d⟩
  · rename_i hpos
    dsimp only at hexpire
    split at hexpire
    · rename_i hclear
      cases hexpire
      exact ⟨h.dropHead hpos (fun _ hj => hj) (fun _ _ _ hne => by rwa [hclear]) fun _ _ hu _ => hu, fun _ hj => hj,
        fun _ _ => rfl⟩
    · rename_i hclear
      obtain ⟨i, hi, hu, hname, hptr, hfind⟩ := h.find2_head hpos hclear
      obtain ⟨r, hr, hexpire⟩ := Option.bind_eq_some_iff.1 hexpire
      obtain rfl := hfind hr
      obtain ⟨q, hscan, hexpire⟩ := Option.bind_eq_some_iff.1 hexpire
      have hdrop : InvOn c (Tracker.dropHead c d) fun j => (d.hashtable j).Used ∧ j ≠ i :=
        h.dropHead hpos (fun _ hj => hj.1)
          (fun j hj hl _ heq => hl.2 (h.unique j hj i hi hl.1 hu (heq.trans hname.symm)))
          fun j hj huj hne => ⟨huj, fun hji => hne (by rw [hji, hptr])⟩
      have hinv : Inv c (Tracker.setPointer (Tracker.dropHead c d) i hashPointerChained) :=
        (hdrop.setPointer (fun hl => hl.2 rfl) (.inl (by decide))).congr fun j _ =>
          (used_setPointer_iff (.inr rfl)).symm
      have hfrees : Frees d (Tracker.setPointer (Tracker.dropHead c d) i hashPointerChained) :=
        @Frees.trans d (Tracker.dropHead c d) _ ⟨fun _ hj => hj, fun _ _ => rfl⟩
          (frees_setPointer (.inr rfl) (.inr hu.1))
      split at hexpire
      · cases hexpire
        exact ⟨hinv, hfrees⟩
      · rename_i hnull
        obtain ⟨k, -, hslot, -⟩ := (scan_eq_some_iff (next_lt hi)).1 hscan
        obtain ⟨hinv', hfrees'⟩ := clearLeft_spec hinv (by rw [hslot]; exact slot_lt (hash_pos c)) (not_not.1 hnull) hexpire
        exact ⟨hinv', hfrees.trans hfrees'⟩

/-- With a NULL slot left the first entry expires, whatever it is. -/
theorem expireHead_isSome (hnull : ∃ q < c.hashSize, Null d q) (hfuel : c.hashSize ≤ fuel) :
    (expireHead c d fuel).isSome := by
  obtain ⟨q, hq, hnull⟩ := hnull
  unfold expireHead
  split
  · rfl
  · dsimp only
    split
    · rfl
    · obtain ⟨r, hr⟩ := Option.isSome_iff_exists.1 (@scan_isSome _ _ _ _
        (fun i => (d.hashtable i).pointer = hashPointerNull ∨
          (d.hashtable i).pointer ≠ hashPointerChained ∧ (d.hashtable i).hostname = d.namelist d.listHead)
        _ (hashIndex_lt c (d.namelist d.listHead)) hq (.inl hnull) hfuel)
      rw [find2, hr, Option.map_some, Option.bind_some]
      split_ifs with hr'
      · rfl
      · obtain ⟨k, -, hslot, -⟩ := (scan_eq_some_iff (hashIndex_lt c _)).1 hr
        have hr_lt : r < c.hashSize := by
          rw [hslot]
          exact slot_lt (hash_pos c)
        set d' := setPointer (dropHead c d) r hashPointerChained with hd'
        have hqr : q ≠ r := fun heq => hr' (heq ▸ hnull)
        have hnull' : Null d' q := by
          rw [Null, hd', setPointer, setEntry_of_ne _ hqr]
          exact hnull
        obtain ⟨s, hs⟩ := Option.isSome_iff_exists.1 (@scan_isSome _ _ _ _
          (fun i => (d'.hashtable i).pointer ≠ hashPointerChained) _ (next_lt hr_lt) hq
          (by rw [hnull']; decide) hfuel)
        dsimp only
        rw [hs, Option.bind_some]
        split_ifs with hs'
        · rfl
        · obtain ⟨l, -, hslot', hstop, -⟩ := (scan_eq_some_iff (next_lt hr_lt)).1 hs
          have hs_lt : s < c.hashSize := by
            rw [hslot']
            exact slot_lt (hash_pos c)
          refine clearLeft_isSome (q := s) (k := c.hashSize - 1) hstop (by omega) ?_
          have hn := hash_pos c
          rw [Nat.sub_add_cancel hn, prev_iterate hs_lt le_rfl, Nat.sub_self, slot_zero hs_lt]

end Expire

section Add

/-- A probing passes over a slot that is not NULL and has another name, if it is in use. -/
def Passes (d : Dir) (name : Hostname) (i : ℕ) : Prop :=
  ¬Null d i ∧ ¬((d.hashtable i).Used ∧ (d.hashtable i).hostname = name)

/-- What the slot kept for the name says about the slots passed: the first CHAINED one, or all are in use. -/
def Kept (c : Config) (d : Dir) (name : Hostname) (m : ℕ) : Option ℕ → Prop
  | none => ∀ l < m, (d.hashtable (slot c.hashSize (hashIndex c name) l)).Used
  | some a => (d.hashtable a).pointer = hashPointerChained ∧ ∃ l < m, slot c.hashSize (hashIndex c name) l = a

lemma kept_zero (c : Config) (d : Dir) (name : Hostname) : Kept c d name 0 none := fun l hl => absurd hl (by omega)

/-- A probing ends at the name's slot, or at a NULL slot. -/
lemma addLoop_spec {m : ℕ} {acc : Option ℕ} {r : Probe}
    (hbefore : ∀ l < m, Passes d name (slot c.hashSize (hashIndex c name) l)) (hacc : Kept c d name m acc)
    (hloop : addLoop c d name fuel (slot c.hashSize (hashIndex c name) m) acc = some r) :
    (∃ i < c.hashSize, r = .found i ∧ (d.hashtable i).Used ∧ (d.hashtable i).hostname = name) ∨
    ∃ k acc', Null d (slot c.hashSize (hashIndex c name) k) ∧
      (∀ l < k, Passes d name (slot c.hashSize (hashIndex c name) l)) ∧ Kept c d name k acc' ∧
      r = .free (acc'.getD (slot c.hashSize (hashIndex c name) k)) := by
  induction fuel generalizing m acc with
  | zero => cases hloop
  | succ fuel ih =>
    have hpass : Passes d name (slot c.hashSize (hashIndex c name) m) →
        ∀ l < m + 1, Passes d name (slot c.hashSize (hashIndex c name) l) := fun hm l hl => by
      rcases Nat.lt_succ_iff_lt_or_eq.1 hl with hl | rfl
      · exact hbefore l hl
      · exact hm
    rw [addLoop] at hloop
    split at hloop
    · rename_i hnull
      cases hloop
      exact .inr ⟨m, acc, hnull, hbefore, hacc, rfl⟩
    · rename_i hnull
      rw [next_slot (hash_pos c)] at hloop
      split at hloop
      · rename_i hchained
        refine ih (hpass ⟨hnull, fun hu => hu.1.2 hchained⟩) ?_ hloop
        cases acc with
        | none => exact ⟨hchained, m, by omega, rfl⟩
        | some a =>
          obtain ⟨ha, l, hl, hslot⟩ := hacc
          exact ⟨ha, l, by omega, hslot⟩
      · rename_i hchained
        split at hloop
        · rename_i hname
          cases hloop
          exact .inl ⟨_, slot_lt (hash_pos c), rfl, ⟨hnull, hchained⟩, hname⟩
        · rename_i hname
          refine ih (hpass ⟨hnull, fun hu => hname hu.2⟩) ?_ hloop
          cases acc with
          | none =>
            intro l hl
            rcases Nat.lt_succ_iff_lt_or_eq.1 hl with hl | rfl
            · exact hacc l hl
            · exact ⟨hnull, hchained⟩
          | some a =>
            obtain ⟨ha, l, hl, hslot⟩ := hacc
            exact ⟨ha, l, by omega, hslot⟩

/-- A probing that starts within reach of a NULL slot ends. -/
lemma addLoop_isSome {m : ℕ} {acc : Option ℕ} (hk : k < fuel)
    (hnull : Null d (slot c.hashSize (hashIndex c name) (m + k))) :
    (addLoop c d name fuel (slot c.hashSize (hashIndex c name) m) acc).isSome := by
  induction fuel generalizing m acc k with
  | zero => omega
  | succ fuel ih =>
    have hrest : ¬(d.hashtable (slot c.hashSize (hashIndex c name) m)).pointer = hashPointerNull → ∀ acc,
        (addLoop c d name fuel (slot c.hashSize (hashIndex c name) (m + 1)) acc).isSome := fun hm acc => by
      cases k with
      | zero => exact absurd hnull hm
      | succ k => exact ih (k := k) (by omega) (by rwa [Nat.add_assoc, Nat.add_comm 1])
    rw [addLoop]
    split
    · rfl
    · rename_i hm
      rw [next_slot (hash_pos c)]
      split
      · exact hrest hm _
      · split
        · rfl
        · exact hrest hm _

/-- Without a NULL slot the probing for a new name never ends. -/
theorem addLoop_eq_none (hfull : ∀ i < c.hashSize, Passes d name i) (hi : i < c.hashSize) (acc : Option ℕ) (fuel : ℕ) :
    addLoop c d name fuel i acc = none := by
  induction fuel generalizing i acc with
  | zero => rfl
  | succ fuel ih =>
    rw [addLoop]
    have hnull : ¬(d.hashtable i).pointer = hashPointerNull := (hfull i hi).1
    rw [if_neg hnull]
    split
    · exact ih (next_lt hi) _
    · rename_i hchained
      rw [if_neg fun hname => (hfull i hi).2 ⟨⟨(hfull i hi).1, hchained⟩, hname⟩]
      exact ih (next_lt hi) _

/-- The slot that a probing frees for a name is reached over no NULL, and no slot in use has the name. -/
lemma Inv.addLoop_free (h : Inv c d) (hloop : addLoop c d name fuel (hashIndex c name) none = some (.free i)) :
    i < c.hashSize ∧ ¬(d.hashtable i).Used ∧ Path c.hashSize (Null d) (hashIndex c name) i ∧
    (∀ j < c.hashSize, (d.hashtable j).Used → (d.hashtable j).hostname ≠ name) ∧
    (Null d i → ∃ k < c.hashSize, i = slot c.hashSize (hashIndex c name) k ∧
      ∀ l < k, (d.hashtable (slot c.hashSize (hashIndex c name) l)).Used) := by
  have hstart : addLoop c d name fuel (slot c.hashSize (hashIndex c name) 0) none = some (.free i) := by
    rwa [slot_zero (hashIndex_lt c name)]
  rcases addLoop_spec (fun l hl => absurd hl (by omega)) (kept_zero c d name) hstart with
    ⟨j, -, hj, -⟩ | ⟨k, acc, hnull, hbefore, hkept, hi⟩
  · cases hj
  have hk : k < c.hashSize := by
    by_contra hge
    refine (hbefore (k - c.hashSize) (by have := hash_pos c; omega)).1 ?_
    rwa [← slot_add_size, Nat.sub_add_cancel (by omega)]
  obtain rfl : i = acc.getD (slot c.hashSize (hashIndex c name) k) := Probe.free.inj hi
  have hnew : ∀ j < c.hashSize, (d.hashtable j).Used → (d.hashtable j).hostname ≠ name := by
    intro j hj hu hname
    have hpath := h.path j hj hu
    rw [hname] at hpath
    have heq := hpath.not_free_of_lt hk hnull fun m hm hslot => (hbefore m hm).2 ⟨hslot ▸ hu, by rw [hslot, hname]⟩
    exact hu.1 (heq ▸ hnull)
  cases acc with
  | none =>
    exact ⟨slot_lt (hash_pos c), fun hu => hu.1 hnull, ⟨k, hk, rfl, fun m hm => (hbefore m hm).1⟩, hnew,
      fun _ => ⟨k, hk, rfl, hkept⟩⟩
  | some a =>
    obtain ⟨hchained, l, hl, rfl⟩ := hkept
    refine ⟨slot_lt (hash_pos c), fun hu => hu.2 hchained, ⟨l, by omega, rfl, fun m hm => (hbefore m (by omega)).1⟩,
      hnew, fun hnull' => absurd hnull' ?_⟩
    rw [Null, Option.getD_some, hchained]
    decide

lemma addLoop_found (hloop : addLoop c d name fuel (hashIndex c name) none = some (.found i)) :
    i < c.hashSize ∧ (d.hashtable i).Used ∧ (d.hashtable i).hostname = name := by
  have hstart : addLoop c d name fuel (slot c.hashSize (hashIndex c name) 0) none = some (.found i) := by
    rwa [slot_zero (hashIndex_lt c name)]
  rcases addLoop_spec (fun l hl => absurd hl (by omega)) (kept_zero c d name) hstart with
    ⟨j, hj, heq, hu, hname⟩ | ⟨k, acc, -, -, -, heq⟩
  · obtain rfl := Probe.found.inj heq
    exact ⟨hj, hu, hname⟩
  · cases heq

/-- What adding a name leaves: the table and the list agree, and only a slot for the name can be new. -/
theorem Inv.update (h : Inv c d) (hroom : d.listNentries ≠ c.listSize) (hi : i < c.hashSize)
    (hu : (d.hashtable i).Used) (hname : (d.hashtable i).hostname = name) :
    Inv c (update c d name i).2 ∧ (∀ j, Null d j → Null (update c d name i).2 j) ∧
    ∀ j, ((update c d name i).2.hashtable j).Used →
      ((update c d name i).2.hashtable j).hostname = (d.hashtable j).hostname ∧ (d.hashtable j).Used := by
  have hsame : Inv c d ∧ (∀ j, Null d j → Null d j) ∧
      ∀ j, (d.hashtable j).Used → (d.hashtable j).hostname = (d.hashtable j).hostname ∧ (d.hashtable j).Used :=
    ⟨h, fun _ hj => hj, fun _ hj => ⟨rfl, hj⟩⟩
  unfold Tracker.update
  split
  · exact hsame
  · rename_i listFind hfind
    unfold findTable at hfind
    dsimp only at hfind
    split at hfind
    · cases hfind
    · rename_i hlt
      split at hfind
      · rename_i hplace
        obtain rfl := Option.some.inj hfind
        dsimp only
        split
        · exact hsame
        · have hclear := h.clear hi hu (hplace.trans hname.symm)
          have hpath := h.path i hi hu
          rw [hname] at hpath
          have hne : ∀ j, j ≠ i → (addList c (clearHostname d (d.hashtable i).pointer) name i).hashtable j =
              d.hashtable j := fun j hj => setEntry_of_ne _ hj
          refine ⟨hclear.addList hroom hi (fun j _ => Iff.rfl) hpath fun j hj hl heq =>
            hl.2 (h.unique j hj i hi hl.1 hu (heq.trans hname.symm)), fun j hj => ?_, fun j hj => ?_⟩
          · rw [Null, hne j fun hji => hu.1 (hji ▸ hj)]
            exact hj
          · by_cases hji : j = i
            · subst hji
              exact ⟨by simp [addList, hname], hu⟩
            · rw [hne j hji] at hj ⊢
              exact ⟨rfl, hj⟩
      · cases hfind

end Add

end CredaCash.Tracker
