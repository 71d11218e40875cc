import CredaCash.Tracker.Dir

/-! What every operation on a directory keeps: each name of the list that is not cleared has one slot, which its
probing reaches over no NULL slot and which points to its place. -/

namespace CredaCash.Tracker
open Probing

variable {c : Config} {d : Dir} {live : ℕ → Prop} {name : Hostname} {i j k q fuel : ℕ}

def Null (d : Dir) (i : ℕ) : Prop := (d.hashtable i).pointer = hashPointerNull

instance : Decidable (Null d i) := inferInstanceAs (Decidable (_ = _))

/-- The list place of the entry that comes `k` after the first. -/
def place (c : Config) (d : Dir) (k : ℕ) : ℕ := slot c.listSize d.listHead k

/-- The table and the list agree on the slots of `live`. -/
structure InvOn (c : Config) (d : Dir) (live : ℕ → Prop) : Prop where
  nentries_le : d.listNentries ≤ c.listSize
  head_lt : 0 < c.listSize → d.listHead < c.listSize
  used : ∀ i < c.hashSize, live i → (d.hashtable i).Used
  path : ∀ i < c.hashSize, live i → Path c.hashSize (Null d) (hashIndex c (d.hashtable i).hostname) i
  unique : ∀ i < c.hashSize, ∀ j < c.hashSize, live i → live j →
    (d.hashtable i).hostname = (d.hashtable j).hostname → i = j
  current : ∀ i < c.hashSize, live i → (d.hashtable i).hostname ≠ clearedHostname →
    ∃ k < d.listNentries, (d.hashtable i).pointer = place c d k ∧ d.namelist (place c d k) = (d.hashtable i).hostname
  listed : ∀ k < d.listNentries, d.namelist (place c d k) ≠ clearedHostname →
    ∃ i < c.hashSize, live i ∧ (d.hashtable i).hostname = d.namelist (place c d k) ∧
      (d.hashtable i).pointer = place c d k

/-- The table and the list agree. -/
def Inv (c : Config) (d : Dir) : Prop := InvOn c d fun i => (d.hashtable i).Used

lemma hash_pos (c : Config) : 0 < c.hashSize := by
  have h := c.list_lt_hash
  omega

lemma hashIndex_lt (c : Config) (name : Hostname) : hashIndex c name < c.hashSize := Nat.mod_lt _ (hash_pos c)

lemma used_of_lt {e : HashEntry} (c : Config) (h : e.pointer < c.listSize) : e.Used := by
  have hfit := c.pointers_fit
  constructor
  · unfold hashPointerNull
    omega
  · unfold hashPointerChained
    omega

lemma not_null_of_used (h : (d.hashtable i).Used) : ¬Null d i := h.1

lemma place_lt (hk : k < d.listNentries) (h : d.listNentries ≤ c.listSize) : place c d k < c.listSize := slot_lt (by omega)

lemma place_inj (h : d.listNentries ≤ c.listSize) (hk : k < d.listNentries) (hj : j < d.listNentries)
    (heq : place c d k = place c d j) : k = j := slot_inj (by omega) (by omega) heq

theorem Inv.init (c : Config) : Inv c Dir.init where
  nentries_le := Nat.zero_le _
  head_lt h := h
  used _ _ h := h
  path _ _ h := absurd rfl h.1
  unique _ _ _ _ h := absurd rfl h.1
  current _ _ h := absurd rfl h.1
  listed _ h := absurd h (Nat.not_lt_zero _)

@[simp] lemma setEntry_self (e : HashEntry) : (setEntry d i e).hashtable i = e := Function.update_self ..

lemma setEntry_of_ne (e : HashEntry) (h : j ≠ i) : (setEntry d i e).hashtable j = d.hashtable j :=
  Function.update_of_ne h ..

@[simp] lemma place_setEntry (e : HashEntry) : place c (setEntry d i e) k = place c d k := rfl

lemma tailPlace_eq (hhead : d.listHead < c.listSize) (hroom : d.listNentries < c.listSize) :
    tailPlace c d = place c d d.listNentries := by
  unfold tailPlace place slot
  dsimp only
  split
  · rw [Nat.mod_eq_sub_mod (by omega), Nat.mod_eq_of_lt (by omega)]
  · rw [Nat.mod_eq_of_lt (by omega)]

section AddList
variable (h : InvOn c d live) (hroom : d.listNentries ≠ c.listSize)
include h hroom

private lemma tail_facts : tailPlace c d = place c d d.listNentries ∧ tailPlace c d % 2^32 = tailPlace c d ∧
    place c d d.listNentries < c.listSize ∧ ∀ k < d.listNentries, place c d k ≠ place c d d.listNentries := by
  have hle := h.nentries_le
  have hfit := c.pointers_fit
  have htail := tailPlace_eq (h.head_lt (by omega)) (show d.listNentries < c.listSize by omega)
  have hlt : place c d d.listNentries < c.listSize := slot_lt (by omega)
  refine ⟨htail, by rw [htail]; exact Nat.mod_eq_of_lt (by omega), hlt, fun k hk heq => ?_⟩
  have hsame := slot_inj (by omega) (by omega) heq
  omega

/-- A name comes into a slot and to the end of the list, when no other slot has it. -/
theorem InvOn.addList (hi : i < c.hashSize) (hlive : ∀ j < c.hashSize, live j ↔ (d.hashtable j).Used ∧ j ≠ i)
    (hpath : Path c.hashSize (Null d) (hashIndex c name) i)
    (hnew : ∀ j < c.hashSize, live j → (d.hashtable j).hostname ≠ name) : Inv c (addList c d name i) := by
  obtain ⟨htail, hmod, hlt, hother⟩ := tail_facts h hroom
  have hle := h.nentries_le
  set d' := Tracker.addList c d name i with hd'
  have hself : d'.hashtable i = ⟨place c d d.listNentries, name⟩ := by
    rw [hd', Tracker.addList, hmod, htail]
    exact setEntry_self _
  have hne : ∀ j, j ≠ i → d'.hashtable j = d.hashtable j := fun j hj => setEntry_of_ne _ hj
  have hplace : ∀ k, place c d' k = place c d k := fun _ => rfl
  have hlast : d'.namelist (place c d d.listNentries) = name := by
    rw [← htail]
    exact Function.update_self ..
  have hold : ∀ k < d.listNentries, d'.namelist (place c d k) = d.namelist (place c d k) := fun k hk =>
    Function.update_of_ne (by rw [htail]; exact hother k hk) ..
  have hn : d'.listNentries = d.listNentries + 1 := rfl
  have husedi : (d'.hashtable i).Used := used_of_lt c (by rw [hself]; exact hlt)
  have hlive' : ∀ j < c.hashSize, j ≠ i → (d'.hashtable j).Used → live j := fun j hj hji hu =>
    (hlive j hj).2 ⟨by rwa [hne j hji] at hu, hji⟩
  have hpath' : ∀ {s t}, Path c.hashSize (Null d) s t → Path c.hashSize (Null d') s t := fun hp =>
    hp.mono fun j _ hnull => by
      by_cases hji : j = i
      · rw [hji] at hnull
        exact absurd hnull (not_null_of_used husedi)
      · rwa [Null, hne j hji] at hnull
  constructor
  · rw [hn]
    omega
  · exact h.head_lt
  · exact fun _ _ hu => hu
  · intro j hj hu
    by_cases hji : j = i
    · rw [hji, hself]
      exact hpath' hpath
    · rw [hne j hji]
      exact hpath' (h.path j hj (hlive' j hj hji hu))
  · intro j hj l hl huj hul heq
    by_cases hji : j = i <;> by_cases hli : l = i
    · rw [hji, hli]
    · rw [hji, hself, hne l hli] at heq
      exact absurd heq.symm (hnew l hl (hlive' l hl hli hul))
    · rw [hli, hself, hne j hji] at heq
      exact absurd heq (hnew j hj (hlive' j hj hji huj))
    · rw [hne j hji, hne l hli] at heq
      exact h.unique j hj l hl (hlive' j hj hji huj) (hlive' l hl hli hul) heq
  · intro j hj hu hclear
    by_cases hji : j = i
    · subst hji
      exact ⟨d.listNentries, by omega, by rw [hself, hplace], by rw [hself, hplace, hlast]⟩
    · rw [hne j hji] at hclear ⊢
      obtain ⟨k, hk, hptr, hname⟩ := h.current j hj (hlive' j hj hji hu) hclear
      exact ⟨k, by omega, by rw [hptr, hplace], by rw [hplace, hold k hk, hname]⟩
  · intro k hk hclear
    rw [hplace] at hclear ⊢
    by_cases hlastk : k = d.listNentries
    · subst hlastk
      exact ⟨i, hi, husedi, by rw [hself, hlast], by rw [hself]⟩
    · have hk' : k < d.listNentries := by omega
      rw [hold k hk'] at hclear ⊢
      obtain ⟨j, hj, hl, hname, hptr⟩ := h.listed k hk' hclear
      obtain ⟨hu, hji⟩ := (hlive j hj).1 hl
      exact ⟨j, hj, by rwa [hne j hji], by rw [hne j hji, hname], by rw [hne j hji, hptr]⟩

end AddList

/-- The entry of a slot that is in use can be cleared; the slot no more counts. -/
theorem Inv.clear (h : Inv c d) (hi : i < c.hashSize) (hu : (d.hashtable i).Used)
    (hname : d.namelist (d.hashtable i).pointer = (d.hashtable i).hostname) :
    InvOn c (clearHostname d (d.hashtable i).pointer) fun j => (d.hashtable j).Used ∧ j ≠ i := by
  set p := (d.hashtable i).pointer with hp
  have hself : (clearHostname d p).namelist p = clearedHostname := Function.update_self ..
  have hne : ∀ r, r ≠ p → (clearHostname d p).namelist r = d.namelist r := fun r hr => Function.update_of_ne hr ..
  refine ⟨h.nentries_le, h.head_lt, fun j _ hl => hl.1, fun j hj hl => h.path j hj hl.1,
    fun j hj l hl hlj hll => h.unique j hj l hl hlj.1 hll.1, ?_, ?_⟩
  · intro j hj hl hclear
    obtain ⟨k, hk, hptr, hkname⟩ := h.current j hj hl.1 hclear
    refine ⟨k, hk, hptr, ?_⟩
    by_cases hsame : place c d k = p
    · rw [hsame, hname] at hkname
      exact absurd (h.unique j hj i hi hl.1 hu hkname.symm) hl.2
    · exact (hne _ hsame).trans hkname
  · intro k hk hclear
    by_cases hsame : place c d k = p
    · have hsame' : place c (clearHostname d p) k = p := hsame
      rw [hsame'] at hclear
      exact absurd hself hclear
    · have hnamek : (clearHostname d p).namelist (place c (clearHostname d p) k) = d.namelist (place c d k) :=
        hne _ hsame
      rw [hnamek] at hclear ⊢
      obtain ⟨j, hj, hl, hjname, hptr⟩ := h.listed k hk hclear
      refine ⟨j, hj, ⟨hl, fun hji => hsame ?_⟩, hjname, hptr⟩
      rw [hji] at hptr
      exact hptr.symm

lemma place_dropHead (hhead : d.listHead < c.listSize) :
    place c (dropHead c d) k = place c d (k + 1) := by
  have hsize : 0 < c.listSize := by omega
  have hnext : (dropHead c d).listHead = next c.listSize d.listHead := rfl
  rw [place, place, hnext, next_eq hhead, slot_slot, Nat.add_comm]

/-- The first entry leaves the list, and with it the slots that point to it. -/
theorem InvOn.dropHead (h : InvOn c d live) (hpos : d.listNentries ≠ 0) {live' : ℕ → Prop} (hlive : ∀ j, live' j → live j)
    (hfirst : ∀ j < c.hashSize, live' j → (d.hashtable j).hostname ≠ clearedHostname →
      (d.hashtable j).hostname ≠ d.namelist d.listHead)
    (hlisted : ∀ j < c.hashSize, live j → (d.hashtable j).pointer ≠ d.listHead → live' j) :
    InvOn c (dropHead c d) live' := by
  have hle := h.nentries_le
  have hhead : d.listHead < c.listSize := h.head_lt (by omega)
  have hplace : ∀ k, place c (Tracker.dropHead c d) k = place c d (k + 1) := fun k => place_dropHead hhead
  have hzero : place c d 0 = d.listHead := slot_zero hhead
  have hn : (Tracker.dropHead c d).listNentries = d.listNentries - 1 := rfl
  refine ⟨by omega, fun _ => next_lt hhead, fun j hj hl => h.used j hj (hlive j hl),
    fun j hj hl => h.path j hj (hlive j hl), fun j hj l hl hlj hll => h.unique j hj l hl (hlive j hlj) (hlive l hll),
    ?_, ?_⟩
  · intro j hj hl hclear
    obtain ⟨k, hk, hptr, hkname⟩ := h.current j hj (hlive j hl) hclear
    cases k with
    | zero =>
      rw [hzero] at hkname
      exact absurd hkname.symm (hfirst j hj hl hclear)
    | succ k => exact ⟨k, by omega, by rw [hplace]; exact hptr, by rw [hplace]; exact hkname⟩
  · intro k hk hclear
    rw [hplace] at hclear ⊢
    obtain ⟨j, hj, hl, hjname, hptr⟩ := h.listed (k + 1) (by omega) hclear
    refine ⟨j, hj, hlisted j hj hl fun hsame => ?_, hjname, hptr⟩
    have hplaces : place c d (k + 1) = place c d 0 := by rw [← hptr, hsame, hzero]
    have heq := place_inj hle (show k + 1 < d.listNentries by omega) (by omega) hplaces
    omega

/-- The marks of slots that do not count can change, as long as no path comes to a new NULL. -/
theorem InvOn.setPointer (h : InvOn c d live) (hi : ¬live i) {pointer : ℕ}
    (hpath : pointer ≠ hashPointerNull ∨ Null d (next c.hashSize i)) : InvOn c (setPointer d i pointer) live := by
  have hne : ∀ j, live j → (Tracker.setPointer d i pointer).hashtable j = d.hashtable j := fun j hj =>
    setEntry_of_ne _ fun hji => hi (hji ▸ hj)
  have hlist : (Tracker.setPointer d i pointer).namelist = d.namelist := rfl
  have hplace : ∀ k, place c (Tracker.setPointer d i pointer) k = place c d k := fun _ => rfl
  have hnull : ∀ m, Null (Tracker.setPointer d i pointer) m → Null d m ∨ m = i ∧ pointer = hashPointerNull := by
    intro m hm
    by_cases hmi : m = i
    · subst hmi
      exact .inr ⟨rfl, by simpa [Null, Tracker.setPointer] using hm⟩
    · rw [Null, Tracker.setPointer, setEntry_of_ne _ hmi] at hm
      exact .inl hm
  refine ⟨h.nentries_le, h.head_lt, fun j hj hl => ?_, fun j hj hl => ?_, fun j hj l hlt hlj hll heq => ?_,
    fun j hj hl hclear => ?_, fun k hk hclear => ?_⟩
  · rw [hne j hl]
    exact h.used j hj hl
  · rw [hne j hl]
    have hold := h.path j hj hl
    rcases hpath with hptr | hnext
    · exact hold.mono fun m _ hm => (hnull m hm).resolve_right fun hnew => hptr hnew.2
    · exact hold.free_left (not_null_of_used (h.used j hj hl)) (fun hji : j = i => hi (hji ▸ hl))
        hnext fun m _ hm => (hnull m hm).imp_right And.left
  · rw [hne j hlj, hne l hll] at heq
    exact h.unique j hj l hlt hlj hll heq
  · rw [hne j hl] at hclear ⊢
    exact h.current j hj hl hclear
  · obtain ⟨j, hj, hl, hjname, hptr⟩ := h.listed k hk hclear
    exact ⟨j, hj, hl, by rw [hne j hl, hjname]; rfl, by rw [hne j hl, hptr]; rfl⟩

lemma InvOn.congr (h : InvOn c d live) {live' : ℕ → Prop} (heq : ∀ j < c.hashSize, live j ↔ live' j) :
    InvOn c d live' where
  nentries_le := h.nentries_le
  head_lt := h.head_lt
  used j hj hl := h.used j hj ((heq j hj).2 hl)
  path j hj hl := h.path j hj ((heq j hj).2 hl)
  unique j hj l hlt hlj hll := h.unique j hj l hlt ((heq j hj).2 hlj) ((heq l hlt).2 hll)
  current j hj hl := h.current j hj ((heq j hj).2 hl)
  listed k hk hclear := by
    obtain ⟨j, hj, hl, hrest⟩ := h.listed k hk hclear
    exact ⟨j, hj, (heq j hj).1 hl, hrest⟩

end CredaCash.Tracker
