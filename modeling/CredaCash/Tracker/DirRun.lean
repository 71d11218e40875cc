import CredaCash.Tracker.DirSteps

/-! Runs of the directory: as long as no name takes the last NULL slot, every operation ends and the table finds the
names of the list. -/

namespace CredaCash.Tracker
open Probing

variable {c : Config} {d d' : Dir} {name : Hostname} {i j k fuel : ℕ}

/-- A name that is not in the table would go into the only NULL slot, past slots that are all in use. -/
def TakesLastNull (c : Config) (d : Dir) (name : Hostname) : Prop :=
  d.listNentries ≠ c.listSize ∧ (∀ i < c.hashSize, (d.hashtable i).Used → (d.hashtable i).hostname ≠ name) ∧
  ∃ k < c.hashSize, (∀ l < k, (d.hashtable (slot c.hashSize (hashIndex c name) l)).Used) ∧
    ∀ i < c.hashSize, Null d i ↔ i = slot c.hashSize (hashIndex c name) k

instance : Decidable (TakesLastNull c d name) := by
  unfold TakesLastNull
  infer_instance

/-- An event that neither adds the name whose bytes stand for a cleared one nor takes the last NULL slot. -/
def Harmless (c : Config) (d : Dir) : Event → Prop
  | .add namestr => ∀ name ∈ nameToBinary namestr, name ≠ clearedHostname ∧ ¬TakesLastNull c d name
  | _ => True

instance (c : Config) (d : Dir) : ∀ e, Decidable (Harmless c d e)
  | .add _ => by
    unfold Harmless
    infer_instance
  | .expireHead => inferInstanceAs (Decidable True)
  | .closePeriod => inferInstanceAs (Decidable True)

/-- What holds of the table and the list in a run of harmless events. -/
structure Sound (c : Config) (d : Dir) : Prop where
  inv : Inv c d
  null : ∃ i < c.hashSize, Null d i
  named : ∀ i < c.hashSize, (d.hashtable i).Used → (d.hashtable i).hostname ≠ clearedHostname

theorem Sound.init (c : Config) : Sound c Dir.init where
  inv := Inv.init c
  null := ⟨0, hash_pos c, rfl⟩
  named _ _ h := absurd rfl h.1

section Add

/-- A name that the probing does not find comes in at the end of the list. -/
lemma Inv.addNew (h : Inv c d) (hroom : d.listNentries ≠ c.listSize)
    (hloop : addLoop c d name fuel (hashIndex c name) none = some (.free i)) :
    Inv c (addList c d name i) ∧ (∀ j, j ≠ i → Null d j → Null (addList c d name i) j) ∧
    ∀ j, ((addList c d name i).hashtable j).Used →
      ((addList c d name i).hashtable j).hostname = name ∨
      ((addList c d name i).hashtable j).hostname = (d.hashtable j).hostname ∧ (d.hashtable j).Used := by
  obtain ⟨hi, hunused, hpath, hnew, -⟩ := h.addLoop_free hloop
  have hne : ∀ j, j ≠ i → (addList c d name i).hashtable j = d.hashtable j := fun j hj => setEntry_of_ne _ hj
  refine ⟨InvOn.addList h hroom hi (fun j _ => ⟨fun hu => ⟨hu, fun hji => hunused (hji ▸ hu)⟩, And.left⟩) hpath hnew,
    fun j hj hnull => by rwa [Null, hne j hj], fun j hu => ?_⟩
  by_cases hji : j = i
  · subst hji
    exact .inl (by simp [addList])
  · rw [hne j hji] at hu ⊢
    exact .inr ⟨rfl, hu⟩

/-- In every state of a run, whatever the events, an `Add` that ends keeps the table and the list in agreement. -/
theorem Inv.add (h : Inv c d) {namestr : List UInt8} {r : ℤ} (hadd : add c d fuel namestr = some (r, d')) :
    Inv c d' := by
  unfold Tracker.add at hadd
  split at hadd
  · cases hadd
    exact h
  · split at hadd
    · cases hadd
      exact h
    · rename_i hroom
      obtain ⟨probe, hloop, heq⟩ := Option.map_eq_some_iff.1 hadd
      cases probe with
      | found i =>
        obtain ⟨hi, hu, hname⟩ := addLoop_found hloop
        have hinv := (h.update hroom hi hu hname).1
        dsimp only at heq
        rwa [heq] at hinv
      | free i =>
        cases heq
        exact (h.addNew hroom hloop).1

/-- A harmless `Add` leaves a NULL slot. -/
lemma Sound.add (h : Sound c d) {namestr : List UInt8} (hharmless : Harmless c d (.add namestr)) {r : ℤ}
    (hadd : Tracker.add c d fuel namestr = some (r, d')) : Sound c d' := by
  have hinv := h.inv.add hadd
  unfold Tracker.add at hadd
  split at hadd
  · cases hadd
    exact h
  · rename_i name hname
    obtain ⟨hclear, hlast⟩ := hharmless name hname
    split at hadd
    · cases hadd
      exact h
    · rename_i hroom
      obtain ⟨q, hq, hnull⟩ := h.null
      obtain ⟨probe, hloop, heq⟩ := Option.map_eq_some_iff.1 hadd
      cases probe with
      | found i =>
        obtain ⟨hi, hu, hname⟩ := addLoop_found hloop
        obtain ⟨-, hnull', hnames⟩ := h.inv.update hroom hi hu hname
        dsimp only at heq
        rw [heq] at hnull' hnames
        refine ⟨hinv, ⟨q, hq, hnull' q hnull⟩, fun j hj hu' => ?_⟩
        obtain ⟨hsame, huj⟩ := hnames j hu'
        rw [hsame]
        exact h.named j hj huj
      | free i =>
        cases heq
        obtain ⟨-, hnull', hnames⟩ := h.inv.addNew hroom hloop
        obtain ⟨hi, -, -, hnew, hlastNull⟩ := h.inv.addLoop_free hloop
        refine ⟨hinv, ?_, fun j hj hu => ?_⟩
        · by_contra hnone
          have honly : ∀ j < c.hashSize, Null d j → j = i := fun j hj hjnull => by
            by_contra hji
            exact hnone ⟨j, hj, hnull' j hji hjnull⟩
          obtain rfl := honly q hq hnull
          obtain ⟨k, hk, hslot, hused⟩ := hlastNull hnull
          refine hlast ⟨hroom, hnew, k, hk, hused, fun j hj => ⟨fun hjnull => ?_, fun hjslot => ?_⟩⟩
          · rw [← hslot]
            exact honly j hj hjnull
          · rw [hjslot, ← hslot]
            exact hnull
        · rcases hnames j hu with hj' | ⟨hj', huj⟩
          · rw [hj']
            exact hclear
          · rw [hj']
            exact h.named j hj huj

/-- With a NULL slot left every `Add` ends. -/
lemma add_isSome (hnull : ∃ i < c.hashSize, Null d i) (hfuel : c.hashSize ≤ fuel) (namestr : List UInt8) :
    (add c d fuel namestr).isSome := by
  unfold add
  split
  · rfl
  · rename_i name _
    split
    · rfl
    · obtain ⟨i, hi, hnull⟩ := hnull
      obtain ⟨k, hk, hslot⟩ := exists_slot (hashIndex_lt c name) hi
      have hloop := @addLoop_isSome c d name k fuel 0 none
        (show k < fuel by omega) (by rw [Nat.zero_add, hslot]; exact hnull)
      rw [slot_zero (hashIndex_lt c name)] at hloop
      rwa [Option.isSome_map]

end Add

lemma Inv.closePeriod (h : Inv c d) : Inv c (closePeriod d) :=
  ⟨h.nentries_le, h.head_lt, h.used, h.path, h.unique, h.current, h.listed⟩

/-- In a run of any events that end, the table and the list agree. -/
theorem Inv.run {es : List Event} (hrun : Machine.run (Tracker.step c fuel) Dir.init es = some d) : Inv c d := by
  refine Machine.run_invariant (fun s e s' hs hstep => ?_) (Inv.init c) hrun
  cases e with
  | add namestr =>
    obtain ⟨⟨r, d''⟩, hadd, rfl⟩ := Option.map_eq_some_iff.1 hstep
    exact hs.add hadd
  | expireHead => exact (hs.expireHead hstep).1
  | closePeriod =>
    cases hstep
    exact hs.closePeriod

/-- What one event leaves. -/
theorem Sound.step {e : Event} (h : Sound c d) (hharmless : Harmless c d e) (hstep : step c fuel d e = some d') :
    Sound c d' := by
  cases e with
  | add namestr =>
    obtain ⟨⟨r, d''⟩, hadd, rfl⟩ := Option.map_eq_some_iff.1 hstep
    exact h.add hharmless hadd
  | expireHead =>
    obtain ⟨hinv, hfrees⟩ := h.inv.expireHead hstep
    obtain ⟨q, hq, hnull⟩ := h.null
    refine ⟨hinv, ⟨q, hq, hfrees.null q hnull⟩, fun j hj hu => ?_⟩
    have heq := hfrees.used j hu
    rw [heq] at hu ⊢
    exact h.named j hj hu
  | closePeriod =>
    cases hstep
    exact ⟨h.inv.closePeriod, h.null, h.named⟩

/-- With a NULL slot left every event ends. -/
theorem Sound.step_isSome (h : Sound c d) (hfuel : c.hashSize ≤ fuel) (e : Event) :
    (Tracker.step c fuel d e).isSome := by
  cases e with
  | add namestr => exact (Option.isSome_map ..).trans (add_isSome h.null hfuel namestr)
  | expireHead => exact expireHead_isSome h.null hfuel
  | closePeriod => rfl

/-- A hash table that is correct for its list: the operations end, each name has its place, and there is room for new
names. -/
structure Correct (c : Config) (fuel : ℕ) (d : Dir) : Prop where
  ends : ∀ e, (step c fuel d e).isSome
  find_ends : ∀ name, (find2 c d fuel name (hashIndex c name)).isSome
  once : ∀ k < d.listNentries, ∀ j < d.listNentries, d.namelist (place c d k) = d.namelist (place c d j) →
    d.namelist (place c d k) ≠ clearedHostname → k = j
  found : ∀ k < d.listNentries, d.namelist (place c d k) ≠ clearedHostname →
    ∃ i < c.hashSize, find2 c d fuel (d.namelist (place c d k)) (hashIndex c (d.namelist (place c d k))) = some (some i) ∧
      (d.hashtable i).Used ∧ (d.hashtable i).pointer = place c d k ∧
      ∀ j < c.hashSize, (d.hashtable j).Used → (d.hashtable j).hostname = d.namelist (place c d k) → j = i
  adds : ∀ namestr, ∀ name ∈ nameToBinary namestr,
    (∀ k < d.listNentries, d.namelist (place c d k) = name → name = clearedHostname) → d.listNentries ≠ c.listSize →
      ∃ d', add c d fuel namestr = some ((c.expire * secondsPerExpireCount : ℤ), d') ∧
        d'.listNentries = d.listNentries + 1 ∧ d'.namelist (place c d' d.listNentries) = name

/-- The list names of the table's agreement with the list are distinct. -/
lemma Inv.once (h : Inv c d) (hk : k < d.listNentries) (hj : j < d.listNentries)
    (heq : d.namelist (place c d k) = d.namelist (place c d j)) (hclear : d.namelist (place c d k) ≠ clearedHostname) :
    k = j := by
  obtain ⟨s, hs, hus, hnames, hptrs⟩ := h.listed k hk hclear
  obtain ⟨t, ht, hut, hnamet, hptrt⟩ := h.listed j hj (by rwa [← heq])
  obtain rfl := h.unique s hs t ht hus hut (hnames.trans (heq.trans hnamet.symm))
  exact place_inj h.nentries_le hk hj (hptrs.symm.trans hptrt)

theorem Sound.correct (h : Sound c d) (hfuel : c.hashSize ≤ fuel) : Correct c fuel d where
  ends := h.step_isSome hfuel
  find_ends name := by
    obtain ⟨q, hq, hnull⟩ := h.null
    exact (Option.isSome_map ..).trans (scan_isSome (hashIndex_lt c name) hq (.inl hnull) hfuel)
  once _ hk _ hj heq hclear := h.inv.once hk hj heq hclear
  found k hk hclear := by
    obtain ⟨i, hi, hu, hname, hptr⟩ := h.inv.listed k hk hclear
    exact ⟨i, hi, h.inv.find2_eq hi hu hname hfuel, hu, hptr, fun j hj huj hjname =>
      h.inv.unique j hj i hi huj hu (hjname.trans hname.symm)⟩
  adds namestr name hname hnew hroom := by
    have hends := add_isSome h.null hfuel namestr
    unfold Tracker.add at hends ⊢
    split at hends
    · rename_i hnone
      rw [hnone] at hname
      cases hname
    · rename_i name' hname'
      obtain rfl : name' = name := Option.some.inj (hname'.symm.trans hname)
      rw [if_neg hroom, Option.isSome_map] at hends
      obtain ⟨probe, hloop⟩ := Option.isSome_iff_exists.1 hends
      rw [if_neg hroom, hloop, Option.map_some]
      cases probe with
      | found i =>
        obtain ⟨hi, hu, hname⟩ := addLoop_found hloop
        have hclear := h.named i hi hu
        obtain ⟨k, hk, -, hlist⟩ := h.inv.current i hi hu hclear
        exact absurd (hname.trans (hnew k hk (hlist.trans hname))) hclear
      | free i =>
        refine ⟨addList c d name' i, by simp, rfl, ?_⟩
        have hle := h.inv.nentries_le
        have hlt : d.listNentries < c.listSize := by omega
        have htail := tailPlace_eq (h.inv.head_lt (by omega)) hlt
        have hplace : place c (addList c d name' i) d.listNentries = tailPlace c d := htail.symm
        rw [hplace]
        exact Function.update_self ..

/-- In a run in which no event adds the name that stands for a cleared one or takes the last NULL slot, every operation
ends and the directory is a correct table of its list after each of them. -/
theorem directory_run {es : List Event} (hfuel : c.hashSize ≤ fuel)
    (hmeets : Machine.Meets (step c fuel) (Harmless c) Dir.init es) :
    ∃ d, Machine.run (step c fuel) Dir.init es = some d ∧ Correct c fuel d := by
  have hstep : ∀ d e, Sound c d → Harmless c d e → ∃ d', step c fuel d e = some d' ∧ Sound c d' := fun d e h hharmless => by
    obtain ⟨d', hd'⟩ := Option.isSome_iff_exists.1 (h.step_isSome hfuel e)
    exact ⟨d', hd', h.step hharmless hd'⟩
  obtain ⟨d, hrun, h⟩ := Machine.run_total hstep (Sound.init c) hmeets
  exact ⟨d, hrun, h.correct hfuel⟩

/-- Once the last NULL slot is taken, adding a new name never ends while the list has room. -/
theorem add_eq_none {namestr : List UInt8} (hname : nameToBinary namestr = some name)
    (hroom : d.listNentries ≠ c.listSize) (hnull : ∀ i < c.hashSize, ¬Null d i)
    (hnew : ∀ i < c.hashSize, (d.hashtable i).Used → (d.hashtable i).hostname ≠ name) (fuel : ℕ) :
    add c d fuel namestr = none := by
  unfold add
  rw [hname]
  dsimp only
  rw [if_neg hroom, addLoop_eq_none (fun i hi => ⟨hnull i hi, fun hu => hnew i hi hu.1 hu.2⟩) (hashIndex_lt c name),
    Option.map_none]

/-- A list of two places and a table of three slots, with the first byte of a name for its hash. -/
def smallConfig : Config where
  listSize := 2
  hashSize := 3
  siphash name := (name.bytes.headD 0).toNat
  expire := 30
  list_lt_hash := by decide
  pointers_fit := by decide

/-- The name with one first character and `a` for all others. -/
def smallName (first : UInt8) : List UInt8 := first :: List.replicate 55 97

/-- Two names come in, one goes and one more comes in, which leaves a NULL slot all the time. -/
theorem directory_run_small : ∃ d, Machine.run (step smallConfig 3) Dir.init
    [.add (smallName 100), .expireHead, .add (smallName 99)] = some d ∧ Correct smallConfig 3 d :=
  directory_run (by decide) (by decide +kernel)

/-- The third name takes the last NULL slot; when the second has expired there is room again, and the next `Add`
probes for ever. -/
theorem add_hangs : ∃ d, Machine.run (step smallConfig 3) Dir.init
    [.add (smallName 100), .add (smallName 99), .expireHead, .add (smallName 98), .expireHead] = some d ∧
    d.listNentries = 1 ∧ ¬∃ fuel, (step smallConfig fuel d (.add (smallName 103))).isSome := by
  refine ⟨(Machine.run (step smallConfig 3) Dir.init
    [.add (smallName 100), .add (smallName 99), .expireHead, .add (smallName 98), .expireHead]).get (by decide +kernel),
    (Option.some_get _).symm, by decide +kernel, ?_⟩
  rintro ⟨fuel, hends⟩
  have hname : nameToBinary (smallName 103) = some ((nameToBinary (smallName 103)).get (by decide +kernel)) :=
    (Option.some_get _).symm
  rw [step, add_eq_none hname (by decide +kernel) (by decide +kernel) (by decide +kernel)] at hends
  cases hends

end CredaCash.Tracker
