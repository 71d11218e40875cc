import CredaCash.Chain.ConfirmBound

/-! No serial number is spent twice along a chain through the last indelible block, however the threads that enter
blocks are interleaved. -/

namespace CredaCash.Chain
open Wire Checks

/-- A serial number is not spent by the blocks of a chain, if the chain passes through the last indelible block. -/
def SharedState.Safe (sh : SharedState) (w : SpendWorld) (c : ScannedChain) (serialnum : ℕ) : Prop :=
  sh.indelible.Under c → serialnum ∉ c.spent w.env.toEnv

/-- `Temp_Serials` has the serial numbers of the block of a chain until it is pruned. -/
def SharedState.HasRows (sh : SharedState) (c : ScannedChain) : Prop :=
  sh.Unpruned c.level → ∀ t ∈ c.tip.txs, ∀ s ∈ t.serialnums,
    { serialnum := s, blockp := c.tip.block.bufp, level := c.level } ∈ sh.temp

/-- The serial numbers of the persistent database and of `Temp_Serials`. -/
structure SpentOk (w : SpendWorld) (sh : SharedState) : Prop where
  spent : ∀ s ∈ sh.indelible.spent w.env.toEnv, sh.db.Spent s
  rows : ∀ c ∈ sh.chains, sh.startupPruneLevel < c.level → sh.HasRows c
  nodup : ∀ c ∈ sh.chains, sh.indelible.Under c → (c.spent w.env.toEnv).Nodup

/-- The serial numbers that a thread has inserted for its block. -/
structure InsertedOk (w : SpendWorld) (thread : BlockThread) (sh : SharedState) (prior : ScannedChain)
    (serialnums : List ℕ) : Prop where
  rows : ∀ s ∈ serialnums, { serialnum := s, blockp := thread.blockp } ∈ sh.temp
  nodup : serialnums.Nodup
  safe : ∀ s ∈ serialnums, sh.Safe w prior s

/-- Each serial number is checked before it is inserted, unless it is known to be safe. -/
def OpsOk (safe : ℕ → Prop) : List SerialOp → Prop
  | [] => True
  | .check s :: ops => OpsOk (fun x => x = s ∨ safe x) ops
  | .insert s :: ops => safe s ∧ OpsOk safe ops

/-- The serial numbers that are still to be inserted. -/
def inserts : List SerialOp → List ℕ
  | [] => []
  | .check _ :: ops => inserts ops
  | .insert s :: ops => s :: inserts ops

/-- The blocks between two blocks of a chain stay in `Temp_Serials` while the upper one is not indelible, if the other
blocks that may become indelible are few. -/
def FewBetween (u m prior : ScannedChain) : Prop :=
  ∀ d : ScannedChain, u.Under d → d.Under prior → d.Under m ∨ m.Under d →
    d.level ≤ u.level + (blockPruneRounds + 2) * d.tip.block.nwitnesses + 1

/-- How far a check has come: after the query of the persistent database, no block up to the one that was the last
indelible one then spends the serial number, and after some rows of `Temp_Serials`, no block does that has them. -/
def CheckProgress.Ok (w : SpendWorld) (sh : SharedState) (prior : ScannedChain) (s : ℕ) : CheckProgress → Prop
  | .start => True
  | .snapshot lastIndelible => lastIndelible.Under sh.indelible ∧ sh.startupPruneLevel ≤ lastIndelible.level
  | .temp lastIndelible lastBlockp => ∃ u m : ScannedChain, lastIndelible.Under u ∧
      sh.startupPruneLevel ≤ lastIndelible.level ∧ u.Under sh.indelible ∧ m.Under sh.marked ∧
      s ∉ u.spent w.env.toEnv ∧ FewBetween u m prior ∧
      ∀ d : ScannedChain, d.Under prior → u.level < d.level → s ∈ d.tip.spent w.env.toEnv → sh.indelible.Under prior →
        ∀ p ∈ lastBlockp, w.keyOrder p < w.keyOrder d.tip.block.bufp

/-- A thread that checks and inserts the serial numbers of a transaction. -/
structure SpendingOk (w : SpendWorld) (thread : BlockThread) (sh : SharedState) (task : BlockTask) (tx : ScannedTx)
    (ops : List SerialOp) (progress : CheckProgress) : Prop where
  inserted : ∃ done, done ++ inserts ops = tx.serialnums ∧
    InsertedOk w thread sh task.prior (task.txs.flatMap (·.serialnums) ++ done)
  checked : OpsOk (sh.Safe w task.prior) ops
  progress : ∀ s rest, ops = .check s :: rest → progress.Ok w sh task.prior s

/-- What holds of serial numbers where a thread is. -/
def ThreadPhase.SpendsOk (w : SpendWorld) (thread : BlockThread) (sh : SharedState) : ThreadPhase → Prop
  | .idle => True
  | .scan task => InsertedOk w thread sh task.prior (task.txs.flatMap (·.serialnums))
  | .spend task tx ops progress => SpendingOk w thread sh task tx ops progress
  | .updated c => sh.HasRows c ∧ (sh.indelible.Under c → (c.spent w.env.toEnv).Nodup)
  | .inserted _ => True
  | .waiting _ _ => True
  | .writing _ db => ∀ s ∈ sh.marked.spent w.env.toEnv, db.Spent s
  | .committed => ∀ s ∈ sh.marked.spent w.env.toEnv, sh.db.Spent s
  | .confirmed => True
  | .pruning _ => True

section Ops
variable {safe safe' : ℕ → Prop} {ops : List SerialOp} {serialnums : List ℕ}

lemma OpsOk.mono (h : OpsOk safe ops) (hsafe : ∀ s, safe s → safe' s) : OpsOk safe' ops := by
  induction ops generalizing safe safe' with
  | nil => trivial
  | cons op ops ih =>
    cases op with
    | check s => exact ih h fun x hx => hx.imp_right (hsafe x)
    | insert s => exact ⟨hsafe s h.1, ih h.2 hsafe⟩

lemma inserts_append (ops ops' : List SerialOp) : inserts (ops ++ ops') = inserts ops ++ inserts ops' := by
  induction ops with
  | nil => rfl
  | cons op ops ih => cases op <;> simp [inserts, ih]

lemma inserts_check (serialnums : List ℕ) : inserts (serialnums.map .check) = [] := by
  induction serialnums with
  | nil => rfl
  | cons s serialnums ih => exact ih

lemma inserts_insert (serialnums : List ℕ) : inserts (serialnums.map .insert) = serialnums := by
  induction serialnums with
  | nil => rfl
  | cons s serialnums ih => exact congrArg (s :: ·) ih

/-- A thread inserts the serial numbers of a transaction. -/
lemma inserts_ops (thread : BlockThread) (serialnums : List ℕ) : inserts (thread.ops serialnums) = serialnums := by
  cases thread with
  | process =>
    induction serialnums with
    | nil => rfl
    | cons s serialnums ih => exact congrArg (s :: ·) ih
  | witness => exact (inserts_append ..).trans (by rw [inserts_check, inserts_insert, List.nil_append])

lemma opsOk_insert (h : ∀ s ∈ serialnums, safe s) : OpsOk safe (serialnums.map .insert) := by
  induction serialnums with
  | nil => trivial
  | cons s serialnums ih => exact ⟨h s (List.mem_cons_self ..), ih fun x hx => h x (List.mem_cons_of_mem _ hx)⟩

lemma opsOk_check (h : ∀ s ∈ inserts ops, s ∈ serialnums ∨ safe s)
    (hops : ∀ safe : ℕ → Prop, (∀ s ∈ inserts ops, safe s) → OpsOk safe ops) :
    OpsOk safe (serialnums.map .check ++ ops) := by
  induction serialnums generalizing safe with
  | nil => exact hops safe fun s hs => (h s hs).resolve_left List.not_mem_nil
  | cons s serialnums ih =>
    refine ih fun x hx => ?_
    rcases h x hx with hmem | hsafe
    · rcases List.mem_cons.1 hmem with rfl | hmem
      · exact .inr (.inl rfl)
      · exact .inl hmem
    · exact .inr (.inr hsafe)

/-- A thread checks each serial number before it inserts it. -/
lemma opsOk_ops (thread : BlockThread) (serialnums : List ℕ) : OpsOk safe (thread.ops serialnums) := by
  cases thread with
  | process =>
    induction serialnums generalizing safe with
    | nil => trivial
    | cons s serialnums ih => exact ⟨.inl rfl, ih⟩
  | witness =>
    refine opsOk_check (fun s hs => .inl ?_) fun safe' h => opsOk_insert fun s hs => h s ?_
    · rwa [inserts_insert] at hs
    · rwa [inserts_insert]

end Ops

section Pages
variable {w : SpendWorld} {temp : List TempSerialnum} {s p n : ℕ} {lastBlockp : Option ℕ}

lemma mem_tempSerialnumSelect : p ∈ tempSerialnumSelect w.keyOrder temp s lastBlockp ↔
    (∀ q ∈ lastBlockp, w.keyOrder q < w.keyOrder p) ∧ ∃ level, ⟨s, p, level⟩ ∈ temp := by
  simp only [tempSerialnumSelect, List.mem_insertionSort, List.mem_map, List.mem_filter, Bool.and_eq_true,
    decide_eq_true_eq, Option.all_eq_true]
  constructor
  · rintro ⟨⟨s', p', level⟩, ⟨hrow, rfl, hlast⟩, rfl⟩
    exact ⟨hlast, level, hrow⟩
  · rintro ⟨hlast, level, hrow⟩
    exact ⟨⟨s, p, level⟩, ⟨hrow, rfl, hlast⟩, rfl⟩

/-- What is not in a page comes after it. -/
lemma keyOrder_lt_of_not_mem_page (hp : p ∈ tempSerialnumSelect w.keyOrder temp s lastBlockp)
    (hnot : p ∉ (tempSerialnumSelect w.keyOrder temp s lastBlockp).take n) :
    ∀ q ∈ ((tempSerialnumSelect w.keyOrder temp s lastBlockp).take n).getLast?, w.keyOrder q < w.keyOrder p := by
  intro q hq
  have hsorted : (tempSerialnumSelect w.keyOrder temp s lastBlockp).Pairwise
      fun p q => w.keyOrder p ≤ w.keyOrder q := List.pairwise_insertionSort _ _
  generalize tempSerialnumSelect w.keyOrder temp s lastBlockp = page at hp hnot hq hsorted
  rw [← List.take_append_drop n page] at hp hsorted
  have hdrop := (List.mem_append.1 hp).resolve_left hnot
  have hmem : q ∈ page.take n := List.mem_of_getLast? hq
  refine lt_of_le_of_ne ((List.pairwise_append.1 hsorted).2.2 q hmem p hdrop) fun heq => ?_
  obtain rfl := w.keyOrder.injective heq
  exact hnot hmem

end Pages

section Check
variable {w : SpendWorld} {sh : SharedState} {prior d u m lastIndelible : ScannedChain} {s : ℕ}

/-- Few blocks of a chain can become indelible before its tip. -/
lemma ConfirmOk.fewBetween {st : ThreadState} (h : ConfirmOk w st) (hprior : prior ∈ st.shared.chains) :
    FewBetween st.shared.indelible st.shared.marked prior := by
  rintro d hindelible hd hmarked
  have hgrown := ((h.chains.grown prior hprior).under hd).1
  have hparams := hgrown.handed
  have hpos := hparams.pos
  have hnskip := hparams.nskip
  change d.level ≤ st.shared.indelible.level + 7 * d.tip.block.nwitnesses + 1
  rcases hmarked with hmarked | hmarked
  · have hbatch := h.chains.batch d hindelible hmarked
    unfold ScannedChain.nskip at hbatch
    omega
  · have hmem := h.chains.closed prior hprior d hd (h.chains.startup.trans (hgrown.level_le hindelible))
    have hdeep := h.deep d hmem hmarked
    have hbatch := h.chains.batch _ h.chains.indelible (.refl _)
    have hle := (hgrown.under hmarked).2
    unfold ScannedChain.nskip at hdeep hbatch hle
    omega

/-- A block above the last indelible one of a check is found on the chain. -/
lemma blockInChain_of_under {db : PersistentDb} (hgrown : w.Grown db prior) (hd : d.Under prior) {level : ℕ}
    (hlevel : level < d.level) :
    blockInChain d.tip.block.bufp level prior.toBlockChain.blocks = true := by
  obtain ⟨above, habove⟩ := hd
  rw [ScannedChain.toBlockChain_blocks, ← habove, List.map_append]
  refine blockInChain_eq_true (fun b hb => ?_) rfl
  obtain ⟨x, hx, rfl⟩ := List.mem_map.1 hb
  obtain ⟨above', below, rfl⟩ := List.append_of_mem hx
  have hunder : ScannedChain.Under ⟨x, below ++ d.blocks⟩ prior :=
    ⟨above', by rw [← habove, List.append_assoc]; rfl⟩
  exact hlevel.trans_le ((hgrown.under hunder).1.level_le ⟨x :: below, rfl⟩)

/-- A block of a chain that spends a serial number has its row, if it is above the last block that was indelible when
the persistent database was queried. -/
lemma SpentOk.mem_select (hchains : ChainsOk w sh) (hspent : SpentOk w sh) (hprior : prior ∈ sh.chains)
    (hunder : sh.indelible.Under prior) (hstartup : sh.startupPruneLevel ≤ u.level) (hu : u.Under sh.indelible)
    (hm : m.Under sh.marked) (hfew : FewBetween u m prior) (hd : d.Under prior) (hlevel : u.level < d.level)
    (hs : s ∈ d.tip.spent w.env.toEnv) {lastBlockp : Option ℕ}
    (hlast : ∀ p ∈ lastBlockp, w.keyOrder p < w.keyOrder d.tip.block.bufp) :
    d.tip.block.bufp ∈ tempSerialnumSelect w.keyOrder sh.temp s lastBlockp := by
  have hgrown := hchains.grown prior hprior
  have hmem : d ∈ sh.chains := hchains.closed prior hprior d hd (hstartup.trans hlevel.le)
  have hpruned : sh.Unpruned d.level := by
    rintro d₀ hd₀ -
    change Nat.max (Nat.max (d₀.level - (blockPruneRounds + 2) * d₀.tip.block.nwitnesses) 0) sh.startupPruneLevel ≤ _
    refine max_le (max_le ?_ (Nat.zero_le _)) (hstartup.trans hlevel.le)
    rcases hd₀.total hu with hbelow | habove
    · have := (hgrown.under (hu.trans hunder)).1.level_le hbelow
      omega
    · have := hfew d₀ habove (hd₀.trans hunder) ((hd₀.trans hchains.indelible).total hm)
      omega
  obtain ⟨t, ht, hst⟩ := List.mem_flatMap.1 hs
  have hserial := (((hchains.grown d hmem).tip.2 t ht).spent_sublist).subset hst
  exact mem_tempSerialnumSelect.2
    ⟨hlast, d.level, hspent.rows d hmem (hstartup.trans_lt hlevel) hpruned t ht s hserial⟩

/-- When the last page gives no reason to reject a serial number, it is safe. -/
lemma SpentOk.safe_of_free (hchains : ChainsOk w sh) (hspent : SpentOk w sh) (hprior : prior ∈ sh.chains)
    {thread : BlockThread} {lastBlockp : Option ℕ}
    (hprogress : (CheckProgress.temp lastIndelible lastBlockp).Ok w sh prior s)
    (hfree : PageFree thread prior lastIndelible (tempSerialnumSelect w.keyOrder sh.temp s lastBlockp)) :
    sh.Safe w prior s := by
  intro hunder hs
  obtain ⟨u, m, hlu, hstartup, hu, hm, hsu, hfew, hlast⟩ := hprogress
  have hgrown := hchains.grown prior hprior
  have hgu := (hgrown.under (hu.trans hunder)).1
  have hlevel_u := hgu.level_le hlu
  obtain ⟨x, hx, hsx⟩ := List.mem_flatMap.1 hs
  obtain ⟨d, hd, rfl⟩ := ScannedChain.exists_under hx
  rcases hd.total (hu.trans hunder) with hbelow | habove
  · exact hsu (ScannedChain.spent_under hbelow (List.mem_flatMap.2 ⟨d.tip, List.mem_cons_self .., hsx⟩))
  · rcases (hgrown.under hd).1.level_le habove |>.eq_or_lt with heq | hlt
    · obtain rfl := (hgrown.under hd).1.eq_of_level_le habove heq.ge
      exact hsu (List.mem_flatMap.2 ⟨u.tip, List.mem_cons_self .., hsx⟩)
    · have hmem := hspent.mem_select hchains hprior hunder (hstartup.trans hlevel_u) hu hm hfew hd hlt hsx
        (hlast d hd hlt hsx hunder)
      obtain ⟨-, hblock⟩ := hfree _ hmem
      cases (blockInChain_of_under hgrown hd (hlevel_u.trans_lt hlt)).symm.trans hblock

/-- A page that gives no reason to reject a serial number leaves only later blocks to spend it. -/
lemma SpentOk.nextPage (hchains : ChainsOk w sh) (hspent : SpentOk w sh) (hprior : prior ∈ sh.chains)
    {thread : BlockThread} {lastBlockp : Option ℕ} {n : ℕ}
    (hprogress : (CheckProgress.temp lastIndelible lastBlockp).Ok w sh prior s)
    (hfree : PageFree thread prior lastIndelible ((tempSerialnumSelect w.keyOrder sh.temp s lastBlockp).take n)) :
    (CheckProgress.temp lastIndelible
      ((tempSerialnumSelect w.keyOrder sh.temp s lastBlockp).take n).getLast?).Ok w sh prior s := by
  obtain ⟨u, m, hlu, hstartup, hu, hm, hsu, hfew, hlast⟩ := hprogress
  refine ⟨u, m, hlu, hstartup, hu, hm, hsu, hfew, fun d hd hlevel hsd hunder => ?_⟩
  have hgrown := hchains.grown _ hprior
  have hlevel_u := (hgrown.under (hu.trans hunder)).1.level_le hlu
  have hmem := hspent.mem_select hchains hprior hunder (hstartup.trans hlevel_u) hu hm hfew hd hlevel hsd
    (hlast d hd hlevel hsd hunder)
  refine keyOrder_lt_of_not_mem_page hmem fun hpage => ?_
  obtain ⟨-, hblock⟩ := hfree _ hpage
  cases (blockInChain_of_under hgrown hd (hlevel_u.trans_lt hlevel)).symm.trans hblock

end Check

section Stable
variable {w : SpendWorld} {thread : BlockThread} {sh sh' : SharedState} {prior : ScannedChain} {phase : ThreadPhase}

lemma SharedState.Safe.grow {s : ℕ} (h : sh.Safe w prior s) (hindelible : sh.indelible.Under sh'.indelible) :
    sh'.Safe w prior s := fun hunder => h (hindelible.trans hunder)

lemma SharedState.HasRows.grow {c : ScannedChain} (h : sh.HasRows c) (hgrows : sh.Grows sh') (hpos : c.level ≠ 0) :
    sh'.HasRows c := by
  rintro hunpruned t ht s hs
  refine hgrows.rows _ (h (fun d hd hstartup => ?_) t ht s hs) hpos hunpruned
  have hlevel := hunpruned d (hd.trans hgrows.indelible) (hgrows.startup.trans_le hstartup)
  rwa [SharedState.pruneLevel, hgrows.startup] at hlevel

lemma InsertedOk.stable {serialnums : List ℕ} (h : InsertedOk w thread sh prior serialnums) (hgrows : sh.Grows sh')
    (hmarkers : ∀ row ∈ sh.temp, row.blockp = thread.blockp → row.level = 0 → row ∈ sh'.temp) :
    InsertedOk w thread sh' prior serialnums :=
  ⟨fun s hs => hmarkers _ (h.rows s hs) rfl rfl, h.nodup, fun s hs => (h.safe s hs).grow hgrows.indelible⟩

lemma CheckProgress.Ok.stable {s : ℕ} {progress : CheckProgress} (h : progress.Ok w sh prior s)
    (hgrows : sh.Grows sh') : progress.Ok w sh' prior s := by
  cases progress with
  | start => trivial
  | snapshot lastIndelible => exact ⟨h.1.trans hgrows.indelible, hgrows.startup.trans_le h.2⟩
  | temp lastIndelible lastBlockp =>
    obtain ⟨u, m, hlu, hstartup, hu, hm, hsu, hfew, hlast⟩ := h
    exact ⟨u, m, hlu, hgrows.startup.trans_le hstartup, hu.trans hgrows.indelible, hm.trans hgrows.marked, hsu, hfew,
      fun d hd hlevel hs hunder => hlast d hd hlevel hs (hgrows.indelible.trans hunder)⟩

/-- What holds of serial numbers where a thread is, the steps of the other thread keep. -/
lemma ThreadPhase.SpendsOk.stable (h : phase.SpendsOk w thread sh) (hok : phase.Ok w sh) (hgrows : sh.Grows sh')
    (hspares : sh.Spares thread sh') (hlock : sh.writer = some thread ↔ phase.Locks) : phase.SpendsOk w thread sh' := by
  cases phase with
  | scan task => exact InsertedOk.stable h hgrows hspares.markers
  | spend task tx ops progress =>
    have hspending : SpendingOk w thread sh task tx ops progress := h
    obtain ⟨done, hdone, hinserted⟩ := hspending.inserted
    exact ⟨⟨done, hdone, hinserted.stable hgrows hspares.markers⟩,
      hspending.checked.mono fun s hs => hs.grow hgrows.indelible,
      fun s rest hops => (hspending.progress s rest hops).stable hgrows⟩
  | updated c =>
    obtain ⟨hgrown, p, hp, hprior⟩ := hok
    refine ⟨h.1.grow hgrows ?_, fun hunder => h.2 (hgrows.indelible.trans hunder)⟩
    rw [hgrown.level_prior hprior]
    exact Nat.succ_ne_zero _
  | writing c db =>
    obtain ⟨hmarked, -, -⟩ := hspares.kept (hlock.2 trivial)
    have hspent : ∀ s ∈ sh.marked.spent w.env.toEnv, db.Spent s := h
    exact fun s hs => hspent s (hmarked ▸ hs)
  | committed =>
    obtain ⟨hmarked, -, hdb⟩ := hspares.kept (hlock.2 trivial)
    have hspent : ∀ s ∈ sh.marked.spent w.env.toEnv, sh.db.Spent s := h
    exact fun s hs => hdb ▸ hspent s (hmarked ▸ hs)
  | _ => trivial

end Stable

section Steps
variable {w : SpendWorld} {thread : BlockThread} {sh : SharedState} {prior : ScannedChain}

lemma spent_of_isPrior {env : Env} {c : ScannedChain} (h : prior.IsPrior c) :
    c.spent env = c.tip.spent env ++ prior.spent env := by
  rw [ScannedChain.spent, h.blocks, List.flatMap_cons]
  rfl

lemma InsertedOk.sublist {serialnums part : List ℕ} (h : InsertedOk w thread sh prior serialnums)
    (hpart : part.Sublist serialnums) : InsertedOk w thread sh prior part :=
  ⟨fun s hs => h.rows s (hpart.subset hs), h.nodup.sublist hpart, fun s hs => h.safe s (hpart.subset hs)⟩

/-- A serial number that is safe is inserted once. -/
lemma InsertedOk.insert {serialnums : List ℕ} {s : ℕ} {temp : List TempSerialnum}
    (h : InsertedOk w thread sh prior serialnums) (hinsert : tempSerialnumInsert sh.temp s thread.blockp = some temp)
    (hsafe : sh.Safe w prior s) : InsertedOk w thread { sh with temp := temp } prior (serialnums ++ [s]) := by
  obtain ⟨hnew, rfl⟩ := tempSerialnumInsert_eq_some.1 hinsert
  refine ⟨fun x hx => ?_, ?_, fun x hx => ?_⟩
  · rcases List.mem_append.1 hx with hx | hx
    · exact List.mem_append_left _ (h.rows x hx)
    · exact List.mem_append_right _ (List.mem_singleton.2 (by rw [List.mem_singleton.1 hx]))
  · refine List.nodup_append.2 ⟨h.nodup, List.nodup_singleton s, fun x hx y hy heq => ?_⟩
    obtain rfl := List.mem_singleton.1 hy
    exact hnew _ (h.rows x hx) heq rfl
  · rcases List.mem_append.1 hx with hx | hx
    · exact h.safe x hx
    · exact List.mem_singleton.1 hx ▸ hsafe

/-- The rows of a block that is finished are put under its address. -/
lemma InsertedOk.hasRows {task : BlockTask} (h : InsertedOk w thread sh prior (task.txs.flatMap (·.serialnums)))
    (b : Block) : SharedState.HasRows
      { sh with temp := tempSerialnumUpdate sh.temp thread.blockp b.bufp b.level }
      ⟨⟨w.chainBlock prior.tip.block b, task.txs⟩, prior.blocks⟩ := by
  obtain ⟨hlevel, -, hbufp⟩ := w.chainBlock_wire prior.tip.block b
  rintro - t ht s hs
  refine List.mem_map.2 ⟨_, h.rows s (List.mem_flatMap.2 ⟨t, ht, hs⟩), ?_⟩
  rw [if_pos ⟨rfl, rfl⟩, ScannedChain.level, hlevel, hbufp]

/-- A block that is finished spends nothing that its chain spends. -/
lemma InsertedOk.nodup_spent (hchains : ChainsOk w sh) (hspent : SpentOk w sh) {c : ScannedChain}
    (hgrown : w.Grown sh.db c) (hp : prior.IsPrior c) (hprior : prior ∈ sh.chains)
    (h : InsertedOk w thread sh prior (c.tip.txs.flatMap (·.serialnums))) (hunder : sh.indelible.Under c) :
    (c.spent w.env.toEnv).Nodup := by
  rcases hp.under_iff.1 hunder with heq | hunder'
  · exact hspent.nodup c (heq ▸ hchains.closed _ hchains.marked _ hchains.indelible hchains.startup) hunder
  have hsub : (c.tip.spent w.env.toEnv).Sublist (c.tip.txs.flatMap (·.serialnums)) := by
    refine List.Sublist.flatMap_right _ fun t ht => ?_
    exact (hgrown.tip.2 t ht).spent_sublist
  rw [spent_of_isPrior hp]
  refine List.nodup_append.2 ⟨h.nodup.sublist hsub, hspent.nodup prior hprior hunder', fun s hs s' hs' heq => ?_⟩
  exact h.safe s (hsub.subset hs) hunder' (heq ▸ hs')

/-- A chain whose tip is indexed is spent in the persistent database. -/
lemma SpendWorld.Indexes.spent {db db' : PersistentDb} {next marked : ScannedChain} (h : w.Indexes db next.tip.block db')
    (hgrown : w.Grown db next) (hp : marked.IsPrior next) (hspent : ∀ s ∈ marked.spent w.env.toEnv, db.Spent s) :
    ∀ s ∈ next.spent w.env.toEnv, db'.Spent s := by
  obtain ⟨-, hmono, htip⟩ := h.spends hgrown
  intro s hs
  rw [spent_of_isPrior hp] at hs
  rcases List.mem_append.1 hs with hs | hs
  · exact htip s hs
  · exact hmono s (hspent s hs)

variable {sh' : SharedState} {phase phase' : ThreadPhase}

/-- What holds of serial numbers where a thread is, after its own step. -/
lemma ThreadStep.spendsOk {st : ThreadState} (hconfirm : ConfirmOk w st) (hspent : SpentOk w st.shared)
    (hok : phase.Ok w st.shared) (hphase : phase.SpendsOk w thread st.shared)
    (h : ThreadStep w thread st.shared phase sh' phase') : phase'.SpendsOk w thread sh' := by
  have hchains := hconfirm.chains
  have hgrows := h.grows hchains hok
  have hfew {prior : ScannedChain} (hprior : prior ∈ st.shared.chains) := hconfirm.fewBetween hprior
  generalize st.shared = sh at *
  have hnil (prior : ScannedChain) : InsertedOk w thread sh' prior [] :=
    ⟨fun s hs => (by cases hs), List.nodup_nil, fun s hs => by cases hs⟩
  have hstart {task : BlockTask} {tx : ScannedTx} {serialnums : List ℕ} (htx : tx.serialnums = serialnums)
      (hinserted : InsertedOk w thread sh task.prior (task.txs.flatMap (·.serialnums))) :
      SpendingOk w thread sh task tx (thread.ops serialnums) .start :=
    ⟨⟨[], by rw [inserts_ops, htx]; rfl, by rwa [List.append_nil]⟩, opsOk_ops _ _, fun _ _ _ => trivial⟩
  cases h with
  | validate prior received temp hprior hlink hlevel hword horder htemp => exact hnil prior
  | startNewBlock prior temp hold hprior htemp => exact hnil prior
  | scanTx received wire tx hreceived hnext hparse hextract hrecheck => exact hstart rfl hphase
  | @selectTx _ task obj tx args hreceived hobj hparse hkeeps =>
    refine hstart ?_ hphase
    obtain ⟨offset, hform⟩ := txFromWire_blockForm w.env.blake2s hobj hparse
    rw [scannedTx, hform, ← spends_blockForm w.hashesBody hobj tx offset]
    rfl
  | @checkSnapshot _ _ task tx s ops =>
    refine ⟨hphase.inserted, hphase.checked, fun s' rest _ => ⟨.refl _, hchains.startup⟩⟩
  | @checkPersistent _ _ task tx s ops lastIndelible hselect =>
    refine ⟨hphase.inserted, hphase.checked, fun s' rest hops => ?_⟩
    obtain ⟨hs, -⟩ := List.cons.inj hops
    obtain rfl := SerialOp.check.inj hs
    obtain ⟨hunder, hstartup⟩ := hphase.progress s ops rfl
    refine ⟨sh'.indelible, sh'.marked, hunder, hstartup, .refl _, .refl _, fun hmem => ?_, hfew hok.1.prior,
      fun d hd hlevel hsd hunder p hp => by cases hp⟩
    have hsome := hspent.spent s hmem
    rw [PersistentDb.Spent, hselect] at hsome
    cases hsome
  | @checkPage _ _ task tx s ops lastIndelible lastBlockp hmore hfree =>
    refine ⟨hphase.inserted, hphase.checked, fun s' rest hops => ?_⟩
    obtain ⟨hs, -⟩ := List.cons.inj hops
    obtain rfl := SerialOp.check.inj hs
    exact hspent.nextPage hchains hok.1.prior (hphase.progress s ops rfl) hfree
  | @checkLastPage _ _ task tx s ops lastIndelible lastBlockp hfree =>
    have hsafe := hspent.safe_of_free hchains hok.1.prior (hphase.progress s ops rfl) hfree
    refine ⟨hphase.inserted, OpsOk.mono hphase.checked fun x hx => ?_, fun _ _ _ => trivial⟩
    rcases hx with rfl | hx
    · exact hsafe
    · exact hx
  | @insert _ _ task tx s ops temp hinsert =>
    obtain ⟨done, hdone, hinserted⟩ := hphase.inserted
    obtain ⟨hsafe, hchecked⟩ := hphase.checked
    refine ⟨⟨done ++ [s], by rw [← hdone, List.append_assoc]; rfl, ?_⟩, hchecked, fun _ _ _ => trivial⟩
    rw [← List.append_assoc]
    exact hinserted.insert hinsert hsafe
  | @addTx _ _ task tx =>
    obtain ⟨done, hdone, hinserted⟩ := hphase.inserted
    obtain rfl : done = tx.serialnums := (List.append_nil done).symm.trans hdone
    change InsertedOk w thread _ task.prior ((task.txs ++ [tx]).flatMap (·.serialnums))
    rwa [List.flatMap_append, List.flatMap_singleton]
  | @skipTx _ task tx ops progress =>
    obtain ⟨done, -, hinserted⟩ := hphase.inserted
    exact hinserted.sublist (List.sublist_append_left _ done)
  | @validated _ task received hreceived htxs =>
    have htask : task.Ok w sh := hok
    refine ⟨InsertedOk.hasRows hphase received, InsertedOk.nodup_spent hchains hspent ?_ rfl htask.prior hphase⟩
    exact .block received task.txs (hchains.grown _ htask.prior) (htask.level received hreceived) htxs htask.txs
  | @finishNewBlock _ task b hreceived htxs hlevel =>
    have htask : task.Ok w sh := hok
    refine ⟨InsertedOk.hasRows hphase b, InsertedOk.nodup_spent hchains hspent ?_ rfl htask.prior hphase⟩
    exact .block b task.txs (hchains.grown _ htask.prior) hlevel htxs htask.txs
  | @beginWrite _ _ chain next db hlock hmarked hsequence hindex =>
    have hgrown := ((hchains.grown chain hok.1).under hok.2).1
    exact hindex.spent hgrown hsequence (hchains.unlocked hlock ▸ hspent.spent)
  | @writeNext _ _ chain next db nconfsigs db' hscan hnext hsequence hindex =>
    have hwriting : WritingOk w sh chain db := hok
    have hgrown := ((hchains.grown chain hwriting.mem).under hnext).1
    exact hindex.spent (hgrown.ages hwriting.ages) hsequence hphase
  | commit hscan => exact hphase
  | _ => trivial

/-- The serial numbers of the tables, after a step. -/
lemma ThreadStep.spentOk (hchains : ChainsOk w sh) (hspent : SpentOk w sh) (hok : phase.Ok w sh)
    (hphase : phase.SpendsOk w thread sh) (h : ThreadStep w thread sh phase sh' phase') : SpentOk w sh' := by
  have hgrows := h.grows hchains hok
  have hrows : ∀ c ∈ sh.chains, sh'.startupPruneLevel < c.level → sh'.HasRows c := fun c hc hlevel =>
    (hspent.rows c hc (hgrows.startup.symm.trans_lt hlevel)).grow hgrows (Nat.ne_zero_of_lt hlevel)
  cases h with
  | validate prior received temp hprior hlink hlevel hword horder htemp =>
    exact ⟨hspent.spent, hrows, hspent.nodup⟩
  | startNewBlock prior temp hold hprior htemp => exact ⟨hspent.spent, hrows, hspent.nodup⟩
  | insert temp hinsert => exact ⟨hspent.spent, hrows, hspent.nodup⟩
  | validated received hreceived htxs => exact ⟨hspent.spent, hrows, hspent.nodup⟩
  | finishNewBlock b hreceived htxs hlevel => exact ⟨hspent.spent, hrows, hspent.nodup⟩
  | @validObjsInsert _ _ chain =>
    refine ⟨hspent.spent, fun c hc hlevel => ?_, fun c hc hunder => ?_⟩
    · rcases List.mem_cons.1 hc with rfl | hc
      · exact hphase.1
      · exact hrows c hc hlevel
    · rcases List.mem_cons.1 hc with rfl | hc
      · exact hphase.2 hunder
      · exact hspent.nodup c hc hunder
  | beginWrite db hlock hmarked hsequence hindex => exact ⟨hspent.spent, hrows, hspent.nodup⟩
  | writeNext nconfsigs db' hscan hnext hsequence hindex => exact ⟨hspent.spent, hrows, hspent.nodup⟩
  | commit hscan =>
    exact ⟨fun s hs => hphase s (ScannedChain.spent_under hchains.indelible hs), hrows, hspent.nodup⟩
  | setLastIndelible =>
    exact ⟨hphase, hrows, fun c hc hunder => hspent.nodup c hc (hchains.indelible.trans hunder)⟩
  | prune hthird => exact ⟨hspent.spent, hrows, hspent.nodup⟩
  | _ => exact hspent

end Steps

/-- In every run, the serial numbers of the tables, and where the threads are, are as they should be. -/
lemma ThreadsRun.spentOk {w : SpendWorld} {st : ThreadState} (h : ThreadsRun w st) :
    SpentOk w st.shared ∧ ∀ thread, (st.phase thread).SpendsOk w thread st.shared := by
  induction h with
  | start genesis db hgenesis =>
    have hnil : ScannedChain.spent w.env.toEnv ⟨⟨genesis, []⟩, []⟩ = [] := rfl
    refine ⟨⟨fun s hs => ?_, fun c hc hlevel => ?_, fun c hc _ => ?_⟩,
      fun _ => trivial⟩
    · rw [hnil] at hs
      cases hs
    · obtain rfl := List.mem_singleton.1 hc
      exact absurd hgenesis.level hlevel.ne'
    · rw [List.mem_singleton.1 hc, hnil]
      exact List.nodup_nil
  | @step st st' hrun hstep ih =>
    have hconfirm := hrun.confirmOk
    obtain ⟨hspent, hphases⟩ := ih
    cases hstep with
    | @thread thread shared phase hstep =>
      refine ⟨hstep.spentOk hconfirm.chains hspent (hconfirm.phases thread) (hphases thread), fun thread' => ?_⟩
      rcases thread.eq_or_eq_other thread' with rfl | rfl <;> dsimp only
      · rw [Function.update_self]
        exact hstep.spendsOk hconfirm hspent (hconfirm.phases thread') (hphases thread')
      · rw [Function.update_of_ne thread.other_ne]
        exact (hphases _).stable (hconfirm.phases _) (hstep.grows hconfirm.chains (hconfirm.phases thread))
          (hstep.spares (hconfirm.lock thread)) (hconfirm.lock _)
    | restart last hlast =>
      have hlast' : (∀ s ∈ last.spent w.env.toEnv, st.shared.db.Spent s) ∧ last ∈ st.shared.chains ∧
          st.shared.indelible.Under last := by
        rcases hlast with ⟨⟨thread, hcommitted⟩, rfl⟩ | ⟨-, rfl⟩
        · have hphase := hphases thread
          rw [hcommitted] at hphase
          exact ⟨hphase, hconfirm.chains.marked, hconfirm.chains.indelible⟩
        · exact ⟨hspent.spent, hconfirm.chains.closed _ hconfirm.chains.marked _ hconfirm.chains.indelible
            hconfirm.chains.startup, .refl _⟩
      refine ⟨⟨hlast'.1, fun c hc hlevel => ?_, fun c hc _ => ?_⟩,
        fun _ => trivial⟩
      · obtain rfl := List.mem_singleton.1 hc
        exact absurd hlevel (lt_irrefl _)
      · rw [List.mem_singleton.1 hc]
        exact hspent.nodup last hlast'.2.1 hlast'.2.2

/-- No double spend: however the threads of a node are interleaved, the serial numbers that the transactions of a chain
spend are different, down to the genesis block, if the chain passes through the last indelible block. -/
theorem ThreadsRun.no_double_spend {w : SpendWorld} {st : ThreadState} (h : ThreadsRun w st) :
    ∀ c ∈ st.shared.chains, st.shared.indelible.blocks <:+ c.blocks → (c.spent w.env.toEnv).Nodup :=
  h.spentOk.1.nodup

/-- The payment claim has one serial number. -/
theorem claimRun_no_double_spend :
    (claimChain.spent exampleNow.toEnv).length = 1 ∧ (claimChain.spent exampleNow.toEnv).Nodup := by
  obtain ⟨temp, hrun⟩ := claimRun
  exact ⟨by decide +kernel, hrun.no_double_spend claimChain (List.mem_cons_self ..) ⟨[_], rfl⟩⟩

lemma ThreadsRun.append {w : SpendWorld} {st st' : ThreadState} (h : ThreadsRun w st)
    (hsteps : Relation.ReflTransGen (ThreadsStep w) st st') : ThreadsRun w st' := by
  induction hsteps with
  | refl => exact h
  | tail _ hstep ih => exact ih.step hstep

/-- A step leaves the indelible blocks where they are, a restart too. -/
lemma ThreadsRun.indelible_step {w : SpendWorld} {st st' : ThreadState} (h : ThreadsRun w st)
    (hstep : ThreadsStep w st st') : st.shared.indelible.Under st'.shared.indelible := by
  have hconfirm := h.confirmOk
  cases hstep with
  | thread thread hstep => exact (hstep.grows hconfirm.chains (hconfirm.phases thread)).indelible
  | restart last hlast =>
    rcases hlast with ⟨-, rfl⟩ | ⟨-, rfl⟩
    · exact hconfirm.chains.indelible
    · exact .refl _

/-- What is indelible stays: in whatever order the threads go on, also after restarts, the last indelible chain stays
part of the later ones, and the persistent database has the serial numbers that it spends. -/
theorem ThreadsRun.indelible_stays {w : SpendWorld} {st st' : ThreadState} (h : ThreadsRun w st)
    (hsteps : Relation.ReflTransGen (ThreadsStep w) st st') :
    st.shared.indelible.blocks <:+ st'.shared.indelible.blocks ∧
      ∀ s ∈ st.shared.indelible.spent w.env.toEnv, st'.shared.db.Spent s := by
  have hunder : st.shared.indelible.Under st'.shared.indelible := by
    induction hsteps with
    | refl => exact .refl _
    | tail hsteps hstep ih => exact ih.trans ((h.append hsteps).indelible_step hstep)
  exact ⟨hunder, fun s hs => (h.append hsteps).spentOk.1.spent s (ScannedChain.spent_under hunder hs)⟩

/-- The block with the payment claim is made indelible. -/
lemma claimRun_indelible : ∃ st, ThreadsRun exampleSpendWorld st ∧ st.shared.indelible = claimChain ∧
    ∀ thread, st.phase thread ≠ .committed := by
  obtain ⟨temp, hrun⟩ := claimRun
  obtain ⟨⟨db, credited⟩, hindex⟩ : ∃ indexed, indexTxs exampleNow.toEnv id (matchDb .accepted) claimBlock.txs =
      .ok indexed := isOk_eq_true.1 (by decide +kernel)
  have hwaiting := hrun.process (@ThreadStep.confirmFound _ _ _ _ claimChain 1 rfl (List.suffix_refl _))
  have hnot : claimChain.toBlockChain ∉ claimStart.confirmState.marked := by decide
  have hwriting := hwaiting.process (.beginWrite db rfl hnot rfl ⟨id, db, credited, hindex, rfl, .refl _⟩)
  have hdone := (hwriting.process (.commit rfl)).process .setLastIndelible
  refine ⟨_, hdone, rfl, fun thread => ?_⟩
  cases thread <;> exact fun h => by cases h

/-- After a restart the serial number of the payment claim is still spent. -/
theorem claimRun_indelible_stays : ∃ st : ThreadState, st.shared.temp = [] ∧
    claimChain.blocks <:+ st.shared.indelible.blocks ∧ ∀ s ∈ claimChain.spent exampleNow.toEnv, st.shared.db.Spent s := by
  obtain ⟨st, hrun, hindelible, hphase⟩ := claimRun_indelible
  have hrestart : ThreadsStep exampleSpendWorld st _ := .restart st.shared.indelible (.inr ⟨hphase, rfl⟩)
  have hstays := hrun.indelible_stays (.single hrestart)
  rw [hindelible] at hstays
  exact ⟨⟨{ db := st.shared.db, chains := [claimChain], indelible := claimChain, marked := claimChain
            startupPruneLevel := claimChain.tip.block.level }, fun _ => .idle⟩, rfl, hstays⟩

end CredaCash.Chain
