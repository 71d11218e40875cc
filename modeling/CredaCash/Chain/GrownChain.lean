import CredaCash.Chain.BlockThreads

/-! The chains that grow from the genesis block, block by block: their levels, and the parameters of the witnesses that
their blocks hand on. -/

namespace CredaCash.Chain
open Wire Checks

namespace ScannedChain

def level (c : ScannedChain) : ℕ := c.tip.block.level

/-- The number of blocks that confirm a block which skips a witness. -/
def nskip (c : ScannedChain) : ℕ := c.tip.block.nskipconfsigs

/-- A chain is the lower part of another one, down to the genesis block. -/
def Under (d c : ScannedChain) : Prop := d.blocks <:+ c.blocks

def IsPrior (p c : ScannedChain) : Prop := c.priors = p.blocks

variable {b c d e p : ScannedChain}

lemma eq_of_blocks (h : c.blocks = d.blocks) : c = d := by
  obtain ⟨htip, hpriors⟩ := List.cons.inj h
  cases c
  cases d
  exact congrArg₂ ScannedChain.mk htip hpriors

lemma Under.refl (c : ScannedChain) : c.Under c := List.suffix_refl _

lemma Under.trans (h : b.Under c) (h' : c.Under d) : b.Under d := List.IsSuffix.trans h h'

lemma Under.total (h : b.Under d) (h' : c.Under d) : b.Under c ∨ c.Under b := List.suffix_or_suffix_of_suffix h h'

lemma IsPrior.blocks (h : p.IsPrior c) : c.blocks = c.tip :: p.blocks := congrArg (c.tip :: ·) h

lemma IsPrior.under (h : p.IsPrior c) : p.Under c := ⟨[c.tip], h.blocks.symm⟩

/-- The lower parts of a chain: itself, and those of the chain of its prior block. -/
lemma IsPrior.under_iff (h : p.IsPrior c) : d.Under c ↔ d = c ∨ d.Under p := by
  rw [Under, h.blocks, List.suffix_cons_iff, ← h.blocks]
  exact or_congr_left ⟨eq_of_blocks, congrArg ScannedChain.blocks⟩

lemma Under.length_le (h : d.Under c) : d.priors.length ≤ c.priors.length :=
  Nat.le_of_succ_le_succ (List.IsSuffix.length_le h)

lemma Under.eq_of_length (h : d.Under c) (hlen : c.priors.length ≤ d.priors.length) : d = c :=
  eq_of_blocks (h.eq_of_length_le (Nat.succ_le_succ hlen))

lemma IsPrior.length (h : p.IsPrior c) : c.priors.length = p.priors.length + 1 := congrArg List.length h

/-- Each block of a chain has its own chain. -/
lemma exists_under {x : ScannedBlock} (h : x ∈ c.blocks) : ∃ d : ScannedChain, d.Under c ∧ d.tip = x := by
  obtain ⟨above, below, heq⟩ := List.append_of_mem h
  exact ⟨⟨x, below⟩, ⟨above, heq.symm⟩, rfl⟩

lemma spent_under {env : Env} (h : d.Under c) : d.spent env ⊆ c.spent env :=
  (List.IsSuffix.sublist h).flatMap _ |>.subset

end ScannedChain

/-- A chain that grew from the genesis block, with the persistent database since. -/
inductive SpendWorld.Grown (w : SpendWorld) (db : PersistentDb) : ScannedChain → Prop
  | genesis (b : Block) (h : w.Genesis b) : w.Grown db ⟨⟨b, []⟩, []⟩
  | block {prior : ScannedChain} (received : Block) (txs : List ScannedTx) (hprior : w.Grown db prior)
      (hlevel : received.level = prior.level + 1) (htxs : txs.map (·.wire) = received.txs)
      (hsound : ∀ t ∈ txs, w.Sound db t) :
      w.Grown db ⟨⟨w.chainBlock prior.tip.block received, txs⟩, prior.blocks⟩

section Params
variable (w : SpendWorld) (prior b : Block)

/-- What a block has from the wire is not changed. -/
lemma SpendWorld.chainBlock_wire : (w.chainBlock prior b).level = b.level ∧ (w.chainBlock prior b).txs = b.txs ∧
    (w.chainBlock prior b).bufp = b.bufp := by
  unfold chainBlock chainToPriorBlock setConfSigs
  dsimp only
  split_ifs <;> exact ⟨rfl, rfl, rfl⟩

/-- `nskipconfsigs` of `SetConfSigs`. -/
def skipConfSigs (nwitnesses maxmal : ℕ) : ℕ :=
  Nat.min (Nat.max nwitnesses 1 + Nat.min maxmal ((Nat.max nwitnesses 1 - 1) / 2)) maxNconfsigs

lemma setConfSigs_nskipconfsigs : (setConfSigs b).nskipconfsigs = skipConfSigs b.nwitnesses b.maxmal := by
  unfold setConfSigs skipConfSigs
  dsimp only
  generalize hn : Nat.max b.nwitnesses 1 = n
  have hpos : 1 ≤ n := hn ▸ Nat.le_max_right _ _
  have hmin : (if (n + 1) / 2 ≤ b.maxmal then (n - 1) / 2 else b.maxmal) = Nat.min b.maxmal ((n - 1) / 2) := by
    split_ifs with h
    · exact (Nat.min_eq_right (by omega)).symm
    · exact (Nat.min_eq_left (by omega)).symm
  rw [hmin]

lemma skipConfSigs_mono {n n' m m' : ℕ} (hn : n ≤ n') (hm : m ≤ m') : skipConfSigs n m ≤ skipConfSigs n' m' := by
  have hmax : Nat.max n 1 ≤ Nat.max n' 1 := max_le_max_right 1 hn
  unfold skipConfSigs
  refine min_le_min_right _ (Nat.add_le_add hmax (min_le_min hm ?_))
  omega

/-- The bounds that `SetConfSigs` keeps. -/
lemma setConfSigs_bounds : 1 ≤ (setConfSigs b).nskipconfsigs ∧
    (setConfSigs b).nskipconfsigs + 1 ≤ 2 * (setConfSigs b).nwitnesses ∧
    (setConfSigs b).nseqconfsigs ≤ (setConfSigs b).nskipconfsigs := by
  unfold setConfSigs
  dsimp only
  generalize hn : Nat.max b.nwitnesses 1 = n
  have hpos : 1 ≤ n := hn ▸ Nat.le_max_right _ _
  have hcap : 1 ≤ maxNconfsigs := by decide
  have hmal : (if (n + 1) / 2 ≤ b.maxmal then (n - 1) / 2 else b.maxmal) ≤ (n - 1) / 2 := by
    split_ifs <;> omega
  generalize (if (n + 1) / 2 ≤ b.maxmal then (n - 1) / 2 else b.maxmal) = m at hmal
  refine ⟨le_min (by omega) hcap, ?_, min_le_min_right _ ?_⟩
  · have hle : Nat.min (n + m) maxNconfsigs ≤ n + m := min_le_left _ _
    generalize Nat.min (n + m) maxNconfsigs = k at hle
    omega
  · split_ifs <;> omega

/-- What `SetConfSigs` leaves of a block that is chained to its prior block. -/
lemma SpendWorld.chainBlock_confSigs : ∃ b' : Block, b'.nwitnesses = prior.nextNwitnesses ∧
    b'.maxmal = prior.nextMaxmal ∧ (w.chainBlock prior b).nskipconfsigs = (setConfSigs b').nskipconfsigs ∧
    (w.chainBlock prior b).nseqconfsigs = (setConfSigs b').nseqconfsigs ∧
    (w.chainBlock prior b).nwitnesses = (setConfSigs b').nwitnesses := by
  refine ⟨{ b with nwitnesses := prior.nextNwitnesses, maxmal := prior.nextMaxmal
                   nextNwitnesses := prior.nextNwitnesses, nextMaxmal := prior.nextMaxmal }, rfl, rfl, ?_⟩
  unfold chainBlock chainToPriorBlock
  dsimp only
  split_ifs <;> exact ⟨rfl, rfl, rfl⟩

lemma SpendWorld.chainBlock_next : (w.chainBlock prior b).nextNwitnesses = prior.nextNwitnesses ∧
      (w.chainBlock prior b).nextMaxmal = prior.nextMaxmal ∨
    (w.chainBlock prior b).nextNwitnesses = w.genesisNwitnesses ∧
      (w.chainBlock prior b).nextMaxmal = w.genesisMaxmal := by
  unfold chainBlock
  dsimp only
  split_ifs
  · exact .inr ⟨rfl, rfl⟩
  · left
    unfold chainToPriorBlock setConfSigs
    exact ⟨rfl, rfl⟩

end Params

/-- The parameters that the tip of a chain has, and those that it hands on. -/
structure SpendWorld.Handed (w : SpendWorld) (b : Block) : Prop where
  pos : 1 ≤ b.nskipconfsigs
  nskip : b.nskipconfsigs + 1 ≤ 2 * b.nwitnesses
  nseq : b.nseqconfsigs ≤ b.nskipconfsigs
  next : b.nskipconfsigs ≤ skipConfSigs b.nextNwitnesses b.nextMaxmal
  nwitnesses : b.nextNwitnesses ≤ w.genesisNwitnesses
  maxmal : b.nextMaxmal ≤ w.genesisMaxmal

section Grown
variable {w : SpendWorld} {db db' : PersistentDb} {b : Block} {c d p : ScannedChain}

lemma SpendWorld.Genesis.handed (h : w.Genesis b) : w.Handed b := by
  obtain ⟨hpos, hnskip, hnseq⟩ := setConfSigs_bounds b
  have hnext := setConfSigs_nskipconfsigs b
  rw [h.confSigs] at hpos hnskip hnseq hnext
  exact ⟨hpos, hnskip, hnseq, hnext.trans_le (skipConfSigs_mono h.nwitnesses.1 h.maxmal.1), h.nwitnesses.2, h.maxmal.2⟩

lemma SpendWorld.Handed.chainBlock {prior : Block} (h : w.Handed prior) (b : Block) : w.Handed (w.chainBlock prior b) ∧
    prior.nskipconfsigs ≤ (w.chainBlock prior b).nskipconfsigs := by
  obtain ⟨b', hn, hm, hnskip, hnseq, hnwitnesses⟩ := w.chainBlock_confSigs prior b
  obtain ⟨hpos', hnskip', hnseq'⟩ := setConfSigs_bounds b'
  have hskip := hnskip.trans (setConfSigs_nskipconfsigs b')
  rw [← hnskip] at hpos' hnskip' hnseq'
  rw [← hnseq] at hnseq'
  rw [← hnwitnesses] at hnskip'
  rw [hn, hm] at hskip
  have hle := h.next.trans_eq hskip.symm
  rcases w.chainBlock_next prior b with ⟨hnext, hnext'⟩ | ⟨hnext, hnext'⟩
  · exact ⟨⟨hpos', hnskip', hnseq', by rw [hnext, hnext', hskip], hnext.trans_le h.nwitnesses, hnext'.trans_le h.maxmal⟩,
      hle⟩
  · exact ⟨⟨hpos', hnskip', hnseq', by rw [hnext, hnext', hskip]; exact skipConfSigs_mono h.nwitnesses h.maxmal,
      hnext.le, hnext'.le⟩, hle⟩

lemma SpendWorld.Grown.ages (h : w.Grown db c) (hages : db.Ages db') : w.Grown db' c := by
  induction h with
  | genesis b hgenesis => exact .genesis b hgenesis
  | block received txs hprior hlevel htxs hsound ih =>
    exact .block received txs ih hlevel htxs fun t ht => (hsound t ht).ages hages

lemma SpendWorld.Grown.handed (h : w.Grown db c) : w.Handed c.tip.block := by
  induction h with
  | genesis b hgenesis => exact hgenesis.handed
  | block received txs hprior hlevel htxs hsound ih => exact (ih.chainBlock received).1

/-- The level of a block is the number of blocks before it. -/
lemma SpendWorld.Grown.level_eq (h : w.Grown db c) : c.level = c.priors.length := by
  induction h with
  | genesis b hgenesis => exact hgenesis.level
  | block received txs hprior hlevel htxs hsound ih =>
    rw [ScannedChain.level, (w.chainBlock_wire ..).1, hlevel, ih]
    rfl

lemma SpendWorld.Grown.prior (h : w.Grown db c) (hp : p.IsPrior c) : w.Grown db p ∧ p.nskip ≤ c.nskip := by
  cases h with
  | genesis b hgenesis => cases hp
  | @block prior received txs hprior hlevel htxs hsound =>
    obtain rfl : prior = p := ScannedChain.eq_of_blocks hp
    exact ⟨hprior, (hprior.handed.chainBlock received).2⟩

/-- The lower parts of a chain grew from the genesis block, with parameters that are not larger. -/
lemma SpendWorld.Grown.under (h : w.Grown db c) (hd : d.Under c) : w.Grown db d ∧ d.nskip ≤ c.nskip := by
  induction h with
  | genesis b hgenesis =>
    obtain rfl := hd.eq_of_length (Nat.zero_le _)
    exact ⟨.genesis b hgenesis, le_rfl⟩
  | @block prior received txs hprior hlevel htxs hsound ih =>
    have hblock : w.Grown db ⟨⟨w.chainBlock prior.tip.block received, txs⟩, prior.blocks⟩ :=
      .block received txs hprior hlevel htxs hsound
    have hp : prior.IsPrior ⟨⟨w.chainBlock prior.tip.block received, txs⟩, prior.blocks⟩ := rfl
    rcases hp.under_iff.1 hd with rfl | hd
    · exact ⟨hblock, le_rfl⟩
    · exact ⟨(ih hd).1, (ih hd).2.trans (hblock.prior hp).2⟩

lemma SpendWorld.Grown.level_le (h : w.Grown db c) (hd : d.Under c) : d.level ≤ c.level := by
  rw [h.level_eq, (h.under hd).1.level_eq]
  exact hd.length_le

lemma SpendWorld.Grown.eq_of_level_le (h : w.Grown db c) (hd : d.Under c) (hlevel : c.level ≤ d.level) : d = c := by
  rw [h.level_eq, (h.under hd).1.level_eq] at hlevel
  exact hd.eq_of_length hlevel

lemma SpendWorld.Grown.level_prior (h : w.Grown db c) (hp : p.IsPrior c) : c.level = p.level + 1 := by
  rw [h.level_eq, (h.prior hp).1.level_eq, hp.length]

lemma SpendWorld.Grown.tip (h : w.Grown db c) : c.tip.block.txs = c.tip.txs.map (·.wire) ∧
    ∀ t ∈ c.tip.txs, w.Sound db t := by
  cases h with
  | genesis b hgenesis => exact ⟨hgenesis.txs, fun t ht => by cases ht⟩
  | block received txs hprior hlevel htxs hsound => exact ⟨(w.chainBlock_wire _ received).2.1.trans htxs.symm, hsound⟩

/-- A block that is indexed spends the serial numbers of its transactions. -/
lemma SpendWorld.Indexes.spends (h : w.Indexes db c.tip.block db') (hgrown : w.Grown db c) :
    db.Ages db' ∧ (∀ s, db.Spent s → db'.Spent s) ∧ ∀ s ∈ c.tip.spent w.env.toEnv, db'.Spent s := by
  obtain ⟨commitnum, db₁, credited, hindex, hserialnums, hages'⟩ := h
  rw [hgrown.tip.1] at hindex
  obtain ⟨hages, hmono, htxs⟩ := indexTxs_spends hgrown.tip.2 hindex
  have hsame (s) (hs : db₁.Spent s) : db'.Spent s := by
    unfold PersistentDb.Spent PersistentDb.serialnumSelect at hs ⊢
    rwa [hserialnums]
  refine ⟨hages.trans hages', fun s hs => hsame s (hmono s hs), fun s hs => ?_⟩
  obtain ⟨t, ht, hst⟩ := List.mem_flatMap.1 hs
  exact hsame s (htxs t ht s hst)

/-- A chain that is not the whole chain is under the chain of the prior block. -/
lemma SpendWorld.Grown.exists_prior (h : w.Grown db c) (hd : d.Under c) (hne : d ≠ c) :
    ∃ p : ScannedChain, p.IsPrior c ∧ d.Under p := by
  cases h with
  | genesis b hgenesis => exact absurd (hd.eq_of_length (Nat.zero_le _)) hne
  | @block prior received txs hprior hlevel htxs hsound =>
    have hp : prior.IsPrior ⟨⟨w.chainBlock prior.tip.block received, txs⟩, prior.blocks⟩ := rfl
    exact ⟨prior, hp, (hp.under_iff.1 hd).resolve_left hne⟩

end Grown

end CredaCash.Chain
