import CredaCash.Chain.SigOrder

/-! The check of the signing order that a witness makes before it builds a block, and the check of the block
that it builds. -/

namespace CredaCash.Chain
open Rotation

/-- The level at which minting ends, and the witnesses that the genesis file gives from then on. -/
structure MintEnd where
  level : ℕ
  nwitnesses : ℕ
  maxmal : ℕ

/-- `Block::ChainToPriorBlock` on a blockchain that may implement minting: the block at which minting ends changes
the parameters of the next block. -/
def chainToPrior (mint : Option MintEnd) (prior b : Block) : Block :=
  let b := chainToPriorBlock prior b
  match mint with
  | none => b
  | some m => if b.level = m.level then { b with nextNwitnesses := m.nwitnesses, nextMaxmal := m.maxmal } else b

/-- `Block::CheckBadSigOrder`, with the witness of a block to be built on top, if there is one. -/
def checkSigOrder (topWitness : Option ℕ) (b : Block) (priors : List Block) : Bool :=
  match topWitness with
  | none => checkBadSigOrder b priors
  | some witness =>
    let nwitnesses := b.nextNwitnesses
    let nconfsigs := (nwitnesses - b.nextMaxmal) / 2 + b.nextMaxmal + 1
    -- the block on top counts as the first signature
    match skipSum (nconfsigs - 1) b priors with
    | none => true
    | some sum => nwitnesses < computeSkip b.witness witness nwitnesses + sum + nconfsigs

/-- A block that a witness builds on a prior block: it is at the next level, which the wire header has in 32 bits. -/
structure BuiltOn (prior b : Block) (witness : ℕ) : Prop where
  level : b.level = prior.level + 1
  level_lt : b.level < 2^32
  witness : b.witness = witness

section
variable {mint : Option MintEnd} {prior b : Block}

/-- Where minting ends only what the next block takes over is changed. -/
lemma chainToPrior_eq (mint : Option MintEnd) (prior b : Block) : ∃ nextNwitnesses nextMaxmal,
    chainToPrior mint prior b =
      { chainToPriorBlock prior b with nextNwitnesses := nextNwitnesses, nextMaxmal := nextMaxmal } := by
  cases mint with
  | none => exact ⟨_, _, rfl⟩
  | some m =>
    rw [chainToPrior]
    simp only
    split_ifs
    · exact ⟨_, _, rfl⟩
    · exact ⟨_, _, rfl⟩

lemma chainToPriorBlock_bufp (prior b : Block) : (chainToPriorBlock prior b).bufp = b.bufp := by
  unfold chainToPriorBlock setConfSigs
  rfl

lemma chainToPriorBlock_nwitnesses (prior b : Block) :
    (chainToPriorBlock prior b).nwitnesses = Nat.max prior.nextNwitnesses 1 := by
  unfold chainToPriorBlock setConfSigs
  rfl

@[simp] lemma chainToPrior_level (mint : Option MintEnd) (prior b : Block) :
    (chainToPrior mint prior b).level = b.level := by
  obtain ⟨nextNwitnesses, nextMaxmal, heq⟩ := chainToPrior_eq mint prior b
  rw [heq]
  exact chainToPriorBlock_level prior b

@[simp] lemma chainToPrior_bufp (mint : Option MintEnd) (prior b : Block) :
    (chainToPrior mint prior b).bufp = b.bufp := by
  obtain ⟨nextNwitnesses, nextMaxmal, heq⟩ := chainToPrior_eq mint prior b
  rw [heq]
  exact chainToPriorBlock_bufp prior b

/-- The parameters of a chained block are those that its prior block gives to the next one. -/
lemma chainToPrior_nwitnesses (hn : 0 < prior.nextNwitnesses) :
    (chainToPrior mint prior b).nwitnesses = prior.nextNwitnesses := by
  obtain ⟨nextNwitnesses, nextMaxmal, heq⟩ := chainToPrior_eq mint prior b
  rw [heq]
  exact (chainToPriorBlock_nwitnesses prior b).trans (Nat.max_eq_left hn)

lemma chainToPrior_skip (hn : 0 < prior.nextNwitnesses) :
    (chainToPrior mint prior b).skip = computeSkip prior.witness b.witness prior.nextNwitnesses := by
  obtain ⟨nextNwitnesses, nextMaxmal, heq⟩ := chainToPrior_eq mint prior b
  rw [heq]
  refine (chainToPriorBlock_skip prior b).trans ?_
  rw [chainToPriorBlock_nwitnesses, show Nat.max prior.nextNwitnesses 1 = prior.nextNwitnesses from Nat.max_eq_left hn]

/-- Neither the clamp of `maxmal` nor the cap on the signatures applies to parameters within the bounds. -/
lemma chainToPrior_nconfsigs (hmaxmal : prior.nextMaxmal < (prior.nextNwitnesses + 1) / 2)
    (hn : prior.nextNwitnesses ≤ maxNwitnesses) : (chainToPrior mint prior b).nconfsigs =
      (prior.nextNwitnesses - prior.nextMaxmal) / 2 + prior.nextMaxmal + 1 := by
  have hpos : 0 < prior.nextNwitnesses := by omega
  have hcap : (prior.nextNwitnesses - prior.nextMaxmal) / 2 + prior.nextMaxmal + 1 ≤ maxNconfsigs := by
    have hle : prior.nextNwitnesses ≤ 21 := hn
    change _ ≤ 31
    omega
  have hmaxmal' : (chainToPriorBlock prior b).maxmal = prior.nextMaxmal := by
    unfold chainToPriorBlock setConfSigs
    simp only
    rw [show Nat.max prior.nextNwitnesses 1 = prior.nextNwitnesses from Nat.max_eq_left hpos,
      if_neg (not_le.2 hmaxmal)]
  obtain ⟨nextNwitnesses, nextMaxmal, heq⟩ := chainToPrior_eq mint prior b
  rw [heq]
  refine (chainToPriorBlock_nconfsigs prior b).trans ?_
  rw [hmaxmal', chainToPriorBlock_nwitnesses,
    show Nat.max prior.nextNwitnesses 1 = prior.nextNwitnesses from Nat.max_eq_left hpos]
  exact Nat.min_eq_left hcap

end

/-- The loop of `CheckBadSigOrder` reads no more of its first block than the level and the skip. -/
lemma skipSum_built {prior b : Block} (k : ℕ) (priors : List Block) (hlevel : b.level = prior.level + 1)
    (hlt : b.level < 2^32) :
    skipSum (k + 1) b (prior :: priors) = (skipSum k prior priors).map (b.skip + ·) := by
  have hprior : prior.level = (b.level + 2^64 - 1) % 2^64 := by omega
  rw [skipSum, if_neg (not_not.2 hprior)]

/-- A witness finds the signing order of a block that it would build on a chain bad exactly if the nodes that receive
the block do. -/
theorem checkSigOrder_topWitness (mint : Option MintEnd) (chain : BlockChain) (witness : ℕ) (received : Block)
    (hmaxmal : chain.tip.nextMaxmal < (chain.tip.nextNwitnesses + 1) / 2)
    (hn : chain.tip.nextNwitnesses ≤ maxNwitnesses) (hbuilt : BuiltOn chain.tip received witness) :
    checkSigOrder (some witness) chain.tip chain.priors =
      checkSigOrder none (chainToPrior mint chain.tip received) chain.blocks := by
  have hpos : 0 < chain.tip.nextNwitnesses := by omega
  have hlevel : (chainToPrior mint chain.tip received).level = chain.tip.level + 1 := by
    rw [chainToPrior_level, hbuilt.level]
  have hlt : (chainToPrior mint chain.tip received).level < 2^32 := by
    rw [chainToPrior_level]
    exact hbuilt.level_lt
  simp only [checkSigOrder, checkBadSigOrder, BlockChain.blocks]
  rw [chainToPrior_nconfsigs hmaxmal hn, chainToPrior_nwitnesses hpos, skipSum_built _ _ hlevel hlt,
    chainToPrior_skip hpos, hbuilt.witness, Nat.add_sub_cancel]
  generalize skipSum _ chain.tip chain.priors = sum
  cases sum with
  | none => rfl
  | some sum => rfl

/-- The first two blocks of a chain of four witnesses. -/
def fourStart : BlockChain := ⟨fourNext fourGenesis 2, [fourGenesis]⟩

/-- A block that witness 3 builds on them. -/
def fourBuilt : Block := { bufp := 48, oid := 3, priorOid := 2, level := 2, timestamp := 0, witness := 3 }

lemma fourBuilt_builtOn : BuiltOn fourStart.tip fourBuilt 3 := ⟨by decide +kernel, by decide +kernel, rfl⟩

theorem fourStart_topWitness : checkSigOrder (some 3) fourStart.tip fourStart.priors =
    checkSigOrder none (chainToPrior none fourStart.tip fourBuilt) fourStart.blocks :=
  checkSigOrder_topWitness none fourStart 3 fourBuilt (by decide +kernel) (by decide +kernel) fourBuilt_builtOn

end CredaCash.Chain
