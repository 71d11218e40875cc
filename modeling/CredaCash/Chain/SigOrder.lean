import CredaCash.Chain.BlockValidate
import CredaCash.Rotation

/-! The witnesses that sign the blocks of a chain: what the check of the signing order gives for any
consecutive blocks. -/

namespace CredaCash.Chain
open Rotation

/-- The witness of a block and the witnesses it skips. -/
def Block.turn (b : Block) : Turn := ⟨b.witness, b.skip⟩

/-- A chain whose blocks, after the first, were chained to their prior blocks, with the assertion of
`ChainToPriorBlock` on their witness, and passed `CheckBadSigOrder`. -/
inductive SigChain : List Block → Prop
  | genesis (b : Block) : SigChain [b]
  | block {prior : Block} {priors : List Block} (received : Block) (hprior : SigChain (prior :: priors))
      (hwitness : received.witness < maxNwitnesses)
      (horder : checkBadSigOrder (chainToPriorBlock prior received) (prior :: priors) = false) :
      SigChain (chainToPriorBlock prior received :: prior :: priors)

/-- The parameters of the witnesses, as a block has them in 16 bits. -/
structure WitnessParams where
  nwitnesses : ℕ
  maxmal : ℕ
  maxmal_lt : maxmal < (nwitnesses + 1) / 2
  nwitnesses_lt : nwitnesses < 2^16

/-- `nconfsigs` of `SetConfSigs`. -/
def WitnessParams.nconfsigs (p : WitnessParams) : ℕ :=
  Nat.min ((p.nwitnesses - p.maxmal) / 2 + p.maxmal + 1) maxNconfsigs

/-- All blocks of a chain have the same parameters. -/
def HasParams (p : WitnessParams) (blocks : List Block) : Prop :=
  ∀ b ∈ blocks, b.nwitnesses = p.nwitnesses ∧ b.maxmal = p.maxmal

variable {p : WitnessParams}

lemma WitnessParams.nwitnesses_pos (p : WitnessParams) : 0 < p.nwitnesses := by
  have := p.maxmal_lt
  omega

lemma chainToPriorBlock_skip (prior b : Block) : (chainToPriorBlock prior b).skip =
    computeSkip prior.witness b.witness (chainToPriorBlock prior b).nwitnesses := by
  unfold chainToPriorBlock setConfSigs
  rfl

lemma chainToPriorBlock_nconfsigs (prior b : Block) : (chainToPriorBlock prior b).nconfsigs =
    Nat.min (((chainToPriorBlock prior b).nwitnesses - (chainToPriorBlock prior b).maxmal) / 2 +
      (chainToPriorBlock prior b).maxmal + 1) maxNconfsigs := by
  unfold chainToPriorBlock setConfSigs
  rfl

/-- The next witness is one place, and the skipped places, after the previous one. -/
lemma computeSkip_modEq (prev : ℕ) {next n : ℕ} (hpos : 0 < n) (hn : n < 2^16) (hnext : next < maxNwitnesses) :
    next ≡ prev + (1 + computeSkip prev next n) [MOD n] := by
  have hlt := Nat.mod_lt (prev + 1) hpos
  have hnext : next < 21 := hnext
  have hwrap : (next + 2^32 - (prev + 1) % n + n) % 2^32 = next + n - (prev + 1) % n := by
    generalize (prev + 1) % n = q at hlt ⊢
    omega
  have hskip : computeSkip prev next n ≡ next + n - (prev + 1) % n [MOD n] := by
    rw [computeSkip, hwrap]
    exact Nat.mod_modEq _ _
  have hprev : (prev + 1) % n ≡ prev + 1 [MOD n] := Nat.mod_modEq _ _
  symm
  calc prev + (1 + computeSkip prev next n) = computeSkip prev next n + (prev + 1) := by ring
    _ ≡ next + n - (prev + 1) % n + (prev + 1) % n [MOD n] := hskip.add hprev.symm
    _ = next + n := by omega
    _ ≡ next [MOD n] := Nat.add_mod_right next n

lemma SigChain.suffix {blocks tail : List Block} (h : SigChain blocks) (hne : tail ≠ []) (hsuffix : tail <:+ blocks) :
    SigChain tail := by
  induction h with
  | genesis b =>
    rcases List.suffix_cons_iff.1 hsuffix with rfl | hnil
    · exact .genesis b
    · exact absurd (List.suffix_nil.1 hnil) hne
  | block received hprior hwitness horder ih =>
    rcases List.suffix_cons_iff.1 hsuffix with rfl | hrest
    · exact .block received hprior hwitness horder
    · exact ih hrest

/-- In a chain each block's turn follows that of its prior block. -/
lemma SigChain.follows {blocks : List Block} (h : SigChain blocks) (hp : HasParams p blocks) :
    (blocks.map Block.turn).IsChain (Follows p.nwitnesses) := by
  induction h with
  | genesis b => exact List.isChain_singleton _
  | @block prior priors received hprior hwitness horder ih =>
    refine List.isChain_cons_cons.2 ⟨?_, ih fun b hb => hp b (List.mem_cons_of_mem _ hb)⟩
    have hn := (hp _ (List.mem_cons_self ..)).1
    have hskip := computeSkip_modEq prior.witness p.nwitnesses_pos p.nwitnesses_lt hwitness
    rw [Follows, Block.turn, Block.turn]
    dsimp only
    rwa [chainToPriorBlock_witness, chainToPriorBlock_skip, hn]

/-- The loop of `CheckBadSigOrder` adds the skips of as many blocks as there are. -/
lemma skipSum_eq {k sum : ℕ} {b : Block} {priors : List Block} (h : skipSum k b priors = some sum) :
    sum = (((b :: priors).take k).map (·.skip)).sum := by
  induction k generalizing b priors sum with
  | zero => exact (Option.some.inj h).symm
  | succ k ih =>
    cases priors with
    | nil =>
      simp only [skipSum] at h
      split_ifs at h
      simp only [List.take_succ_cons, List.take_nil, List.map_cons, List.map_nil, List.sum_cons, List.sum_nil]
      exact (Option.some.inj h).symm
    | cons prior rest =>
      simp only [skipSum] at h
      split_ifs at h
      obtain ⟨rest', hrest, rfl⟩ := Option.map_eq_some_iff.1 h
      rw [ih hrest, List.take_succ_cons, List.map_cons, List.sum_cons]

/-- The newest blocks of a chain, after the first, go around the witnesses at most once. -/
lemma SigChain.distance_le {b prior : Block} {priors : List Block} (h : SigChain (b :: prior :: priors))
    (hp : HasParams p (b :: prior :: priors)) :
    p.nconfsigs + (((b :: prior :: priors).take p.nconfsigs).map (·.skip)).sum ≤ p.nwitnesses := by
  cases h with
  | block received hprior hwitness horder =>
    obtain ⟨hn, hm⟩ := hp _ (List.mem_cons_self ..)
    have hconf : (chainToPriorBlock prior received).nconfsigs = p.nconfsigs := by
      rw [chainToPriorBlock_nconfsigs, hn, hm]
      rfl
    unfold checkBadSigOrder at horder
    rw [hconf, hn] at horder
    cases hsum : skipSum p.nconfsigs (chainToPriorBlock prior received) (prior :: priors) with
    | none => simp [hsum] at horder
    | some sum =>
      simp only [hsum, decide_eq_false_iff_not, not_lt] at horder
      rw [← skipSum_eq hsum]
      omega

/-- Any `nconfsigs` consecutive blocks of a chain are signed by different witnesses. -/
theorem SigChain.signers_nodup {blocks window : List Block} (h : SigChain blocks) (hp : HasParams p blocks)
    (hwindow : window <:+: blocks) (hlen : window.length = p.nconfsigs) : (window.map (·.witness)).Nodup := by
  obtain ⟨tail, hfirst, hsuffix⟩ := List.infix_iff_prefix_suffix.1 hwindow
  have hwindow : window = tail.take p.nconfsigs := by rw [← hlen]; exact List.prefix_iff_eq_take.1 hfirst
  have htail : HasParams p tail := fun b hb => hp b (hsuffix.subset hb)
  have hplaces : (window.map (·.witness)) = (window.map Block.turn).map (·.place) := by
    rw [List.map_map]
    rfl
  rcases tail with - | ⟨b, - | ⟨prior, priors⟩⟩
  · rw [hwindow, List.take_nil]
    exact List.nodup_nil
  · -- the first block alone
    rw [hwindow]
    exact (List.nodup_singleton b.witness).sublist ((List.take_sublist _ _).map _)
  · have hchain := h.suffix (List.cons_ne_nil _ _) hsuffix
    rw [hplaces]
    refine places_nodup (n := p.nwitnesses) ?_ ?_
    · rw [hwindow, List.map_take]
      exact (hchain.follows htail).take _
    · have hle := hchain.distance_le htail
      rw [← hwindow] at hle
      rw [distance, List.length_map, hlen, List.map_map]
      exact hle

section Example

/-- Four witnesses, one of which may be faulty. -/
def fourWitnesses : WitnessParams := ⟨4, 1, by decide, by decide⟩

/-- A first block, signed by witness 0. -/
def fourGenesis : Block :=
  { bufp := 16, oid := 1, priorOid := 0, level := 0, timestamp := 0, witness := 0, nwitnesses := 4, maxmal := 1,
    nextNwitnesses := 4, nextMaxmal := 1 }

/-- The next block of a chain of four witnesses, by a given witness. -/
def fourNext (prior : Block) (witness : ℕ) : Block :=
  chainToPriorBlock prior
    { bufp := prior.bufp + 16, oid := prior.oid + 1, priorOid := prior.oid, level := prior.level + 1,
      timestamp := 0, witness := witness }

/-- Two blocks after the first, by witnesses 2 and 3. -/
def fourChain : List Block :=
  [fourNext (fourNext fourGenesis 2) 3, fourNext fourGenesis 2, fourGenesis]

lemma fourChain_sigChain : SigChain fourChain :=
  .block _ (.block _ (.genesis _) (by decide +kernel) (by decide +kernel)) (by decide +kernel) (by decide +kernel)

theorem fourChain_signers : SigChain fourChain ∧ (fourChain.map (·.witness)).Nodup :=
  ⟨fourChain_sigChain, fourChain_sigChain.signers_nodup (p := fourWitnesses)
    (by unfold HasParams; decide +kernel) (List.infix_refl _) (by decide +kernel)⟩

end Example

end CredaCash.Chain
