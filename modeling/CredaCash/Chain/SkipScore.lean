import CredaCash.Chain.TopWitness
import CredaCash.UnaryCode

/-! The score by which a witness chooses the block to build on: the skips above the last indelible block, in unary
from the lowest block up, at the left of a word of 64 bits. -/

namespace CredaCash.Chain
open UnaryCode

def maxScoreBits : ℕ := 64

/-- The fields of `witness_params` that keep the score of a block. -/
structure WitnessScore where
  score : ℕ := 0
  scoreBits : ℕ := 0
  scoreGenstamp : ℕ := 0

/-- The kept scores, by the addresses of the blocks. -/
abbrev ScoreCache := ℕ → WitnessScore

/-- The level at which a test that ignores the signing order stops. -/
def maltestLevel (b last : Block) : ℕ := last.level - b.nskipconfsigs

/-- Adds a skip to a score and its bits. A shift by 64 or more, which the language leaves open, is taken modulo 64. -/
def addSkip (score : ℕ × ℕ) (skip : ℕ) : ℕ × ℕ :=
  (score.1 <<< ((skip + 1) % 64) % 2^64 ||| 1, (score.2 + (skip + 1)) % 2^32)

/-- The score of a block where `CalcSkipScoreRecursive` does not look at the prior block. -/
def scoreHere (last : Block) (genstamp : ℕ) (maltest : Bool) (b : Block) (cache : ScoreCache) : Option (ℕ × ℕ) :=
  if genstamp ≠ 0 ∧ genstamp = (cache b.bufp).scoreGenstamp then
    some ((cache b.bufp).score, (cache b.bufp).scoreBits)
  else if b.bufp = last.bufp ∧ !maltest then some (1, 1)
  else if b.level ≤ last.level ∧ !maltest then some (0, 0)
  else if maltest ∧ b.level ≤ maltestLevel b last then some (1, 1)
  else none

/-- `Block::CalcSkipScoreRecursive`: the score of a block and its bits. -/
def calcSkipScoreRecursive (last : Block) (genstamp : ℕ) (maltest : Bool) :
    List Block → Block → ScoreCache → (ℕ × ℕ) × ScoreCache
  | [], b, cache => ((scoreHere last genstamp maltest b cache).getD (if maltest then (1, 1) else (0, 0)), cache)
  | prior :: rest, b, cache =>
    match scoreHere last genstamp maltest b cache with
    | some score => (score, cache)
    | none =>
      let (score, cache) := calcSkipScoreRecursive last genstamp maltest rest prior cache
      if score.1 = 0 then (score, cache)
      else
        let score := addSkip score b.skip
        (score, if genstamp = 0 then cache else Function.update cache b.bufp ⟨score.1, score.2 % 2^16, genstamp⟩)

/-- The end of `CalcSkipScore`: a score of too many bits is dropped, and another one is moved to the left. -/
def alignScore (maltest : Bool) (score : ℕ × ℕ) : ℕ :=
  let score := if maxScoreBits < score.2 then (if maltest then (score.1, maxScoreBits) else (0, score.2)) else score
  if score.2 < maxScoreBits then score.1 <<< ((maxScoreBits - score.2) % 64) % 2^64 else score.1

/-- `Block::CalcSkipScore`, with the witness of a block to be built on top, if there is one. -/
def calcSkipScore (topWitness : Option ℕ) (last : Block) (genstamp : ℕ) (maltest : Bool) (chain : BlockChain)
    (cache : ScoreCache) : ℕ × ScoreCache :=
  if maltest ∧ chain.tip.level ≤ maltestLevel chain.tip last then (0, cache)
  else
    let (score, cache) := calcSkipScoreRecursive last genstamp maltest chain.priors chain.tip cache
    let score :=
      match topWitness with
      | none => score
      | some witness =>
        if score.1 = 0 then score
        else addSkip score (computeSkip chain.tip.witness witness chain.tip.nextNwitnesses)
    (alignScore maltest score, cache)

/-- Blocks in memory, each with the chain below it: a block is known by its address, is at the level after that of its
prior block, and gives some witnesses to the next one. -/
structure BlockTree where
  nodes : List BlockChain
  prior_mem : ∀ {b prior rest}, ⟨b, prior :: rest⟩ ∈ nodes → ⟨prior, rest⟩ ∈ nodes
  level_eq : ∀ {b prior rest}, ⟨b, prior :: rest⟩ ∈ nodes → b.level = prior.level + 1
  bufp_inj : ∀ {c d}, c ∈ nodes → d ∈ nodes → c.tip.bufp = d.tip.bufp → c = d
  nextNwitnesses_pos : ∀ {c}, c ∈ nodes → 0 < c.tip.nextNwitnesses

/-- The skips of the blocks above the last indelible block, from the lowest one up. -/
def skipsAbove (last : Block) : List Block → List ℕ
  | [] => []
  | b :: rest => if b.bufp = last.bufp then [] else skipsAbove last rest ++ [b.skip]

/-- The skips of a chain, with that of a block to be built on top. -/
def skipSequence (topWitness : Option ℕ) (last : Block) (chain : BlockChain) : List ℕ :=
  skipsAbove last chain.blocks ++
    (topWitness.map fun witness => computeSkip chain.tip.witness witness chain.tip.nextNwitnesses).toList

/-- The score of a chain has at most 64 bits. -/
def FitsScore (topWitness : Option ℕ) (last : Block) (chain : BlockChain) : Prop :=
  last ∈ chain.blocks → (encode (skipSequence topWitness last chain)).2 ≤ maxScoreBits

/-- The score without any kept scores, outside of tests. -/
def skipScore (topWitness : Option ℕ) (last : Block) (chain : BlockChain) : ℕ :=
  (calcSkipScore topWitness last 0 false chain fun _ => {}).1

/-- A kept score is that of its block for the last indelible block that its stamp stands for. -/
def CacheValid (tree : BlockTree) (stamps : ℕ → Block) (cache : ScoreCache) : Prop :=
  ∀ c ∈ tree.nodes, (cache c.tip.bufp).scoreGenstamp ≠ 0 →
    let last := stamps (cache c.tip.bufp).scoreGenstamp
    last ∈ c.blocks ∧ ((encode (skipsAbove last c.blocks)).2 ≤ maxScoreBits →
      ((cache c.tip.bufp).score, (cache c.tip.bufp).scoreBits) = encode (skipsAbove last c.blocks))

section Arithmetic

/-- In 64 bits a skip is appended to a code as it is. -/
lemma addSkip_eq_push {score : ℕ × ℕ} {skip : ℕ} (hlt : score.1 < 2^score.2) (hpos : 0 < score.2)
    (hbits : (push score skip).2 ≤ maxScoreBits) : addSkip score skip = push score skip := by
  have hle : score.2 + (skip + 1) ≤ 64 := hbits
  have hshift : (skip + 1) % 64 = skip + 1 := Nat.mod_eq_of_lt (by omega)
  have hword : score.1 * 2^(skip + 1) < 2^64 := by
    calc score.1 * 2^(skip + 1) < 2^score.2 * 2^(skip + 1) := Nat.mul_lt_mul_of_pos_right hlt (Nat.two_pow_pos _)
      _ = 2^(score.2 + (skip + 1)) := (pow_add ..).symm
      _ ≤ 2^64 := Nat.pow_le_pow_right (by decide) hle
  have hor : score.1 * 2^(skip + 1) ||| 1 = score.1 * 2^(skip + 1) + 1 := by
    rw [mul_comm, Nat.two_pow_add_eq_or_of_lt (Nat.one_lt_two_pow (Nat.succ_ne_zero skip))]
  rw [addSkip, push, hshift, Nat.shiftLeft_eq, Nat.mod_eq_of_lt hword, hor, Nat.mod_eq_of_lt (by omega)]

lemma alignScore_zero (bits : ℕ) : alignScore false (0, bits) = 0 := by
  simp only [alignScore]
  split_ifs <;> simp

/-- A code of at most 64 bits is moved to the left of the word. -/
lemma alignScore_encode {xs : List ℕ} (h : (encode xs).2 ≤ maxScoreBits) :
    alignScore false (encode xs) = align maxScoreBits (encode xs) := by
  have hlt := encode_lt xs
  have hpos : 0 < (encode xs).2 := by
    rw [encode_bits]
    omega
  simp only [alignScore, if_neg (not_lt.2 h)]
  split_ifs with hless
  · have hshift : (maxScoreBits - (encode xs).2) % 64 = maxScoreBits - (encode xs).2 :=
      Nat.mod_eq_of_lt (Nat.sub_lt (by decide) hpos)
    have hword : (encode xs).1 * 2^(maxScoreBits - (encode xs).2) < 2^64 := by
      calc (encode xs).1 * 2^(maxScoreBits - (encode xs).2) <
          2^(encode xs).2 * 2^(maxScoreBits - (encode xs).2) := Nat.mul_lt_mul_of_pos_right hlt (Nat.two_pow_pos _)
        _ = 2^64 := by
          rw [← pow_add, Nat.add_sub_of_le h]
          rfl
    rw [hshift, Nat.shiftLeft_eq, Nat.mod_eq_of_lt hword, align]
  · have heq : (encode xs).2 = maxScoreBits := le_antisymm h (not_lt.1 hless)
    rw [align, heq, Nat.sub_self, pow_zero, mul_one]

end Arithmetic

namespace BlockTree
variable (tree : BlockTree) {last : BlockChain} {b prior : Block} {priors rest : List Block}

/-- Of the blocks of the tree only the last indelible one has its address. -/
lemma bufp_eq_iff (hlast : last ∈ tree.nodes) (h : ⟨b, priors⟩ ∈ tree.nodes) : b.bufp = last.tip.bufp ↔ b = last.tip :=
  ⟨fun heq => congrArg BlockChain.tip (tree.bufp_inj h hlast heq), fun heq => congrArg Block.bufp heq⟩

lemma level_le_of_mem (h : ⟨b, priors⟩ ∈ tree.nodes) {c : Block} (hc : c ∈ b :: priors) : c.level ≤ b.level := by
  induction priors generalizing b with
  | nil => exact (congrArg Block.level (List.mem_singleton.1 hc)).le
  | cons prior rest ih =>
    rcases List.mem_cons.1 hc with rfl | hmem
    · exact le_refl _
    · rw [tree.level_eq h]
      exact (ih (tree.prior_mem h) hmem).trans (Nat.le_succ _)

/-- The blocks below a block are at lower levels. -/
lemma level_lt_of_mem (h : ⟨b, priors⟩ ∈ tree.nodes) {c : Block} (hc : c ∈ priors) : c.level < b.level := by
  cases priors with
  | nil => cases hc
  | cons prior rest =>
    rw [tree.level_eq h]
    exact Nat.lt_succ_of_le (tree.level_le_of_mem (tree.prior_mem h) hc)

end BlockTree

section Recursive
variable {tree : BlockTree} {stamps : ℕ → Block} {last : BlockChain} {genstamp : ℕ} {b : Block} {priors : List Block}
  {cache : ScoreCache}

/-- The score that the recursion finds for a chain. -/
structure Scores (last : Block) (blocks : List Block) (score : ℕ × ℕ) : Prop where
  notBack : last ∉ blocks → score.1 = 0
  back : last ∈ blocks → (encode (skipsAbove last blocks)).2 ≤ maxScoreBits → score = encode (skipsAbove last blocks)

/-- The cases of the recursion on a block: its score is kept, it is the last indelible block, it lies beside it, or it
lies above its level. -/
lemma scoreHere_cases (last : Block) (genstamp : ℕ) (b : Block) (cache : ScoreCache) :
    (genstamp ≠ 0 ∧ (cache b.bufp).scoreGenstamp = genstamp ∧ scoreHere last genstamp false b cache =
        some ((cache b.bufp).score, (cache b.bufp).scoreBits)) ∨
      (b.bufp = last.bufp ∧ scoreHere last genstamp false b cache = some (1, 1)) ∨
      (b.bufp ≠ last.bufp ∧ b.level ≤ last.level ∧ scoreHere last genstamp false b cache = some (0, 0)) ∨
      (b.bufp ≠ last.bufp ∧ last.level < b.level ∧ scoreHere last genstamp false b cache = none) := by
  simp only [scoreHere, Bool.not_false, and_true, Bool.false_eq_true, false_and, if_false]
  split_ifs with hkept hlast hlevel
  · exact .inl ⟨hkept.1, hkept.2.symm, rfl⟩
  · exact .inr (.inl ⟨hlast, rfl⟩)
  · exact .inr (.inr (.inl ⟨hlast, hlevel, rfl⟩))
  · exact .inr (.inr (.inr ⟨hlast, not_le.1 hlevel, rfl⟩))

/-- A score that the recursion does not take from the prior block is right. -/
lemma scoreHere_scores (hlast : last ∈ tree.nodes) (hcache : CacheValid tree stamps cache)
    (hstamp : genstamp ≠ 0 → stamps genstamp = last.tip) (hnode : ⟨b, priors⟩ ∈ tree.nodes) {score : ℕ × ℕ}
    (h : scoreHere last.tip genstamp false b cache = some score) : Scores last.tip (b :: priors) score := by
  rcases scoreHere_cases last.tip genstamp b cache with
    ⟨hne, hkept, heq⟩ | ⟨haddress, heq⟩ | ⟨haddress, hlevel, heq⟩ | ⟨haddress, hlevel, heq⟩
  · obtain rfl := Option.some.inj (h.symm.trans heq)
    have hvalid := hcache ⟨b, priors⟩ hnode (hkept.trans_ne hne)
    simp only [hkept, hstamp hne] at hvalid
    exact ⟨fun hnot => absurd hvalid.1 hnot, fun _ => hvalid.2⟩
  · obtain rfl := Option.some.inj (h.symm.trans heq)
    have hb := (tree.bufp_eq_iff hlast hnode).1 haddress
    refine ⟨fun hnot => absurd (hb ▸ List.mem_cons_self ..) hnot, fun _ _ => ?_⟩
    rw [skipsAbove, if_pos haddress, encode_nil]
  · obtain rfl := Option.some.inj (h.symm.trans heq)
    refine ⟨fun _ => rfl, fun hmem => ?_⟩
    rcases List.mem_cons.1 hmem with hb | hmem
    · exact absurd (congrArg Block.bufp hb.symm) haddress
    · exact absurd (tree.level_lt_of_mem hnode hmem) (not_lt.2 hlevel)
  · cases h.symm.trans heq

lemma skipsAbove_cons {blocks : List Block} (haddress : b.bufp ≠ last.tip.bufp) :
    skipsAbove last.tip (b :: blocks) = skipsAbove last.tip blocks ++ [b.skip] := if_neg haddress

/-- The score of the prior block has fewer bits. -/
lemma bits_le_of_cons {blocks : List Block} (haddress : b.bufp ≠ last.tip.bufp)
    (h : (encode (skipsAbove last.tip (b :: blocks))).2 ≤ maxScoreBits) :
    (encode (skipsAbove last.tip blocks)).2 ≤ maxScoreBits := by
  rw [skipsAbove_cons haddress, encode_concat] at h
  exact (Nat.le_add_right _ _).trans h

/-- A block above the last indelible one adds its skip to the score of its prior block. -/
lemma Scores.addSkip {prior : Block} {rest : List Block} {score : ℕ × ℕ} (haddress : b.bufp ≠ last.tip.bufp)
    (h : Scores last.tip (prior :: rest) score) (hscore : score.1 ≠ 0) :
    last.tip ∈ prior :: rest ∧ Scores last.tip (b :: prior :: rest) (addSkip score b.skip) := by
  have hback : last.tip ∈ prior :: rest := by
    by_contra hnot
    exact hscore (h.notBack hnot)
  refine ⟨hback, fun hnot => absurd (List.mem_cons_of_mem _ hback) hnot, fun _ hbits => ?_⟩
  rw [h.back hback (bits_le_of_cons haddress hbits), skipsAbove_cons haddress, encode_concat]
  rw [skipsAbove_cons haddress, encode_concat] at hbits
  refine addSkip_eq_push (encode_lt _) ?_ hbits
  rw [encode_bits]
  omega

/-- A score that is kept with a block leaves the kept scores right. -/
lemma CacheValid.update (hcache : CacheValid tree stamps cache) (hnode : ⟨b, priors⟩ ∈ tree.nodes)
    (hstamp : stamps genstamp = last.tip) (hback : last.tip ∈ b :: priors) {score : ℕ × ℕ}
    (hscore : Scores last.tip (b :: priors) score) :
    CacheValid tree stamps (Function.update cache b.bufp ⟨score.1, score.2 % 2^16, genstamp⟩) := by
  intro c hc hne
  by_cases haddress : c.tip.bufp = b.bufp
  · obtain rfl := tree.bufp_inj hc hnode haddress
    simp only [Function.update_self, hstamp]
    refine ⟨hback, fun hbits => ?_⟩
    have heq := hscore.back hback hbits
    have hword : score.2 < 2^16 := by
      rw [heq]
      exact hbits.trans_lt (by decide)
    rw [Nat.mod_eq_of_lt hword]
    exact heq
  · rw [Function.update_of_ne haddress] at hne ⊢
    exact hcache c hc hne

/-- The recursion finds the score of its block, with kept scores or without, and keeps only right scores. -/
lemma calcSkipScoreRecursive_scores (hlast : last ∈ tree.nodes) (hcache : CacheValid tree stamps cache)
    (hstamp : genstamp ≠ 0 → stamps genstamp = last.tip) (hnode : ⟨b, priors⟩ ∈ tree.nodes) :
    Scores last.tip (b :: priors) (calcSkipScoreRecursive last.tip genstamp false priors b cache).1 ∧
      CacheValid tree stamps (calcSkipScoreRecursive last.tip genstamp false priors b cache).2 := by
  induction priors generalizing b cache with
  | nil =>
    rw [calcSkipScoreRecursive]
    refine ⟨?_, hcache⟩
    cases hhere : scoreHere last.tip genstamp false b cache with
    | some score => exact scoreHere_scores hlast hcache hstamp hnode hhere
    | none =>
      refine ⟨fun _ => rfl, fun hmem => ?_⟩
      obtain rfl := List.mem_singleton.1 hmem
      rcases scoreHere_cases last.tip genstamp last.tip cache with ⟨-, -, heq⟩ | ⟨-, heq⟩ | ⟨hne, -⟩ | ⟨hne, -⟩
      · cases hhere.symm.trans heq
      · cases hhere.symm.trans heq
      · exact absurd rfl hne
      · exact absurd rfl hne
  | cons prior rest ih =>
    rw [calcSkipScoreRecursive]
    cases hhere : scoreHere last.tip genstamp false b cache with
    | some score => exact ⟨scoreHere_scores hlast hcache hstamp hnode hhere, hcache⟩
    | none =>
      have haddress : b.bufp ≠ last.tip.bufp := by
        rcases scoreHere_cases last.tip genstamp b cache with ⟨-, -, heq⟩ | ⟨-, heq⟩ | ⟨hne, -⟩ | ⟨hne, -⟩
        · cases hhere.symm.trans heq
        · cases hhere.symm.trans heq
        · exact hne
        · exact hne
      obtain ⟨hscores, hvalid⟩ := ih hcache (tree.prior_mem hnode)
      generalize calcSkipScoreRecursive last.tip genstamp false rest prior cache = result at hscores hvalid
      obtain ⟨score, cache'⟩ := result
      simp only at hscores hvalid ⊢
      split_ifs with hzero hgenstamp
      · refine ⟨⟨fun _ => hzero, fun hmem hbits => ?_⟩, hvalid⟩
        have hmem : last.tip ∈ prior :: rest :=
          (List.mem_cons.1 hmem).resolve_left fun hb => haddress (congrArg Block.bufp hb.symm)
        rw [hscores.back hmem (bits_le_of_cons haddress hbits)] at hzero
        exact absurd hzero (encode_pos _).ne'
      · exact ⟨(hscores.addSkip haddress hzero).2, hvalid⟩
      · obtain ⟨hback, hadded⟩ := hscores.addSkip haddress hzero
        exact ⟨hadded, hvalid.update hnode (hstamp hgenstamp) (List.mem_cons_of_mem _ hback) hadded⟩

end Recursive

section Score
variable {tree : BlockTree} {stamps : ℕ → Block} {last chain : BlockChain} {genstamp : ℕ} {cache : ScoreCache}
  {topWitness : Option ℕ}

/-- `CalcSkipScore` finds zero for a chain beside the last indelible block, and else the aligned code of the skips;
it keeps only right scores. -/
lemma calcSkipScore_spec (topWitness : Option ℕ) (hlast : last ∈ tree.nodes) (hcache : CacheValid tree stamps cache)
    (hstamp : genstamp ≠ 0 → stamps genstamp = last.tip) (hchain : chain ∈ tree.nodes) :
    (last.tip ∉ chain.blocks → (calcSkipScore topWitness last.tip genstamp false chain cache).1 = 0) ∧
      (last.tip ∈ chain.blocks → FitsScore topWitness last.tip chain →
        (calcSkipScore topWitness last.tip genstamp false chain cache).1 =
          align maxScoreBits (encode (skipSequence topWitness last.tip chain))) ∧
      CacheValid tree stamps (calcSkipScore topWitness last.tip genstamp false chain cache).2 := by
  obtain ⟨tip, priors⟩ := chain
  obtain ⟨hscores, hvalid⟩ := calcSkipScoreRecursive_scores hlast hcache hstamp hchain
  simp only [calcSkipScore, Bool.false_eq_true, false_and, if_false]
  generalize calcSkipScoreRecursive last.tip genstamp false priors tip cache = result at hscores hvalid
  obtain ⟨score, cache'⟩ := result
  simp only at hscores hvalid ⊢
  refine ⟨fun hnot => ?_, fun hback hfits => ?_, hvalid⟩
  · have hzero : score = (0, score.2) := Prod.ext (hscores.notBack hnot) rfl
    cases topWitness with
    | none =>
      rw [hzero]
      exact alignScore_zero _
    | some witness =>
      simp only [hscores.notBack hnot, if_true]
      rw [hzero]
      exact alignScore_zero _
  · have hbits := hfits hback
    cases topWitness with
    | none =>
      simp only [skipSequence, Option.map_none, Option.toList_none, List.append_nil] at hbits ⊢
      rw [hscores.back hback hbits]
      exact alignScore_encode hbits
    | some witness =>
      simp only [skipSequence, BlockChain.blocks, Option.map_some, Option.toList_some, encode_concat] at hbits ⊢
      have hprior : (encode (skipsAbove last.tip (tip :: priors))).2 ≤ maxScoreBits :=
        (Nat.le_add_right _ _).trans hbits
      rw [hscores.back hback hprior, if_neg (encode_pos _).ne',
        addSkip_eq_push (encode_lt _) (by rw [encode_bits]; omega) hbits, ← encode_concat]
      exact alignScore_encode (by rwa [encode_concat])

lemma cacheValid_empty (tree : BlockTree) (stamps : ℕ → Block) : CacheValid tree stamps fun _ => {} :=
  fun _ _ hne => absurd rfl hne

lemma skipScore_of_not_mem (hlast : last ∈ tree.nodes) (hchain : chain ∈ tree.nodes) (hnot : last.tip ∉ chain.blocks) :
    skipScore topWitness last.tip chain = 0 :=
  (calcSkipScore_spec topWitness hlast (cacheValid_empty tree fun _ => last.tip) (fun h => absurd rfl h) hchain).1 hnot

lemma skipScore_of_mem (hlast : last ∈ tree.nodes) (hchain : chain ∈ tree.nodes) (hback : last.tip ∈ chain.blocks)
    (hfits : FitsScore topWitness last.tip chain) :
    skipScore topWitness last.tip chain = align maxScoreBits (encode (skipSequence topWitness last.tip chain)) :=
  (calcSkipScore_spec topWitness hlast (cacheValid_empty tree fun _ => last.tip) (fun h => absurd rfl h) hchain).2.1
    hback hfits

/-- A block that was built on a chain has the skips of the chain with its witness on top. -/
lemma skipSequence_built {mint : Option MintEnd} {received : Block} {witness : ℕ} (hlast : last ∈ tree.nodes)
    (hchain : chain ∈ tree.nodes) (hwitness : received.witness = witness)
    (hbuilt : ⟨chainToPrior mint chain.tip received, chain.blocks⟩ ∈ tree.nodes)
    (hne : ⟨chainToPrior mint chain.tip received, chain.blocks⟩ ≠ last) :
    skipSequence none last.tip ⟨chainToPrior mint chain.tip received, chain.blocks⟩ =
      skipSequence (some witness) last.tip chain := by
  have haddress : (chainToPrior mint chain.tip received).bufp ≠ last.tip.bufp :=
    fun heq => hne (tree.bufp_inj hbuilt hlast heq)
  rw [skipSequence, BlockChain.blocks, skipsAbove_cons haddress,
    chainToPrior_skip (tree.nextNwitnesses_pos hchain), hwitness]
  simp only [skipSequence, Option.map_none, Option.toList_none, List.append_nil, Option.map_some, Option.toList_some]

end Score

/-- The scores of the chains of a tree for a last indelible block: none but a chain beside it has score zero, the
others are ordered by their skips from the lowest block up, with smaller skips and longer chains first, and a block to
be built scores as it does once it is built. -/
structure OrderPreserving (tree : BlockTree) (last : BlockChain) : Prop where
  zero : ∀ topWitness, ∀ chain ∈ tree.nodes, FitsScore topWitness last.tip chain →
    (skipScore topWitness last.tip chain = 0 ↔ last.tip ∉ chain.blocks)
  order : ∀ topWitness₁ topWitness₂, ∀ chain₁ ∈ tree.nodes, ∀ chain₂ ∈ tree.nodes,
    last.tip ∈ chain₁.blocks → last.tip ∈ chain₂.blocks →
    FitsScore topWitness₁ last.tip chain₁ → FitsScore topWitness₂ last.tip chain₂ →
    (skipScore topWitness₁ last.tip chain₁ < skipScore topWitness₂ last.tip chain₂ ↔
        List.Lex (· > ·) (skipSequence topWitness₁ last.tip chain₁) (skipSequence topWitness₂ last.tip chain₂)) ∧
      (skipScore topWitness₁ last.tip chain₁ = skipScore topWitness₂ last.tip chain₂ ↔
        skipSequence topWitness₁ last.tip chain₁ = skipSequence topWitness₂ last.tip chain₂)
  built : ∀ mint received witness, ∀ chain ∈ tree.nodes, received.witness = witness →
    let built : BlockChain := ⟨chainToPrior mint chain.tip received, chain.blocks⟩
    built ∈ tree.nodes → built ≠ last → FitsScore (some witness) last.tip chain →
    skipScore (some witness) last.tip chain = skipScore none last.tip built

/-- A call of `CalcSkipScore` outside of tests. -/
structure ScoreCall where
  topWitness : Option ℕ
  last : BlockChain
  genstamp : ℕ
  chain : BlockChain

/-- The scores that calls return one after the other, each with the scores that the earlier ones keep. -/
def scoreCalls : List ScoreCall → ScoreCache → List ℕ
  | [], _ => []
  | c :: calls, cache =>
    let r := calcSkipScore c.topWitness c.last.tip c.genstamp false c.chain cache
    r.1 :: scoreCalls calls r.2

/-- A call is about chains of the tree, and its stamp stands for its last indelible block. -/
structure ScoreCall.On (tree : BlockTree) (stamps : ℕ → Block) (c : ScoreCall) : Prop where
  last_mem : c.last ∈ tree.nodes
  chain_mem : c.chain ∈ tree.nodes
  stamp : c.genstamp ≠ 0 → stamps c.genstamp = c.last.tip

section Runs
variable {tree : BlockTree} {stamps : ℕ → Block}

lemma scoreCalls_eq {calls : List ScoreCall} {cache : ScoreCache} (hcache : CacheValid tree stamps cache)
    (hcalls : ∀ c ∈ calls, c.On tree stamps) :
    List.Forall₂ (fun c score => FitsScore c.topWitness c.last.tip c.chain →
      score = skipScore c.topWitness c.last.tip c.chain) calls (scoreCalls calls cache) := by
  induction calls generalizing cache with
  | nil => exact .nil
  | cons c calls ih =>
    have hc := hcalls c (List.mem_cons_self ..)
    obtain ⟨hnotBack, hback, hvalid⟩ :=
      calcSkipScore_spec c.topWitness hc.last_mem hcache hc.stamp hc.chain_mem
    refine .cons (fun hfits => ?_) (ih hvalid fun d hd => hcalls d (List.mem_cons_of_mem _ hd))
    by_cases hmem : c.last.tip ∈ c.chain.blocks
    · rw [hback hmem hfits, skipScore_of_mem hc.last_mem hc.chain_mem hmem hfits]
    · rw [hnotBack hmem, skipScore_of_not_mem hc.last_mem hc.chain_mem hmem]

/-- Outside of tests the score preserves the order of chains, and any calls that keep scores return the same ones. -/
theorem skipScore_orderPreserving (tree : BlockTree) (stamps : ℕ → Block) (last : BlockChain) (calls : List ScoreCall)
    (hlast : last ∈ tree.nodes) (hcalls : ∀ c ∈ calls, c.On tree stamps) :
    OrderPreserving tree last ∧
      List.Forall₂ (fun c score => FitsScore c.topWitness c.last.tip c.chain →
        score = skipScore c.topWitness c.last.tip c.chain) calls (scoreCalls calls fun _ => {}) := by
  refine ⟨⟨?_, ?_, ?_⟩, scoreCalls_eq (cacheValid_empty tree stamps) hcalls⟩
  · intro topWitness chain hchain hfits
    refine ⟨fun hzero hback => ?_, fun hnot => skipScore_of_not_mem hlast hchain hnot⟩
    rw [skipScore_of_mem hlast hchain hback hfits] at hzero
    exact (align_pos _ _).ne' hzero
  · intro topWitness₁ topWitness₂ chain₁ hchain₁ chain₂ hchain₂ hback₁ hback₂ hfits₁ hfits₂
    rw [skipScore_of_mem hlast hchain₁ hback₁ hfits₁, skipScore_of_mem hlast hchain₂ hback₂ hfits₂]
    refine ⟨align_lt_iff (hfits₁ hback₁) (hfits₂ hback₂), align_inj (hfits₁ hback₁) (hfits₂ hback₂), fun heq => ?_⟩
    rw [heq]
  · intro mint received witness chain hchain hwitness built hbuilt hne hfits
    have hsequence := skipSequence_built hlast hchain hwitness hbuilt hne
    have hmem : last.tip ∈ built.blocks ↔ last.tip ∈ chain.blocks := by
      refine ⟨fun h => (List.mem_cons.1 h).resolve_left fun heq => hne ?_, List.mem_cons_of_mem _⟩
      exact tree.bufp_inj hbuilt hlast (congrArg Block.bufp heq).symm
    by_cases hback : last.tip ∈ chain.blocks
    · have hbuiltFits : FitsScore none last.tip built := fun _ => hsequence ▸ hfits hback
      rw [skipScore_of_mem hlast hchain hback hfits, skipScore_of_mem hlast hbuilt (hmem.2 hback) hbuiltFits,
        hsequence]
    · rw [skipScore_of_not_mem hlast hchain hback, skipScore_of_not_mem hlast hbuilt fun h => hback (hmem.1 h)]

end Runs

section Example

/-- The first block of a chain of four witnesses. -/
def forkRoot : Block :=
  { bufp := 16, oid := 1, priorOid := 0, level := 0, timestamp := 0, witness := 0, nwitnesses := 4, maxmal := 1,
    nconfsigs := 3, nseqconfsigs := 5, nskipconfsigs := 5, nextNwitnesses := 4, nextMaxmal := 1 }

/-- A block on top of it, by the next witness or by one after a skip. -/
def branchBlock (bufp witness skip : ℕ) : Block :=
  { bufp := bufp, oid := bufp, priorOid := 1, level := 1, timestamp := 0, witness := witness, skip := skip,
    nwitnesses := 4, maxmal := 1, nconfsigs := 3, nseqconfsigs := 5, nskipconfsigs := 5, nextNwitnesses := 4,
    nextMaxmal := 1 }

def forkFirst : BlockChain := ⟨branchBlock 32 1 0, [forkRoot]⟩
def forkSecond : BlockChain := ⟨branchBlock 48 2 1, [forkRoot]⟩

/-- Two blocks on top of a first one. -/
def forkTree : BlockTree where
  nodes := [⟨forkRoot, []⟩, forkFirst, forkSecond]
  prior_mem h := by
    simp only [forkFirst, forkSecond, List.mem_cons, BlockChain.mk.injEq, List.not_mem_nil, or_false] at h ⊢
    rcases h with ⟨-, h⟩ | ⟨-, rfl, rfl⟩ | ⟨-, rfl, rfl⟩
    · cases h
    · exact .inl ⟨rfl, rfl⟩
    · exact .inl ⟨rfl, rfl⟩
  level_eq h := by
    simp only [forkFirst, forkSecond, List.mem_cons, BlockChain.mk.injEq, List.not_mem_nil, or_false] at h
    rcases h with ⟨-, h⟩ | ⟨rfl, rfl, -⟩ | ⟨rfl, rfl, -⟩
    · cases h
    · rfl
    · rfl
  bufp_inj hc hd := by
    simp only [List.mem_cons, List.not_mem_nil, or_false] at hc hd
    rcases hc with rfl | rfl | rfl <;> rcases hd with rfl | rfl | rfl <;> decide
  nextNwitnesses_pos {c} hc := by
    revert c
    decide

/-- A test that ignores the signing order scores a chain that does not go back to the last indelible block. -/
theorem maltest_scoresFork : forkFirst ∈ forkTree.nodes ∧ forkSecond ∈ forkTree.nodes ∧
    FitsScore none forkFirst.tip forkSecond ∧ forkFirst.tip ∉ forkSecond.blocks ∧
    (calcSkipScore none forkFirst.tip 0 true forkSecond fun _ => {}).1 ≠ 0 := by
  have hnot : forkFirst.tip ∉ forkSecond.blocks := by decide
  exact ⟨by decide, by decide, fun h => absurd h hnot, hnot, by decide +kernel⟩

/-- The scores of the two blocks above the first one, and of a block to be built on one of them. -/
def forkCalls : List ScoreCall :=
  [⟨none, ⟨forkRoot, []⟩, 1, forkFirst⟩, ⟨none, ⟨forkRoot, []⟩, 1, forkSecond⟩, ⟨some 2, ⟨forkRoot, []⟩, 1, forkFirst⟩]

lemma forkCalls_on : ∀ c ∈ forkCalls, c.On forkTree fun _ => forkRoot := by
  intro c hc
  simp only [forkCalls, List.mem_cons, List.not_mem_nil, or_false] at hc
  rcases hc with rfl | rfl | rfl
  · exact ⟨by decide, by decide, fun _ => rfl⟩
  · exact ⟨by decide, by decide, fun _ => rfl⟩
  · exact ⟨by decide, by decide, fun _ => rfl⟩

theorem forkTree_orderPreserving : OrderPreserving forkTree ⟨forkRoot, []⟩ ∧
    List.Forall₂ (fun c score => FitsScore c.topWitness c.last.tip c.chain →
      score = skipScore c.topWitness c.last.tip c.chain) forkCalls (scoreCalls forkCalls fun _ => {}) :=
  skipScore_orderPreserving forkTree (fun _ => forkRoot) ⟨forkRoot, []⟩ forkCalls (by decide) forkCalls_on

end Example

end CredaCash.Chain
