import CredaCash.Zk.InputRules

/-! The Merkle path of an input: the constraints that lead from a commitment to a Merkle root, and the paths that nodes
serve, which meet them. -/

namespace CredaCash.Zk
open Chain Circuit FieldBits Spend

/-- A turn of the loop of `Merkle`: the hash of two values, for want of a key with the same bases. -/
def hashNode (t : HashTable) (val1 val2 : ZkVar) (skipFinalKnapsack : Bool) : ZkCircuit ZkVar := do
  let bits1 ← extractBits val1 val1.val txFieldBits false false
  let s ← absorb t HashBasis.merkleNode.prfkey {} bits1.bits
  let bits2 ← extractBits val2 val2.val txFieldBits false false
  let s ← absorb t HashBasis.merkleNode.prfkey s bits2.bits
  hashFinish t HashBasis.merkleNode.prfkey s txFieldBits skipFinalKnapsack

/-- `Merkle`; all hashes but the last one skip the last knapsack. -/
def merkle (t : HashTable) : ZkVar → List ZkVar → ZkCircuit ZkVar
  | hash, [] => pure hash
  | hash, input :: rest => do
    let hash ← hashNode t hash input (!rest.isEmpty)
    merkle t hash rest

def checkMerkle {nassets : ℕ} (t : HashTable) (pub : TxInZKPub) (billet : ZkBillet nassets ZkVar ZkWords)
    (enforcePath : Bool) (path : Fin txMerkleDepth → ZkVar) : ZkCircuit Unit := do
  let hash ← hashBits t [billet.commitment.bits, billet.commitnum.bits] .merkleLeaf txFieldBits
  let check ← merkle t hash (List.ofFn path)
  constrainZero ((check - pub.merkleRoot) * zkBit enforcePath)

/-- The sums of a node from the sum of the knapsacks of its inputs. -/
def nodeMixed (sum : ZkVar) : ZkVar := HashState.mixed ⟨sum + sum, sum, sum, 0⟩

/-- The knapsack of an input of a node. -/
def nodeKnapsack (t : HashTable) (v : BitVec txFieldBits) : ZkVar := weighted (knapsackBase t none 0 true) (bitsOf v)

/-- A number that the circuit takes for the hash of two values, as numbers of 254 bits that are equal to them in the
field. -/
def NodeHashes (t : HashTable) (val1 val2 : ZkVar) (skipFinalKnapsack : Bool) (r : ZkVar) : Prop :=
  ∃ v w : BitVec txFieldBits, toVar v = val1 ∧ toVar w = val2 ∧
    if skipFinalKnapsack then r = nodeMixed (nodeKnapsack t v + nodeKnapsack t w)
    else ∃ u : BitVec txFieldBits, toVar u = nodeMixed (nodeKnapsack t v + nodeKnapsack t w) ∧ r = nodeKnapsack t u

/-- A path leads from a value to a root. -/
def Climbs (t : HashTable) : ZkVar → List ZkVar → ZkVar → Prop
  | hash, [], root => root = hash
  | hash, input :: rest, root => ∃ next, NodeHashes t hash input (!rest.isEmpty) next ∧ Climbs t next rest root

/-- The rule for the Merkle path of a commitment. -/
def PathRule {nassets : ℕ} (t : HashTable) (pub : TxInZKPub) (billet : ZkBillet nassets Bool BitVec)
    (enforcePath : Bool) (path : Fin txMerkleDepth → ZkVar) : Prop :=
  enforcePath = true → ∃ leaf, Hashes t .merkleLeaf [bitsOf billet.commitment, bitsOf billet.commitnum] leaf ∧
    Climbs t leaf (List.ofFn path) pub.merkleRoot

section Allows
variable {nassets : ℕ} {t : HashTable} {val1 val2 hash r : ZkVar} {skipFinalKnapsack : Bool} {path : List ZkVar}

lemma nodeState_eq (t : HashTable) (v w : BitVec txFieldBits) :
    (({} : HashState).absorb t none (bitsOf v)).absorb t none (bitsOf w) =
      ⟨nodeKnapsack t v + nodeKnapsack t w + (nodeKnapsack t v + nodeKnapsack t w), nodeKnapsack t v + nodeKnapsack t w,
        nodeKnapsack t v + nodeKnapsack t w, 0⟩ := by
  have hknapsack (basisi : ℕ) (sequential : Bool) (v : BitVec txFieldBits) :
      weighted (knapsackBase t none basisi sequential) (bitsOf v) = nodeKnapsack t v := rfl
  have hbasis (basisi n : ℕ) : nextBasis none basisi n = basisi := rfl
  have hacc : nodeKnapsack t v + nodeKnapsack t v + nodeKnapsack t w + nodeKnapsack t w =
      nodeKnapsack t v + nodeKnapsack t w + (nodeKnapsack t v + nodeKnapsack t w) := by ring
  simp only [HashState.absorb, hknapsack, hbasis, zero_add, hacc]

lemma hashNode_allows : (hashNode t val1 val2 skipFinalKnapsack).Allows r ↔
    NodeHashes t val1 val2 skipFinalKnapsack r := by
  have hfinish (v w : BitVec txFieldBits) :
      (hashFinish t none ((({} : HashState).absorb t none (bitsOf v)).absorb t none (bitsOf w)) txFieldBits
        skipFinalKnapsack).Allows r ↔
      if skipFinalKnapsack then r = nodeMixed (nodeKnapsack t v + nodeKnapsack t w)
      else ∃ u : BitVec txFieldBits, toVar u = nodeMixed (nodeKnapsack t v + nodeKnapsack t w) ∧
        r = nodeKnapsack t u := by
    have htruncate (y : ZkVar) : truncateHash y txFieldBits = pure y := if_pos le_rfl
    rw [nodeState_eq]
    cases skipFinalKnapsack
    · simp only [hashFinish, allows_bind, finalKnapsack_allows, htruncate, allows_pure, exists_eq_right']
      exact exists_bitVec
    · simp only [hashFinish, finalKnapsack, if_true, allows_bind, htruncate, allows_pure, exists_eq_left]
      rfl
  have hextract {x : ZkVar} {P : ExtractedBits → Prop} :
      (∃ e, (∃ v : ℕ, v < 2^txFieldBits ∧ (v : ZkVar) = x ∧ e = ⟨zkBits txFieldBits v, none, none⟩) ∧ P e) ↔
        ∃ v : BitVec txFieldBits, toVar v = x ∧ P ⟨bitsOf v, none, none⟩ := by
    refine Iff.trans ?_ (exists_bitVec (P := fun v => (v : ZkVar) = x ∧ P ⟨zkBits txFieldBits v, none, none⟩))
    constructor
    · rintro ⟨e, ⟨v, hv, hx, he⟩, h⟩
      exact ⟨v, hv, hx, he ▸ h⟩
    · rintro ⟨v, hv, hx, h⟩
      exact ⟨_, ⟨v, hv, hx, rfl⟩, h⟩
  simp only [hashNode, HashBasis.prfkey, allows_bind, extractBits_allows_plain, absorb_allows, exists_eq_left, hextract,
    hfinish, NodeHashes, exists_and_left]

lemma merkle_allows : (merkle t hash path).Allows r ↔ Climbs t hash path r := by
  induction path generalizing hash with
  | nil => exact allows_pure
  | cons input rest ih => simp only [merkle, allows_bind, hashNode_allows, ih, Climbs]

lemma exists_nodeHashes (t : HashTable) (val1 val2 : ZkVar) (skipFinalKnapsack : Bool) :
    ∃ r, NodeHashes t val1 val2 skipFinalKnapsack r := by
  obtain ⟨v, rfl⟩ := exists_toVar val1
  obtain ⟨w, rfl⟩ := exists_toVar val2
  cases skipFinalKnapsack
  · obtain ⟨u, hu⟩ := exists_toVar (nodeMixed (nodeKnapsack t v + nodeKnapsack t w))
    exact ⟨_, v, w, rfl, rfl, u, hu.symm, rfl⟩
  · exact ⟨_, v, w, rfl, rfl, rfl⟩

lemma exists_climbs (t : HashTable) (hash : ZkVar) (path : List ZkVar) : ∃ r, Climbs t hash path r := by
  induction path generalizing hash with
  | nil => exact ⟨hash, rfl⟩
  | cons input rest ih =>
    obtain ⟨next, hnext⟩ := exists_nodeHashes t hash input (!rest.isEmpty)
    obtain ⟨r, hr⟩ := ih next
    exact ⟨r, next, hnext, hr⟩

/-- The constraints of a Merkle path are its rule. -/
theorem checkMerkle_allows {pub : TxInZKPub} {billet : ZkBillet nassets Bool BitVec} {enforcePath : Bool}
    {path : Fin txMerkleDepth → ZkVar} {u : Unit} :
    (checkMerkle t pub (billet.map zkBit word) enforcePath path).Allows u ↔ PathRule t pub billet enforcePath path := by
  simp only [checkMerkle, allows_bind, hashBits_allows, merkle_allows, allows_constrainZero, mul_zkBit_eq_zero,
    sub_eq_zero]
  constructor
  · rintro ⟨leaf, hleaf, root, hclimbs, hroot⟩ he
    exact ⟨leaf, hleaf, hroot he ▸ hclimbs⟩
  · intro h
    by_cases he : enforcePath = true
    · obtain ⟨leaf, hleaf, hclimbs⟩ := h he
      exact ⟨leaf, hleaf, _, hclimbs, fun _ => rfl⟩
    · obtain ⟨leaf, hleaf⟩ := exists_hashes t .merkleLeaf [bitsOf billet.commitment, bitsOf billet.commitnum]
      obtain ⟨root, hclimbs⟩ := exists_climbs t leaf (List.ofFn path)
      exact ⟨leaf, hleaf, root, hclimbs, fun h => absurd h he⟩

end Allows

section Served
variable {t : HashTable}

/-- The number of a field element. -/
def ofVar (x : ZkVar) : BitVec txFieldBits := BitVec.ofNat _ x.val

@[simp] lemma toVar_ofVar (x : ZkVar) : toVar (ofVar x) = x := by
  rw [toVar, ofVar, BitVec.toNat_ofNat, Nat.mod_eq_of_lt ((ZMod.val_lt x).trans fieldPrime_lt), ZMod.natCast_zmod_val]

/-- `CCHash::Hash` with 254 bits: the hash that wallets and nodes compute, where the last knapsack is that of the
smallest number. -/
def zkhash (t : HashTable) (basis : HashBasis) (a : List (List ZkVar)) : ZkVar :=
  finishNumber t basis (hashState t basis a).basisi (hashState t basis a).mixed.val

lemma hashes_zkhash (t : HashTable) (basis : HashBasis) (a : List (List ZkVar)) : Hashes t basis a (zkhash t basis a) :=
  ⟨_, (ZMod.val_lt _).trans fieldPrime_lt, ZMod.natCast_zmod_val _, rfl⟩

/-- The hashes that nodes compute for the commitment tree. -/
def zkTreeHasher (t : HashTable) : TreeHasher (BitVec txFieldBits) ZkVar where
  commitTreeHashLeaf commitment commitnum :=
    ofVar (zkhash t .merkleLeaf [bitsOf commitment, zkBits txCommitnumBits commitnum])
  knapsack := nodeKnapsack t
  hashFinish sum skipFinalKnapsack :=
    ofVar (if skipFinalKnapsack then nodeMixed sum else nodeKnapsack t (ofVar (nodeMixed sum)))

lemma nodeHashes_commitTreeHashNode (v w : BitVec txFieldBits) (skipFinalKnapsack : Bool) :
    NodeHashes t (toVar v) (toVar w) skipFinalKnapsack
      (toVar ((zkTreeHasher t).commitTreeHashNode v w skipFinalKnapsack)) := by
  refine ⟨v, w, rfl, rfl, ?_⟩
  rw [TreeHasher.commitTreeHashNode, zkTreeHasher]
  cases skipFinalKnapsack
  · exact ⟨ofVar _, toVar_ofVar _, toVar_ofVar _⟩
  · exact toVar_ofVar _

/-- The circuit takes the root that a wallet folds a path to. -/
lemma climbs_merkleFold {height : ℕ} (v : BitVec txFieldBits) {path : List (BitVec txFieldBits)}
    (h : height + path.length = txMerkleDepth) :
    Climbs t (toVar v) (path.map toVar) (toVar (merkleFold (zkTreeHasher t) height v path)) := by
  induction path generalizing height v with
  | nil => rfl
  | cons other rest ih =>
    have hskip : (!(rest.map toVar).isEmpty) = decide (height < txMerkleDepth - 1) := by
      rw [List.length_cons] at h
      cases rest with
      | nil => simp_all
      | cons other' rest => 
        simp only [List.map_cons, List.isEmpty_cons, Bool.not_false, List.length_cons] at h ⊢
        exact (decide_eq_true (by omega)).symm
    refine ⟨toVar ((zkTreeHasher t).commitTreeHashNode v other (height < txMerkleDepth - 1)), ?_, ?_⟩
    · rw [hskip]
      exact nodeHashes_commitTreeHashNode v other _
    · exact ih _ (by rw [List.length_cons] at h; omega)

/-- Whatever blocks a chain has, a path that a node serves leads from its commitment to the root of the report in the
circuit, when the commitment is in the last tree. -/
theorem servedPath_climbs (t : HashTable) (ownBlockchain : ℕ) (root : BitVec txFieldBits)
    (chain : List (CommitBlock (BitVec txFieldBits))) {st : CommitState (BitVec txFieldBits)} {rowEnd blockchain : ℕ}
    {commitnums : List ℕ} (hst : commitBlocks (zkTreeHasher t) root chain = some st)
    (hrowEnd : st.commitnumHi = some rowEnd) (hnum : commitnums.length ≤ txMaxInPath)
    (hblockchain : blockchain = 0 ∨ blockchain = ownBlockchain) (hle : ∀ commitnum ∈ commitnums, commitnum ≤ rowEnd) :
    ∃ paramLevel paramTime merkleRoot inputs,
      handleTxQueryInputs (zkTreeHasher t) ownBlockchain st blockchain commitnums =
        .report paramLevel paramTime merkleRoot inputs ∧ inputs.map Prod.fst = commitnums ∧
      ∀ input ∈ inputs, ∃ commitment, st.commitTree 0 input.1 = some commitment ∧
        (input.1 / 2^txMerkleDepth = rowEnd / 2^txMerkleDepth → ∃ leaf, Hashes t .merkleLeaf
          [bitsOf commitment, zkBits txCommitnumBits input.1] leaf ∧
            Climbs t leaf (input.2.map toVar) (toVar merkleRoot)) := by
  obtain ⟨st', hst', hcons⟩ := commitBlocks_consistent (zkTreeHasher t) root chain
  obtain rfl : st' = st := Option.some_inj.1 (hst'.symm.trans hst)
  have hne : allCommitments chain ≠ [] := by
    intro hempty
    rw [hcons.empty hempty] at hrowEnd
    cases hrowEnd
  obtain ⟨nullhash, hstored⟩ := hcons.stored hne
  obtain rfl : (allCommitments chain).length - 1 = rowEnd := Option.some_inj.1 (hstored.rowEnd.symm.trans hrowEnd)
  obtain ⟨row, -, paramTime, hroot, hanswer⟩ := handleTxQueryInputs_eq ownBlockchain hcons hstored hne commitnums hnum
    hblockchain hle
  refine ⟨row.level, paramTime, row.merkleRoot, _, hanswer, by rw [List.map_map]; exact List.map_id' commitnums, ?_⟩
  intro input hinput
  obtain ⟨commitnum, hmem, rfl⟩ := List.mem_map.1 hinput
  have hlt : commitnum < (allCommitments chain).length := by
    have := hle commitnum hmem
    have := List.length_pos_iff.2 hne
    omega
  refine ⟨(allCommitments chain)[commitnum], by rw [hcons.leaves, List.getElem?_eq_getElem hlt], fun hlast => ?_⟩
  have hclimb := climb_referencePath (zkTreeHasher t) nullhash txMerkleDepth (hle commitnum hmem)
  rw [hlast, ← hroot, List.getD_eq_getElem?_getD, List.getElem?_eq_getElem hlt, Option.getD_some,
    ← merkleFold_eq_climb] at hclimb
  have hlength : (referencePath (zkTreeHasher t) (allCommitments chain) nullhash 0 commitnum txMerkleDepth).length =
      txMerkleDepth := MerkleTree.path_length ..
  have hfold := climbs_merkleFold (t := t)
    ((zkTreeHasher t).commitTreeHashLeaf (allCommitments chain)[commitnum] commitnum) ((Nat.zero_add _).trans hlength)
  rw [hclimb] at hfold
  refine ⟨_, ?_, hfold⟩
  rw [zkTreeHasher, toVar_ofVar]
  exact hashes_zkhash t _ _

/-- The path of the only commitment of a chain. -/
theorem servedPath_climbs_single : ∃ st, commitBlocks (zkTreeHasher noRandom) 0 [⟨0, [5], 0⟩] = some st ∧
    ∃ paramLevel paramTime merkleRoot inputs, handleTxQueryInputs (zkTreeHasher noRandom) 1 st 0 [0] =
        .report paramLevel paramTime merkleRoot inputs ∧ inputs.map Prod.fst = [0] ∧
      ∀ input ∈ inputs, ∃ commitment, st.commitTree 0 input.1 = some commitment ∧
        (input.1 / 2^txMerkleDepth = 0 / 2^txMerkleDepth → ∃ leaf, Hashes noRandom .merkleLeaf
          [bitsOf commitment, zkBits txCommitnumBits input.1] leaf ∧
            Climbs noRandom leaf (input.2.map toVar) (toVar merkleRoot)) := by
  obtain ⟨st, hst, hcons⟩ := commitBlocks_consistent (zkTreeHasher noRandom) 0 [⟨0, [5], 0⟩]
  obtain ⟨nullhash, hstored⟩ := hcons.stored (List.cons_ne_nil _ _)
  exact ⟨st, hst, servedPath_climbs noRandom 1 0 _ hst hstored.rowEnd (by decide) (.inl rfl)
    (by simp)⟩

end Served

end CredaCash.Zk
