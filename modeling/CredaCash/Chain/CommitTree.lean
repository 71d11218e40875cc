import CredaCash.Chain.TxValidate
import CredaCash.MerkleTree

/-! The commitment tree: the nodes that are stored as blocks add commitments, and the Merkle paths that are
served from them. -/

namespace CredaCash.Chain
open Wire MerkleTree

def txMerkleDepth : ℕ := 40
def txMaxInPath : ℕ := 8

/-- The hashes of the tree. The inputs of a node are added up in a field: the bits of each go through
`Knapsack1` with the same bases, for want of a key. -/
structure TreeHasher (H F : Type) [AddCommMagma F] where
  commitTreeHashLeaf : H → ℕ → H
  knapsack : H → F
  hashFinish : F → Bool → H

variable {H F : Type} [AddCommMagma F] (hasher : TreeHasher H F)

/-- `tx_commit_tree_hash_node`. -/
def TreeHasher.commitTreeHashNode (val1 val2 : H) (skipFinalKnapsack : Bool) : H :=
  hasher.hashFinish (hasher.knapsack val1 + hasher.knapsack val2) skipFinalKnapsack

structure CommitRootRow (H : Type) where
  level : ℕ
  timestamp : ℕ
  nextCommitnum : ℕ
  merkleRoot : H
  deriving DecidableEq

structure CommitState (H : Type) where
  commitTree : ℕ → ℕ → Option H := fun _ _ => none
  commitRoots : List (CommitRootRow H) := []
  blocklevel : Option ℕ := none
  commitnumHi : Option ℕ := none
  nullInput : Option H := none
  nextCommitnum : ℕ := 0
  nextTreeUpdateCommitnum : ℕ := 0

/-- `CommitTreeInsert`, which replaces. -/
def commitTreeInsert (tree : ℕ → ℕ → Option H) (height offset : ℕ) (data : H) : ℕ → ℕ → Option H :=
  fun h i => if h = height ∧ i = offset then some data else tree h i

/-- A node as an input of a hash: at height 0 the table has commitments, which are hashed first. -/
def commitTreeNode (tree : ℕ → ℕ → Option H) (height offset : ℕ) : Option H :=
  (tree height offset).map fun data => if height = 0 then hasher.commitTreeHashLeaf data offset else data

/-- `CommitRootsInsert`; the levels and the commitment numbers of the table are unique. -/
def commitRootsInsert (roots : List (CommitRootRow H)) (row : CommitRootRow H) : Option (List (CommitRootRow H)) :=
  if roots.any fun r => r.level = row.level || r.nextCommitnum = row.nextCommitnum then none else some (row :: roots)

/-- `AddCommitment` with the next commitment number. -/
def addCommitment (st : CommitState H) (commitment : H) : CommitState H :=
  { st with
    commitTree := commitTreeInsert st.commitTree 0 st.nextCommitnum commitment
    nextCommitnum := st.nextCommitnum + 1 }

def commitTreeNodeOrNull (tree : ℕ → ℕ → Option H) (nullhash : H) (height rowEnd offset : ℕ) : Option H :=
  if rowEnd < offset then some nullhash else commitTreeNode hasher tree height offset

/-- One height of `UpdateCommitTree`: the loop over the pairs from an offset to the end of the row, with
the hash of the last pair. -/
def updateRow (height : ℕ) (nullhash : H) (rowEnd : ℕ) :
    ℕ → ℕ → (ℕ → ℕ → Option H) → H → Option ((ℕ → ℕ → Option H) × H)
  | 0, _, tree, hash => some (tree, hash)
  | n+1, offset, tree, hash =>
    if rowEnd < offset then some (tree, hash)
    else do
      let hash1 ← commitTreeNode hasher tree height offset
      let hash2 ← commitTreeNodeOrNull hasher tree nullhash height rowEnd (offset + 1)
      let hash := hasher.commitTreeHashNode hash1 hash2 (height < txMerkleDepth - 1)
      updateRow height nullhash rowEnd n (offset + 2) (commitTreeInsert tree (height + 1) (offset / 2) hash) hash

/-- The heights of `UpdateCommitTree`, from a given one. -/
def updateRows (nullhash : H) : ℕ → ℕ → ℕ → ℕ → (ℕ → ℕ → Option H) → H → Option ((ℕ → ℕ → Option H) × H)
  | 0, _, _, _, tree, hash => some (tree, hash)
  | n+1, height, rowStart, rowEnd, tree, hash => do
    let (tree, hash) ← updateRow hasher height nullhash rowEnd (rowEnd + 1) rowStart tree hash
    updateRows nullhash n (height + 1) (rowStart / 2 / 2 * 2) (rowEnd / 2) tree hash

/-- The end of `UpdateCommitTree`, which stores a root. -/
def saveCommitRoot (level timestamp : ℕ) (hash : H) (st : CommitState H) : Option (CommitState H) := do
  let roots ← commitRootsInsert st.commitRoots
    { level := level, timestamp := if level = 0 then 0 else timestamp, nextCommitnum := st.nextCommitnum,
      merkleRoot := hash }
  return { st with blocklevel := some level, commitRoots := roots }

/-- `UpdateCommitTree` for a block; `blockchain` is the root of the empty tree, `nullhash` comes from the
hash of the block. None stands for an error. -/
def updateCommitTree (blockchain : H) (level timestamp : ℕ) (nullhash : H) (st : CommitState H) :
    Option (CommitState H) :=
  if st.nextTreeUpdateCommitnum ≠ st.nextCommitnum then do
    let (tree, hash) ← updateRows hasher nullhash txMerkleDepth 0 (st.nextTreeUpdateCommitnum / 2 * 2)
      (st.nextCommitnum - 1) st.commitTree blockchain
    saveCommitRoot level timestamp hash
      { st with commitTree := tree, commitnumHi := some (st.nextCommitnum - 1), nullInput := some nullhash,
                nextTreeUpdateCommitnum := st.nextCommitnum }
  else if level = 0 then saveCommitRoot level timestamp blockchain st
  else some st

structure CommitBlock (H : Type) where
  timestamp : ℕ
  commitments : List H
  nullhash : H

/-- The state after the blocks of a chain, the newest first, whose levels count from 0. -/
def commitBlocks (blockchain : H) : List (CommitBlock H) → Option (CommitState H)
  | [] => some {}
  | b :: earlier => do
    let st ← commitBlocks blockchain earlier
    updateCommitTree hasher blockchain earlier.length b.timestamp b.nullhash (b.commitments.foldl addCommitment st)

/-- `Commitments::Init`: the counters after a restart. -/
def initCommitments (st : CommitState H) : CommitState H :=
  match st.commitnumHi with
  | none => { st with nextCommitnum := 0, nextTreeUpdateCommitnum := 0 }
  | some rowEnd => { st with nextCommitnum := rowEnd + 1, nextTreeUpdateCommitnum := rowEnd + 1 }

/-- The siblings that a query reads, from a height on. -/
def merklePath (st : CommitState H) (nullhash : H) : ℕ → ℕ → ℕ → ℕ → Option (List H)
  | 0, _, _, _ => some []
  | n+1, height, offset, rowEnd => do
    let offset := offset ^^^ 1
    let hash ← commitTreeNodeOrNull hasher st.commitTree nullhash height rowEnd offset
    let rest ← merklePath st nullhash n (height + 1) (offset / 2) (rowEnd / 2)
    return hash :: rest

inductive InputsAnswer (H : Type)
  | serverError
  | tooManyObjects
  | blockchainNumberError
  | notFound (index : ℕ)
  | report (paramLevel paramTime : ℕ) (merkleRoot : H) (inputs : List (ℕ × List H))

/-- The inputs of a query, one after the other: their paths, or the answer that ends the query. -/
def queryInputs (st : CommitState H) (nullhash : H) (rowEnd : ℕ) :
    ℕ → List ℕ → Except (InputsAnswer H) (List (ℕ × List H))
  | _, [] => .ok []
  | i, commitnum :: rest => do
    if rowEnd < commitnum then .error (.notFound i)
    else
      match merklePath hasher st nullhash txMerkleDepth 0 commitnum rowEnd with
      | none => .error .serverError
      | some path => do
        let rest ← queryInputs st nullhash rowEnd (i + 1) rest
        return (commitnum, path) :: rest

/-- `HandleTxQueryInputs` on a node of a blockchain, for the blockchain and the commitment numbers of a well
formed message. -/
def handleTxQueryInputs (ownBlockchain : ℕ) (st : CommitState H) (blockchain : ℕ) (commitnums : List ℕ) :
    InputsAnswer H :=
  if txMaxInPath < commitnums.length then .tooManyObjects
  else if blockchain ≠ 0 ∧ blockchain ≠ ownBlockchain then .blockchainNumberError
  else
    match st.blocklevel with
    | none => .serverError
    | some paramLevel =>
      match st.commitRoots.find? (·.level = paramLevel), st.commitnumHi, st.nullInput with
      | some root, some rowEnd, some nullhash =>
        match queryInputs hasher st nullhash rowEnd 0 commitnums with
        | .error answer => answer
        | .ok inputs =>
          .report paramLevel (if timeOffset < root.timestamp then (root.timestamp - timeOffset) / timeDivisor else 0)
            root.merkleRoot inputs
      | _, _, _ => .serverError

/-- `ZKHasher::Merkle`, as a wallet and the proof fold a path, whose values need no order. -/
def merkleFold : ℕ → H → List H → H
  | _, hash, [] => hash
  | height, hash, other :: rest =>
    merkleFold (height + 1) (hasher.commitTreeHashNode hash other (height < txMerkleDepth - 1)) rest

def precheckInputPath [DecidableEq H] (commitment : H) (commitnum : ℕ) (path : List H) (merkleRoot : H) : Bool :=
  merkleFold hasher 0 (hasher.commitTreeHashLeaf commitment commitnum) path = merkleRoot

/-- The tree over all commitments, computed from scratch with a null value for missing right siblings. -/
def referenceNode (commitments : List H) (nullhash : H) : ℕ → ℕ → H :=
  node (fun i => hasher.commitTreeHashLeaf (commitments.getD i nullhash) i)
    (fun height val1 val2 => hasher.commitTreeHashNode val1 val2 (height < txMerkleDepth - 1)) nullhash
    (commitments.length - 1)

section Update
variable {hasher} {tree : ℕ → ℕ → Option H}

@[simp] lemma commitTreeInsert_same (height offset : ℕ) (data : H) :
    commitTreeInsert tree height offset data height offset = some data := by
  simp [commitTreeInsert]

lemma commitTreeInsert_of_ne_height {height h : ℕ} (offset : ℕ) (data : H) (i : ℕ) (hne : h ≠ height) :
    commitTreeInsert tree height offset data h i = tree h i := by
  simp [commitTreeInsert, hne]

lemma commitTreeNode_congr {tree' : ℕ → ℕ → Option H} {height i : ℕ} (h : tree height i = tree' height i) :
    commitTreeNode hasher tree height i = commitTreeNode hasher tree' height i := by
  rw [commitTreeNode, commitTreeNode, h]

lemma commitTreeNode_of_pos {height : ℕ} (i : ℕ) (hpos : height ≠ 0) :
    commitTreeNode hasher tree height i = tree height i := by
  rw [commitTreeNode, Option.map_congr (f := fun data => if height = 0 then _ else data) (g := id)]
  · exact Option.map_id'
  · exact fun data _ => if_neg hpos

def pairHash (hasher : TreeHasher H F) (height : ℕ) (nullhash : H) (rowEnd : ℕ) (row : ℕ → H) (i : ℕ) : H :=
  hasher.commitTreeHashNode (row (2*i)) (if 2*i + 1 ≤ rowEnd then row (2*i + 1) else nullhash)
    (height < txMerkleDepth - 1)

lemma updateRow_eq {height rowEnd : ℕ} (nullhash : H) {row : ℕ → H} {n k : ℕ} (hash : H)
    (hrow : ∀ i ≤ rowEnd, commitTreeNode hasher tree height i = some (row i)) (hk : 2*k ≤ rowEnd)
    (hn : rowEnd < 2*k + 2*n) : updateRow hasher height nullhash rowEnd n (2*k) tree hash =
      some (fun h i => if h = height + 1 ∧ k ≤ i ∧ i ≤ rowEnd / 2 then some (pairHash hasher height nullhash rowEnd row i)
        else tree h i, pairHash hasher height nullhash rowEnd row (rowEnd / 2)) := by
  induction n generalizing tree k hash with
  | zero => omega
  | succ n ih =>
    have hhash2 : commitTreeNodeOrNull hasher tree nullhash height rowEnd (2*k + 1) =
        some (if 2*k + 1 ≤ rowEnd then row (2*k + 1) else nullhash) := by
      unfold commitTreeNodeOrNull
      split_ifs with h1 h2 h2
      · omega
      · rfl
      · exact hrow _ h2
      · omega
    have hhalf : 2*k / 2 = k := by omega
    rw [updateRow, if_neg (by omega), hrow _ hk, hhash2, hhalf]
    change updateRow hasher height nullhash rowEnd n (2*k + 2)
      (commitTreeInsert tree (height + 1) k (pairHash hasher height nullhash rowEnd row k))
      (pairHash hasher height nullhash rowEnd row k) = _
    by_cases hnext : 2*(k + 1) ≤ rowEnd
    · have hrow' (i : ℕ) (hi : i ≤ rowEnd) : commitTreeNode hasher (commitTreeInsert tree (height + 1) k
          (pairHash hasher height nullhash rowEnd row k)) height i = some (row i) := by
        rw [← hrow i hi]
        exact commitTreeNode_congr (commitTreeInsert_of_ne_height _ _ _ (by omega))
      rw [show 2*k + 2 = 2*(k + 1) by ring, ih _ hrow' hnext (by omega)]
      congr 2
      funext h i
      simp only [commitTreeInsert]
      have hle : k ≤ rowEnd / 2 := by omega
      by_cases hh : h = height + 1
      · by_cases hik : i = k
        · simp [hh, hik, hle]
        · simp only [hh, hik, true_and, and_false, if_false]
          exact if_congr (by omega) rfl rfl
      · simp [hh]
    · -- the last pair
      have hend : rowEnd / 2 = k := by omega
      have hstop : updateRow hasher height nullhash rowEnd n (2*k + 2)
          (commitTreeInsert tree (height + 1) k (pairHash hasher height nullhash rowEnd row k))
          (pairHash hasher height nullhash rowEnd row k) =
          some (commitTreeInsert tree (height + 1) k (pairHash hasher height nullhash rowEnd row k),
            pairHash hasher height nullhash rowEnd row k) := by
        cases n with
        | zero => rfl
        | succ n => rw [updateRow, if_pos (by omega)]
      rw [hstop, hend]
      congr 2
      funext h i
      simp only [commitTreeInsert]
      by_cases hik : i = k
      · simp [hik]
      · have hnot : ¬ (k ≤ i ∧ i ≤ k) := by omega
        simp [hik, hnot]

lemma updateRow_next {height rowEnd : ℕ} (nullhash : H) {row : ℕ → H} {n k : ℕ} (hash : H)
    (hrow : ∀ i ≤ rowEnd, commitTreeNode hasher tree height i = some (row i)) (hk : 2*k ≤ rowEnd)
    (hn : rowEnd < 2*k + 2*n) : ∃ next, updateRow hasher height nullhash rowEnd n (2*k) tree hash =
        some (next, pairHash hasher height nullhash rowEnd row (rowEnd / 2)) ∧
      (∀ i, next (height + 1) i = if k ≤ i ∧ i ≤ rowEnd / 2 then some (pairHash hasher height nullhash rowEnd row i)
        else tree (height + 1) i) ∧ ∀ h ≠ height + 1, next h = tree h := by
  refine ⟨_, updateRow_eq nullhash hash hrow hk hn, fun i => ?_, fun h hne => ?_⟩
  · exact if_congr (by simp) rfl rfl
  · funext i
    exact if_neg fun hand => hne hand.1

def RowStored (tree : ℕ → ℕ → Option H) (nodes : ℕ → ℕ → H) (height last : ℕ) : Prop :=
  ∀ i ≤ last / 2^height, tree height i = some (nodes height i)

/-- All heights: from the right edge of the old tree on the nodes are computed anew, the nodes before it
are those of the new tree already. -/
lemma updateRows_eq {nullhash : H} {nodes : ℕ → ℕ → H} {count last : ℕ} (hcount : count ≤ last)
    (hnodes : ∀ height i, nodes (height + 1) i =
      pairHash hasher height nullhash (last / 2^height) (nodes height) i)
    {n height : ℕ} (hash : H) (hrow : ∀ i ≤ last / 2^height, commitTreeNode hasher tree height i = some (nodes height i))
    (hold : ∀ h i, height < h → h ≤ height + n → i < count / 2^h → tree h i = some (nodes h i)) :
    ∃ tree', updateRows hasher nullhash n height (count / 2^(height + 1) * 2) (last / 2^height) tree hash =
        some (tree', if n = 0 then hash else nodes (height + n) (last / 2^(height + n))) ∧
      (∀ h, height < h → h ≤ height + n → RowStored tree' nodes h last) ∧ ∀ h ≤ height, tree' h = tree h := by
  induction n generalizing height tree hash with
  | zero => exact ⟨tree, rfl, fun h hlt hle => absurd hlt (not_lt.2 hle), fun h _ => rfl⟩
  | succ n ih =>
    have hup : last / 2^(height + 1) = last / 2^height / 2 := div_pow_succ ..
    have hcup : count / 2^(height + 1) = count / 2^height / 2 := div_pow_succ ..
    have hcle : count / 2^height ≤ last / 2^height := Nat.div_le_div_right hcount
    obtain ⟨next, hupdate, hnext, hother⟩ := updateRow_next (k := count / 2^(height + 1)) (n := last / 2^height + 1)
      nullhash hash hrow (by omega) (by omega)
    simp only [← hnodes, ← hup] at hupdate hnext
    have hstored (i : ℕ) (hi : i ≤ last / 2^(height + 1)) : next (height + 1) i = some (nodes (height + 1) i) := by
      rw [hnext]
      by_cases hnew : count / 2^(height + 1) ≤ i
      · rw [if_pos ⟨hnew, hi⟩]
      · rw [if_neg fun hand => hnew hand.1]
        exact hold _ i (Nat.lt_succ_self _) (by omega) (not_le.1 hnew)
    have hstart : count / 2^(height + 1) * 2 / 2 / 2 * 2 = count / 2^(height + 1 + 1) * 2 := by
      rw [Nat.mul_div_cancel _ (Nat.succ_pos 1), ← div_pow_succ]
    obtain ⟨tree', hrun, hrows, hsame⟩ := @ih next (height + 1) (nodes (height + 1) (last / 2^(height + 1)))
      (fun i hi => by rw [commitTreeNode_of_pos _ (Nat.succ_ne_zero _), hstored i hi])
      (fun h i hlt hle hi => by rw [hother h (by omega)]; exact hold h i (by omega) (by omega) hi)
    refine ⟨tree', ?_, fun h hlt hle => ?_, fun h hle => ?_⟩
    · rw [Nat.mul_comm] at hupdate
      rw [updateRows, hupdate]
      change updateRows hasher nullhash n (height + 1) (count / 2^(height + 1) * 2 / 2 / 2 * 2) (last / 2^height / 2)
        next (nodes (height + 1) (last / 2^(height + 1))) = _
      rw [hstart, ← hup, hrun, if_neg (Nat.succ_ne_zero n), Nat.add_right_comm, Nat.add_assoc height n 1]
      split_ifs with hn
      · rw [hn]
      · rfl
    · rcases Nat.lt_or_eq_of_le hlt with hlt | rfl
      · exact hrows h hlt (by omega)
      · intro i hi
        rw [hsame _ (le_refl _), hstored i hi]
    · rw [hsame h (Nat.le_succ_of_le hle), hother h (by omega)]

end Update

section Chain
variable {hasher} {st : CommitState H} {commitments : List H} {blocks : ℕ}

def allCommitments : List (CommitBlock H) → List H
  | [] => []
  | b :: earlier => allCommitments earlier ++ b.commitments

/-- The tables hold the reference tree over the commitments: every inner node up to the end of its row,
and the root in the newest row. After a full tree of the greatest depth the next one follows, whose root
is the last node of the top row. -/
structure TreeStored (hasher : TreeHasher H F) (st : CommitState H) (commitments : List H) (nullhash : H) : Prop where
  rowEnd : st.commitnumHi = some (commitments.length - 1)
  nullInput : st.nullInput = some nullhash
  nodes : ∀ h, 0 < h → h ≤ txMerkleDepth →
    RowStored st.commitTree (referenceNode hasher commitments nullhash) h (commitments.length - 1)
  root : ∃ row rows, st.commitRoots = row :: rows ∧ st.blocklevel = some row.level ∧
    row.nextCommitnum = commitments.length ∧ row.merkleRoot =
      referenceNode hasher commitments nullhash txMerkleDepth ((commitments.length - 1) / 2^txMerkleDepth)

structure Consistent (hasher : TreeHasher H F) (st : CommitState H) (commitments : List H) (blocks : ℕ) : Prop where
  next : st.nextCommitnum = commitments.length
  updated : st.nextTreeUpdateCommitnum = commitments.length
  leaves : ∀ i, st.commitTree 0 i = commitments[i]?
  roots : ∀ row ∈ st.commitRoots, row.level < blocks ∧ row.nextCommitnum ≤ commitments.length
  empty : commitments = [] → st.commitnumHi = none
  stored : commitments ≠ [] → ∃ nullhash, TreeStored hasher st commitments nullhash

lemma foldl_addCommitment (added : List H) (hnext : st.nextCommitnum = commitments.length)
    (hleaves : ∀ i, st.commitTree 0 i = commitments[i]?) :
    ∃ tree, added.foldl addCommitment st =
        { st with commitTree := tree, nextCommitnum := (commitments ++ added).length } ∧
      (∀ i, tree 0 i = (commitments ++ added)[i]?) ∧ ∀ h, 0 < h → tree h = st.commitTree h := by
  induction added generalizing st commitments with
  | nil => exact ⟨st.commitTree, by simp [← hnext], by simpa using hleaves, fun h _ => rfl⟩
  | cons commitment added ih =>
    have hleaves' (i : ℕ) : (addCommitment st commitment).commitTree 0 i = (commitments ++ [commitment])[i]? := by
      simp only [addCommitment, commitTreeInsert, hnext, true_and]
      split_ifs with hi
      · simp [hi]
      · rw [hleaves, List.getElem?_append]
        split_ifs with hlt
        · rfl
        · have hpos : i - commitments.length ≠ 0 := by omega
          obtain ⟨j, hj⟩ := Nat.exists_eq_succ_of_ne_zero hpos
          simp [hj, not_lt.1 hlt]
    obtain ⟨tree, hrun, htree, hother⟩ :=
      @ih (addCommitment st commitment) (commitments ++ [commitment]) (by simp [addCommitment, hnext]) hleaves'
    refine ⟨tree, ?_, by simpa using htree, fun h hpos => ?_⟩
    · rw [List.foldl_cons, hrun]
      simp [addCommitment]
    · rw [hother h hpos]
      funext i
      exact commitTreeInsert_of_ne_height _ _ _ (by omega)

lemma referenceNode_append (added : List H) (nullhash nullhash' : H) {h i : ℕ} (hi : i < commitments.length / 2^h) :
    referenceNode hasher commitments nullhash h i = referenceNode hasher (commitments ++ added) nullhash' h i := by
  have hfull : (i + 1) * 2^h ≤ commitments.length := (Nat.le_div_iff_mul_le (Nat.two_pow_pos h)).1 hi
  have hpos : 0 < (i + 1) * 2^h := Nat.mul_pos (Nat.succ_pos i) (Nat.two_pow_pos h)
  refine node_complete (by omega) (by rw [List.length_append]; omega) fun j hj => ?_
  rw [List.getD_eq_getElem?_getD, List.getD_eq_getElem?_getD, List.getElem?_append_left (by omega),
    List.getElem?_eq_getElem (by omega), Option.getD_some, Option.getD_some]

lemma commitTreeNode_leaf {tree : ℕ → ℕ → Option H} (nullhash : H) (hleaves : ∀ i, tree 0 i = commitments[i]?)
    {i : ℕ} (hi : i < commitments.length) :
    commitTreeNode hasher tree 0 i = some (referenceNode hasher commitments nullhash 0 i) := by
  rw [commitTreeNode, hleaves, List.getElem?_eq_getElem hi]
  simp [referenceNode, node, List.getD_eq_getElem?_getD, List.getElem?_eq_getElem hi]

lemma TreeStored.complete {nullhash : H} (h : TreeStored hasher st commitments nullhash) (added : List H)
    (nullhash' : H) {height i : ℕ} (hpos : 0 < height) (hle : height ≤ txMerkleDepth)
    (hi : i < commitments.length / 2^height) :
    st.commitTree height i = some (referenceNode hasher (commitments ++ added) nullhash' height i) := by
  have hfull : (i + 1) * 2^height ≤ commitments.length := (Nat.le_div_iff_mul_le (Nat.two_pow_pos height)).1 hi
  have hlast : i * 2^height ≤ commitments.length - 1 := by
    have hpow := Nat.two_pow_pos height
    rw [Nat.succ_mul] at hfull
    omega
  rw [h.nodes height hpos hle i ((Nat.le_div_iff_mul_le (Nat.two_pow_pos height)).2 hlast),
    referenceNode_append added nullhash nullhash' hi]

lemma saveCommitRoot_eq (st : CommitState H) (level timestamp : ℕ) (hash : H)
    (hnew : ∀ row ∈ st.commitRoots, row.level ≠ level ∧ row.nextCommitnum ≠ st.nextCommitnum) :
    ∃ row, row.level = level ∧ row.nextCommitnum = st.nextCommitnum ∧ row.merkleRoot = hash ∧
      saveCommitRoot level timestamp hash st =
        some { st with blocklevel := some level, commitRoots := row :: st.commitRoots } := by
  refine ⟨⟨level, if level = 0 then 0 else timestamp, st.nextCommitnum, hash⟩, rfl, rfl, rfl, ?_⟩
  have hinsert : (st.commitRoots.any fun r => r.level = level || r.nextCommitnum = st.nextCommitnum) = false := by
    simpa using hnew
  simp [saveCommitRoot, commitRootsInsert, hinsert]

lemma updateCommitTree_stored {added : List H} (blockchain : H) (timestamp : ℕ) (nullhash : H)
    (h : Consistent hasher st commitments blocks) (hadded : added ≠ []) :
    ∃ st', updateCommitTree hasher blockchain blocks timestamp nullhash (added.foldl addCommitment st) = some st' ∧
      Consistent hasher st' (commitments ++ added) (blocks + 1) ∧ st'.blocklevel = some blocks ∧
      TreeStored hasher st' (commitments ++ added) nullhash := by
  obtain ⟨tree, hrun, hleaves, hother⟩ := foldl_addCommitment added h.next h.leaves
  have hlength : 0 < added.length := List.length_pos_iff.2 hadded
  have htotal : (commitments ++ added).length = commitments.length + added.length := List.length_append
  obtain ⟨tree', hupdate, hrows, hsame⟩ := @updateRows_eq H F _ hasher tree nullhash
    (referenceNode hasher (commitments ++ added) nullhash) commitments.length ((commitments ++ added).length - 1)
    (by omega) (fun height i => rfl) txMerkleDepth 0 blockchain
    (fun i hi => commitTreeNode_leaf nullhash hleaves (by rw [pow_zero, Nat.div_one] at hi; omega))
    (fun height i hpos hle hi => by
      have hold : commitments ≠ [] := by
        rintro rfl
        simp at hi
      obtain ⟨nullhash', hstored⟩ := h.stored hold
      rw [hother height hpos]
      exact hstored.complete added nullhash hpos (by omega) hi)
  rw [if_neg (by decide)] at hupdate
  simp only [Nat.zero_add, pow_one, pow_zero, Nat.div_one] at hupdate
  obtain ⟨row, hlevel, hnum, hroot, hsave⟩ := saveCommitRoot_eq
    { st with
      commitTree := tree', nextCommitnum := (commitments ++ added).length
      commitnumHi := some ((commitments ++ added).length - 1), nullInput := some nullhash
      nextTreeUpdateCommitnum := (commitments ++ added).length }
    blocks timestamp (referenceNode hasher (commitments ++ added) nullhash txMerkleDepth
      (((commitments ++ added).length - 1) / 2^txMerkleDepth))
    (fun row hrow => ⟨(h.roots row hrow).1.ne, by have := (h.roots row hrow).2; simp only; omega⟩)
  have hstored : TreeStored hasher
      { st with
        commitTree := tree', nextCommitnum := (commitments ++ added).length
        commitnumHi := some ((commitments ++ added).length - 1), nullInput := some nullhash
        nextTreeUpdateCommitnum := (commitments ++ added).length, blocklevel := some blocks
        commitRoots := row :: st.commitRoots } (commitments ++ added) nullhash :=
    { rowEnd := rfl
      nullInput := rfl
      nodes := fun height hpos hle => hrows height hpos (by omega)
      root := ⟨row, _, rfl, by rw [hlevel], hnum, hroot⟩ }
  refine ⟨_, ?_, ?_, rfl, hstored⟩
  · rw [hrun, updateCommitTree, h.updated, if_pos (by simp only; omega)]
    simp only [hupdate, Option.bind_eq_bind, Option.bind_some, hsave]
  · exact
      { next := rfl
        updated := rfl
        leaves := fun i => by rw [← hleaves]; exact congrFun (hsame 0 (le_refl 0)) i
        roots := fun row' hrow => by
          rcases List.mem_cons.1 hrow with rfl | hrow
          · exact ⟨by omega, hnum.le⟩
          · have hrow := h.roots row' hrow
            exact ⟨Nat.lt_succ_of_lt hrow.1, by omega⟩
        empty := fun hnil => by simp [hadded] at hnil
        stored := fun _ => ⟨nullhash, hstored⟩ }

/-- A block without commitments: only the genesis block stores a root, that of the empty tree. -/
lemma updateCommitTree_unchanged (blockchain : H) (timestamp : ℕ) (nullhash : H)
    (h : Consistent hasher st commitments blocks) (hgenesis : blocks = 0 → commitments = []) :
    ∃ st', updateCommitTree hasher blockchain blocks timestamp nullhash st = some st' ∧
      Consistent hasher st' commitments (blocks + 1) := by
  rw [updateCommitTree, if_neg (by rw [h.updated, h.next]; exact not_ne_iff.2 rfl)]
  have hroots (row : CommitRootRow H) (hrow : row ∈ st.commitRoots) :
      row.level < blocks + 1 ∧ row.nextCommitnum ≤ commitments.length :=
    ⟨Nat.lt_succ_of_lt (h.roots row hrow).1, (h.roots row hrow).2⟩
  split_ifs with hzero
  · obtain ⟨row, hlevel, hnum, hroot, hsave⟩ := saveCommitRoot_eq st blocks timestamp blockchain
      (fun row hrow => absurd (h.roots row hrow).1 (by omega))
    refine ⟨_, hsave, { h with roots := fun row' hrow => ?_, stored := fun hne => absurd (hgenesis hzero) hne }⟩
    rcases List.mem_cons.1 hrow with rfl | hrow
    · exact ⟨by omega, by rw [hnum, h.next]⟩
    · exact hroots row' hrow
  · exact ⟨st, rfl, { h with roots := hroots }⟩

lemma consistent_empty (hasher : TreeHasher H F) : Consistent hasher ({} : CommitState H) [] 0 where
  next := rfl
  updated := rfl
  leaves := fun _ => rfl
  roots := fun _ hrow => absurd hrow List.not_mem_nil
  empty := fun _ => rfl
  stored := fun hne => absurd rfl hne

/-- The tables and counters are consistent after the blocks of any chain. -/
theorem commitBlocks_consistent (hasher : TreeHasher H F) (blockchain : H) (chain : List (CommitBlock H)) :
    ∃ st, commitBlocks hasher blockchain chain = some st ∧ Consistent hasher st (allCommitments chain) chain.length := by
  induction chain with
  | nil => exact ⟨{}, rfl, consistent_empty hasher⟩
  | cons b earlier ih =>
    obtain ⟨st, hst, hcons⟩ := ih
    rw [commitBlocks, hst]
    by_cases hnew : b.commitments = []
    · rw [allCommitments, hnew, List.append_nil]
      refine updateCommitTree_unchanged blockchain b.timestamp b.nullhash hcons fun hzero => ?_
      rw [List.length_eq_zero_iff.1 hzero, allCommitments]
    · obtain ⟨st', hrun, hcons', -, -⟩ :=
        updateCommitTree_stored blockchain b.timestamp b.nullhash hcons hnew
      exact ⟨st', hrun, hcons'⟩

theorem initCommitments_eq (h : Consistent hasher st commitments blocks) : initCommitments st = st := by
  have hcounters {n : ℕ} (hn : n = commitments.length) :
      { st with nextCommitnum := n, nextTreeUpdateCommitnum := n } = st := by
    rw [hn]
    nth_rewrite 1 [← h.next]
    rw [← h.updated]
  by_cases hne : commitments = []
  · have hcase : initCommitments st = { st with nextCommitnum := 0, nextTreeUpdateCommitnum := 0 } := by
      simp only [initCommitments, h.empty hne]
    rw [hcase]
    exact hcounters (by rw [hne, List.length_nil])
  · obtain ⟨nullhash, hstored⟩ := h.stored hne
    have hpos := List.length_pos_iff.2 hne
    have hlast : commitments.length - 1 + 1 = commitments.length := Nat.sub_add_cancel hpos
    have hcase : initCommitments st =
        { st with nextCommitnum := commitments.length, nextTreeUpdateCommitnum := commitments.length } := by
      simp only [initCommitments, hstored.rowEnd, hlast]
    rw [hcase]
    exact hcounters rfl

lemma commitBlocks_stored (hasher : TreeHasher H F) (blockchain : H) {b : CommitBlock H} (earlier : List (CommitBlock H))
    (hnew : b.commitments ≠ []) : ∃ st, commitBlocks hasher blockchain (b :: earlier) = some st ∧
      Consistent hasher st (allCommitments (b :: earlier)) (earlier.length + 1) ∧
      st.blocklevel = some earlier.length ∧ TreeStored hasher st (allCommitments (b :: earlier)) b.nullhash := by
  obtain ⟨st, hst, hcons⟩ := commitBlocks_consistent hasher blockchain earlier
  rw [commitBlocks, hst]
  exact updateCommitTree_stored blockchain b.timestamp b.nullhash hcons hnew

/-- After a block with new commitments the root that is stored is the root of the reference tree over all
commitments so far with the null value of this block, and so are the inner nodes, however the commitments
were split into blocks and whatever the null values of the earlier blocks. -/
theorem updateCommitTree_eq_reference (hasher : TreeHasher H F) (blockchain : H) (b : CommitBlock H)
    (earlier : List (CommitBlock H)) (hnew : b.commitments ≠ [])
    (hsize : (allCommitments (b :: earlier)).length ≤ 2^txMerkleDepth) :
    ∃ st row rows, commitBlocks hasher blockchain (b :: earlier) = some st ∧ st.commitRoots = row :: rows ∧
      row.level = earlier.length ∧
      row.merkleRoot = referenceNode hasher (allCommitments (b :: earlier)) b.nullhash txMerkleDepth 0 ∧
      ∀ height, 0 < height → height ≤ txMerkleDepth → ∀ i ≤ ((allCommitments (b :: earlier)).length - 1) / 2^height,
        st.commitTree height i = some (referenceNode hasher (allCommitments (b :: earlier)) b.nullhash height i) := by
  obtain ⟨st, hst, -, hblocks, hstored⟩ := commitBlocks_stored hasher blockchain earlier hnew
  obtain ⟨row, rows, hroots, hlevel, -, hroot⟩ := hstored.root
  have hpos : 0 < 2^txMerkleDepth := Nat.two_pow_pos txMerkleDepth
  have hlast : ((allCommitments (b :: earlier)).length - 1) / 2^txMerkleDepth = 0 := Nat.div_eq_of_lt (by omega)
  refine ⟨st, row, rows, hst, hroots, ?_, ?_, hstored.nodes⟩
  · exact (Option.some_inj.1 (hblocks.symm.trans hlevel)).symm
  · rw [hroot, hlast]

end Chain

def sumHasher : TreeHasher ℕ ℕ where
  commitTreeHashLeaf := fun commitment _ => commitment
  knapsack := id
  hashFinish := fun sum _ => sum

/-- Three commitments after one, so that the first pair is hashed again. -/
def oddBlocks : List (CommitBlock ℕ) := [⟨3, [20, 30, 40], 2⟩, ⟨2, [10], 1⟩, ⟨1, [], 0⟩]

theorem oddBlocks_reference : ∃ st row rows, commitBlocks sumHasher 7 oddBlocks = some st ∧
    st.commitRoots = row :: rows ∧ row.level = 2 ∧
    row.merkleRoot = referenceNode sumHasher [10, 20, 30, 40] 2 txMerkleDepth 0 ∧
    ∀ height, 0 < height → height ≤ txMerkleDepth → ∀ i ≤ 3 / 2^height,
      st.commitTree height i = some (referenceNode sumHasher [10, 20, 30, 40] 2 height i) :=
  updateCommitTree_eq_reference sumHasher 7 ⟨3, [20, 30, 40], 2⟩ [⟨2, [10], 1⟩, ⟨1, [], 0⟩] (by decide) (by decide)

section Query
variable {hasher} {st : CommitState H} {commitments : List H} {blocks : ℕ} {nullhash : H}

lemma xor_one_div (i : ℕ) : (i ^^^ 1) / 2 = i / 2 := by
  rcases Nat.mod_two_eq_zero_or_one i with h | h
  · rw [xor_one_of_mod_zero h]
    omega
  · rw [xor_one_of_mod_one h]
    omega

def combineNodes (hasher : TreeHasher H F) (height : ℕ) (val1 val2 : H) : H :=
  hasher.commitTreeHashNode val1 val2 (height < txMerkleDepth - 1)

lemma combineNodes_comm (hasher : TreeHasher H F) (height : ℕ) (val1 val2 : H) :
    combineNodes hasher height val1 val2 = combineNodes hasher height val2 val1 := by
  rw [combineNodes, combineNodes, TreeHasher.commitTreeHashNode, TreeHasher.commitTreeHashNode, add_comm]

def referencePath (hasher : TreeHasher H F) (commitments : List H) (nullhash : H) (height i n : ℕ) : List H :=
  path (fun i => hasher.commitTreeHashLeaf (commitments.getD i nullhash) i) (combineNodes hasher) nullhash
    (commitments.length - 1) height i n

lemma commitTreeNodeOrNull_eq (hcons : Consistent hasher st commitments blocks)
    (h : TreeStored hasher st commitments nullhash) (hne : commitments ≠ []) {height i : ℕ}
    (hle : height ≤ txMerkleDepth) :
    commitTreeNodeOrNull hasher st.commitTree nullhash height ((commitments.length - 1) / 2^height) i =
      some (if i ≤ (commitments.length - 1) / 2^height then referenceNode hasher commitments nullhash height i
        else nullhash) := by
  unfold commitTreeNodeOrNull
  split_ifs with hend hle' hle'
  · omega
  · rfl
  · rcases Nat.eq_zero_or_pos height with rfl | hpos
    · have hlength := List.length_pos_iff.2 hne
      exact commitTreeNode_leaf nullhash hcons.leaves (by rw [pow_zero, Nat.div_one] at hle'; omega)
    · rw [commitTreeNode_of_pos _ hpos.ne', h.nodes height hpos hle i hle']
  · omega

lemma merklePath_eq (hcons : Consistent hasher st commitments blocks) (h : TreeStored hasher st commitments nullhash)
    (hne : commitments ≠ []) {n height i : ℕ} (hle : height + n ≤ txMerkleDepth) :
    merklePath hasher st nullhash n height i ((commitments.length - 1) / 2^height) =
      some (referencePath hasher commitments nullhash height i n) := by
  induction n generalizing height i with
  | zero => rfl
  | succ n ih =>
    rw [merklePath, commitTreeNodeOrNull_eq hcons h hne (by omega), Option.bind_eq_bind, Option.bind_some,
      xor_one_div, ← div_pow_succ, ih (by omega)]
    rfl

/-- Folding a path of the reference tree in either way leads to the node at its top. -/
lemma climb_referencePath (hasher : TreeHasher H F) (nullhash : H) {commitnum : ℕ} (n : ℕ)
    (hle : commitnum ≤ commitments.length - 1) :
    climb (combineNodes hasher) 0 commitnum (hasher.commitTreeHashLeaf (commitments.getD commitnum nullhash) commitnum)
      (referencePath hasher commitments nullhash 0 commitnum n) =
      referenceNode hasher commitments nullhash n (commitnum / 2^n) := by
  have hclimb := @climb_path H (fun i => hasher.commitTreeHashLeaf (commitments.getD i nullhash) i)
    (combineNodes hasher) nullhash (commitments.length - 1) 0 commitnum n (by rwa [pow_zero, Nat.div_one])
  rw [Nat.zero_add] at hclimb
  exact hclimb

lemma merkleFold_eq_climb (height i : ℕ) (hash : H) (others : List H) :
    merkleFold hasher height hash others = climb (combineNodes hasher) height i hash others := by
  rw [climb_of_comm (combineNodes_comm hasher)]
  induction others generalizing height hash with
  | nil => rfl
  | cons other rest ih => exact ih (height + 1) _

lemma queryInputs_eq (hcons : Consistent hasher st commitments blocks) (h : TreeStored hasher st commitments nullhash)
    (hne : commitments ≠ []) (i : ℕ) {commitnums : List ℕ}
        (hle : ∀ commitnum ∈ commitnums, commitnum ≤ commitments.length - 1) :
    queryInputs hasher st nullhash (commitments.length - 1) i commitnums =
      .ok (commitnums.map fun commitnum =>
        (commitnum, referencePath hasher commitments nullhash 0 commitnum txMerkleDepth)) := by
  induction commitnums generalizing i with
  | nil => rfl
  | cons commitnum rest ih =>
    have hpath := merklePath_eq (n := txMerkleDepth) (i := commitnum) hcons h hne (Nat.zero_add _).le
    rw [pow_zero, Nat.div_one] at hpath
    rw [queryInputs, if_neg (not_lt.2 (hle commitnum List.mem_cons_self)), hpath,
      ih (i + 1) fun c hc => hle c (List.mem_cons_of_mem _ hc)]
    rfl

lemma handleTxQueryInputs_eq (ownBlockchain : ℕ) {blockchain : ℕ} (hcons : Consistent hasher st commitments blocks)
    (h : TreeStored hasher st commitments nullhash) (hne : commitments ≠ []) (commitnums : List ℕ)
    (hnum : commitnums.length ≤ txMaxInPath) (hblockchain : blockchain = 0 ∨ blockchain = ownBlockchain)
    (hle : ∀ commitnum ∈ commitnums, commitnum ≤ commitments.length - 1) :
    ∃ row ∈ st.commitRoots, ∃ paramTime, row.merkleRoot =
        referenceNode hasher commitments nullhash txMerkleDepth ((commitments.length - 1) / 2^txMerkleDepth) ∧
      handleTxQueryInputs hasher ownBlockchain st blockchain commitnums = .report row.level paramTime row.merkleRoot
        (commitnums.map fun commitnum =>
          (commitnum, referencePath hasher commitments nullhash 0 commitnum txMerkleDepth)) := by
  obtain ⟨row, rows, hroots, hlevel, -, hroot⟩ := h.root
  have hfind : st.commitRoots.find? (fun r => r.level = row.level) = some row := by
    rw [hroots]
    exact List.find?_cons_of_pos (decide_eq_true rfl)
  refine ⟨row, by rw [hroots]; exact List.mem_cons_self,
    if timeOffset < row.timestamp then (row.timestamp - timeOffset) / timeDivisor else 0, hroot, ?_⟩
  rw [handleTxQueryInputs, if_neg (not_lt.2 hnum), if_neg (by tauto), hlevel]
  simp only [hfind, h.rowEnd, h.nullInput, queryInputs_eq hcons h hne 0 hle]

end Query

/-- In every state that blocks lead to, a query for commitment numbers up to the end of the row is answered
with a path for each. It never lacks a node, and each path leads to the root of the report when its
commitment is in the last tree, as all are until the first tree is full. -/
theorem handleTxQueryInputs_verifies [DecidableEq H] (hasher : TreeHasher H F) (ownBlockchain : ℕ) (root : H)
    (chain : List (CommitBlock H)) {st : CommitState H} {rowEnd blockchain : ℕ} {commitnums : List ℕ}
    (hst : commitBlocks hasher root chain = some st) (hrowEnd : st.commitnumHi = some rowEnd)
    (hnum : commitnums.length ≤ txMaxInPath) (hblockchain : blockchain = 0 ∨ blockchain = ownBlockchain)
    (hle : ∀ commitnum ∈ commitnums, commitnum ≤ rowEnd) :
    ∃ paramLevel paramTime merkleRoot inputs,
      handleTxQueryInputs hasher ownBlockchain st blockchain commitnums = .report paramLevel paramTime merkleRoot inputs ∧
      inputs.map Prod.fst = commitnums ∧ (∃ row ∈ st.commitRoots, row.level = paramLevel ∧ row.merkleRoot = merkleRoot) ∧
      ∀ input ∈ inputs, input.2.length = txMerkleDepth ∧ ∃ commitment, st.commitTree 0 input.1 = some commitment ∧
        (input.1 / 2^txMerkleDepth = rowEnd / 2^txMerkleDepth →
          climb (combineNodes hasher) 0 input.1 (hasher.commitTreeHashLeaf commitment input.1) input.2 = merkleRoot ∧
          precheckInputPath hasher commitment input.1 input.2 merkleRoot) := by
  obtain ⟨st', hst', hcons⟩ := commitBlocks_consistent hasher root chain
  obtain rfl : st' = st := Option.some_inj.1 (hst'.symm.trans hst)
  have hne : allCommitments chain ≠ [] := by
    intro hempty
    rw [hcons.empty hempty] at hrowEnd
    cases hrowEnd
  obtain ⟨nullhash, hstored⟩ := hcons.stored hne
  obtain rfl : (allCommitments chain).length - 1 = rowEnd := Option.some_inj.1 (hstored.rowEnd.symm.trans hrowEnd)
  obtain ⟨row, hrow, paramTime, hroot, hanswer⟩ := handleTxQueryInputs_eq ownBlockchain hcons hstored hne commitnums hnum
    hblockchain hle
  refine ⟨row.level, paramTime, row.merkleRoot, _, hanswer, ?_, ⟨row, hrow, rfl, rfl⟩, ?_⟩
  · rw [List.map_map]
    exact List.map_id' commitnums
  · intro input hinput
    obtain ⟨commitnum, hmem, rfl⟩ := List.mem_map.1 hinput
    have hlt : commitnum < (allCommitments chain).length := by
      have := hle commitnum hmem
      have := List.length_pos_iff.2 hne
      omega
    refine ⟨path_length .., (allCommitments chain)[commitnum], ?_, fun hlast => ?_⟩
    · rw [hcons.leaves, List.getElem?_eq_getElem hlt]
    · have hclimb := climb_referencePath hasher nullhash txMerkleDepth (hle commitnum hmem)
      rw [hlast, ← hroot, List.getD_eq_getElem?_getD, List.getElem?_eq_getElem hlt, Option.getD_some] at hclimb
      refine ⟨hclimb, ?_⟩
      rw [precheckInputPath, merkleFold_eq_climb 0 commitnum, hclimb, decide_eq_true rfl]

theorem oddBlocks_query : ∃ st, commitBlocks sumHasher 7 oddBlocks = some st ∧ st.commitnumHi = some 3 ∧
    ∃ paramLevel paramTime merkleRoot inputs,
      handleTxQueryInputs sumHasher 1 st 1 [0, 3] = .report paramLevel paramTime merkleRoot inputs ∧
      inputs.map Prod.fst = [0, 3] ∧ (∃ row ∈ st.commitRoots, row.level = paramLevel ∧ row.merkleRoot = merkleRoot) ∧
      ∀ input ∈ inputs, input.2.length = txMerkleDepth ∧ ∃ commitment, st.commitTree 0 input.1 = some commitment ∧
        (input.1 / 2^txMerkleDepth = 3 / 2^txMerkleDepth →
          climb (combineNodes sumHasher) 0 input.1 (sumHasher.commitTreeHashLeaf commitment input.1) input.2 = merkleRoot ∧
          precheckInputPath sumHasher commitment input.1 input.2 merkleRoot) := by
  obtain ⟨st, hst, -, -, hstored⟩ :=
    commitBlocks_stored sumHasher 7 (b := ⟨3, [20, 30, 40], 2⟩) [⟨2, [10], 1⟩, ⟨1, [], 0⟩] (by decide)
  refine ⟨st, hst, hstored.rowEnd, ?_⟩
  exact handleTxQueryInputs_verifies sumHasher 1 7 oddBlocks hst hstored.rowEnd (by decide) (Or.inr rfl) (by decide)

section SecondTree

def overfullCommitments (leaves : ℕ) : List ℕ := List.replicate leaves 0 ++ [1]

variable (leaves : ℕ)

lemma overfull_length : (overfullCommitments leaves).length = leaves + 1 := by
  rw [overfullCommitments, List.length_append, List.length_replicate, List.length_singleton]

/-- In the first tree all leaves are 0. -/
lemma overfull_first {h i : ℕ} (hi : (i + 1) * 2^h ≤ leaves) :
    referenceNode sumHasher (overfullCommitments leaves) 0 h i = 0 := by
  induction h generalizing i with
  | zero =>
    have hlt : i < (List.replicate leaves 0).length := by
      rw [List.length_replicate]
      omega
    change (overfullCommitments leaves).getD i 0 = 0
    rw [List.getD_eq_getElem?_getD, overfullCommitments, List.getElem?_append_left hlt, List.getElem?_eq_getElem hlt,
      List.getElem_replicate, Option.getD_some]
  | succ h ih =>
    have hpow : (2 * i + 1 + 1) * 2^h = (i + 1) * 2^(h + 1) := by ring
    have hle : (2 * i + 1) * 2^h ≤ (2 * i + 1 + 1) * 2^h := Nat.mul_le_mul_right _ (Nat.le_succ _)
    have hleft := ih (i := 2 * i) (by omega)
    have hright := ih (i := 2 * i + 1) (by omega)
    change referenceNode sumHasher (overfullCommitments leaves) 0 h (2 * i) +
      (if _ then referenceNode sumHasher (overfullCommitments leaves) 0 h (2 * i + 1) else 0) = 0
    rw [hleft, hright, ite_self]

/-- In the second tree there is one leaf. -/
lemma overfull_second {h i : ℕ} (hi : i * 2^h = leaves) :
    referenceNode sumHasher (overfullCommitments leaves) 0 h i = 1 := by
  induction h generalizing i with
  | zero =>
    have hi : i = (List.replicate leaves 0).length := by
      rw [List.length_replicate, ← hi, pow_zero, Nat.mul_one]
    change (overfullCommitments leaves).getD i 0 = 1
    rw [List.getD_eq_getElem?_getD, overfullCommitments, hi, List.getElem?_concat_length, Option.getD_some]
  | succ h ih =>
    have hpos := Nat.two_pow_pos h
    have hleft : (2 * i) * 2^h = leaves := by
      rw [← hi]
      ring
    have hright : ¬ 2 * i + 1 ≤ ((overfullCommitments leaves).length - 1) / 2^h := by
      rw [Nat.le_div_iff_mul_le hpos, overfull_length, Nat.succ_mul]
      omega
    change referenceNode sumHasher (overfullCommitments leaves) 0 h (2 * i) +
      (if _ then referenceNode sumHasher (overfullCommitments leaves) 0 h (2 * i + 1) else 0) = 1
    rw [ih hleft, if_neg hright]

/-- With one commitment in the second tree the path of the first commitment does not lead to the root of
the report. -/
theorem firstTree_path_fails : ∃ st, commitBlocks sumHasher 7 [⟨1, overfullCommitments (2^txMerkleDepth), 0⟩] = some st ∧
    st.commitnumHi = some (2^txMerkleDepth) ∧ st.commitTree 0 0 = some 0 ∧
    ∃ paramLevel paramTime merkleRoot merklePath,
      handleTxQueryInputs sumHasher 1 st 1 [0] = .report paramLevel paramTime merkleRoot [(0, merklePath)] ∧
      climb (combineNodes sumHasher) 0 0 (sumHasher.commitTreeHashLeaf 0 0) merklePath ≠ merkleRoot ∧
      ¬ precheckInputPath sumHasher 0 0 merklePath merkleRoot := by
  generalize hleaves : 2^txMerkleDepth = leaves
  have hpos : 0 < leaves := hleaves ▸ Nat.two_pow_pos txMerkleDepth
  have hnew : overfullCommitments leaves ≠ [] := List.append_ne_nil_of_right_ne_nil _ (List.cons_ne_nil 1 [])
  have hlast : (overfullCommitments leaves).length - 1 = leaves := by
    rw [overfull_length, Nat.add_sub_cancel]
  obtain ⟨st, hst, hcons, -, hstored⟩ :=
    commitBlocks_stored sumHasher 7 (b := ⟨1, overfullCommitments leaves, 0⟩) [] hnew
  rw [allCommitments, allCommitments, List.nil_append] at hcons hstored
  obtain ⟨row, -, paramTime, hroot, hanswer⟩ := handleTxQueryInputs_eq 1 hcons hstored hnew [0]
    (by decide) (Or.inr rfl) (fun c hc => by rw [List.mem_singleton.1 hc]; exact Nat.zero_le _)
  have hone : row.merkleRoot = 1 := by
    rw [hroot, hlast, ← hleaves, Nat.div_self (Nat.two_pow_pos txMerkleDepth), hleaves]
    exact overfull_second leaves (by rw [Nat.one_mul, hleaves])
  have hfirst : (overfullCommitments leaves).getD 0 0 = 0 := overfull_first leaves (h := 0) (i := 0) (by omega)
  have hclimb := climb_referencePath sumHasher 0 txMerkleDepth
    (Nat.zero_le ((overfullCommitments leaves).length - 1))
  rw [Nat.zero_div, overfull_first leaves (by rw [Nat.zero_add, Nat.one_mul, hleaves]), hfirst] at hclimb
  refine ⟨st, hst, by rw [hstored.rowEnd, hlast], ?_, row.level, paramTime, row.merkleRoot, _, hanswer, ?_, ?_⟩
  · rw [hcons.leaves, List.getElem?_eq_getElem (by rw [overfull_length]; exact Nat.succ_pos leaves)]
    rw [List.getD_eq_getElem?_getD, List.getElem?_eq_getElem (by rw [overfull_length]; exact Nat.succ_pos leaves)] at hfirst
    exact congrArg some hfirst
  · rw [hclimb, hone]
    exact Nat.zero_ne_one
  · rw [precheckInputPath, merkleFold_eq_climb 0 0, hclimb, hone]
    decide

end SecondTree

end CredaCash.Chain
