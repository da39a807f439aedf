import Klomang.State.VTrieContents

/-! What the state tree holds is independent of what it has cached: every operation takes
trees with the same contents to trees with the same contents. -/
namespace Klomang.VerkleTree
variable [Blake3] [Bandersnatch] {S : Type}

/-- Two trees hold the same nodes and the same pruned keys, whatever they have cached. -/
structure SameContents (left right : VerkleTree S) : Prop where
  storage : left.storage = right.storage
  prunedKeys : left.prunedKeys = right.prunedKeys

variable {left right : VerkleTree S}

theorem SameContents.refl (tree : VerkleTree S) : SameContents tree tree := ⟨rfl, rfl⟩

theorem SameContents.symm (same : SameContents left right) : SameContents right left :=
  ⟨same.storage.symm, same.prunedKeys.symm⟩

theorem SameContents.trans {third : VerkleTree S} (same : SameContents left right)
    (further : SameContents right third) : SameContents left third :=
  ⟨same.storage.trans further.storage, same.prunedKeys.trans further.prunedKeys⟩

variable [Storage S]

theorem same_contents_get_root (tree : VerkleTree S) : SameContents tree tree.getRoot.2 :=
  ⟨(get_root_storage tree).symm, (get_root_pruned tree).symm⟩

theorem SameContents.cloned (same : SameContents left right) : SameContents left.cloned right.cloned := by
  refine ⟨?_, same.prunedKeys⟩
  rw [VerkleTree.cloned, VerkleTree.cloned, same.storage]

theorem SameContents.get (same : SameContents left right) (key : Bytes32) : left.get key = right.get key := by
  rw [VerkleTree.get, VerkleTree.get, getNodeValue, getNodeValue, same.storage, same.prunedKeys]

theorem SameContents.ensure_node (same : SameContents left right) (path : List UInt8) :
    SameContents (left.ensureNode path) (right.ensureNode path) := by
  rw [ensureNode, ensureNode, same.storage]
  split
  · exact ⟨rfl, same.prunedKeys⟩
  · exact same

theorem SameContents.insert (same : SameContents left right) (key : Bytes32) (value : List UInt8) :
    SameContents (left.insert key value) (right.insert key value) := by
  have ensured : ∀ (paths : List (List UInt8)) (left right : VerkleTree S), SameContents left right →
      SameContents (paths.foldl ensureNode left) (paths.foldl ensureNode right) := by
    intro paths
    induction paths with
    | nil => exact fun _ _ same => same
    | cons path rest ih => exact fun left right same => ih _ _ (same.ensure_node path)
  have walked := ensured key.bytes.inits { left with dirty := true } { right with dirty := true }
    ⟨same.storage, same.prunedKeys⟩
  refine ⟨?_, by rw [insert_pruned, insert_pruned, same.prunedKeys]⟩
  rw [insert_storage, insert_storage, walked.storage]

theorem SameContents.cleanup (same : SameContents left right) (path : List UInt8) (depth : Nat) :
    SameContents (left.recursiveCleanupEmptyNodes path depth) (right.recursiveCleanupEmptyNodes path depth) := by
  induction depth generalizing left right with
  | zero => exact same
  | succ depth ih =>
    have children : left.hasChildren (path.take depth) = right.hasChildren (path.take depth) := by
      unfold hasChildren nodeExists
      rw [same.storage, same.prunedKeys]
    rw [recursiveCleanupEmptyNodes, recursiveCleanupEmptyNodes, children]
    dsimp only
    split
    · refine ih ⟨?_, ?_⟩
      · exact congrArg (fun storage => Storage.delete storage _) same.storage
      · exact congrArg (Insert.insert (path.take depth)) same.prunedKeys
    · exact same

theorem SameContents.prune_key (same : SameContents left right) (key : Bytes32) :
    (left.pruneKey key).1 = (right.pruneKey key).1 ∧
      SameContents (left.pruneKey key).2 (right.pruneKey key).2 := by
  unfold pruneKey
  dsimp only
  rw [same.storage]
  split
  · exact ⟨rfl, rfl, same.prunedKeys⟩
  · refine ⟨rfl, SameContents.cleanup ⟨?_, ?_⟩ key.bytes key.bytes.length⟩
    · rfl
    · exact congrArg (Insert.insert key.bytes) same.prunedKeys

end Klomang.VerkleTree
