import Klomang.State.VTrieTombstones

/-! Proofs follow the nodes down from the root, and `get` looks at the leaf alone. Both say the same
of every key as long as every stored node has its ancestors and no stored leaf is marked as pruned. -/
namespace Klomang.VerkleTree

variable [Blake3] [Bandersnatch] {S : Type} [Storage S] {tree after : VerkleTree S} {node : List UInt8}
  {key : Bytes32} {value : List UInt8} {stop : Nat}

section Intact

/-- The shape of a tree whose proofs agree with what it returns. -/
structure Intact (tree : VerkleTree S) : Prop where
  parents : ∀ node child, node.length < keySize →
    storedNode tree.storage (node ++ [child]) = true → storedNode tree.storage node = true
  children : ∀ node, 0 < node.length → node.length < keySize → storedNode tree.storage node = true →
    ∃ child, storedNode tree.storage (node ++ [child]) = true
  leaves : ∀ key : Bytes32, storedNode tree.storage key.bytes = true →
    key.bytes ∉ tree.prunedKeys ∧ ∃ value, VerkleTree.leaves tree.storage key = some value

theorem Intact.same_contents (intact : tree.Intact) (same : SameContents tree after) : after.Intact := by
  obtain ⟨parents, children, leaves⟩ := intact
  simp only [same.storage] at parents children leaves
  simp only [same.prunedKeys] at leaves
  exact ⟨parents, children, leaves⟩

theorem stored_of_leaf (there : leaves tree.storage key = some value) :
    storedNode tree.storage key.bytes = true := by
  simp only [leaves, storedValue] at there
  rw [storedNode]
  cases found : Storage.get tree.storage (keyForPath key.bytes) with
  | none =>
    simp only [found] at there
    cases there
  | some encoded => rfl

/-- Every ancestor of a stored node is stored. -/
theorem Intact.path_stored (intact : tree.Intact) (stored : storedNode tree.storage node = true)
    (short : node.length ≤ keySize) : pathStored tree.storage node = true := by
  induction node using List.reverseRecOn with
  | nil => simpa [pathStored] using stored
  | append_singleton node child ih =>
    simp only [List.length_append, List.length_singleton] at short
    rw [path_stored_snoc, Bool.and_eq_true]
    exact ⟨ih (intact.parents node child short stored) (by omega), stored⟩

/-- Below every stored node but the root there is a leaf. -/
theorem Intact.leaf_below (intact : tree.Intact) (levels : Nat) (inner : 0 < node.length)
    (length : node.length + levels = keySize) (stored : storedNode tree.storage node = true) :
    ∃ key : Bytes32, node <+: key.bytes ∧ storedNode tree.storage key.bytes = true := by
  induction levels generalizing node with
  | zero => exact ⟨⟨node, by rw [← key_size_eq]; exact length⟩, List.prefix_rfl, stored⟩
  | succ levels ih =>
    obtain ⟨child, there⟩ := intact.children node inner (by omega) stored
    have longer : (node ++ [child]).length + levels = keySize := by
      rw [List.length_append, List.length_singleton]
      omega
    obtain ⟨key, below, leaf⟩ := ih (by simp) longer there
    exact ⟨key, (List.prefix_append node [child]).trans below, leaf⟩

end Intact

section Commitment

/-- The root commits to what `get` returns: a key has a value exactly when the proof that the tree
generates says so, and no accepted proof under the tree's root says that it has none. -/
structure RootCommits (tree : VerkleTree S) : Prop where
  proven : ∀ key value, tree.get key = .ok (some value) ↔
    ∃ proof, (tree.generateProof key).1 = .ok proof ∧ proof.proofType = .membership ∧
      proof.leafValue = some value
  unrefuted : ∀ key value, tree.get key = .ok (some value) → ∀ proof generated,
    tree.verifyProof proof = .ok true → proof.path = key.bytes → tree.getRoot.1 = .ok proof.root →
    (tree.generateProof key).1 = .ok generated → Collisionless proof generated →
    proof.proofType ≠ .nonMembership

/-- A key has a value. -/
theorem get_value_iff :
    tree.get key = .ok (some value) ↔ key.bytes ∉ tree.prunedKeys ∧ leaves tree.storage key = some value := by
  rw [VerkleTree.get, show tree.getNodeValue key.bytes = leaves tree.storage key from rfl]
  split <;> simp_all

/-- A generated proof is one of membership. -/
theorem Coherent.proven_iff (coherent : tree.Coherent) :
    (∃ proof, (tree.generateProof key).1 = .ok proof ∧ proof.proofType = .membership ∧
      proof.leafValue = some value) ↔
      pathStored tree.storage key.bytes = true ∧ leaves tree.storage key = some value := by
  rw [(coherent.generate_proof key).1]
  constructor
  · rintro ⟨proof, made, _, leaf⟩
    cases made
    change provenValue tree.storage key = some value at leaf
    simp only [provenValue] at leaf
    split at leaf
    · rename_i there
      exact ⟨there, leaf⟩
    · cases leaf
  · rintro ⟨there, leaf⟩
    have proven : provenValue tree.storage key = some value := by
      rw [provenValue, if_pos there]
      exact leaf
    refine ⟨_, rfl, ?_, proven⟩
    simp [storageProof, proven]

theorem Intact.root_commits (intact : tree.Intact) (coherent : tree.Coherent) : tree.RootCommits := by
  have proven (key : Bytes32) (value : List UInt8) : tree.get key = .ok (some value) ↔
      ∃ proof, (tree.generateProof key).1 = .ok proof ∧ proof.proofType = .membership ∧
        proof.leafValue = some value := by
    rw [coherent.proven_iff, get_value_iff]
    apply and_congr_left
    intro leaf
    have stored := stored_of_leaf leaf
    exact iff_of_true (intact.leaves key stored).1 (intact.path_stored stored (length_key key).le)
  refine ⟨proven, fun key value live proof generated accepted path root made collisionless refuted => ?_⟩
  obtain ⟨honest, again, _, leaf⟩ := (proven key value).mp live
  simp only [made] at again
  cases again
  have sound := (coherent.verify_proof proof).mp accepted
  have generatedSound := storage_proof_accepted coherent.rooted key
  simp only [(coherent.generate_proof key).1] at made
  simp only [coherent.get_root.1] at root
  cases made
  have same := accepted_bound sound generatedSound (Except.ok.inj root).symm path collisionless
  have typed := sound.typed.mpr (by rw [same, leaf]; rfl)
  simp only [refuted] at typed
  cases typed

end Commitment

section Insertions

theorem stored_ensure (tree : VerkleTree S) (path node : List UInt8) :
    storedNode (tree.ensureNode path).storage node = true ↔
      storedNode tree.storage node = true ∨ node = path := by
  by_cases same : node = path
  · subst same
    simp [ensure_node_stored]
  · rw [or_iff_left same, ensureNode]
    split
    · rw [storedNode, Storage.get_put, if_neg fun equal => same (key_for_path_injective equal), storedNode]
    · rfl

theorem stored_ensure_all (paths : List (List UInt8)) (tree : VerkleTree S) (node : List UInt8) :
    storedNode (paths.foldl ensureNode tree).storage node = true ↔
      storedNode tree.storage node = true ∨ node ∈ paths := by
  induction paths generalizing tree with
  | nil => simp
  | cons path rest ih => rw [List.foldl_cons, ih, stored_ensure, List.mem_cons, or_assoc]

/-- An insertion stores the nodes of its key. -/
theorem stored_insert (tree : VerkleTree S) (key : Bytes32) (value node : List UInt8) :
    storedNode (tree.insert key value).storage node = true ↔
      storedNode tree.storage node = true ∨ node <+: key.bytes := by
  by_cases leaf : node = key.bytes
  · subst leaf
    exact iff_of_true (insert_stored tree key value) (.inr List.prefix_rfl)
  · have walked := stored_ensure_all key.bytes.inits { tree with dirty := true } node
    simp only [List.mem_inits] at walked
    rw [insert_storage, storedNode, Storage.get_put, if_neg fun equal => leaf (key_for_path_injective equal)]
    exact walked

omit [Blake3] [Bandersnatch] [Storage S] in
/-- The next node on the way to a key. -/
theorem next_on_path (on : node <+: key.bytes) (inner : node.length < keySize) :
    ∃ child, node ++ [child] <+: key.bytes := by
  obtain ⟨rest, whole⟩ := on
  have length := congrArg List.length whole
  simp only [List.length_append, length_key] at length
  cases rest with
  | nil =>
    simp only [List.length_nil] at length
    omega
  | cons child rest =>
    refine ⟨child, rest, ?_⟩
    rw [List.append_assoc]
    exact whole

/-- The insertion of a key that is not marked keeps the shape. -/
theorem Intact.insert (intact : tree.Intact) (unmarked : key.bytes ∉ tree.prunedKeys)
    (short : value.length < 2 ^ 32) : (tree.insert key value).Intact where
  parents node child inner stored := by
    simp only [stored_insert] at stored ⊢
    exact stored.imp (intact.parents node child inner) (List.prefix_append node [child]).trans
  children node deep inner stored := by
    simp only [stored_insert] at stored
    rcases stored with before | on
    · obtain ⟨child, there⟩ := intact.children node deep inner before
      exact ⟨child, (stored_insert tree key value _).mpr (.inl there)⟩
    · obtain ⟨child, next⟩ := next_on_path on inner
      exact ⟨child, (stored_insert tree key value _).mpr (.inr next)⟩
  leaves other stored := by
    rw [insert_pruned, leaves_insert tree key short]
    by_cases same : other = key
    · subst same
      exact ⟨unmarked, value, Function.update_self ..⟩
    · simp only [stored_insert] at stored
      rw [Function.update_of_ne same]
      exact intact.leaves other (stored.resolve_right (key_off_path same))

/-- After the insertion of a marked key, its proof says more than `get`. -/
theorem unmarked_of_root_commits (coherent : tree.Coherent) (short : value.length < 2 ^ 32)
    (commits : (tree.insert key value).RootCommits) : key.bytes ∉ tree.prunedKeys := by
  have written : leaves (tree.insert key value).storage key = some value := by
    rw [leaves_insert tree key short, Function.update_self]
  have whole : pathStored (tree.insert key value).storage key.bytes = true :=
    path_stored_iff.mpr fun node on => (stored_insert tree key value node).mpr (.inr on)
  have live := (commits.proven key value).mpr ((coherent.insert key value).proven_iff.mpr ⟨whole, written⟩)
  simp only [get_value_iff, insert_pruned] at live
  exact live.1

end Insertions

section Prunings

/-- Above a leaf, the nodes with another child end below one that keeps an unmarked child. -/
def SparesBranches (tree : VerkleTree S) (key : Bytes32) : Prop :=
  ∀ depth, 0 < depth → depth < keySize → tree.Branches key.bytes depth →
    ∃ deeper, depth ≤ deeper ∧ deeper < keySize ∧ tree.KeepsChild key.bytes deeper

/-- That is when no node that goes has another child. -/
theorem Prunes.spares_iff (prunes : Prunes tree after key stop) :
    tree.SparesBranches key ↔ ∀ depth, stop ≤ depth → depth < keySize → ¬ tree.Branches key.bytes depth := by
  have positive := prunes.positive
  constructor
  · intro spares depth far inner branches
    obtain ⟨deeper, below, within, keeps⟩ := spares depth (by omega) inner branches
    exact prunes.childless deeper (by omega) within keeps
  · intro barren depth deep inner branches
    have above : depth < stop := Nat.lt_of_not_le fun far => barren depth far inner branches
    rcases prunes.stopped with first | keeps
    · omega
    · exact ⟨stop - 1, by omega, by have := prunes.within; omega, keeps⟩

theorem Prunes.stored_iff (prunes : Prunes tree after key stop) :
    storedNode after.storage node = true ↔
      storedNode tree.storage node = true ∧ ¬ (node <+: key.bytes ∧ stop ≤ node.length) := by
  rw [storedNode, prunes.storage]
  split
  · rename_i gone
    simp [gone]
  · rename_i kept
    simp [kept, storedNode]

omit [Blake3] [Bandersnatch] [Storage S] in
/-- A node on the way to a key is what the key has at its depth. -/
theorem take_on_path (on : node <+: key.bytes) : key.bytes.take node.length = node :=
  (List.prefix_iff_eq_take.mp on).symm

/-- A pruning that removes no node with another child keeps the shape. -/
theorem Intact.prune (intact : tree.Intact) (prunes : Prunes tree after key stop)
    (barren : ∀ depth, stop ≤ depth → depth < keySize → ¬ tree.Branches key.bytes depth) : after.Intact where
  parents node child inner stored := by
    simp only [prunes.stored_iff] at stored ⊢
    refine ⟨intact.parents node child inner stored.1, fun gone => ?_⟩
    -- a node that goes has no child off the path, and those on the path go with it
    refine barren node.length gone.2 inner ⟨child, ?_⟩
    rw [take_on_path gone.1]
    refine ⟨fun on => stored.2 ⟨on, ?_⟩, stored.1⟩
    rw [List.length_append]
    exact gone.2.trans (Nat.le_add_right _ _)
  children node deep inner stored := by
    simp only [prunes.stored_iff] at stored
    obtain ⟨child, there⟩ := intact.children node deep inner stored.1
    by_cases gone : node ++ [child] <+: key.bytes ∧ stop ≤ (node ++ [child]).length
    · -- the clean-up has stopped at this node, which keeps another child
      have on : node <+: key.bytes := (List.prefix_append node [child]).trans gone.1
      have longer := gone.2
      simp only [List.length_append, List.length_singleton] at longer
      have last : stop = node.length + 1 := by
        have above := Nat.lt_of_not_le fun far => stored.2 ⟨on, far⟩
        omega
      obtain first | keeps := prunes.stopped
      · omega
      · simp only [last, Nat.add_sub_cancel] at keeps
        obtain ⟨other, off, kept, _⟩ := keeps
        simp only [take_on_path on] at off kept
        exact ⟨other, prunes.stored_iff.mpr ⟨kept, fun range => off range.1⟩⟩
    · exact ⟨child, prunes.stored_iff.mpr ⟨there, gone⟩⟩
  leaves other stored := by
    simp only [prunes.stored_iff] at stored
    obtain ⟨unmarked, value, leaf⟩ := intact.leaves other stored.1
    refine ⟨?_, value, ?_⟩
    · rw [prunes.marked, or_iff_left stored.2]
      exact unmarked
    · rw [VerkleTree.leaves, storedValue, prunes.storage, if_neg stored.2]
      exact leaf

/-- A pruning that removes a node with another child leaves a key whose proof says less than `get`. -/
theorem barren_of_root_commits (intact : tree.Intact) (prunes : Prunes tree after key stop)
    (coherent : after.Coherent) (commits : after.RootCommits) :
    ∀ depth, stop ≤ depth → depth < keySize → ¬ tree.Branches key.bytes depth := by
  intro depth far inner branches
  obtain ⟨child, off, stored⟩ := branches
  have length : (key.bytes.take depth ++ [child]).length = depth + 1 := by
    rw [List.length_append, List.length_take, length_key, List.length_singleton]
    omega
  obtain ⟨other, below, leaf⟩ := intact.leaf_below (keySize - (depth + 1)) (by simp) (by omega) stored
  obtain ⟨unmarked, value, held⟩ := intact.leaves other leaf
  -- the leaf below the other child is not on the path, so it is still there
  have apart : ¬ (other.bytes <+: key.bytes ∧ stop ≤ other.bytes.length) := fun on => off (below.trans on.1)
  have live : after.get other = .ok (some value) := by
    rw [get_value_iff, prunes.marked, or_iff_left apart, VerkleTree.leaves, storedValue, prunes.storage, if_neg apart]
    exact ⟨unmarked, held⟩
  obtain ⟨whole, _⟩ := coherent.proven_iff.mp ((commits.proven other value).mp live)
  have above := path_stored_iff.mp whole (key.bytes.take depth) ((List.prefix_append _ [child]).trans below)
  simp only [prunes.stored_iff] at above
  refine above.2 ⟨List.take_prefix depth key.bytes, ?_⟩
  rw [List.length_take, length_key]
  omega

end Prunings

section Runs
variable {operations : List Operation} {storage : S}

/-- An operation that keeps proofs and answers together: an insertion is of a key that is not
marked as pruned, and a pruning spares the branches above its leaf. -/
def Harmless (tree : VerkleTree S) : Operation → Prop
  | .insert key _ => key.bytes ∉ tree.prunedKeys
  | .pruneKey key => storedNode tree.storage key.bytes = true → tree.SparesBranches key
  | .getRoot | .generateProof _ | .clone => True

theorem Intact.perform (intact : tree.Intact) (coherent : tree.Coherent) {operation : Operation}
    (short : operation.Short) (harmless : tree.Harmless operation) : (tree.perform operation).Intact := by
  cases operation with
  | insert key value => exact intact.insert harmless short
  | pruneKey key =>
    rcases prune_key_spec tree key with ⟨_, _, same⟩ | ⟨_, stop, prunes⟩
    · exact intact.same_contents same
    · exact intact.prune prunes (prunes.spares_iff.mp (harmless prunes.leaf))
  | getRoot => exact intact.same_contents (same_contents_get_root tree)
  | generateProof key => exact intact.same_contents (coherent.generate_proof key).2.2
  | clone =>
    rw [VerkleTree.perform, clone_ok]
    exact intact.same_contents ⟨coherent.cloned_storage.symm, rfl⟩

theorem Intact.harmless (intact : tree.Intact) (coherent : tree.Coherent) {operation : Operation}
    (short : operation.Short) (commits : (tree.perform operation).RootCommits) : tree.Harmless operation := by
  cases operation with
  | insert key value => exact unmarked_of_root_commits coherent short commits
  | pruneKey key =>
    rcases prune_key_spec tree key with ⟨absent, _⟩ | ⟨_, stop, prunes⟩
    · intro stored
      simp only [absent] at stored
      cases stored
    · exact fun _ => prunes.spares_iff.mpr (barren_of_root_commits intact prunes (coherent.prune_key key) commits)
  | getRoot | generateProof | clone => exact trivial

/-- A tree over an empty storage has the root node only. -/
theorem fresh_only (empty : ∀ key, Storage.get storage key = none) (node : List UInt8)
    (stored : storedNode (fresh storage).storage node = true) : node = [] := by
  rw [fresh, stored_ensure, storedNode, empty] at stored
  simpa using stored

theorem fresh_intact (empty : ∀ key, Storage.get storage key = none) : (fresh storage).Intact := by
  have only := fresh_only empty
  refine ⟨fun node child _ stored => ?_, fun node deep _ stored => ?_, fun key stored => ?_⟩
  · simpa using only _ stored
  · simp only [only node stored] at deep
    cases deep
  · have length := congrArg List.length (only _ stored)
    simp at length

/-- From a new tree of this shape, as over an empty storage, the root commits to what `get` returns
all along a run exactly when every operation is harmless. -/
theorem root_commits_iff {start : VerkleTree S} (made : new storage = .ok start) (intact : start.Intact)
    (short : ∀ operation ∈ operations, operation.Short) :
    Runs.Always perform start RootCommits operations ↔ Runs.Meets perform start Harmless operations := by
  simp only [new_ok] at made
  cases made
  apply Runs.always_iff_meets_of_needed (fun tree : VerkleTree S => tree.Coherent ∧ tree.Intact) RootCommits
    ⟨fresh_coherent storage, intact⟩ ?_ ?_ ?_ operations short
  · exact fun tree kept => kept.2.root_commits kept.1
  · exact fun tree operation short kept harmless =>
      ⟨kept.1.perform operation, kept.2.perform kept.1 short harmless⟩
  · exact fun tree operation short kept commits => kept.2.harmless kept.1 short commits

end Runs

section Orphans
variable {storage : S}

/-- A key of zeros but for its last three bytes. -/
def ending (first second third : UInt8) : Bytes32 :=
  ⟨List.replicate 29 0 ++ [first, second, third], by simp⟩

/-- A node is pruned with its only key, comes back with another one below it, and is marked still
when its last sibling goes. -/
def orphaning : List Operation :=
  [.insert (ending 0 0 0) [2], .insert (ending 0 1 0) [1], .pruneKey (ending 0 1 0), .insert (ending 0 1 1) [3],
    .pruneKey (ending 0 0 0)]

omit [Blake3] [Bandersnatch] in
theorem on_ending (rest : List UInt8) (first second third : UInt8) :
    List.replicate 29 0 ++ rest <+: (ending first second third).bytes ↔ rest <+: [first, second, third] :=
  List.prefix_append_right_inj _

theorem run_orphaning (start : VerkleTree S) :
    Runs.run perform start orphaning =
      (((((start.insert (ending 0 0 0) [2]).insert (ending 0 1 0) [1]).pruneKey (ending 0 1 0)).2.insert
        (ending 0 1 1) [3]).pruneKey (ending 0 0 0)).2 := rfl

omit [Blake3] [Bandersnatch] in
theorem endings_apart : ending 0 0 0 ≠ ending 0 1 0 ∧ ending 0 1 1 ≠ ending 0 1 0 ∧ ending 0 1 1 ≠ ending 0 0 0 := by
  refine ⟨fun same => ?_, fun same => ?_, fun same => ?_⟩ <;> simp [ending] at same

/-- The first three operations leave the nodes of the first key, and mark the parent of the second. -/
theorem parent_marked (only : ∀ node, storedNode tree.storage node = true → node = [])
    (unpruned : tree.prunedKeys = ∅)
    (prunes : Prunes ((tree.insert (ending 0 0 0) [2]).insert (ending 0 1 0) [1]) after (ending 0 1 0) stop) :
    (∀ node, storedNode after.storage node = true → node <+: (ending 0 0 0).bytes ∨ node <+: (ending 0 1 0).bytes) ∧
      storedNode after.storage (ending 0 0 0).bytes = true ∧
      List.replicate 29 0 ++ [0, 1] ∈ after.prunedKeys ∧ (ending 0 1 1).bytes ∉ after.prunedKeys := by
  have before (node : List UInt8)
      (stored : storedNode ((tree.insert (ending 0 0 0) [2]).insert (ending 0 1 0) [1]).storage node = true) :
      node <+: (ending 0 0 0).bytes ∨ node <+: (ending 0 1 0).bytes := by
    simp only [stored_insert, stored_insert] at stored
    rcases stored with (root | early) | late
    · exact .inl (only node root ▸ List.nil_prefix)
    · exact .inl early
    · exact .inr late
  have parent : (ending 0 1 0).bytes.take 31 = List.replicate 29 0 ++ [0, 1] := rfl
  have low : stop ≤ 31 := by
    apply prunes.stop_le (by decide)
    intro above deep inner keeps
    simp only [key_size_eq] at inner
    obtain rfl : above = 31 := by omega
    obtain ⟨child, off, stored, _⟩ := keeps
    simp only [parent, List.append_assoc] at off stored
    rcases before _ stored with on | on
    · rw [List.cons_append, List.singleton_append, on_ending] at on
      simp at on
    · exact off on
  refine ⟨fun node stored => before node (prunes.stored_iff.mp stored).1, ?_, ?_, fun gone => ?_⟩
  · refine prunes.stored_iff.mpr ⟨(stored_insert ..).mpr (.inl (insert_stored ..)), fun gone => ?_⟩
    exact key_off_path endings_apart.1 gone.1
  · refine (prunes.marked _).mpr (.inr ⟨?_, by simpa using low⟩)
    rw [on_ending]
    simp
  · rcases (prunes.marked _).mp gone with marked | range
    · simp only [insert_pruned, insert_pruned, unpruned] at marked
      exact Finset.notMem_empty _ marked
    · exact key_off_path endings_apart.2.1 range.1

/-- When a third key is then inserted next to the second, pruning the first one takes away the
nodes above it. -/
theorem parent_orphaned
    (only : ∀ node, storedNode tree.storage node = true →
      node <+: (ending 0 0 0).bytes ∨ node <+: (ending 0 1 0).bytes)
    (leaf : storedNode tree.storage (ending 0 0 0).bytes = true)
    (marked : List.replicate 29 0 ++ [0, 1] ∈ tree.prunedKeys) (unmarked : (ending 0 1 1).bytes ∉ tree.prunedKeys) :
    ((tree.insert (ending 0 1 1) [3]).pruneKey (ending 0 0 0)).2.get (ending 0 1 1) = .ok (some [3]) ∧
      pathStored ((tree.insert (ending 0 1 1) [3]).pruneKey (ending 0 0 0)).2.storage (ending 0 1 1).bytes = false := by
  have stored : storedNode (tree.insert (ending 0 1 1) [3]).storage (ending 0 0 0).bytes = true :=
    (stored_insert ..).mpr (.inl leaf)
  obtain ⟨stop, prunes⟩ := pruned_of_stored stored
  have low : stop ≤ 30 := by
    apply prunes.stop_le (by omega)
    intro above deep inner keeps
    obtain ⟨child, off, there, free⟩ := keeps
    simp only [insert_pruned] at free
    simp only [stored_insert] at there
    have on := there.imp_left (only _)
    simp only [key_size_eq] at inner
    obtain rfl | rfl : above = 30 ∨ above = 31 := by omega
    · -- the other child is the parent of the second key, which is marked
      have above : (ending 0 0 0).bytes.take 30 = List.replicate 29 0 ++ [0] := rfl
      simp only [above, List.append_assoc, List.singleton_append] at off there free on
      simp only [on_ending] at off on
      have other : child ≠ 0 := by simpa using off
      have one : child = 1 := (by simpa using on : child = 0 ∨ child = 1).resolve_left other
      subst one
      exact free marked
    · have above : (ending 0 0 0).bytes.take 31 = List.replicate 29 0 ++ [0, 0] := rfl
      rw [above, List.append_assoc, List.cons_append, List.singleton_append] at off there free on
      simp only [on_ending] at off on
      have other : child ≠ 0 := by simpa using off
      have zero : child = 0 := by simpa using on
      exact other zero
  refine ⟨?_, ?_⟩
  · rw [prunes.get_other endings_apart.2.2, get_value_iff, insert_pruned, leaves_insert _ _ (by simp),
      Function.update_self]
    exact ⟨unmarked, rfl⟩
  · rw [← Bool.not_eq_true]
    intro whole
    have above := path_stored_iff.mp whole (List.replicate 29 0 ++ [0]) ((on_ending ..).mpr (by simp))
    exact (prunes.stored_iff.mp above).2 ⟨(on_ending ..).mpr (by simp), by simpa using low⟩

/-- Insertions into a tree without pruned keys are harmless. -/
theorem insertions_harmless (unpruned : tree.prunedKeys = ∅) (first second : Bytes32) (value other : List UInt8) :
    Runs.Meets perform tree Harmless [.insert first value, .insert second other] := by
  have unmarked (key : Bytes32) : key.bytes ∉ tree.prunedKeys := by
    rw [unpruned]
    exact Finset.notMem_empty _
  refine (Runs.meets_cons _ _).mpr ⟨unmarked first, (Runs.meets_cons _ _).mpr ⟨?_, Runs.meets_nil⟩⟩
  rw [Harmless, perform, insert_pruned]
  exact unmarked second

/-- A generated proof under which a key has no value is accepted. -/
theorem Coherent.refutes (coherent : tree.Coherent) (missing : pathStored tree.storage key.bytes = false) :
    ∃ proof, (tree.generateProof key).1 = .ok proof ∧ proof.proofType = .nonMembership ∧
      tree.getRoot.1 = .ok proof.root ∧ tree.verifyProof proof = .ok true := by
  refine ⟨_, (coherent.generate_proof key).1, ?_, coherent.get_root.1, ?_⟩
  · simp [storageProof, provenValue, missing]
  · exact (coherent.verify_proof _).mpr (storage_proof_accepted coherent.rooted key)

/-- After these operations the third key has its value, and the tree accepts that it has none. -/
theorem orphaning_refutes (empty : ∀ key, Storage.get storage key = none) :
    (Runs.run perform (fresh storage) orphaning).get (ending 0 1 1) = .ok (some [3]) ∧
      ∃ proof, ((Runs.run perform (fresh storage) orphaning).generateProof (ending 0 1 1)).1 = .ok proof ∧
        proof.proofType = .nonMembership ∧
        (Runs.run perform (fresh storage) orphaning).getRoot.1 = .ok proof.root ∧
        (Runs.run perform (fresh storage) orphaning).verifyProof proof = .ok true := by
  have coherent := run_coherent storage orphaning
  simp only [run_orphaning] at coherent ⊢
  obtain ⟨stop, prunes⟩ :=
    pruned_of_stored (insert_stored ((fresh storage).insert (ending 0 0 0) [2]) (ending 0 1 0) [1])
  obtain ⟨only, leaf, marked, unmarked⟩ := parent_marked (fresh_only empty) (fresh_pruned storage) prunes
  obtain ⟨live, missing⟩ := parent_orphaned only leaf marked unmarked
  exact ⟨live, coherent.refutes missing⟩

end Orphans
end Klomang.VerkleTree

namespace Klomang.Counting

open VerkleTree

/-- Insertions alone keep the root committed. -/
theorem insertions_committed :
    Runs.Always perform (fresh (∅ : MemoryStorage)) RootCommits
      [.insert (ending 0 0 0) [2], .insert (ending 0 1 0) [1]] := by
  have short : ∀ operation ∈ [Operation.insert (ending 0 0 0) [2], .insert (ending 0 1 0) [1]],
      operation.Short := by simp [Operation.Short]
  exact (root_commits_iff (new_ok (∅ : MemoryStorage)) (fresh_intact fun _ => rfl) short).mpr
    (insertions_harmless (fresh_pruned ∅) _ _ _ _)

/-- A live key with an accepted proof that it has no value. -/
theorem live_key_refuted :
    ∃ start, new (∅ : MemoryStorage) = .ok start ∧
      (Runs.run perform start orphaning).get (ending 0 1 1) = .ok (some [3]) ∧
      ∃ proof, ((Runs.run perform start orphaning).generateProof (ending 0 1 1)).1 = .ok proof ∧
        proof.proofType = .nonMembership ∧ (Runs.run perform start orphaning).getRoot.1 = .ok proof.root ∧
        (Runs.run perform start orphaning).verifyProof proof = .ok true :=
  ⟨fresh ∅, new_ok _, orphaning_refutes fun _ => rfl⟩

end Klomang.Counting
