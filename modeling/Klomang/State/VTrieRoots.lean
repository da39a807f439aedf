import Klomang.State.VTrie

/-! Roots of the state tree. What a node commits to is a function of the stored
nodes below it; the commitment cache and the root cache only ever repeat it. -/
namespace Klomang.VerkleTree

open Bandersnatch (ScalarField)

variable {S : Type} [Storage S]

section StoredNodes

@[simp] theorem length_child_indices : childIndices.length = verkleRadix := by simp [childIndices]

/-- The stored nodes agree outside the prefixes of a path. -/
def AgreeOff (path : List UInt8) (storage other : S) : Prop :=
  ∀ node, ¬ node <+: path → Storage.get other (keyForPath node) = Storage.get storage (keyForPath node)

theorem key_for_path_injective : Function.Injective keyForPath := by
  intro left right same
  exact (List.cons.inj same).2

theorem AgreeOff.refl (path : List UInt8) (storage : S) : AgreeOff path storage storage :=
  fun _ _ => rfl

theorem AgreeOff.trans {path : List UInt8} {first second third : S}
    (left : AgreeOff path first second) (right : AgreeOff path second third) :
    AgreeOff path first third :=
  fun node off => (right node off).trans (left node off)

theorem agree_off_put {path node : List UInt8} (on : node <+: path) (storage : S) (value : List UInt8) :
    AgreeOff path storage (Storage.put storage (keyForPath node) value) := by
  intro other off
  rw [Storage.get_put, if_neg]
  intro same
  rw [key_for_path_injective same] at off
  exact off on

theorem agree_off_delete {path node : List UInt8} (on : node <+: path) (storage : S) :
    AgreeOff path storage (Storage.delete storage (keyForPath node)) := by
  intro other off
  rw [Storage.get_delete, if_neg]
  intro same
  rw [key_for_path_injective same] at off
  exact off on

/-- Nothing that `put` writes removes a node. -/
theorem stored_put {storage : S} {node : List UInt8} (stored : storedNode storage node = true)
    (key value : List UInt8) : storedNode (Storage.put storage key value) node = true := by
  rw [storedNode, Storage.get_put]
  split
  · rfl
  · exact stored

theorem stored_delete {storage : S} {node path : List UInt8} (stored : storedNode storage node = true)
    (other : node ≠ path) : storedNode (Storage.delete storage (keyForPath path)) node = true := by
  rw [storedNode, Storage.get_delete, if_neg fun same => other (key_for_path_injective same)]
  exact stored

end StoredNodes

variable [Blake3] [Bandersnatch]

section Commitments

/-- The commitment to at most 256 coefficients. -/
def committed (coeffs : List ScalarField) : Commitment :=
  (PolynomialCommitment.new verkleRadix).blindedSum (DensePolynomial.fromCoefficientsVec coeffs).coeffs

theorem commit_to_ok (failure : String) {coeffs : List ScalarField} (fits : coeffs.length ≤ verkleRadix) :
    commitTo (.new verkleRadix) failure coeffs = .ok (committed coeffs) := by
  rw [commitTo, PolynomialCommitment.commit_ok verkleRadix fits]
  rfl

/-- The root of an empty subtree with so many levels below it. -/
def emptyRoot : Nat → Hash
  | 0 => commitmentRootHash (committed [])
  | levels + 1 =>
    commitmentRootHash (committed (List.replicate verkleRadix (rootScalar (emptyRoot levels))))

/-- The empty roots from a depth down to the leaves. -/
def emptyRoots : Nat → List Hash
  | 0 => [emptyRoot 0]
  | levels + 1 => emptyRoot (levels + 1) :: emptyRoots levels

theorem head_empty_roots (levels : Nat) :
    ((emptyRoots levels).map rootScalar).headD 0 = rootScalar (emptyRoot levels) := by
  cases levels <;> rfl

theorem empty_constants_ok (levels : Nat) :
    emptyConstants (.new verkleRadix) levels =
      .ok (emptyRoots levels, (emptyRoots levels).map rootScalar) := by
  induction levels with
  | zero =>
    rw [emptyConstants, commit_to_ok _ (by simp)]
    rfl
  | succ levels ih =>
    rw [emptyConstants, ih]
    simp only [bind, Except.bind, head_empty_roots, commit_to_ok, List.length_replicate, le_refl]
    rfl

theorem getElem?_empty_roots {levels depth : Nat} (within : depth ≤ levels) :
    (emptyRoots levels)[depth]? = some (emptyRoot (levels - depth)) := by
  induction levels generalizing depth with
  | zero =>
    have top : depth = 0 := by omega
    subst top
    rfl
  | succ levels ih =>
    cases depth with
    | zero => rfl
    | succ depth =>
      rw [emptyRoots, List.getElem?_cons_succ, ih (by omega)]
      congr 2
      omega

attribute [irreducible] emptyRoots

/-- The commitment of a node, read off the stored nodes alone. -/
def nodeCommitment (storage : S) : Nat → List UInt8 → Commitment
  | 0, path => committed [leafScalar (storedValue storage path)]
  | levels + 1, path => committed (childIndices.map fun child =>
      if storedNode storage (path ++ [child]) then
        rootScalar (commitmentRootHash (nodeCommitment storage levels (path ++ [child])))
      else rootScalar (emptyRoot levels))

/-- The commitment at a path, whose length gives the level. -/
def commitmentAt (storage : S) (path : List UInt8) : Commitment :=
  nodeCommitment storage (keySize - path.length) path

/-- The root of the tree over a storage. -/
def storageRoot (storage : S) : Hash := commitmentRootHash (commitmentAt storage [])

/-- A commitment depends on the nodes at and below its path. -/
theorem node_commitment_congr {T : Type} [Storage T] {storage : S} {other : T} (levels : Nat) (path : List UInt8)
    (same : ∀ below, path <+: below →
      Storage.get other (keyForPath below) = Storage.get storage (keyForPath below)) :
    nodeCommitment other levels path = nodeCommitment storage levels path := by
  induction levels generalizing path with
  | zero => rw [nodeCommitment, nodeCommitment, storedValue, storedValue, same path (List.prefix_refl path)]
  | succ levels ih =>
    rw [nodeCommitment, nodeCommitment]
    congr 1
    refine List.map_congr_left fun child _ => ?_
    have extended : path <+: path ++ [child] := List.prefix_append path [child]
    rw [storedNode, storedNode, same _ extended, ih _ fun below further => same below (extended.trans further)]

theorem commitment_at_leaf (storage : S) {path : List UInt8} (leaf : path.length = keySize) :
    commitmentAt storage path = committed [leafScalar (storedValue storage path)] := by
  rw [commitmentAt, leaf, Nat.sub_self, nodeCommitment]

theorem commitment_at_inner (storage : S) {path : List UInt8} {levels : Nat}
    (depth : path.length + (levels + 1) = keySize) :
    commitmentAt storage path = committed (childIndices.map fun child =>
      if storedNode storage (path ++ [child]) then
        rootScalar (commitmentRootHash (commitmentAt storage (path ++ [child])))
      else rootScalar (emptyRoot levels)) := by
  have level : keySize - path.length = levels + 1 := by omega
  have below : ∀ child, keySize - (path ++ [child]).length = levels := by
    intro child
    rw [List.length_append, List.length_singleton]
    omega
  simp only [commitmentAt, level, below, nodeCommitment]

end Commitments

/-- The caches repeat what the storage commits to, and the root node is stored. -/
structure Coherent (tree : VerkleTree S) : Prop where
  generators : tree.pc = .new verkleRadix
  roots : tree.emptySubtreeRoots = emptyRoots keySize
  scalars : tree.emptySubtreeScalars = (emptyRoots keySize).map rootScalar
  rooted : storedNode tree.storage [] = true
  cache : Memo.Sound (commitmentAt tree.storage) tree.commitmentCache
  cachedRoot : tree.dirty = false → ∀ root, tree.rootCache = some root → root = storageRoot tree.storage

section Computing
variable {tree : VerkleTree S}

theorem Coherent.empty_scalar (coherent : tree.Coherent) {levels : Nat} (below : levels < keySize) :
    tree.emptySubtreeScalar (keySize - levels) = rootScalar (emptyRoot levels) := by
  rw [emptySubtreeScalar, coherent.scalars, List.getD_eq_getElem?_getD, List.getElem?_map,
    getElem?_empty_roots (by omega)]
  simp only [Option.map_some, Option.getD_some]
  congr 2
  omega

/-- With or without its cache, the walk computes what the storage commits to. -/
theorem Coherent.computes (coherent : tree.Coherent) (levels : Nat) (path : List UInt8)
    (depth : path.length + levels = keySize) :
    Memo.Yields (commitmentAt tree.storage) (tree.computeNodeCommitment levels path)
      (commitmentAt tree.storage path) := by
  induction levels generalizing path with
  | zero =>
    refine Memo.yields_cached ?_
    rw [coherent.generators, commit_to_ok _ (by simp [verkleRadix]), commitmentAt,
      show keySize - path.length = 0 by omega]
    exact Memo.yields_ok _
  | succ levels ih =>
    refine Memo.yields_cached ?_
    have level : keySize - path.length = levels + 1 := by omega
    rw [commitmentAt, level, nodeCommitment]
    refine Memo.Yields.bind (Memo.yields_mapM (fun child =>
      if storedNode tree.storage (path ++ [child]) then
        rootScalar (commitmentRootHash (nodeCommitment tree.storage levels (path ++ [child])))
      else rootScalar (emptyRoot levels)) fun child _ => ?_) ?_
    · rw [nodeExists]
      by_cases stored : storedNode tree.storage (path ++ [child]) = true
      · simp only [if_pos stored]
        have longer : (path ++ [child]).length + levels = keySize := by simp; omega
        have computed := ih (path ++ [child]) longer
        rw [commitmentAt, show keySize - (path ++ [child]).length = levels by omega] at computed
        exact computed.bind (Memo.yields_pure _)
      · simp only [if_neg stored]
        rw [coherent.empty_scalar (by omega)]
        exact Memo.yields_pure _
    · rw [coherent.generators, commit_to_ok _ (by simp)]
      exact Memo.yields_ok _

theorem get_root_storage (tree : VerkleTree S) : tree.getRoot.2.storage = tree.storage := by
  unfold getRoot
  split
  · rfl
  · split <;> rfl

theorem get_root_pruned (tree : VerkleTree S) : tree.getRoot.2.prunedKeys = tree.prunedKeys := by
  unfold getRoot
  split
  · rfl
  · split <;> rfl

/-- The root of a coherent tree is the root of its storage, and asking for it
leaves the tree coherent. -/
theorem Coherent.get_root (coherent : tree.Coherent) :
    tree.getRoot.1 = .ok (storageRoot tree.storage) ∧ tree.getRoot.2.Coherent := by
  unfold getRoot
  split
  · rename_i root clean remembered
    exact ⟨congrArg Except.ok (coherent.cachedRoot clean root remembered), coherent⟩
  · obtain ⟨later, ran, sound⟩ := coherent.computes keySize [] (by simp) _ coherent.cache
    rw [ran]
    refine ⟨rfl, ⟨coherent.generators, coherent.roots, coherent.scalars, coherent.rooted, sound, ?_⟩⟩
    intro _ root remembered
    exact (Option.some.inj remembered).symm

end Computing

section Construction

/-- What `new` builds. -/
def fresh (storage : S) : VerkleTree S :=
  VerkleTree.ensureNode
    { storage, pc := .new verkleRadix, commitmentCache := ∅, emptySubtreeRoots := emptyRoots keySize
      emptySubtreeScalars := (emptyRoots keySize).map rootScalar
      rootCache := none, dirty := true, prunedKeys := ∅ } []

theorem new_ok (storage : S) : new storage = .ok (fresh storage) := by
  rw [new, computeEmptySubtreeConstants, empty_constants_ok]
  rfl

theorem ensure_node_frame (tree : VerkleTree S) (path : List UInt8) :
    tree.ensureNode path = { tree with storage := (tree.ensureNode path).storage } := by
  unfold ensureNode
  split <;> rfl

theorem ensure_node_stored (tree : VerkleTree S) (path : List UInt8) :
    storedNode (tree.ensureNode path).storage path = true := by
  unfold ensureNode
  split
  · simp [storedNode, Storage.get_put]
  · rename_i present
    simpa [storedNode, Option.isSome_iff_ne_none] using present

theorem ensure_node_of_stored {tree : VerkleTree S} {path : List UInt8}
    (stored : storedNode tree.storage path = true) : tree.ensureNode path = tree := by
  rw [ensureNode, if_neg]
  rw [storedNode] at stored
  simpa using Option.isSome_iff_ne_none.mp stored

theorem fresh_coherent (storage : S) : (fresh storage).Coherent := by
  have frame := ensure_node_frame
    { storage, pc := .new verkleRadix, commitmentCache := ∅, emptySubtreeRoots := emptyRoots keySize
      emptySubtreeScalars := (emptyRoots keySize).map rootScalar
      rootCache := none, dirty := true, prunedKeys := ∅ } []
  refine ⟨?_, ?_, ?_, ensure_node_stored _ _, ?_, ?_⟩
  · rw [fresh, frame]
  · rw [fresh, frame]
  · rw [fresh, frame]
  · rw [fresh, frame]
    exact Memo.sound_empty _
  · rw [fresh, frame]
    exact fun clean => nomatch clean

theorem fresh_storage {storage : S} (stored : storedNode storage [] = true) :
    (fresh storage).storage = storage := by
  rw [fresh, ensure_node_of_stored stored]

theorem fresh_pruned (storage : S) : (fresh storage).prunedKeys = ∅ := by
  rw [fresh, ensure_node_frame]

/-- What `clone` builds. -/
def cloned (tree : VerkleTree S) : VerkleTree S :=
  { fresh tree.storage with
    prunedKeys := tree.prunedKeys
    emptySubtreeRoots := tree.emptySubtreeRoots
    emptySubtreeScalars := tree.emptySubtreeScalars
    commitmentCache := ∅
    rootCache := none
    dirty := true }

theorem clone_ok (tree : VerkleTree S) : tree.clone = .ok tree.cloned := by
  simp only [clone, new_ok, cloned]

theorem cloned_pruned (tree : VerkleTree S) : tree.cloned.prunedKeys = tree.prunedKeys := rfl

theorem Coherent.cloned_storage {tree : VerkleTree S} (coherent : tree.Coherent) :
    tree.cloned.storage = tree.storage := by
  rw [VerkleTree.cloned, fresh_storage coherent.rooted]

theorem Coherent.cloned {tree : VerkleTree S} (coherent : tree.Coherent) : tree.cloned.Coherent where
  generators := (fresh_coherent tree.storage).generators
  roots := coherent.roots
  scalars := coherent.scalars
  rooted := by rw [coherent.cloned_storage]; exact coherent.rooted
  cache := Memo.sound_empty _
  cachedRoot clean := nomatch clean

end Construction

section Updates

theorem agree_off_ensure {path node : List UInt8} (on : node <+: path) (tree : VerkleTree S) :
    AgreeOff path tree.storage (tree.ensureNode node).storage := by
  unfold ensureNode
  split
  · exact agree_off_put on _ _
  · exact AgreeOff.refl _ _

private theorem lookup_erase_all (paths : List (List UInt8)) (cache : CommitmentCache) (path : List UInt8) :
    (paths.foldl (fun cache cachePath => cache.erase cachePath) cache).lookup path =
      if path ∈ paths then none else cache.lookup path := by
  induction paths generalizing cache with
  | nil => simp
  | cons first rest ih =>
    rw [List.foldl_cons, ih, FiniteMap.lookup_erase_ite]
    by_cases there : path ∈ rest
    · simp [there]
    · by_cases same : path = first <;> simp [there, same]

/-- After an update along a path, the remaining cache entries are still right. -/
theorem invalidate_sound {storage other : S} {path : List UInt8} (tree : VerkleTree S)
    (sound : Memo.Sound (commitmentAt storage) tree.commitmentCache) (agree : AgreeOff path storage other) :
    Memo.Sound (commitmentAt other) (tree.invalidatePathCache path).commitmentCache := by
  intro node value found
  rw [invalidatePathCache, lookup_erase_all] at found
  split at found
  · cases found
  · rename_i off
    rw [List.mem_inits] at off
    rw [sound node value found, commitmentAt, commitmentAt]
    refine (node_commitment_congr _ node fun below above => agree below fun shorter => ?_).symm
    exact off (above.trans shorter)

/-- A tree rewritten along a path and invalidated there is coherent again. -/
theorem Coherent.rewritten {tree : VerkleTree S} (coherent : tree.Coherent) {path : List UInt8}
    {storage : S} (agree : AgreeOff path tree.storage storage) (rooted : storedNode storage [] = true)
    (dirty : Bool) (prunedKeys : Finset (List UInt8)) :
    (invalidatePathCache { tree with storage, dirty, prunedKeys } path).Coherent where
  generators := coherent.generators
  roots := coherent.roots
  scalars := coherent.scalars
  rooted := rooted
  cache := invalidate_sound { tree with storage, dirty, prunedKeys } coherent.cache agree
  cachedRoot _ _ remembered := nomatch remembered

/-- The walk of `insert` down to the leaf. -/
theorem ensure_all_frame (paths : List (List UInt8)) (tree : VerkleTree S) :
    paths.foldl ensureNode tree = { tree with storage := (paths.foldl ensureNode tree).storage } := by
  induction paths generalizing tree with
  | nil => rfl
  | cons path rest ih =>
    rw [List.foldl_cons, ih, ensure_node_frame]

theorem ensure_all_agree {path : List UInt8} {paths : List (List UInt8)} (on : ∀ node ∈ paths, node <+: path)
    (tree : VerkleTree S) : AgreeOff path tree.storage (paths.foldl ensureNode tree).storage := by
  induction paths generalizing tree with
  | nil => exact AgreeOff.refl _ _
  | cons node rest ih =>
    have step := agree_off_ensure (on node List.mem_cons_self) tree
    exact step.trans (ih (fun other member => on other (List.mem_cons_of_mem _ member)) _)

theorem ensure_all_stored {paths : List (List UInt8)} {tree : VerkleTree S} {node : List UInt8}
    (stored : storedNode tree.storage node = true) :
    storedNode (paths.foldl ensureNode tree).storage node = true := by
  induction paths generalizing tree with
  | nil => exact stored
  | cons path rest ih =>
    refine ih ?_
    unfold ensureNode
    split
    · exact stored_put stored _ _
    · exact stored

/-- The storage `insert` leaves. -/
theorem insert_storage (tree : VerkleTree S) (key : Bytes32) (value : List UInt8) :
    (tree.insert key value).storage =
      Storage.put (key.bytes.inits.foldl ensureNode { tree with dirty := true }).storage
        (keyForPath key.bytes) (serializeNode (some value)) := rfl

/-- `insert` rewrites the storage, sets the dirty flag and invalidates the path. -/
theorem insert_frame (tree : VerkleTree S) (key : Bytes32) (value : List UInt8) :
    tree.insert key value =
      invalidatePathCache { tree with storage := (tree.insert key value).storage, dirty := true } key.bytes := by
  rw [insert_storage, insert, setNodeValue, ensure_all_frame]

theorem insert_agree (tree : VerkleTree S) (key : Bytes32) (value : List UInt8) :
    AgreeOff key.bytes tree.storage (tree.insert key value).storage := by
  rw [insert_storage]
  have walked := ensure_all_agree (fun node member => (List.mem_inits node key.bytes).mp member)
    { tree with dirty := true }
  exact walked.trans (agree_off_put (List.prefix_refl _) _ _)

theorem insert_pruned (tree : VerkleTree S) (key : Bytes32) (value : List UInt8) :
    (tree.insert key value).prunedKeys = tree.prunedKeys := by
  rw [insert_frame]
  rfl

/-- Setting the dirty flag never breaks coherence. -/
theorem Coherent.soil {tree : VerkleTree S} (coherent : tree.Coherent) :
    ({ tree with dirty := true } : VerkleTree S).Coherent where
  generators := coherent.generators
  roots := coherent.roots
  scalars := coherent.scalars
  rooted := coherent.rooted
  cache := coherent.cache
  cachedRoot clean := nomatch clean

theorem Coherent.insert {tree : VerkleTree S} (coherent : tree.Coherent) (key : Bytes32)
    (value : List UInt8) : (tree.insert key value).Coherent := by
  rw [insert_frame]
  refine coherent.rewritten (insert_agree tree key value) ?_ true tree.prunedKeys
  rw [insert_storage]
  exact stored_put (ensure_all_stored coherent.soil.rooted) _ _

theorem Coherent.insert_all {tree : VerkleTree S} (coherent : tree.Coherent)
    (updates : List (Bytes32 × List UInt8)) :
    (updates.foldl (fun tree update => tree.insert update.1 update.2) tree).Coherent := by
  induction updates generalizing tree with
  | nil => exact coherent
  | cons update rest ih => exact ih (coherent.insert update.1 update.2)

theorem Coherent.apply_state_transition {tree : VerkleTree S} (coherent : tree.Coherent)
    (updates : List (Bytes32 × List UInt8)) (supply : Nat) :
    (tree.applyStateTransition updates supply).2.Coherent := by
  unfold applyStateTransition
  dsimp only
  split
  · exact coherent.soil
  · have written := (coherent.soil.insert_all updates).insert totalSupplyKey (Bytes.leBytes 16 supply)
    split <;> exact written

/-- Removing one node and invalidating its path keeps the tree coherent. -/
theorem Coherent.delete {tree : VerkleTree S} (coherent : tree.Coherent) {path : List UInt8}
    (inner : path ≠ []) (dirty : Bool) (prunedKeys : Finset (List UInt8)) :
    (invalidatePathCache
      { tree with storage := Storage.delete tree.storage (keyForPath path), dirty, prunedKeys } path).Coherent :=
  coherent.rewritten (agree_off_delete (List.prefix_refl _) _)
    (stored_delete coherent.rooted fun root => inner root.symm) dirty prunedKeys

theorem Coherent.cleanup {tree : VerkleTree S} (coherent : tree.Coherent) (path : List UInt8) (depth : Nat)
    (within : depth ≤ path.length) : (tree.recursiveCleanupEmptyNodes path depth).Coherent := by
  induction depth generalizing tree with
  | zero => exact coherent
  | succ depth ih =>
    rw [recursiveCleanupEmptyNodes]
    dsimp only
    split
    · rename_i removed
      refine ih (coherent.delete ?_ tree.dirty _) (by omega)
      simp only [Bool.and_eq_true, decide_eq_true_eq] at removed
      intro root
      have long := congrArg List.length root
      simp only [List.length_take, List.length_nil] at long
      omega
    · exact coherent

theorem Coherent.prune_key {tree : VerkleTree S} (coherent : tree.Coherent) (key : Bytes32) :
    (tree.pruneKey key).2.Coherent := by
  unfold pruneKey
  dsimp only
  split
  · exact coherent.soil
  · refine Coherent.cleanup (coherent.delete ?_ true _) _ _ le_rfl
    intro root
    have long := congrArg List.length root
    simp at long

/-- The trees that the public operations build, over any storage. -/
inductive Built : VerkleTree S → Prop where
  | new {tree : VerkleTree S} (storage : S) (made : VerkleTree.new storage = .ok tree) : Built tree
  | clone {tree copy : VerkleTree S} (built : Built tree) (made : tree.clone = .ok copy) : Built copy
  | insert {tree : VerkleTree S} (built : Built tree) (key : Bytes32) (value : List UInt8) :
      Built (tree.insert key value)
  | pruneKey {tree : VerkleTree S} (built : Built tree) (key : Bytes32) : Built (tree.pruneKey key).2
  | applyStateTransition {tree : VerkleTree S} (built : Built tree)
      (updates : List (Bytes32 × List UInt8)) (newTotalSupply : Nat) :
      Built (tree.applyStateTransition updates newTotalSupply).2
  | getRoot {tree : VerkleTree S} (built : Built tree) : Built tree.getRoot.2

theorem Built.coherent {tree : VerkleTree S} (built : Built tree) : tree.Coherent := by
  induction built with
  | new storage made =>
    rw [new_ok] at made
    cases made
    exact fresh_coherent storage
  | clone built made coherent =>
    rw [clone_ok] at made
    cases made
    exact coherent.cloned
  | insert built key value coherent => exact coherent.insert key value
  | pruneKey built key coherent => exact coherent.prune_key key
  | applyStateTransition built updates newTotalSupply coherent =>
    exact coherent.apply_state_transition updates newTotalSupply
  | getRoot built coherent => exact coherent.get_root.2

end Updates
end Klomang.VerkleTree
