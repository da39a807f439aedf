import Klomang.Lib.Chunks
import Klomang.Lib.Openings
import Klomang.State.VTrieProof

/-! Proofs of the state tree as openings. The roots of its nodes, with the empty constants below
the first one that is not stored, label a complete tree of commitments: a generated proof shows
that tree's levels along the key, and the verifier rebuilds its root. -/
namespace Klomang.VerkleTree

open Bandersnatch (ScalarField)

variable {S : Type} [Storage S] {storage : S} {path : List UInt8}

section Paths

theorem key_size_eq : keySize = 32 := by
  unfold keySize
  rfl

theorem length_key (key : Bytes32) : key.bytes.length = keySize := by rw [key.size, key_size_eq]

@[simp] theorem mem_child_indices (child : UInt8) : child ∈ childIndices := by
  refine List.mem_map.mpr ⟨child.toNat, List.mem_range.mpr child.toNat_lt, ?_⟩
  exact UInt8.ofNat_toNat

theorem child_index (child : UInt8) : childIndices[child.toNat]? = some child := by
  have within : child.toNat < verkleRadix := child.toNat_lt
  rw [childIndices, List.getElem?_map, List.getElem?_range within]
  exact congrArg some UInt8.ofNat_toNat

/-- Every node from the root down a path is stored. -/
def pathStored (storage : S) (path : List UInt8) : Bool := path.inits.all (storedNode storage)

theorem path_stored_iff :
    pathStored storage path = true ↔ ∀ node, node <+: path → storedNode storage node = true := by
  simp [pathStored]

theorem path_stored_snoc (child : UInt8) :
    pathStored storage (path ++ [child]) = (pathStored storage path && storedNode storage (path ++ [child])) := by
  simp [pathStored, List.inits_append]

end Paths

variable [Blake3] [Bandersnatch]

section Labels

/-- The root at a path: that of its node, or of an empty subtree when the path leaves the tree. -/
def rootAt (storage : S) (path : List UInt8) : Hash :=
  if pathStored storage path then commitmentRootHash (commitmentAt storage path)
  else emptyRoot (keySize - path.length)

/-- The root of a node whose children have the given scalars. -/
def vectorRoot (vector : UInt8 → ScalarField) : Hash :=
  commitmentRootHash (committed (childIndices.map vector))

/-- The root of a leaf. -/
def leafRoot (value : Option (List UInt8)) : Hash := commitmentRootHash (committed [leafScalar value])

/-- A leaf without a value commits to the zero that trimming drops. -/
theorem leaf_root_none : leafRoot none = emptyRoot 0 := by
  have trimmed : DensePolynomial.fromCoefficientsVec [(0 : ScalarField)] = .fromCoefficientsVec [] := by
    simp [DensePolynomial.fromCoefficientsVec, List.rdropWhile_singleton]
  rw [leafRoot, emptyRoot, committed, committed, leafScalar]
  exact congrArg (fun polynomial : DensePolynomial =>
    commitmentRootHash (PolynomialCommitment.blindedSum _ polynomial.coeffs)) trimmed

/-- The roots of a storage label a tree of commitments, the part that is not stored included. -/
theorem root_at_labelled (storage : S) :
    Openings.Labelled vectorRoot rootScalar keySize (rootAt storage) := by
  intro node inner
  have level : keySize - node.length = keySize - (node.length + 1) + 1 := by omega
  rw [rootAt, commitmentAt, level]
  by_cases there : pathStored storage node = true
  · rw [if_pos there, nodeCommitment, vectorRoot]
    congr 2
    apply List.map_congr_left
    intro child _
    rw [rootAt, path_stored_snoc, there, Bool.true_and, commitmentAt, List.length_append, List.length_singleton]
    split <;> rfl
  · rw [if_neg there, emptyRoot, vectorRoot]
    congr 2
    have absent : ∀ child, rootAt storage (node ++ [child]) = emptyRoot (keySize - (node.length + 1)) := by
      intro child
      rw [rootAt, path_stored_snoc, Bool.not_eq_true _ |>.mp there, Bool.false_and, List.length_append,
        List.length_singleton]
      rfl
    simp [absent]

/-- The value at the end of a path that does not leave the tree. -/
def provenValue (storage : S) (key : Bytes32) : Option (List UInt8) :=
  if pathStored storage key.bytes then storedValue storage key.bytes else none

theorem root_at_leaf (storage : S) (key : Bytes32) :
    rootAt storage key.bytes = leafRoot (provenValue storage key) := by
  rw [rootAt, provenValue, commitmentAt, length_key, Nat.sub_self]
  split
  · rfl
  · exact leaf_root_none.symm

theorem root_at_root (rooted : storedNode storage [] = true) : rootAt storage [] = storageRoot storage := by
  rw [rootAt, if_pos (by simpa [pathStored] using rooted), storageRoot]

end Labels

section Generation
variable {tree : VerkleTree S}

/-- The roots that one level of a proof shows. -/
def shown (level : Openings.Level UInt8 Hash) : List Hash := childIndices.map level.2

omit [Blake3] [Bandersnatch] in
theorem length_shown (level : Openings.Level UInt8 Hash) : (shown level).length = verkleRadix := by
  rw [shown, List.length_map, length_child_indices]

theorem Coherent.empty_root_hash (coherent : tree.Coherent) {depth : Nat} (within : depth ≤ keySize) :
    tree.emptySubtreeRootHash depth = emptyRoot (keySize - depth) := by
  rw [emptySubtreeRootHash, coherent.roots, List.getD_eq_getElem?_getD, getElem?_empty_roots within]
  rfl

theorem Coherent.collect_level (coherent : tree.Coherent) {node path : List UInt8}
    (inner : node.length < keySize) (same : pathStored tree.storage node = true → path = node) :
    Memo.Yields (commitmentAt tree.storage)
      (tree.collectLevel node.length path (pathStored tree.storage node))
      (childIndices.map fun child => rootAt tree.storage (node ++ [child])) := by
  apply Memo.yields_mapM _
  intro child _
  rw [rootAt, path_stored_snoc, List.length_append, List.length_singleton, nodeExists, nodeExists]
  by_cases there : pathStored tree.storage node = true
  · have last : storedNode tree.storage node = true := path_stored_iff.mp there node List.prefix_rfl
    rw [same there, there, last, Bool.true_and, Bool.true_and]
    split
    · have length : (node ++ [child]).length = node.length + 1 := by simp
      have computed := coherent.computes (keySize - (node.length + 1)) (node ++ [child]) (by omega)
      exact computed.bind (Memo.yields_pure _)
    · rw [coherent.empty_root_hash inner]
      exact Memo.yields_pure _
  · rw [Bool.not_eq_true _ |>.mp there, Bool.false_and, Bool.false_and, Bool.false_and,
      coherent.empty_root_hash inner]
    exact Memo.yields_pure _

/-- The walk along the key collects the levels of the opening. -/
theorem Coherent.collect_siblings (coherent : tree.Coherent) (rest : List UInt8) {node path : List UInt8}
    (length : node.length + rest.length = keySize)
    (same : pathStored tree.storage node = true → path = node) :
    ∃ walked, (pathStored tree.storage (node ++ rest) = true → walked = node ++ rest) ∧
      Memo.Yields (commitmentAt tree.storage)
        (tree.collectSiblings rest node.length path (pathStored tree.storage node))
        ((Openings.opening (rootAt tree.storage) node rest).flatMap shown, walked,
          pathStored tree.storage (node ++ rest)) := by
  induction rest generalizing node path with
  | nil =>
    rw [List.append_nil]
    exact ⟨path, same, Memo.yields_pure _⟩
  | cons byte rest ih =>
    simp only [List.length_cons] at length
    have longer : (node ++ [byte]).length = node.length + 1 := by simp
    have onward : (pathStored tree.storage node && tree.nodeExists
        (if pathStored tree.storage node then path ++ [byte] else path)) =
        pathStored tree.storage (node ++ [byte]) := by
      rw [path_stored_snoc]
      by_cases there : pathStored tree.storage node = true
      · rw [there, if_pos rfl, same there]
        rfl
      · rw [Bool.not_eq_true _ |>.mp there]
        rfl
    have followed : pathStored tree.storage (node ++ [byte]) = true →
        (if pathStored tree.storage node then path ++ [byte] else path) = node ++ [byte] := by
      intro there
      simp only [path_stored_snoc, Bool.and_eq_true] at there
      rw [if_pos there.1, same there.1]
    obtain ⟨walked, whole, collected⟩ := ih (by omega) followed
    simp only [List.append_assoc, List.singleton_append] at whole collected
    refine ⟨walked, whole, ?_⟩
    rw [collectSiblings]
    refine Memo.Yields.bind (coherent.collect_level (by omega) same) ?_
    dsimp only
    rw [onward, ← longer]
    exact collected.bind (Memo.yields_pure _)

/-- The proof that a storage gives for a key. -/
def storageProof (storage : S) (key : Bytes32) (gasWitness : Option GasFeeWitness) : VerkleProof where
  proofType := if (provenValue storage key).isSome then .membership else .nonMembership
  path := key.bytes
  siblings := (Openings.opening (rootAt storage) [] key.bytes).flatMap shown
  leafValue := provenValue storage key
  root := storageRoot storage
  gasFeeDistribution := gasWitness

/-- Generating a proof gives the storage's proof, and changes nothing but the caches. -/
theorem Coherent.generate_proof_with_witness (coherent : tree.Coherent) (key : Bytes32)
    (gasWitness : Option GasFeeWitness) :
    (tree.generateProofWithWitness key gasWitness).1 = .ok (storageProof tree.storage key gasWitness) ∧
      (tree.generateProofWithWitness key gasWitness).2.Coherent ∧
      SameContents tree (tree.generateProofWithWitness key gasWitness).2 := by
  have rooted : pathStored tree.storage [] = true := by simpa [pathStored] using coherent.rooted
  have length : ([] : List UInt8).length + key.bytes.length = keySize := by
    rw [length_key, List.length_nil, Nat.zero_add]
  obtain ⟨walked, whole, collected⟩ := coherent.collect_siblings key.bytes length fun _ => rfl
  simp only [rooted, List.nil_append] at collected
  simp only [List.nil_append] at whole
  obtain ⟨commitmentCache, ran, sound⟩ := collected tree.commitmentCache coherent.cache
  -- only the commitment cache has changed when the root is asked for
  have cached : ({ tree with commitmentCache } : VerkleTree S).Coherent :=
    ⟨coherent.generators, coherent.roots, coherent.scalars, coherent.rooted, sound, coherent.cachedRoot⟩
  have value : (if pathStored tree.storage key.bytes then tree.getNodeValue walked else none) =
      provenValue tree.storage key := by
    rw [provenValue]
    split
    · rename_i there
      rw [whole there]
      rfl
    · rfl
  have contents := same_contents_get_root ({ tree with commitmentCache } : VerkleTree S)
  obtain ⟨root, still⟩ := cached.get_root
  unfold generateProofWithWitness
  simp only [show ([] : List UInt8).length = 0 from rfl] at ran
  rw [ran]
  dsimp only
  rw [value]
  cases asked : getRoot ({ tree with commitmentCache } : VerkleTree S) with
  | mk outcome later =>
    rw [asked] at root still contents
    dsimp only at root still contents
    subst root
    exact ⟨rfl, still, contents.storage, contents.prunedKeys⟩

theorem Coherent.generate_proof (coherent : tree.Coherent) (key : Bytes32) :
    (tree.generateProof key).1 = .ok (storageProof tree.storage key none) ∧
      (tree.generateProof key).2.Coherent ∧ SameContents tree (tree.generateProof key).2 :=
  coherent.generate_proof_with_witness key none

end Generation

section Verification
variable {tree : VerkleTree S} {proof : VerkleProof}

/-- The levels of a proof, from the root down to the given depth. -/
def proofLevels (path : List UInt8) (siblings : List Hash) (depths : Nat) : List (Openings.Level UInt8 Hash) :=
  (List.range depths).map fun depth =>
    (path.getD depth 0, fun child => siblings.getD (depth * verkleRadix + child.toNat) (.replicate 0))

theorem level_coeffs_eq (path : List UInt8) (siblings : List Hash) (depth : Nat) (below : Hash) :
    levelCoeffs path siblings depth (rootScalar below) =
      childIndices.map (Openings.vector rootScalar (path.getD depth 0, fun child =>
        siblings.getD (depth * verkleRadix + child.toNat) (.replicate 0)) below) := by
  apply List.map_congr_left
  intro child _
  rw [Openings.vector, Function.update_apply]
  rfl

omit [Storage S] in
/-- The loop of the verifier rebuilds the opening, from the deepest level up. -/
theorem reconstruct_ok (generators : tree.pc = .new verkleRadix) (path : List UInt8) (siblings : List Hash)
    (depths : Nat) (below : Hash) :
    tree.reconstruct path siblings depths (rootScalar below) below =
      .ok (Openings.rebuild vectorRoot rootScalar (proofLevels path siblings depths) below) := by
  induction depths generalizing below with
  | zero => rfl
  | succ depth ih =>
    rw [reconstruct, generators, level_coeffs_eq, commit_to_ok _ (by simp)]
    refine (ih _).trans ?_
    rw [proofLevels, proofLevels, List.range_succ, List.map_append, Openings.rebuild_append]
    rfl

/-- What makes the verifier accept a proof. -/
structure Accepted (proof : VerkleProof) : Prop where
  path : proof.path.length = keySize
  siblings : proof.siblings.length = keySize * verkleRadix
  typed : proof.proofType = .membership ↔ proof.leafValue.isSome = true
  rebuilt : Openings.rebuild vectorRoot rootScalar (proofLevels proof.path proof.siblings keySize)
    (leafRoot proof.leafValue) = proof.root
  fees : ∀ witness, proof.gasFeeDistribution = some witness → feesAgree witness = true

theorem Coherent.verify_from (coherent : tree.Coherent) (proof : VerkleProof) (below : Hash) :
    tree.verifyFrom proof (rootScalar below) = .ok true ↔
      Openings.rebuild vectorRoot rootScalar (proofLevels proof.path proof.siblings keySize) below =
          proof.root ∧
        ∀ witness, proof.gasFeeDistribution = some witness → feesAgree witness = true := by
  have started : tree.reconstruct proof.path proof.siblings keySize (rootScalar below) (.replicate 0) =
      .ok (Openings.rebuild vectorRoot rootScalar (proofLevels proof.path proof.siblings keySize) below) := by
    -- the root that the loop starts with is replaced at its first level
    have levels : keySize = 31 + 1 := key_size_eq
    rw [← reconstruct_ok coherent.generators, levels]
    rfl
  rw [verifyFrom, started]
  by_cases same : Openings.rebuild vectorRoot rootScalar (proofLevels proof.path proof.siblings keySize) below =
      proof.root
  · cases witness : proof.gasFeeDistribution with
    | none => simp [bind, Except.bind, pure, Except.pure, same]
    | some witness => simp [bind, Except.bind, pure, Except.pure, same]
  · simp [bind, Except.bind, pure, Except.pure, same]

theorem Coherent.verify_proof (coherent : tree.Coherent) (proof : VerkleProof) :
    tree.verifyProof proof = .ok true ↔ Accepted proof := by
  have empty : tree.emptySubtreeRootHash keySize = leafRoot none := by
    rw [coherent.empty_root_hash le_rfl, Nat.sub_self, leaf_root_none]
  have committed (value : List UInt8) :
      commitTo tree.pc "Failed to commit leaf: " [valueToScalar value] =
        .ok (committed [leafScalar (some value)]) := by
    rw [coherent.generators]
    exact commit_to_ok _ (by simp [verkleRadix])
  have accepted : Accepted proof ↔ proof.path.length = keySize ∧
      proof.siblings.length = keySize * verkleRadix ∧
      (proof.proofType = .membership ↔ proof.leafValue.isSome = true) ∧
      tree.verifyFrom proof (rootScalar (leafRoot proof.leafValue)) = .ok true := by
    rw [coherent.verify_from]
    constructor
    · exact fun accepted => ⟨accepted.path, accepted.siblings, accepted.typed, accepted.rebuilt, accepted.fees⟩
    · rintro ⟨path, siblings, typed, rebuilt, fees⟩
      exact ⟨path, siblings, typed, rebuilt, fees⟩
  rw [accepted, VerkleTree.verifyProof]
  by_cases path : proof.path.length = keySize
  · by_cases siblings : proof.siblings.length = keySize * verkleRadix
    · rw [if_neg (not_not.mpr path), if_neg (not_not.mpr siblings)]
      cases proof.proofType <;> cases proof.leafValue <;>
        simp [path, siblings, empty, committed, leafRoot, bind, Except.bind]
    · simp [path, siblings]
  · simp [path]

end Verification
end Klomang.VerkleTree
