import Klomang.Lib.Runs
import Klomang.State.VTrieOpenings

/-! Runs of the state tree's operations. Whatever a tree has cached on the way, its root is that
of a tree built anew over its storage, and every proof that it generates is accepted. -/
namespace Klomang.VerkleTree

variable [Blake3] [Bandersnatch] {S : Type} [Storage S]

/-- What can be asked of a tree. -/
inductive Operation where
  | insert (key : Bytes32) (value : List UInt8)
  | pruneKey (key : Bytes32)
  | getRoot
  | generateProof (key : Bytes32)
  | clone

/-- The tree after an operation. A clone takes the tree's place; a panic would leave it as it is. -/
def perform (tree : VerkleTree S) : Operation → VerkleTree S
  | .insert key value => tree.insert key value
  | .pruneKey key => (tree.pruneKey key).2
  | .getRoot => tree.getRoot.2
  | .generateProof key => (tree.generateProof key).2
  | .clone =>
    match tree.clone with
    | .ok cloned => cloned
    | .error _ => tree

/-- The trees that a run of operations reaches from a new tree. -/
def Reached (tree : VerkleTree S) : Prop :=
  ∃ storage start operations, new storage = .ok start ∧ tree = Runs.run perform start operations

section Coherence
variable {tree : VerkleTree S}

theorem Coherent.perform (coherent : tree.Coherent) (operation : Operation) :
    (tree.perform operation).Coherent := by
  cases operation with
  | insert key value => exact coherent.insert key value
  | pruneKey key => exact coherent.prune_key key
  | getRoot => exact coherent.get_root.2
  | generateProof key => exact (coherent.generate_proof key).2.1
  | clone =>
    rw [VerkleTree.perform, clone_ok]
    exact coherent.cloned

theorem run_coherent (storage : S) (operations : List Operation) :
    (Runs.run perform (fresh storage) operations).Coherent :=
  Runs.run_keeps Coherent (fresh_coherent storage) (fun _ operation coherent => coherent.perform operation) operations

theorem Reached.coherent (reached : Reached tree) : tree.Coherent := by
  obtain ⟨storage, start, operations, made, rfl⟩ := reached
  simp only [new_ok] at made
  cases made
  exact run_coherent storage operations

/-- The commitment cache, the root cache and the dirty flag are never seen in a root: a tree built
anew over the storage has the same one. -/
theorem cache_transparent (storage : S) (operations : List Operation) :
    ∃ start, new storage = .ok start ∧
      ∃ root, (Runs.run perform start operations).getRoot.1 = .ok root ∧
        ∃ renewed, new (Runs.run perform start operations).storageClone = .ok renewed ∧
          renewed.getRoot.1 = .ok root := by
  have coherent := run_coherent storage operations
  refine ⟨fresh storage, new_ok storage, _, coherent.get_root.1, _, new_ok _, ?_⟩
  have renewed := (fresh_coherent (Runs.run perform (fresh storage) operations).storageClone).get_root.1
  simp only [storageClone, fresh_storage coherent.rooted] at renewed
  exact renewed

end Coherence

section Completeness
variable {storage : S}

omit [Blake3] [Bandersnatch] in
/-- The levels of an opening are read back from its flat list of roots. -/
theorem proof_levels_flat (levels : List (Openings.Level UInt8 Hash)) :
    proofLevels (levels.map Prod.fst) (levels.flatMap shown) levels.length = levels := by
  apply List.ext_getElem?
  intro depth
  rw [proofLevels, List.getElem?_map]
  cases found : levels[depth]? with
  | none =>
    have past : levels.length ≤ depth := List.getElem?_eq_none_iff.mp found
    rw [List.getElem?_eq_none (by simpa using past)]
    rfl
  | some level =>
    obtain ⟨within, _⟩ := List.getElem?_eq_some_iff.mp found
    have sibling : ∀ child : UInt8,
        (levels.flatMap shown).getD (depth * verkleRadix + child.toNat) (.replicate 0) = level.2 child := by
      intro child
      have width : ∀ block ∈ levels.map shown, block.length = verkleRadix := by
        intro block member
        obtain ⟨other, _, rfl⟩ := List.mem_map.mp member
        exact length_shown other
      have inside : child.toNat < verkleRadix := child.toNat_lt
      rw [List.flatMap_def, List.getD_eq_getElem?_getD, getElem?_flatten_uniform width depth inside,
        List.getElem?_map, found, Option.map_some, Option.bind_some, shown, List.getElem?_map, child_index]
      rfl
    rw [List.getElem?_range within, Option.map_some, List.getD_eq_getElem?_getD, List.getElem?_map, found]
    exact congrArg some (Prod.ext rfl (funext sibling))

/-- A proof that shows the levels of an opening is accepted when the opening gives its root. -/
theorem opening_accepted_iff {label : List UInt8 → Hash} (key : Bytes32) {proof : VerkleProof}
    (path : proof.path = key.bytes)
    (siblings : proof.siblings = (Openings.opening label [] key.bytes).flatMap shown)
    (typed : proof.proofType = .membership ↔ proof.leafValue.isSome = true)
    (fees : proof.gasFeeDistribution = none) :
    Accepted proof ↔ Openings.rebuild vectorRoot rootScalar (Openings.opening label [] key.bytes)
      (leafRoot proof.leafValue) = proof.root := by
  have levels := proof_levels_flat (Openings.opening label [] key.bytes)
  simp only [Openings.opening_path, Openings.length_opening, length_key] at levels
  constructor
  · intro accepted
    have rebuilt := accepted.rebuilt
    rw [path, siblings, levels] at rebuilt
    exact rebuilt
  · intro rebuilt
    refine ⟨path ▸ length_key key, ?_, typed, ?_, fun witness asked => ?_⟩
    · have count := length_flatMap_uniform length_shown (Openings.opening label [] key.bytes)
      rw [Openings.length_opening, length_key, Nat.mul_comm] at count
      exact (congrArg List.length siblings).trans count
    · rw [path, siblings, levels, rebuilt]
    · simp only [fees] at asked
      cases asked

/-- The verifier accepts what a labelled tree opens. -/
theorem opening_accepted {label : List UInt8 → Hash}
    (labelled : Openings.Labelled vectorRoot rootScalar keySize label) (key : Bytes32) {proof : VerkleProof}
    (path : proof.path = key.bytes)
    (siblings : proof.siblings = (Openings.opening label [] key.bytes).flatMap shown)
    (typed : proof.proofType = .membership ↔ proof.leafValue.isSome = true)
    (leaf : label key.bytes = leafRoot proof.leafValue) (root : label [] = proof.root)
    (fees : proof.gasFeeDistribution = none) : Accepted proof := by
  have whole : ([] : List UInt8).length + key.bytes.length ≤ keySize := by
    rw [length_key, List.length_nil, Nat.zero_add]
  have rebuilt := Openings.rebuild_opening labelled [] key.bytes whole
  simp only [List.nil_append, leaf, root] at rebuilt
  exact (opening_accepted_iff key path siblings typed fees).mpr rebuilt

/-- The proof that a storage gives for a key has what the verifier asks for. -/
theorem storage_proof_accepted (rooted : storedNode storage [] = true) (key : Bytes32) :
    Accepted (storageProof storage key none) := by
  refine opening_accepted (root_at_labelled storage) key rfl rfl ?_ (root_at_leaf storage key)
    (root_at_root rooted) rfl
  dsimp only [storageProof]
  split <;> simp_all

/-- A generated proof carries the root of the tree, and the tree accepts it. -/
theorem proofs_complete (storage : S) (operations : List Operation) (key : Bytes32) :
    ∃ start, new storage = .ok start ∧
      ∃ proof, ((Runs.run perform start operations).generateProof key).1 = .ok proof ∧
        (Runs.run perform start operations).getRoot.1 = .ok proof.root ∧
        (Runs.run perform start operations).verifyProof proof = .ok true ∧
        ((Runs.run perform start operations).generateProof key).2.verifyProof proof = .ok true := by
  have coherent := run_coherent storage operations
  obtain ⟨generated, still, _⟩ := coherent.generate_proof key
  have accepted := storage_proof_accepted coherent.rooted key
  refine ⟨fresh storage, new_ok storage, _, generated, coherent.get_root.1, ?_, ?_⟩
  · exact (coherent.verify_proof _).mpr accepted
  · exact (still.verify_proof _).mpr accepted

end Completeness
end Klomang.VerkleTree
