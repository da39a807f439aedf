import Klomang.State.VTrieCaches

/-! `core/state/v_trie.rs`: membership proofs, their generation and their verification. -/
namespace Klomang

/-- `ProofType`. -/
inductive ProofType where
  | membership
  | nonMembership
  deriving DecidableEq

/-- `GasFeeWitness` of this file, three `u128` amounts. -/
structure VerkleTree.GasFeeWitness where
  totalGasFee : Nat
  minerShare : Nat
  fullnodeShare : Nat

structure VerkleProof where
  proofType : ProofType
  path : List UInt8
  siblings : List Hash
  leafValue : Option (List UInt8)
  root : Hash
  gasFeeDistribution : Option VerkleTree.GasFeeWitness

namespace VerkleTree

open Bandersnatch (ScalarField)

variable [Blake3] [Bandersnatch] {S : Type}

/-- `empty_subtree_root_hash`. -/
def emptySubtreeRootHash (tree : VerkleTree S) (depth : Nat) : Hash :=
  tree.emptySubtreeRoots.getD depth (.replicate 0)

/-- `storage_clone`. -/
def storageClone (tree : VerkleTree S) : S := tree.storage

section Verification

/-- The coefficients of one level: the scalar computed so far on the path, the siblings beside it. -/
def levelCoeffs (path : List UInt8) (siblings : List Hash) (depth : Nat) (currentScalar : ScalarField) :
    List ScalarField :=
  childIndices.map fun child =>
    if child = path.getD depth 0 then currentScalar
    else rootScalar (siblings.getD (depth * verkleRadix + child.toNat) (.replicate 0))

/-- The loop of `verify_proof`, from the deepest of so many levels up to the root. -/
def reconstruct (tree : VerkleTree S) (path : List UInt8) (siblings : List Hash) :
    Nat → ScalarField → Hash → Except CoreError Hash
  | 0, _, computedRoot => .ok computedRoot
  | depth + 1, currentScalar, _ => do
    let commitment ← commitTo tree.pc "Failed to reconstruct commitment: "
      (levelCoeffs path siblings depth currentScalar)
    let reconstructedRoot := commitmentRootHash commitment
    tree.reconstruct path siblings depth (rootScalar reconstructedRoot) reconstructedRoot

/-- The check of the fee witness. The product wraps at 128 bits. -/
def feesAgree (witness : GasFeeWitness) : Bool :=
  let expectedMiner := witness.totalGasFee * EconomicConstants.minerRewardPercent % 2 ^ 128 / 100
  let expectedFullnode := witness.totalGasFee - expectedMiner
  witness.minerShare = expectedMiner ∧ witness.fullnodeShare = expectedFullnode

/-- The rest of `verify_proof`, from the scalar of the leaf. -/
def verifyFrom (tree : VerkleTree S) (proof : VerkleProof) (leafScalar : ScalarField) :
    Except CoreError Bool := do
  let computedRoot ← tree.reconstruct proof.path proof.siblings keySize leafScalar (.replicate 0)
  if computedRoot ≠ proof.root then return false
  match proof.gasFeeDistribution with
  | none => return true
  | some witness => return feesAgree witness

/-- `verify_proof`. -/
def verifyProof (tree : VerkleTree S) (proof : VerkleProof) : Except CoreError Bool :=
  if proof.path.length ≠ keySize then .ok false
  else if proof.siblings.length ≠ keySize * verkleRadix then .ok false
  else
    match proof.proofType, proof.leafValue with
    | .membership, some value => do
      let leafCommitment ← commitTo tree.pc "Failed to commit leaf: " [valueToScalar value]
      tree.verifyFrom proof (rootScalar (commitmentRootHash leafCommitment))
    | .nonMembership, none => tree.verifyFrom proof (rootScalar (tree.emptySubtreeRootHash keySize))
    -- the type of the proof does not agree with its leaf value
    | _, _ => .ok false

end Verification

variable [Storage S]

section Generation

/-- `compute_node_root_hash`, with the number of levels below the node. -/
def computeNodeRootHash (tree : VerkleTree S) (levels : Nat) (path : List UInt8) :
    Memo CoreError (List UInt8) Commitment Hash := do
  let commitment ← tree.computeNodeCommitment levels path
  return commitmentRootHash commitment

/-- The roots beside and on the path at one depth of `generate_proof_with_witness`. -/
def collectLevel (tree : VerkleTree S) (depth : Nat) (path : List UInt8) (pathExists : Bool) :
    Memo CoreError (List UInt8) Commitment (List Hash) :=
  let emptyChildRoot := tree.emptySubtreeRootHash (depth + 1)
  childIndices.mapM fun child =>
    if pathExists && tree.nodeExists path && tree.nodeExists (path ++ [child]) then
      tree.computeNodeRootHash (keySize - (depth + 1)) (path ++ [child])
    else return emptyChildRoot

/-- The loop of `generate_proof_with_witness` over the bytes of the key: the siblings of all
depths, and the path with whether every node on it exists. -/
def collectSiblings (tree : VerkleTree S) :
    List UInt8 → Nat → List UInt8 → Bool →
      Memo CoreError (List UInt8) Commitment (List Hash × List UInt8 × Bool)
  | [], _, path, pathExists => return ([], path, pathExists)
  | byte :: rest, depth, path, pathExists => do
    let level ← tree.collectLevel depth path pathExists
    -- a path that has left the stored nodes is not followed any further
    let next := if pathExists then path ++ [byte] else path
    let (siblings, walked) ← tree.collectSiblings rest (depth + 1) next (pathExists && tree.nodeExists next)
    return (level ++ siblings, walked)

/-- `generate_proof_with_witness`. -/
def generateProofWithWitness (tree : VerkleTree S) (key : Bytes32) (gasWitness : Option GasFeeWitness) :
    Except CoreError VerkleProof × VerkleTree S :=
  match (tree.collectSiblings key.bytes 0 [] true).on tree.commitmentCache with
  | (.error error, commitmentCache) => (.error error, { tree with commitmentCache })
  | (.ok (siblings, path, pathExists), commitmentCache) =>
    let leafValue := if pathExists then tree.getNodeValue path else none
    let proofType := if leafValue.isSome then .membership else .nonMembership
    match getRoot { tree with commitmentCache } with
    | (.error error, tree) => (.error error, tree)
    | (.ok root, tree) =>
      (.ok { proofType, path := key.bytes, siblings, leafValue, root, gasFeeDistribution := gasWitness }, tree)

/-- `generate_proof`. -/
def generateProof (tree : VerkleTree S) (key : Bytes32) : Except CoreError VerkleProof × VerkleTree S :=
  tree.generateProofWithWitness key none

end Generation
end VerkleTree
end Klomang
