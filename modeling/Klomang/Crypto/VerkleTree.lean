import Klomang.Crypto.Opening
import Klomang.Lib.Enumeration
import Klomang.State.Utxo
import Klomang.State.VTrieProof

/-! `core/crypto/verkle/verkle_tree.rs`: the Verkle tree with opening proofs. Its paths, its node
encoding and its constants for empty subtrees are those of the state tree; its caches, its pruning
and its proofs are not. -/
namespace Klomang.Crypto

open Bandersnatch (ScalarField fromLeBytesModOrder)
open Klomang.VerkleTree (keySize verkleRadix childIndices keyForPath serializeNode storedNode storedValue
  commitmentRootHash rootScalar valueToScalar leafScalar levelCoeffs computeEmptySubtreeConstants)

variable [Blake3] [Bandersnatch]

structure VerkleProof where
  proofType : ProofType
  path : List UInt8
  siblings : List Hash
  leafValue : Option (List UInt8)
  root : Hash
  openingProofs : List OpeningProof

structure CachedNode where
  commitment : Option Commitment
  dirty : Bool

/-- The counters of cache hits and misses are left out. -/
structure VerkleTree (S : Type) where
  storage : S
  pc : PolynomialCommitment
  commitmentCache : FiniteMap (List UInt8) CachedNode
  emptySubtreeRoots : List Hash
  emptySubtreeScalars : List ScalarField
  rootCache : Option Hash
  prunedKeys : Finset (List UInt8)
  prunedCommitments : FiniteMap (List UInt8) Commitment

/-- What a call computes with: the cache survives a panic. -/
abbrev Caching := Memo (Abort CoreError) (List UInt8) CachedNode

namespace VerkleTree

section Nodes
variable {S : Type} [Storage S]

/-- `node_exists`. -/
def nodeExists (tree : VerkleTree S) (path : List UInt8) : Bool := storedNode tree.storage path

/-- `get_node_value`. -/
def getNodeValue (tree : VerkleTree S) (path : List UInt8) : Option (List UInt8) :=
  if path.length = keySize ∧ path ∈ tree.prunedKeys then none else storedValue tree.storage path

/-- `ensure_node`. -/
def ensureNode (tree : VerkleTree S) (path : List UInt8) : VerkleTree S :=
  if (Storage.get tree.storage (keyForPath path)).isNone then
    { tree with storage := Storage.put tree.storage (keyForPath path) (serializeNode none) }
  else tree

/-- `set_node_value`. -/
def setNodeValue (tree : VerkleTree S) (path : List UInt8) (value : Option (List UInt8)) : VerkleTree S :=
  { tree with storage := Storage.put tree.storage (keyForPath path) (serializeNode value) }

/-- One step of `invalidate_path_cache`: an entry that is there becomes dirty. -/
def soil (cache : FiniteMap (List UInt8) CachedNode) (path : List UInt8) : FiniteMap (List UInt8) CachedNode :=
  match cache.lookup (keyForPath path) with
  | some cached => cache.insert (keyForPath path) { cached with dirty := true }
  | none => cache

/-- `invalidate_path_cache`. -/
def invalidatePathCache (tree : VerkleTree S) (path : List UInt8) : VerkleTree S :=
  { tree with
    commitmentCache := path.inits.foldl soil tree.commitmentCache
    rootCache := none }

/-- `clear_pruned_state_for_key`. -/
def clearPrunedStateForKey (tree : VerkleTree S) (key : Bytes32) : VerkleTree S :=
  { tree with
    prunedKeys := tree.prunedKeys.erase key.bytes
    prunedCommitments := key.bytes.inits.foldl (fun commitments path => commitments.erase (keyForPath path))
      tree.prunedCommitments
    rootCache := none }

/-- `new`. A commitment that fails is a panic. -/
def new (storage : S) : Except (Abort CoreError) (VerkleTree S) :=
  let pc := PolynomialCommitment.new verkleRadix
  match computeEmptySubtreeConstants pc with
  | .error _ => .error .panic
  | .ok (emptySubtreeRoots, emptySubtreeScalars) =>
    let tree : VerkleTree S :=
      { storage, pc, commitmentCache := ∅, emptySubtreeRoots, emptySubtreeScalars
        rootCache := none, prunedKeys := ∅, prunedCommitments := ∅ }
    .ok (tree.ensureNode [])

/-- `insert`. -/
def insert (tree : VerkleTree S) (key : Bytes32) (value : List UInt8) : VerkleTree S :=
  let tree := tree.clearPrunedStateForKey key
  -- the nodes are ensured from the root down to the leaf
  let tree := key.bytes.inits.foldl ensureNode tree
  let tree := tree.setNodeValue key.bytes (some value)
  tree.invalidatePathCache key.bytes

/-- `get`. -/
def get (tree : VerkleTree S) (key : Bytes32) : Except CoreError (Option (List UInt8)) :=
  if key.bytes ∈ tree.prunedKeys then .error (.prunedData "Key has been pruned")
  else .ok (tree.getNodeValue key.bytes)

/-- `storage_clone`. -/
def storageClone (tree : VerkleTree S) : S := tree.storage

/-- `empty_subtree_root_hash`. -/
def emptySubtreeRootHash (tree : VerkleTree S) (depth : Nat) : Hash :=
  tree.emptySubtreeRoots.getD depth (.replicate 0)

/-- `empty_subtree_scalar`. -/
def emptySubtreeScalar (tree : VerkleTree S) (depth : Nat) : ScalarField :=
  tree.emptySubtreeScalars.getD depth 0

end Nodes

section Commitments
variable {S : Type} [Storage S]

/-- A commitment that panics when there are more coefficients than generators. -/
def expectCommit (pc : PolynomialCommitment) (coeffs : List ScalarField) : Except (Abort CoreError) Commitment :=
  match pc.commit (.fromCoefficientsVec coeffs) with
  | .ok commitment => .ok commitment
  | .error _ => .error .panic

/-- The commitment that is known for a node: a clean one from the cache, else a recorded one. -/
def known (tree : VerkleTree S) (path : List UInt8) : Caching (Option Commitment) := do
  match ← Memo.remembered (keyForPath path) with
  | some ⟨some commitment, false⟩ => return some commitment
  | _ => return tree.prunedCommitments.lookup (keyForPath path)

/-- What `get_node_commitment` does about a computation. -/
def getNode (tree : VerkleTree S) (path : List UInt8) (compute : Caching Commitment) : Caching Commitment := do
  match ← tree.known path with
  | some commitment => return commitment
  | none =>
    let commitment ← compute
    Memo.remember (keyForPath path) ⟨some commitment, false⟩
    return commitment

/-- What `compute_node_commitment` does about a computation: it looks once more, and caches nothing. -/
def computeNode (tree : VerkleTree S) (path : List UInt8) (compute : Caching Commitment) : Caching Commitment := do
  match ← tree.known path with
  | some commitment => return commitment
  | none => compute

/-- The scalars of the children of a node with so many levels below them, given how the commitment of
a child is found. -/
def childScalars (tree : VerkleTree S) (levels : Nat) (path : List UInt8)
    (below : List UInt8 → Caching Commitment) : Caching (List ScalarField) :=
  childIndices.mapM fun child =>
    if tree.nodeExists (path ++ [child]) then do
      let commitment ← below (path ++ [child])
      return rootScalar (commitmentRootHash commitment)
    else return tree.emptySubtreeScalar (keySize - levels)

/-- `compute_node_commitment`, by recursion on the levels below the node. -/
def computeNodeCommitment (tree : VerkleTree S) : Nat → List UInt8 → Caching Commitment
  | 0, path => tree.computeNode path <|
      Memo.ofExcept (expectCommit tree.pc [leafScalar (tree.getNodeValue path)])
  | levels + 1, path => tree.computeNode path do
      let coeffs ← tree.childScalars levels path fun child =>
        tree.getNode child (tree.computeNodeCommitment levels child)
      Memo.ofExcept (expectCommit tree.pc coeffs)

/-- `get_node_commitment`. -/
def getNodeCommitment (tree : VerkleTree S) (levels : Nat) (path : List UInt8) : Caching Commitment :=
  tree.getNode path (tree.computeNodeCommitment levels path)

/-- `compute_node_root_hash`. -/
def computeNodeRootHash (tree : VerkleTree S) (levels : Nat) (path : List UInt8) : Caching Hash := do
  let commitment ← tree.getNodeCommitment levels path
  return commitmentRootHash commitment

/-- `get_root`. -/
def getRoot (tree : VerkleTree S) : Except (Abort CoreError) Hash × VerkleTree S :=
  match tree.rootCache with
  | some root => (.ok root, tree)
  | none =>
    match (tree.computeNodeRootHash keySize []).on tree.commitmentCache with
    | (.ok root, commitmentCache) => (.ok root, { tree with commitmentCache, rootCache := some root })
    | (.error abort, commitmentCache) => (.error abort, { tree with commitmentCache })

end Commitments

section Pruning
variable {S : Type} [Storage S]

/-- The commitments that `prune_key` records, from the root down to the leaf. -/
def recordPath (tree : VerkleTree S) : List (List UInt8) → Except (Abort CoreError) Unit × VerkleTree S
  | [] => (.ok (), tree)
  | path :: rest =>
    match (tree.getNodeCommitment (keySize - path.length) path).on tree.commitmentCache with
    | (.error abort, commitmentCache) => (.error abort, { tree with commitmentCache })
    | (.ok commitment, commitmentCache) =>
      recordPath { tree with
        commitmentCache
        prunedCommitments := tree.prunedCommitments.insert (keyForPath path) commitment } rest

/-- `prune_key`. -/
def pruneKey (tree : VerkleTree S) (key : Bytes32) : Except (Abort CoreError) Unit × VerkleTree S :=
  if !tree.nodeExists key.bytes then
    (.error (.err (.prunedData "Key does not exist or already absent")), tree)
  else
    match tree.recordPath key.bytes.inits with
    | (.error abort, tree) => (.error abort, tree)
    | (.ok (), tree) =>
      let tree := { tree with
        storage := Storage.delete tree.storage (keyForPath key.bytes)
        prunedKeys := Insert.insert key.bytes tree.prunedKeys }
      let tree := tree.invalidatePathCache key.bytes
      -- the root is recorded under the key of the empty path, which is not the empty key
      match tree.prunedCommitments.lookup [] with
      | some rootCommit => (.ok (), { tree with rootCache := some (commitmentRootHash rootCommit) })
      | none => (.ok (), tree)

end Pruning

section Generation
variable {S : Type} [Storage S]

/-- `hash_node_value_at_index`, with the number of levels below the child. -/
def hashNodeValueAtIndex (tree : VerkleTree S) (levels : Nat) (path : List UInt8) (childIndex : UInt8) :
    Caching ScalarField := do
  let childRoot ← tree.computeNodeRootHash levels (path ++ [childIndex])
  return rootScalar childRoot

/-- `reconstruct_node_polynomial`. -/
def reconstructNodePolynomial (tree : VerkleTree S) : Nat → List UInt8 → Caching DensePolynomial
  | 0, path => return .fromCoefficientsVec [leafScalar (tree.getNodeValue path)]
  | levels + 1, path => do
    let coeffs ← tree.childScalars levels path (tree.getNodeCommitment levels)
    return .fromCoefficientsVec coeffs

/-- The opening that `generate_proof` makes at a node: none when `open` returns an error. -/
def openNode (tree : VerkleTree S) (levels : Nat) (path : List UInt8) (byte : UInt8) :
    Caching (List OpeningProof) := do
  let _ ← tree.getNodeCommitment (levels + 1) path
  let point := fromLeBytesModOrder [byte]
  let valueHash ← tree.hashNodeValueAtIndex levels path byte
  let polynomial ← tree.reconstructNodePolynomial (levels + 1) path
  match tree.pc.openAt polynomial point valueHash with
  | .ok proof => return [proof]
  | .error (.err _) => return []
  | .error .panic => Memo.ofExcept (.error .panic)

/-- The opening at one depth of `generate_proof`, for a node that is stored. -/
def openLevel (tree : VerkleTree S) (depth : Nat) (path : List UInt8) (byte : UInt8) (pathExists : Bool) :
    Caching (List OpeningProof) :=
  if pathExists && tree.nodeExists path then tree.openNode (keySize - (depth + 1)) path byte
  else return []

/-- The roots of the children at one depth of `generate_proof`. -/
def collectLevel (tree : VerkleTree S) (depth : Nat) (path : List UInt8) (pathExists : Bool) :
    Caching (List Hash) :=
  let emptyChildRoot := tree.emptySubtreeRootHash (depth + 1)
  childIndices.mapM fun child =>
    if pathExists && tree.nodeExists path && tree.nodeExists (path ++ [child]) then
      tree.computeNodeRootHash (keySize - (depth + 1)) (path ++ [child])
    else return emptyChildRoot

/-- The loop of `generate_proof` over the bytes of the key: the siblings and the openings of all
depths, and the path with whether every node on it exists. -/
def collect (tree : VerkleTree S) :
    List UInt8 → Nat → List UInt8 → Bool → Caching ((List Hash × List OpeningProof) × List UInt8 × Bool)
  | [], _, path, pathExists => return (([], []), path, pathExists)
  | byte :: rest, depth, path, pathExists => do
    let level ← tree.collectLevel depth path pathExists
    let opening ← tree.openLevel depth path byte pathExists
    -- a path that has left the stored nodes is not followed any further
    let next := if pathExists then path ++ [byte] else path
    let ((siblings, openingProofs), walked) ←
      tree.collect rest (depth + 1) next (pathExists && tree.nodeExists next)
    return ((level ++ siblings, opening ++ openingProofs), walked)

/-- `generate_proof`. -/
def generateProof (tree : VerkleTree S) (key : Bytes32) : Except (Abort CoreError) VerkleProof × VerkleTree S :=
  match (tree.collect key.bytes 0 [] true).on tree.commitmentCache with
  | (.error abort, commitmentCache) => (.error abort, { tree with commitmentCache })
  | (.ok ((siblings, openingProofs), path, pathExists), commitmentCache) =>
    let leafValue := if pathExists then tree.getNodeValue path else none
    let proofType := if leafValue.isSome then .membership else .nonMembership
    match getRoot { tree with commitmentCache } with
    | (.error abort, tree) => (.error abort, tree)
    | (.ok root, tree) => (.ok { proofType, path := key.bytes, siblings, leafValue, root, openingProofs }, tree)

end Generation

section Verification
variable {S : Type}

/-- The loop of `verify_proof`, from the deepest of so many levels up to the root; nothing when a
commitment fails. -/
def reconstruct (tree : VerkleTree S) (path : List UInt8) (siblings : List Hash) :
    Nat → ScalarField → Hash → Option Hash
  | 0, _, computedRoot => some computedRoot
  | depth + 1, currentScalar, _ =>
    match tree.pc.commit (.fromCoefficientsVec (levelCoeffs path siblings depth currentScalar)) with
    | .error _ => none
    | .ok commitment =>
      let reconstructedRoot := commitmentRootHash commitment
      tree.reconstruct path siblings depth (rootScalar reconstructedRoot) reconstructedRoot

/-- The scalar that `verify_proof` starts from. -/
def startScalar (tree : VerkleTree S) : ProofType → Option (List UInt8) → Option ScalarField
  | .membership, some value =>
    match tree.pc.commit (.fromCoefficientsVec [valueToScalar value]) with
    | .ok leafCommitment => some (rootScalar (commitmentRootHash leafCommitment))
    | .error _ => none
  | .nonMembership, none => some (rootScalar (tree.emptySubtreeRootHash keySize))
  -- the type of the proof does not agree with its leaf value
  | _, _ => none

/-- Whether `verify` fails on an opening. Its answer is not looked at. -/
def openingFails (tree : VerkleTree S) (openingProof : OpeningProof) : Bool :=
  match tree.pc.verify openingProof.quotientCommitment openingProof with
  | .ok _ => false
  | .error _ => true

/-- `verify_proof`. -/
def verifyProof (tree : VerkleTree S) (proof : VerkleProof) : Bool :=
  if proof.path.length ≠ keySize then false
  else if proof.siblings.length ≠ keySize * verkleRadix then false
  else if proof.openingProofs.any tree.openingFails then false
  else
    match tree.startScalar proof.proofType proof.leafValue with
    | none => false
    | some currentScalar =>
      match tree.reconstruct proof.path proof.siblings keySize currentScalar (.replicate 0) with
      | none => false
      | some computedRoot => computedRoot = proof.root

/-- `verify_verkle_proof`. -/
def verifyVerkleProof (tree : VerkleTree S) (root : Hash) (proof : VerkleProof) (key value : Hash) : Bool :=
  if proof.root ≠ root then false
  else if !tree.verifyProof proof then false
  else if proof.path ≠ key.bytes then false
  else
    match proof.proofType, proof.leafValue with
    | .membership, some leafValue => Hash.new leafValue = value
    | .membership, none => false
    -- the value that was asked for is not looked at
    | .nonMembership, leafValue => leafValue.isNone

end Verification

section UtxoRoot
variable {S : Type} [Storage S]

/-- `hex::encode`. -/
def hexEncode (hash : Hash) : String := hash.toHex

/-- The text that the key of an unspent output is derived from. -/
def pathStr (outpoint : OutPoint) (txOutput : TxOutput) : String :=
  hexEncode txOutput.pubkeyHash ++ ":" ++ toString outpoint.2.toNat ++ ":VALUE"

/-- The key of an unspent output. -/
def utxoKey (outpoint : OutPoint) (txOutput : TxOutput) : Bytes32 :=
  Hash.new (pathStr outpoint txOutput).toUTF8.toList

/-- The unspent outputs in the order of the iteration. -/
def entries (order : Enumeration OutPoint) (utxoSet : UtxoSet) : List (OutPoint × TxOutput) :=
  (order.list utxoSet.utxos.keys).filterMap fun outpoint =>
    (utxoSet.utxos.lookup outpoint).map fun txOutput => (outpoint, txOutput)

/-- The tree that `calculate_verkle_root` starts to fill. -/
def cleared (tree : VerkleTree S) : VerkleTree S :=
  { tree with
    storage := Storage.clear tree.storage
    commitmentCache := ∅
    rootCache := none
    prunedKeys := ∅
    prunedCommitments := ∅ }

/-- `calculate_verkle_root`. -/
def calculateVerkleRoot (tree : VerkleTree S) (order : Enumeration OutPoint) (utxoSet : UtxoSet) :
    Except (Abort CoreError) Hash × VerkleTree S :=
  let tree := (entries order utxoSet).foldl (fun tree entry =>
    tree.insert (utxoKey entry.1 entry.2) (Bytes.leBytes 8 entry.2.value.toNat)) tree.cleared
  tree.getRoot

end UtxoRoot
end VerkleTree
end Klomang.Crypto
