import Klomang.Consensus.EconomicConstants
import Klomang.Crypto.PolynomialCommitment
import Klomang.Errors
import Klomang.Lib.Memo
import Klomang.State.Storage
import Klomang.State.Transaction

/-! `core/state/v_trie.rs`: the 256-ary Verkle tree over a key-value store, with
its commitment cache and its record of pruned keys. -/
namespace Klomang

open Bandersnatch (ScalarField EdwardsPoint fromLeBytesModOrder)

variable [Blake3] [Bandersnatch]

/-- A cache of commitments. Every entry the source stores carries a commitment. -/
abbrev CommitmentCache := FiniteMap (List UInt8) Commitment

structure VerkleTree (S : Type) where
  storage : S
  pc : PolynomialCommitment
  commitmentCache : CommitmentCache
  emptySubtreeRoots : List Hash
  emptySubtreeScalars : List ScalarField
  rootCache : Option Hash
  dirty : Bool
  prunedKeys : Finset (List UInt8)

namespace VerkleTree

/-- `VERKLE_RADIX`. -/
def verkleRadix : Nat := 256

/-- `KEY_SIZE`. Irreducible, so that nothing unrolls the 32 levels of the tree. -/
@[irreducible] def keySize : Nat := 32

/-- `TOTAL_SUPPLY_KEY`. -/
def totalSupplyKey : Bytes32 := .replicate 0

/-- The child indices of a node, in order. -/
def childIndices : List UInt8 := (List.range verkleRadix).map UInt8.ofNat

/-- `key_for_path`. -/
def keyForPath (path : List UInt8) : List UInt8 := UInt8.ofNat path.length :: path

/-- `serialize_node`. -/
def serializeNode : Option (List UInt8) → List UInt8
  | some inner => 1 :: (Bytes.beBytes 4 inner.length ++ inner)
  | none => [0]

/-- `deserialize_node`. -/
def deserializeNode : List UInt8 → Option (Option (List UInt8))
  | [] => none
  | 0 :: _ => some none
  | 1 :: body =>
    if body.length < 4 then none
    else
      let size := Bytes.ofBE (body.take 4)
      if body.length ≠ 4 + size then none else some (some (body.drop 4))
  | _ => none

/-- `commitment_root_hash`; writing a point to memory does not fail. -/
def commitmentRootHash (commitment : Commitment) : Hash :=
  Hash.new (Bandersnatch.serializeUncompressed commitment.point)

/-- A root hash read as a scalar. -/
def rootScalar (root : Hash) : ScalarField := fromLeBytesModOrder root.bytes

/-- `value_to_scalar`. -/
def valueToScalar (value : List UInt8) : ScalarField := fromLeBytesModOrder (Hash.new value).bytes

/-- A commitment to coefficients, with the text that introduces a failure. -/
def commitTo (pc : PolynomialCommitment) (failure : String) (coeffs : List ScalarField) :
    Except CoreError Commitment :=
  match pc.commit (.fromCoefficientsVec coeffs) with
  | .ok commitment => .ok commitment
  | .error error => .error (.polynomialCommitmentError (failure ++ error.text))

/-- The empty roots and scalars from a depth down to the leaves, for the number of levels
below that depth. -/
def emptyConstants (pc : PolynomialCommitment) : Nat → Except CoreError (List Hash × List ScalarField)
  | 0 => do
    let commitment ← commitTo pc "Failed to commit empty polynomial: " []
    let root := commitmentRootHash commitment
    return ([root], [rootScalar root])
  | levels + 1 => do
    let (roots, scalars) ← emptyConstants pc levels
    let childScalar := scalars.headD 0
    let commitment ← commitTo pc "Failed to commit subtree polynomial: "
      (List.replicate verkleRadix childScalar)
    let root := commitmentRootHash commitment
    return (root :: roots, rootScalar root :: scalars)

/-- `compute_empty_subtree_constants`. -/
def computeEmptySubtreeConstants (pc : PolynomialCommitment) :
    Except CoreError (List Hash × List ScalarField) :=
  emptyConstants pc keySize

variable {S : Type} [Storage S]

section Nodes

/-- A node is stored at a path. -/
def storedNode (storage : S) (path : List UInt8) : Bool := (Storage.get storage (keyForPath path)).isSome

/-- The value stored at a path. -/
def storedValue (storage : S) (path : List UInt8) : Option (List UInt8) :=
  ((Storage.get storage (keyForPath path)).bind deserializeNode).join

/-- `node_exists`. -/
def nodeExists (tree : VerkleTree S) (path : List UInt8) : Bool := storedNode tree.storage path

/-- `get_node_value`. -/
def getNodeValue (tree : VerkleTree S) (path : List UInt8) : Option (List UInt8) :=
  storedValue tree.storage path

/-- `ensure_node`. -/
def ensureNode (tree : VerkleTree S) (path : List UInt8) : VerkleTree S :=
  if (Storage.get tree.storage (keyForPath path)).isNone then
    { tree with storage := Storage.put tree.storage (keyForPath path) (serializeNode none) }
  else tree

/-- `set_node_value`. -/
def setNodeValue (tree : VerkleTree S) (path : List UInt8) (value : Option (List UInt8)) : VerkleTree S :=
  { tree with storage := Storage.put tree.storage (keyForPath path) (serializeNode value) }

/-- `invalidate_path_cache`: every prefix of the path leaves the cache. -/
def invalidatePathCache (tree : VerkleTree S) (path : List UInt8) : VerkleTree S :=
  { tree with
    commitmentCache := path.inits.foldl (fun cache cachePath => cache.erase cachePath) tree.commitmentCache
    rootCache := none }

end Nodes

/-- `VerkleTree::new`. -/
def new (storage : S) : Except CoreError (VerkleTree S) := do
  let pc := PolynomialCommitment.new verkleRadix
  let (emptySubtreeRoots, emptySubtreeScalars) ← computeEmptySubtreeConstants pc
  let tree : VerkleTree S :=
    { storage, pc, commitmentCache := ∅, emptySubtreeRoots, emptySubtreeScalars
      rootCache := none, dirty := true, prunedKeys := ∅ }
  return tree.ensureNode []

/-- `Clone for VerkleTree`: a new tree over the same storage that keeps the
pruned keys. A failed construction is a panic. -/
def clone (tree : VerkleTree S) : Except (Abort CoreError) (VerkleTree S) :=
  match new tree.storage with
  | .ok cloned =>
    .ok { cloned with
      prunedKeys := tree.prunedKeys
      emptySubtreeRoots := tree.emptySubtreeRoots
      emptySubtreeScalars := tree.emptySubtreeScalars
      commitmentCache := ∅
      rootCache := none
      dirty := true }
  | .error _ => .error .panic

section Writes

/-- `insert`. -/
def insert (tree : VerkleTree S) (key : Bytes32) (value : List UInt8) : VerkleTree S :=
  let tree := { tree with dirty := true }
  -- the nodes are ensured from the root down to the leaf
  let tree := key.bytes.inits.foldl ensureNode tree
  let tree := tree.setNodeValue key.bytes (some value)
  tree.invalidatePathCache key.bytes

/-- `get`. -/
def get (tree : VerkleTree S) (key : Bytes32) : Except CoreError (Option (List UInt8)) :=
  if key.bytes ∈ tree.prunedKeys then .error (.prunedData "Key has been pruned")
  else .ok (tree.getNodeValue key.bytes)

/-- A stored child that is not marked as pruned. -/
def hasChildren (tree : VerkleTree S) (parentPath : List UInt8) : Bool :=
  childIndices.any fun child =>
    tree.nodeExists (parentPath ++ [child]) && decide (parentPath ++ [child] ∉ tree.prunedKeys)

/-- `recursive_cleanup_empty_nodes`, from the given depth up to the root. -/
def recursiveCleanupEmptyNodes (tree : VerkleTree S) (path : List UInt8) : Nat → VerkleTree S
  | 0 => tree
  | depth + 1 =>
    let parentPath := path.take depth
    if !tree.hasChildren parentPath && decide (0 < depth) then
      let tree := { tree with
        storage := Storage.delete tree.storage (keyForPath parentPath)
        prunedKeys := Insert.insert parentPath tree.prunedKeys }
      (tree.invalidatePathCache parentPath).recursiveCleanupEmptyNodes path depth
    else tree

/-- `prune_key`. -/
def pruneKey (tree : VerkleTree S) (key : Bytes32) : Except CoreError Unit × VerkleTree S :=
  let tree := { tree with dirty := true }
  let path := key.bytes
  if (Storage.get tree.storage (keyForPath path)).isNone then
    (.error (.prunedData "Key does not exist or already absent"), tree)
  else
    let tree := { tree with
      storage := Storage.delete tree.storage (keyForPath path)
      prunedKeys := Insert.insert path tree.prunedKeys }
    let tree := tree.invalidatePathCache path
    (.ok (), tree.recursiveCleanupEmptyNodes path path.length)

/-- `format!("{:?}", key)` on a key. -/
def debugKey (key : Bytes32) : String := toString (key.bytes.map UInt8.toNat)

/-- The first update whose value reads as an output to the burn address. -/
def burnUpdate (updates : List (Bytes32 × List UInt8)) : Option Bytes32 :=
  (updates.find? fun update =>
    match TxOutput.deserialize update.2 with
    | .ok output => output.pubkeyHash = EconomicConstants.burnAddress
    | .error _ => false).map Prod.fst

/-- `apply_state_transition`. -/
def applyStateTransition (tree : VerkleTree S) (updates : List (Bytes32 × List UInt8))
    (newTotalSupply : Nat) : Except CoreError Unit × VerkleTree S :=
  let tree := { tree with dirty := true }
  match burnUpdate updates with
  | some key =>
    (.error (.invalidState
      ("State transition blocked: attempt to send to burn address in key " ++ debugKey key)), tree)
  | none =>
    let tree := updates.foldl (fun tree update => tree.insert update.1 update.2) tree
    let tree := tree.insert totalSupplyKey (Bytes.leBytes 16 newTotalSupply)
    if newTotalSupply > EconomicConstants.maxGlobalSupplyNanoSlug then
      (.error (.invalidState ("Total supply " ++ toString newTotalSupply ++ " exceeds maximum allowed " ++
        toString EconomicConstants.maxGlobalSupplyNanoSlug)), tree)
    else (.ok (), tree)

end Writes

section Roots

/-- `empty_subtree_scalar`. -/
def emptySubtreeScalar (tree : VerkleTree S) (depth : Nat) : ScalarField :=
  tree.emptySubtreeScalars.getD depth 0

/-- The scalar that a leaf commits to. -/
def leafScalar (value : Option (List UInt8)) : ScalarField := (value.map valueToScalar).getD 0

/-- `compute_node_commitment`, by recursion on the levels below the node. -/
def computeNodeCommitment (tree : VerkleTree S) :
    Nat → List UInt8 → Memo CoreError (List UInt8) Commitment Commitment
  | 0, path => Memo.cached path <|
      Memo.ofExcept (commitTo tree.pc "Failed to commit leaf: " [leafScalar (tree.getNodeValue path)])
  | levels + 1, path => Memo.cached path do
      let coeffs ← childIndices.mapM fun child =>
        if tree.nodeExists (path ++ [child]) then do
          let commitment ← tree.computeNodeCommitment levels (path ++ [child])
          return rootScalar (commitmentRootHash commitment)
        else return tree.emptySubtreeScalar (keySize - levels)
      Memo.ofExcept (commitTo tree.pc "Failed to commit node polynomial: " coeffs)

/-- `get_root`. -/
def getRoot (tree : VerkleTree S) : Except CoreError Hash × VerkleTree S :=
  match tree.dirty, tree.rootCache with
  | false, some cachedRoot => (.ok cachedRoot, tree)
  | _, _ =>
    match (tree.computeNodeCommitment keySize []).on tree.commitmentCache with
    | (.ok commitment, commitmentCache) =>
      let root := commitmentRootHash commitment
      (.ok root, { tree with commitmentCache, rootCache := some root, dirty := false })
    | (.error error, commitmentCache) => (.error error, { tree with commitmentCache })

end Roots
end VerkleTree
end Klomang
