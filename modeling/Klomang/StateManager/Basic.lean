import Klomang.State.Utxo
import Klomang.State.VTrie

/-! `core/state_manager.rs`: the state manager's data, its construction and what
it answers about the current state. -/
namespace Klomang

/-- `GasFeeWitness`, three `u128` amounts. -/
structure GasFeeWitness where
  totalGasFee : Nat
  minerShare : Nat
  fullnodeShare : Nat
  deriving DecidableEq

structure StateSnapshot where
  height : Nat
  root : Hash
  /-- A `u128`. -/
  totalSupply : Nat
  gasFees : List GasFeeWitness
  deriving DecidableEq

structure PruneMarker where
  epoch : UInt64
  timestamp : UInt64
  deriving DecidableEq

inductive StateManagerError where
  | invalidRollback (msg : String)
  | snapshotNotFound (height : Nat)
  | applyBlockFailed (msg : String)
  | restoreFailed (msg : String)
  | cryptographicError (msg : String)
  | supplyCapExceeded (msg : String)
  | burnAddressViolation (msg : String)
  deriving DecidableEq

/-- The `Display` text of an error. -/
def StateManagerError.text : StateManagerError → String
  | .invalidRollback msg => "Invalid rollback: " ++ msg
  | .snapshotNotFound height => "Snapshot not found at height " ++ toString height
  | .applyBlockFailed msg => "Apply block failed: " ++ msg
  | .restoreFailed msg => "Restore failed: " ++ msg
  | .cryptographicError msg => "Cryptographic error: " ++ msg
  | .supplyCapExceeded msg => "Supply cap exceeded: " ++ msg
  | .burnAddressViolation msg => "Burn address violation: " ++ msg

/-- `From<CoreError>`. -/
def StateManagerError.ofCore (error : CoreError) : StateManagerError :=
  .cryptographicError ("CoreError: " ++ toString error)

section Manager
variable [Blake3] [Bandersnatch]

/-- The manager. `current_height` counts blocks and `current_total_supply` is a `u128`. -/
structure StateManager (S : Type) where
  tree : VerkleTree S
  currentHeight : Nat
  snapshots : List StateSnapshot
  snapshotStorages : List S
  pruneMarkers : FiniteMap OutPoint PruneMarker
  outpointToKey : FiniteMap OutPoint Bytes32
  currentTotalSupply : Nat
  blockGasFees : List GasFeeWitness
  pendingUpdates : List (Bytes32 × List UInt8)
  applyingBlock : Bool

namespace StateManager
variable {S : Type} [Storage S]

/-- `StateManager::new`. -/
def new (tree : VerkleTree S) : Except StateManagerError (StateManager S) :=
  match tree.getRoot with
  | (.error error, _) => .error (.cryptographicError ("Failed to get root: " ++ toString error))
  | (.ok root, tree) =>
    .ok
      { tree
        currentHeight := 0
        snapshots := [⟨0, root, 0, []⟩]
        snapshotStorages := [tree.storage]
        pruneMarkers := ∅
        outpointToKey := ∅
        currentTotalSupply := 0
        blockGasFees := []
        pendingUpdates := []
        applyingBlock := false }

/-- `get_root_hash`. -/
def getRootHash (manager : StateManager S) : Except StateManagerError Hash × StateManager S :=
  match manager.tree.getRoot with
  | (.ok root, tree) => (.ok root, { manager with tree })
  | (.error error, tree) =>
    (.error (.cryptographicError ("Failed to get root: " ++ toString error)), { manager with tree })

/-- `get_current_state`. -/
def getCurrentState (manager : StateManager S) : Except StateManagerError StateSnapshot × StateManager S :=
  match manager.tree.getRoot with
  | (.ok root, tree) =>
    (.ok ⟨manager.currentHeight, root, manager.currentTotalSupply, manager.blockGasFees⟩,
      { manager with tree })
  | (.error error, tree) =>
    (.error (.cryptographicError ("Failed to get root: " ++ toString error)), { manager with tree })

/-- `get_state_at`. -/
def getStateAt (manager : StateManager S) (height : Nat) : Option StateSnapshot :=
  manager.snapshots.find? fun snapshot => snapshot.height = height

/-- `state_read`. -/
def stateRead (manager : StateManager S) (key : Bytes32) : Except String (Option (List UInt8)) :=
  match manager.tree.get key with
  | .ok value => .ok value
  | .error error => .error (toString error)

/-- `state_write`, which never fails. -/
def stateWrite (manager : StateManager S) (key : Bytes32) (value : List UInt8) : StateManager S :=
  { manager with tree := manager.tree.insert key value }

/-- `create_gas_fee_witness`; the product wraps as it does in a release build. -/
def createGasFeeWitness (totalGasFee : Nat) : GasFeeWitness :=
  let minerShare := totalGasFee * EconomicConstants.minerRewardPercent % 2 ^ 128 / 100
  ⟨totalGasFee, minerShare, totalGasFee - minerShare⟩

/-- `verify_gas_fee_distribution`; the product and the sum wrap as they do in a release build. -/
def verifyGasFeeDistribution (witness : GasFeeWitness) : Bool :=
  let expectedMiner := witness.totalGasFee * EconomicConstants.minerRewardPercent % 2 ^ 128 / 100
  let expectedFullnode := witness.totalGasFee - expectedMiner
  witness.minerShare == expectedMiner && witness.fullnodeShare == expectedFullnode &&
    (witness.minerShare + witness.fullnodeShare) % 2 ^ 128 == witness.totalGasFee

end StateManager
end Manager
end Klomang
