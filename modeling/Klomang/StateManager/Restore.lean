import Klomang.StateManager.Apply

/-! `core/state_manager.rs`: the ways back to an earlier height, the pruning cycle
and the supply check. -/
namespace Klomang.StateManager

variable [Blake3] [Bandersnatch] {S : Type} [Storage S]

/-- `format!("{:?}", root)` on the bytes of a root. -/
def debugRoot (root : Hash) : String := toString (root.bytes.map UInt8.toNat)

section Heights

/-- `rollback_state`. -/
def rollbackState (manager : StateManager S) (targetHeight : Nat) : Outcome Unit × StateManager S :=
  if targetHeight > manager.currentHeight then
    (.error (.err (.invalidRollback ("Cannot rollback to height " ++ toString targetHeight ++
      " when current height is " ++ toString manager.currentHeight))), manager)
  else if (manager.getStateAt targetHeight).isNone then
    (.error (.err (.snapshotNotFound targetHeight)), manager)
  else
    let manager := { manager with
      snapshots := manager.snapshots.take (targetHeight + 1)
      snapshotStorages := manager.snapshotStorages.take (targetHeight + 1)
      currentHeight := targetHeight }
    match manager.snapshotStorages[targetHeight]? with
    | none => (.error (.err (.restoreFailed "Snapshot storage missing after truncation")), manager)
    | some snapshotStorage =>
      match VerkleTree.new snapshotStorage with
      | .error error =>
        (.error (.err (.restoreFailed ("Failed to restore tree: " ++ toString error))), manager)
      | .ok tree =>
        match manager.snapshots[targetHeight]? with
        | none => (.error .panic, { manager with tree })
        | some snapshot =>
          let manager := { manager with
            tree
            currentTotalSupply := snapshot.totalSupply
            blockGasFees := snapshot.gasFees }
          match manager.getRootHash with
          | (.error error, manager) => (.error (.err error), manager)
          | (.ok restoredRoot, manager) =>
            if restoredRoot ≠ snapshot.root then
              (.error (.err (.restoreFailed ("Root mismatch after rollback: expected " ++
                debugRoot snapshot.root ++ ", got " ++ debugRoot restoredRoot))), manager)
            else (.ok (), manager)

/-- What `rollback` puts back when it fails. -/
def restoreBackup (backup : StateManager S) (backupTree : VerkleTree S) (manager : StateManager S) :
    StateManager S :=
  { manager with
    tree := backupTree
    currentHeight := backup.currentHeight
    snapshots := backup.snapshots
    snapshotStorages := backup.snapshotStorages
    currentTotalSupply := backup.currentTotalSupply
    blockGasFees := backup.blockGasFees }

/-- `rollback`. -/
def rollback (manager : StateManager S) (targetHeight : Nat) : Outcome Unit × StateManager S :=
  if targetHeight > manager.currentHeight then
    (.error (.err (.invalidRollback ("Requested rollback to " ++ toString targetHeight ++
      " is beyond current height " ++ toString manager.currentHeight))), manager)
  else
    match manager.tree.clone with
    | .error _ => (.error .panic, manager)
    | .ok backupTree =>
      match manager.rollbackState targetHeight with
      | (.error .panic, later) => (.error .panic, later)
      | (.error (.err error), later) => (.error (.err error), restoreBackup manager backupTree later)
      | (.ok (), later) =>
        match later.getRootHash with
        | (.error _, later) => (.ok (), later)
        | (.ok currentRoot, later) =>
          match later.snapshots[targetHeight]? with
          | none => (.error .panic, later)
          | some snapshot =>
            if currentRoot ≠ snapshot.root then
              (.error (.err (.restoreFailed
                ("Silent corruption detected: root hash mismatch after rollback to height " ++
                  toString targetHeight))), restoreBackup manager backupTree later)
            else (.ok (), later)

/-- `restore_from_snapshot`. -/
def restoreFromSnapshot (manager : StateManager S) (snapshotRoot : Hash) (height : Nat) :
    Outcome Unit × StateManager S :=
  match manager.snapshots.findIdx? fun snapshot =>
      decide (snapshot.height = height) && decide (snapshot.root = snapshotRoot) with
  | none => (.error (.err (.snapshotNotFound height)), manager)
  | some snapshotIdx =>
    match manager.snapshotStorages[snapshotIdx]? with
    | none => (.error (.err (.restoreFailed "Storage missing")), manager)
    | some storage =>
      match VerkleTree.new storage with
      | .error error =>
        (.error (.err (.restoreFailed ("Failed to restore tree: " ++ toString error))), manager)
      | .ok tree =>
        (.ok (), { manager with
          tree
          currentHeight := height
          snapshots := manager.snapshots.take (snapshotIdx + 1)
          snapshotStorages := manager.snapshotStorages.take (snapshotIdx + 1) })

end Heights

section Pruning

/-- `mark_outpoint_for_pruning`. -/
def markOutpointForPruning (manager : StateManager S) (outpoint : OutPoint) (epoch timestamp : UInt64) :
    StateManager S :=
  { manager with pruneMarkers := manager.pruneMarkers.insert outpoint ⟨epoch, timestamp⟩ }

/-- The marked outpoints that are due, in the iteration order of the map. -/
def keysToPrune (manager : StateManager S) (order : Enumeration OutPoint) (epochThreshold : UInt64) :
    List OutPoint :=
  (order.list manager.pruneMarkers.keys).filter fun outpoint =>
    ((manager.pruneMarkers.lookup outpoint).map fun marker => decide (marker.epoch ≤ epochThreshold)).getD false

/-- The loop of `execute_pruning_cycle`. -/
def pruneEach : List OutPoint → List OutPoint → StateManager S → UtxoSet →
    Outcome (List OutPoint) × StateManager S × UtxoSet
  | [], pruned, manager, utxo => (.ok pruned, manager, utxo)
  | outpoint :: rest, pruned, manager, utxo =>
    match manager.outpointToKey.lookup outpoint with
    | none => pruneEach rest pruned manager utxo
    | some key =>
      match manager.tree.pruneKey key with
      | (.error error, tree) =>
        (.error (.err (.cryptographicError ("Prune failed: " ++ toString error))), { manager with tree }, utxo)
      | (.ok (), tree) =>
        pruneEach rest (pruned ++ [outpoint])
          { manager with
            tree
            outpointToKey := manager.outpointToKey.erase outpoint
            pruneMarkers := manager.pruneMarkers.erase outpoint }
          ⟨utxo.utxos.erase outpoint⟩

/-- `execute_pruning_cycle`. -/
def executePruningCycle (manager : StateManager S) (order : Enumeration OutPoint) (epochThreshold : UInt64)
    (utxo : UtxoSet) : Outcome (List OutPoint) × StateManager S × UtxoSet :=
  pruneEach (manager.keysToPrune order epochThreshold) [] manager utxo

end Pruning

/-- `cross_check_supply_consistency`. The checked `u128` sum overflows, in whatever order the
values are added, exactly when their total is too large. -/
def crossCheckSupplyConsistency (manager : StateManager S) (utxo : UtxoSet) :
    Outcome Unit × StateManager S :=
  let calculatedSupply := utxo.totalValue
  if calculatedSupply > u128Max then
    (.error (.err (.supplyCapExceeded "UTXO sum overflow during supply check")), manager)
  else if calculatedSupply ≠ manager.currentTotalSupply then
    (.error (.err (.applyBlockFailed ("Supply mismatch: UTXO sum " ++ toString calculatedSupply ++
      " != StateManager total supply " ++ toString manager.currentTotalSupply ++
      ". State corruption detected!"))), manager)
  else
    match manager.getRootHash with
    | (.error error, manager) => (.error (.err error), manager)
    | (.ok root, manager) =>
      match manager.snapshots.getLast? with
      | none => (.ok (), manager)
      | some snapshot =>
        if snapshot.root ≠ root then
          (.error (.err (.applyBlockFailed "Root hash mismatch between snapshot and current tree")), manager)
        else (.ok (), manager)

end Klomang.StateManager
