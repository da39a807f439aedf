import Klomang.Consensus.Validation
import Klomang.Vm.Executor

/-! `core/state_manager.rs`: applying transactions and blocks. Every function returns
its outcome next to the manager and the set of unspent outputs it leaves. -/
namespace Klomang.StateManager

variable [Blake3] [Bandersnatch] {S : Type} [Storage S]

/-- How a call of the manager ends. -/
abbrev Outcome (α : Type) := Except (Abort StateManagerError) α

section Transactions

/-- One spent output leaves the supply and the indices. -/
def spendOutput (manager : StateManager S) (outpoint : OutPoint) (output : TxOutput) : StateManager S :=
  { manager with
    currentTotalSupply := manager.currentTotalSupply - output.value.toNat
    outpointToKey := manager.outpointToKey.erase outpoint
    pruneMarkers := manager.pruneMarkers.erase outpoint }

/-- One created output enters the pending updates, the index and the supply. -/
def createOutput (manager : StateManager S) (key : Bytes32) (outpoint : OutPoint) (output : TxOutput) :
    StateManager S :=
  { manager with
    pendingUpdates := manager.pendingUpdates ++ [(key, output.serialize)]
    outpointToKey := manager.outpointToKey.insert outpoint key
    currentTotalSupply := min (manager.currentTotalSupply + output.value.toNat) u128Max }

/-- The loop of `apply_utxo_transaction` over the inputs. -/
def spendInputs (tx : Transaction) :
    List TxInput → StateManager S → UtxoSet → Outcome Unit × StateManager S × UtxoSet
  | [], manager, utxo => (.ok (), manager, utxo)
  | input :: rest, manager, utxo =>
    match utxo.utxos.lookup input.outpoint with
    | none =>
      (.error (.err (.applyBlockFailed ("Missing UTXO input in transaction " ++ toString tx.id ++
        " at outpoint " ++ OutPoint.debug input.outpoint))), manager, utxo)
    | some output =>
      spendInputs tx rest (manager.spendOutput input.outpoint output) ⟨utxo.utxos.erase input.outpoint⟩

/-- The loop of `apply_utxo_transaction` over the outputs from a position on. -/
def createOutputs (tx : Transaction) :
    List (TxOutput × Nat) → StateManager S → UtxoSet → StateManager S × UtxoSet
  | [], manager, utxo => (manager, utxo)
  | (output, i) :: rest, manager, utxo =>
    let key := tx.hashWithIndex (UInt32.ofNat i)
    let outpoint : OutPoint := (tx.id, UInt32.ofNat i)
    createOutputs tx rest (manager.createOutput key outpoint output) ⟨utxo.utxos.insert outpoint output⟩

/-- `apply_utxo_transaction`. -/
def applyUtxoTransaction (manager : StateManager S) (tx : Transaction) (utxo : UtxoSet) :
    Outcome Unit × StateManager S × UtxoSet :=
  match spendInputs tx tx.inputs manager utxo with
  | (.error error, manager, utxo) => (.error error, manager, utxo)
  | (.ok (), manager, utxo) => (.ok (), createOutputs tx tx.outputs.zipIdx manager utxo)

variable [Wasmer]

/-- The gas a contract transaction has to offer; the sum wraps as it does in a release build. -/
def requiredGas (executionPayload : List UInt8) : Nat :=
  let payloadDataCost := executionPayload.foldl (fun acc byte => (acc + if byte = 0 then 4 else 16) % 2 ^ 64) 0
  saturatingAdd GasMeter.intrinsicGas payloadDataCost

/-- `apply_contract_transition` up to the point where the contract has run. -/
def executeContract (manager : StateManager S) (tx : Transaction) : Outcome Unit × StateManager S :=
  let requiredGas := requiredGas tx.executionPayload
  if tx.gasLimit.toNat < requiredGas then
    (.error (.err (.applyBlockFailed ("Insufficient gas limit (" ++ toString tx.gasLimit ++ "), required " ++
      toString requiredGas ++ " for intrinsic+payload cost " ++ toString tx.executionPayload.length ++
      " bytes"))), manager)
  else
    match manager.tree.clone with
    | .error _ => (.error .panic, manager)
    | .ok treeSnapshot =>
      match VMExecutor.execute tx.executionPayload manager tx.gasLimit with
      | (.ok gasUsed, manager) =>
        let totalGasFee := min (gasUsed * tx.maxFeePerGas) u128Max
        (.ok (), { manager with blockGasFees := manager.blockGasFees ++ [createGasFeeWitness totalGasFee] })
      | (.error .panic, manager) => (.error .panic, manager)
      | (.error (.err error), manager) =>
        (.error (.err (.applyBlockFailed ("VM execution failed: " ++ error.text))),
          { manager with tree := treeSnapshot })

/-- `apply_contract_transition`: the transaction's outputs are applied on top of the contract. -/
def applyContractTransition (manager : StateManager S) (tx : Transaction) (utxo : UtxoSet) :
    Outcome Unit × StateManager S × UtxoSet :=
  match manager.executeContract tx with
  | (.error error, manager) => (.error error, manager, utxo)
  | (.ok (), manager) => manager.applyUtxoTransaction tx utxo

/-- `apply_transaction`. -/
def applyTransaction (manager : StateManager S) (tx : Transaction) (utxo : UtxoSet) :
    Outcome Unit × StateManager S × UtxoSet :=
  if tx.executionPayload.isEmpty && tx.contractAddress.isNone then manager.applyUtxoTransaction tx utxo
  else manager.applyContractTransition tx utxo

end Transactions

section Blocks
variable [Wasmer]

/-- The loop of `apply_block` over the transactions. -/
def applyTransactions :
    List Transaction → StateManager S → UtxoSet → Outcome Unit × StateManager S × UtxoSet
  | [], manager, utxo => (.ok (), manager, utxo)
  | tx :: rest, manager, utxo =>
    match manager.applyTransaction tx utxo with
    | (.error error, manager, utxo) => (.error error, manager, utxo)
    | (.ok (), manager, utxo) => applyTransactions rest manager utxo

/-- The manager at the start of a block, with no pending updates and no gas fees. -/
def startBlock (manager : StateManager S) : StateManager S :=
  { manager with pendingUpdates := [], blockGasFees := [] }

/-- The rollback of `apply_block`: what was saved before the block replaces what the
block left behind. -/
def restoreSaved (saved : StateManager S) (snapshotTree : VerkleTree S) (manager : StateManager S) :
    StateManager S :=
  { manager with
    tree := snapshotTree
    currentHeight := saved.currentHeight
    currentTotalSupply := saved.currentTotalSupply
    blockGasFees := saved.blockGasFees
    pendingUpdates := saved.pendingUpdates
    pruneMarkers := saved.pruneMarkers
    outpointToKey := saved.outpointToKey }

/-- The end of `apply_block`: the root at the new height is recorded. -/
def recordSnapshot (manager : StateManager S) (utxo : UtxoSet) (snapshotHeight : Nat) :
    Outcome Unit × StateManager S × UtxoSet :=
  match ({ manager with currentHeight := manager.currentHeight + 1 } : StateManager S).getRootHash with
  | (.error error, manager) => (.error (.err error), manager, utxo)
  | (.ok newRoot, manager) =>
    -- the old root is only compared for a warning, but indexing it can panic
    match manager.snapshots[snapshotHeight]? with
    | none => (.error .panic, manager, utxo)
    | some _ =>
      (.ok (),
        { manager with
          snapshots := manager.snapshots ++
            [⟨manager.currentHeight, newRoot, manager.currentTotalSupply, manager.blockGasFees⟩]
          snapshotStorages := manager.snapshotStorages ++ [manager.tree.storage] },
        utxo)

/-- The body of `apply_block`, while the flag is set. -/
def applyLocked (manager : StateManager S) (block : BlockNode) (utxo : UtxoSet) :
    Outcome Unit × StateManager S × UtxoSet :=
  match manager.tree.clone with
  | .error _ => (.error .panic, manager, utxo)
  | .ok snapshotTree =>
    match applyTransactions block.transactions manager.startBlock utxo with
    | (.error .panic, failed, failedUtxo) => (.error .panic, failed, failedUtxo)
    | (.error (.err error), failed, _) => (.error (.err error), restoreSaved manager snapshotTree failed, utxo)
    | (.ok (), applied, appliedUtxo) =>
      match applied.tree.applyStateTransition applied.pendingUpdates applied.currentTotalSupply with
      | (.error error, tree) =>
        (.error (.err (.applyBlockFailed ("State transition failed: " ++ toString error))),
          restoreSaved manager snapshotTree { applied with tree }, utxo)
      | (.ok (), tree) => recordSnapshot { applied with tree } appliedUtxo manager.currentHeight

/-- `apply_block`. -/
def applyBlock (manager : StateManager S) (block : BlockNode) (utxo : UtxoSet) :
    Outcome Unit × StateManager S × UtxoSet :=
  if manager.applyingBlock then
    (.error (.err (.applyBlockFailed "Concurrent block application not allowed")), manager, utxo)
  else
    match ({ manager with applyingBlock := true } : StateManager S).applyLocked block utxo with
    -- the guard clears the flag on every way out
    | (outcome, manager, utxo) => (outcome, { manager with applyingBlock := false }, utxo)

variable [SchnorrScheme] [Channel]

/-- `validate_and_apply_block`. The clock answers with the seconds since the epoch. -/
def validateAndApplyBlock (manager : StateManager S) (clock : Except String UInt64)
    (order : Enumeration Hash) (block : BlockNode) (utxo : UtxoSet) (dag : Dag) (consensus : GhostDag) :
    Outcome Unit × StateManager S × UtxoSet :=
  match clock with
  | .error error => (.error (.err (.cryptographicError ("Time error: " ++ error))), manager, utxo)
  | .ok currentTime =>
    match consensus.validateBlock order block dag manager.tree currentTime with
    | .error error => (.error (.err (.ofCore error)), manager, utxo)
    | .ok () =>
      match consensus.canReorganize dag block.header.id with
      | .error error => (.error (.err (.ofCore error)), manager, utxo)
      | .ok false =>
        (.error (.err (.applyBlockFailed "Block reorganization would violate finality constraints")),
          manager, utxo)
      | .ok true => manager.applyBlock block utxo

end Blocks
end Klomang.StateManager
