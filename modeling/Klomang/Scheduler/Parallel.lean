import Klomang.Lib.Greedy
import Klomang.State.AccessSet
import Klomang.StateManager.Apply
import Mathlib.Data.List.Sort
import Mathlib.Data.Prod.Lex

/-! `core/scheduler/parallel.rs`: grouping transactions by their access sets, and executing
groups with a checkpoint before each. -/
namespace Klomang

structure ScheduledTransaction where
  tx : Transaction
  accessSet : AccessSet
  index : Nat

/-- `ExecutionCheckpoint`. -/
structure ExecutionCheckpoint where
  height : Nat
  totalSupply : Nat
  gasFeesLen : Nat
  pendingUpdatesLen : Nat
  utxoSnapshot : UtxoSet
  treeRootHash : Option Hash

/-- `canonical_order_key`. -/
def canonicalOrderKey (tx : Transaction) (timestamp : Nat) : Nat ×ₗ Hash := toLex (timestamp, tx.id)

namespace ParallelScheduler

section Scheduling
variable [Blake3]

/-- The transactions with their access sets, in canonical order; the sort is stable. -/
def sortCanonically (txs : List Transaction) : List ScheduledTransaction :=
  (txs.zipIdx.map fun (tx, i) => (⟨tx, tx.generateAccessSet, i⟩ : ScheduledTransaction)).insertionSort
    fun left right => canonicalOrderKey left.tx 0 ≤ canonicalOrderKey right.tx 0

/-- `schedule_transactions`. A group is never empty, so the queue is never popped for one. -/
def scheduleTransactions (txs : List Transaction) : List (List ScheduledTransaction) :=
  Greedy.rounds (fun existing candidate => existing.accessSet.hasConflict candidate.accessSet)
    (sortCanonically txs)

end Scheduling

section Conflicts

/-- The combined access set of a group. -/
def combined (group : List ScheduledTransaction) : AccessSet :=
  group.foldl (fun combined scheduled => combined.merge scheduled.accessSet) .new

/-- The first two access sets in conflict, from a position on. -/
def firstConflict : Nat → List AccessSet → Option (Nat × Nat)
  | _, [] => none
  | i, access :: rest =>
    match rest.findIdx? access.hasConflict with
    | some offset => some (i, i + 1 + offset)
    | none => firstConflict (i + 1) rest

/-- `detect_group_conflicts`. -/
def detectGroupConflicts (groups : List (List ScheduledTransaction)) : Option (Nat × Nat) :=
  firstConflict 0 (groups.map combined)

end Conflicts

section Execution
variable [Blake3] [Bandersnatch] {S : Type} [Storage S]

/-- `ExecutionCheckpoint` of a manager; the root is asked for, which can fill caches. -/
def checkpoint (manager : StateManager S) (utxo : UtxoSet) : ExecutionCheckpoint × StateManager S :=
  let (root, later) := manager.getRootHash
  (⟨manager.currentHeight, manager.currentTotalSupply, manager.blockGasFees.length,
    manager.pendingUpdates.length, utxo, root.toOption⟩, later)

/-- `restore_from_checkpoint`. The tree is not part of a checkpoint. -/
def restoreFromCheckpoint (manager : StateManager S) (checkpoint : ExecutionCheckpoint) :
    StateManager S × UtxoSet :=
  ({ manager with
    currentHeight := checkpoint.height
    currentTotalSupply := checkpoint.totalSupply
    blockGasFees := manager.blockGasFees.take checkpoint.gasFeesLen
    pendingUpdates := manager.pendingUpdates.take checkpoint.pendingUpdatesLen }, checkpoint.utxoSnapshot)

variable [Wasmer]

/-- The body of the loop of `execute_groups` for one group. -/
def executeGroup (groupIdx : Nat) (group : List ScheduledTransaction) (manager : StateManager S)
    (utxo : UtxoSet) : StateManager.Outcome Unit × StateManager S × UtxoSet :=
  let (groupCheckpoint, manager) := checkpoint manager utxo
  match StateManager.applyTransactions (group.map ScheduledTransaction.tx) manager utxo with
  | (.error .panic, manager, utxo) => (.error .panic, manager, utxo)
  | (.error (.err _), manager, _) =>
    (.error (.err (.applyBlockFailed ("Group " ++ toString groupIdx ++
      " transaction execution failed, state rolled back"))), restoreFromCheckpoint manager groupCheckpoint)
  | (.ok (), manager, utxo) =>
    match manager.getRootHash with
    | (.error error, manager) =>
      (.error (.err (.cryptographicError ("Failed to get root after group " ++ toString groupIdx ++ ": " ++
        error.text))), manager, utxo)
    | (.ok postGroupRoot, manager) =>
      if groupCheckpoint.treeRootHash = some postGroupRoot then
        (.error (.err (.applyBlockFailed ("Group " ++ toString groupIdx ++
          " execution resulted in no state change"))), restoreFromCheckpoint manager groupCheckpoint)
      else (.ok (), manager, utxo)

/-- The loop of `execute_groups`, from a group on. -/
def executeFrom : Nat → List (List ScheduledTransaction) → StateManager S → UtxoSet →
    StateManager.Outcome Unit × StateManager S × UtxoSet
  | _, [], manager, utxo => (.ok (), manager, utxo)
  | groupIdx, group :: rest, manager, utxo =>
    match executeGroup groupIdx group manager utxo with
    | (.error error, manager, utxo) => (.error error, manager, utxo)
    | (.ok (), manager, utxo) => executeFrom (groupIdx + 1) rest manager utxo

/-- `execute_groups`. -/
def executeGroups (groups : List (List ScheduledTransaction)) (manager : StateManager S) (utxo : UtxoSet) :
    StateManager.Outcome Unit × StateManager S × UtxoSet :=
  match detectGroupConflicts groups with
  | some conflict =>
    (.error (.err (.applyBlockFailed ("Conflict detected between groups: (" ++ toString conflict.1 ++ ", " ++
      toString conflict.2 ++ ")"))), manager, utxo)
  | none =>
    -- the checkpoint of the whole block is taken and never used
    executeFrom 0 groups (checkpoint manager utxo).2 utxo

end Execution
end ParallelScheduler
end Klomang
