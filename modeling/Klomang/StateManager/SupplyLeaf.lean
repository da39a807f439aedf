import Klomang.StateManager.HostCalls
import Klomang.StateManager.Heights
import Klomang.StateManager.Sample

/-! The leaf that locks the supply. Every applied block writes the tracked supply under the zero key last of all, but a
contract may delete that key before, and the tombstone it leaves is never taken away again. -/
namespace Klomang.StateManager
open VerkleTree (totalSupplyKey)

section Statement
variable [Blake3] [Bandersnatch] {S : Type} [Storage S]

/-- The supply key is read as the tracked supply. -/
def SupplyLocked (manager : StateManager S) : Prop :=
  manager.stateRead totalSupplyKey = .ok (some (Bytes.leBytes 16 manager.currentTotalSupply))

/-- A change of the tree does not delete a stored supply leaf. -/
def SparesSupply (tree : VerkleTree S) (operation : VerkleTree.Operation) : Prop :=
  operation = .pruneKey totalSupplyKey → VerkleTree.storedNode tree.storage totalSupplyKey.bytes = false

variable [Wasmer]

/-- The changes of the tree that the contracts of a block make. -/
def blockOps (manager : StateManager S) (call : UtxoSet × BlockNode) : List VerkleTree.Operation :=
  contractsOps call.2.transactions ({ manager with applyingBlock := true } : StateManager S).startBlock call.1

/-- No contract of a block deletes the supply leaf while it is stored. -/
def ContractsSpare (manager : StateManager S) (call : UtxoSet × BlockNode) : Prop :=
  Runs.Meets VerkleTree.perform manager.tree SparesSupply (manager.blockOps call)

/-- One block over the set of unspent outputs that comes with it. -/
def blockStep (manager : StateManager S) (call : UtxoSet × BlockNode) : StateManager S :=
  (manager.applyBlock call.2 call.1).2.1

def Succeeds (manager : StateManager S) (call : UtxoSet × BlockNode) : Prop := (manager.applyBlock call.2 call.1).1 = .ok ()

end Statement

section Tombstones
variable [Blake3] [Bandersnatch] {S : Type} [Storage S] {tree : VerkleTree S} {operations : List VerkleTree.Operation}

/-- One change leaves the supply key free of a tombstone when it was free and the change spares it. -/
theorem spared_iff {operation : VerkleTree.Operation} (host : VMExecutor.OfHost operation) :
    totalSupplyKey.bytes ∉ (tree.perform operation).prunedKeys ↔
      totalSupplyKey.bytes ∉ tree.prunedKeys ∧ SparesSupply tree operation := by
  rcases host with ⟨key, value, rfl⟩ | ⟨key, rfl⟩
  · simp [VerkleTree.perform, VerkleTree.insert_pruned, SparesSupply]
  · rw [VerkleTree.perform, SparesSupply, VerkleTree.Operation.pruneKey.injEq]
    rcases VerkleTree.prune_key_spec tree key with ⟨absent, _, same⟩ | ⟨_, stop, prunes⟩
    · rw [← same.prunedKeys]
      exact (and_iff_left fun here => here ▸ absent).symm
    · rw [prunes.marked, not_or]
      refine and_congr_right fun _ => ?_
      by_cases same : key = totalSupplyKey
      · subst same
        have reached : stop ≤ totalSupplyKey.bytes.length := VerkleTree.length_key totalSupplyKey ▸ prunes.within
        exact iff_of_false (not_not.mpr ⟨List.prefix_rfl, reached⟩)
          fun spares => by simpa [prunes.leaf] using spares rfl
      · have apart : ¬ (totalSupplyKey.bytes <+: key.bytes ∧ stop ≤ totalSupplyKey.bytes.length) :=
          fun on => VerkleTree.key_off_path (Ne.symm same) on.1
        exact iff_of_true apart fun here => absurd here same

/-- A run of changes leaves the supply key free of a tombstone when it was free and every change spares it. -/
theorem spared_run_iff (host : ∀ operation ∈ operations, VMExecutor.OfHost operation) :
    totalSupplyKey.bytes ∉ (Runs.run VerkleTree.perform tree operations).prunedKeys ↔
      totalSupplyKey.bytes ∉ tree.prunedKeys ∧ Runs.Meets VerkleTree.perform tree SparesSupply operations := by
  induction operations using List.reverseRecOn with
  | nil => exact (and_iff_left Runs.meets_nil).symm
  | append_singleton operations operation ih =>
    rw [Runs.run_snoc, spared_iff (host operation (by simp)), Runs.meets_snoc,
      ih fun other member => host other (List.mem_append_left _ member), and_assoc]

end Tombstones

section Blocks
variable [Blake3] [Bandersnatch] [Wasmer] {S : Type} [Storage S] {manager later : StateManager S}
  {call : UtxoSet × BlockNode} {left : UtxoSet}

/-- After an applied block the supply leaf holds the tracked supply. -/
theorem leaf_locked (ran : manager.applyBlock call.2 call.1 = (.ok (), later, left)) :
    later.tree.getNodeValue totalSupplyKey.bytes = some (Bytes.leBytes 16 later.currentTotalSupply) := by
  have applied := apply_block_ok ran
  obtain ⟨tree, storage, _, _, _⟩ := applied.written
  have through : (tree.applyStateTransition (writes call.2.moves) later.currentTotalSupply).1 = .ok () := by
    rw [VerkleTree.apply_state_transition_ok_iff, burn_update_none]
    exact ⟨applied.noBurn, applied.capped⟩
  have leaves := congrFun (VerkleTree.leaves_apply_state_transition writes_short through) totalSupplyKey
  rw [Function.update_self, ← storage] at leaves
  exact leaves

/-- So that the supply is read unless there is a tombstone. -/
theorem locked_iff_unmarked (ran : manager.applyBlock call.2 call.1 = (.ok (), later, left)) :
    SupplyLocked later ↔ totalSupplyKey.bytes ∉ later.tree.prunedKeys := by
  rw [SupplyLocked, stateRead, VerkleTree.get, leaf_locked ran]
  by_cases tombstone : totalSupplyKey.bytes ∈ later.tree.prunedKeys <;> simp [tombstone]

/-- Blocks are the only ones to leave tombstones, through their contracts. -/
theorem applied_pruned (ran : manager.applyBlock call.2 call.1 = (.ok (), later, left)) :
    later.tree.prunedKeys = (Runs.run VerkleTree.perform manager.tree (manager.blockOps call)).prunedKeys ∧
      ∀ operation ∈ manager.blockOps call, VMExecutor.OfHost operation := by
  obtain ⟨_, applied, tree, recorded, txs, transition, recording, rfl⟩ := apply_block_ran ran
  obtain ⟨contracts, host⟩ := apply_transactions_ops txs
  obtain ⟨_, root, rooted, _, pruned, _, rfl⟩ := record_snapshot_ok recording
  refine ⟨?_, host⟩
  have written :=
    VerkleTree.apply_state_transition_pruned applied.tree applied.pendingUpdates applied.currentTotalSupply
  rw [transition] at written
  exact pruned.trans (written.trans (congrArg VerkleTree.prunedKeys contracts))

theorem Succeeds.ran (succeeded : Succeeds manager call) :
    ∃ later left, manager.applyBlock call.2 call.1 = (.ok (), later, left) ∧ blockStep manager call = later := by
  rcases ran : manager.applyBlock call.2 call.1 with ⟨outcome, later, left⟩
  rw [Succeeds, ran] at succeeded
  cases succeeded
  exact ⟨later, left, rfl, by rw [blockStep, ran]⟩

/-- One applied block locks the supply exactly when there is no tombstone and its contracts spare the leaf. -/
theorem block_locks_iff (succeeded : Succeeds manager call) :
    SupplyLocked (blockStep manager call) ↔ totalSupplyKey.bytes ∉ manager.tree.prunedKeys ∧ ContractsSpare manager call := by
  obtain ⟨later, left, ran, same⟩ := succeeded.ran
  obtain ⟨pruned, host⟩ := applied_pruned ran
  rw [same, locked_iff_unmarked ran, pruned, spared_run_iff host]
  rfl

/-- The supply leaf stays free of a tombstone under the same condition. -/
theorem block_spares_iff (succeeded : Succeeds manager call) :
    totalSupplyKey.bytes ∉ (blockStep manager call).tree.prunedKeys ↔
      totalSupplyKey.bytes ∉ manager.tree.prunedKeys ∧ ContractsSpare manager call := by
  rw [← block_locks_iff succeeded]
  obtain ⟨later, left, ran, same⟩ := succeeded.ran
  rw [same]
  exact (locked_iff_unmarked ran).symm

/-- The supply leaf is stored after every applied block. -/
theorem leaf_stored (succeeded : Succeeds manager call) :
    VerkleTree.storedNode (blockStep manager call).tree.storage totalSupplyKey.bytes = true := by
  obtain ⟨later, left, ran, same⟩ := succeeded.ran
  have leaf := leaf_locked ran
  rw [VerkleTree.getNodeValue, VerkleTree.storedValue] at leaf
  rw [same, VerkleTree.storedNode]
  by_contra absent
  simp_all

/-- The tracked supply is within the cap after every applied block. -/
theorem supply_capped (succeeded : Succeeds manager call) :
    (blockStep manager call).currentTotalSupply ≤ EconomicConstants.maxGlobalSupplyNanoSlug := by
  obtain ⟨later, left, ran, same⟩ := succeeded.ran
  rw [same]
  exact (apply_block_ok ran).capped

omit [Wasmer] [Storage S] in
theorem start_block_supply (manager : StateManager S) :
    ({ manager with applyingBlock := true } : StateManager S).startBlock.currentTotalSupply = manager.currentTotalSupply := rfl

theorem block_sound (sound : manager.Sound) (call : UtxoSet × BlockNode) : (blockStep manager call).Sound := by
  obtain ⟨change, coherent⟩ := apply_block_change sound call.2 call.1
  exact change.sound sound coherent

variable {calls : List (UtxoSet × BlockNode)}

theorem run_locks_iff (succeed : Runs.Meets blockStep manager Succeeds calls) :
    Runs.Meets blockStep manager (fun manager call => SupplyLocked (blockStep manager call)) calls ↔
      (calls ≠ [] → totalSupplyKey.bytes ∉ manager.tree.prunedKeys) ∧
        Runs.Meets blockStep manager ContractsSpare calls := by
  induction calls generalizing manager with
  | nil => exact iff_of_true Runs.meets_nil ⟨fun some => absurd rfl some, Runs.meets_nil⟩
  | cons call rest ih =>
    obtain ⟨here, further⟩ := (Runs.meets_cons call rest).mp succeed
    have spared := block_spares_iff here
    rw [Runs.meets_cons, Runs.meets_cons, block_locks_iff here, ih further]
    constructor
    · rintro ⟨⟨free, spares⟩, _, others⟩
      exact ⟨fun _ => free, spares, others⟩
    · rintro ⟨free, spares, others⟩
      have unmarked := free (List.cons_ne_nil call rest)
      exact ⟨⟨unmarked, spares⟩, fun _ => spared.mpr ⟨unmarked, spares⟩, others⟩

/-- The supply is locked after every block of a run of applied blocks exactly when the tree has no tombstone on the supply
key at the start and no contract of any block deletes the supply leaf while it is stored. -/
theorem supply_locked_iff_spared {tree : VerkleTree S} (built : VerkleTree.Built tree)
    (made : StateManager.new tree = .ok manager) (succeed : Runs.Meets blockStep manager Succeeds calls) :
    Runs.Meets blockStep manager (fun manager call => SupplyLocked (blockStep manager call)) calls ↔
      (calls ≠ [] → totalSupplyKey.bytes ∉ tree.prunedKeys) ∧ Runs.Meets blockStep manager ContractsSpare calls := by
  have pruned : manager.tree.prunedKeys = tree.prunedKeys := by
    rw [new_ok built.coherent] at made
    cases made
    exact VerkleTree.get_root_pruned tree
  rw [run_locks_iff succeed, pruned]

end Blocks
end Klomang.StateManager

namespace Klomang.Deleting
open Klomang.Sample StateManager
open VerkleTree (totalSupplyKey)

/-- An engine whose one module deletes the zero key and returns. -/
scoped instance engine : Wasmer where
  Module := Unit
  compile _ := .ok ()
  instantiate _ := .ok fun points => .returned (some points)
  run _ := .ok fun points => .selfDestruct (.ok (List.replicate 32 0)) (.returned (some points))
  runtimeError msg := "RuntimeError: " ++ msg

/-- A transaction that runs the module. -/
def deletion : Transaction :=
  { id := .ofNat 1, inputs := [], outputs := [], executionPayload := [1], gasLimit := 100_000 }

/-- A manager after an empty block. -/
def locked : StateManager MemoryStorage := blockStep manager (.new, blockOf [])

theorem manager_sound : manager.Sound := started_sound manager_built.coherent

theorem no_burn_empty : NoBurn (blockOf []).moves := fun _ _ member => by simp [BlockNode.moves, blockOf] at member

theorem empty_succeeds : Succeeds manager (.new, blockOf []) := by
  have txs : applyTransactions (blockOf []).transactions ({ manager with applyingBlock := true } :
      StateManager MemoryStorage).startBlock .new = (.ok (), _, _) := rfl
  obtain ⟨later, ran⟩ := apply_block_through manager_sound.coherent manager_sound.indexed manager_sound.idle txs
    no_burn_empty (Nat.zero_le _)
  rw [Succeeds, ran]

theorem empty_spares : ContractsSpare manager (.new, blockOf []) := Runs.meets_nil

/-- After an empty block the supply is locked. -/
theorem supply_locked_once :
    Runs.Meets blockStep manager (fun manager call => SupplyLocked (blockStep manager call)) [(.new, blockOf [])] := by
  refine (supply_locked_iff_spared manager_built manager_made ?_).mpr ⟨fun _ => ?_, ?_⟩
  · exact (Runs.meets_cons _ _).mpr ⟨empty_succeeds, Runs.meets_nil⟩
  · simp [emptyTree, VerkleTree.fresh_pruned]
  · exact (Runs.meets_cons _ _).mpr ⟨empty_spares, Runs.meets_nil⟩

theorem locked_sound : locked.Sound := block_sound manager_sound _

/-- The gas limit covers the charges before the module runs. -/
theorem charges_covered : ∃ gas, (GasMeter.new deletion.gasLimit).chargeIntrinsic = (.ok (), gas) ∧
    ∃ after, gas.chargePayload deletion.executionPayload = (.ok (), after) := ⟨_, rfl, _, rfl⟩

theorem module_deletes (manager : StateManager MemoryStorage) (gas : GasMeter) (saved : VerkleTree MemoryStorage) :
    ∃ gasUsed, VMExecutor.executeModule () manager gas deletion.gasLimit saved =
      (.ok gasUsed, { manager with tree := (manager.tree.pruneKey totalSupplyKey).2 }) := ⟨_, rfl⟩

theorem plain_left (manager : StateManager MemoryStorage) (utxo : UtxoSet) :
    manager.applyUtxoTransaction deletion utxo = (.ok (), manager, utxo) := rfl

theorem execute_deletion (manager : StateManager MemoryStorage) :
    ∃ gasUsed, VMExecutor.execute deletion.executionPayload manager deletion.gasLimit =
      (.ok gasUsed, { manager with tree := (manager.tree.pruneKey totalSupplyKey).2 }) := by
  obtain ⟨gas, intrinsic, after, payload⟩ := charges_covered
  obtain ⟨gasUsed, ran⟩ := module_deletes manager after manager.tree
  refine ⟨gasUsed, ?_⟩
  rw [VMExecutor.execute, VerkleTree.clone_ok]
  dsimp only
  rw [intrinsic]
  dsimp only
  rw [payload]
  exact ran

/-- The deletion goes through over every manager, and leaves the books alone. -/
theorem deletion_applied (manager : StateManager MemoryStorage) (utxo : UtxoSet) :
    ∃ later, manager.applyTransaction deletion utxo = (.ok (), later, utxo) ∧
      later.currentTotalSupply = manager.currentTotalSupply := by
  obtain ⟨gasUsed, ran⟩ := execute_deletion manager
  have enough : requiredGas deletion.executionPayload ≤ deletion.gasLimit.toNat := by decide
  have contract := execute_contract_ok_iff.mpr ⟨enough, gasUsed, _, ran, rfl⟩
  have call : (deletion.executionPayload.isEmpty && deletion.contractAddress.isNone) = false := rfl
  rw [applyTransaction, call, if_neg Bool.false_ne_true, applyContractTransition, contract]
  exact ⟨_, plain_left _ utxo, rfl⟩

/-- Its one change of the tree is the deletion. -/
theorem deletion_ops (manager : StateManager MemoryStorage) (utxo : UtxoSet) :
    contractsOps [deletion] manager utxo = [.pruneKey totalSupplyKey] := by
  obtain ⟨later, ran, _⟩ := deletion_applied manager utxo
  rw [contractsOps, ran]
  rfl

theorem no_burn_deletion : NoBurn (blockOf [deletion]).moves := by
  intro outpoint output member
  simp [BlockNode.moves, Transaction.moves, Transaction.created, blockOf, deletion] at member

theorem deletion_succeeds : Succeeds locked (.new, blockOf [deletion]) := by
  obtain ⟨later, ran, supply⟩ :=
    deletion_applied ({ locked with applyingBlock := true } : StateManager MemoryStorage).startBlock .new
  have txs : applyTransactions [deletion] ({ locked with applyingBlock := true } :
      StateManager MemoryStorage).startBlock .new = (.ok (), later, .new) := by
    rw [applyTransactions, ran]
    rfl
  have capped : later.currentTotalSupply ≤ EconomicConstants.maxGlobalSupplyNanoSlug := by
    rw [supply, start_block_supply]
    exact supply_capped empty_succeeds
  obtain ⟨final, applied⟩ := apply_block_through locked_sound.coherent locked_sound.indexed locked_sound.idle
    txs no_burn_deletion capped
  rw [Succeeds, applied]

/-- A contract deletes the supply leaf between two blocks that are applied, and the supply cannot be read any more. -/
theorem deleted_supply_unread : Succeeds manager (.new, blockOf []) ∧ Succeeds locked (.new, blockOf [deletion]) ∧
    ¬ SupplyLocked (blockStep locked (.new, blockOf [deletion])) := by
  refine ⟨empty_succeeds, deletion_succeeds, fun held => ?_⟩
  obtain ⟨_, spares⟩ := (block_locks_iff deletion_succeeds).mp held
  have ops : blockOps locked (.new, blockOf [deletion]) = [.pruneKey totalSupplyKey] := deletion_ops _ _
  rw [ContractsSpare, ops] at spares
  have spared : SparesSupply locked.tree (.pruneKey totalSupplyKey) := ((Runs.meets_cons _ _).mp spares).1
  have stored : VerkleTree.storedNode locked.tree.storage totalSupplyKey.bytes = true := leaf_stored empty_succeeds
  simp [spared rfl] at stored

end Klomang.Deleting
