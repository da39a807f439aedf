import Klomang.StateManager.Heights
import Klomang.StateManager.Sample

/-! A block that fails leaves nothing behind, in any state the public operations reach. -/
namespace Klomang.StateManager

section Statement
variable [Blake3] [Bandersnatch] {S : Type}

/-- Everything a block could change is as it was; of the tree, its stored nodes and its
pruned keys. -/
structure Untouched (before after : StateManager S) : Prop where
  nodes : after.tree.storage = before.tree.storage
  prunedKeys : after.tree.prunedKeys = before.tree.prunedKeys
  currentHeight : after.currentHeight = before.currentHeight
  currentTotalSupply : after.currentTotalSupply = before.currentTotalSupply
  blockGasFees : after.blockGasFees = before.blockGasFees
  pendingUpdates : after.pendingUpdates = before.pendingUpdates
  pruneMarkers : after.pruneMarkers = before.pruneMarkers
  outpointToKey : after.outpointToKey = before.outpointToKey
  snapshots : after.snapshots = before.snapshots
  snapshotStorages : after.snapshotStorages = before.snapshotStorages

end Statement

section Blocks
variable [Blake3] [Bandersnatch] [Wasmer] {S : Type} [Storage S]

/-- `apply_block` on a sound manager fails without a trace and never panics. -/
theorem Sound.all_or_nothing {manager : StateManager S} (sound : manager.Sound) (block : BlockNode)
    (utxo : UtxoSet) :
    (manager.applyBlock block utxo).1 ≠ .error .panic ∧
      ∀ error, (manager.applyBlock block utxo).1 = .error (.err error) →
        Untouched manager (manager.applyBlock block utxo).2.1 ∧
          (manager.applyBlock block utxo).2.2 = utxo := by
  rcases sound.apply_block_cases block utxo with ⟨later, left, ran⟩ | ⟨error, failed⟩
  · rw [ran]
    exact ⟨nofun, nofun⟩
  · rw [failed]
    refine ⟨nofun, fun _ _ => ⟨?_, rfl⟩⟩
    constructor
    case nodes => exact sound.coherent.cloned_storage
    case prunedKeys => exact VerkleTree.cloned_pruned manager.tree
    all_goals rfl

variable [SchnorrScheme] [Channel]

/-- All or nothing: a block that `apply_block` rejects, with plain and contract transactions in any
mixture, changes neither the manager nor the set of unspent outputs, and the recorded
snapshots are never indexed out of their range. -/
theorem apply_block_all_or_nothing {tree : VerkleTree S} (built : VerkleTree.Built tree)
    {manager : StateManager S} (made : StateManager.new tree = .ok manager) (initial : UtxoSet)
    (calls : List Call) (block : BlockNode) (utxo : UtxoSet) :
    let reached := (Runs.run Session.step ⟨manager, initial⟩ calls).manager
    (reached.applyBlock block utxo).1 ≠ .error .panic ∧
      ∀ error, (reached.applyBlock block utxo).1 = .error (.err error) →
        Untouched reached (reached.applyBlock block utxo).2.1 ∧
          (reached.applyBlock block utxo).2.2 = utxo :=
  (run_sound built made initial calls).all_or_nothing block utxo

end Blocks

section Refusal
open Klomang.Sample

/-- A first block is applied, and a second one that spends a missing output leaves all as it was. -/
theorem missing_output_untouched :
    let reached := (Runs.run Session.step ⟨manager, .new⟩ [.applyBlock (blockOf [reward 5])]).manager
    (∃ error, (reached.applyBlock (blockOf [spend (.replicate 7, 0) 1]) .new).1 = .error (.err error)) ∧
      Untouched reached (reached.applyBlock (blockOf [spend (.replicate 7, 0) 1]) .new).2.1 := by
  obtain ⟨sound, untouched⟩ := apply_block_all_or_nothing manager_built manager_made .new
    [.applyBlock (blockOf [reward 5])] (blockOf [spend (.replicate 7, 0) 1]) .new
  dsimp only at sound untouched ⊢
  rcases ran : (Runs.run Session.step ⟨manager, .new⟩ [.applyBlock (blockOf [reward 5])]).manager.applyBlock
    (blockOf [spend (.replicate 7, 0) 1]) .new with ⟨outcome, later, left⟩
  rw [ran] at sound untouched
  cases outcome with
  | ok _ =>
    -- there is nothing to take
    cases (apply_block_ok ran).played
  | error abort =>
    cases abort with
    | panic => exact absurd rfl sound
    | err error => exact ⟨⟨error, rfl⟩, (untouched error rfl).1⟩

end Refusal
end Klomang.StateManager
