import Klomang.StateManager.Replicas

/-! Going back to a fork. A node that leaves a height for some other blocks, goes back to it by `rollback_state` and follows
another branch is to end where a node ends that never left. It does exactly when the manager was settled at the fork. -/
namespace Klomang.StateManager

section Forks
variable [Blake3] [Bandersnatch] {S : Type}

/-- A manager as a rollback to its height would leave it: the tree, the supply and the gas fees are those recorded at the
height, and no key counts as pruned. -/
structure Settled (manager : StateManager S) : Prop where
  unpruned : manager.tree.prunedKeys = ∅
  nodes : manager.snapshotStorages[manager.currentHeight]? = some manager.tree.storage
  recorded : ∃ snapshot, manager.snapshots[manager.currentHeight]? = some snapshot ∧
    manager.currentTotalSupply = snapshot.totalSupply ∧ manager.blockGasFees = snapshot.gasFees

/-- What happened above a height left what is recorded up to it. -/
structure Above (height : Nat) (before after : StateManager S) : Prop where
  within : height ≤ after.currentHeight
  snapshots : after.snapshots.take (height + 1) = before.snapshots.take (height + 1)
  storages : after.snapshotStorages.take (height + 1) = before.snapshotStorages.take (height + 1)

variable [Storage S] {manager later fork : StateManager S} {height : Nat}

/-- A rollback to the current height changes nothing exactly when the manager is settled. -/
theorem settled_iff (sound : manager.Sound) :
    SameState manager (manager.rollbackState manager.currentHeight).2 ↔ Settled manager := by
  obtain ⟨snapshot, storage, found, there, _, records⟩ := sound.at_height le_rfl
  rw [rollback_state_ok sound found there records]
  have whole : manager.snapshots.take (manager.currentHeight + 1) = manager.snapshots :=
    List.take_of_length_le sound.counted.le
  have wholeStorages : manager.snapshotStorages.take (manager.currentHeight + 1) = manager.snapshotStorages :=
    List.take_of_length_le sound.stored.le
  have tree : (VerkleTree.fresh storage).getRoot.2.storage = storage := by
    rw [VerkleTree.get_root_storage, VerkleTree.fresh_storage records.rooted]
  have unpruned : (VerkleTree.fresh storage).getRoot.2.prunedKeys = ∅ := by
    rw [VerkleTree.get_root_pruned, VerkleTree.fresh_pruned]
  constructor
  · intro same
    refine ⟨same.prunedKeys.trans unpruned, ?_, snapshot, found, same.currentTotalSupply, same.blockGasFees⟩
    rw [there, same.nodes.trans tree]
  · rintro ⟨clean, nodes, other, recorded, supply, fees⟩
    cases found.symm.trans recorded
    refine ⟨?_, clean.trans unpruned.symm, rfl, whole.symm, wholeStorages.symm, supply, fees⟩
    exact (Option.some.inj (nodes.symm.trans there)).trans tree.symm

theorem Change.above (change : Change manager later) (sound : manager.Sound) (here : height ≤ manager.currentHeight)
    (within : height ≤ later.currentHeight) : Above height manager later := by
  have counted := sound.counted
  have stored := sound.stored
  refine ⟨within, ?_, ?_⟩
  · cases change with
    | kept chain => rw [chain.snapshots]
    | recorded _ snapshots _ _ => rw [snapshots, List.take_append_of_le_length (by omega)]
    | cut _ snapshots _ _ => rw [snapshots, List.take_take, Nat.min_eq_left (by omega)]
  · cases change with
    | kept chain => rw [chain.storages]
    | recorded _ _ storages _ => rw [storages, List.take_append_of_le_length (by omega)]
    | cut _ _ storages _ => rw [storages, List.take_take, Nat.min_eq_left (by omega)]

/-- Going back to a height that was never left for a lower one leads where a rollback from there would have led. -/
theorem Above.rollback_state (above : Above height fork later) (sound : fork.Sound) (laterSound : later.Sound)
    (here : height ≤ fork.currentHeight) :
    (later.rollbackState height).1 = .ok () ∧ SameState (fork.rollbackState height).2 (later.rollbackState height).2 := by
  obtain ⟨snapshot, storage, found, there, _, records⟩ := sound.at_height here
  have kept : later.snapshots[height]? = some snapshot := by
    rw [← List.getElem?_take_of_lt (Nat.lt_succ_self height), above.snapshots, List.getElem?_take_of_lt (Nat.lt_succ_self _),
      found]
  have keptStorage : later.snapshotStorages[height]? = some storage := by
    rw [← List.getElem?_take_of_lt (Nat.lt_succ_self height), above.storages, List.getElem?_take_of_lt (Nat.lt_succ_self _),
      there]
  rw [rollback_state_ok sound found there records, rollback_state_ok laterSound kept keptStorage records]
  exact ⟨rfl, rfl, rfl, rfl, above.snapshots.symm, above.storages.symm, rfl, rfl⟩

/-- Right after a block was applied a manager is settled unless keys count as pruned. -/
theorem Applied.settled_iff {utxo left : UtxoSet} {block : BlockNode} (applied : Applied manager utxo block later left)
    (sound : manager.Sound) : Settled later ↔ later.tree.prunedKeys = ∅ := by
  refine ⟨Settled.unpruned, fun unpruned => ⟨unpruned, ?_, ?_⟩⟩
  · rw [applied.stored, applied.height, ← sound.stored]
    exact List.getElem?_concat_length
  · obtain ⟨root, recorded, _⟩ := applied.recorded
    refine ⟨⟨later.currentHeight, root, later.currentTotalSupply, later.blockGasFees⟩, ?_, rfl, rfl⟩
    rw [recorded, applied.height, ← sound.counted]
    exact List.getElem?_concat_length

theorem started_pruned (tree : VerkleTree S) : (started tree).tree.prunedKeys = tree.prunedKeys :=
  VerkleTree.get_root_pruned tree

end Forks

section Branches
variable [Blake3] [Bandersnatch] [SchnorrScheme] [Channel] [Wasmer] {S : Type} [Storage S]

theorem run_above {fork : Session S} (sound : fork.manager.Sound) (calls : List Call)
    (stays : Runs.Always Session.step fork (fun session => fork.manager.currentHeight ≤ session.manager.currentHeight) calls) :
    Above fork.manager.currentHeight fork.manager (Runs.run Session.step fork calls).manager ∧
      (Runs.run Session.step fork calls).manager.Sound := by
  induction calls using List.reverseRecOn with
  | nil => exact ⟨⟨le_rfl, rfl, rfl⟩, sound⟩
  | append_singleton calls call ih =>
    obtain ⟨above, reached⟩ := ih fun before partly => stays before (partly.trans (List.prefix_append _ _))
    have within := stays _ List.prefix_rfl
    rw [Runs.run_snoc] at within ⊢
    obtain ⟨change, _⟩ := step_change reached call
    have further := change.above reached above.within within
    exact ⟨⟨within, further.snapshots.trans above.snapshots, further.storages.trans above.storages⟩, step_sound reached call⟩

/-- A block that is applied or refused stays above the height it is offered at. -/
theorem block_above {fork : Session S} (sound : fork.manager.Sound) (block : BlockNode) :
    Runs.Always Session.step fork (fun session => fork.manager.currentHeight ≤ session.manager.currentHeight)
      [.applyBlock block] := by
  refine (Runs.always_cons _ _).mpr ⟨le_rfl, Runs.always_nil.mpr ?_⟩
  dsimp only [Session.step]
  rcases sound.apply_block_cases block fork.utxo with ⟨later, left, ran⟩ | ⟨error, failed⟩
  · rw [ran]
    exact (apply_block_ok ran).height ▸ Nat.le_succ _
  · rw [failed]

/-- A reorganisation leaves no trace exactly when the manager was settled at the fork: after any calls that stayed above
it, going back by `rollback_state` succeeds, and with the set of unspent outputs of that time every branch is answered as
it would have been at the fork and leads to the same state. -/
theorem reorganisation_exact_iff {tree : VerkleTree S} (built : VerkleTree.Built tree) {manager : StateManager S}
    (made : StateManager.new tree = .ok manager) (initial : UtxoSet) (before away : List Call) :
    let fork := Runs.run Session.step ⟨manager, initial⟩ before
    let back := (Runs.run Session.step fork away).manager.rollbackState fork.manager.currentHeight
    Runs.Always Session.step fork (fun session => fork.manager.currentHeight ≤ session.manager.currentHeight) away →
      back.1 = .ok () ∧
        ((∀ branch, (∀ call ∈ branch, ¬ ReadsIndices call) →
            answers ⟨back.2, fork.utxo⟩ branch = answers fork branch ∧
              SameState (Runs.run Session.step ⟨back.2, fork.utxo⟩ branch).manager (Runs.run Session.step fork branch).manager ∧
              (Runs.run Session.step ⟨back.2, fork.utxo⟩ branch).utxo = (Runs.run Session.step fork branch).utxo) ↔
          Settled fork.manager) := by
  intro fork back stays
  have sound : fork.manager.Sound := run_sound built made initial before
  obtain ⟨above, reached⟩ := run_above sound away stays
  obtain ⟨succeeds, same⟩ := above.rollback_state sound reached le_rfl
  have returned : back.2.Sound := step_sound reached (.rollbackState fork.manager.currentHeight)
  refine ⟨succeeds, fun exact => ?_, fun settled branch unindexed => ?_⟩
  · -- the empty branch tells the two managers apart
    obtain ⟨_, there, _⟩ := exact [] nofun
    exact (settled_iff sound).mp (there.symm.trans same.symm)
  · have there : SameState back.2 fork.manager := (((settled_iff sound).mpr settled).trans same).symm
    obtain ⟨answered, peers⟩ := run_same (⟨returned, sound, there, rfl⟩ : Peers ⟨back.2, fork.utxo⟩ fork) unindexed
    exact ⟨answered, peers.managers, peers.sets⟩

end Branches

section Samples
open Klomang.Sample

theorem reward_settled : Settled (Runs.run Session.step ⟨manager, .new⟩ [.applyBlock (blockOf [reward 5])]).manager := by
  obtain ⟨later, left, ran⟩ := reward_applied
  have reached : (Runs.run Session.step ⟨manager, .new⟩ [.applyBlock (blockOf [reward 5])]).manager = later := by
    rw [Runs.run, List.foldl_cons, List.foldl_nil, Session.step, ran]
  have plain : ∀ tx ∈ (blockOf [reward 5]).transactions, tx.Plain := by decide
  have applied := apply_block_ok ran
  obtain ⟨tree, _, pruned, _, untouched⟩ := applied.written
  rw [reached, applied.settled_iff (started_sound manager_built.coherent), pruned, untouched plain]
  exact (started_pruned emptyTree).trans (VerkleTree.fresh_pruned ∅)

/-- After a first coinbase a second one is undone and a third one applied instead. -/
theorem reward_replaced :
    let fork := Runs.run Session.step ⟨manager, .new⟩ [.applyBlock (blockOf [reward 5])]
    let away := Runs.run Session.step fork [.applyBlock (blockOf [reward 7])]
    answers ⟨(away.manager.rollbackState fork.manager.currentHeight).2, fork.utxo⟩
        [.applyBlock (blockOf [reward 9]), .getRootHash] =
      answers fork [.applyBlock (blockOf [reward 9]), .getRootHash] := by
  have sound := run_sound manager_built manager_made .new [.applyBlock (blockOf [reward 5])]
  exact ((reorganisation_exact_iff manager_built manager_made .new [.applyBlock (blockOf [reward 5])]
    [.applyBlock (blockOf [reward 7])] (block_above sound _)).2.mpr reward_settled
    [.applyBlock (blockOf [reward 9]), .getRootHash] (by simp [ReadsIndices])).1

end Samples
end Klomang.StateManager
