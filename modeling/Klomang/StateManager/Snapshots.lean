import Klomang.StateManager.Heights
import Klomang.StateManager.Sample

/-! Snapshots belong to the heights they were taken at, however blocks, prunings and ways
back interleave. Of the two ways back, one forgets the supply and the gas fees. -/
namespace Klomang.StateManager

section History
variable [Blake3] [Bandersnatch] {S : Type} [Storage S]

/-- The states at the heights so far: a new height adds what `get_current_state` shows there,
going back forgets the heights above. -/
def remember (past : List StateSnapshot) (before after : StateManager S) : List StateSnapshot :=
  if before.currentHeight < after.currentHeight then
    match after.getCurrentState.1 with
    | .ok state => past ++ [state]
    | .error _ => past
  else past.take (after.currentHeight + 1)

variable [SchnorrScheme] [Channel] [Wasmer]

/-- One call, with the history it leaves. -/
def observe (observed : Session S × List StateSnapshot) (call : Call) : Session S × List StateSnapshot :=
  (observed.1.step call, remember observed.2 observed.1.manager (observed.1.step call).manager)

end History

section Coherence
variable [Blake3] [Bandersnatch] {S : Type} [Storage S] {manager : StateManager S}

theorem get_current_state_ok (manager : StateManager S) (coherent : manager.tree.Coherent) :
    manager.getCurrentState.1 = .ok ⟨manager.currentHeight, VerkleTree.storageRoot manager.tree.storage,
      manager.currentTotalSupply, manager.blockGasFees⟩ := by
  have rooted := coherent.get_root.1
  unfold getCurrentState
  rcases found : manager.tree.getRoot with ⟨outcome, tree⟩
  rw [found] at rooted
  cases rooted
  rfl

/-- The snapshots of a sound manager are the history of its heights. -/
theorem remember_snapshots {after : StateManager S} (sound : manager.Sound) (change : Change manager after)
    (coherent : after.tree.Coherent) : remember manager.snapshots manager after = after.snapshots := by
  cases change with
  | kept chain =>
    rw [remember, chain.height, if_neg (Nat.lt_irrefl _), chain.snapshots]
    exact List.take_of_length_le sound.counted.le
  | recorded height snapshots storages flag =>
    rw [remember, if_pos (by omega), get_current_state_ok after coherent]
    exact snapshots.symm
  | cut within snapshots storages flag => rw [remember, if_neg (Nat.not_lt.mpr within), snapshots]

variable [SchnorrScheme] [Channel] [Wasmer]

/-- After any calls the manager is sound and its snapshots are the history. -/
theorem observed_sound {tree : VerkleTree S} (built : VerkleTree.Built tree)
    (made : StateManager.new tree = .ok manager) (initial : UtxoSet) (calls : List Call) :
    let observed := Runs.run observe (⟨manager, initial⟩, manager.snapshots) calls
    observed.1.manager.Sound ∧ observed.2 = observed.1.manager.snapshots := by
  refine Runs.run_keeps (fun observed : Session S × List StateSnapshot =>
    observed.1.manager.Sound ∧ observed.2 = observed.1.manager.snapshots) ?_ ?_ calls
  · exact ⟨run_sound built made initial [], rfl⟩
  · rintro ⟨session, past⟩ call ⟨sound, same⟩
    obtain ⟨change, coherent⟩ := step_change sound call
    refine ⟨change.sound sound coherent, ?_⟩
    dsimp only at same ⊢
    rw [observe, same]
    exact remember_snapshots sound change coherent

/-- Snapshot coherence: every height has a snapshot and a storage whose tree has the recorded
root, and `rollback_state` to any height restores what the manager was when that height
was reached. -/
theorem snapshots_coherent {tree : VerkleTree S} (built : VerkleTree.Built tree)
    (made : StateManager.new tree = .ok manager) (initial : UtxoSet) (calls : List Call) :
    let observed := Runs.run observe (⟨manager, initial⟩, manager.snapshots) calls
    let reached := observed.1.manager
    reached.snapshots.length = reached.currentHeight + 1 ∧
      reached.snapshotStorages.length = reached.currentHeight + 1 ∧
      (∀ (i : Nat) snapshot, reached.snapshots[i]? = some snapshot → snapshot.height = i) ∧
      (∀ (i : Nat) snapshot storage, reached.snapshots[i]? = some snapshot →
        reached.snapshotStorages[i]? = some storage →
          ∃ tree, VerkleTree.new storage = .ok tree ∧ tree.getRoot.1 = .ok snapshot.root) ∧
      ∀ height ≤ reached.currentHeight, ∃ recorded, observed.2[height]? = some recorded ∧
        recorded.height = height ∧ (reached.rollbackState height).1 = .ok () ∧
        (reached.rollbackState height).2.getCurrentState.1 = .ok recorded := by
  intro observed reached
  obtain ⟨sound, history⟩ := observed_sound built made initial calls
  refine ⟨sound.counted, sound.stored, fun i snapshot found => (sound.height_at found).1, ?_, ?_⟩
  · intro i snapshot storage found there
    obtain ⟨_, within⟩ := sound.height_at found
    obtain ⟨other, otherStorage, otherFound, otherThere, _, records⟩ := sound.at_height within
    cases found.symm.trans otherFound
    cases there.symm.trans otherThere
    exact ⟨_, VerkleTree.new_ok storage, records.root_ok⟩
  · intro height within
    obtain ⟨snapshot, storage, found, there, same, records⟩ := sound.at_height within
    have ran := rollback_state_ok sound found there records
    refine ⟨snapshot, by rw [history]; exact found, same, by rw [ran], ?_⟩
    rw [ran]
    have fresh := VerkleTree.fresh_coherent storage
    rw [get_current_state_ok (reached.rolledBack height snapshot _) fresh.get_root.2]
    dsimp only [rolledBack]
    rw [VerkleTree.get_root_storage, VerkleTree.fresh_storage records.rooted, ← records.root]
    cases snapshot
    cases same
    rfl

end Coherence

section Ways
variable [Blake3] [Bandersnatch] {S : Type} {manager : StateManager S}

/-- Two managers hold the same state: tree contents, heights, supply and gas fees. -/
structure SameState (left right : StateManager S) : Prop where
  nodes : left.tree.storage = right.tree.storage
  prunedKeys : left.tree.prunedKeys = right.tree.prunedKeys
  currentHeight : left.currentHeight = right.currentHeight
  snapshots : left.snapshots = right.snapshots
  snapshotStorages : left.snapshotStorages = right.snapshotStorages
  currentTotalSupply : left.currentTotalSupply = right.currentTotalSupply
  blockGasFees : left.blockGasFees = right.blockGasFees

variable [Storage S]

/-- Both ways back to a recorded height succeed. They lead to the same state exactly when
the supply and the gas fees happen to be the recorded ones already. -/
theorem Sound.ways_agree_iff (sound : manager.Sound) {height : Nat} {snapshot : StateSnapshot}
    (found : manager.snapshots[height]? = some snapshot) :
    (manager.restoreFromSnapshot snapshot.root height).1 = .ok () ∧
      (manager.rollbackState height).1 = .ok () ∧
      (SameState (manager.restoreFromSnapshot snapshot.root height).2 (manager.rollbackState height).2 ↔
        manager.currentTotalSupply = snapshot.totalSupply ∧ manager.blockGasFees = snapshot.gasFees) := by
  rcases restore_from_snapshot_cases sound snapshot.root height with
    ⟨_, other⟩ | ⟨same, storage, here, _, there, records, restored⟩
  · exact absurd rfl (other snapshot found)
  · cases found.symm.trans here
    rw [restored, rollback_state_ok sound found there records]
    refine ⟨rfl, rfl, fun agree => ⟨agree.currentTotalSupply, agree.blockGasFees⟩, ?_⟩
    rintro ⟨supply, fees⟩
    constructor
    case nodes => exact (VerkleTree.get_root_storage _).symm
    case prunedKeys => exact (VerkleTree.get_root_pruned _).symm
    case currentTotalSupply => exact supply
    case blockGasFees => exact fees
    all_goals rfl

variable [SchnorrScheme] [Channel] [Wasmer]

/-- `restore_from_snapshot` puts back the tree and the heights only: it agrees with
`rollback_state` exactly where there is no supply and no gas fee to put back. -/
theorem ways_back_agree_iff {tree : VerkleTree S} (built : VerkleTree.Built tree)
    (made : StateManager.new tree = .ok manager) (initial : UtxoSet) (calls : List Call) :
    let reached := (Runs.run Session.step ⟨manager, initial⟩ calls).manager
    ∀ height ≤ reached.currentHeight, ∃ snapshot, reached.snapshots[height]? = some snapshot ∧
      (reached.restoreFromSnapshot snapshot.root height).1 = .ok () ∧
      (reached.rollbackState height).1 = .ok () ∧
      (SameState (reached.restoreFromSnapshot snapshot.root height).2 (reached.rollbackState height).2 ↔
        reached.currentTotalSupply = snapshot.totalSupply ∧ reached.blockGasFees = snapshot.gasFees) := by
  intro reached height within
  have sound : reached.Sound := run_sound built made initial calls
  obtain ⟨snapshot, _, found, _⟩ := sound.at_height within
  exact ⟨snapshot, found, sound.ways_agree_iff found⟩

end Ways

section Forgetting
open Klomang.Sample

/-- After a first block the manager can be rolled back to what it was before. -/
theorem reward_rolled_back :
    let observed := Runs.run observe (⟨manager, .new⟩, manager.snapshots) [.applyBlock (blockOf [reward 5])]
    ∃ recorded, observed.2[0]? = some recorded ∧ (observed.1.manager.rollbackState 0).1 = .ok () ∧
      (observed.1.manager.rollbackState 0).2.getCurrentState.1 = .ok recorded := by
  obtain ⟨_, _, _, _, back⟩ := snapshots_coherent manager_built manager_made .new
    [.applyBlock (blockOf [reward 5])]
  obtain ⟨recorded, found, _, ran, state⟩ := back 0 (Nat.zero_le _)
  exact ⟨recorded, found, ran, state⟩

/-- Before any block both ways lead to height zero. -/
theorem fresh_ways_agree : ∃ snapshot, manager.snapshots[0]? = some snapshot ∧
    SameState (manager.restoreFromSnapshot snapshot.root 0).2 (manager.rollbackState 0).2 := by
  obtain ⟨snapshot, found, _, _, agree⟩ :=
    ways_back_agree_iff manager_built manager_made .new [] 0 (Nat.le_refl 0)
  refine ⟨snapshot, found, agree.mpr ?_⟩
  cases found
  exact ⟨rfl, rfl⟩

/-- After one coinbase, going back to height zero by `restore_from_snapshot` keeps its value in
the tracked supply. -/
theorem supply_forgotten :
    let reached := (Runs.run Session.step ⟨manager, .new⟩ [.applyBlock (blockOf [reward 5])]).manager
    ∃ snapshot, reached.snapshots[0]? = some snapshot ∧
      ¬ SameState (reached.restoreFromSnapshot snapshot.root 0).2 (reached.rollbackState 0).2 := by
  obtain ⟨later, left, ran⟩ := reward_applied
  have applied := apply_block_ok ran
  have fresh : manager.Sound := started_sound manager_built.coherent
  have sound : later.Sound := by
    obtain ⟨change, coherent⟩ := applied.change fresh.coherent
    exact change.sound fresh coherent
  have reached : (Runs.run Session.step ⟨manager, .new⟩ [.applyBlock (blockOf [reward 5])]).manager = later := by
    rw [Runs.run, List.foldl_cons, List.foldl_nil, Session.step, ran]
  have supply : 5 = later.currentTotalSupply :=
    congrArg Books.account (Option.some.inj (reward_played.symm.trans applied.played))
  obtain ⟨root, recorded, _⟩ := applied.recorded
  have found : later.snapshots[0]? = manager.snapshots[0]? := by rw [recorded]; rfl
  dsimp only
  rw [reached]
  refine ⟨_, found, fun same => ?_⟩
  have forgotten := ((sound.ways_agree_iff found).2.2.mp same).1
  rw [← supply] at forgotten
  cases forgotten

end Forgetting
end Klomang.StateManager
