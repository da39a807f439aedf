import Klomang.StateManager.Calls

/-! The two ways back to an earlier height, and what every call keeps. -/
namespace Klomang.StateManager

variable [Blake3] [Bandersnatch] {S : Type} [Storage S] {manager : StateManager S} {height : Nat}

section Heights

/-- Every height up to the current one has its snapshot and its storage. -/
theorem Sound.at_height (sound : manager.Sound) (within : height ≤ manager.currentHeight) :
    ∃ snapshot storage, manager.snapshots[height]? = some snapshot ∧
      manager.snapshotStorages[height]? = some storage ∧ snapshot.height = height ∧
      Records snapshot storage := by
  have indexed : height < manager.snapshots.length := by
    rw [sound.counted]
    omega
  have stored : height < manager.snapshotStorages.length := by
    rw [sound.stored]
    omega
  refine ⟨_, _, List.getElem?_eq_getElem indexed, List.getElem?_eq_getElem stored, ?_, ?_⟩
  · have listed := congrArg (fun heights => heights[height]?) sound.heights
    simpa [List.getElem?_eq_getElem indexed, show height < manager.currentHeight + 1 by omega] using listed
  · exact List.Forall₂.get sound.records indexed stored

/-- A snapshot of some height stands at that height. -/
theorem Sound.height_at (sound : manager.Sound) {i : Nat} {snapshot : StateSnapshot}
    (found : manager.snapshots[i]? = some snapshot) : snapshot.height = i ∧ i ≤ manager.currentHeight := by
  obtain ⟨inside, _⟩ := List.getElem?_eq_some_iff.mp found
  rw [sound.counted] at inside
  obtain ⟨other, _, there, _, same, _⟩ := sound.at_height (Nat.le_of_lt_succ inside)
  cases found.symm.trans there
  exact ⟨same, Nat.le_of_lt_succ inside⟩

/-- What a call can do to the heights: leave them, record one more, or cut them back. -/
inductive Change (before after : StateManager S) : Prop where
  | kept (chain : SameChain before after)
  | recorded (height : after.currentHeight = before.currentHeight + 1)
      (snapshots : after.snapshots = before.snapshots ++
        [⟨after.currentHeight, VerkleTree.storageRoot after.tree.storage, after.currentTotalSupply,
          after.blockGasFees⟩])
      (storages : after.snapshotStorages = before.snapshotStorages ++ [after.tree.storage])
      (flag : after.applyingBlock = false)
  | cut (within : after.currentHeight ≤ before.currentHeight)
      (snapshots : after.snapshots = before.snapshots.take (after.currentHeight + 1))
      (storages : after.snapshotStorages = before.snapshotStorages.take (after.currentHeight + 1))
      (flag : after.applyingBlock = before.applyingBlock)

theorem Change.sound {after : StateManager S} (change : Change manager after) (sound : manager.Sound)
    (coherent : after.tree.Coherent) : after.Sound := by
  cases change with
  | kept chain => exact sound.of_same_chain chain coherent
  | recorded height snapshots storages flag =>
    refine ⟨coherent, flag, ?_, ?_⟩
    · rw [snapshots, List.map_append, sound.heights, height]
      exact List.range_succ.symm
    · rw [snapshots, storages]
      exact List.rel_append sound.records (.cons ⟨coherent.rooted, rfl⟩ .nil)
  | cut within snapshots storages flag =>
    refine ⟨coherent, flag.trans sound.idle, ?_, ?_⟩
    · rw [snapshots, List.map_take, sound.heights, List.take_range]
      congr 1
      omega
    · rw [snapshots, storages]
      exact List.forall₂_take _ sound.records

theorem Records.root_ok {snapshot : StateSnapshot} {storage : S} (records : Records snapshot storage) :
    (VerkleTree.fresh storage).getRoot.1 = .ok snapshot.root := by
  rw [(VerkleTree.fresh_coherent storage).get_root.1, VerkleTree.fresh_storage records.rooted, records.root]

theorem get_root_hash_eq (manager : StateManager S) {root : Hash} (rooted : manager.tree.getRoot.1 = .ok root) :
    manager.getRootHash = (.ok root, { manager with tree := manager.tree.getRoot.2 }) := by
  unfold getRootHash
  rcases found : manager.tree.getRoot with ⟨outcome, tree⟩
  rw [found] at rooted
  cases rooted
  rfl

end Heights

section Rollback

/-- Where a rollback to a height leads. -/
def rolledBack (manager : StateManager S) (height : Nat) (snapshot : StateSnapshot) (tree : VerkleTree S) :
    StateManager S :=
  { manager with
    tree
    currentHeight := height
    snapshots := manager.snapshots.take (height + 1)
    snapshotStorages := manager.snapshotStorages.take (height + 1)
    currentTotalSupply := snapshot.totalSupply
    blockGasFees := snapshot.gasFees }

/-- A rollback within the current height succeeds. -/
theorem rollback_state_ok (sound : manager.Sound) {snapshot : StateSnapshot} {storage : S}
    (found : manager.snapshots[height]? = some snapshot)
    (there : manager.snapshotStorages[height]? = some storage) (records : Records snapshot storage) :
    manager.rollbackState height =
      (.ok (), manager.rolledBack height snapshot (VerkleTree.fresh storage).getRoot.2) := by
  obtain ⟨same, within⟩ := sound.height_at found
  have listed : manager.getStateAt height ≠ none := by
    rw [getStateAt, Ne, List.find?_eq_none]
    intro absent
    exact absent snapshot (List.mem_of_getElem? found) (by simpa using same)
  have kept : (manager.snapshots.take (height + 1))[height]? = some snapshot := by
    rw [List.getElem?_take_of_lt (Nat.lt_succ_self _), found]
  have keptStorage : (manager.snapshotStorages.take (height + 1))[height]? = some storage := by
    rw [List.getElem?_take_of_lt (Nat.lt_succ_self _), there]
  have rooted := get_root_hash_eq (manager.rolledBack height snapshot (VerkleTree.fresh storage)) records.root_ok
  unfold rollbackState
  rw [if_neg (Nat.not_lt.mpr within), if_neg (by simpa using listed)]
  dsimp only
  rw [keptStorage]
  dsimp only
  rw [VerkleTree.new_ok]
  dsimp only
  rw [kept]
  dsimp only
  unfold rolledBack at rooted ⊢
  rw [rooted]
  dsimp only
  rw [if_neg (not_not.mpr rfl)]

theorem rollback_state_beyond (beyond : manager.currentHeight < height) :
    ∃ error, manager.rollbackState height = (.error (.err error), manager) := by
  unfold rollbackState
  rw [if_pos beyond]
  exact ⟨_, rfl⟩

/-- `rollback` within the current height succeeds as `rollback_state` does. -/
theorem rollback_ok (sound : manager.Sound) {snapshot : StateSnapshot} {storage : S}
    (found : manager.snapshots[height]? = some snapshot)
    (there : manager.snapshotStorages[height]? = some storage) (records : Records snapshot storage) :
    manager.rollback height =
      (.ok (), manager.rolledBack height snapshot (VerkleTree.fresh storage).getRoot.2.getRoot.2) := by
  obtain ⟨_, within⟩ := sound.height_at found
  have storageSame : (VerkleTree.fresh storage).getRoot.2.storage = storage := by
    rw [VerkleTree.get_root_storage, VerkleTree.fresh_storage records.rooted]
  have again : (VerkleTree.fresh storage).getRoot.2.getRoot.1 = .ok snapshot.root := by
    rw [(VerkleTree.fresh_coherent storage).get_root.2.get_root.1, storageSame, records.root]
  have rooted := get_root_hash_eq (manager.rolledBack height snapshot (VerkleTree.fresh storage).getRoot.2) again
  have kept : (manager.snapshots.take (height + 1))[height]? = some snapshot := by
    rw [List.getElem?_take_of_lt (Nat.lt_succ_self _), found]
  unfold rollback
  rw [if_neg (Nat.not_lt.mpr within), VerkleTree.clone_ok]
  dsimp only
  rw [rollback_state_ok sound found there records]
  dsimp only
  rw [rooted]
  dsimp only [rolledBack]
  rw [kept]
  dsimp only
  rw [if_neg (not_not.mpr rfl)]

theorem rollback_beyond (beyond : manager.currentHeight < height) :
    ∃ error, manager.rollback height = (.error (.err error), manager) := by
  unfold rollback
  rw [if_pos beyond]
  exact ⟨_, rfl⟩

/-- `restore_from_snapshot` finds the one snapshot of the height, or none. -/
theorem restore_from_snapshot_cases (sound : manager.Sound) (snapshotRoot : Hash) (height : Nat) :
    ((∃ error, manager.restoreFromSnapshot snapshotRoot height = (.error (.err error), manager)) ∧
      ∀ snapshot, manager.snapshots[height]? = some snapshot → snapshot.root ≠ snapshotRoot) ∨
    ∃ snapshot storage, manager.snapshots[height]? = some snapshot ∧ snapshot.root = snapshotRoot ∧
      manager.snapshotStorages[height]? = some storage ∧ Records snapshot storage ∧
      manager.restoreFromSnapshot snapshotRoot height =
        (.ok (), { manager with
          tree := VerkleTree.fresh storage
          currentHeight := height
          snapshots := manager.snapshots.take (height + 1)
          snapshotStorages := manager.snapshotStorages.take (height + 1) }) := by
  unfold restoreFromSnapshot
  cases located : manager.snapshots.findIdx? fun snapshot =>
      decide (snapshot.height = height) && decide (snapshot.root = snapshotRoot) with
  | none =>
    refine .inl ⟨⟨_, rfl⟩, fun snapshot found same => ?_⟩
    have absent := List.findIdx?_eq_none_iff.mp located snapshot (List.mem_of_getElem? found)
    simp [(sound.height_at found).1, same] at absent
  | some i =>
    right
    obtain ⟨inside, named, _⟩ := List.findIdx?_eq_some_iff_getElem.mp located
    simp only [Bool.and_eq_true, decide_eq_true_eq] at named
    obtain ⟨here, within⟩ := sound.height_at (List.getElem?_eq_getElem inside)
    obtain ⟨snapshot, storage, found, there, _, records⟩ := sound.at_height within
    cases (List.getElem?_eq_getElem inside).symm.trans found
    have same : i = height := here.symm.trans named.1
    subst same
    refine ⟨_, storage, found, named.2, there, records, ?_⟩
    dsimp only
    rw [there]
    dsimp only
    rw [VerkleTree.new_ok]

end Rollback

section Steps
variable {later : StateManager S} {utxo left : UtxoSet} {block : BlockNode}

theorem Applied.change (applied : Applied manager utxo block later left) (coherent : manager.tree.Coherent) :
    Change manager later ∧ later.tree.Coherent := by
  obtain ⟨tree, _, _, kept, _⟩ := applied.written
  obtain ⟨root, recorded, rooted⟩ := applied.recorded
  rw [rooted coherent] at recorded
  exact ⟨.recorded applied.height recorded applied.stored applied.released, (kept coherent).2⟩

theorem rolled_back_change {snapshot : StateSnapshot} {tree : VerkleTree S}
    (within : height ≤ manager.currentHeight) : Change manager (manager.rolledBack height snapshot tree) :=
  .cut within rfl rfl rfl

variable [Wasmer]

theorem apply_block_change (sound : manager.Sound) (block : BlockNode) (utxo : UtxoSet) :
    Change manager (manager.applyBlock block utxo).2.1 ∧
      (manager.applyBlock block utxo).2.1.tree.Coherent := by
  rcases sound.apply_block_cases block utxo with ⟨later, left, ran⟩ | ⟨error, failed⟩
  · rw [ran]
    exact (apply_block_ok ran).change sound.coherent
  · rw [failed]
    exact ⟨.kept ⟨rfl, rfl, rfl, rfl⟩, sound.coherent.cloned⟩

variable [SchnorrScheme] [Channel]

/-- A block is refused before it is applied, or validated and then applied. -/
theorem validate_and_apply_block_cases (manager : StateManager S) (clock : Except String UInt64)
    (order : Enumeration Hash) (block : BlockNode) (utxo : UtxoSet) (dag : Dag) (consensus : GhostDag) :
    (∃ error, manager.validateAndApplyBlock clock order block utxo dag consensus =
      (.error (.err error), manager, utxo)) ∨
    (∃ currentTime, consensus.validateBlock order block dag manager.tree currentTime = .ok ()) ∧
      manager.validateAndApplyBlock clock order block utxo dag consensus = manager.applyBlock block utxo := by
  unfold validateAndApplyBlock
  cases clock with
  | error error => exact .inl ⟨_, rfl⟩
  | ok currentTime =>
    dsimp only
    cases valid : consensus.validateBlock order block dag manager.tree currentTime with
    | error error => exact .inl ⟨_, rfl⟩
    | ok _ =>
      dsimp only
      cases consensus.canReorganize dag block.header.id with
      | error error => exact .inl ⟨_, rfl⟩
      | ok allowed =>
        cases allowed with
        | false => exact .inl ⟨_, rfl⟩
        | true => exact .inr ⟨⟨currentTime, valid⟩, rfl⟩

/-- A block that is valid and may reorganize is applied. -/
theorem validated_applied {manager : StateManager S} {currentTime : UInt64} {order : Enumeration Hash}
    {block : BlockNode} {dag : Dag} {consensus : GhostDag}
    (valid : consensus.validateBlock order block dag manager.tree currentTime = .ok ())
    (reorganizes : consensus.canReorganize dag block.header.id = .ok true) (utxo : UtxoSet) :
    manager.validateAndApplyBlock (.ok currentTime) order block utxo dag consensus = manager.applyBlock block utxo := by
  unfold validateAndApplyBlock
  dsimp only
  rw [valid]
  dsimp only
  rw [reorganizes]

/-- What a call does to a sound manager. -/
theorem step_change {session : Session S} (sound : session.manager.Sound) (call : Call) :
    Change session.manager (session.step call).manager ∧ (session.step call).manager.tree.Coherent := by
  have same : SameChain session.manager session.manager := .refl _
  cases call with
  | applyBlock block => exact apply_block_change sound block session.utxo
  | validateAndApplyBlock clock order block dag consensus =>
    dsimp only [Session.step]
    rcases validate_and_apply_block_cases session.manager clock order block session.utxo dag consensus with
      ⟨error, refused⟩ | ⟨_, applied⟩
    · rw [refused]
      exact ⟨.kept same, sound.coherent⟩
    · rw [applied]
      exact apply_block_change sound block session.utxo
  | applyTransaction tx =>
    obtain ⟨chain, kept⟩ := apply_transaction_frame session.manager tx session.utxo
    exact ⟨.kept chain, kept sound.coherent⟩
  | rollbackState targetHeight =>
    dsimp only [Session.step]
    by_cases within : targetHeight ≤ session.manager.currentHeight
    · obtain ⟨snapshot, storage, found, there, _, records⟩ := sound.at_height within
      rw [rollback_state_ok sound found there records]
      exact ⟨rolled_back_change within, (VerkleTree.fresh_coherent storage).get_root.2⟩
    · obtain ⟨error, refused⟩ := rollback_state_beyond (Nat.lt_of_not_le within)
      rw [refused]
      exact ⟨.kept same, sound.coherent⟩
  | rollback targetHeight =>
    dsimp only [Session.step]
    by_cases within : targetHeight ≤ session.manager.currentHeight
    · obtain ⟨snapshot, storage, found, there, _, records⟩ := sound.at_height within
      rw [rollback_ok sound found there records]
      exact ⟨rolled_back_change within, (VerkleTree.fresh_coherent storage).get_root.2.get_root.2⟩
    · obtain ⟨error, refused⟩ := rollback_beyond (Nat.lt_of_not_le within)
      rw [refused]
      exact ⟨.kept same, sound.coherent⟩
  | restoreFromSnapshot snapshotRoot height =>
    dsimp only [Session.step]
    rcases restore_from_snapshot_cases sound snapshotRoot height with
      ⟨⟨error, refused⟩, _⟩ | ⟨snapshot, storage, found, _, _, _, restored⟩
    · rw [refused]
      exact ⟨.kept same, sound.coherent⟩
    · rw [restored]
      exact ⟨.cut (sound.height_at found).2 rfl rfl rfl, VerkleTree.fresh_coherent storage⟩
  | markOutpointForPruning outpoint epoch timestamp => exact ⟨.kept ⟨rfl, rfl, rfl, rfl⟩, sound.coherent⟩
  | executePruningCycle order epochThreshold =>
    obtain ⟨⟨tree, index, markers, pruned, kept⟩, _⟩ := prune_each_frame
      (session.manager.keysToPrune order epochThreshold) [] session.manager session.utxo
    dsimp only [Session.step, executePruningCycle]
    rw [pruned]
    exact ⟨.kept ⟨rfl, rfl, rfl, rfl⟩, kept sound.coherent⟩
  | stateWrite key value => exact ⟨.kept ⟨rfl, rfl, rfl, rfl⟩, sound.coherent.insert key value⟩
  | getRootHash =>
    obtain ⟨tree, asked, kept⟩ := get_root_hash_frame session.manager
    dsimp only [Session.step]
    rw [asked]
    exact ⟨.kept ⟨rfl, rfl, rfl, rfl⟩, kept sound.coherent⟩
  | getCurrentState =>
    obtain ⟨tree, asked, kept⟩ := get_current_state_frame session.manager
    dsimp only [Session.step]
    rw [asked]
    exact ⟨.kept ⟨rfl, rfl, rfl, rfl⟩, kept sound.coherent⟩
  | crossCheckSupplyConsistency =>
    obtain ⟨tree, asked, kept⟩ := cross_check_frame session.manager session.utxo
    dsimp only [Session.step]
    rw [asked]
    exact ⟨.kept ⟨rfl, rfl, rfl, rfl⟩, kept sound.coherent⟩
  | passUtxo utxo => exact ⟨.kept same, sound.coherent⟩

/-- Every call keeps the manager sound. -/
theorem step_sound {session : Session S} (sound : session.manager.Sound) (call : Call) :
    (session.step call).manager.Sound := by
  obtain ⟨change, coherent⟩ := step_change sound call
  exact change.sound sound coherent

/-- A manager over a built tree is sound after any calls. -/
theorem run_sound {tree : VerkleTree S} (built : VerkleTree.Built tree)
    (made : StateManager.new tree = .ok manager) (utxo : UtxoSet) (calls : List Call) :
    (Runs.run Session.step ⟨manager, utxo⟩ calls).manager.Sound := by
  have initial : manager.Sound := by
    rw [new_ok built.coherent] at made
    cases made
    exact started_sound built.coherent
  exact Runs.run_keeps (fun session : Session S => session.manager.Sound) initial
    (fun _ call sound => step_sound sound call) calls

end Steps
end Klomang.StateManager
