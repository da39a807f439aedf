import Klomang.Lib.Runs
import Klomang.StateManager.Outcomes
import Klomang.StateManager.Restore

/-! Runs of the public interface. A session is a manager with the set of unspent
outputs its caller passes; every call takes it to the next session. What all calls
keep is that the tree's caches are right and that every height has its snapshot. -/
namespace Klomang

section Sessions
variable [Blake3] [Bandersnatch]

structure Session (S : Type) where
  manager : StateManager S
  utxo : UtxoSet

/-- The calls that can change a manager or its caller's set of unspent outputs. -/
inductive Call where
  | applyBlock (block : BlockNode)
  | validateAndApplyBlock (clock : Except String UInt64) (order : Enumeration Hash) (block : BlockNode)
      (dag : Dag) (consensus : GhostDag)
  | applyTransaction (tx : Transaction)
  | rollbackState (targetHeight : Nat)
  | rollback (targetHeight : Nat)
  | restoreFromSnapshot (snapshotRoot : Hash) (height : Nat)
  | markOutpointForPruning (outpoint : OutPoint) (epoch timestamp : UInt64)
  | executePruningCycle (order : Enumeration OutPoint) (epochThreshold : UInt64)
  | stateWrite (key : Bytes32) (value : List UInt8)
  | getRootHash
  | getCurrentState
  | crossCheckSupplyConsistency
  /-- The caller goes on with another set of unspent outputs. -/
  | passUtxo (utxo : UtxoSet)

variable [SchnorrScheme] [Channel] [Wasmer] {S : Type} [Storage S]

/-- One call, whatever its outcome. -/
def Session.step (session : Session S) : Call → Session S
  | .applyBlock block =>
    let result := session.manager.applyBlock block session.utxo
    ⟨result.2.1, result.2.2⟩
  | .validateAndApplyBlock clock order block dag consensus =>
    let result := session.manager.validateAndApplyBlock clock order block session.utxo dag consensus
    ⟨result.2.1, result.2.2⟩
  | .applyTransaction tx =>
    let result := session.manager.applyTransaction tx session.utxo
    ⟨result.2.1, result.2.2⟩
  | .rollbackState targetHeight => ⟨(session.manager.rollbackState targetHeight).2, session.utxo⟩
  | .rollback targetHeight => ⟨(session.manager.rollback targetHeight).2, session.utxo⟩
  | .restoreFromSnapshot snapshotRoot height =>
    ⟨(session.manager.restoreFromSnapshot snapshotRoot height).2, session.utxo⟩
  | .markOutpointForPruning outpoint epoch timestamp =>
    ⟨session.manager.markOutpointForPruning outpoint epoch timestamp, session.utxo⟩
  | .executePruningCycle order epochThreshold =>
    let result := session.manager.executePruningCycle order epochThreshold session.utxo
    ⟨result.2.1, result.2.2⟩
  | .stateWrite key value => ⟨session.manager.stateWrite key value, session.utxo⟩
  | .getRootHash => ⟨session.manager.getRootHash.2, session.utxo⟩
  | .getCurrentState => ⟨session.manager.getCurrentState.2, session.utxo⟩
  | .crossCheckSupplyConsistency =>
    ⟨(session.manager.crossCheckSupplyConsistency session.utxo).2, session.utxo⟩
  | .passUtxo utxo => ⟨session.manager, utxo⟩

end Sessions

namespace StateManager
variable [Blake3] [Bandersnatch] {S : Type} [Storage S]

/-- A snapshot belongs to a storage: it has the root of the tree stored there. -/
structure Records (snapshot : StateSnapshot) (storage : S) : Prop where
  rooted : VerkleTree.storedNode storage [] = true
  root : snapshot.root = VerkleTree.storageRoot storage

/-- The caches of the tree are right, and every height up to the current one has a snapshot
with the root of the stored tree. -/
structure Sound (manager : StateManager S) : Prop where
  coherent : manager.tree.Coherent
  idle : manager.applyingBlock = false
  heights : manager.snapshots.map StateSnapshot.height = List.range (manager.currentHeight + 1)
  records : List.Forall₂ Records manager.snapshots manager.snapshotStorages

section Keeping
variable {manager later : StateManager S} {utxo left : UtxoSet}

theorem Sound.counted (sound : manager.Sound) : manager.snapshots.length = manager.currentHeight + 1 := by
  simpa using congrArg List.length sound.heights

theorem Sound.stored (sound : manager.Sound) :
    manager.snapshotStorages.length = manager.currentHeight + 1 :=
  sound.records.length_eq.symm.trans sound.counted

theorem Sound.indexed (sound : manager.Sound) : manager.currentHeight < manager.snapshots.length := by
  rw [sound.counted]
  exact Nat.lt_succ_self _

/-- A block is applied, or refused with the tree cloned and nothing else touched. -/
theorem Sound.apply_block_cases [Wasmer] (sound : manager.Sound) (block : BlockNode) (utxo : UtxoSet) :
    (∃ later left, manager.applyBlock block utxo = (.ok (), later, left)) ∨
    ∃ error, manager.applyBlock block utxo =
      (.error (.err error), { manager with tree := manager.tree.cloned }, utxo) := by
  by_cases succeeded : (manager.applyBlock block utxo).1 = .ok ()
  · rcases ran : manager.applyBlock block utxo with ⟨outcome, later, left⟩
    rw [ran] at succeeded
    cases succeeded
    exact .inl ⟨later, left, rfl⟩
  · exact .inr (apply_block_failed sound.coherent sound.indexed sound.idle succeeded)

theorem Sound.of_same_chain (sound : manager.Sound) (chain : SameChain manager later)
    (coherent : later.tree.Coherent) : later.Sound where
  coherent := coherent
  idle := chain.flag.trans sound.idle
  heights := by rw [chain.snapshots, chain.height]; exact sound.heights
  records := by rw [chain.snapshots, chain.storages]; exact sound.records

/-- What `new` builds over a coherent tree. -/
def started (tree : VerkleTree S) : StateManager S :=
  { tree := tree.getRoot.2
    currentHeight := 0
    snapshots := [⟨0, VerkleTree.storageRoot tree.storage, 0, []⟩]
    snapshotStorages := [tree.storage]
    pruneMarkers := ∅
    outpointToKey := ∅
    currentTotalSupply := 0
    blockGasFees := []
    pendingUpdates := []
    applyingBlock := false }

theorem new_ok {tree : VerkleTree S} (coherent : tree.Coherent) :
    StateManager.new tree = .ok (started tree) := by
  have rooted := coherent.get_root.1
  have storage := VerkleTree.get_root_storage tree
  unfold StateManager.new started
  rcases found : tree.getRoot with ⟨outcome, after⟩
  rw [found] at rooted storage
  cases rooted
  dsimp only at storage ⊢
  rw [storage]

theorem started_built {tree : VerkleTree S} (built : VerkleTree.Built tree) : VerkleTree.Built (started tree).tree :=
  .getRoot built

theorem started_sound {tree : VerkleTree S} (coherent : tree.Coherent) : (started tree).Sound where
  coherent := coherent.get_root.2
  idle := rfl
  heights := rfl
  records := .cons ⟨coherent.rooted, rfl⟩ .nil

theorem get_root_hash_frame (manager : StateManager S) :
    ∃ tree, manager.getRootHash.2 = { manager with tree } ∧ (manager.tree.Coherent → tree.Coherent) := by
  unfold getRootHash
  have kept : manager.tree.Coherent → manager.tree.getRoot.2.Coherent := fun coherent => coherent.get_root.2
  rcases rooted : manager.tree.getRoot with ⟨outcome, tree⟩
  rw [rooted] at kept
  cases outcome <;> exact ⟨tree, rfl, kept⟩

theorem get_current_state_frame (manager : StateManager S) :
    ∃ tree, manager.getCurrentState.2 = { manager with tree } ∧ (manager.tree.Coherent → tree.Coherent) := by
  unfold getCurrentState
  have kept : manager.tree.Coherent → manager.tree.getRoot.2.Coherent := fun coherent => coherent.get_root.2
  rcases rooted : manager.tree.getRoot with ⟨outcome, tree⟩
  rw [rooted] at kept
  cases outcome <;> exact ⟨tree, rfl, kept⟩

theorem cross_check_frame (manager : StateManager S) (utxo : UtxoSet) :
    ∃ tree, (manager.crossCheckSupplyConsistency utxo).2 = { manager with tree } ∧
      (manager.tree.Coherent → tree.Coherent) := by
  obtain ⟨tree, rooted, kept⟩ := get_root_hash_frame manager
  unfold crossCheckSupplyConsistency
  dsimp only
  split
  · exact ⟨_, rfl, id⟩
  split
  · exact ⟨_, rfl, id⟩
  split <;> rename_i same <;> rw [same] at rooted <;> dsimp only at rooted <;> subst rooted
  · exact ⟨tree, rfl, kept⟩
  · split
    · exact ⟨tree, rfl, kept⟩
    · split <;> exact ⟨tree, rfl, kept⟩

/-- Pruning changes the tree and the indices only, and never panics. -/
theorem prune_each_frame (outpoints pruned : List OutPoint) (manager : StateManager S) (utxo : UtxoSet) :
    (∃ tree index markers, (pruneEach outpoints pruned manager utxo).2.1 =
        { manager with tree, outpointToKey := index, pruneMarkers := markers } ∧
      (manager.tree.Coherent → tree.Coherent)) ∧
      (pruneEach outpoints pruned manager utxo).1 ≠ .error .panic := by
  induction outpoints generalizing pruned manager utxo with
  | nil => exact ⟨⟨_, _, _, rfl, id⟩, nofun⟩
  | cons outpoint rest ih =>
    rw [pruneEach]
    cases manager.outpointToKey.lookup outpoint with
    | none => exact ih _ _ _
    | some key =>
      have kept : manager.tree.Coherent → (manager.tree.pruneKey key).2.Coherent :=
        fun coherent => coherent.prune_key key
      dsimp only
      rcases deleted : manager.tree.pruneKey key with ⟨outcome, tree⟩
      rw [deleted] at kept
      cases outcome with
      | error error => exact ⟨⟨_, _, _, rfl, kept⟩, nofun⟩
      | ok _ =>
        obtain ⟨⟨final, index, markers, ran, further⟩, sound⟩ := ih (pruned ++ [outpoint])
          { manager with
            tree
            outpointToKey := manager.outpointToKey.erase outpoint
            pruneMarkers := manager.pruneMarkers.erase outpoint } ⟨utxo.utxos.erase outpoint⟩
        exact ⟨⟨final, index, markers, ran, further ∘ kept⟩, sound⟩

end Keeping
end StateManager
end Klomang
