import Klomang.StateManager.Caches
import Klomang.StateManager.Snapshots

/-! Replicas: managers in the same state, whatever their caches, indices and pending updates are. They answer every block
alike and stay in the same state, so that a node that went back to a fork is the node that never left it. -/
namespace Klomang.StateManager

section States
variable [Blake3] [Bandersnatch] {S : Type} {left right third : StateManager S}

theorem SameState.contents (same : SameState left right) : VerkleTree.SameContents left.tree right.tree :=
  ⟨same.nodes, same.prunedKeys⟩

theorem same_state_refl (manager : StateManager S) : SameState manager manager := ⟨rfl, rfl, rfl, rfl, rfl, rfl, rfl⟩

theorem SameState.symm (same : SameState left right) : SameState right left :=
  ⟨same.nodes.symm, same.prunedKeys.symm, same.currentHeight.symm, same.snapshots.symm, same.snapshotStorages.symm,
    same.currentTotalSupply.symm, same.blockGasFees.symm⟩

theorem SameState.trans (same : SameState left right) (further : SameState right third) : SameState left third :=
  ⟨same.nodes.trans further.nodes, same.prunedKeys.trans further.prunedKeys, same.currentHeight.trans further.currentHeight,
    same.snapshots.trans further.snapshots, same.snapshotStorages.trans further.snapshotStorages,
    same.currentTotalSupply.trans further.currentTotalSupply, same.blockGasFees.trans further.blockGasFees⟩

theorem same_state_tree (manager : StateManager S) {tree : VerkleTree S} (same : VerkleTree.SameContents manager.tree tree) :
    SameState manager { manager with tree } :=
  ⟨same.storage, same.prunedKeys, rfl, rfl, rfl, rfl, rfl⟩

theorem Alike.same_state (alike : Alike left right) : SameState left right := by
  rw [alike.rest]
  exact same_state_tree left alike.contents

theorem SameState.rolled_back (same : SameState left right) (height : Nat) (snapshot : StateSnapshot) (tree : VerkleTree S) :
    SameState (left.rolledBack height snapshot tree) (right.rolledBack height snapshot tree) := by
  refine ⟨rfl, rfl, rfl, ?_, ?_, rfl, rfl⟩
  · rw [rolledBack, rolledBack, same.snapshots]
  · rw [rolledBack, rolledBack, same.snapshotStorages]

/-- Transactions see nothing of the indices and of the pending updates. -/
theorem same_state_simulates : Simulation (SameState (S := S)) where
  contents _ _ same := same.contents
  replace _ _ _ _ same trees := { same with nodes := trees.storage, prunedKeys := trees.prunedKeys }
  charge _ _ _ same := { same with blockGasFees := by rw [same.blockGasFees] }
  spend _ _ _ _ same := { same with currentTotalSupply := congrArg (· - _) same.currentTotalSupply }
  create _ _ _ _ _ same := { same with currentTotalSupply := congrArg (fun supply => min (supply + _) u128Max) same.currentTotalSupply }

/-- Managers in the same state in the middle of a block: what is pending is the same too. -/
structure Twins (left right : StateManager S) : Prop extends SameState left right where
  pendingUpdates : left.pendingUpdates = right.pendingUpdates

theorem twins_simulate : Simulation (Twins (S := S)) where
  contents _ _ twins := twins.contents
  replace _ _ _ _ twins same := ⟨same_state_simulates.replace _ _ _ _ twins.toSameState same, twins.pendingUpdates⟩
  charge _ _ fee twins := ⟨same_state_simulates.charge _ _ fee twins.toSameState, twins.pendingUpdates⟩
  spend _ _ outpoint output twins := ⟨same_state_simulates.spend _ _ outpoint output twins.toSameState, twins.pendingUpdates⟩
  create _ _ key outpoint output twins :=
    ⟨same_state_simulates.create _ _ key outpoint output twins.toSameState, congrArg (· ++ _) twins.pendingUpdates⟩

end States

section Blocks
variable [Blake3] [Bandersnatch] {S : Type} [Storage S] {left right : StateManager S}

theorem same_transition {tree other : VerkleTree S} (same : VerkleTree.SameContents tree other)
    (updates : List (Bytes32 × List UInt8)) (supply : Nat) :
    (tree.applyStateTransition updates supply).1 = (other.applyStateTransition updates supply).1 ∧
      VerkleTree.SameContents (tree.applyStateTransition updates supply).2 (other.applyStateTransition updates supply).2 := by
  have written : ∀ (updates : List (Bytes32 × List UInt8)) (tree other : VerkleTree S), VerkleTree.SameContents tree other →
      VerkleTree.SameContents (updates.foldl (fun tree update => tree.insert update.1 update.2) tree)
        (updates.foldl (fun tree update => tree.insert update.1 update.2) other) := by
    intro updates
    induction updates with
    | nil => exact fun _ _ same => same
    | cons update rest ih => exact fun tree other same => ih _ _ (same.insert update.1 update.2)
  have touched : VerkleTree.SameContents { tree with dirty := true } { other with dirty := true } :=
    ⟨same.storage, same.prunedKeys⟩
  unfold VerkleTree.applyStateTransition
  dsimp only
  split
  · exact ⟨rfl, touched⟩
  · split
    · exact ⟨rfl, (written updates _ _ touched).insert _ _⟩
    · exact ⟨rfl, (written updates _ _ touched).insert _ _⟩

theorem Twins.transition (twins : Twins left right) :
    (left.tree.applyStateTransition left.pendingUpdates left.currentTotalSupply).1 =
        (right.tree.applyStateTransition right.pendingUpdates right.currentTotalSupply).1 ∧
      VerkleTree.SameContents (left.tree.applyStateTransition left.pendingUpdates left.currentTotalSupply).2
        (right.tree.applyStateTransition right.pendingUpdates right.currentTotalSupply).2 := by
  rw [← twins.pendingUpdates, ← twins.currentTotalSupply]
  exact same_transition twins.contents _ _

/-- Over coherent trees the same root is recorded. -/
theorem record_snapshot_same (same : SameState left right) (coherent : left.tree.Coherent)
    (otherCoherent : right.tree.Coherent) (utxo : UtxoSet) (snapshotHeight : Nat) :
    Ends SameState (left.recordSnapshot utxo snapshotHeight) (right.recordSnapshot utxo snapshotHeight) := by
  have rooted := coherent.get_root.1
  have otherRooted := otherCoherent.get_root.1
  rw [← same.nodes] at otherRooted
  have roots : VerkleTree.SameContents left.tree.getRoot.2 right.tree.getRoot.2 :=
    (VerkleTree.same_contents_get_root left.tree).symm.trans
      (same.contents.trans (VerkleTree.same_contents_get_root right.tree))
  have heights := same.currentHeight
  unfold recordSnapshot
  rw [get_root_hash_eq ({ left with currentHeight := left.currentHeight + 1 } : StateManager S) rooted,
    get_root_hash_eq ({ right with currentHeight := right.currentHeight + 1 } : StateManager S) otherRooted]
  dsimp only
  rw [← same.snapshots]
  cases left.snapshots[snapshotHeight]? with
  | none => exact ⟨rfl, ⟨roots.storage, roots.prunedKeys, by rw [heights], rfl, same.snapshotStorages,
      same.currentTotalSupply, same.blockGasFees⟩, rfl⟩
  | some _ =>
    refine ⟨rfl, ⟨roots.storage, roots.prunedKeys, ?_, ?_, ?_, same.currentTotalSupply, same.blockGasFees⟩, rfl⟩
    · rw [heights]
    · rw [heights, same.currentTotalSupply, same.blockGasFees]
    · rw [same.snapshotStorages, roots.storage]

variable [Wasmer]

theorem apply_locked_same (same : SameState left right) (coherent : left.tree.Coherent) (otherCoherent : right.tree.Coherent)
    (block : BlockNode) (utxo : UtxoSet) : Ends SameState (left.applyLocked block utxo) (right.applyLocked block utxo) := by
  have started : Twins left.startBlock right.startBlock := ⟨{ same with blockGasFees := rfl }, rfl⟩
  have ran := apply_transactions_related twins_simulate block.transactions started utxo
  obtain ⟨_, kept, _⟩ := apply_transactions_frame block.transactions left.startBlock utxo
  obtain ⟨_, otherKept, _⟩ := apply_transactions_frame block.transactions right.startBlock utxo
  unfold applyLocked
  rw [VerkleTree.clone_ok, VerkleTree.clone_ok]
  dsimp only
  rcases first : applyTransactions block.transactions left.startBlock utxo with ⟨outcome, applied, set⟩
  rcases second : applyTransactions block.transactions right.startBlock utxo with ⟨again, otherApplied, otherSet⟩
  rw [first] at ran kept
  rw [second] at ran otherKept
  obtain ⟨outcomes, managers, sets⟩ := ran
  dsimp only at outcomes managers sets kept otherKept
  subst outcomes sets
  -- what is put back when the block fails
  have restored : ∀ tree other : VerkleTree S, SameState (left.restoreSaved left.tree.cloned { applied with tree })
      (right.restoreSaved right.tree.cloned { otherApplied with tree := other }) := fun _ _ =>
    ⟨same.contents.cloned.storage, same.prunedKeys, same.currentHeight, managers.snapshots, managers.snapshotStorages,
      same.currentTotalSupply, same.blockGasFees⟩
  cases outcome with
  | error abort =>
    cases abort with
    | panic => exact ⟨rfl, managers.toSameState, rfl⟩
    | err error => exact ⟨rfl, restored _ _, rfl⟩
  | ok _ =>
    dsimp only
    have transition := managers.transition
    have written := (kept coherent).apply_state_transition applied.pendingUpdates applied.currentTotalSupply
    have otherWritten :=
      (otherKept otherCoherent).apply_state_transition otherApplied.pendingUpdates otherApplied.currentTotalSupply
    rw [← same.currentHeight]
    rcases third : applied.tree.applyStateTransition applied.pendingUpdates applied.currentTotalSupply with ⟨outcome, tree⟩
    rcases fourth : otherApplied.tree.applyStateTransition otherApplied.pendingUpdates otherApplied.currentTotalSupply
      with ⟨again, other⟩
    rw [third] at transition written
    rw [fourth] at transition otherWritten
    obtain ⟨outcomes, trees⟩ := transition
    dsimp only at outcomes
    subst outcomes
    cases outcome with
    | error error => exact ⟨rfl, restored tree other, rfl⟩
    | ok _ =>
      dsimp only
      have replaced := same_state_simulates.replace _ _ tree other managers.toSameState trees
      exact record_snapshot_same replaced written otherWritten set left.currentHeight

/-- Managers in the same state answer a block alike and stay in the same state. -/
theorem apply_block_same (sound : left.Sound) (otherSound : right.Sound) (same : SameState left right) (block : BlockNode)
    (utxo : UtxoSet) : Ends SameState (left.applyBlock block utxo) (right.applyBlock block utxo) := by
  have flagged : SameState ({ left with applyingBlock := true } : StateManager S) { right with applyingBlock := true } :=
    { same with }
  have ran := apply_locked_same flagged sound.coherent otherSound.coherent block utxo
  unfold applyBlock
  rw [if_neg (by rw [sound.idle]; decide), if_neg (by rw [otherSound.idle]; decide)]
  exact ⟨ran.outcome, { ran.managers with }, ran.others⟩

/-- A refused block leaves the manager in its state. -/
theorem refused_same {manager : StateManager S} (sound : manager.Sound) {block : BlockNode} {utxo : UtxoSet}
    (refused : (manager.applyBlock block utxo).1 ≠ .ok ()) :
    SameState manager (manager.applyBlock block utxo).2.1 ∧ (manager.applyBlock block utxo).2.2 = utxo := by
  rcases sound.apply_block_cases block utxo with ⟨later, left, ran⟩ | ⟨error, failed⟩
  · rw [ran] at refused
    exact absurd rfl refused
  · rw [failed]
    exact ⟨same_state_tree manager ⟨sound.coherent.cloned_storage.symm, rfl⟩, rfl⟩

end Blocks

section Ways
variable [Blake3] [Bandersnatch] {S : Type} [Storage S] {left right : StateManager S}

theorem get_root_hash_same (coherent : left.tree.Coherent) (otherCoherent : right.tree.Coherent) (same : SameState left right) :
    left.getRootHash.1 = right.getRootHash.1 ∧ SameState left.getRootHash.2 right.getRootHash.2 := by
  refine ⟨?_, (Alike.same_state (alike_get_root_hash left)).symm.trans
    (same.trans (Alike.same_state (alike_get_root_hash right)))⟩
  rw [get_root_hash_eq left coherent.get_root.1, get_root_hash_eq right otherCoherent.get_root.1, same.nodes]

theorem asked_state (manager : StateManager S) : SameState manager manager.getCurrentState.2 := by
  have contents := VerkleTree.same_contents_get_root manager.tree
  unfold getCurrentState
  rcases rooted : manager.tree.getRoot with ⟨outcome, tree⟩
  rw [rooted] at contents
  cases outcome <;> exact same_state_tree manager contents

theorem get_current_state_same (coherent : left.tree.Coherent) (otherCoherent : right.tree.Coherent)
    (same : SameState left right) :
    left.getCurrentState.1 = right.getCurrentState.1 ∧ SameState left.getCurrentState.2 right.getCurrentState.2 := by
  refine ⟨?_, (asked_state left).symm.trans (same.trans (asked_state right))⟩
  rw [get_current_state_ok left coherent, get_current_state_ok right otherCoherent, same.nodes, same.currentHeight,
    same.currentTotalSupply, same.blockGasFees]

theorem cross_checked (manager : StateManager S) (utxo : UtxoSet) :
    SameState manager (manager.crossCheckSupplyConsistency utxo).2 := by
  have stays := same_state_tree manager (.refl manager.tree)
  have asked := Alike.same_state (alike_get_root_hash manager)
  unfold crossCheckSupplyConsistency
  dsimp only
  split
  · exact stays
  split
  · exact stays
  split <;> rename_i same <;> rw [same] at asked
  · exact asked
  · split
    · exact asked
    · split <;> exact asked

theorem cross_check_same (coherent : left.tree.Coherent) (otherCoherent : right.tree.Coherent) (same : SameState left right)
    (utxo : UtxoSet) :
    (left.crossCheckSupplyConsistency utxo).1 = (right.crossCheckSupplyConsistency utxo).1 ∧
      SameState (left.crossCheckSupplyConsistency utxo).2 (right.crossCheckSupplyConsistency utxo).2 := by
  refine ⟨?_, (cross_checked left utxo).symm.trans (same.trans (cross_checked right utxo))⟩
  unfold crossCheckSupplyConsistency
  rw [get_root_hash_eq left coherent.get_root.1, get_root_hash_eq right otherCoherent.get_root.1, same.nodes,
    same.currentTotalSupply]
  dsimp only
  rw [same.snapshots]
  split
  · rfl
  split
  · rfl
  cases right.snapshots.getLast? with
  | none => rfl
  | some snapshot =>
    dsimp only
    split <;> rfl

theorem rollback_state_same (sound : left.Sound) (otherSound : right.Sound) (same : SameState left right) (height : Nat) :
    (left.rollbackState height).1 = (right.rollbackState height).1 ∧
      SameState (left.rollbackState height).2 (right.rollbackState height).2 := by
  by_cases within : height ≤ left.currentHeight
  · obtain ⟨snapshot, storage, found, there, _, records⟩ := sound.at_height within
    rw [rollback_state_ok sound found there records, rollback_state_ok otherSound (same.snapshots ▸ found)
      (same.snapshotStorages ▸ there) records]
    exact ⟨rfl, same.rolled_back height snapshot _⟩
  · have beyond := Nat.lt_of_not_le within
    unfold rollbackState
    rw [if_pos beyond, if_pos (same.currentHeight ▸ beyond), same.currentHeight]
    exact ⟨rfl, same⟩

theorem rollback_same (sound : left.Sound) (otherSound : right.Sound) (same : SameState left right) (height : Nat) :
    (left.rollback height).1 = (right.rollback height).1 ∧
      SameState (left.rollback height).2 (right.rollback height).2 := by
  by_cases within : height ≤ left.currentHeight
  · obtain ⟨snapshot, storage, found, there, _, records⟩ := sound.at_height within
    rw [rollback_ok sound found there records, rollback_ok otherSound (same.snapshots ▸ found)
      (same.snapshotStorages ▸ there) records]
    exact ⟨rfl, same.rolled_back height snapshot _⟩
  · have beyond := Nat.lt_of_not_le within
    unfold rollback
    rw [if_pos beyond, if_pos (same.currentHeight ▸ beyond), same.currentHeight]
    exact ⟨rfl, same⟩

theorem restore_from_snapshot_same (same : SameState left right) (snapshotRoot : Hash) (height : Nat) :
    (left.restoreFromSnapshot snapshotRoot height).1 = (right.restoreFromSnapshot snapshotRoot height).1 ∧
      SameState (left.restoreFromSnapshot snapshotRoot height).2 (right.restoreFromSnapshot snapshotRoot height).2 := by
  unfold restoreFromSnapshot
  rw [same.snapshots, same.snapshotStorages]
  split
  · exact ⟨rfl, same⟩
  split
  · exact ⟨rfl, same⟩
  rw [VerkleTree.new_ok]
  exact ⟨rfl, ⟨rfl, rfl, rfl, rfl, rfl, same.currentTotalSupply, same.blockGasFees⟩⟩

end Ways

section Validation
variable [Blake3] [Bandersnatch] [SchnorrScheme] [Channel] {S : Type} [Storage S]

theorem validate_block_same {tree other : VerkleTree S} (same : VerkleTree.SameContents tree other) (ghostDag : GhostDag)
    (order : Enumeration Hash) (block : BlockNode) (dag : Dag) (currentTime : UInt64) :
    ghostDag.validateBlock order block dag tree currentTime = ghostDag.validateBlock order block dag other currentTime := by
  have inputs : GhostDag.checkInput tree = GhostDag.checkInput other := by
    funext input
    rw [GhostDag.checkInput, GhostDag.checkInput, same.get]
  have outputs : GhostDag.checkOutput tree = GhostDag.checkOutput other := by
    funext tx idx
    rw [GhostDag.checkOutput, GhostDag.checkOutput, same.get]
  have proofs : ghostDag.validateVerkleProof block tree = ghostDag.validateVerkleProof block other := by
    rw [GhostDag.validateVerkleProof, GhostDag.validateVerkleProof, inputs, outputs]
  unfold GhostDag.validateBlock
  rw [proofs]

end Validation

section Peers
variable [Blake3] [Bandersnatch] {S : Type} [Storage S] {left right : Session S}

/-- Two sessions in the same state, with the same set of unspent outputs. -/
structure Peers (left right : Session S) : Prop where
  sound : left.manager.Sound
  otherSound : right.manager.Sound
  managers : SameState left.manager right.manager
  sets : left.utxo = right.utxo

theorem Peers.refl {session : Session S} (sound : session.manager.Sound) : Peers session session :=
  ⟨sound, sound, same_state_refl _, rfl⟩

theorem Peers.symm (peers : Peers left right) : Peers right left :=
  ⟨peers.otherSound, peers.sound, peers.managers.symm, peers.sets.symm⟩

theorem Peers.trans {third : Session S} (peers : Peers left right) (further : Peers right third) : Peers left third :=
  ⟨peers.sound, further.otherSound, peers.managers.trans further.managers, peers.sets.trans further.sets⟩

end Peers

section Sessions
variable [Blake3] [Bandersnatch] [SchnorrScheme] [Channel] [Wasmer] {S : Type} [Storage S] {left right : Session S}

/-- What a call answers. -/
inductive Answer where
  | none
  | outcome (outcome : Outcome Unit)
  | pruned (outcome : Outcome (List OutPoint))
  | root (outcome : Except StateManagerError Hash)
  | state (outcome : Except StateManagerError StateSnapshot)

def answer (session : Session S) : Call → Answer
  | .applyBlock block => .outcome (session.manager.applyBlock block session.utxo).1
  | .validateAndApplyBlock clock order block dag consensus =>
    .outcome (session.manager.validateAndApplyBlock clock order block session.utxo dag consensus).1
  | .applyTransaction tx => .outcome (session.manager.applyTransaction tx session.utxo).1
  | .rollbackState targetHeight => .outcome (session.manager.rollbackState targetHeight).1
  | .rollback targetHeight => .outcome (session.manager.rollback targetHeight).1
  | .restoreFromSnapshot snapshotRoot height => .outcome (session.manager.restoreFromSnapshot snapshotRoot height).1
  | .markOutpointForPruning _ _ _ => .none
  | .executePruningCycle order epochThreshold =>
    .pruned (session.manager.executePruningCycle order epochThreshold session.utxo).1
  | .stateWrite _ _ => .none
  | .getRootHash => .root session.manager.getRootHash.1
  | .getCurrentState => .state session.manager.getCurrentState.1
  | .crossCheckSupplyConsistency => .outcome (session.manager.crossCheckSupplyConsistency session.utxo).1
  | .passUtxo _ => .none

/-- What a sequence of calls answers. -/
def answers (session : Session S) (calls : List Call) : List Answer :=
  Runs.gather Session.step (fun session call => [answer session call]) session calls

/-- The calls that read the indices. -/
def ReadsIndices : Call → Prop
  | .executePruningCycle _ _ => True
  | _ => False

/-- Peers give the same answer to a call that does not read the indices, and stay peers. -/
theorem step_same (peers : Peers left right) {call : Call} (unindexed : ¬ ReadsIndices call) :
    answer left call = answer right call ∧ Peers (left.step call) (right.step call) := by
  obtain ⟨manager, utxo⟩ := left
  obtain ⟨other, set⟩ := right
  obtain ⟨sound, otherSound, same, sets⟩ := peers
  dsimp only at sound otherSound same sets
  subst sets
  have kept : (Session.step ⟨manager, utxo⟩ call).manager.Sound := step_sound sound call
  have otherKept : (Session.step ⟨other, utxo⟩ call).manager.Sound := step_sound otherSound call
  suffices ends : answer ⟨manager, utxo⟩ call = answer ⟨other, utxo⟩ call ∧
      SameState (Session.step ⟨manager, utxo⟩ call).manager (Session.step ⟨other, utxo⟩ call).manager ∧
      (Session.step ⟨manager, utxo⟩ call).utxo = (Session.step ⟨other, utxo⟩ call).utxo from
    ⟨ends.1, kept, otherKept, ends.2.1, ends.2.2⟩
  have applied := fun block => apply_block_same sound otherSound same block utxo
  cases call with
  | applyBlock block => exact ⟨congrArg Answer.outcome (applied block).outcome, (applied block).managers, (applied block).others⟩
  | validateAndApplyBlock clock order block dag consensus =>
    dsimp only [answer, Session.step]
    unfold validateAndApplyBlock
    cases clock with
    | error error => exact ⟨rfl, same, rfl⟩
    | ok currentTime =>
      dsimp only
      rw [validate_block_same same.contents]
      split
      · exact ⟨rfl, same, rfl⟩
      split
      · exact ⟨rfl, same, rfl⟩
      · exact ⟨rfl, same, rfl⟩
      · exact ⟨congrArg Answer.outcome (applied block).outcome, (applied block).managers, (applied block).others⟩
  | applyTransaction tx =>
    have ends := apply_transaction_related same_state_simulates tx same utxo
    exact ⟨congrArg Answer.outcome ends.outcome, ends.managers, ends.others⟩
  | rollbackState targetHeight =>
    have ends := rollback_state_same sound otherSound same targetHeight
    exact ⟨congrArg Answer.outcome ends.1, ends.2, rfl⟩
  | rollback targetHeight =>
    have ends := rollback_same sound otherSound same targetHeight
    exact ⟨congrArg Answer.outcome ends.1, ends.2, rfl⟩
  | restoreFromSnapshot snapshotRoot height =>
    have ends := restore_from_snapshot_same same snapshotRoot height
    exact ⟨congrArg Answer.outcome ends.1, ends.2, rfl⟩
  | markOutpointForPruning outpoint epoch timestamp => exact ⟨rfl, { same with }, rfl⟩
  | executePruningCycle order epochThreshold => exact absurd trivial unindexed
  | stateWrite key value => exact ⟨rfl, same_state_simulates.state_write same key value, rfl⟩
  | getRootHash =>
    have ends := get_root_hash_same sound.coherent otherSound.coherent same
    exact ⟨congrArg Answer.root ends.1, ends.2, rfl⟩
  | getCurrentState =>
    have ends := get_current_state_same sound.coherent otherSound.coherent same
    exact ⟨congrArg Answer.state ends.1, ends.2, rfl⟩
  | crossCheckSupplyConsistency =>
    have ends := cross_check_same sound.coherent otherSound.coherent same utxo
    exact ⟨congrArg Answer.outcome ends.1, ends.2, rfl⟩
  | passUtxo utxo => exact ⟨rfl, same, rfl⟩

theorem run_same (peers : Peers left right) {calls : List Call} (unindexed : ∀ call ∈ calls, ¬ ReadsIndices call) :
    answers left calls = answers right calls ∧
      Peers (Runs.run Session.step left calls) (Runs.run Session.step right calls) := by
  induction calls using List.reverseRecOn with
  | nil => exact ⟨rfl, peers⟩
  | append_singleton calls call ih =>
    obtain ⟨same, further⟩ := ih fun other member => unindexed other (List.mem_append_left _ member)
    obtain ⟨answered, stay⟩ := step_same further (unindexed call (by simp))
    rw [answers, answers, Runs.gather_snoc, Runs.gather_snoc, Runs.run_snoc, Runs.run_snoc, answered]
    exact ⟨congrArg (· ++ _) same, stay⟩

/-- Calls that change caches and indices at most: questions, marks, and whatever is refused. -/
def Idle (session : Session S) : Call → Prop
  | .applyBlock block => (session.manager.applyBlock block session.utxo).1 ≠ .ok ()
  | .validateAndApplyBlock clock order block dag consensus =>
    (session.manager.validateAndApplyBlock clock order block session.utxo dag consensus).1 ≠ .ok ()
  | .applyTransaction _ => False
  | .rollbackState targetHeight => (session.manager.rollbackState targetHeight).1 ≠ .ok ()
  | .rollback targetHeight => (session.manager.rollback targetHeight).1 ≠ .ok ()
  | .restoreFromSnapshot snapshotRoot height => (session.manager.restoreFromSnapshot snapshotRoot height).1 ≠ .ok ()
  | .markOutpointForPruning _ _ _ => True
  | .executePruningCycle _ _ => False
  | .stateWrite _ _ => False
  | .getRootHash => True
  | .getCurrentState => True
  | .crossCheckSupplyConsistency => True
  | .passUtxo _ => False

/-- What is left of a sequence of calls when idle ones are left out. -/
inductive Effective : Session S → List Call → List Call → Prop where
  | none (session : Session S) : Effective session [] []
  | skip {session : Session S} {call : Call} {rest kept : List Call} (idle : Idle session call)
      (further : Effective (session.step call) rest kept) : Effective session (call :: rest) kept
  | take {session : Session S} {call : Call} {rest kept : List Call} (further : Effective (session.step call) rest kept) :
      Effective session (call :: rest) (call :: kept)

/-- An idle call leaves the session where it was. -/
theorem idle_same {session : Session S} (sound : session.manager.Sound) {call : Call} (idle : Idle session call) :
    SameState session.manager (session.step call).manager ∧ (session.step call).utxo = session.utxo := by
  have stays : SameState session.manager session.manager := same_state_refl _
  have asked := get_root_hash_same sound.coherent sound.coherent stays
  cases call with
  | applyBlock block => exact refused_same sound idle
  | validateAndApplyBlock clock order block dag consensus =>
    dsimp only [Idle, Session.step] at idle ⊢
    rcases validate_and_apply_block_cases session.manager clock order block session.utxo dag consensus with
      ⟨error, refused⟩ | ⟨_, applied⟩
    · rw [refused]
      exact ⟨stays, rfl⟩
    · rw [applied] at idle ⊢
      exact refused_same sound idle
  | rollbackState targetHeight =>
    dsimp only [Idle, Session.step] at idle ⊢
    by_cases within : targetHeight ≤ session.manager.currentHeight
    · obtain ⟨snapshot, storage, found, there, _, records⟩ := sound.at_height within
      rw [rollback_state_ok sound found there records] at idle
      exact absurd rfl idle
    · obtain ⟨error, refused⟩ := rollback_state_beyond (Nat.lt_of_not_le within)
      rw [refused]
      exact ⟨stays, rfl⟩
  | rollback targetHeight =>
    dsimp only [Idle, Session.step] at idle ⊢
    by_cases within : targetHeight ≤ session.manager.currentHeight
    · obtain ⟨snapshot, storage, found, there, _, records⟩ := sound.at_height within
      rw [rollback_ok sound found there records] at idle
      exact absurd rfl idle
    · obtain ⟨error, refused⟩ := rollback_beyond (Nat.lt_of_not_le within)
      rw [refused]
      exact ⟨stays, rfl⟩
  | restoreFromSnapshot snapshotRoot height =>
    dsimp only [Idle, Session.step] at idle ⊢
    rcases restore_from_snapshot_cases sound snapshotRoot height with
      ⟨⟨error, refused⟩, _⟩ | ⟨snapshot, storage, _, _, _, _, restored⟩
    · rw [refused]
      exact ⟨stays, rfl⟩
    · rw [restored] at idle
      exact absurd rfl idle
  | markOutpointForPruning outpoint epoch timestamp => exact ⟨{ stays with }, rfl⟩
  | getRootHash => exact ⟨Alike.same_state (alike_get_root_hash session.manager), rfl⟩
  | getCurrentState => exact ⟨asked_state session.manager, rfl⟩
  | crossCheckSupplyConsistency => exact ⟨cross_checked session.manager session.utxo, rfl⟩
  | applyTransaction tx => exact absurd idle id
  | executePruningCycle order epochThreshold => exact absurd idle id
  | stateWrite key value => exact absurd idle id
  | passUtxo utxo => exact absurd idle id

/-- Leaving idle calls out leads to the same state. -/
theorem run_effective {calls kept : List Call} (effective : Effective left calls kept)
    (unindexed : ∀ call ∈ kept, ¬ ReadsIndices call) (peers : Peers left right) :
    Peers (Runs.run Session.step left calls) (Runs.run Session.step right kept) := by
  induction effective generalizing right with
  | none session => exact peers
  | @skip session call rest kept idle _ ih =>
    obtain ⟨stays, set⟩ := idle_same peers.sound idle
    have back : Peers (session.step call) session := ⟨step_sound peers.sound call, peers.sound, stays.symm, set⟩
    exact ih unindexed (back.trans peers)
  | @take session call rest kept _ ih =>
    obtain ⟨_, further⟩ := step_same peers (unindexed call List.mem_cons_self)
    exact ih (fun other member => unindexed other (List.mem_cons_of_mem _ member)) further

end Sessions

section Agreement
variable [Blake3] [Bandersnatch] [SchnorrScheme] [Channel] [Wasmer] {S : Type} [Storage S]

/-- Replicas agree: two managers that took in the same calls are in the same state and answer alike from then on, whatever
else they were asked, whatever they marked, and whatever they refused in between. -/
theorem replicas_agree {tree : VerkleTree S} (built : VerkleTree.Built tree) {manager : StateManager S}
    (made : StateManager.new tree = .ok manager) (initial : UtxoSet) (first second kept further : List Call)
    (firstKept : Effective ⟨manager, initial⟩ first kept) (secondKept : Effective ⟨manager, initial⟩ second kept)
    (unindexed : ∀ call ∈ kept ++ further, ¬ ReadsIndices call) :
    let left := Runs.run Session.step ⟨manager, initial⟩ first
    let right := Runs.run Session.step ⟨manager, initial⟩ second
    SameState left.manager right.manager ∧ left.utxo = right.utxo ∧ answers left further = answers right further := by
  intro left right
  have start : Peers ⟨manager, initial⟩ ⟨manager, initial⟩ := .refl (run_sound built made initial [])
  have taken : ∀ call ∈ kept, ¬ ReadsIndices call := fun call member => unindexed call (List.mem_append_left _ member)
  have peers : Peers left right := (run_effective firstKept taken start).trans (run_effective secondKept taken start).symm
  obtain ⟨same, _⟩ := run_same peers fun call member => unindexed call (List.mem_append_right _ member)
  exact ⟨peers.managers, peers.sets, same⟩

end Agreement

section Samples
open Klomang.Sample

/-- One manager is asked for its root and marks an outpoint before the first coinbase, the other does not. -/
theorem reward_replicated :
    let left := Runs.run Session.step ⟨manager, .new⟩
      [.getRootHash, .markOutpointForPruning ((reward 5).id, 0) 3 4, .applyBlock (blockOf [reward 5])]
    let right := Runs.run Session.step ⟨manager, .new⟩ [.applyBlock (blockOf [reward 5])]
    answers left [.applyBlock (blockOf [reward 7]), .getRootHash] =
      answers right [.applyBlock (blockOf [reward 7]), .getRootHash] :=
  (replicas_agree manager_built manager_made .new
    [.getRootHash, .markOutpointForPruning ((reward 5).id, 0) 3 4, .applyBlock (blockOf [reward 5])]
    [.applyBlock (blockOf [reward 5])] [.applyBlock (blockOf [reward 5])] [.applyBlock (blockOf [reward 7]), .getRootHash]
    (.skip trivial (.skip trivial (.take (.none _)))) (.take (.none _)) (by simp [ReadsIndices])).2.2

end Samples

end Klomang.StateManager
