import Klomang.State.VTrieContents
import Klomang.StateManager.Blocks

/-! The ways `apply_block` can end: the manager as it was, its tree cloned, or the
block's moves played, its updates written and a snapshot recorded. -/
namespace Klomang.StateManager

section Burning

/-- No update of a block pays the burn address. -/
def NoBurn (moves : List (Move OutPoint TxOutput)) : Prop :=
  ∀ outpoint output, .put outpoint output ∈ moves → output.pubkeyHash ≠ EconomicConstants.burnAddress

/-- The burn check of the state transition reads the created outputs back. -/
theorem burn_update_none [Blake3] (moves : List (Move OutPoint TxOutput)) :
    VerkleTree.burnUpdate (writes moves) = none ↔ NoBurn moves := by
  rw [VerkleTree.burnUpdate, Option.map_eq_none_iff, List.find?_eq_none]
  constructor
  · intro safe outpoint output member burned
    refine safe (outpoint.key, output.serialize) (List.mem_filterMap.mpr ⟨_, member, rfl⟩) ?_
    simp [deserialize_serialize, burned]
  · intro safe update member
    obtain ⟨move, listed, written⟩ := List.mem_filterMap.mp member
    cases move with
    | take outpoint => cases written
    | put outpoint output =>
      cases written
      simp [deserialize_serialize, safe outpoint output listed]

theorem writes_short [Blake3] {moves : List (Move OutPoint TxOutput)} :
    ∀ update ∈ writes moves, update.2.length < 2 ^ 32 := by
  intro update member
  obtain ⟨move, _, written⟩ := List.mem_filterMap.mp member
  cases move with
  | take outpoint => cases written
  | put outpoint output =>
    cases written
    simp

end Burning

variable [Blake3] [Bandersnatch] {S : Type}

/-- The rollback undoes all that the transactions of a block change. -/
theorem restore_saved_eq {saved applied : StateManager S} (chain : SameChain saved applied)
    (snapshotTree : VerkleTree S) :
    saved.restoreSaved snapshotTree applied = { saved with tree := snapshotTree } := by
  rw [restoreSaved, chain.snapshots, chain.storages, chain.flag]

variable [Storage S]

/-- What a block that was applied did. -/
structure Applied (manager : StateManager S) (utxo : UtxoSet) (block : BlockNode)
    (later : StateManager S) (left : UtxoSet) : Prop where
  idle : manager.applyingBlock = false
  played : (manager.books utxo).ledger block.moves = some (later.books left)
  noBurn : NoBurn block.moves
  capped : later.currentTotalSupply ≤ EconomicConstants.maxGlobalSupplyNanoSlug
  written : ∃ tree, later.tree.storage =
        (tree.applyStateTransition (writes block.moves) later.currentTotalSupply).2.storage ∧
      later.tree.prunedKeys = tree.prunedKeys ∧
      (manager.tree.Coherent → tree.Coherent ∧ later.tree.Coherent) ∧
      ((∀ tx ∈ block.transactions, tx.Plain) → tree = manager.tree)
  height : later.currentHeight = manager.currentHeight + 1
  recorded : ∃ root, later.snapshots = manager.snapshots ++
        [⟨later.currentHeight, root, later.currentTotalSupply, later.blockGasFees⟩] ∧
      (manager.tree.Coherent → root = VerkleTree.storageRoot later.tree.storage)
  stored : later.snapshotStorages = manager.snapshotStorages ++ [later.tree.storage]
  released : later.applyingBlock = false

/-- The books accept a block: its moves can be made, none pays the burn address, and the supply
stays within the cap. -/
def Acceptable (books : Books OutPoint TxOutput) (block : BlockNode) : Prop :=
  ∃ after, books.ledger block.moves = some after ∧ NoBurn block.moves ∧
    after.account ≤ EconomicConstants.maxGlobalSupplyNanoSlug

theorem Applied.acceptable {manager later : StateManager S} {utxo left : UtxoSet} {block : BlockNode}
    (applied : Applied manager utxo block later left) :
    Acceptable (manager.books utxo) block := ⟨_, applied.played, applied.noBurn, applied.capped⟩

section Recording
variable {manager later : StateManager S} {utxo left : UtxoSet}

/-- What recording a snapshot leaves, when it succeeds. -/
theorem record_snapshot_ok {height : Nat} (ran : manager.recordSnapshot utxo height = (.ok (), later, left)) :
    left = utxo ∧ ∃ root tree, tree.storage = manager.tree.storage ∧
      tree.prunedKeys = manager.tree.prunedKeys ∧
      (manager.tree.Coherent → tree.Coherent ∧ root = VerkleTree.storageRoot tree.storage) ∧
      later = { manager with
        tree
        currentHeight := manager.currentHeight + 1
        snapshots := manager.snapshots ++
          [⟨manager.currentHeight + 1, root, manager.currentTotalSupply, manager.blockGasFees⟩]
        snapshotStorages := manager.snapshotStorages ++ [tree.storage] } := by
  have storage := VerkleTree.get_root_storage manager.tree
  have pruned := VerkleTree.get_root_pruned manager.tree
  have coherent : manager.tree.Coherent → manager.tree.getRoot.1 =
      .ok (VerkleTree.storageRoot manager.tree.getRoot.2.storage) ∧ manager.tree.getRoot.2.Coherent := by
    intro coherent
    rw [storage]
    exact coherent.get_root
  unfold recordSnapshot getRootHash at ran
  dsimp only at ran
  rcases rooted : manager.tree.getRoot with ⟨outcome, tree⟩
  rw [rooted] at ran storage pruned coherent
  cases outcome with
  | error error => cases ran
  | ok root =>
    dsimp only at ran
    split at ran
    · cases ran
    · cases ran
      refine ⟨rfl, root, tree, storage, pruned, fun kept => ?_, rfl⟩
      obtain ⟨found, still⟩ := coherent kept
      exact ⟨still, Except.ok.inj found⟩

/-- A coherent manager whose height is recorded always gets a snapshot. -/
theorem record_snapshot_succeeds (manager : StateManager S) (coherent : manager.tree.Coherent) (utxo : UtxoSet) {height : Nat}
    (indexed : height < manager.snapshots.length) :
    ∃ later, manager.recordSnapshot utxo height = (.ok (), later, utxo) := by
  have rooted := coherent.get_root.1
  unfold recordSnapshot getRootHash
  dsimp only
  rcases found : manager.tree.getRoot with ⟨outcome, tree⟩
  rw [found] at rooted
  dsimp only at rooted
  subst rooted
  dsimp only
  rw [List.getElem?_eq_getElem indexed]
  exact ⟨_, rfl⟩

end Recording

section Blocks
variable [Wasmer] {manager later : StateManager S} {utxo left : UtxoSet} {block : BlockNode}

/-- How a block gets applied: its transactions go through, then the state transition, and a
snapshot of what they leave is recorded. -/
theorem apply_block_ran (ran : manager.applyBlock block utxo = (.ok (), later, left)) :
    manager.applyingBlock = false ∧ ∃ applied tree recorded,
      applyTransactions block.transactions ({ manager with applyingBlock := true } : StateManager S).startBlock
        utxo = (.ok (), applied, left) ∧
      applied.tree.applyStateTransition applied.pendingUpdates applied.currentTotalSupply = (.ok (), tree) ∧
      ({ applied with tree } : StateManager S).recordSnapshot left manager.currentHeight =
        (.ok (), recorded, left) ∧
      later = { recorded with applyingBlock := false } := by
  unfold applyBlock applyLocked at ran
  split at ran
  · cases ran
  rename_i idle
  rw [VerkleTree.clone_ok] at ran
  dsimp only at ran
  rcases txs : applyTransactions block.transactions
    ({ manager with applyingBlock := true } : StateManager S).startBlock utxo with ⟨outcome, applied, appliedUtxo⟩
  rw [txs] at ran
  cases outcome with
  | error abort => cases abort <;> cases ran
  | ok _ =>
    dsimp only at ran
    rcases transition : applied.tree.applyStateTransition applied.pendingUpdates applied.currentTotalSupply
      with ⟨outcome, tree⟩
    rw [transition] at ran
    cases outcome with
    | error error => cases ran
    | ok _ =>
      dsimp only at ran
      rcases recording : ({ applied with tree } : StateManager S).recordSnapshot appliedUtxo manager.currentHeight
        with ⟨outcome, recorded, recordedUtxo⟩
      rw [recording] at ran
      cases ran
      obtain ⟨same, _⟩ := record_snapshot_ok recording
      cases same
      exact ⟨by simpa using idle, applied, tree, recorded, rfl, transition, recording, rfl⟩

/-- A block that is applied does what `Applied` says. -/
theorem apply_block_ok (ran : manager.applyBlock block utxo = (.ok (), later, left)) :
    Applied manager utxo block later left := by
  obtain ⟨idle, applied, tree, recorded, txs, transition, recording, rfl⟩ := apply_block_ran ran
  obtain ⟨chain, kept, _⟩ := apply_transactions_frame block.transactions
    ({ manager with applyingBlock := true } : StateManager S).startBlock utxo
  rw [txs] at chain kept
  obtain ⟨played, pending⟩ := apply_transactions_played txs
  have pendingEq : applied.pendingUpdates = writes block.moves := pending
  have through := congrArg Prod.fst transition
  rw [VerkleTree.apply_state_transition_ok_iff, pendingEq, burn_update_none] at through
  obtain ⟨_, root, rooted, storage, pruned, coherent, rfl⟩ := record_snapshot_ok recording
  have transitioned : tree =
      (applied.tree.applyStateTransition (writes block.moves) applied.currentTotalSupply).2 := by
    rw [← pendingEq, transition]
  have stays : manager.tree.Coherent → tree.Coherent := fun initially =>
    transitioned ▸ (kept initially).apply_state_transition _ _
  refine ⟨idle, played, through.1, through.2, ⟨applied.tree, ?_, ?_, ?_, ?_⟩, ?_, ⟨root, ?_, ?_⟩, ?_, rfl⟩
  · exact storage.trans (congrArg VerkleTree.storage transitioned)
  · rw [pruned]
    exact (congrArg VerkleTree.prunedKeys transitioned).trans
      (VerkleTree.apply_state_transition_pruned _ _ _)
  · exact fun initially => ⟨kept initially, (coherent (stays initially)).1⟩
  · intro plain
    obtain ⟨other, otherUtxo, again, unchanged, _⟩ := apply_plain_transactions_ok _ plain played
    rw [txs] at again
    cases again
    exact unchanged
  · exact congrArg (· + 1) chain.height
  · dsimp only
    rw [chain.snapshots]
    rfl
  · exact fun initially => (coherent (stays initially)).2
  · dsimp only
    rw [chain.storages]
    rfl

/-- A block that is not applied leaves an idle manager as it was, its tree cloned. -/
theorem apply_block_failed (coherent : manager.tree.Coherent)
    (indexed : manager.currentHeight < manager.snapshots.length) (idle : manager.applyingBlock = false)
    (failed : (manager.applyBlock block utxo).1 ≠ .ok ()) :
    ∃ error, manager.applyBlock block utxo =
      (.error (.err error), { manager with tree := manager.tree.cloned }, utxo) := by
  have released : ({ manager with tree := manager.tree.cloned } : StateManager S) =
      { manager with tree := manager.tree.cloned, applyingBlock := false } := by rw [← idle]
  rw [released]
  unfold applyBlock applyLocked at failed ⊢
  rw [if_neg (by simp [idle]), VerkleTree.clone_ok] at failed ⊢
  dsimp only at failed ⊢
  obtain ⟨chain, kept, sound⟩ := apply_transactions_frame block.transactions
    ({ manager with applyingBlock := true } : StateManager S).startBlock utxo
  rcases txs : applyTransactions block.transactions
    ({ manager with applyingBlock := true } : StateManager S).startBlock utxo with ⟨outcome, applied, appliedUtxo⟩
  rw [txs] at failed chain kept sound
  have started : SameChain ({ manager with applyingBlock := true } : StateManager S) applied :=
    ⟨chain.height, chain.snapshots, chain.storages, chain.flag⟩
  cases outcome with
  | error abort =>
    cases abort with
    | panic => exact absurd rfl sound
    | err error =>
      refine ⟨error, ?_⟩
      dsimp only
      rw [restore_saved_eq started]
  | ok _ =>
    dsimp only at failed ⊢
    rcases transition : applied.tree.applyStateTransition applied.pendingUpdates applied.currentTotalSupply
      with ⟨outcome, tree⟩
    rw [transition] at failed
    cases outcome with
    | error error =>
      refine ⟨.applyBlockFailed ("State transition failed: " ++ toString error), ?_⟩
      have stillStarted : SameChain ({ manager with applyingBlock := true } : StateManager S)
          { applied with tree } := ⟨started.height, started.snapshots, started.storages, started.flag⟩
      dsimp only
      rw [restore_saved_eq stillStarted]
    | ok _ =>
      -- the tree is coherent, so nothing after the transition can fail
      have stays : tree.Coherent := by
        have transitioned := (kept coherent).apply_state_transition applied.pendingUpdates
          applied.currentTotalSupply
        rwa [transition] at transitioned
      obtain ⟨recorded, recording⟩ := record_snapshot_succeeds { applied with tree } stays
        appliedUtxo
        (by rw [chain.snapshots]; exact indexed)
      dsimp only at failed
      rw [recording] at failed
      exact absurd rfl failed

/-- A block whose transactions go through is applied when the state transition is. -/
theorem apply_block_through (coherent : manager.tree.Coherent) (indexed : manager.currentHeight < manager.snapshots.length)
    (idle : manager.applyingBlock = false)
    (txs : applyTransactions block.transactions ({ manager with applyingBlock := true } : StateManager S).startBlock utxo =
      (.ok (), later, left))
    (noBurn : NoBurn block.moves) (capped : later.currentTotalSupply ≤ EconomicConstants.maxGlobalSupplyNanoSlug) :
    ∃ final, manager.applyBlock block utxo = (.ok (), final, left) := by
  obtain ⟨chain, kept, _⟩ := apply_transactions_frame block.transactions
    ({ manager with applyingBlock := true } : StateManager S).startBlock utxo
  obtain ⟨_, pending⟩ := apply_transactions_played txs
  have pendingEq : later.pendingUpdates = writes block.moves := pending
  have through : (later.tree.applyStateTransition later.pendingUpdates later.currentTotalSupply).1 = .ok () := by
    rw [VerkleTree.apply_state_transition_ok_iff, pendingEq, burn_update_none]
    exact ⟨noBurn, capped⟩
  rw [txs] at chain kept
  have stays : (later.tree.applyStateTransition later.pendingUpdates later.currentTotalSupply).2.Coherent :=
    (kept coherent).apply_state_transition _ _
  unfold applyBlock applyLocked
  rw [if_neg (by simp [idle]), VerkleTree.clone_ok]
  dsimp only
  rw [txs]
  dsimp only
  rcases transition : later.tree.applyStateTransition later.pendingUpdates later.currentTotalSupply with ⟨outcome, tree⟩
  rw [transition] at through stays
  dsimp only at through
  subst through
  obtain ⟨recorded, recording⟩ := record_snapshot_succeeds { later with tree } stays left
    (by rw [chain.snapshots]; exact indexed)
  dsimp only
  rw [recording]
  exact ⟨_, rfl⟩

/-- When a block of plain transactions is applied. -/
theorem apply_block_accepts (plain : ∀ tx ∈ block.transactions, tx.Plain) (coherent : manager.tree.Coherent)
    (indexed : manager.currentHeight < manager.snapshots.length) (idle : manager.applyingBlock = false)
    {after : Books OutPoint TxOutput} (played : (manager.books utxo).ledger block.moves = some after)
    (noBurn : NoBurn block.moves) (capped : after.account ≤ EconomicConstants.maxGlobalSupplyNanoSlug) :
    ∃ later, manager.applyBlock block utxo = (.ok (), later, ⟨after.entries⟩) := by
  obtain ⟨applied, appliedUtxo, txs, _, _⟩ := apply_plain_transactions_ok
    ({ manager with applyingBlock := true } : StateManager S).startBlock plain played
  obtain ⟨finished, _⟩ := apply_transactions_played txs
  have same : after = applied.books appliedUtxo := Option.some.inj (played.symm.trans finished)
  subst same
  exact apply_block_through coherent indexed idle txs noBurn capped

/-- A block of plain transactions is applied exactly when the books accept it. -/
theorem apply_block_ok_iff (plain : ∀ tx ∈ block.transactions, tx.Plain) (coherent : manager.tree.Coherent)
    (indexed : manager.currentHeight < manager.snapshots.length) (idle : manager.applyingBlock = false) :
    (manager.applyBlock block utxo).1 = .ok () ↔ Acceptable (manager.books utxo) block := by
  constructor
  · intro succeeded
    rcases ran : manager.applyBlock block utxo with ⟨outcome, later, left⟩
    rw [ran] at succeeded
    cases succeeded
    exact (apply_block_ok ran).acceptable
  · rintro ⟨after, played, noBurn, capped⟩
    obtain ⟨later, ran⟩ := apply_block_accepts plain coherent indexed idle played noBurn capped
    rw [ran]

end Blocks
end Klomang.StateManager
