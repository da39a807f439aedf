import Klomang.Lib.Edits
import Klomang.StateManager.Supply

/-! The two indices of the manager over the unspent outputs. A block edits them move by
move; the index of the tree keys names exactly the unspent outputs, and `rollback_state`
leaves both as they are. -/
namespace Klomang

section Edits
variable [Blake3]

/-- What a move writes into the index of the tree keys. -/
def Move.indexEdit : Move OutPoint TxOutput → Edit OutPoint Bytes32
  | .take outpoint => (outpoint, none)
  | .put outpoint _ => (outpoint, some outpoint.key)

/-- What a move writes into the prune markers. -/
def Move.markerEdit : Move OutPoint TxOutput → Option (Edit OutPoint PruneMarker)
  | .take outpoint => some (outpoint, none)
  | .put _ _ => none

/-- The index names the unspent outputs, each with its own key. -/
def Indexed (index : FiniteMap OutPoint Bytes32) (utxos : FiniteMap OutPoint TxOutput) : Prop :=
  ∀ outpoint, index.lookup outpoint = (utxos.lookup outpoint).map fun _ => outpoint.key

variable {index : FiniteMap OutPoint Bytes32} {utxos : FiniteMap OutPoint TxOutput}

theorem Indexed.keys (indexed : Indexed index utxos) : index.keys = utxos.keys := by
  ext outpoint
  rw [Finmap.mem_keys, Finmap.mem_keys, ← not_iff_not, ← Finmap.lookup_eq_none, ← Finmap.lookup_eq_none,
    indexed outpoint, Option.map_eq_none_iff]

theorem Indexed.erase (indexed : Indexed index utxos) (outpoint : OutPoint) :
    Indexed (index.erase outpoint) (utxos.erase outpoint) := by
  intro other
  rw [FiniteMap.lookup_erase_ite, FiniteMap.lookup_erase_ite, indexed other]
  split <;> rfl

theorem Indexed.insert (indexed : Indexed index utxos) (outpoint : OutPoint) (output : TxOutput) :
    Indexed (index.insert outpoint outpoint.key) (utxos.insert outpoint output) := by
  intro other
  rw [FiniteMap.lookup_insert_ite, FiniteMap.lookup_insert_ite, indexed other]
  split
  · rename_i same
    rw [same]
    rfl
  · rfl

/-- Moves that can be made keep the index and the outputs in step. -/
theorem Indexed.replayed (books : Books OutPoint TxOutput) {after : Books OutPoint TxOutput}
    {moves : List (Move OutPoint TxOutput)} (indexed : Indexed index books.entries)
    (played : books.ledger moves = some after) :
    Indexed (Edit.replay index (moves.map Move.indexEdit)) after.entries := by
  induction moves generalizing index books with
  | nil =>
    cases played
    exact indexed
  | cons first rest ih =>
    obtain ⟨next, moved, played⟩ := Books.play_cons_iff.mp played
    rw [List.map_cons, Edit.replay_cons]
    cases first with
    | take outpoint =>
      obtain ⟨output, _, rfl⟩ := Option.map_eq_some_iff.mp moved
      refine ih _ ?_ played
      exact indexed.erase outpoint
    | put outpoint output =>
      cases moved
      refine ih _ ?_ played
      exact indexed.insert outpoint output

end Edits

namespace StateManager

section Replays
variable [Blake3] [Bandersnatch] {S : Type}

/-- The moves were written into both indices. -/
structure Reindexed (manager : StateManager S) (moves : List (Move OutPoint TxOutput))
    (later : StateManager S) : Prop where
  index : later.outpointToKey = Edit.replay manager.outpointToKey (moves.map Move.indexEdit)
  markers : later.pruneMarkers = Edit.replay manager.pruneMarkers (moves.filterMap Move.markerEdit)

variable {manager middle later : StateManager S} {utxo left : UtxoSet}
  {moves further : List (Move OutPoint TxOutput)}

theorem Reindexed.append (first : Reindexed manager moves middle) (second : Reindexed middle further later) :
    Reindexed manager (moves ++ further) later where
  index := by rw [second.index, first.index, List.map_append, Edit.replay_append]
  markers := by rw [second.markers, first.markers, List.filterMap_append, Edit.replay_append]

/-- Spending writes the inputs it gets to, up to a missing one. -/
theorem spend_inputs_reindexed (tx : Transaction) (inputs : List TxInput) (manager : StateManager S) (utxo : UtxoSet) :
    Reindexed manager
      (Books.performed TxOutput.amount u128Max (manager.books utxo)
        (inputs.map fun input => .take input.outpoint)) (spendInputs tx inputs manager utxo).2.1 := by
  induction inputs generalizing manager utxo with
  | nil => exact ⟨rfl, rfl⟩
  | cons input rest ih =>
    rw [spendInputs, List.map_cons, Books.performed, Books.move, books]
    dsimp only
    cases found : utxo.utxos.lookup input.outpoint with
    | none => exact ⟨rfl, rfl⟩
    | some output =>
      have taken : Reindexed manager [.take input.outpoint] (manager.spendOutput input.outpoint output) :=
        ⟨rfl, rfl⟩
      exact taken.append (ih _ ⟨utxo.utxos.erase input.outpoint⟩)

theorem create_outputs_reindexed (tx : Transaction) (outputs : List (TxOutput × Nat)) (manager : StateManager S)
    (utxo : UtxoSet) :
    Reindexed manager (outputs.map fun (output, i) => .put (tx.id, UInt32.ofNat i) output)
      (createOutputs tx outputs manager utxo).1 := by
  induction outputs generalizing manager utxo with
  | nil => exact ⟨rfl, rfl⟩
  | cons item rest ih =>
    obtain ⟨output, i⟩ := item
    have put : Reindexed manager [.put (tx.id, UInt32.ofNat i) output]
        (manager.createOutput (tx.hashWithIndex (UInt32.ofNat i)) (tx.id, UInt32.ofNat i) output) :=
      ⟨rfl, rfl⟩
    exact put.append (ih _ _)

theorem apply_utxo_transaction_reindexed (manager : StateManager S) (tx : Transaction) (utxo : UtxoSet) :
    Reindexed manager (Books.performed TxOutput.amount u128Max (manager.books utxo) tx.moves)
      (manager.applyUtxoTransaction tx utxo).2.1 := by
  have spending := spend_inputs_reindexed tx tx.inputs manager utxo
  rw [applyUtxoTransaction, Transaction.moves_eq]
  rcases spent : spendInputs tx tx.inputs manager utxo with ⟨outcome, spender, remaining⟩
  rw [spent] at spending
  cases outcome with
  | error error =>
    cases stuck : (manager.books utxo).ledger (tx.inputs.map fun input => .take input.outpoint) with
    | none => rwa [Books.performed_stuck _ stuck]
    | some after =>
      obtain ⟨index, markers, through⟩ := spend_inputs_ok tx manager utxo stuck
      cases spent.symm.trans through
  | ok _ =>
    have played := spend_inputs_played spent
    obtain ⟨after, index, put, _⟩ := create_outputs_played tx tx.outputs.zipIdx spender remaining
    rw [Books.performed_append _ played, Books.performed_played put]
    rw [Books.performed_played played] at spending
    exact spending.append (create_outputs_reindexed tx tx.outputs.zipIdx spender remaining)

variable [Wasmer] [Storage S]

/-- The moves that applying a transaction makes: none when its contract fails, else all up to
a missing input. -/
def movesMade (manager : StateManager S) (tx : Transaction) (utxo : UtxoSet) : List (Move OutPoint TxOutput) :=
  if tx.executionPayload.isEmpty && tx.contractAddress.isNone then
    Books.performed TxOutput.amount u128Max (manager.books utxo) tx.moves
  else
    match (manager.executeContract tx).1 with
    | .error _ => []
    | .ok () => Books.performed TxOutput.amount u128Max (manager.books utxo) tx.moves

/-- The moves that applying transactions makes, up to the first that fails. -/
def allMovesMade : List Transaction → StateManager S → UtxoSet → List (Move OutPoint TxOutput)
  | [], _, _ => []
  | tx :: rest, manager, utxo =>
    manager.movesMade tx utxo ++
      match manager.applyTransaction tx utxo with
      | (.ok (), later, left) => allMovesMade rest later left
      | (.error _, _, _) => []

/-- A contract does not touch the indices. -/
theorem apply_transaction_reindexed (manager : StateManager S) (tx : Transaction) (utxo : UtxoSet) :
    Reindexed manager (manager.movesMade tx utxo) (manager.applyTransaction tx utxo).2.1 := by
  unfold movesMade applyTransaction applyContractTransition
  split
  · exact apply_utxo_transaction_reindexed manager tx utxo
  · obtain ⟨tree, fees, executed, _⟩ := execute_contract_frame manager tx
    rcases ran : manager.executeContract tx with ⟨outcome, later⟩
    rw [ran] at executed
    dsimp only at executed
    subst executed
    cases outcome with
    | error error => exact ⟨rfl, rfl⟩
    | ok _ =>
      obtain ⟨index, markers⟩ := apply_utxo_transaction_reindexed
        { manager with tree, blockGasFees := fees } tx utxo
      exact ⟨index, markers⟩

/-- Whether transactions go through or stop, the moves they made are in the indices. -/
theorem apply_transactions_reindexed (txs : List Transaction) (manager : StateManager S) (utxo : UtxoSet) :
    Reindexed manager (allMovesMade txs manager utxo) (applyTransactions txs manager utxo).2.1 := by
  induction txs generalizing manager utxo with
  | nil => exact ⟨rfl, rfl⟩
  | cons tx rest ih =>
    have first := apply_transaction_reindexed manager tx utxo
    rw [allMovesMade, applyTransactions]
    rcases ran : manager.applyTransaction tx utxo with ⟨outcome, later, left⟩
    rw [ran] at first
    cases outcome with
    | error error => rwa [List.append_nil]
    | ok _ => exact first.append (ih later left)

/-- Transactions that go through make all their moves. -/
theorem all_moves_made {txs : List Transaction}
    (ran : applyTransactions txs manager utxo = (.ok (), later, left)) :
    allMovesMade txs manager utxo = txs.flatMap Transaction.moves := by
  induction txs generalizing manager utxo with
  | nil => rfl
  | cons tx rest ih =>
    obtain ⟨middle, remaining, first, second⟩ := apply_transactions_cons_ok ran
    have made : manager.movesMade tx utxo = tx.moves := by
      have played := (apply_transaction_played first).1
      unfold movesMade
      split
      · exact Books.performed_played played
      · rename_i named
        rw [applyTransaction, if_neg named, applyContractTransition] at first
        rcases executed : manager.executeContract tx with ⟨outcome, spender⟩
        rw [executed] at first
        cases outcome with
        | error error => cases first
        | ok _ => exact Books.performed_played played
    rw [allMovesMade, first, made, List.flatMap_cons]
    exact congrArg (tx.moves ++ ·) (ih second)

/-- A block that is applied writes its moves into the indices. -/
theorem apply_block_reindexed {block : BlockNode}
    (ran : manager.applyBlock block utxo = (.ok (), later, left)) : Reindexed manager block.moves later := by
  obtain ⟨_, applied, tree, recorded, txs, _, recording, rfl⟩ := apply_block_ran ran
  obtain ⟨_, _, _, _, _, _, rfl⟩ := record_snapshot_ok recording
  obtain ⟨index, markers⟩ := apply_transactions_reindexed block.transactions
    ({ manager with applyingBlock := true } : StateManager S).startBlock utxo
  rw [all_moves_made txs] at index markers
  rw [txs] at index markers
  exact ⟨index, markers⟩

end Replays

section Coherence
variable [Blake3] [Bandersnatch] {S : Type} [Storage S] {manager : StateManager S} {utxo : UtxoSet}

/-- A pruning cycle, also one that stops midway, keeps the index and the outputs in step. -/
theorem prune_each_indexed (outpoints pruned : List OutPoint)
    (indexed : Indexed manager.outpointToKey utxo.utxos) :
    Indexed (pruneEach outpoints pruned manager utxo).2.1.outpointToKey
      (pruneEach outpoints pruned manager utxo).2.2.utxos := by
  induction outpoints generalizing pruned manager utxo with
  | nil => exact indexed
  | cons outpoint rest ih =>
    rw [pruneEach]
    cases manager.outpointToKey.lookup outpoint with
    | none => exact ih pruned indexed
    | some key =>
      dsimp only
      rcases manager.tree.pruneKey key with ⟨outcome, tree⟩
      cases outcome with
      | error error => exact indexed
      | ok _ => exact ih (pruned ++ [outpoint]) (indexed.erase outpoint)

variable [SchnorrScheme] [Channel] [Wasmer] {bounded : BlockNode → Prop}

theorem step_indexed {session : Session S} {call : Call} (accounting : Accounting bounded call)
    (sound : session.manager.Sound) (indexed : Indexed session.manager.outpointToKey session.utxo.utxos) :
    Indexed (session.step call).manager.outpointToKey (session.step call).utxo.utxos := by
  cases call with
  | applyBlock block =>
    dsimp only [Session.step]
    rcases sound.apply_block_cases block session.utxo with ⟨later, left, ran⟩ | ⟨error, failed⟩
    · rw [ran]
      rw [(apply_block_reindexed ran).index]
      exact Indexed.replayed (session.manager.books session.utxo) indexed (apply_block_ok ran).played
    · rw [failed]
      exact indexed
  | markOutpointForPruning outpoint epoch timestamp => exact indexed
  | executePruningCycle order epochThreshold =>
    exact prune_each_indexed (session.manager.keysToPrune order epochThreshold) [] indexed
  | _ => exact accounting.elim

/-- Index coherence: after any blocks, marks and pruning cycles the index names exactly the
unspent outputs, each with the key that a block's proofs are checked against. -/
theorem index_coherent {tree : VerkleTree S} (built : VerkleTree.Built tree)
    (made : StateManager.new tree = .ok manager) (calls : List Call)
    (accounting : ∀ call ∈ calls, Accounting (fun _ => True) call) :
    let reached := Runs.run Session.step ⟨manager, .new⟩ calls
    reached.manager.outpointToKey.keys = reached.utxo.utxos.keys ∧
      ∀ id index key, reached.manager.outpointToKey.lookup (id, index) = some key →
        key = Hash.new (id.bytes ++ Bytes.beBytes 4 index.toNat) ∧ key = GhostDag.outpointKey id index := by
  intro reached
  have kept : reached.manager.Sound ∧ Indexed reached.manager.outpointToKey reached.utxo.utxos := by
    refine Runs.run_invariant (fun session : Session S => session.manager.Sound ∧
      Indexed session.manager.outpointToKey session.utxo.utxos) (Accounting fun _ => True) ?_ ?_ calls accounting
    · refine ⟨run_sound built made .new [], fun outpoint => ?_⟩
      rw [new_ok built.coherent] at made
      cases made
      rfl
    · rintro session call allowed ⟨sound, indexed⟩
      exact ⟨step_sound sound call, step_indexed allowed sound indexed⟩
  refine ⟨kept.2.keys, fun id index key found => ?_⟩
  rw [kept.2 (id, index)] at found
  obtain ⟨_, _, rfl⟩ := Option.map_eq_some_iff.mp found
  exact ⟨rfl, rfl⟩

end Coherence

section Rollback
variable [Blake3] [Bandersnatch] {S : Type} [Storage S] {manager : StateManager S}

/-- Rolling back to a recorded height succeeds and leaves both indices as they are. -/
theorem Sound.rollback_keeps_indices (sound : manager.Sound) {height : Nat}
    (within : height ≤ manager.currentHeight) :
    (manager.rollbackState height).1 = .ok () ∧
      (manager.rollbackState height).2.outpointToKey = manager.outpointToKey ∧
      (manager.rollbackState height).2.pruneMarkers = manager.pruneMarkers := by
  obtain ⟨snapshot, storage, found, there, _, records⟩ := sound.at_height within
  rw [rollback_state_ok sound found there records]
  exact ⟨rfl, rfl, rfl⟩

/-- The calls that edit the indices on the way forward: blocks, on whatever set of unspent
outputs their caller passes, and marks. -/
def Editing : Call → Prop
  | .applyBlock _ => True
  | .markOutpointForPruning _ _ _ => True
  | .passUtxo _ => True
  | _ => False

variable [Wasmer]

/-- What a call writes into the index of the tree keys: the moves of a block that is applied. -/
def indexEdits (session : Session S) : Call → List (Edit OutPoint Bytes32)
  | .applyBlock block =>
    match (session.manager.applyBlock block session.utxo).1 with
    | .ok _ => block.moves.map Move.indexEdit
    | .error _ => []
  | _ => []

/-- What a call writes into the prune markers: a mark, or the spent inputs of a block that is
applied. -/
def markerEdits (session : Session S) : Call → List (Edit OutPoint PruneMarker)
  | .applyBlock block =>
    match (session.manager.applyBlock block session.utxo).1 with
    | .ok _ => block.moves.filterMap Move.markerEdit
    | .error _ => []
  | .markOutpointForPruning outpoint epoch timestamp => [(outpoint, some ⟨epoch, timestamp⟩)]
  | _ => []

variable [SchnorrScheme] [Channel]

theorem step_edits {session : Session S} {call : Call} (editing : Editing call)
    (sound : session.manager.Sound) :
    (session.step call).manager.outpointToKey =
        Edit.replay session.manager.outpointToKey (indexEdits session call) ∧
      (session.step call).manager.pruneMarkers =
        Edit.replay session.manager.pruneMarkers (markerEdits session call) := by
  cases call with
  | applyBlock block =>
    dsimp only [Session.step, indexEdits, markerEdits]
    rcases sound.apply_block_cases block session.utxo with ⟨later, left, ran⟩ | ⟨error, failed⟩
    · rw [ran]
      have written := apply_block_reindexed ran
      exact ⟨written.index, written.markers⟩
    · rw [failed]
      exact ⟨rfl, rfl⟩
  | markOutpointForPruning outpoint epoch timestamp => exact ⟨rfl, rfl⟩
  | passUtxo utxo => exact ⟨rfl, rfl⟩
  | _ => exact editing.elim

/-- A run of blocks and marks replays their edits over both indices. -/
theorem run_edits (calls : List Call) {session : Session S} (editing : ∀ call ∈ calls, Editing call)
    (sound : session.manager.Sound) :
    (Runs.run Session.step session calls).manager.outpointToKey =
        Edit.replay session.manager.outpointToKey (Runs.gather Session.step indexEdits session calls) ∧
      (Runs.run Session.step session calls).manager.pruneMarkers =
        Edit.replay session.manager.pruneMarkers (Runs.gather Session.step markerEdits session calls) := by
  induction calls generalizing session with
  | nil => exact ⟨rfl, rfl⟩
  | cons call rest ih =>
    obtain ⟨here, further⟩ := List.forall_mem_cons.mp editing
    obtain ⟨index, markers⟩ := step_edits here sound
    obtain ⟨laterIndex, laterMarkers⟩ := ih further (step_sound sound call)
    rw [Runs.gather, Runs.gather, Edit.replay_append, Edit.replay_append, ← index, ← markers]
    exact ⟨laterIndex, laterMarkers⟩

/-- `rollback_state` does not touch the indices. After blocks and marks it leads back to the
indices of an earlier moment at that height exactly when the edits since then unwind: for
every outpoint the last of them wrote what had been there. -/
theorem rollback_restores_indices_iff {tree : VerkleTree S} (built : VerkleTree.Built tree)
    (made : StateManager.new tree = .ok manager) (initial : UtxoSet) (calls : List Call)
    (editing : ∀ call ∈ calls, Editing call) :
    let reached := Runs.run Session.step ⟨manager, initial⟩ calls
    ∀ height ≤ reached.manager.currentHeight, (reached.manager.rollbackState height).1 = .ok () ∧
      ∀ before rest, calls = before ++ rest →
        let earlier := Runs.run Session.step ⟨manager, initial⟩ before
        earlier.manager.currentHeight = height →
          ((reached.manager.rollbackState height).2.outpointToKey = earlier.manager.outpointToKey ∧
            (reached.manager.rollbackState height).2.pruneMarkers = earlier.manager.pruneMarkers ↔
          Edit.Unwinds earlier.manager.outpointToKey (Runs.gather Session.step indexEdits earlier rest) ∧
            Edit.Unwinds earlier.manager.pruneMarkers (Runs.gather Session.step markerEdits earlier rest)) := by
  intro reached height within
  have sound : reached.manager.Sound := run_sound built made initial calls
  obtain ⟨ran, index, markers⟩ := sound.rollback_keeps_indices within
  refine ⟨ran, ?_⟩
  rintro before rest rfl earlier _
  have soundThen : earlier.manager.Sound := run_sound built made initial before
  have admitted : ∀ call ∈ rest, Editing call := fun call member => editing call (List.mem_append_right _ member)
  have whole : reached = Runs.run Session.step earlier rest := Runs.run_append before rest
  obtain ⟨replayedIndex, replayedMarkers⟩ := run_edits rest admitted soundThen
  rw [index, markers, whole, replayedIndex, replayedMarkers, Edit.replay_eq_iff, Edit.replay_eq_iff]

end Rollback

section Reward
open Klomang.Sample

/-- The block of one coinbase writes the key of its output. -/
private theorem reward_written :
    let reached := Runs.run Session.step ⟨manager, .new⟩ [.applyBlock (blockOf [reward 5])]
    reached.manager.currentHeight = 1 ∧
      reached.manager.outpointToKey.lookup ((reward 5).id, 0) = some (OutPoint.key ((reward 5).id, 0)) := by
  intro reached
  obtain ⟨later, left, ran⟩ := reward_applied
  have same : reached = ⟨later, left⟩ := by
    dsimp only [reached]
    rw [Runs.run, List.foldl_cons, List.foldl_nil, Session.step, ran]
  have moves : (blockOf [reward 5]).moves = [.put ((reward 5).id, 0) ⟨5, .replicate 9⟩] := rfl
  rw [same]
  refine ⟨(apply_block_ok ran).height, ?_⟩
  rw [(apply_block_reindexed ran).index, Edit.lookup_replay, moves, List.map_singleton, Edit.last, Edit.last,
    Move.indexEdit, if_pos rfl]
  rfl

/-- After one coinbase the index holds the key of its output. -/
theorem reward_indexed :
    let reached := Runs.run Session.step ⟨manager, .new⟩ [.applyBlock (blockOf [reward 5])]
    reached.manager.outpointToKey.keys = reached.utxo.utxos.keys ∧
      ∃ key, reached.manager.outpointToKey.lookup ((reward 5).id, 0) = some key ∧
        key = GhostDag.outpointKey (reward 5).id 0 := by
  intro reached
  obtain ⟨keys, coherent⟩ := index_coherent manager_built manager_made [.applyBlock (blockOf [reward 5])]
    (List.forall_mem_singleton.mpr trivial)
  exact ⟨keys, _, reward_written.2, (coherent _ _ _ reward_written.2).2⟩

/-- A mark that was set before an empty block is there after that block is rolled back. -/
theorem empty_block_rolled_back :
    let calls : List Call := [.markOutpointForPruning (.replicate 3, 0) 1 2, .applyBlock (blockOf [])]
    let reached := Runs.run Session.step ⟨manager, .new⟩ calls
    (reached.manager.rollbackState 0).1 = .ok () ∧
      (reached.manager.rollbackState 0).2.pruneMarkers = Finmap.insert (.replicate 3, 0) ⟨1, 2⟩ ∅ := by
  intro calls reached
  have editing : ∀ call ∈ calls, Editing call := by
    intro call member
    rcases List.mem_pair.mp member with rfl | rfl <;> exact trivial
  obtain ⟨ran, moments⟩ := rollback_restores_indices_iff manager_built manager_made .new calls editing 0
    (Nat.zero_le _)
  refine ⟨ran, ((moments [.markOutpointForPruning (.replicate 3, 0) 1 2] [.applyBlock (blockOf [])] rfl rfl).mpr ?_).2⟩
  -- the empty block writes nothing, whether it is applied or not
  rw [Runs.gather, Runs.gather, Runs.gather, Runs.gather, indexEdits, markerEdits]
  constructor <;> split <;> (intro _ _ found; cases found)

/-- After one coinbase and a rollback to height zero the index still holds the key of its
output, which is not unspent there. -/
theorem reward_index_left :
    let reached := Runs.run Session.step ⟨manager, .new⟩ [.applyBlock (blockOf [reward 5])]
    reached.manager.currentHeight = 1 ∧ (reached.manager.rollbackState 0).1 = .ok () ∧
      (reached.manager.rollbackState 0).2.outpointToKey ≠ manager.outpointToKey := by
  intro reached
  have sound : reached.manager.Sound := run_sound manager_built manager_made .new _
  obtain ⟨height, found⟩ := reward_written
  obtain ⟨back, index, _⟩ := sound.rollback_keeps_indices (Nat.zero_le _)
  refine ⟨height, back, fun restored => ?_⟩
  rw [← index, restored] at found
  cases found

end Reward
end StateManager
end Klomang
