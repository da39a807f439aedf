import Klomang.Consensus.BurnBan
import Klomang.State.BlockchainAtomicity
import Klomang.StateManager.Heights
import Klomang.StateManager.Sample

/-! Two ledgers apply blocks. The one validates a transaction and applies its change set; the other plays the moves of a
transaction unvalidated and writes the outputs into the state tree at the end. A block of plain transactions that the
first one applies is applied by the second one to the same effect, unless the state transition refuses it. -/
namespace Klomang

section Moves
variable {set : UtxoSet} {tx : Transaction}

/-- The moves of a transaction edit the entries as the transaction edits the set. -/
theorem moves_edits (tx : Transaction) : tx.moves.map Move.entryEdit = UtxoSet.edits tx := by
  rw [Transaction.moves, UtxoSet.edits, UtxoSet.creations, List.map_append, List.map_map, List.map_map]
  rfl

variable [Blake3] [SchnorrScheme]

/-- The moves of an accepted transaction can be made, whatever the account holds. -/
theorem accepted_ledger (accepts : BlockchainState.Accepts set tx) (account : Nat) :
    ∃ left, (⟨set.utxos, account⟩ : Books OutPoint TxOutput).ledger tx.moves = some ⟨(set.after tx).utxos, left⟩ := by
  obtain ⟨fee, accepted⟩ := accepts
  obtain ⟨distinct, found⟩ := UtxoSet.validated_inputs accepted
  have there : ∀ outpoint ∈ tx.inputs.map TxInput.outpoint, set.utxos.lookup outpoint ≠ none := by
    intro outpoint member
    obtain ⟨input, listed, rfl⟩ := List.mem_map.mp member
    exact Option.isSome_iff_ne_none.mp (found input listed)
  obtain ⟨taken, takes⟩ := Books.takes_play TxOutput.amount u128Max ⟨set.utxos, account⟩ distinct there
  obtain ⟨after, puts, _⟩ := Books.puts_play TxOutput.amount u128Max taken tx.created
  have played : (⟨set.utxos, account⟩ : Books OutPoint TxOutput).ledger tx.moves = some after := by
    rw [Transaction.moves, Books.ledger_append]
    rw [List.map_map] at takes
    exact Option.bind_eq_some_iff.mpr ⟨taken, takes, puts⟩
  have entries : after.entries = (set.after tx).utxos := by
    rw [Books.play_entries played, moves_edits, UtxoSet.after_eq]
  exact ⟨after.account, by rw [played, ← entries]⟩

/-- The moves of a block whose transactions are all accepted can be made. -/
theorem block_ledger {txs : List Transaction} (all : BlockchainState.refusal set txs = none) (account : Nat) :
    ∃ left, (⟨set.utxos, account⟩ : Books OutPoint TxOutput).ledger (txs.flatMap Transaction.moves) =
      some ⟨(Runs.run UtxoSet.after set txs).utxos, left⟩ := by
  induction txs generalizing set account with
  | nil => exact ⟨account, rfl⟩
  | cons tx rest ih =>
    rw [BlockchainState.refusal] at all
    split at all
    · cases all
    next fee checked =>
      obtain ⟨halfway, first⟩ := accepted_ledger ⟨fee, checked⟩ account
      obtain ⟨left, further⟩ := ih (Option.map_eq_none_iff.mp all) halfway
      refine ⟨left, ?_⟩
      rw [List.flatMap_cons, Books.ledger_append, first]
      exact further

end Moves

namespace StateManager

section Transition
variable [Blake3] [Bandersnatch] {S : Type} [Storage S]

/-- What `apply_state_transition` says of a supply over the cap. -/
def cappedError (newTotalSupply : Nat) : CoreError :=
  .invalidState ("Total supply " ++ toString newTotalSupply ++ " exceeds maximum allowed " ++
    toString EconomicConstants.maxGlobalSupplyNanoSlug)

/-- A state transition is refused for a burn or for the cap. -/
theorem transition_error {tree : VerkleTree S} {updates : List (Bytes32 × List UInt8)} {newTotalSupply : Nat}
    (refused : ¬ (tree.applyStateTransition updates newTotalSupply).1 = .ok ()) :
    ∃ error, (tree.applyStateTransition updates newTotalSupply).1 = .error error ∧
      ((∃ key, error = BurnBan.blockedError key) ∨ error = cappedError newTotalSupply) := by
  unfold VerkleTree.applyStateTransition at refused ⊢
  dsimp only at refused ⊢
  split
  next key _ => exact ⟨_, rfl, .inl ⟨key, rfl⟩⟩
  next none =>
    split
    next => exact ⟨_, rfl, .inr rfl⟩
    next within =>
      rw [none] at refused
      simp [within] at refused

end Transition

section Blocks
variable [Blake3] [Bandersnatch] [Wasmer] {S : Type} [Storage S] {manager : StateManager S} {utxo : UtxoSet}
  {block : BlockNode}

/-- A block of plain transactions whose moves can be made fails when the state transition does, and leaves the set. -/
theorem apply_block_transition_error (plain : ∀ tx ∈ block.transactions, tx.Plain) (idle : manager.applyingBlock = false)
    {after : Books OutPoint TxOutput} (played : (manager.books utxo).ledger block.moves = some after) {error : CoreError}
    (refused : (manager.tree.applyStateTransition (writes block.moves) after.account).1 = .error error) :
    (manager.applyBlock block utxo).1 =
        .error (.err (.applyBlockFailed ("State transition failed: " ++ toString error))) ∧
      (manager.applyBlock block utxo).2.2 = utxo := by
  obtain ⟨applied, appliedUtxo, txs, unchanged, _⟩ := apply_plain_transactions_ok
    ({ manager with applyingBlock := true } : StateManager S).startBlock plain played
  obtain ⟨finished, pending⟩ := apply_transactions_played txs
  have same : after = applied.books appliedUtxo := Option.some.inj (played.symm.trans finished)
  subst same
  have pendingEq : applied.pendingUpdates = writes block.moves := pending
  unfold applyBlock applyLocked
  rw [if_neg (by simp [idle]), VerkleTree.clone_ok]
  dsimp only
  rw [txs]
  dsimp only
  have failed : (applied.tree.applyStateTransition applied.pendingUpdates applied.currentTotalSupply).1 = .error error := by
    rw [unchanged, pendingEq]
    exact refused
  rcases transition : applied.tree.applyStateTransition applied.pendingUpdates applied.currentTotalSupply
    with ⟨outcome, tree⟩
  rw [transition] at failed
  dsimp only at failed
  subst failed
  exact ⟨rfl, rfl⟩

variable [SchnorrScheme]

/-- What the state manager makes of a block that the blockchain state applies. -/
theorem Sound.agrees (sound : manager.Sound) (plain : ∀ tx ∈ block.transactions, tx.Plain)
    {state later : BlockchainState} (applied : state.applyBlock block = (.ok (), later)) :
    (∃ after, manager.applyBlock block state.utxoSet = (.ok (), after, later.utxoSet)) ∨
      ∃ error supply, ((∃ key, error = BurnBan.blockedError key) ∨ error = cappedError supply) ∧
        (manager.tree.applyStateTransition (writes block.moves) supply).1 = .error error ∧
        (manager.applyBlock block state.utxoSet).1 =
          .error (.err (.applyBlockFailed ("State transition failed: " ++ toString error))) ∧
        (manager.applyBlock block state.utxoSet).2.2 = state.utxoSet := by
  have all : BlockchainState.refusal state.utxoSet block.transactions = none := by
    rcases found : BlockchainState.refusal state.utxoSet block.transactions with _ | ⟨before, refused, error⟩
    · rfl
    · obtain ⟨wrong, failed⟩ := BlockchainState.apply_block_refused found
      rw [applied] at failed
      cases failed
  have reached : later.utxoSet = Runs.run UtxoSet.after state.utxoSet block.transactions := by
    rw [BlockchainState.applyBlock, BlockchainState.apply_transactions_accepted [] ∅ all] at applied
    cases applied
    rfl
  obtain ⟨left, played⟩ := block_ledger all manager.currentTotalSupply
  have played : (manager.books state.utxoSet).ledger block.moves = some ⟨later.utxoSet.utxos, left⟩ := reached ▸ played
  by_cases passes : (manager.tree.applyStateTransition (writes block.moves) left).1 = .ok ()
  · rw [VerkleTree.apply_state_transition_ok_iff, burn_update_none] at passes
    exact .inl (apply_block_accepts plain sound.coherent sound.indexed sound.idle played passes.1 passes.2)
  · obtain ⟨error, refused, kind⟩ := transition_error passes
    exact .inr ⟨error, left, kind, refused, apply_block_transition_error plain sound.idle played refused⟩

variable [Channel]

/-- The two ledgers agree: when the blockchain state applies a block of plain transactions, every state manager either
applies it to the same set of unspent outputs, or refuses it in the state transition, for a burn or for the supply cap,
and leaves the set. -/
theorem ledgers_agree {tree : VerkleTree S} (built : VerkleTree.Built tree) {manager : StateManager S}
    (made : StateManager.new tree = .ok manager) (initial : UtxoSet) (calls : List Call) (block : BlockNode)
    (plain : ∀ tx ∈ block.transactions, tx.Plain) {state later : BlockchainState}
    (applied : state.applyBlock block = (.ok (), later)) :
    let reached := (Runs.run Session.step ⟨manager, initial⟩ calls).manager
    (∃ after, reached.applyBlock block state.utxoSet = (.ok (), after, later.utxoSet)) ∨
      ∃ error supply, ((∃ key, error = BurnBan.blockedError key) ∨ error = cappedError supply) ∧
        (reached.tree.applyStateTransition (writes block.moves) supply).1 = .error error ∧
        (reached.applyBlock block state.utxoSet).1 =
          .error (.err (.applyBlockFailed ("State transition failed: " ++ toString error))) ∧
        (reached.applyBlock block state.utxoSet).2.2 = state.utxoSet :=
  (run_sound built made initial calls).agrees plain applied

end Blocks

section Witness
open Klomang.Sample

/-- Both ledgers apply a first block with a coinbase. -/
theorem reward_agreed :
    (∃ after, manager.applyBlock (blockOf [reward 5]) .new =
      (.ok (), after, ((⟨.new⟩ : BlockchainState).applyBlock (blockOf [reward 5])).2.utxoSet)) := by
  have applied : (⟨.new⟩ : BlockchainState).applyBlock (blockOf [reward 5]) =
      (.ok (), ((⟨.new⟩ : BlockchainState).applyBlock (blockOf [reward 5])).2) := by
    have fine : ((⟨.new⟩ : BlockchainState).applyBlock (blockOf [reward 5])).1 = .ok () := by decide +kernel
    exact Prod.ext fine rfl
  rcases ledgers_agree manager_built manager_made .new [] (blockOf [reward 5]) (by decide) applied with
    agreed | ⟨error, supply, _, _, failed, _⟩
  · exact agreed
  · obtain ⟨later, left, ran⟩ := reward_applied
    rw [Runs.run_nil] at failed
    dsimp only at failed
    rw [ran] at failed
    cases failed

end Witness
end StateManager
end Klomang
