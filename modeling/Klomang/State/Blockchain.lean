import Klomang.Dag.Basic
import Klomang.Lib.Runs
import Klomang.State.UtxoEdits

/-! `core/state/mod.rs`: applying a block to the set of unspent outputs, and undoing the
transactions of a block that is refused half way. -/
namespace Klomang

namespace UtxoSet

/-- The loop of `revert_tx` over the created outputs. -/
def removeCreated (set : UtxoSet) : List (OutPoint × TxOutput) → Except CoreError Unit × UtxoSet
  | [] => (.ok (), set)
  | (key, _) :: rest =>
    if (set.utxos.lookup key).isSome then removeCreated ⟨set.utxos.erase key⟩ rest
    else (.error (.transactionError "Created output not found during revert"), set)

/-- The loop of `revert_tx` over the spent outpoints. -/
def restoreSpent (spentOutputs : FiniteMap OutPoint TxOutput) (set : UtxoSet) :
    List OutPoint → Except CoreError Unit × UtxoSet
  | [] => (.ok (), set)
  | key :: rest =>
    match spentOutputs.lookup key with
    | some output => restoreSpent spentOutputs ⟨set.utxos.insert key output⟩ rest
    | none => (.error (.transactionError "Spent output not found in revert map"), set)

/-- `revert_tx`. -/
def revertTx (set : UtxoSet) (changes : UtxoChangeSet) (spentOutputs : FiniteMap OutPoint TxOutput) :
    Except CoreError Unit × UtxoSet :=
  match set.removeCreated changes.created with
  | (.error error, set) => (.error error, set)
  | (.ok (), set) => set.restoreSpent spentOutputs changes.spent

end UtxoSet

/-- `BlockchainState`, as far as blocks are applied to it. -/
structure BlockchainState where
  utxoSet : UtxoSet

namespace BlockchainState

/-- What a transaction is about to spend is saved. -/
def saveSpent (set : UtxoSet) (spentOutputs : FiniteMap OutPoint TxOutput) :
    List TxInput → FiniteMap OutPoint TxOutput
  | [] => spentOutputs
  | input :: rest =>
    match set.utxos.lookup input.outpoint with
    | some output => saveSpent set (spentOutputs.insert input.outpoint output) rest
    | none => saveSpent set spentOutputs rest

/-- What `apply_block` says when it cannot undo the transactions it applied. -/
def revertFailed (error : CoreError) : CoreError :=
  .transactionError ("Transaction apply failed and revert failed: " ++ toString error)

/-- The loop of `apply_block` over the change sets to undo. -/
def rollback (spentOutputs : FiniteMap OutPoint TxOutput) (set : UtxoSet) :
    List UtxoChangeSet → Except CoreError Unit × UtxoSet
  | [] => (.ok (), set)
  | changeset :: rest =>
    match set.revertTx changeset spentOutputs with
    | (.error error, set) => (.error (revertFailed error), set)
    | (.ok (), set) => rollback spentOutputs set rest

section Apply
variable [Blake3] [SchnorrScheme]

/-- The loop of `apply_block` over the transactions. -/
def applyTransactions (changesets : List UtxoChangeSet) (spentOutputs : FiniteMap OutPoint TxOutput) (set : UtxoSet) :
    List Transaction → Except CoreError Unit × UtxoSet
  | [] => (.ok (), set)
  | tx :: rest =>
    let spentOutputs := saveSpent set spentOutputs tx.inputs
    match set.applyTx tx with
    | (.ok changeset, set) => applyTransactions (changesets ++ [changeset]) spentOutputs set rest
    | (.error error, set) =>
      -- the change sets are undone in reverse order
      match rollback spentOutputs set changesets.reverse with
      | (.error revertError, set) => (.error revertError, set)
      | (.ok (), set) => (.error error, set)

/-- `apply_block`. -/
def applyBlock (state : BlockchainState) (block : BlockNode) : Except CoreError Unit × BlockchainState :=
  match applyTransactions [] ∅ state.utxoSet block.transactions with
  | (result, utxoSet) => (result, { state with utxoSet })

end Apply

end BlockchainState
end Klomang
