import Klomang.Lib.Ledger
import Klomang.StateManager.Apply

/-! Transactions as moves of a ledger. The set of unspent outputs and the tracked
supply are the books; inputs take outputs and outputs put them, whatever a contract
does to the state tree. -/
namespace Klomang

/-- The amount an output is worth. -/
def TxOutput.amount (output : TxOutput) : Nat := output.value.toNat

namespace Transaction

/-- The outputs with the outpoints they are created at. -/
def created (tx : Transaction) : List (OutPoint × TxOutput) :=
  tx.outputs.zipIdx.map fun (output, i) => ((tx.id, UInt32.ofNat i), output)

/-- Every input takes an output, then every output is put. -/
def moves (tx : Transaction) : List (Move OutPoint TxOutput) :=
  tx.inputs.map (fun input => .take input.outpoint) ++
    tx.created.map fun (outpoint, output) => .put outpoint output

end Transaction

/-- The moves of a block, in order. -/
def BlockNode.moves (block : BlockNode) : List (Move OutPoint TxOutput) :=
  block.transactions.flatMap Transaction.moves

theorem Transaction.moves_eq (tx : Transaction) :
    tx.moves = tx.inputs.map (fun input => .take input.outpoint) ++
      tx.outputs.zipIdx.map fun (output, i) => .put (tx.id, UInt32.ofNat i) output := by
  rw [Transaction.moves, Transaction.created, List.map_map]
  rfl

/-- Moves on the set of unspent outputs and the tracked supply, a `u128` that saturates. -/
abbrev Books.ledger (books : Books OutPoint TxOutput) (moves : List (Move OutPoint TxOutput)) :
    Option (Books OutPoint TxOutput) :=
  books.play TxOutput.amount u128Max moves

theorem Books.ledger_append (books : Books OutPoint TxOutput) (moves rest : List (Move OutPoint TxOutput)) :
    books.ledger (moves ++ rest) = (books.ledger moves).bind fun books => books.ledger rest :=
  Books.play_append

/-- The updates of the state tree that moves leave pending. -/
def writes [Blake3] (moves : List (Move OutPoint TxOutput)) : List (Bytes32 × List UInt8) :=
  moves.filterMap fun
    | .take _ => none
    | .put outpoint output => some (outpoint.key, output.serialize)

section Writes
variable [Blake3]

theorem writes_append (first second : List (Move OutPoint TxOutput)) :
    writes (first ++ second) = writes first ++ writes second := List.filterMap_append

theorem writes_takes (inputs : List TxInput) (rest : List (Move OutPoint TxOutput)) :
    writes (inputs.map (fun input => .take input.outpoint) ++ rest) = writes rest := by
  rw [writes, List.filterMap_append, List.filterMap_map]
  simp [writes]

end Writes

namespace StateManager
variable [Blake3] [Bandersnatch] {S : Type}

/-- The tracked supply next to a set of unspent outputs. -/
def books (manager : StateManager S) (utxo : UtxoSet) : Books OutPoint TxOutput :=
  ⟨utxo.utxos, manager.currentTotalSupply⟩

/-- What applying a transaction leaves alone. -/
structure SameChain (before after : StateManager S) : Prop where
  height : after.currentHeight = before.currentHeight
  snapshots : after.snapshots = before.snapshots
  storages : after.snapshotStorages = before.snapshotStorages
  flag : after.applyingBlock = before.applyingBlock

theorem SameChain.refl (manager : StateManager S) : SameChain manager manager := ⟨rfl, rfl, rfl, rfl⟩

theorem SameChain.trans {first second third : StateManager S} (left : SameChain first second)
    (right : SameChain second third) : SameChain first third :=
  ⟨right.height.trans left.height, right.snapshots.trans left.snapshots,
    right.storages.trans left.storages, right.flag.trans left.flag⟩

section Utxo
variable {tx : Transaction}

/-- The inputs are spent exactly when their outputs can be taken in order. -/
theorem spend_inputs_ok (tx : Transaction) {inputs : List TxInput} (manager : StateManager S) (utxo : UtxoSet)
    {after : Books OutPoint TxOutput}
    (played : (manager.books utxo).ledger (inputs.map fun input => .take input.outpoint) = some after) :
    ∃ index markers, spendInputs tx inputs manager utxo =
      (.ok (), { manager with
        currentTotalSupply := after.account, outpointToKey := index, pruneMarkers := markers },
        ⟨after.entries⟩) := by
  induction inputs generalizing manager utxo with
  | nil =>
    cases played
    exact ⟨_, _, rfl⟩
  | cons input rest ih =>
    obtain ⟨next, taken, played⟩ := Books.play_cons_iff.mp played
    obtain ⟨output, found, rfl⟩ := Option.map_eq_some_iff.mp taken
    have here : utxo.utxos.lookup input.outpoint = some output := found
    rw [spendInputs, here]
    exact ih (manager.spendOutput input.outpoint output) ⟨utxo.utxos.erase input.outpoint⟩ played

theorem spend_inputs_stuck (tx : Transaction) {inputs : List TxInput} (manager : StateManager S)
    (utxo : UtxoSet)
    (stuck : (manager.books utxo).ledger (inputs.map fun input => .take input.outpoint) = none) :
    ∃ error, (spendInputs tx inputs manager utxo).1 = .error (.err error) := by
  induction inputs generalizing manager utxo with
  | nil => cases stuck
  | cons input rest ih =>
    rw [spendInputs]
    cases here : utxo.utxos.lookup input.outpoint with
    | none => exact ⟨_, rfl⟩
    | some output =>
      refine ih (manager.spendOutput input.outpoint output) ⟨utxo.utxos.erase input.outpoint⟩ ?_
      have found : (manager.books utxo).entries.lookup input.outpoint = some output := here
      rw [List.map_cons, Books.ledger, Books.play_cons, Books.move, found] at stuck
      exact stuck

/-- Inputs that were spent were taken in order. -/
theorem spend_inputs_played {inputs : List TxInput} {manager later : StateManager S} {utxo left : UtxoSet}
    (ran : spendInputs tx inputs manager utxo = (.ok (), later, left)) :
    (manager.books utxo).ledger (inputs.map fun input => .take input.outpoint) = some (later.books left) := by
  cases played : (manager.books utxo).ledger (inputs.map fun input => .take input.outpoint) with
  | none =>
    obtain ⟨error, failed⟩ := spend_inputs_stuck tx manager utxo played
    rw [ran] at failed
    cases failed
  | some after =>
    obtain ⟨index, markers, spent⟩ := spend_inputs_ok tx manager utxo played
    rw [ran] at spent
    cases spent
    rfl

/-- Spending changes the supply and the indices only. -/
theorem spend_inputs_frame (tx : Transaction) (inputs : List TxInput) (manager : StateManager S)
    (utxo : UtxoSet) :
    ∃ supply index markers, (spendInputs tx inputs manager utxo).2.1 = { manager with
      currentTotalSupply := supply, outpointToKey := index, pruneMarkers := markers } := by
  induction inputs generalizing manager utxo with
  | nil => exact ⟨_, _, _, rfl⟩
  | cons input rest ih =>
    rw [spendInputs]
    cases utxo.utxos.lookup input.outpoint with
    | none => exact ⟨_, _, _, rfl⟩
    | some output => exact ih (manager.spendOutput input.outpoint output) ⟨utxo.utxos.erase input.outpoint⟩

/-- The outputs can always be put. -/
theorem create_outputs_played (tx : Transaction) (outputs : List (TxOutput × Nat)) (manager : StateManager S)
    (utxo : UtxoSet) :
    ∃ after index, (manager.books utxo).ledger
        (outputs.map fun (output, i) => .put (tx.id, UInt32.ofNat i) output) = some after ∧
      createOutputs tx outputs manager utxo =
        ({ manager with
          currentTotalSupply := after.account
          outpointToKey := index
          pendingUpdates := manager.pendingUpdates ++
            writes (outputs.map fun (output, i) => .put (tx.id, UInt32.ofNat i) output) },
          ⟨after.entries⟩) := by
  induction outputs generalizing manager utxo with
  | nil => exact ⟨manager.books utxo, manager.outpointToKey, rfl, by simp [createOutputs, writes, books]⟩
  | cons item rest ih =>
    obtain ⟨output, i⟩ := item
    rw [createOutputs]
    dsimp only
    obtain ⟨after, index, played, created⟩ := ih
      (manager.createOutput (tx.hashWithIndex (UInt32.ofNat i)) (tx.id, UInt32.ofNat i) output)
      ⟨utxo.utxos.insert (tx.id, UInt32.ofNat i) output⟩
    refine ⟨after, index, played, ?_⟩
    rw [created]
    simp [createOutput, writes, hash_with_index_is_key]

variable {manager : StateManager S} {utxo : UtxoSet}

/-- A plain transaction goes through exactly when its moves can be made. -/
theorem apply_utxo_transaction_ok {after : Books OutPoint TxOutput}
    (played : (manager.books utxo).ledger tx.moves = some after) :
    ∃ index markers, manager.applyUtxoTransaction tx utxo =
      (.ok (), { manager with
        currentTotalSupply := after.account, outpointToKey := index, pruneMarkers := markers
        pendingUpdates := manager.pendingUpdates ++ writes tx.moves }, ⟨after.entries⟩) := by
  rw [Transaction.moves_eq, Books.ledger_append] at played
  obtain ⟨halfway, spent, put⟩ := Option.bind_eq_some_iff.mp played
  obtain ⟨index, markers, spending⟩ := spend_inputs_ok tx manager utxo spent
  rw [applyUtxoTransaction, spending]
  dsimp only
  obtain ⟨books, created, createdBooks, creating⟩ := create_outputs_played tx tx.outputs.zipIdx
    { manager with currentTotalSupply := halfway.account, outpointToKey := index, pruneMarkers := markers }
    ⟨halfway.entries⟩
  have same : books = after := Option.some.inj (createdBooks.symm.trans put)
  subst same
  exact ⟨created, markers, by rw [creating, Transaction.moves_eq, writes_takes]⟩

theorem apply_utxo_transaction_stuck (stuck : (manager.books utxo).ledger tx.moves = none) :
    ∃ error, (manager.applyUtxoTransaction tx utxo).1 = .error (.err error) := by
  rw [applyUtxoTransaction]
  cases spent : (manager.books utxo).ledger (tx.inputs.map fun input => .take input.outpoint) with
  | none =>
    obtain ⟨error, failed⟩ := spend_inputs_stuck tx manager utxo spent
    refine ⟨error, ?_⟩
    split <;> rename_i same <;> rw [same] at failed
    · exact failed
    · cases failed
  | some halfway =>
    obtain ⟨after, _, put, _⟩ := create_outputs_played tx tx.outputs.zipIdx
      { manager with currentTotalSupply := halfway.account } ⟨halfway.entries⟩
    rw [Transaction.moves_eq, Books.ledger_append, spent] at stuck
    cases stuck.symm.trans put

/-- A plain transaction changes the supply, the indices and the pending updates only. -/
theorem apply_utxo_transaction_frame (manager : StateManager S) (tx : Transaction) (utxo : UtxoSet) :
    ∃ supply index markers pending, (manager.applyUtxoTransaction tx utxo).2.1 = { manager with
      currentTotalSupply := supply, outpointToKey := index, pruneMarkers := markers
      pendingUpdates := pending } := by
  obtain ⟨supply, index, markers, spending⟩ := spend_inputs_frame tx tx.inputs manager utxo
  rw [applyUtxoTransaction]
  split <;> rename_i same <;> rw [same] at spending <;> dsimp only at spending <;> subst spending
  · exact ⟨_, _, _, _, rfl⟩
  · obtain ⟨_, _, _, created⟩ := create_outputs_played tx tx.outputs.zipIdx
      { manager with currentTotalSupply := supply, outpointToKey := index, pruneMarkers := markers } _
    rw [created]
    exact ⟨_, _, _, _, rfl⟩

end Utxo
end StateManager
end Klomang
