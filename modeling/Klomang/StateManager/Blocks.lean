import Klomang.State.VTrieRoots
import Klomang.StateManager.Moves

/-! What transactions and contracts do to the manager: contracts change the state
tree and the gas fees only, and the books move by the transactions' moves. -/
namespace Klomang

section Contracts
variable [Blake3] [Bandersnatch] {S : Type} [Storage S]

/-- A contract changes the state tree only, through operations that keep it coherent. -/
def TreeOnly (before after : StateManager S) : Prop :=
  ∃ tree, after = { before with tree } ∧ (before.tree.Coherent → tree.Coherent)

theorem TreeOnly.refl (manager : StateManager S) : TreeOnly manager manager := ⟨_, rfl, id⟩

theorem TreeOnly.trans {first second third : StateManager S} (left : TreeOnly first second)
    (right : TreeOnly second third) : TreeOnly first third := by
  obtain ⟨middle, rfl, kept⟩ := left
  obtain ⟨last, rfl, further⟩ := right
  exact ⟨last, rfl, further ∘ kept⟩

variable [Wasmer]

theorem call_run_tree_only (guest : Guest) (manager : StateManager S) (gas : GasMeter) :
    TreeOnly manager (VMExecutor.callRun guest manager gas).2.1 := by
  induction guest generalizing manager gas with
  | returned points => exact .refl _
  | trapped msg => exact .refl _
  | stateRead points key outLen next ih =>
    unfold VMExecutor.callRun
    repeat' first
      | exact .refl _
      | exact ih _ _ _ _
      | split
  | stateWrite points key data next ih =>
    unfold VMExecutor.callRun
    repeat' first
      | exact .refl _
      | exact TreeOnly.trans ⟨_, rfl, fun coherent => coherent.insert _ _⟩ (ih _ _ _)
      | split
  | selfDestruct key next ih =>
    unfold VMExecutor.callRun
    split
    · exact .refl _
    · exact TreeOnly.trans ⟨_, rfl, fun coherent => coherent.prune_key _⟩ (ih _ _)

theorem execute_module_tree_only (module : Wasmer.Module) {manager : StateManager S} (gas : GasMeter)
    (gasLimit : UInt64) {treeSnapshot : VerkleTree S}
    (saved : manager.tree.Coherent → treeSnapshot.Coherent) :
    TreeOnly manager (VMExecutor.executeModule module manager gas gasLimit treeSnapshot).2 := by
  have restored : TreeOnly manager { manager with tree := treeSnapshot } := ⟨_, rfl, saved⟩
  unfold VMExecutor.executeModule
  dsimp only
  split
  · exact restored
  split
  · exact restored
  rename_i started _
  split
  · exact restored
  rename_i guest _
  have called := call_run_tree_only (guest (gasLimit.toNat - started.consumedHost)) manager started
  split <;> rename_i same <;> rw [same] at called
  · exact called
  all_goals
    obtain ⟨tree, later, _⟩ := called
    dsimp only at later
    subst later
    exact restored

theorem execute_tree_only (wasmBytes : List UInt8) (manager : StateManager S) (gasLimit : UInt64) :
    TreeOnly manager (VMExecutor.execute wasmBytes manager gasLimit).2 := by
  unfold VMExecutor.execute
  rw [VerkleTree.clone_ok]
  dsimp only
  repeat' first
    | exact .refl _
    | exact execute_module_tree_only _ _ _ fun coherent => coherent.cloned
    | split

/-- A compiled module ends with the snapshot in place and an error, or within the gas limit. -/
theorem execute_module_ends (module : Wasmer.Module) (manager : StateManager S) (gas : GasMeter) (gasLimit : UInt64)
    (treeSnapshot : VerkleTree S) :
    (∃ error later, VMExecutor.executeModule module manager gas gasLimit treeSnapshot = (.error (.err error), later) ∧
      later.tree = treeSnapshot) ∨
    ∃ gasUsed later, VMExecutor.executeModule module manager gas gasLimit treeSnapshot = (.ok gasUsed, later) ∧
      gasUsed ≤ gasLimit.toNat := by
  unfold VMExecutor.executeModule
  dsimp only
  split
  · exact .inl ⟨_, _, rfl, rfl⟩
  split
  · exact .inl ⟨_, _, rfl, rfl⟩
  split
  · exact .inl ⟨_, _, rfl, rfl⟩
  split
  · -- the refund and what is left of the points only lower what is used
    refine .inr ⟨_, _, rfl, ?_⟩
    rw [GasMeter.finalize]
    exact (Nat.sub_le _ _).trans (Nat.sub_le _ _)
  · exact .inl ⟨_, _, rfl, rfl⟩
  · exact .inl ⟨_, _, rfl, rfl⟩

/-- An execution ends with an error over the tree as it was or a clone of it, or within its gas limit. -/
theorem execute_ends (wasmBytes : List UInt8) (manager : StateManager S) (gasLimit : UInt64) :
    (∃ error later, VMExecutor.execute wasmBytes manager gasLimit = (.error (.err error), later) ∧
      (later.tree = manager.tree ∨ later.tree = manager.tree.cloned)) ∨
    ∃ gasUsed later, VMExecutor.execute wasmBytes manager gasLimit = (.ok gasUsed, later) ∧
      gasUsed ≤ gasLimit.toNat := by
  unfold VMExecutor.execute
  rw [VerkleTree.clone_ok]
  dsimp only
  split
  · exact .inl ⟨_, _, rfl, .inl rfl⟩
  split
  · exact .inl ⟨_, _, rfl, .inl rfl⟩
  split
  · exact .inl ⟨_, _, rfl, .inl rfl⟩
  rename_i gas _ _ module _
  rcases execute_module_ends module manager gas gasLimit manager.tree.cloned with
    ⟨error, later, failed, restored⟩ | succeeded
  · exact .inl ⟨error, later, failed, .inr restored⟩
  · exact .inr succeeded

/-- An execution never panics: the tree it starts from can be cloned. -/
theorem execute_no_panic (wasmBytes : List UInt8) (manager : StateManager S) (gasLimit : UInt64) :
    (VMExecutor.execute wasmBytes manager gasLimit).1 ≠ .error .panic := by
  intro panicked
  rcases execute_ends wasmBytes manager gasLimit with ⟨_, _, ran, _⟩ | ⟨_, _, ran, _⟩ <;> rw [ran] at panicked <;>
    cases panicked

end Contracts

section Growth
variable [Blake3] [Bandersnatch] {S : Type}

/-- Gas fees and pending updates are only ever added. -/
structure Grown (before after : StateManager S) : Prop where
  fees : before.blockGasFees <+: after.blockGasFees
  pending : before.pendingUpdates <+: after.pendingUpdates

theorem Grown.refl (manager : StateManager S) : Grown manager manager :=
  ⟨List.prefix_refl _, List.prefix_refl _⟩

theorem Grown.trans {first second third : StateManager S} (left : Grown first second)
    (right : Grown second third) : Grown first third :=
  ⟨left.fees.trans right.fees, left.pending.trans right.pending⟩

end Growth

namespace StateManager

section Plain
variable [Blake3] [Bandersnatch] {S : Type} {manager later : StateManager S} {utxo left : UtxoSet}
  {tx : Transaction}

/-- What a transaction that went through did to the books. -/
theorem apply_utxo_transaction_played (manager : StateManager S)
    (ran : manager.applyUtxoTransaction tx utxo = (.ok (), later, left)) :
    (manager.books utxo).ledger tx.moves = some (later.books left) ∧
      later.pendingUpdates = manager.pendingUpdates ++ writes tx.moves := by
  cases played : (manager.books utxo).ledger tx.moves with
  | none =>
    obtain ⟨error, failed⟩ := apply_utxo_transaction_stuck played
    rw [ran] at failed
    cases failed
  | some after =>
    obtain ⟨index, markers, applied⟩ := apply_utxo_transaction_ok played
    rw [ran] at applied
    cases applied
    exact ⟨rfl, rfl⟩

theorem apply_utxo_transaction_no_panic : (manager.applyUtxoTransaction tx utxo).1 ≠ .error .panic := by
  cases played : (manager.books utxo).ledger tx.moves with
  | none =>
    obtain ⟨error, failed⟩ := apply_utxo_transaction_stuck played
    simp [failed]
  | some after =>
    obtain ⟨index, markers, applied⟩ := apply_utxo_transaction_ok played
    simp [applied]

end Plain

section Transactions
variable [Blake3] [Bandersnatch] [Wasmer] {S : Type} [Storage S] {manager later : StateManager S}
  {utxo left : UtxoSet} {tx : Transaction}

/-- A contract changes the tree and the gas fees, and nothing of the books. -/
theorem execute_contract_frame (manager : StateManager S) (tx : Transaction) :
    ∃ tree fees, (manager.executeContract tx).2 = { manager with tree, blockGasFees := fees } ∧
      (manager.tree.Coherent → tree.Coherent) := by
  obtain ⟨tree, executed, kept⟩ := execute_tree_only tx.executionPayload manager tx.gasLimit
  unfold executeContract
  rw [VerkleTree.clone_ok]
  dsimp only
  split
  · exact ⟨_, _, rfl, id⟩
  split <;> rename_i same <;> rw [same] at executed <;> dsimp only at executed <;> subst executed
  · exact ⟨_, _, rfl, kept⟩
  · exact ⟨_, _, rfl, kept⟩
  · exact ⟨_, _, rfl, fun coherent => coherent.cloned⟩

/-- A contract goes through when its gas passes the check and the executor runs it to its end; then it adds its fee. -/
theorem execute_contract_ok_iff :
    manager.executeContract tx = (.ok (), later) ↔ requiredGas tx.executionPayload ≤ tx.gasLimit.toNat ∧
      ∃ gasUsed after, VMExecutor.execute tx.executionPayload manager tx.gasLimit = (.ok gasUsed, after) ∧
        later = { after with
          blockGasFees :=
            after.blockGasFees ++ [createGasFeeWitness (min (gasUsed * tx.maxFeePerGas) u128Max)] } := by
  unfold executeContract
  rw [VerkleTree.clone_ok]
  dsimp only
  by_cases short : tx.gasLimit.toNat < requiredGas tx.executionPayload
  · rw [if_pos short]
    refine iff_of_false (fun refused => ?_) fun passed => Nat.not_le_of_lt short passed.1
    cases refused
  rw [if_neg short, and_iff_right (Nat.not_lt.mp short)]
  rcases VMExecutor.execute tx.executionPayload manager tx.gasLimit with ⟨outcome, after⟩
  cases outcome with
  | ok gasUsed =>
    constructor
    · intro ran
      cases ran
      exact ⟨gasUsed, after, rfl, rfl⟩
    · rintro ⟨_, _, same, rfl⟩
      cases same
      rfl
  | error abort =>
    refine iff_of_false (fun failed => ?_) fun ran => ?_
    · cases abort <;> cases failed
    · obtain ⟨_, _, same, _⟩ := ran
      cases same

theorem execute_contract_no_panic (manager : StateManager S) (tx : Transaction) :
    (manager.executeContract tx).1 ≠ .error .panic := by
  have executed := execute_no_panic tx.executionPayload manager tx.gasLimit
  unfold executeContract
  rw [VerkleTree.clone_ok]
  dsimp only
  split
  · simp
  split <;> rename_i same <;> rw [same] at executed
  · simp
  · exact absurd rfl executed
  · simp

theorem apply_plain_transaction (plain : tx.Plain) :
    manager.applyTransaction tx utxo = manager.applyUtxoTransaction tx utxo := by
  rw [applyTransaction, plain.1, plain.2]
  rfl

theorem apply_transaction_frame (manager : StateManager S) (tx : Transaction) (utxo : UtxoSet) :
    SameChain manager (manager.applyTransaction tx utxo).2.1 ∧
      (manager.tree.Coherent → (manager.applyTransaction tx utxo).2.1.tree.Coherent) := by
  unfold applyTransaction applyContractTransition
  split
  · obtain ⟨_, _, _, _, applied⟩ := apply_utxo_transaction_frame manager tx utxo
    rw [applied]
    exact ⟨⟨rfl, rfl, rfl, rfl⟩, id⟩
  · obtain ⟨tree, fees, executed, kept⟩ := execute_contract_frame manager tx
    split <;> rename_i same <;> rw [same] at executed <;> dsimp only at executed <;> subst executed
    · exact ⟨⟨rfl, rfl, rfl, rfl⟩, kept⟩
    · obtain ⟨_, _, _, _, applied⟩ := apply_utxo_transaction_frame
        { manager with tree, blockGasFees := fees } tx utxo
      rw [applied]
      exact ⟨⟨rfl, rfl, rfl, rfl⟩, kept⟩

theorem apply_transaction_no_panic (manager : StateManager S) (tx : Transaction) (utxo : UtxoSet) :
    (manager.applyTransaction tx utxo).1 ≠ .error .panic := by
  unfold applyTransaction applyContractTransition
  split
  · exact apply_utxo_transaction_no_panic
  · have executed := execute_contract_no_panic manager tx
    split <;> rename_i same <;> rw [same] at executed
    · exact executed
    · exact apply_utxo_transaction_no_panic

/-- Whatever a contract did, the books moved by the transaction's moves. -/
theorem apply_transaction_played (ran : manager.applyTransaction tx utxo = (.ok (), later, left)) :
    (manager.books utxo).ledger tx.moves = some (later.books left) ∧
      later.pendingUpdates = manager.pendingUpdates ++ writes tx.moves := by
  unfold applyTransaction applyContractTransition at ran
  split at ran
  · exact apply_utxo_transaction_played manager ran
  · obtain ⟨tree, fees, executed, _⟩ := execute_contract_frame manager tx
    split at ran
    · cases ran
    · rename_i same
      rw [same] at executed
      dsimp only at executed
      subst executed
      exact apply_utxo_transaction_played { manager with tree, blockGasFees := fees } ran

/-- Either a transaction fails with an error, or it goes through. -/
theorem apply_transactions_cons (txs : List Transaction) (tx : Transaction) (manager : StateManager S)
    (utxo : UtxoSet) :
    (∃ error later left, manager.applyTransaction tx utxo = (.error (.err error), later, left) ∧
      applyTransactions (tx :: txs) manager utxo = (.error (.err error), later, left)) ∨
    ∃ later left, manager.applyTransaction tx utxo = (.ok (), later, left) ∧
      applyTransactions (tx :: txs) manager utxo = applyTransactions txs later left := by
  rw [applyTransactions]
  have sound := apply_transaction_no_panic manager tx utxo
  rcases ran : manager.applyTransaction tx utxo with ⟨outcome, later, left⟩
  rw [ran] at sound
  cases outcome with
  | ok _ => exact .inr ⟨later, left, rfl, rfl⟩
  | error abort =>
    cases abort with
    | panic => exact absurd rfl sound
    | err error => exact .inl ⟨error, later, left, rfl, rfl⟩

/-- When all go through, the first goes through and then the rest. -/
theorem apply_transactions_cons_ok {tx : Transaction} {txs : List Transaction}
    (ran : applyTransactions (tx :: txs) manager utxo = (.ok (), later, left)) :
    ∃ middle remaining, manager.applyTransaction tx utxo = (.ok (), middle, remaining) ∧
      applyTransactions txs middle remaining = (.ok (), later, left) := by
  rcases apply_transactions_cons txs tx manager utxo with
    ⟨error, middle, remaining, _, whole⟩ | ⟨middle, remaining, first, whole⟩
  · cases whole.symm.trans ran
  · exact ⟨middle, remaining, first, whole.symm.trans ran⟩

theorem apply_transactions_frame (txs : List Transaction) (manager : StateManager S) (utxo : UtxoSet) :
    SameChain manager (applyTransactions txs manager utxo).2.1 ∧
      (manager.tree.Coherent → (applyTransactions txs manager utxo).2.1.tree.Coherent) ∧
      (applyTransactions txs manager utxo).1 ≠ .error .panic := by
  induction txs generalizing manager utxo with
  | nil => exact ⟨.refl _, id, nofun⟩
  | cons tx rest ih =>
    obtain ⟨chain, kept⟩ := apply_transaction_frame manager tx utxo
    rcases apply_transactions_cons rest tx manager utxo with
      ⟨error, later, left, ran, whole⟩ | ⟨later, left, ran, whole⟩ <;>
      rw [whole] <;> rw [ran] at chain kept
    · exact ⟨chain, kept, by simp⟩
    · obtain ⟨further, stays, sound⟩ := ih later left
      exact ⟨chain.trans further, stays ∘ kept, sound⟩

/-- The transactions of a block that go through play the block's moves. -/
theorem apply_transactions_played {txs : List Transaction}
    (ran : applyTransactions txs manager utxo = (.ok (), later, left)) :
    (manager.books utxo).ledger (txs.flatMap Transaction.moves) = some (later.books left) ∧
      later.pendingUpdates = manager.pendingUpdates ++ writes (txs.flatMap Transaction.moves) := by
  induction txs generalizing manager utxo with
  | nil =>
    cases ran
    exact ⟨rfl, by simp [writes]⟩
  | cons tx rest ih =>
    obtain ⟨middle, remaining, first, second⟩ := apply_transactions_cons_ok ran
    obtain ⟨played, pending⟩ := apply_transaction_played first
    obtain ⟨further, added⟩ := ih second
    rw [List.flatMap_cons, Books.ledger_append, played, writes_append, ← List.append_assoc, ← pending]
    exact ⟨further, added⟩

/-- Plain transactions go through when their moves can be made, and leave the tree alone. -/
theorem apply_plain_transactions_ok (manager : StateManager S) {txs : List Transaction} (plain : ∀ tx ∈ txs, tx.Plain)
    {after : Books OutPoint TxOutput}
    (played : (manager.books utxo).ledger (txs.flatMap Transaction.moves) = some after) :
    ∃ later left, applyTransactions txs manager utxo = (.ok (), later, left) ∧
      later.tree = manager.tree ∧ later.blockGasFees = manager.blockGasFees := by
  induction txs generalizing manager utxo with
  | nil => exact ⟨manager, utxo, rfl, rfl, rfl⟩
  | cons tx rest ih =>
    obtain ⟨here, further⟩ := List.forall_mem_cons.mp plain
    rw [List.flatMap_cons, Books.ledger_append] at played
    obtain ⟨halfway, first, second⟩ := Option.bind_eq_some_iff.mp played
    obtain ⟨index, markers, applied⟩ := apply_utxo_transaction_ok first
    rw [applyTransactions, apply_plain_transaction here, applied]
    exact ih _ further second

end Transactions

section Growing
variable [Blake3] [Bandersnatch] {S : Type} {manager later : StateManager S} {utxo left : UtxoSet}
  {tx : Transaction}

theorem apply_utxo_transaction_grown (manager : StateManager S) (tx : Transaction) (utxo : UtxoSet) :
    Grown manager (manager.applyUtxoTransaction tx utxo).2.1 ∧
      (manager.applyUtxoTransaction tx utxo).2.1.blockGasFees = manager.blockGasFees := by
  obtain ⟨supply, index, markers, spending⟩ := spend_inputs_frame tx tx.inputs manager utxo
  rw [applyUtxoTransaction]
  rcases spent : spendInputs tx tx.inputs manager utxo with ⟨outcome, spender, remaining⟩
  rw [spent] at spending
  dsimp only at spending
  subst spending
  cases outcome with
  | error error => exact ⟨⟨List.prefix_refl _, List.prefix_refl _⟩, rfl⟩
  | ok _ =>
    obtain ⟨after, index, _, created⟩ := create_outputs_played tx tx.outputs.zipIdx
      { manager with currentTotalSupply := supply, outpointToKey := index, pruneMarkers := markers } remaining
    dsimp only
    rw [created]
    exact ⟨⟨List.prefix_refl _, List.prefix_append _ _⟩, rfl⟩

variable [Wasmer] [Storage S]

/-- A contract that goes through adds its gas fee, one that fails adds nothing. -/
theorem execute_contract_fees (manager : StateManager S) (tx : Transaction) :
    (manager.executeContract tx).2.pendingUpdates = manager.pendingUpdates ∧
      ∃ fees, (manager.executeContract tx).2.blockGasFees = manager.blockGasFees ++ fees ∧
        ((manager.executeContract tx).1 = .ok () → fees ≠ []) := by
  obtain ⟨tree, executed, _⟩ := execute_tree_only tx.executionPayload manager tx.gasLimit
  unfold executeContract
  rw [VerkleTree.clone_ok]
  dsimp only
  split
  · exact ⟨rfl, [], (List.append_nil _).symm, nofun⟩
  rcases ran : VMExecutor.execute tx.executionPayload manager tx.gasLimit with ⟨outcome, later⟩
  rw [ran] at executed
  dsimp only at executed
  subst executed
  cases outcome with
  | ok gasUsed => exact ⟨rfl, _, rfl, fun _ => List.cons_ne_nil _ _⟩
  | error abort => cases abort <;> exact ⟨rfl, [], (List.append_nil _).symm, nofun⟩

theorem apply_transaction_grown (manager : StateManager S) (tx : Transaction) (utxo : UtxoSet) :
    Grown manager (manager.applyTransaction tx utxo).2.1 := by
  unfold applyTransaction applyContractTransition
  split
  · exact (apply_utxo_transaction_grown manager tx utxo).1
  obtain ⟨pending, fees, charged, _⟩ := execute_contract_fees manager tx
  rcases executed : manager.executeContract tx with ⟨outcome, later⟩
  rw [executed] at pending charged
  have executing : Grown manager later := ⟨charged ▸ List.prefix_append _ _, pending ▸ List.prefix_refl _⟩
  cases outcome with
  | error error => exact executing
  | ok _ => exact executing.trans (apply_utxo_transaction_grown later tx utxo).1

/-- A contract transaction that goes through leaves more gas fees. -/
theorem contract_adds_fees (contract : ¬ tx.Plain)
    (ran : manager.applyTransaction tx utxo = (.ok (), later, left)) :
    manager.blockGasFees.length < later.blockGasFees.length := by
  have named : ¬ (tx.executionPayload.isEmpty && tx.contractAddress.isNone) = true := by
    simpa [Transaction.Plain] using contract
  rw [applyTransaction, if_neg named, applyContractTransition] at ran
  obtain ⟨_, fees, charged, added⟩ := execute_contract_fees manager tx
  rcases executed : manager.executeContract tx with ⟨outcome, spender⟩
  rw [executed] at ran charged added
  cases outcome with
  | error error => cases ran
  | ok _ =>
    have unchanged := (apply_utxo_transaction_grown spender tx utxo).2
    dsimp only at ran charged
    rw [ran] at unchanged
    rw [unchanged, charged, List.length_append]
    exact Nat.lt_add_of_pos_right (List.length_pos_of_ne_nil (added rfl))

theorem apply_transactions_grown (txs : List Transaction) (manager : StateManager S) (utxo : UtxoSet) :
    Grown manager (applyTransactions txs manager utxo).2.1 := by
  induction txs generalizing manager utxo with
  | nil => exact .refl _
  | cons tx rest ih =>
    have first := apply_transaction_grown manager tx utxo
    rcases apply_transactions_cons rest tx manager utxo with
      ⟨error, middle, remaining, ran, whole⟩ | ⟨middle, remaining, ran, whole⟩ <;>
      rw [whole] <;> rw [ran] at first
    · exact first
    · exact first.trans (ih middle remaining)

/-- Where transactions went through and changed the tree there are more gas fees: only a
contract changes the tree. -/
theorem tree_change_adds_fees {txs : List Transaction}
    (ran : applyTransactions txs manager utxo = (.ok (), later, left)) (changed : later.tree ≠ manager.tree) :
    manager.blockGasFees.length < later.blockGasFees.length := by
  induction txs generalizing manager utxo with
  | nil =>
    cases ran
    exact absurd rfl changed
  | cons tx rest ih =>
    obtain ⟨middle, remaining, first, second⟩ := apply_transactions_cons_ok ran
    by_cases plain : tx.Plain
    · rw [apply_plain_transaction plain] at first
      obtain ⟨_, _, _, _, framed⟩ := apply_utxo_transaction_frame manager tx utxo
      have fees := (apply_utxo_transaction_grown manager tx utxo).2
      rw [first] at framed fees
      dsimp only at framed fees
      rw [← fees]
      exact ih second (by rw [framed]; exact changed)
    · have more := contract_adds_fees plain first
      have further := (apply_transactions_grown rest middle remaining).fees.length_le
      rw [second] at further
      exact more.trans_le further

end Growing
end StateManager
end Klomang
