import Klomang.State.VTrieCaches
import Klomang.StateManager.Blocks

/-! Relations between managers that transactions keep. A transaction reads of a manager the contents of its tree and nothing
else, so two managers with the same contents end with the same outcome, whatever else differs between them. -/
namespace Klomang

section Simulations
variable [Blake3] [Bandersnatch] {S : Type}

/-- A relation that every step of a transaction keeps: it sees the contents of the trees, and both managers get the same
fees, spend the same outputs and create the same outputs. -/
structure Simulation (relation : StateManager S → StateManager S → Prop) : Prop where
  contents : ∀ left right, relation left right → VerkleTree.SameContents left.tree right.tree
  replace : ∀ left right (tree other : VerkleTree S), relation left right → VerkleTree.SameContents tree other →
    relation { left with tree } { right with tree := other }
  charge : ∀ left right (fee : GasFeeWitness), relation left right →
    relation { left with blockGasFees := left.blockGasFees ++ [fee] }
      { right with blockGasFees := right.blockGasFees ++ [fee] }
  spend : ∀ left right outpoint output, relation left right →
    relation (left.spendOutput outpoint output) (right.spendOutput outpoint output)
  create : ∀ left right key outpoint output, relation left right →
    relation (left.createOutput key outpoint output) (right.createOutput key outpoint output)

/-- Two calls end together: the same outcome, related managers, and the same of everything else. -/
structure Ends (relation : StateManager S → StateManager S → Prop) {Result Else : Type}
    (left right : Result × StateManager S × Else) : Prop where
  outcome : left.1 = right.1
  managers : relation left.2.1 right.2.1
  others : left.2.2 = right.2.2

variable {relation : StateManager S → StateManager S → Prop} {left right : StateManager S} {Result Else : Type}

theorem Ends.same (related : relation left right) (result : Result) (others : Else) :
    Ends relation (result, left, others) (result, right, others) := ⟨rfl, related, rfl⟩

variable [Storage S]

theorem Simulation.state_read (simulation : Simulation relation) (related : relation left right) (key : Bytes32) :
    left.stateRead key = right.stateRead key := by
  rw [StateManager.stateRead, StateManager.stateRead, (simulation.contents _ _ related).get]

theorem Simulation.state_write (simulation : Simulation relation) (related : relation left right) (key : Bytes32)
    (value : List UInt8) : relation (left.stateWrite key value) (right.stateWrite key value) :=
  simulation.replace _ _ _ _ related ((simulation.contents _ _ related).insert key value)

end Simulations

section Contracts
variable [Blake3] [Bandersnatch] [Wasmer] {S : Type} [Storage S] {relation : StateManager S → StateManager S → Prop}
  {left right : StateManager S}

/-- A contract sees of a manager what its tree holds. -/
theorem Simulation.call_run (simulation : Simulation relation) (guest : Guest) (related : relation left right)
    (gas : GasMeter) : Ends relation (VMExecutor.callRun guest left gas) (VMExecutor.callRun guest right gas) := by
  induction guest generalizing left right gas with
  | returned points => exact .same related _ _
  | trapped msg => exact .same related _ _
  | stateRead points key outLen next ih =>
    unfold VMExecutor.callRun
    rcases gas.chargeStateRead with ⟨charged, gas⟩
    cases charged with
    | error error => exact .same related _ _
    | ok _ =>
      dsimp only
      cases VMExecutor.chargeMeteringFromHost points GasMeter.stateReadCost with
      | error error => exact .same related _ _
      | ok points =>
        cases key with
        | error msg => exact .same related _ _
        | ok key =>
          dsimp only
          rw [simulation.state_read related]
          cases right.stateRead (VMExecutor.keyBytes key) with
          | error error => exact .same related _ _
          | ok value =>
            cases value with
            | none => exact ih _ _ related _
            | some value =>
              dsimp only
              split
              · exact .same related _ _
              · exact ih _ _ related _
  | stateWrite points key data next ih =>
    unfold VMExecutor.callRun
    cases key with
    | error msg => exact .same related _ _
    | ok key =>
      cases data with
      | error msg => exact .same related _ _
      | ok data =>
        dsimp only
        rw [simulation.state_read related]
        cases right.stateRead (VMExecutor.keyBytes key) with
        | error error => exact .same related _ _
        | ok existing =>
          dsimp only
          rcases gas.chargeStateWrite existing.isNone with ⟨charged, gas⟩
          cases charged with
          | error error => exact .same related _ _
          | ok _ =>
            dsimp only
            cases VMExecutor.chargeMeteringFromHost points (GasMeter.stateWriteCost existing.isNone) with
            | error error => exact .same related _ _
            | ok points => exact ih _ (simulation.state_write related _ _) _
  | selfDestruct key next ih =>
    unfold VMExecutor.callRun
    cases key with
    | error msg => exact .same related _ _
    | ok key => exact ih (simulation.replace _ _ _ _ related ((simulation.contents _ _ related).prune_key _).2) _

theorem Simulation.execute_module (simulation : Simulation relation) (module : Wasmer.Module) (related : relation left right)
    (gas : GasMeter) (gasLimit : UInt64) {tree other : VerkleTree S} (same : VerkleTree.SameContents tree other) :
    (VMExecutor.executeModule module left gas gasLimit tree).1 =
        (VMExecutor.executeModule module right gas gasLimit other).1 ∧
      relation (VMExecutor.executeModule module left gas gasLimit tree).2
        (VMExecutor.executeModule module right gas gasLimit other).2 := by
  have restored := simulation.replace _ _ _ _ related same
  unfold VMExecutor.executeModule
  cases Wasmer.instantiate module with
  | error msg => exact ⟨rfl, restored⟩
  | ok start =>
    dsimp only
    rcases VMExecutor.callStart (start gasLimit.toNat) gas with ⟨outcome, gas⟩
    cases outcome with
    | error msg => exact ⟨rfl, restored⟩
    | ok _ =>
      dsimp only
      cases Wasmer.run module with
      | error msg => exact ⟨rfl, restored⟩
      | ok guest =>
        dsimp only
        have called := simulation.call_run (guest (gasLimit.toNat - gas.consumedHost)) related gas
        rcases first : VMExecutor.callRun (guest (gasLimit.toNat - gas.consumedHost)) left gas
          with ⟨outcome, later, meter⟩
        rcases second : VMExecutor.callRun (guest (gasLimit.toNat - gas.consumedHost)) right gas
          with ⟨again, otherLater, otherMeter⟩
        rw [first, second] at called
        obtain ⟨outcomes, managers, meters⟩ := called
        cases outcomes
        cases meters
        cases outcome with
        | error msg => exact ⟨rfl, simulation.replace _ _ _ _ managers same⟩
        | ok points =>
          cases points with
          | none => exact ⟨rfl, simulation.replace _ _ _ _ managers same⟩
          | some points => exact ⟨rfl, managers⟩

theorem Simulation.execute (simulation : Simulation relation) (wasmBytes : List UInt8) (related : relation left right)
    (gasLimit : UInt64) :
    (VMExecutor.execute wasmBytes left gasLimit).1 = (VMExecutor.execute wasmBytes right gasLimit).1 ∧
      relation (VMExecutor.execute wasmBytes left gasLimit).2 (VMExecutor.execute wasmBytes right gasLimit).2 := by
  unfold VMExecutor.execute
  rw [VerkleTree.clone_ok, VerkleTree.clone_ok]
  dsimp only
  rcases (GasMeter.new gasLimit).chargeIntrinsic with ⟨charged, gas⟩
  cases charged with
  | error error => exact ⟨rfl, related⟩
  | ok _ =>
    dsimp only
    rcases gas.chargePayload wasmBytes with ⟨charged, gas⟩
    cases charged with
    | error error => exact ⟨rfl, related⟩
    | ok _ =>
      dsimp only
      cases Wasmer.compile wasmBytes with
      | error msg => exact ⟨rfl, related⟩
      | ok module => exact simulation.execute_module module related gas gasLimit (simulation.contents _ _ related).cloned

end Contracts

namespace StateManager
variable [Blake3] [Bandersnatch] {S : Type} {relation : StateManager S → StateManager S → Prop} {left right : StateManager S}

section Outputs

theorem spend_inputs_related (simulation : Simulation relation) (tx : Transaction) (inputs : List TxInput)
    (related : relation left right) (utxo : UtxoSet) :
    Ends relation (spendInputs tx inputs left utxo) (spendInputs tx inputs right utxo) := by
  induction inputs generalizing left right utxo with
  | nil => exact .same related _ _
  | cons input rest ih =>
    rw [spendInputs, spendInputs]
    cases utxo.utxos.lookup input.outpoint with
    | none => exact .same related _ _
    | some output => exact ih (simulation.spend _ _ _ _ related) _

theorem create_outputs_related (simulation : Simulation relation) (tx : Transaction) (outputs : List (TxOutput × Nat))
    (related : relation left right) (utxo : UtxoSet) :
    relation (createOutputs tx outputs left utxo).1 (createOutputs tx outputs right utxo).1 ∧
      (createOutputs tx outputs left utxo).2 = (createOutputs tx outputs right utxo).2 := by
  induction outputs generalizing left right utxo with
  | nil => exact ⟨related, rfl⟩
  | cons item rest ih => exact ih (simulation.create _ _ _ _ _ related) _

theorem apply_utxo_transaction_related (simulation : Simulation relation) (tx : Transaction) (related : relation left right)
    (utxo : UtxoSet) : Ends relation (left.applyUtxoTransaction tx utxo) (right.applyUtxoTransaction tx utxo) := by
  have spent := spend_inputs_related simulation tx tx.inputs related utxo
  rw [applyUtxoTransaction, applyUtxoTransaction]
  rcases first : spendInputs tx tx.inputs left utxo with ⟨outcome, later, remaining⟩
  rcases second : spendInputs tx tx.inputs right utxo with ⟨again, otherLater, otherRemaining⟩
  rw [first, second] at spent
  obtain ⟨outcomes, managers, sets⟩ := spent
  cases outcomes
  cases sets
  cases outcome with
  | error error => exact .same managers _ _
  | ok _ =>
    obtain ⟨created, set⟩ := create_outputs_related simulation tx tx.outputs.zipIdx managers remaining
    exact ⟨rfl, created, set⟩

end Outputs

section Transactions
variable [Wasmer] [Storage S]

theorem execute_contract_related (simulation : Simulation relation) (tx : Transaction) (related : relation left right) :
    (left.executeContract tx).1 = (right.executeContract tx).1 ∧
      relation (left.executeContract tx).2 (right.executeContract tx).2 := by
  have executed := simulation.execute tx.executionPayload related tx.gasLimit
  unfold executeContract
  rw [VerkleTree.clone_ok, VerkleTree.clone_ok]
  dsimp only
  split
  · exact ⟨rfl, related⟩
  rcases first : VMExecutor.execute tx.executionPayload left tx.gasLimit with ⟨outcome, later⟩
  rcases second : VMExecutor.execute tx.executionPayload right tx.gasLimit with ⟨again, otherLater⟩
  rw [first, second] at executed
  obtain ⟨outcomes, managers⟩ := executed
  cases outcomes
  cases outcome with
  | error abort =>
    cases abort with
    | panic => exact ⟨rfl, managers⟩
    | err error => exact ⟨rfl, simulation.replace _ _ _ _ managers (simulation.contents _ _ related).cloned⟩
  | ok gasUsed => exact ⟨rfl, simulation.charge _ _ _ managers⟩

theorem apply_transaction_related (simulation : Simulation relation) (tx : Transaction) (related : relation left right)
    (utxo : UtxoSet) : Ends relation (left.applyTransaction tx utxo) (right.applyTransaction tx utxo) := by
  unfold applyTransaction applyContractTransition
  split
  · exact apply_utxo_transaction_related simulation tx related utxo
  have executed := execute_contract_related simulation tx related
  rcases first : left.executeContract tx with ⟨outcome, later⟩
  rcases second : right.executeContract tx with ⟨again, otherLater⟩
  rw [first, second] at executed
  obtain ⟨outcomes, managers⟩ := executed
  cases outcomes
  cases outcome with
  | error error => exact .same managers _ _
  | ok _ => exact apply_utxo_transaction_related simulation tx managers utxo

/-- What one transaction keeps a list of them keeps. -/
theorem apply_transactions_related (simulation : Simulation relation) (txs : List Transaction) (related : relation left right)
    (utxo : UtxoSet) : Ends relation (applyTransactions txs left utxo) (applyTransactions txs right utxo) := by
  induction txs generalizing left right utxo with
  | nil => exact .same related _ _
  | cons tx rest ih =>
    have applied := apply_transaction_related simulation tx related utxo
    rw [applyTransactions, applyTransactions]
    rcases first : left.applyTransaction tx utxo with ⟨outcome, later, remaining⟩
    rcases second : right.applyTransaction tx utxo with ⟨again, otherLater, otherRemaining⟩
    rw [first, second] at applied
    obtain ⟨outcomes, managers, sets⟩ := applied
    cases outcomes
    cases sets
    cases outcome with
    | error error => exact .same managers _ _
    | ok _ => exact ih managers remaining

end Transactions
end StateManager
end Klomang
