import Klomang.State.VTrieTombstones
import Klomang.StateManager.Outcomes

/-! What contracts do to the state tree: the writes and the deletions that a run of host calls makes, in order. -/
namespace Klomang

namespace VMExecutor
variable [Blake3] [Bandersnatch] [Wasmer] {S : Type} [Storage S]

/-- The changes of the tree that a running module makes until it returns or traps. -/
def hostOps : Guest → StateManager S → GasMeter → List VerkleTree.Operation
  | .returned _, _, _ => []
  | .trapped _, _, _ => []
  | .stateRead points key outLen next, manager, gas =>
    match gas.chargeStateRead with
    | (.error _, _) => []
    | (.ok (), gas) =>
      match chargeMeteringFromHost points GasMeter.stateReadCost with
      | .error _ => []
      | .ok points =>
        match key with
        | .error _ => []
        | .ok key =>
          match manager.stateRead (keyBytes key) with
          | .error _ => []
          | .ok none => hostOps (next points none) manager gas
          | .ok (some value) =>
            if value.length > outLen then [] else hostOps (next points (some value)) manager gas
  | .stateWrite points key data next, manager, gas =>
    match key with
    | .error _ => []
    | .ok key =>
      match data with
      | .error _ => []
      | .ok data =>
        match manager.stateRead (keyBytes key) with
        | .error _ => []
        | .ok existing =>
          match gas.chargeStateWrite existing.isNone with
          | (.error _, _) => []
          | (.ok (), gas) =>
            match chargeMeteringFromHost points (GasMeter.stateWriteCost existing.isNone) with
            | .error _ => []
            | .ok points =>
              .insert (keyBytes key) data :: hostOps (next points) (manager.stateWrite (keyBytes key) data) gas
  | .selfDestruct key next, manager, gas =>
    match key with
    | .error _ => []
    | .ok key =>
      let tree := (manager.tree.pruneKey (keyBytes key)).2
      .pruneKey (keyBytes key) :: hostOps next { manager with tree } gas.refundSelfDestruct

/-- The changes of the tree that `execute` makes when it succeeds. -/
def executeOps (wasmBytes : List UInt8) (manager : StateManager S) (gasLimit : UInt64) : List VerkleTree.Operation :=
  match (GasMeter.new gasLimit).chargeIntrinsic with
  | (.error _, _) => []
  | (.ok (), gas) =>
    match gas.chargePayload wasmBytes with
    | (.error _, _) => []
    | (.ok (), gas) =>
      match Wasmer.compile wasmBytes with
      | .error _ => []
      | .ok module =>
        match Wasmer.run module with
        | .error _ => []
        | .ok guest => hostOps (guest (gasLimit.toNat - gas.consumedHost)) manager gas

/-- A host call either writes or deletes a key. -/
def OfHost (operation : VerkleTree.Operation) : Prop :=
  (∃ key value, operation = .insert key value) ∨ ∃ key, operation = .pruneKey key

/-- A module leaves the tree that its changes make, and nothing else of the manager is touched. -/
theorem call_run_ops (guest : Guest) (manager : StateManager S) (gas : GasMeter) :
    (callRun guest manager gas).2.1 =
        { manager with tree := Runs.run VerkleTree.perform manager.tree (hostOps guest manager gas) } ∧
      ∀ operation ∈ hostOps guest manager gas, OfHost operation := by
  induction guest generalizing manager gas with
  | returned points => exact ⟨rfl, by simp [hostOps]⟩
  | trapped msg => exact ⟨rfl, by simp [hostOps]⟩
  | stateRead points key outLen next ih =>
    unfold callRun hostOps
    rcases gas.chargeStateRead with ⟨charged, gas⟩
    cases charged with
    | error error => exact ⟨rfl, by simp⟩
    | ok _ =>
      dsimp only
      cases chargeMeteringFromHost points GasMeter.stateReadCost with
      | error error => exact ⟨rfl, by simp⟩
      | ok points =>
        cases key with
        | error msg => exact ⟨rfl, by simp⟩
        | ok key =>
          dsimp only
          cases manager.stateRead (keyBytes key) with
          | error error => exact ⟨rfl, by simp⟩
          | ok value =>
            cases value with
            | none => exact ih _ _ _ _
            | some value =>
              dsimp only
              split
              · exact ⟨rfl, by simp⟩
              · exact ih _ _ _ _
  | stateWrite points key data next ih =>
    unfold callRun hostOps
    cases key with
    | error msg => exact ⟨rfl, by simp⟩
    | ok key =>
      cases data with
      | error msg => exact ⟨rfl, by simp⟩
      | ok data =>
        dsimp only
        cases manager.stateRead (keyBytes key) with
        | error error => exact ⟨rfl, by simp⟩
        | ok existing =>
          dsimp only
          rcases gas.chargeStateWrite existing.isNone with ⟨charged, gas⟩
          cases charged with
          | error error => exact ⟨rfl, by simp⟩
          | ok _ =>
            dsimp only
            cases chargeMeteringFromHost points (GasMeter.stateWriteCost existing.isNone) with
            | error error => exact ⟨rfl, by simp⟩
            | ok points =>
              obtain ⟨ran, host⟩ := ih points (manager.stateWrite (keyBytes key) data) gas
              refine ⟨ran, List.forall_mem_cons.mpr ⟨.inl ⟨_, _, rfl⟩, host⟩⟩
  | selfDestruct key next ih =>
    unfold callRun hostOps
    cases key with
    | error msg => exact ⟨rfl, by simp⟩
    | ok key =>
      obtain ⟨ran, host⟩ := ih { manager with tree := (manager.tree.pruneKey (keyBytes key)).2 } gas.refundSelfDestruct
      exact ⟨ran, List.forall_mem_cons.mpr ⟨.inr ⟨_, rfl⟩, host⟩⟩

/-- A contract that succeeds leaves the tree that its changes make. -/
theorem execute_ops {wasmBytes : List UInt8} {manager later : StateManager S} {gasLimit : UInt64} {gasUsed : Nat}
    (ran : execute wasmBytes manager gasLimit = (.ok gasUsed, later)) :
    later.tree = Runs.run VerkleTree.perform manager.tree (executeOps wasmBytes manager gasLimit) ∧
      ∀ operation ∈ executeOps wasmBytes manager gasLimit, OfHost operation := by
  unfold execute at ran
  unfold executeOps
  rw [VerkleTree.clone_ok] at ran
  dsimp only at ran
  rcases intrinsic : (GasMeter.new gasLimit).chargeIntrinsic with ⟨charged, gas⟩
  rw [intrinsic] at ran
  cases charged with
  | error error => cases ran
  | ok _ =>
    dsimp only at ran ⊢
    rcases payload : gas.chargePayload wasmBytes with ⟨charged, gas⟩
    rw [payload] at ran
    cases charged with
    | error error => cases ran
    | ok _ =>
      dsimp only at ran ⊢
      cases compiled : Wasmer.compile wasmBytes with
      | error msg => simp [compiled] at ran
      | ok module =>
        simp only [compiled, executeModule] at ran
        dsimp only
        split at ran
        · cases ran
        split at ran
        · cases ran
        rename_i started
        obtain ⟨_, rfl⟩ := call_start_ok started
        cases running : Wasmer.run module with
        | error msg => simp [running] at ran
        | ok guest =>
          simp only [running] at ran
          dsimp only
          obtain ⟨called, host⟩ := call_run_ops (guest (gasLimit.toNat - gas.consumedHost)) manager gas
          refine ⟨?_, host⟩
          split at ran <;> rename_i same <;> rw [same] at called <;> cases ran
          dsimp only at called
          rw [called]

end VMExecutor

namespace StateManager
variable [Blake3] [Bandersnatch] [Wasmer] {S : Type} [Storage S]

/-- The changes of the tree that the contract of a transaction makes. -/
def contractOps (manager : StateManager S) (tx : Transaction) : List VerkleTree.Operation :=
  if tx.executionPayload.isEmpty && tx.contractAddress.isNone then []
  else VMExecutor.executeOps tx.executionPayload manager tx.gasLimit

/-- The changes of the tree that the contracts of some transactions make, as far as these go through. -/
def contractsOps : List Transaction → StateManager S → UtxoSet → List VerkleTree.Operation
  | [], _, _ => []
  | tx :: rest, manager, utxo =>
    match manager.applyTransaction tx utxo with
    | (.error _, _, _) => []
    | (.ok (), later, left) => manager.contractOps tx ++ contractsOps rest later left

variable {manager later : StateManager S} {utxo left : UtxoSet} {tx : Transaction} {txs : List Transaction}

omit [Wasmer] [Storage S] in
theorem apply_utxo_transaction_tree (manager : StateManager S) (tx : Transaction) (utxo : UtxoSet) :
    (manager.applyUtxoTransaction tx utxo).2.1.tree = manager.tree := by
  obtain ⟨_, _, _, _, framed⟩ := apply_utxo_transaction_frame manager tx utxo
  rw [framed]

theorem apply_transaction_ops (ran : manager.applyTransaction tx utxo = (.ok (), later, left)) :
    later.tree = Runs.run VerkleTree.perform manager.tree (manager.contractOps tx) ∧
      ∀ operation ∈ manager.contractOps tx, VMExecutor.OfHost operation := by
  unfold applyTransaction at ran
  unfold contractOps
  split at ran
  next plain =>
    have kept := apply_utxo_transaction_tree manager tx utxo
    rw [ran] at kept
    rw [if_pos plain]
    exact ⟨kept, by simp⟩
  next contract =>
    rw [if_neg contract]
    unfold applyContractTransition at ran
    split at ran <;> rename_i same
    · cases ran
    · obtain ⟨_, _, _, executed, rfl⟩ := execute_contract_ok_iff.mp same
      obtain ⟨tree, host⟩ := VMExecutor.execute_ops executed
      refine ⟨?_, host⟩
      rw [← tree]
      have kept := congrArg (fun result => result.2.1.tree) ran
      rw [apply_utxo_transaction_tree] at kept
      exact kept.symm

theorem apply_transactions_ops (ran : applyTransactions txs manager utxo = (.ok (), later, left)) :
    later.tree = Runs.run VerkleTree.perform manager.tree (contractsOps txs manager utxo) ∧
      ∀ operation ∈ contractsOps txs manager utxo, VMExecutor.OfHost operation := by
  induction txs generalizing manager utxo with
  | nil =>
    cases ran
    exact ⟨rfl, by simp [contractsOps]⟩
  | cons tx rest ih =>
    obtain ⟨middle, remaining, first, second⟩ := apply_transactions_cons_ok ran
    obtain ⟨tree, host⟩ := apply_transaction_ops first
    obtain ⟨trees, hosts⟩ := ih second
    rw [contractsOps, first]
    refine ⟨?_, List.forall_mem_append.mpr ⟨host, hosts⟩⟩
    rw [trees, tree, Runs.run_append]

end StateManager
end Klomang
