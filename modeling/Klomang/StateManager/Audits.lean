import Klomang.StateManager.GasFees
import Klomang.StateManager.Heights

/-! What the manager can check about itself: `validate_snapshots`, `verify_global_supply` and
`verify_gas_fee_distribution`, and when these checks pass. -/
namespace Klomang.StateManager

section Checks
variable [Blake3] [Bandersnatch] {S : Type}

/-- `validate_snapshots`. -/
def validateSnapshots (manager : StateManager S) : Except StateManagerError Unit :=
  match manager.snapshots.zipIdx.find? fun (snapshot, i) => snapshot.height ≠ i with
  | some (_, i) => .error (.applyBlockFailed ("Snapshot height mismatch at index " ++ toString i))
  | none =>
    if manager.snapshots.length ≠ manager.snapshotStorages.length then
      .error (.applyBlockFailed "Snapshot and storage length mismatch")
    else .ok ()

/-- `verify_global_supply`. -/
def verifyGlobalSupply (manager : StateManager S) : Except StateManagerError Unit :=
  if manager.currentTotalSupply > EconomicConstants.maxGlobalSupplyNanoSlug then
    .error (.supplyCapExceeded ("Total supply " ++ toString manager.currentTotalSupply ++
      " exceeds maximum allowed " ++ toString EconomicConstants.maxGlobalSupplyNanoSlug))
  else .ok ()

theorem validate_snapshots_ok_iff (manager : StateManager S) :
    manager.validateSnapshots = .ok () ↔
      manager.snapshots.map StateSnapshot.height = List.range manager.snapshots.length ∧
        manager.snapshots.length = manager.snapshotStorages.length := by
  have heights : manager.snapshots.zipIdx.find? (fun (snapshot, i) => snapshot.height ≠ i) = none ↔
      manager.snapshots.map StateSnapshot.height = List.range manager.snapshots.length := by
    rw [List.find?_eq_none]
    constructor
    · intro none
      refine List.ext_getElem (by simp) fun i inside _ => ?_
      have listed : i < manager.snapshots.length := by simpa using inside
      have here := none (manager.snapshots[i], i) (List.mk_mem_zipIdx_iff_getElem?.mpr (List.getElem?_eq_getElem listed))
      simpa using here
    · rintro all ⟨snapshot, i⟩ member
      obtain ⟨inside, rfl⟩ := List.getElem?_eq_some_iff.mp (List.mk_mem_zipIdx_iff_getElem?.mp member)
      have height := congrArg (fun heights => heights[i]?) all
      simpa [inside] using height
  rw [validateSnapshots, ← heights]
  cases manager.snapshots.zipIdx.find? fun (snapshot, i) => snapshot.height ≠ i with
  | some wrong => simp
  | none => simp

theorem verify_global_supply_ok_iff (manager : StateManager S) :
    manager.verifyGlobalSupply = .ok () ↔
      manager.currentTotalSupply ≤ EconomicConstants.maxGlobalSupplyNanoSlug := by
  rw [verifyGlobalSupply]
  split
  · exact iff_of_false (by simp) (by omega)
  · exact iff_of_true rfl (by omega)

end Checks

section Fees

/-- Every witness is accepted by `verify_gas_fee_distribution`. -/
def AllVerified (fees : List GasFeeWitness) : Prop := ∀ witness ∈ fees, verifyGasFeeDistribution witness = true

theorem all_verified_added {fees : List GasFeeWitness} (verified : AllVerified fees) {totalGasFee : Nat}
    (narrow : totalGasFee ≤ u128Max) : AllVerified (fees ++ [createGasFeeWitness totalGasFee]) := by
  intro witness member
  rcases List.mem_append.mp member with before | new
  · exact verified witness before
  · rw [List.mem_singleton.mp new]
    exact witness_verified narrow

variable [Blake3] [Bandersnatch] [Wasmer] {S : Type} [Storage S] {manager : StateManager S}

/-- A contract that is run adds a witness that is accepted, or none. -/
theorem execute_contract_verified (verified : AllVerified manager.blockGasFees) (tx : Transaction) :
    AllVerified (manager.executeContract tx).2.blockGasFees := by
  obtain ⟨tree, executed, _⟩ := execute_tree_only tx.executionPayload manager tx.gasLimit
  unfold executeContract
  rw [VerkleTree.clone_ok]
  dsimp only
  split
  · exact verified
  split <;> rename_i same <;> rw [same] at executed <;> dsimp only at executed <;> subst executed
  · exact all_verified_added verified (Nat.min_le_right _ _)
  · exact verified
  · exact verified

theorem apply_transaction_verified (verified : AllVerified manager.blockGasFees) (tx : Transaction) (utxo : UtxoSet) :
    AllVerified (manager.applyTransaction tx utxo).2.1.blockGasFees := by
  unfold applyTransaction applyContractTransition
  split
  · obtain ⟨_, _, _, _, applied⟩ := apply_utxo_transaction_frame manager tx utxo
    rw [applied]
    exact verified
  · have executed := execute_contract_verified verified tx
    split <;> rename_i same <;> rw [same] at executed
    · exact executed
    · obtain ⟨_, _, _, _, applied⟩ := apply_utxo_transaction_frame _ tx utxo
      rw [applied]
      exact executed

theorem apply_transactions_verified (verified : AllVerified manager.blockGasFees) (txs : List Transaction) (utxo : UtxoSet) :
    AllVerified (applyTransactions txs manager utxo).2.1.blockGasFees := by
  induction txs generalizing manager utxo with
  | nil => exact verified
  | cons tx rest ih =>
    have applied := apply_transaction_verified verified tx utxo
    rw [applyTransactions]
    split
    next failed => rwa [failed] at applied
    next succeeded =>
      rw [succeeded] at applied
      exact ih applied _

/-- The witnesses of a block that is applied are accepted. -/
theorem apply_block_verified {later : StateManager S} {block : BlockNode} {utxo left : UtxoSet}
    (ran : manager.applyBlock block utxo = (.ok (), later, left)) : AllVerified later.blockGasFees := by
  obtain ⟨_, applied, tree, recorded, txs, _, recording, rfl⟩ := apply_block_ran ran
  obtain ⟨_, _, _, _, _, _, rfl⟩ := record_snapshot_ok recording
  have fresh : AllVerified ({ manager with applyingBlock := true } : StateManager S).startBlock.blockGasFees :=
    fun witness member => absurd member List.not_mem_nil
  have verified := apply_transactions_verified fresh block.transactions utxo
  rwa [txs] at verified

end Fees

section Effects
variable [Blake3] [Bandersnatch] {S : Type} [Storage S] {manager : StateManager S}

/-- A rollback leaves the manager, or what one of its snapshots says. -/
theorem rollback_cases (sound : manager.Sound) (height : Nat) :
    ((∃ error, manager.rollbackState height = (.error (.err error), manager)) ∧
      ∃ error, manager.rollback height = (.error (.err error), manager)) ∨
    ∃ snapshot tree other, manager.snapshots[height]? = some snapshot ∧
      manager.rollbackState height = (.ok (), manager.rolledBack height snapshot tree) ∧
      manager.rollback height = (.ok (), manager.rolledBack height snapshot other) := by
  by_cases within : height ≤ manager.currentHeight
  · obtain ⟨snapshot, storage, found, there, _, records⟩ := sound.at_height within
    exact .inr ⟨snapshot, _, _, found, rollback_state_ok sound found there records, rollback_ok sound found there records⟩
  · exact .inl ⟨rollback_state_beyond (Nat.lt_of_not_le within), rollback_beyond (Nat.lt_of_not_le within)⟩

/-- What a call can do to the supply, the gas fees and the snapshots. -/
inductive Effect [Wasmer] (session : Session S) (call : Call) (after : StateManager S) : Prop where
  | kept (snapshots : after.snapshots <+: session.manager.snapshots)
      (fees : after.blockGasFees = session.manager.blockGasFees)
      (supply : after.currentTotalSupply = session.manager.currentTotalSupply)
  | applied (block : BlockNode) (left : UtxoSet)
      (ran : session.manager.applyBlock block session.utxo = (.ok (), after, left))
  | rolledBack (height : Nat) (snapshot : StateSnapshot) (tree : VerkleTree S)
      (found : session.manager.snapshots[height]? = some snapshot)
      (back : after = session.manager.rolledBack height snapshot tree)
  | transaction (tx : Transaction) (named : call = .applyTransaction tx)
      (done : after = (session.manager.applyTransaction tx session.utxo).2.1)

variable [Wasmer]

theorem apply_block_effect {session : Session S} (sound : session.manager.Sound) (call : Call) (block : BlockNode) :
    Effect session call (session.manager.applyBlock block session.utxo).2.1 := by
  rcases sound.apply_block_cases block session.utxo with ⟨later, left, ran⟩ | ⟨error, failed⟩
  · exact .applied block left (by rw [ran])
  · rw [failed]
    exact .kept List.prefix_rfl rfl rfl

variable [SchnorrScheme] [Channel]

theorem step_effect {session : Session S} (sound : session.manager.Sound) (call : Call) :
    Effect session call (session.step call).manager := by
  have same : Effect session call session.manager := .kept List.prefix_rfl rfl rfl
  cases call with
  | applyBlock block => exact apply_block_effect sound _ block
  | validateAndApplyBlock clock order block dag consensus =>
    dsimp only [Session.step]
    rcases validate_and_apply_block_cases session.manager clock order block session.utxo dag consensus with
      ⟨error, refused⟩ | ⟨_, applied⟩
    · rw [refused]
      exact same
    · rw [applied]
      exact apply_block_effect sound _ block
  | applyTransaction tx => exact .transaction tx rfl rfl
  | rollbackState targetHeight =>
    dsimp only [Session.step]
    rcases rollback_cases sound targetHeight with ⟨⟨error, refused⟩, _⟩ | ⟨snapshot, tree, _, found, back, _⟩
    · rw [refused]
      exact same
    · exact .rolledBack targetHeight snapshot tree found (congrArg Prod.snd back)
  | rollback targetHeight =>
    dsimp only [Session.step]
    rcases rollback_cases sound targetHeight with ⟨_, ⟨error, refused⟩⟩ | ⟨snapshot, _, tree, found, _, back⟩
    · rw [refused]
      exact same
    · exact .rolledBack targetHeight snapshot tree found (congrArg Prod.snd back)
  | restoreFromSnapshot snapshotRoot height =>
    dsimp only [Session.step]
    rcases restore_from_snapshot_cases sound snapshotRoot height with
      ⟨⟨error, refused⟩, _⟩ | ⟨snapshot, storage, _, _, _, _, restored⟩
    · rw [refused]
      exact same
    · rw [restored]
      exact .kept (List.take_prefix _ _) rfl rfl
  | markOutpointForPruning outpoint epoch timestamp => exact .kept List.prefix_rfl rfl rfl
  | executePruningCycle order epochThreshold =>
    obtain ⟨⟨tree, index, markers, pruned, _⟩, _⟩ := prune_each_frame
      (session.manager.keysToPrune order epochThreshold) [] session.manager session.utxo
    dsimp only [Session.step, executePruningCycle]
    rw [pruned]
    exact .kept List.prefix_rfl rfl rfl
  | stateWrite key value => exact .kept List.prefix_rfl rfl rfl
  | getRootHash =>
    obtain ⟨tree, asked, _⟩ := get_root_hash_frame session.manager
    dsimp only [Session.step]
    rw [asked]
    exact .kept List.prefix_rfl rfl rfl
  | getCurrentState =>
    obtain ⟨tree, asked, _⟩ := get_current_state_frame session.manager
    dsimp only [Session.step]
    rw [asked]
    exact .kept List.prefix_rfl rfl rfl
  | crossCheckSupplyConsistency =>
    obtain ⟨tree, asked, _⟩ := cross_check_frame session.manager session.utxo
    dsimp only [Session.step]
    rw [asked]
    exact .kept List.prefix_rfl rfl rfl
  | passUtxo utxo => exact same

end Effects

section Audits
variable [Blake3] [Bandersnatch] [Wasmer] {S : Type} [Storage S] {session : Session S} {call : Call}
  {after : StateManager S}

/-- The witnesses of the manager and those of its snapshots are accepted, and no snapshot is over the supply cap. -/
structure Audited (manager : StateManager S) : Prop where
  fees : AllVerified manager.blockGasFees
  snapshots : ∀ snapshot ∈ manager.snapshots,
    snapshot.totalSupply ≤ EconomicConstants.maxGlobalSupplyNanoSlug ∧ AllVerified snapshot.gasFees

theorem Audited.effect (audited : Audited session.manager) (effect : Effect session call after) : Audited after := by
  cases effect with
  | kept snapshots fees supply =>
    exact ⟨fees ▸ audited.fees, fun snapshot member => audited.snapshots snapshot (snapshots.subset member)⟩
  | applied block left ran =>
    have applied := apply_block_ok ran
    have verified := apply_block_verified ran
    obtain ⟨root, recorded, _⟩ := applied.recorded
    refine ⟨verified, fun snapshot member => ?_⟩
    rw [recorded] at member
    rcases List.mem_append.mp member with before | new
    · exact audited.snapshots snapshot before
    · rw [List.mem_singleton.mp new]
      exact ⟨applied.capped, verified⟩
  | rolledBack height snapshot tree found back =>
    subst back
    exact ⟨(audited.snapshots snapshot (List.mem_of_getElem? found)).2,
      fun other member => audited.snapshots other (List.mem_of_mem_take member)⟩
  | transaction tx named done =>
    subst done
    refine ⟨apply_transaction_verified audited.fees tx session.utxo, ?_⟩
    rw [(apply_transaction_frame session.manager tx session.utxo).1.snapshots]
    exact audited.snapshots

/-- Everything but a transaction on its own keeps the supply under the cap. -/
theorem Audited.capped (audited : Audited session.manager) (effect : Effect session call after)
    (blockwise : ∀ tx, call ≠ .applyTransaction tx)
    (capped : session.manager.currentTotalSupply ≤ EconomicConstants.maxGlobalSupplyNanoSlug) :
    after.currentTotalSupply ≤ EconomicConstants.maxGlobalSupplyNanoSlug := by
  cases effect with
  | kept snapshots fees supply => exact supply ▸ capped
  | applied block left ran => exact (apply_block_ok ran).capped
  | rolledBack height snapshot tree found back =>
    subst back
    exact (audited.snapshots snapshot (List.mem_of_getElem? found)).1
  | transaction tx named done => exact absurd named (blockwise tx)

variable [SchnorrScheme] [Channel]

theorem run_audited (sound : session.manager.Sound) (audited : Audited session.manager) (calls : List Call) :
    Audited (Runs.run Session.step session calls).manager := by
  refine (Runs.run_keeps (fun session : Session S => session.manager.Sound ∧ Audited session.manager) ⟨sound, audited⟩
    (fun session call kept => ?_) calls).2
  exact ⟨step_sound kept.1 call, kept.2.effect (step_effect kept.1 call)⟩

/-- The supply stays under the cap over any calls but transactions on their own. -/
theorem run_capped (sound : session.manager.Sound) (audited : Audited session.manager)
    (capped : session.manager.currentTotalSupply ≤ EconomicConstants.maxGlobalSupplyNanoSlug) {calls : List Call}
    (blockwise : ∀ tx, .applyTransaction tx ∉ calls) :
    (Runs.run Session.step session calls).manager.currentTotalSupply ≤ EconomicConstants.maxGlobalSupplyNanoSlug := by
  refine (Runs.run_invariant (fun session : Session S => (session.manager.Sound ∧ Audited session.manager) ∧
      session.manager.currentTotalSupply ≤ EconomicConstants.maxGlobalSupplyNanoSlug)
    (fun call => ∀ tx, call ≠ .applyTransaction tx) ⟨⟨sound, audited⟩, capped⟩
    (fun session call other kept => ?_) calls fun call member tx same => blockwise tx (same ▸ member)).2
  have effect := step_effect kept.1.1 call
  exact ⟨⟨step_sound kept.1.1 call, kept.1.2.effect effect⟩, kept.1.2.capped effect other kept.2⟩

/-- The manager passes its own checks after any calls: its snapshots are in order, every gas fee witness it keeps is
accepted, no snapshot is over the supply cap; and neither is the manager itself, unless transactions were applied to it
outside of blocks. -/
theorem audits_pass {tree : VerkleTree S} (built : VerkleTree.Built tree) {manager : StateManager S}
    (made : StateManager.new tree = .ok manager) (utxo : UtxoSet) (calls : List Call) :
    let reached := (Runs.run Session.step ⟨manager, utxo⟩ calls).manager
    reached.validateSnapshots = .ok () ∧ Audited reached ∧
      ((∀ tx, .applyTransaction tx ∉ calls) → reached.verifyGlobalSupply = .ok ()) := by
  intro reached
  have start : manager.Sound := run_sound built made utxo []
  have sound : reached.Sound := run_sound built made utxo calls
  have initial : Audited manager ∧ manager.currentTotalSupply = 0 := by
    rw [new_ok built.coherent] at made
    cases made
    refine ⟨⟨fun witness member => absurd member List.not_mem_nil, fun snapshot member => ?_⟩, rfl⟩
    rw [List.mem_singleton.mp member]
    exact ⟨Nat.zero_le _, fun witness member => absurd member List.not_mem_nil⟩
  refine ⟨(validate_snapshots_ok_iff _).mpr ⟨?_, sound.records.length_eq⟩, run_audited start initial.1 calls,
    fun blockwise => (verify_global_supply_ok_iff _).mpr ?_⟩
  · rw [sound.counted]
    exact sound.heights
  · exact run_capped start initial.1 (initial.2 ▸ Nat.zero_le _) blockwise

end Audits

section Witness
open Klomang.Sample

/-- The checks pass after a coinbase is applied, rolled back and applied again. -/
theorem reward_audited :
    let reached := (Runs.run Session.step ⟨manager, .new⟩
      [.applyBlock (blockOf [reward 5]), .rollback 0, .applyBlock (blockOf [reward 5])]).manager
    reached.validateSnapshots = .ok () ∧ Audited reached ∧ reached.verifyGlobalSupply = .ok () := by
  obtain ⟨ordered, audited, capped⟩ := audits_pass manager_built manager_made .new
    [.applyBlock (blockOf [reward 5]), .rollback 0, .applyBlock (blockOf [reward 5])]
  exact ⟨ordered, audited, capped (by simp)⟩

end Witness
end Klomang.StateManager
