import Klomang.Consensus.BurnBan
import Klomang.Lib.Runs
import Klomang.State.BlockchainAtomicity
import Klomang.State.BlockchainWhole

/-! Runs of calls on a `BlockchainState`: where held outputs come from, and what is left of a chain of blocks that is
reverted. -/
namespace Klomang.BlockchainState
namespace Whole

section Calls

/-- The state and the snapshots that were taken of it. -/
structure Session where
  state : Whole
  snapshots : List Whole

inductive Call where
  | markLeafForPruning (outpoint : OutPoint) (epoch timestamp : UInt64)
  | pruneLeaf (outpoint : OutPoint)
  | pruneOlderThan (order : Enumeration OutPoint) (epochThreshold : UInt64)
  | setFinalizingBlock (block : Hash)
  | updateVirtualScore (score : UInt64)
  | markPruned (block : Hash)
  | applyBlock (block : BlockNode)
  | revertBlock (block : BlockNode)
  | snapshot
  /-- Back to one of the snapshots. -/
  | restore (index : Nat)

variable [Blake3] [SchnorrScheme]

def Session.step (session : Session) : Call → Session
  | .markLeafForPruning outpoint epoch timestamp =>
    { session with state := session.state.markLeafForPruning outpoint epoch timestamp }
  | .pruneLeaf outpoint => { session with state := (session.state.pruneLeaf outpoint).2 }
  | .pruneOlderThan order epochThreshold => { session with state := (session.state.pruneOlderThan order epochThreshold).2 }
  | .setFinalizingBlock block => { session with state := session.state.setFinalizingBlock block }
  | .updateVirtualScore score => { session with state := session.state.updateVirtualScore score }
  | .markPruned block => { session with state := session.state.markPruned block }
  | .applyBlock block => { session with state := (session.state.applyBlock block).2 }
  | .revertBlock block => { session with state := (session.state.revertBlock block).2 }
  | .snapshot => { session with snapshots := session.snapshots ++ [session.state.snapshot] }
  | .restore index =>
    match session.snapshots[index]? with
    | some snapshot => { session with state := session.state.restore snapshot }
    | none => session

end Calls

/-! Every held output is one that an accepted transaction created. -/
section Origins
variable {Origin : OutPoint → TxOutput → Prop} {map other : FiniteMap OutPoint TxOutput} {set later : UtxoSet}
  {spentOutputs : FiniteMap OutPoint TxOutput}

/-- Every entry of a map has an origin. -/
def Founded (Origin : OutPoint → TxOutput → Prop) (map : FiniteMap OutPoint TxOutput) : Prop :=
  ∀ outpoint output, map.lookup outpoint = some output → Origin outpoint output

theorem founded_empty : Founded Origin ∅ := by
  intro outpoint output found
  simp at found

theorem Founded.erase (founded : Founded Origin map) (outpoint : OutPoint) : Founded Origin (map.erase outpoint) := by
  intro other output found
  rw [FiniteMap.lookup_erase_ite] at found
  split at found
  · cases found
  · exact founded other output found

theorem Founded.insert (founded : Founded Origin map) {outpoint : OutPoint} {output : TxOutput}
    (origin : Origin outpoint output) : Founded Origin (map.insert outpoint output) := by
  intro other value found
  rw [FiniteMap.lookup_insert_ite] at found
  split at found
  next same =>
    cases found
    exact same ▸ origin
  · exact founded other value found

/-- A transaction whose outputs have an origin leaves a set whose outputs have one. -/
theorem Founded.after (founded : Founded Origin set.utxos) {tx : Transaction}
    (origins : ∀ entry ∈ UtxoSet.outputsOf tx, Origin entry.1 entry.2) : Founded Origin (set.after tx).utxos := by
  intro outpoint output found
  rw [UtxoSet.lookup_after, Option.or_eq_some_iff] at found
  rcases found with made | ⟨_, kept⟩
  · obtain ⟨entry, member, same⟩ := List.mem_map.mp (Edit.mem_of_last (Option.join_eq_some_iff.mp made))
    cases same
    exact origins entry member
  · split at kept
    · cases kept
    · exact founded outpoint output kept

theorem Founded.save_spent (saved : Founded Origin spentOutputs) (founded : Founded Origin set.utxos)
    (inputs : List TxInput) : Founded Origin (saveSpent set spentOutputs inputs) := by
  intro outpoint output found
  rw [lookup_save_spent, Option.or_eq_some_iff] at found
  rcases found with here | ⟨_, before⟩
  · split at here
    · exact founded outpoint output here
    · cases here
  · exact saved outpoint output before

theorem Founded.remove_created (founded : Founded Origin set.utxos) (created : List (OutPoint × TxOutput)) :
    Founded Origin (set.removeCreated created).2.utxos := by
  induction created generalizing set with
  | nil => exact founded
  | cons entry rest ih =>
    rw [UtxoSet.removeCreated]
    split
    · exact ih (founded.erase entry.1)
    · exact founded

theorem Founded.restore_spent (founded : Founded Origin set.utxos) (saved : Founded Origin spentOutputs)
    (spent : List OutPoint) : Founded Origin (set.restoreSpent spentOutputs spent).2.utxos := by
  induction spent generalizing set with
  | nil => exact founded
  | cons key rest ih =>
    rw [UtxoSet.restoreSpent]
    split
    next output found => exact ih (founded.insert (saved key output found))
    · exact founded

theorem Founded.revert_tx (founded : Founded Origin set.utxos) (saved : Founded Origin spentOutputs)
    (changes : UtxoChangeSet) : Founded Origin (set.revertTx changes spentOutputs).2.utxos := by
  have removed := founded.remove_created changes.created
  rw [UtxoSet.revertTx]
  split
  next failed => rwa [failed] at removed
  next succeeded =>
    rw [succeeded] at removed
    exact removed.restore_spent saved changes.spent

/-- Undoing transactions, as far as it gets, brings nothing back that has no origin. -/
theorem Founded.rollback (founded : Founded Origin set.utxos) (saved : Founded Origin spentOutputs)
    (changesets : List UtxoChangeSet) : Founded Origin (rollback spentOutputs set changesets).2.utxos := by
  induction changesets generalizing set with
  | nil => exact founded
  | cons changeset rest ih =>
    have reverted := founded.revert_tx saved changeset
    rw [BlockchainState.rollback]
    split
    next failed => rwa [failed] at reverted
    next succeeded =>
      rw [succeeded] at reverted
      exact ih reverted

theorem Founded.remove_outputs (founded : Founded Origin set.utxos) (id : Hash) (outputs : List (TxOutput × Nat)) :
    Founded Origin (removeOutputs set id outputs).utxos := by
  induction outputs generalizing set with
  | nil => exact founded
  | cons item rest ih => exact ih (founded.erase _)

theorem Founded.revert_transactions (founded : Founded Origin set.utxos) (txs : List Transaction) :
    Founded Origin (txs.foldl (fun set tx => removeOutputs set tx.id tx.outputs.zipIdx) set).utxos := by
  induction txs generalizing set with
  | nil => exact founded
  | cons tx rest ih => exact ih (founded.remove_outputs tx.id tx.outputs.zipIdx)

theorem Founded.erased {state : Whole} (founded : Founded Origin state.utxoSet.utxos) (outpoints : List OutPoint) :
    Founded Origin (state.erased outpoints).utxoSet.utxos := by
  intro outpoint output found
  rw [(lookup_erased state outpoints outpoint).1] at found
  split at found
  · cases found
  · exact founded outpoint output found

/-- The outputs of the state and those of its snapshots have an origin. -/
structure Session.Founded (Origin : OutPoint → TxOutput → Prop) (session : Session) : Prop where
  state : Whole.Founded Origin session.state.utxoSet.utxos
  snapshots : ∀ snapshot ∈ session.snapshots, Whole.Founded Origin snapshot.utxoSet.utxos

theorem Session.Founded.mono {session : Session} {Further : OutPoint → TxOutput → Prop}
    (founded : session.Founded Origin) (wider : ∀ outpoint output, Origin outpoint output → Further outpoint output) :
    session.Founded Further :=
  ⟨fun outpoint output found => wider outpoint output (founded.state outpoint output found),
    fun snapshot member outpoint output found =>
      wider outpoint output (founded.snapshots snapshot member outpoint output found)⟩

variable [Blake3] [SchnorrScheme]

/-- The transactions of a block, applied or refused, leave outputs that were there or that one of them created. -/
theorem Founded.apply_transactions (founded : Founded Origin set.utxos) (saved : Founded Origin spentOutputs)
    {txs : List Transaction}
    (origins : ∀ tx ∈ txs, (∃ set, Accepts set tx) → ∀ entry ∈ UtxoSet.outputsOf tx, Origin entry.1 entry.2)
    (changesets : List UtxoChangeSet) :
    Founded Origin (applyTransactions changesets spentOutputs set txs).2.utxos := by
  induction txs generalizing set spentOutputs changesets with
  | nil => exact founded
  | cons tx rest ih =>
    obtain ⟨here, further⟩ := List.forall_mem_cons.mp origins
    have kept := saved.save_spent founded tx.inputs
    rw [applyTransactions]
    cases checked : set.validateTx tx with
    | ok fee =>
      rw [UtxoSet.apply_tx_ok checked]
      exact ih (founded.after (here ⟨set, fee, checked⟩)) kept further _
    | error error =>
      rw [UtxoSet.apply_tx_error checked]
      have undone := founded.rollback kept changesets.reverse
      dsimp only
      split
      next failed => rwa [failed] at undone
      next succeeded => rwa [succeeded] at undone

/-- An output that an accepted transaction of one of the blocks creates at the outpoint. -/
def Created (calls : List Call) (outpoint : OutPoint) (output : TxOutput) : Prop :=
  ∃ block, .applyBlock block ∈ calls ∧ ∃ tx ∈ block.transactions, (∃ set, Accepts set tx) ∧
    (outpoint, output) ∈ UtxoSet.outputsOf tx

/-- What a call leaves has an origin when what the block that it applies creates has one. -/
theorem Session.Founded.step {session : Session} (founded : session.Founded Origin) {call : Call}
    (origins : ∀ outpoint output, Created [call] outpoint output → Origin outpoint output) :
    (session.step call).Founded Origin := by
  cases call with
  | markLeafForPruning outpoint epoch timestamp => exact ⟨founded.state, founded.snapshots⟩
  | pruneLeaf outpoint => exact ⟨founded.state.erase outpoint, founded.snapshots⟩
  | pruneOlderThan order epochThreshold =>
    refine ⟨?_, founded.snapshots⟩
    rw [Session.step, prune_older_than_eq]
    exact founded.state.erased _
  | setFinalizingBlock block => exact ⟨founded.state, founded.snapshots⟩
  | updateVirtualScore score => exact ⟨founded.state, founded.snapshots⟩
  | markPruned block => exact ⟨founded.state, founded.snapshots⟩
  | applyBlock block =>
    refine ⟨founded.state.apply_transactions founded_empty (fun tx member accepted entry created => ?_) [],
      founded.snapshots⟩
    exact origins entry.1 entry.2 ⟨block, List.mem_singleton_self _, tx, member, accepted, created⟩
  | revertBlock block => exact ⟨founded.state.revert_transactions _, founded.snapshots⟩
  | snapshot =>
    refine ⟨founded.state, fun snapshot member => ?_⟩
    rcases List.mem_append.mp member with before | new
    · exact founded.snapshots snapshot before
    · rw [List.mem_singleton.mp new]
      exact founded.state
  | restore index =>
    rw [Session.step]
    split
    next snapshot found => exact ⟨founded.snapshots snapshot (List.mem_of_getElem? found), founded.snapshots⟩
    · exact founded

theorem Created.mono {calls more : List Call} (part : calls ⊆ more) {outpoint : OutPoint} {output : TxOutput}
    (created : Created calls outpoint output) : Created more outpoint output := by
  obtain ⟨block, member, rest⟩ := created
  exact ⟨block, part member, rest⟩

theorem run_created (calls : List Call) : (Runs.run Session.step ⟨.new, []⟩ calls).Founded (Created calls) := by
  induction calls using List.reverseRecOn with
  | nil => exact ⟨founded_empty, fun snapshot member => absurd member List.not_mem_nil⟩
  | append_singleton calls call ih =>
    rw [Runs.run_snoc]
    exact (ih.mono fun _ _ created => created.mono (List.subset_append_left _ _)).step
      fun _ _ created => created.mono (List.subset_append_right _ _)

/-- No accepted transaction creates what `validate_tx` takes for a burn. -/
theorem Created.spared {calls : List Call} {outpoint : OutPoint} {output : TxOutput}
    (created : Created calls outpoint output) :
    output.pubkeyHash ≠ Hash.new EconomicConstants.burnAddress.bytes := by
  intro burns
  obtain ⟨_, _, tx, _, ⟨set, fee, accepted⟩, member⟩ := created
  obtain ⟨⟨_, _⟩, listed, same⟩ := List.mem_map.mp member
  cases same
  rw [(BurnBan.refused_by_ledger_iff output).mpr burns set tx (List.fst_mem_of_mem_zipIdx listed)] at accepted
  cases accepted

end Origins

/-! Reverting a chain of blocks, the last one first. -/
section Reverting
variable [Blake3] [SchnorrScheme] {set : UtxoSet} {txs : List Transaction} {state : Whole} {blocks : List BlockNode}
  {outpoint : OutPoint}

/-- A transaction creates an outpoint or spends it. -/
def Touches (tx : Transaction) (outpoint : OutPoint) : Prop := outpoint ∈ createdBy tx ∨ outpoint ∈ spentBy tx

instance (tx : Transaction) (outpoint : OutPoint) : Decidable (Touches tx outpoint) := inferInstanceAs (Decidable (_ ∨ _))

def applyStep (state : Whole) (block : BlockNode) : Whole := (state.applyBlock block).2

def revertStep (state : Whole) (block : BlockNode) : Whole := (state.revertBlock block).2

/-- The block is applied. -/
def Applies (state : Whole) (block : BlockNode) : Prop := (state.applyBlock block).1 = .ok ()

omit [Blake3] [SchnorrScheme] in
theorem remove_outputs_eq (set : UtxoSet) (tx : Transaction) :
    removeOutputs set tx.id tx.outputs.zipIdx = set.without (createdBy tx) := by
  rw [removeOutputs, UtxoSet.without, createdBy, UtxoSet.outputsOf, List.map_map, List.foldl_map]
  generalize tx.outputs.zipIdx = outputs
  induction outputs generalizing set with
  | nil => rfl
  | cons item rest ih => exact ih _

omit [Blake3] [SchnorrScheme] in
/-- What is left of an outpoint that some transactions do not create. -/
theorem lookup_run_uncreated (set : UtxoSet) (uncreated : ∀ tx ∈ txs, outpoint ∉ createdBy tx) :
    (Runs.run UtxoSet.after set txs).utxos.lookup outpoint =
      if ∃ tx ∈ txs, outpoint ∈ spentBy tx then none else set.utxos.lookup outpoint := by
  induction txs using List.reverseRecOn with
  | nil => simp
  | append_singleton txs tx ih =>
    have before := ih fun other member => uncreated other (List.mem_append_left _ member)
    have either : (∃ other ∈ txs ++ [tx], outpoint ∈ spentBy other) ↔
        (∃ other ∈ txs, outpoint ∈ spentBy other) ∨ outpoint ∈ spentBy tx := by
      simp [or_and_right, exists_or]
    have last := UtxoSet.lookup_after (Runs.run UtxoSet.after set txs) tx outpoint
    rw [(UtxoSet.made_eq_none_iff tx outpoint).mpr (uncreated tx (by simp)), Option.none_or, before] at last
    rw [Runs.run_snoc]
    refine last.trans ?_
    simp only [either]
    by_cases spent : outpoint ∈ spentBy tx
    · exact (if_pos spent).trans (if_pos (.inr spent)).symm
    · refine (if_neg spent).trans ?_
      simp only [spent, or_false]

omit [Blake3] [SchnorrScheme] in
theorem lookup_reverted (state : Whole) (block : BlockNode) (outpoint : OutPoint) :
    (revertStep state block).utxoSet.utxos.lookup outpoint =
      if ∃ tx ∈ block.transactions, outpoint ∈ createdBy tx then none else state.utxoSet.utxos.lookup outpoint := by
  have looks (set : UtxoSet) (txs : List Transaction) :
      (txs.foldl (fun set tx => removeOutputs set tx.id tx.outputs.zipIdx) set).utxos.lookup outpoint =
        if ∃ tx ∈ txs, outpoint ∈ createdBy tx then none else set.utxos.lookup outpoint := by
    induction txs generalizing set with
    | nil => simp
    | cons tx rest ih =>
      rw [List.foldl_cons, ih, remove_outputs_eq, UtxoSet.lookup_without]
      by_cases created : outpoint ∈ createdBy tx <;> simp [created]
  refine (looks state.utxoSet block.transactions.reverse).trans ?_
  simp only [List.mem_reverse]

/-- What a block leaves of the outputs when it is applied. -/
theorem Applies.ran {block : BlockNode} (applies : Applies state block) :
    state.toBlockchainState.applyBlock block =
      (.ok (), ⟨Runs.run UtxoSet.after state.utxoSet block.transactions⟩) := by
  rcases found : refusal state.utxoSet block.transactions with _ | ⟨before, refused, error⟩
  · rw [BlockchainState.applyBlock, apply_transactions_accepted [] ∅ found]
  · obtain ⟨wrong, failed⟩ := apply_block_refused found
    cases failed.symm.trans applies

theorem Applies.after {block : BlockNode} (applies : Applies state block) :
    applyStep state block = { state with utxoSet := Runs.run UtxoSet.after state.utxoSet block.transactions } := by
  rw [applyStep, applyBlock, applies.ran]

/-- Some blocks applied and then reverted leave nothing of what they touched, and everything else. -/
theorem reverted_blocks (applied : Runs.Meets applyStep state Applies blocks) :
    ∃ left : UtxoSet,
      Runs.run revertStep (Runs.run applyStep state blocks) blocks.reverse = { state with utxoSet := left } ∧
      ∀ outpoint, left.utxos.lookup outpoint =
        if ∃ block ∈ blocks, ∃ tx ∈ block.transactions, Touches tx outpoint then none
        else state.utxoSet.utxos.lookup outpoint := by
  induction blocks generalizing state with
  | nil => exact ⟨state.utxoSet, rfl, fun outpoint => by simp⟩
  | cons block rest ih =>
    obtain ⟨first, further⟩ := (Runs.meets_cons block rest).mp applied
    obtain ⟨left, ran, looks⟩ := ih further
    rw [show Runs.run applyStep state (block :: rest) = Runs.run applyStep (applyStep state block) rest from rfl,
      List.reverse_cons, Runs.run_snoc, ran]
    refine ⟨(revertStep { applyStep state block with utxoSet := left } block).utxoSet, ?_, fun outpoint => ?_⟩
    · rw [first.after]
      rfl
    · rw [lookup_reverted]
      dsimp only
      rw [looks, first.after]
      by_cases created : ∃ tx ∈ block.transactions, outpoint ∈ createdBy tx
      · obtain ⟨tx, member, here⟩ := created
        rw [if_pos ⟨tx, member, here⟩, if_pos ⟨block, List.mem_cons_self, tx, member, .inl here⟩]
      · rw [if_neg created, lookup_run_uncreated _ fun tx member here => created ⟨tx, member, here⟩]
        have now : (∃ tx ∈ block.transactions, Touches tx outpoint) ↔
            ∃ tx ∈ block.transactions, outpoint ∈ spentBy tx :=
          exists_congr fun tx => and_congr_right fun member =>
            or_iff_right fun here => created ⟨tx, member, here⟩
        simp only [List.exists_mem_cons_iff, now]
        by_cases later : ∃ block ∈ rest, ∃ tx ∈ block.transactions, Touches tx outpoint <;> simp [later]

/-- `revert_block` undoes a chain of blocks exactly when they touch nothing that was held before them: whatever they
spent is lost, and so is what they created over. -/
theorem blocks_reverted_iff (applied : Runs.Meets applyStep state Applies blocks) :
    (∀ outpoint, (Runs.run revertStep (Runs.run applyStep state blocks) blocks.reverse).utxoSet.utxos.lookup outpoint =
      if ∃ block ∈ blocks, ∃ tx ∈ block.transactions, Touches tx outpoint then none
      else state.utxoSet.utxos.lookup outpoint) ∧
    (Runs.run revertStep (Runs.run applyStep state blocks) blocks.reverse = state ↔
      ∀ outpoint, state.utxoSet.utxos.lookup outpoint ≠ none →
        ∀ block ∈ blocks, ∀ tx ∈ block.transactions, ¬ Touches tx outpoint) := by
  obtain ⟨left, ran, looks⟩ := reverted_blocks applied
  rw [ran]
  refine ⟨looks, fun same outpoint held block member tx listed touches => held ?_, fun apart => ?_⟩
  · have here := looks outpoint
    rw [if_pos ⟨block, member, tx, listed, touches⟩] at here
    rw [← same]
    exact here
  · have same : left = state.utxoSet := utxo_set_ext fun outpoint => by
      rw [looks]
      split
      next touched =>
        obtain ⟨block, member, tx, listed, touches⟩ := touched
        by_contra held
        exact apart outpoint (Ne.symm held) block member tx listed touches
      · rfl
    rw [same]

end Reverting

section Witness
open Klomang.Sample

/-- The state after a block with a coinbase. -/
def paid : Whole := applyStep .new (blockWith [coinbase])

/-- A block that repeats the coinbase is applied, and reverting it takes the coin of the block before away. -/
theorem repeated_reward_reverted :
    Runs.run revertStep (Runs.run applyStep paid [blockWith [coinbase]]) [blockWith [coinbase]] ≠ paid := by
  have applied : Runs.Meets applyStep paid Applies [blockWith [coinbase]] :=
    (Runs.meets_cons _ _).mpr ⟨rfl, Runs.meets_nil⟩
  have held : paid.utxoSet.utxos.lookup (coinbase.id, 0) = some ⟨5, .replicate 9⟩ := by decide +kernel
  have created : (coinbase.id, 0) ∈ createdBy coinbase := by decide +kernel
  intro same
  exact (blocks_reverted_iff applied).2.mp same (coinbase.id, 0) (by rw [held]; simp) _ (List.mem_singleton_self _)
    coinbase (List.mem_singleton_self _) (.inl created)

end Witness

end Whole
end Klomang.BlockchainState
