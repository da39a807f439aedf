import Klomang.Lib.Enumeration
import Klomang.State.Blockchain
import Klomang.StateManager.Basic

/-! The rest of `core/state/mod.rs`: what `BlockchainState` keeps beside the set of unspent outputs, pruning by epochs,
undoing a block, snapshots. -/
namespace Klomang.BlockchainState

/-- `BlockchainState` with all its fields. -/
structure Whole extends BlockchainState where
  finalizingBlock : Option Hash
  virtualScore : UInt64
  /-- In the order in which they were pruned. -/
  pruned : List Hash
  pruneMarkers : FiniteMap OutPoint PruneMarker

namespace Whole

/-- `BlockchainState::new`, also `default`. -/
def new : Whole := ⟨⟨.new⟩, none, 0, [], ∅⟩

section Markers

/-- `mark_leaf_for_pruning`. -/
def markLeafForPruning (state : Whole) (outpoint : OutPoint) (epoch timestamp : UInt64) : Whole :=
  { state with pruneMarkers := state.pruneMarkers.insert outpoint ⟨epoch, timestamp⟩ }

/-- `is_leaf_marked_pruned`. -/
def isLeafMarkedPruned (state : Whole) (outpoint : OutPoint) : Bool := (state.pruneMarkers.lookup outpoint).isSome

/-- `prune_leaf`. -/
def pruneLeaf (state : Whole) (outpoint : OutPoint) : Except CoreError Unit × Whole :=
  (.ok (), { state with
    utxoSet := ⟨state.utxoSet.utxos.erase outpoint⟩
    pruneMarkers := state.pruneMarkers.erase outpoint })

/-- The marked outpoints up to an epoch, in the iteration order of the map. -/
def toPrune (state : Whole) (order : Enumeration OutPoint) (epochThreshold : UInt64) : List OutPoint :=
  (order.list state.pruneMarkers.keys).filter fun outpoint =>
    ((state.pruneMarkers.lookup outpoint).map fun marker => decide (marker.epoch ≤ epochThreshold)).getD false

/-- The loop of `prune_older_than`. -/
def pruneLeaves (state : Whole) : List OutPoint → Except CoreError Unit × Whole
  | [] => (.ok (), state)
  | outpoint :: rest =>
    match state.pruneLeaf outpoint with
    | (.error error, state) => (.error error, state)
    | (.ok (), state) => state.pruneLeaves rest

/-- `prune_older_than`. -/
def pruneOlderThan (state : Whole) (order : Enumeration OutPoint) (epochThreshold : UInt64) :
    Except CoreError (List OutPoint) × Whole :=
  let toPrune := state.toPrune order epochThreshold
  match state.pruneLeaves toPrune with
  | (.error error, state) => (.error error, state)
  | (.ok (), state) => (.ok toPrune, state)

end Markers

section Consensus

/-- `set_finalizing_block`. -/
def setFinalizingBlock (state : Whole) (block : Hash) : Whole := { state with finalizingBlock := some block }

/-- `update_virtual_score`. -/
def updateVirtualScore (state : Whole) (score : UInt64) : Whole := { state with virtualScore := score }

/-- `mark_pruned`. -/
def markPruned (state : Whole) (block : Hash) : Whole := { state with pruned := state.pruned ++ [block] }

/-- `get_virtual_score`. -/
def getVirtualScore (state : Whole) : UInt64 := state.virtualScore

end Consensus

section Blocks

/-- `apply_block`, which touches nothing but the unspent outputs. -/
def applyBlock [Blake3] [SchnorrScheme] (state : Whole) (block : BlockNode) : Except CoreError Unit × Whole :=
  match state.toBlockchainState.applyBlock block with
  | (result, applied) => (result, { state with toBlockchainState := applied })

/-- The loop of `revert_block` over the outputs of a transaction; the one over its inputs has no body. -/
def removeOutputs (set : UtxoSet) (id : Hash) (outputs : List (TxOutput × Nat)) : UtxoSet :=
  outputs.foldl (fun set (_, index) => ⟨set.utxos.erase (id, UInt32.ofNat index)⟩) set

/-- `revert_block`. -/
def revertBlock (state : Whole) (block : BlockNode) : Except CoreError Unit × Whole :=
  (.ok (), { state with
    utxoSet := block.transactions.reverse.foldl (fun set tx => removeOutputs set tx.id tx.outputs.zipIdx) state.utxoSet })

/-- `snapshot`. -/
def snapshot (state : Whole) : Whole := state

/-- `restore`. -/
def restore (_state snapshot : Whole) : Whole := snapshot

end Blocks

/-! Pruning by epochs. -/
section Pruning
variable {state : Whole} {order : Enumeration OutPoint} {epochThreshold : UInt64} {outpoint : OutPoint}

/-- Marked with an epoch up to the threshold. -/
def Expired (state : Whole) (epochThreshold : UInt64) (outpoint : OutPoint) : Prop :=
  ∃ marker, state.pruneMarkers.lookup outpoint = some marker ∧ marker.epoch ≤ epochThreshold

theorem mem_to_prune : outpoint ∈ state.toPrune order epochThreshold ↔ state.Expired epochThreshold outpoint := by
  rw [toPrune, List.mem_filter, order.mem, Finmap.mem_keys, ← Finmap.lookup_isSome]
  cases found : state.pruneMarkers.lookup outpoint with
  | none => simp [Expired, found]
  | some marker => simp [Expired, found]

theorem to_prune_nodup (state : Whole) (order : Enumeration OutPoint) (epochThreshold : UInt64) :
    (state.toPrune order epochThreshold).Nodup := (order.nodup _).filter _

/-- The state without some outpoints and their markers. -/
def erased (state : Whole) (outpoints : List OutPoint) : Whole :=
  { state with
    utxoSet := ⟨outpoints.foldl (fun utxos outpoint => utxos.erase outpoint) state.utxoSet.utxos⟩
    pruneMarkers := outpoints.foldl (fun markers outpoint => markers.erase outpoint) state.pruneMarkers }

theorem lookup_erase_all {V : Type} (map : FiniteMap OutPoint V) (outpoints : List OutPoint) (outpoint : OutPoint) :
    (outpoints.foldl (fun map outpoint => map.erase outpoint) map).lookup outpoint =
      if outpoint ∈ outpoints then none else map.lookup outpoint := by
  induction outpoints generalizing map with
  | nil => simp
  | cons first rest ih =>
    rw [List.foldl_cons, ih, FiniteMap.lookup_erase_ite]
    by_cases same : outpoint = first <;> simp [same]

theorem prune_leaves_eq (state : Whole) (outpoints : List OutPoint) :
    state.pruneLeaves outpoints = (.ok (), state.erased outpoints) := by
  induction outpoints generalizing state with
  | nil => rfl
  | cons outpoint rest ih =>
    rw [pruneLeaves, pruneLeaf]
    exact ih _

theorem prune_older_than_eq (state : Whole) (order : Enumeration OutPoint) (epochThreshold : UInt64) :
    state.pruneOlderThan order epochThreshold =
      (.ok (state.toPrune order epochThreshold), state.erased (state.toPrune order epochThreshold)) := by
  rw [pruneOlderThan, prune_leaves_eq]

theorem lookup_erased (state : Whole) (outpoints : List OutPoint) (outpoint : OutPoint) :
    (state.erased outpoints).utxoSet.utxos.lookup outpoint =
        (if outpoint ∈ outpoints then none else state.utxoSet.utxos.lookup outpoint) ∧
      (state.erased outpoints).pruneMarkers.lookup outpoint =
        if outpoint ∈ outpoints then none else state.pruneMarkers.lookup outpoint :=
  ⟨lookup_erase_all _ _ _, lookup_erase_all _ _ _⟩

theorem erased_append (state : Whole) (first second : List OutPoint) :
    (state.erased first).erased second = state.erased (first ++ second) := by
  simp only [erased, List.foldl_append]

/-- What is erased is a matter of members. -/
theorem erased_congr {first second : List OutPoint} (same : ∀ outpoint, outpoint ∈ first ↔ outpoint ∈ second) :
    state.erased first = state.erased second := by
  have looks {V : Type} (map : FiniteMap OutPoint V) :
      first.foldl (fun map outpoint => map.erase outpoint) map =
        second.foldl (fun map outpoint => map.erase outpoint) map :=
    Finmap.ext_lookup fun outpoint => by simp only [lookup_erase_all, same]
  simp only [erased, looks]

/-- What expires later expired before, and is still marked. -/
theorem expired_erased_iff (gone : List OutPoint) :
    (state.erased gone).Expired epochThreshold outpoint ↔ state.Expired epochThreshold outpoint ∧ outpoint ∉ gone := by
  rw [Expired, (lookup_erased state gone outpoint).2]
  by_cases member : outpoint ∈ gone
  · simp [member]
  · rw [if_neg member, and_iff_left member, Expired]

/-- A call of `prune_older_than`: an iteration order and a threshold. -/
abbrev Cycle : Type := Enumeration OutPoint × UInt64

/-- The state after one call. -/
def pruneStep (state : Whole) (cycle : Cycle) : Whole := (state.pruneOlderThan cycle.1 cycle.2).2

/-- What one call returns. -/
def returned (state : Whole) (cycle : Cycle) : List OutPoint := (state.pruneOlderThan cycle.1 cycle.2).1.toOption.getD []

theorem prune_step_eq (state : Whole) (cycle : Cycle) :
    state.pruneStep cycle = state.erased (state.toPrune cycle.1 cycle.2) := by
  rw [pruneStep, prune_older_than_eq]

theorem returned_eq (state : Whole) (cycle : Cycle) : state.returned cycle = state.toPrune cycle.1 cycle.2 := by
  rw [returned, prune_older_than_eq]
  rfl

/-- What some calls return leaves the state, and is what expired for one of them, each outpoint once. -/
theorem prunings_erase (state : Whole) (cycles : List Cycle) :
    Runs.run pruneStep state cycles = state.erased (Runs.gather pruneStep returned state cycles) ∧
      (Runs.gather pruneStep returned state cycles).Nodup ∧
      ∀ outpoint, outpoint ∈ Runs.gather pruneStep returned state cycles ↔
        ∃ cycle ∈ cycles, state.Expired cycle.2 outpoint := by
  induction cycles using List.reverseRecOn with
  | nil => exact ⟨rfl, List.nodup_nil, fun outpoint => by simp [Runs.gather]⟩
  | append_singleton cycles cycle ih =>
    obtain ⟨ran, distinct, members⟩ := ih
    have further (outpoint : OutPoint) : outpoint ∈ (Runs.run pruneStep state cycles).returned cycle ↔
        state.Expired cycle.2 outpoint ∧ outpoint ∉ Runs.gather pruneStep returned state cycles := by
      rw [returned_eq, mem_to_prune, ran, expired_erased_iff]
    rw [Runs.run_snoc, Runs.gather_snoc]
    refine ⟨?_, ?_, fun outpoint => ?_⟩
    · rw [prune_step_eq, ← returned_eq, ran, erased_append]
    · refine List.nodup_append'.mpr ⟨distinct, ?_, fun outpoint before after => ((further outpoint).mp after).2 before⟩
      rw [returned_eq]
      exact to_prune_nodup _ _ _
    · rw [List.mem_append, further, members]
      simp only [List.mem_append, List.mem_singleton, or_and_right, exists_or, exists_eq_left]
      by_cases earlier : ∃ cycle ∈ cycles, state.Expired cycle.2 outpoint <;> simp [earlier]

/-- The largest of some thresholds is one of them, and none is above it. -/
theorem largest_spec (first : UInt64) (rest : List UInt64) :
    rest.foldl max first ∈ first :: rest ∧ ∀ threshold ∈ first :: rest, threshold ≤ rest.foldl max first := by
  induction rest generalizing first with
  | nil => simp
  | cons second rest ih =>
    obtain ⟨attained, above⟩ := ih (max first second)
    have either : max first second = first ∨ max first second = second := by
      rw [UInt64.max_def]
      split <;> simp
    have both : first ≤ max first second ∧ second ≤ max first second := by
      rw [UInt64.max_def]
      split
      next below => exact ⟨below, UInt64.le_refl _⟩
      next notBelow => exact ⟨UInt64.le_refl _, UInt64.le_of_lt (UInt64.not_le.mp notBelow)⟩
    have top := above _ List.mem_cons_self
    refine ⟨?_, ?_⟩
    · rcases List.mem_cons.mp attained with same | later
      · rw [List.foldl_cons, same]
        rcases either with left | right
        · rw [left]
          exact List.mem_cons_self
        · rw [right]
          exact List.mem_cons_of_mem _ List.mem_cons_self
      · exact List.mem_cons_of_mem _ (List.mem_cons_of_mem _ later)
    · simp only [List.forall_mem_cons, List.foldl_cons]
      exact ⟨UInt64.le_trans both.1 top, UInt64.le_trans both.2 top,
        fun threshold member => above threshold (List.mem_cons_of_mem _ member)⟩

end Pruning
end Whole
end Klomang.BlockchainState
