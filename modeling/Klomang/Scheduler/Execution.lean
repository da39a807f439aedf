import Klomang.Scheduler.Grouping
import Klomang.StateManager.Caches
import Klomang.StateManager.Indices

/-! What executing groups does. A group passes when its transactions go through and the root
of the tree changes; the checkpoint taken before a group leaves out the tree and the
indices. -/
namespace Klomang.ParallelScheduler
open StateManager

section Groups
variable [Blake3] [Bandersnatch] {S : Type} {manager started : StateManager S}

/-- What a failed group leaves: only the tree and the indices differ from the manager before. -/
structure LeavesBehind (manager later restored : StateManager S) : Prop where
  contents : VerkleTree.SameContents later.tree restored.tree
  rest : restored = { manager with
    tree := restored.tree, outpointToKey := later.outpointToKey, pruneMarkers := later.pruneMarkers }

/-- Restoring the checkpoint of a manager on what transactions made of a manager alike. -/
theorem restored_leaves {later started : StateManager S} (chain : SameChain manager later)
    (grown : Grown manager later) (alike : Alike later started) (utxo : UtxoSet) (root : Option Hash) :
    ∃ restored, restoreFromCheckpoint started ⟨manager.currentHeight, manager.currentTotalSupply,
        manager.blockGasFees.length, manager.pendingUpdates.length, utxo, root⟩ = (restored, utxo) ∧
      LeavesBehind manager later restored := by
  refine ⟨_, rfl, alike.contents, ?_⟩
  rw [alike.rest]
  have fees := List.prefix_iff_eq_take.mp grown.fees
  have pending := List.prefix_iff_eq_take.mp grown.pending
  dsimp only
  rw [← fees, ← pending, chain.snapshots, chain.storages, chain.flag]

variable [Storage S]

theorem checkpoint_eq (coherent : manager.tree.Coherent) (utxo : UtxoSet) :
    ∃ tree, checkpoint manager utxo =
        (⟨manager.currentHeight, manager.currentTotalSupply, manager.blockGasFees.length,
          manager.pendingUpdates.length, utxo, some (VerkleTree.storageRoot manager.tree.storage)⟩,
          { manager with tree }) ∧
      VerkleTree.SameContents manager.tree tree ∧ tree.Coherent := by
  obtain ⟨rooted, sound⟩ := coherent.get_root
  have same := VerkleTree.same_contents_get_root manager.tree
  unfold checkpoint getRootHash
  rcases found : manager.tree.getRoot with ⟨outcome, tree⟩
  rw [found] at rooted same sound
  cases rooted
  exact ⟨tree, rfl, same, sound⟩

variable [Wasmer]

/-- A group either passes, or leaves what its transactions did to the tree and the indices;
what the manager has cached before does not matter. -/
theorem execute_group_cases (alike : Alike manager started) (coherent : started.tree.Coherent) (groupIdx : Nat)
    (group : List ScheduledTransaction) (utxo : UtxoSet) :
    let ran := applyTransactions (group.map ScheduledTransaction.tx) manager utxo
    (ran.1 = .ok () ∧
        VerkleTree.storageRoot ran.2.1.tree.storage ≠ VerkleTree.storageRoot manager.tree.storage ∧
        ∃ after, executeGroup groupIdx group started utxo = (.ok (), after, ran.2.2) ∧ Alike ran.2.1 after ∧
          after.tree.Coherent) ∨
      ((ran.1 = .ok () →
          VerkleTree.storageRoot ran.2.1.tree.storage = VerkleTree.storageRoot manager.tree.storage) ∧
        ∃ error restored, executeGroup groupIdx group started utxo = (.error (.err error), restored, utxo) ∧
          LeavesBehind manager ran.2.1 restored) := by
  intro ran
  obtain ⟨tree, checked, same, sound⟩ := checkpoint_eq coherent utxo
  obtain ⟨chain, _, noPanic⟩ := apply_transactions_frame (group.map ScheduledTransaction.tx) manager utxo
  obtain ⟨_, keeps, _⟩ := apply_transactions_frame (group.map ScheduledTransaction.tx)
    ({ started with tree } : StateManager S) utxo
  have grown := apply_transactions_grown (group.map ScheduledTransaction.tx) manager utxo
  have again := apply_transactions_alike (group.map ScheduledTransaction.tx)
    (alike.trans ⟨same, rfl⟩ : Alike manager { started with tree }) utxo
  unfold executeGroup
  rw [checked, ← alike.contents.storage, alike.rest]
  rw [alike.rest] at again keeps
  dsimp only [ran] at again keeps ⊢
  rcases first : applyTransactions (group.map ScheduledTransaction.tx) manager utxo with ⟨outcome, later, left⟩
  rcases second : applyTransactions (group.map ScheduledTransaction.tx) ({ manager with tree } : StateManager S) utxo
    with ⟨sameOutcome, middle, sameLeft⟩
  rw [first, second] at again
  rw [first] at chain noPanic grown
  rw [second] at keeps
  obtain ⟨outcomes, managers, sets⟩ := again
  cases outcomes
  cases sets
  cases outcome with
  | error abort =>
    cases abort with
    | panic => exact absurd rfl noPanic
    | err error =>
      obtain ⟨restored, restoring, leaves⟩ := restored_leaves chain grown managers utxo
        (some (VerkleTree.storageRoot manager.tree.storage))
      exact .inr ⟨nofun, _, restored, congrArg (Prod.mk _) restoring, leaves⟩
  | ok _ =>
    obtain ⟨rooted, stays⟩ := (keeps sound).get_root
    have rootAlike := alike_get_root_hash middle
    unfold getRootHash at rootAlike ⊢
    dsimp only at rooted stays rootAlike ⊢
    rcases found : middle.tree.getRoot with ⟨root, last⟩
    rw [found] at rooted stays rootAlike
    cases rooted
    dsimp only at stays rootAlike ⊢
    rw [← managers.contents.storage]
    split
    · rename_i same
      obtain ⟨restored, restoring, leaves⟩ := restored_leaves chain grown
        (managers.trans rootAlike) utxo (some (VerkleTree.storageRoot manager.tree.storage))
      exact .inr ⟨fun _ => (Option.some.inj same).symm, _, restored, congrArg (Prod.mk _) restoring, leaves⟩
    · rename_i different
      refine .inl ⟨rfl, fun same => different (congrArg some same.symm), _, rfl, ?_, stays⟩
      exact managers.trans rootAlike

end Groups

section Sequential
variable [Blake3] [Bandersnatch] {S : Type} {manager started : StateManager S}

/-- An execution went through and left what a sequential run of the same transactions left. -/
structure Matches (result : Outcome Unit × StateManager S × UtxoSet) (later : StateManager S)
    (left : UtxoSet) : Prop where
  succeeded : result.1 = .ok ()
  utxos : result.2.2 = left
  pending : (result.2.1.pendingUpdates : Multiset (Bytes32 × List UInt8)) = later.pendingUpdates
  supply : result.2.1.currentTotalSupply = later.currentTotalSupply
  index : result.2.1.outpointToKey = later.outpointToKey
  contents : VerkleTree.SameContents result.2.1.tree later.tree

theorem Matches.of_alike {later after : StateManager S} (alike : Alike later after) (left : UtxoSet) :
    Matches (.ok (), after, left) later left := by
  constructor
  case contents => exact alike.contents.symm
  all_goals rw [alike.rest]

variable [Storage S] [Wasmer] {later : StateManager S} {utxo left : UtxoSet} {txs : List Transaction}

/-- Groups that conflict are refused. -/
theorem execute_groups_refused {groups : List (List ScheduledTransaction)}
    (clash : detectGroupConflicts groups ≠ none) (manager : StateManager S) (utxo : UtxoSet) :
    ∃ error, executeGroups groups manager utxo = (.error (.err error), manager, utxo) := by
  rw [executeGroups]
  cases found : detectGroupConflicts groups with
  | none => exact absurd found clash
  | some conflict => exact ⟨_, rfl⟩

/-- Groups that do not conflict are executed from a manager alike. -/
theorem execute_groups_from (coherent : manager.tree.Coherent) {groups : List (List ScheduledTransaction)}
    (free : detectGroupConflicts groups = none) (utxo : UtxoSet) :
    ∃ started, Alike manager started ∧ started.tree.Coherent ∧
      executeGroups groups manager utxo = executeFrom 0 groups started utxo := by
  obtain ⟨tree, checked, same, sound⟩ := checkpoint_eq coherent utxo
  refine ⟨{ manager with tree }, ⟨same, rfl⟩, sound, ?_⟩
  rw [executeGroups, free, checked]

theorem execute_schedule_matches_iff (coherent : manager.tree.Coherent)
    (ran : applyTransactions (canonicalOrder txs) manager utxo = (.ok (), later, left)) :
    Matches (executeGroups (scheduleTransactions txs) manager utxo) later left ↔
      txs = [] ∨ Independent txs ∧
        VerkleTree.storageRoot later.tree.storage ≠ VerkleTree.storageRoot manager.tree.storage := by
  by_cases independent : Independent txs
  · obtain ⟨started, alike, sound, executed⟩ := execute_groups_from coherent (schedule_passes independent) utxo
    rw [executed, schedule_independent independent]
    by_cases empty : txs = []
    · subst empty
      cases ran
      rw [if_pos rfl]
      exact ⟨fun _ => .inl rfl, fun _ => .of_alike alike utxo⟩
    · rw [if_neg empty, executeFrom]
      have cases := execute_group_cases alike sound 0 (sortCanonically txs) utxo
      rw [sorted_txs, ran] at cases
      rcases cases with ⟨_, changed, after, passed, further, _⟩ | ⟨unchanged, error, restored, failed, _⟩
      · rw [passed]
        exact ⟨fun _ => .inr ⟨independent, changed⟩, fun _ => .of_alike further left⟩
      · rw [failed]
        refine ⟨fun done => absurd done.succeeded nofun, ?_⟩
        rintro (nothing | ⟨_, changed⟩)
        · exact absurd nothing empty
        · exact absurd (unchanged rfl) changed
  · obtain ⟨error, refused⟩ := execute_groups_refused (schedule_conflicting independent) manager utxo
    rw [refused]
    refine ⟨fun done => absurd done.succeeded nofun, ?_⟩
    rintro (rfl | ⟨others, _⟩)
    · exact absurd List.Pairwise.nil independent
    · exact absurd others independent

end Sequential

section Atomicity
variable [Blake3] [Bandersnatch] [Wasmer] {S : Type} [Storage S] {manager started : StateManager S}
  {utxo : UtxoSet}

/-- The groups all pass, one after another: their transactions go through and change the root. -/
def AllPass : List (List ScheduledTransaction) → StateManager S → UtxoSet → Prop
  | [], _, _ => True
  | group :: rest, manager, utxo =>
    ∃ later left, applyTransactions (group.map ScheduledTransaction.tx) manager utxo = (.ok (), later, left) ∧
      VerkleTree.storageRoot later.tree.storage ≠ VerkleTree.storageRoot manager.tree.storage ∧
      AllPass rest later left

/-- A manager and the unspent outputs are what they were, caches apart. -/
structure Untouched (manager : StateManager S) (utxo : UtxoSet) (after : StateManager S) (left : UtxoSet) :
    Prop where
  utxos : left = utxo
  contents : VerkleTree.SameContents manager.tree after.tree
  supply : after.currentTotalSupply = manager.currentTotalSupply
  fees : after.blockGasFees = manager.blockGasFees
  pending : after.pendingUpdates = manager.pendingUpdates
  index : after.outpointToKey = manager.outpointToKey
  markers : after.pruneMarkers = manager.pruneMarkers

/-- Transactions leave alone what a checkpoint does not hold: their contracts the tree, and the
moves they make both indices. -/
structure Harmless (manager : StateManager S) (utxo : UtxoSet) (txs : List Transaction) : Prop where
  contents : VerkleTree.SameContents manager.tree (applyTransactions txs manager utxo).2.1.tree
  index : Edit.Unwinds manager.outpointToKey ((allMovesMade txs manager utxo).map Move.indexEdit)
  markers : Edit.Unwinds manager.pruneMarkers ((allMovesMade txs manager utxo).filterMap Move.markerEdit)

/-- The groups go through exactly when they all pass, and gas fees are never fewer than before. -/
theorem execute_from_outcome (alike : Alike manager started) (coherent : started.tree.Coherent) (groupIdx : Nat)
    (groups : List (List ScheduledTransaction)) (utxo : UtxoSet) :
    ((executeFrom groupIdx groups started utxo).1 = .ok () ↔ AllPass groups manager utxo) ∧
      manager.blockGasFees <+: (executeFrom groupIdx groups started utxo).2.1.blockGasFees := by
  induction groups generalizing manager started utxo groupIdx with
  | nil =>
    rw [executeFrom, alike.rest]
    exact ⟨⟨fun _ => trivial, fun _ => rfl⟩, List.prefix_refl _⟩
  | cons group rest ih =>
    have grown := apply_transactions_grown (group.map ScheduledTransaction.tx) manager utxo
    have cases := execute_group_cases alike coherent groupIdx group utxo
    rw [executeFrom, AllPass]
    rcases ran : applyTransactions (group.map ScheduledTransaction.tx) manager utxo with ⟨outcome, later, left⟩
    rw [ran] at grown cases
    rcases cases with ⟨through, changed, after, passed, further, sound⟩ | ⟨unchanged, error, restored, failed, leaves⟩
    · dsimp only at through changed further passed
      subst through
      rw [passed]
      obtain ⟨onwards, more⟩ := ih further sound (groupIdx + 1) left
      refine ⟨onwards.trans ⟨fun pass => ⟨later, left, rfl, changed, pass⟩, ?_⟩, grown.fees.trans more⟩
      rintro ⟨_, _, same, _, pass⟩
      cases same
      exact pass
    · rw [failed]
      refine ⟨⟨nofun, ?_⟩, ?_⟩
      · rintro ⟨_, _, same, changed, _⟩
        cases same
        exact absurd (unchanged rfl) changed
      · rw [leaves.rest]

/-- A first group that does not pass leaves everything as it was exactly when its transactions
do no harm. -/
theorem first_failure_iff (alike : Alike manager started) (coherent : started.tree.Coherent) (groupIdx : Nat)
    (group : List ScheduledTransaction) (rest : List (List ScheduledTransaction)) (utxo : UtxoSet)
    (fails : ¬ AllPass [group] manager utxo) :
    Untouched manager utxo (executeFrom groupIdx (group :: rest) started utxo).2.1
        (executeFrom groupIdx (group :: rest) started utxo).2.2 ↔
      Harmless manager utxo (group.map ScheduledTransaction.tx) := by
  have edited := apply_transactions_reindexed (group.map ScheduledTransaction.tx) manager utxo
  have cases := execute_group_cases alike coherent groupIdx group utxo
  rw [executeFrom]
  rcases cases with ⟨through, changed, _⟩ | ⟨_, error, restored, failed, leaves⟩
  · rcases ran : applyTransactions (group.map ScheduledTransaction.tx) manager utxo with ⟨outcome, later, left⟩
    rw [ran] at through changed
    cases through
    exact absurd ⟨later, left, ran, changed, trivial⟩ fails
  · rw [failed]
    obtain ⟨contents, framed⟩ := leaves
    have index := congrArg StateManager.outpointToKey framed
    have markers := congrArg StateManager.pruneMarkers framed
    dsimp only at index markers
    rw [edited.index] at index
    rw [edited.markers] at markers
    constructor
    · intro untouched
      refine ⟨untouched.contents.trans contents.symm, ?_, ?_⟩
      · exact Edit.replay_eq_iff.mp (index.symm.trans untouched.index)
      · exact Edit.replay_eq_iff.mp (markers.symm.trans untouched.markers)
    · intro harmless
      have indexKept := index.trans (Edit.replay_eq_iff.mpr harmless.index)
      have markersKept := markers.trans (Edit.replay_eq_iff.mpr harmless.markers)
      refine ⟨rfl, harmless.contents.trans contents, ?_, ?_, ?_, indexKept, markersKept⟩ <;> rw [framed]

/-- After a first group that passes, groups that stop leave more gas fees than there were. -/
theorem later_failure (alike : Alike manager started) (coherent : started.tree.Coherent) (groupIdx : Nat)
    (group : List ScheduledTransaction) (rest : List (List ScheduledTransaction)) (utxo : UtxoSet)
    (passes : AllPass [group] manager utxo) :
    manager.blockGasFees.length < (executeFrom groupIdx (group :: rest) started utxo).2.1.blockGasFees.length := by
  obtain ⟨later, left, ran, changed, _⟩ := passes
  have more := tree_change_adds_fees ran fun same => changed (by rw [same])
  have cases := execute_group_cases alike coherent groupIdx group utxo
  rw [executeFrom]
  rw [ran] at cases
  rcases cases with ⟨_, _, after, passed, further, sound⟩ | ⟨unchanged, _⟩
  · rw [passed]
    exact more.trans_le (execute_from_outcome further sound (groupIdx + 1) rest left).2.length_le
  · exact absurd (unchanged rfl) changed

/-- Groups that do not all pass end with an error. -/
theorem execute_groups_stops (coherent : manager.tree.Coherent) {groups : List (List ScheduledTransaction)}
    (free : detectGroupConflicts groups = none) (fails : ¬ AllPass groups manager utxo) :
    ∃ error, (executeGroups groups manager utxo).1 = .error error := by
  obtain ⟨started, alike, sound, executed⟩ := execute_groups_from coherent free utxo
  rw [executed]
  cases ended : (executeFrom 0 groups started utxo).1 with
  | error error => exact ⟨error, rfl⟩
  | ok _ => exact absurd ((execute_from_outcome alike sound 0 groups utxo).1.mp ended) fails

/-- `execute_groups` undoes what a checkpoint holds of the group it stops at, and nothing else.
It leaves everything as it was exactly when it goes through, refuses groups in conflict, or
stops at the first group and that group's transactions did no harm to the tree and the
indices. -/
theorem execute_groups_atomic_iff (built : VerkleTree.Built manager.tree) (utxo : UtxoSet)
    (groups : List (List ScheduledTransaction)) :
    (∀ error, (executeGroups groups manager utxo).1 = .error error →
      Untouched manager utxo (executeGroups groups manager utxo).2.1 (executeGroups groups manager utxo).2.2) ↔
    detectGroupConflicts groups ≠ none ∨ AllPass groups manager utxo ∨
      ∃ first rest, groups = first :: rest ∧ ¬ AllPass [first] manager utxo ∧
        Harmless manager utxo (first.map ScheduledTransaction.tx) := by
  by_cases clash : detectGroupConflicts groups = none
  · obtain ⟨started, alike, sound, executed⟩ := execute_groups_from built.coherent clash utxo
    by_cases pass : AllPass groups manager utxo
    · refine ⟨fun _ => .inr (.inl pass), fun _ error failed => ?_⟩
      rw [executed, (execute_from_outcome alike sound 0 groups utxo).1.mpr pass] at failed
      cases failed
    obtain ⟨error, failed⟩ := execute_groups_stops built.coherent clash pass
    rw [executed] at failed ⊢
    cases groups with
    | nil => exact absurd trivial pass
    | cons first rest =>
      constructor
      · intro atomic
        have untouched := atomic error failed
        refine .inr (.inr ⟨first, rest, rfl, ?_⟩)
        have fails : ¬ AllPass [first] manager utxo := by
          intro passes
          have more := later_failure alike sound 0 first rest utxo passes
          rw [untouched.fees] at more
          exact absurd more (Nat.lt_irrefl _)
        exact ⟨fails, (first_failure_iff alike sound 0 first rest utxo fails).mp untouched⟩
      · rintro (refused | passes | ⟨_, _, listed, fails, harmless⟩) _ _
        · exact absurd clash refused
        · exact absurd passes pass
        · cases listed
          exact (first_failure_iff alike sound 0 first rest utxo fails).mpr harmless
  · obtain ⟨error, refused⟩ := execute_groups_refused clash manager utxo
    rw [refused]
    refine ⟨fun _ => .inl clash, fun _ _ _ => ?_⟩
    constructor
    case contents => exact .refl _
    all_goals rfl

end Atomicity

section Reward
open Klomang.Sample

private theorem fresh_built : VerkleTree.Built manager.tree := started_built manager_built

private theorem reward_ordered : canonicalOrder [reward 5] = [reward 5] := rfl

private theorem reward_ran :
    ∃ later left, applyTransactions (canonicalOrder [reward 5]) manager .new = (.ok (), later, left) ∧
      later.tree = manager.tree := by
  rw [reward_ordered]
  have plain : ∀ tx ∈ [reward 5], tx.Plain := by decide
  obtain ⟨later, left, ran, unchanged, _⟩ := apply_plain_transactions_ok manager plain reward_played
  exact ⟨later, left, ran, unchanged⟩

/-- A group without transactions is refused and leaves everything as it was. -/
theorem empty_group_harmless :
    ∃ error, (executeGroups [[]] manager .new).1 = .error error ∧
      Untouched manager .new (executeGroups [[]] manager .new).2.1 (executeGroups [[]] manager .new).2.2 := by
  have fails : ¬ AllPass [[]] manager .new := by
    rintro ⟨_, _, ran, changed, _⟩
    cases ran
    exact changed rfl
  obtain ⟨error, failed⟩ := execute_groups_stops fresh_built.coherent rfl fails
  refine ⟨error, failed, (execute_groups_atomic_iff fresh_built .new [[]]).mpr ?_ error failed⟩
  exact .inr (.inr ⟨[], [], rfl, fails, .refl _, nofun, nofun⟩)

/-- A coinbase that is refused stays in the index of the tree keys. -/
theorem refused_reward_indexed :
    ∃ error, (executeGroups (scheduleTransactions [reward 5]) manager .new).1 = .error error ∧
      ¬ Untouched manager .new (executeGroups (scheduleTransactions [reward 5]) manager .new).2.1
        (executeGroups (scheduleTransactions [reward 5]) manager .new).2.2 := by
  obtain ⟨later, left, ran, unchanged⟩ := reward_ran
  have alone : Independent [reward 5] := List.pairwise_singleton _ _
  have scheduled : scheduleTransactions [reward 5] = [sortCanonically [reward 5]] := by
    rw [schedule_independent alone, if_neg (List.cons_ne_nil _ _)]
  have free := schedule_passes alone
  rw [scheduled] at free ⊢
  have fails : ¬ AllPass [sortCanonically [reward 5]] manager .new := by
    rintro ⟨_, _, again, changed, _⟩
    rw [sorted_txs, ran] at again
    cases again
    exact changed (by rw [unchanged])
  obtain ⟨error, failed⟩ := execute_groups_stops fresh_built.coherent free fails
  obtain ⟨started, alike, sound, executed⟩ := execute_groups_from fresh_built.coherent free .new
  refine ⟨error, failed, fun untouched => ?_⟩
  rw [executed] at untouched
  have harmless := (first_failure_iff alike sound 0 _ [] .new fails).mp untouched
  rw [sorted_txs] at harmless
  have unwound := harmless.index ((reward 5).id, 0) (some (OutPoint.key ((reward 5).id, 0)))
  rw [all_moves_made ran] at unwound
  have moves : [reward 5].flatMap Transaction.moves = [.put ((reward 5).id, 0) ⟨5, .replicate 9⟩] := rfl
  rw [reward_ordered, moves, List.map_singleton, Edit.last, Edit.last, Move.indexEdit, if_pos rfl] at unwound
  cases unwound rfl

end Reward
end Klomang.ParallelScheduler
