import Klomang.Lib.FirstFit
import Klomang.Scheduler.Rounds

/-! Which conflicting transactions keep their canonical order. A transaction that a conflict delays can be
overtaken by a later one that it also conflicts with. -/
namespace Klomang.ParallelScheduler

section Depths
variable [Blake3]

/-- The access sets of two transactions conflict. -/
def txConflicts (tx other : Transaction) : Bool := tx.generateAccessSet.hasConflict other.generateAccessSet

/-- The depths of the earlier transactions that a transaction conflicts with. -/
def conflictDepths (before : List Transaction) (tx : Transaction) : List Nat :=
  Greedy.worths txConflicts Greedy.height before.reverse tx

/-- The length of the longest chain of conflicts, in canonical order, that leads to a transaction. -/
def conflictDepth (before : List Transaction) (tx : Transaction) : Nat := Greedy.height (conflictDepths before tx)

end Depths

section Order
variable {txs : List Transaction}

/-- With distinct ids the canonical order is the order of the keys. -/
theorem canonical_precedes_iff (distinct : (txs.map Transaction.id).Nodup) {left right : Transaction}
    (here : left ∈ canonicalOrder txs) (there : right ∈ canonicalOrder txs) :
    [left, right].Sublist (canonicalOrder txs) ↔ canonicalOrderKey left 0 < canonicalOrderKey right 0 := by
  have ordered : (canonicalOrder txs).Pairwise fun left right => canonicalOrderKey left 0 ≤ canonicalOrderKey right 0 :=
    List.pairwise_insertionSort _ txs
  have permuted := List.perm_insertionSort (fun left right => canonicalOrderKey left 0 ≤ canonicalOrderKey right 0) txs
  have apart : ((canonicalOrder txs).map Transaction.id).Nodup := (permuted.map _).nodup_iff.mpr distinct
  constructor
  · intro pair
    have below : canonicalOrderKey left 0 ≤ canonicalOrderKey right 0 := by simpa using ordered.sublist pair
    have different : left.id ≠ right.id := by simpa using apart.sublist (pair.map Transaction.id)
    refine lt_of_le_of_ne below fun same => different ?_
    exact congrArg (fun key => (ofLex key).2) same
  · intro below
    obtain ⟨before, after, split⟩ := List.append_of_mem here
    rw [split] at ordered there ⊢
    simp only [List.pairwise_append, List.mem_append, List.mem_cons] at ordered there
    rcases there with earlier | rfl | later
    · exact absurd below (not_lt.mpr (ordered.2.2 right earlier left (.inl rfl)))
    · exact absurd below (lt_irrefl _)
    · exact List.sublist_append_of_sublist_right ((List.singleton_sublist.mpr later).cons_cons left)

variable [Blake3]

/-- Conflicting transactions keep their canonical order exactly when every transaction conflicts, at each depth
smaller than its own, with an earlier transaction of that depth. -/
theorem conflicts_in_order_iff (distinct : (txs.map Transaction.id).Nodup) :
    (∀ (i j : Nat) leftGroup rightGroup left right, (scheduleTransactions txs)[i]? = some leftGroup →
        left ∈ leftGroup → (scheduleTransactions txs)[j]? = some rightGroup → right ∈ rightGroup →
          left.accessSet.hasConflict right.accessSet = true →
            canonicalOrderKey left.tx 0 < canonicalOrderKey right.tx 0 → i < j) ↔
      ∀ before tx after, canonicalOrder txs = before ++ tx :: after →
        ∀ depth < conflictDepth before tx, depth ∈ conflictDepths before tx := by
  have permuted := List.perm_insertionSort (fun left right => canonicalOrderKey left 0 ≤ canonicalOrderKey right 0) txs
  have listed : (canonicalOrder txs).Nodup := permuted.nodup_iff.mpr (List.Nodup.of_map _ distinct)
  have placed : ∀ {i : Nat} {group : List Transaction} {tx : Transaction},
      (Greedy.rounds txConflicts (canonicalOrder txs))[i]? = some group → tx ∈ group → tx ∈ canonicalOrder txs :=
    fun found member => (Greedy.rounds_perm _).subset (List.mem_flatten.mpr ⟨_, List.mem_of_getElem? found, member⟩)
  refine Iff.trans ?_ (Greedy.rounds_ordered_iff txConflicts listed)
  have grouped : (scheduleTransactions txs).map (List.map ScheduledTransaction.tx) =
      Greedy.rounds txConflicts (canonicalOrder txs) := scheduled_canonically txs
  constructor
  · intro ordered i j leftGroup rightGroup left right leftFound leftMember rightFound rightMember pair clash
    have below := (canonical_precedes_iff distinct (placed leftFound leftMember) (placed rightFound rightMember)).mp pair
    rw [← grouped, List.getElem?_map, Option.map_eq_some_iff] at leftFound rightFound
    obtain ⟨leftScheduled, leftHere, rfl⟩ := leftFound
    obtain ⟨rightScheduled, rightHere, rfl⟩ := rightFound
    obtain ⟨first, firstMember, rfl⟩ := List.mem_map.mp leftMember
    obtain ⟨second, secondMember, rfl⟩ := List.mem_map.mp rightMember
    refine ordered i j _ _ first second leftHere firstMember rightHere secondMember ?_ below
    rw [scheduled_own_access _ (List.mem_of_getElem? leftHere) first firstMember,
      scheduled_own_access _ (List.mem_of_getElem? rightHere) second secondMember]
    exact clash
  · intro ordered i j leftGroup rightGroup left right leftFound leftMember rightFound rightMember clash below
    rw [scheduled_own_access _ (List.mem_of_getElem? leftFound) left leftMember,
      scheduled_own_access _ (List.mem_of_getElem? rightFound) right rightMember] at clash
    have leftPlaced : (Greedy.rounds txConflicts (canonicalOrder txs))[i]? =
        some (leftGroup.map ScheduledTransaction.tx) := by simp [← grouped, leftFound]
    have rightPlaced : (Greedy.rounds txConflicts (canonicalOrder txs))[j]? =
        some (rightGroup.map ScheduledTransaction.tx) := by simp [← grouped, rightFound]
    have leftThere := List.mem_map_of_mem (f := ScheduledTransaction.tx) leftMember
    have rightThere := List.mem_map_of_mem (f := ScheduledTransaction.tx) rightMember
    have pair := (canonical_precedes_iff distinct (placed leftPlaced leftThere) (placed rightPlaced rightThere)).mpr below
    exact ordered i j _ _ left.tx right.tx leftPlaced leftThere rightPlaced rightThere pair clash

end Order

section Overtaking
open Klomang.Sample

/-- A call of a contract. -/
def call (id : UInt8) (executionPayload : List UInt8) (contract : UInt8) : Transaction :=
  { Transaction.new [] [] with id := .replicate id, executionPayload, contractAddress := some (.replicate contract) }

/-- Three calls in canonical order. The second one is of the first one's contract, and has the address of the third
one's contract in its payload. -/
def overtaken : List Transaction := [call 1 [1] 7, call 2 (List.replicate 32 8 ++ [0]) 7, call 3 [2] 8]

theorem overtaken_rounds :
    (scheduleTransactions overtaken).map (List.map ScheduledTransaction.tx) =
      [[call 1 [1] 7, call 3 [2] 8], [call 2 (List.replicate 32 8 ++ [0]) 7]] := by
  have listed : canonicalOrder overtaken = overtaken := by decide +kernel
  have one : Greedy.select txConflicts [call 1 [1] 7] [call 2 (List.replicate 32 8 ++ [0]) 7, call 3 [2] 8] =
      ([call 1 [1] 7, call 3 [2] 8], [call 2 (List.replicate 32 8 ++ [0]) 7]) := by decide +kernel
  have rounds := scheduled_canonically overtaken
  rw [listed] at rounds
  refine rounds.trans ?_
  change Greedy.rounds txConflicts _ = _
  rw [overtaken, Greedy.rounds_cons, one, Greedy.rounds_cons, Greedy.select, Greedy.rounds_nil]

/-- The third call overtakes the second one, with which it conflicts. -/
theorem third_overtakes_second :
    (overtaken.map Transaction.id).Nodup ∧
    ∃ (i j : Nat) (leftGroup rightGroup : List ScheduledTransaction) (left right : ScheduledTransaction),
      (scheduleTransactions overtaken)[i]? = some leftGroup ∧ left ∈ leftGroup ∧
      (scheduleTransactions overtaken)[j]? = some rightGroup ∧ right ∈ rightGroup ∧
      left.accessSet.hasConflict right.accessSet = true ∧
      canonicalOrderKey left.tx 0 < canonicalOrderKey right.tx 0 ∧ ¬ i < j := by
  refine ⟨by decide, 1, 0, ?_⟩
  have second := congrArg (fun groups => groups[1]?) overtaken_rounds
  have first := congrArg (fun groups => groups[0]?) overtaken_rounds
  simp only [List.getElem?_map] at first second
  obtain ⟨leftGroup, leftFound, leftTxs⟩ := Option.map_eq_some_iff.mp second
  obtain ⟨rightGroup, rightFound, rightTxs⟩ := Option.map_eq_some_iff.mp first
  obtain ⟨left, leftMember, leftTx⟩ := List.mem_map.mp (leftTxs ▸ List.mem_cons_self)
  obtain ⟨right, rightMember, rightTx⟩ := List.mem_map.mp (rightTxs ▸ List.mem_cons_of_mem _ List.mem_cons_self)
  refine ⟨leftGroup, rightGroup, left, right, leftFound, leftMember, rightFound, rightMember, ?_, ?_, by decide⟩
  · rw [scheduled_own_access _ (List.mem_of_getElem? leftFound) left leftMember, leftTx,
      scheduled_own_access _ (List.mem_of_getElem? rightFound) right rightMember, rightTx]
    decide +kernel
  · rw [leftTx, rightTx]
    decide +kernel

/-- What decides about them. -/
theorem overtaken_decided :
    (∀ (i j : Nat) leftGroup rightGroup left right, (scheduleTransactions overtaken)[i]? = some leftGroup →
        left ∈ leftGroup → (scheduleTransactions overtaken)[j]? = some rightGroup → right ∈ rightGroup →
          left.accessSet.hasConflict right.accessSet = true →
            canonicalOrderKey left.tx 0 < canonicalOrderKey right.tx 0 → i < j) ↔
      ∀ before tx after, canonicalOrder overtaken = before ++ tx :: after →
        ∀ depth < conflictDepth before tx, depth ∈ conflictDepths before tx :=
  conflicts_in_order_iff (by decide)

end Overtaking
end Klomang.ParallelScheduler
