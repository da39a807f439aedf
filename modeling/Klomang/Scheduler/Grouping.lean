import Klomang.Sample
import Klomang.Scheduler.Parallel

/-! What the scheduler's groups have to do with conflicts. Groups are formed where
transactions conflict, and groups that conflict are refused. -/
namespace Klomang.ParallelScheduler

section Combining

/-- Two groups conflict exactly when a member of one conflicts with a member of the other. -/
theorem combined_conflict (access : AccessSet) (group : List ScheduledTransaction) :
    access.hasConflict (combined group) = group.any fun scheduled => access.hasConflict scheduled.accessSet := by
  have merged : ∀ start : AccessSet, access.hasConflict
      (group.foldl (fun combined scheduled => combined.merge scheduled.accessSet) start) =
        (access.hasConflict start || group.any fun scheduled => access.hasConflict scheduled.accessSet) := by
    induction group with
    | nil => simp
    | cons first rest ih =>
      intro start
      rw [List.foldl_cons, ih, AccessSet.has_conflict_merge, List.any_cons, Bool.or_assoc]
  rw [combined, merged, AccessSet.has_conflict_new, Bool.false_or]

theorem combined_apart {left right : List ScheduledTransaction} :
    (combined left).hasConflict (combined right) = false ↔
      ∀ first ∈ left, ∀ second ∈ right, first.accessSet.hasConflict second.accessSet = false := by
  rw [combined_conflict, List.any_eq_false]
  constructor
  · intro apart first here second there
    have free := apart second there
    rw [AccessSet.has_conflict_comm, combined_conflict, Bool.not_eq_true, List.any_eq_false] at free
    rw [AccessSet.has_conflict_comm]
    exact Bool.not_eq_true _ ▸ free first here
  · intro apart second there
    rw [AccessSet.has_conflict_comm, combined_conflict, Bool.not_eq_true, List.any_eq_false]
    intro first here
    rw [AccessSet.has_conflict_comm, apart first here second there]
    exact Bool.false_ne_true

theorem first_conflict_none {i : Nat} {sets : List AccessSet} :
    firstConflict i sets = none ↔ sets.Pairwise fun left right => left.hasConflict right = false := by
  induction sets generalizing i with
  | nil => simp [firstConflict]
  | cons access rest ih =>
    rw [firstConflict, List.pairwise_cons]
    cases found : rest.findIdx? access.hasConflict with
    | none =>
      rw [List.findIdx?_eq_none_iff] at found
      exact ⟨fun passes => ⟨found, ih.mp passes⟩, fun apart => ih.mpr apart.2⟩
    | some offset =>
      refine ⟨nofun, fun apart => ?_⟩
      rw [List.findIdx?_eq_none_iff.mpr apart.1] at found
      cases found

/-- Groups pass the check exactly when no two of them conflict. -/
theorem detect_none {groups : List (List ScheduledTransaction)} :
    detectGroupConflicts groups = none ↔
      groups.Pairwise fun left right => (combined left).hasConflict (combined right) = false := by
  rw [detectGroupConflicts, first_conflict_none, List.pairwise_map]

end Combining

section Search

/-- Two access sets of a list are in conflict, the first of them further to the left. -/
def ClashAt (sets : List AccessSet) (i j : Nat) : Prop :=
  i < j ∧ ∃ left right, sets[i]? = some left ∧ sets[j]? = some right ∧ left.hasConflict right = true

/-- A transaction of one group conflicts with a transaction of another. -/
def GroupsClash (groups : List (List ScheduledTransaction)) (i j : Nat) : Prop :=
  ∃ left right, groups[i]? = some left ∧ groups[j]? = some right ∧
    ∃ first ∈ left, ∃ second ∈ right, first.accessSet.hasConflict second.accessSet = true

variable {access : AccessSet} {sets : List AccessSet} {i j : Nat}

/-- A conflict in a longer list is one of its head, or one further on. -/
theorem clash_at_cons :
    ClashAt (access :: sets) i j ↔
      (i = 0 ∧ ∃ offset right, j = offset + 1 ∧ sets[offset]? = some right ∧ access.hasConflict right = true) ∨
        ∃ k l, i = k + 1 ∧ j = l + 1 ∧ ClashAt sets k l := by
  constructor
  · rintro ⟨before, left, right, here, there, conflict⟩
    obtain ⟨l, rfl⟩ : ∃ l, j = l + 1 := ⟨j - 1, by omega⟩
    cases i with
    | zero =>
      cases here
      exact .inl ⟨rfl, l, right, rfl, there, conflict⟩
    | succ k => exact .inr ⟨k, l, rfl, rfl, by omega, left, right, here, there, conflict⟩
  · rintro (⟨rfl, offset, right, rfl, there, conflict⟩ | ⟨k, l, rfl, rfl, before, left, right, here, there, conflict⟩)
    · exact ⟨by omega, access, right, rfl, there, conflict⟩
    · exact ⟨by omega, left, right, here, there, conflict⟩

theorem first_conflict_none_iff {start : Nat} : firstConflict start sets = none ↔ ∀ i j, ¬ ClashAt sets i j := by
  rw [first_conflict_none, List.pairwise_iff_getElem]
  constructor
  · rintro apart i j ⟨before, left, right, here, there, conflict⟩
    obtain ⟨iBound, rfl⟩ := List.getElem?_eq_some_iff.mp here
    obtain ⟨jBound, rfl⟩ := List.getElem?_eq_some_iff.mp there
    rw [apart i j iBound jBound before] at conflict
    cases conflict
  · intro apart i j iBound jBound before
    apply Bool.eq_false_iff.mpr
    intro conflict
    exact apart i j ⟨before, _, _, List.getElem?_eq_getElem iBound, List.getElem?_eq_getElem jBound, conflict⟩

/-- The search answers with a conflict that no other one precedes. -/
theorem first_conflict_some {start : Nat} (found : firstConflict start sets = some (i, j)) :
    ∃ k l, i = start + k ∧ j = start + l ∧ ClashAt sets k l ∧
      ∀ k' l', ClashAt sets k' l' → k < k' ∨ k = k' ∧ l ≤ l' := by
  induction sets generalizing start with
  | nil => cases found
  | cons access rest ih =>
    rw [firstConflict] at found
    cases search : rest.findIdx? access.hasConflict with
    | some offset =>
      rw [search] at found
      cases found
      obtain ⟨within, conflict, earlier⟩ := List.findIdx?_eq_some_iff_getElem.mp search
      refine ⟨0, 1 + offset, rfl, by omega, ?_, fun k' l' other => ?_⟩
      · exact clash_at_cons.mpr (.inl ⟨rfl, offset, _, by omega, List.getElem?_eq_getElem within, conflict⟩)
      · rcases clash_at_cons.mp other with ⟨rfl, further, right, rfl, there, also⟩ | ⟨k, l, rfl, _⟩
        · obtain ⟨bound, rfl⟩ := List.getElem?_eq_some_iff.mp there
          have late : ¬ further < offset := fun less => earlier further less also
          exact .inr ⟨rfl, by omega⟩
        · exact .inl (by omega)
    | none =>
      rw [search] at found
      have harmless := List.findIdx?_eq_none_iff.mp search
      obtain ⟨k, l, rfl, rfl, clash, least⟩ := ih found
      refine ⟨k + 1, l + 1, by omega, by omega, ?_, fun k' l' other => ?_⟩
      · exact clash_at_cons.mpr (.inr ⟨k, l, rfl, rfl, clash⟩)
      · rcases clash_at_cons.mp other with ⟨_, further, right, _, there, also⟩ | ⟨m, n, rfl, rfl, later⟩
        · rw [harmless right (List.mem_of_getElem? there)] at also
          cases also
        · have order := least m n later
          omega

/-- Combined access sets are in conflict exactly where transactions of the two groups are. -/
theorem clash_at_combined {groups : List (List ScheduledTransaction)} :
    ClashAt (groups.map combined) i j ↔ i < j ∧ GroupsClash groups i j := by
  have members : ∀ left right : List ScheduledTransaction, (combined left).hasConflict (combined right) = true ↔
      ∃ first ∈ left, ∃ second ∈ right, first.accessSet.hasConflict second.accessSet = true := by
    intro left right
    rw [← not_iff_not, Bool.not_eq_true, combined_apart]
    push Not
    simp only [Bool.not_eq_true]
  refine and_congr_right fun _ => ?_
  simp only [List.getElem?_map, Option.map_eq_some_iff, GroupsClash]
  constructor
  · rintro ⟨_, _, ⟨left, here, rfl⟩, ⟨right, there, rfl⟩, conflict⟩
    exact ⟨left, right, here, there, (members left right).mp conflict⟩
  · rintro ⟨left, right, here, there, clash⟩
    exact ⟨_, _, ⟨left, here, rfl⟩, ⟨right, there, rfl⟩, (members left right).mpr clash⟩

theorem groups_clash_symm {groups : List (List ScheduledTransaction)} (clash : GroupsClash groups i j) :
    GroupsClash groups j i := by
  obtain ⟨left, right, here, there, first, firstMem, second, secondMem, conflict⟩ := clash
  rw [AccessSet.has_conflict_comm] at conflict
  exact ⟨right, left, there, here, second, secondMem, first, firstMem, conflict⟩

/-- Combined access sets decide the conflicts between groups: there is no answer exactly when no two transactions of
different groups are in conflict, and an answer is the lexicographically least pair of groups with such transactions. -/
theorem detect_group_conflicts_exact (groups : List (List ScheduledTransaction)) :
    (detectGroupConflicts groups = none ↔ ∀ i j, i ≠ j → ¬ GroupsClash groups i j) ∧
    ∀ i j, detectGroupConflicts groups = some (i, j) ↔
      IsLeast {pair : Nat ×ₗ Nat | (ofLex pair).1 < (ofLex pair).2 ∧ GroupsClash groups (ofLex pair).1 (ofLex pair).2}
        (toLex (i, j)) := by
  have absent : detectGroupConflicts groups = none ↔ ∀ i j, i ≠ j → ¬ GroupsClash groups i j := by
    rw [detectGroupConflicts, first_conflict_none_iff]
    constructor
    · intro apart i j different clash
      rcases Nat.lt_or_gt_of_ne different with before | after
      · exact apart i j (clash_at_combined.mpr ⟨before, clash⟩)
      · exact apart j i (clash_at_combined.mpr ⟨after, groups_clash_symm clash⟩)
    · intro apart i j clash
      obtain ⟨before, there⟩ := clash_at_combined.mp clash
      exact apart i j before.ne there
  have least : ∀ i j, detectGroupConflicts groups = some (i, j) →
      IsLeast {pair : Nat ×ₗ Nat | (ofLex pair).1 < (ofLex pair).2 ∧ GroupsClash groups (ofLex pair).1 (ofLex pair).2}
        (toLex (i, j)) := by
    intro i j found
    obtain ⟨k, l, rfl, rfl, clash, first⟩ := first_conflict_some found
    rw [Nat.zero_add, Nat.zero_add]
    refine ⟨clash_at_combined.mp clash, fun pair other => ?_⟩
    exact Prod.Lex.le_iff.mpr (first _ _ (clash_at_combined.mpr other))
  refine ⟨absent, fun i j => ⟨least i j, fun minimum => ?_⟩⟩
  cases answer : detectGroupConflicts groups with
  | none =>
    obtain ⟨before, clash⟩ := minimum.1
    exact absurd clash (absent.mp answer i j before.ne)
  | some pair =>
    have same : toLex (pair.1, pair.2) = toLex (i, j) := (least pair.1 pair.2 answer).unique minimum
    exact congrArg some (toLex.injective same)

end Search

section Schedules
variable [Blake3] {txs : List Transaction}

/-- Transactions in the order of their ids. -/
def canonicalOrder (txs : List Transaction) : List Transaction :=
  txs.insertionSort fun left right => canonicalOrderKey left 0 ≤ canonicalOrderKey right 0

/-- No two of the transactions have access sets in conflict. -/
def Independent (txs : List Transaction) : Prop :=
  txs.Pairwise fun left right => left.generateAccessSet.hasConflict right.generateAccessSet = false

theorem sorted_txs (txs : List Transaction) :
    (sortCanonically txs).map ScheduledTransaction.tx = canonicalOrder txs := by
  have ordered := fun scheduled : List ScheduledTransaction => List.map_insertionSort
    (fun left right : ScheduledTransaction => canonicalOrderKey left.tx 0 ≤ canonicalOrderKey right.tx 0)
    (fun left right => canonicalOrderKey left 0 ≤ canonicalOrderKey right 0) ScheduledTransaction.tx scheduled
    fun _ _ _ _ => Iff.rfl
  rw [sortCanonically, ordered, List.map_map]
  exact congrArg canonicalOrder (List.zipIdx_map_fst 0 txs)

theorem sorted_access (txs : List Transaction) :
    (sortCanonically txs).map ScheduledTransaction.accessSet =
      (canonicalOrder txs).map Transaction.generateAccessSet := by
  rw [← sorted_txs, List.map_map]
  apply List.map_congr_left
  intro scheduled member
  rw [sortCanonically, List.mem_insertionSort] at member
  obtain ⟨_, _, rfl⟩ := List.mem_map.mp member
  rfl

/-- Sorting does not change who conflicts. -/
theorem sorted_independent (txs : List Transaction) :
    ((sortCanonically txs).Pairwise fun left right => left.accessSet.hasConflict right.accessSet = false) ↔
      Independent txs := by
  have apart : ∀ left right : AccessSet, left.hasConflict right = false → right.hasConflict left = false :=
    fun left right free => (AccessSet.has_conflict_comm right left).trans free
  rw [← List.pairwise_map (f := ScheduledTransaction.accessSet)
    (R := fun left right : AccessSet => left.hasConflict right = false), sorted_access, List.pairwise_map]
  exact (List.perm_insertionSort _ txs).pairwise_iff fun {_ _} => apart _ _

/-- Independent transactions are scheduled as one group, in canonical order. -/
theorem schedule_independent (independent : Independent txs) :
    scheduleTransactions txs = if txs = [] then [] else [sortCanonically txs] := by
  have sorted := (sorted_independent txs).mpr independent
  rw [scheduleTransactions]
  split
  · rename_i empty
    rw [empty]
    exact Greedy.rounds_nil
  · rename_i some
    cases listed : sortCanonically txs with
    | nil =>
      have counted := congrArg List.length (sorted_txs txs)
      rw [listed, canonicalOrder, List.length_insertionSort] at counted
      exact absurd (List.eq_nil_of_length_eq_zero counted.symm) some
    | cons first rest =>
      rw [listed] at sorted
      exact Greedy.rounds_all sorted

/-- Where two transactions conflict the schedule does not pass the check. -/
theorem schedule_conflicting (clash : ¬ Independent txs) : detectGroupConflicts (scheduleTransactions txs) ≠ none := by
  rw [← sorted_independent] at clash
  obtain ⟨group, next, others, scheduled, left, here, right, there, conflict⟩ := Greedy.rounds_conflict clash
  rw [Ne, detect_none, scheduleTransactions, scheduled]
  intro apart
  have first := (List.pairwise_cons.mp apart).1 next List.mem_cons_self
  rw [combined_apart.mp first left here right there] at conflict
  cases conflict

theorem schedule_passes (independent : Independent txs) : detectGroupConflicts (scheduleTransactions txs) = none := by
  rw [schedule_independent independent, detect_none]
  split
  · exact List.Pairwise.nil
  · exact List.pairwise_singleton _ _

/-- The scheduler opens a second group where transactions conflict, and the check refuses
groups that conflict: a schedule passes exactly when no two transactions conflict. -/
theorem schedule_executable_iff (txs : List Transaction) :
    detectGroupConflicts (scheduleTransactions txs) = none ↔ Independent txs := by
  constructor
  · intro passes
    by_contra clash
    exact schedule_conflicting clash passes
  · exact schedule_passes

end Schedules

section Calls
open Klomang.Sample

/-- Two calls of one contract are scheduled in two groups, which are then refused. -/
theorem same_contract_refused :
    let first : Transaction := { Transaction.new [] [⟨5, .replicate 9⟩] with contractAddress := some (.replicate 4) }
    let second : Transaction := { Transaction.new [] [⟨6, .replicate 9⟩] with contractAddress := some (.replicate 4) }
    detectGroupConflicts (scheduleTransactions [first, second]) ≠ none := by
  apply schedule_conflicting
  intro independent
  have apart := List.rel_of_pairwise_cons independent List.mem_cons_self
  exact absurd apart (by decide +kernel)

end Calls
end Klomang.ParallelScheduler
