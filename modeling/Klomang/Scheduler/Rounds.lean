import Klomang.Scheduler.Grouping

/-! The loop of `schedule_transactions`: what a round scans, removes and, if it had found nobody, would pop. Its
groups are those of the greedy grouping, whatever order the transactions arrived in. -/
namespace Klomang

/-- What one round leaves behind. -/
structure ScheduleRound where
  group : List ScheduledTransaction
  remaining : List ScheduledTransaction
  /-- The group is the first transaction that remained, for want of a candidate without conflicts. -/
  tookFirst : Bool

namespace ParallelScheduler

/-- The test of the inner scan. -/
def conflicts (existing candidate : ScheduledTransaction) : Bool := existing.accessSet.hasConflict candidate.accessSet

/-- The body of the outer loop; nothing when there is nobody to pop. -/
def scheduleRound (remaining : List ScheduledTransaction) : Option ScheduleRound :=
  let (currentGroup, toRemove) := Greedy.scan conflicts [] [] 0 remaining
  let remaining := Greedy.removeAll remaining toRemove
  if currentGroup.isEmpty then
    match remaining with
    | [] => none
    | first :: rest => some ⟨[first], rest, true⟩
  else some ⟨currentGroup, remaining, false⟩

/-- The outer loop, for at most so many rounds. -/
def scheduleRounds : Nat → List ScheduledTransaction → Option (List ScheduleRound)
  | _, [] => some []
  | 0, _ :: _ => none
  | rounds + 1, first :: rest => do
    let round ← scheduleRound (first :: rest)
    let later ← scheduleRounds rounds round.remaining
    return round :: later

section Rounds

theorem schedule_round_cons (first : ScheduledTransaction) (rest : List ScheduledTransaction) :
    scheduleRound (first :: rest) =
      some ⟨(Greedy.select conflicts [] (first :: rest)).1, (Greedy.select conflicts [] (first :: rest)).2, false⟩ := by
  have someone := Greedy.select_nonempty conflicts first rest
  simp [scheduleRound, someone, Greedy.remove_selected, Greedy.scan_group]

/-- The loop ends after a round for each transaction at the latest, with the groups of the greedy grouping, and
never pops. -/
theorem schedule_rounds_eq (remaining : List ScheduledTransaction) :
    ∃ rounds, (∀ fuel, remaining.length ≤ fuel → scheduleRounds fuel remaining = some rounds) ∧
      rounds.map ScheduleRound.group = Greedy.rounds conflicts remaining ∧
      ∀ round ∈ rounds, round.tookFirst = false := by
  induction remaining using Greedy.rounds.induct conflicts with
  | case1 => exact ⟨[], by simp [scheduleRounds], by simp [Greedy.rounds_nil], by simp⟩
  | case2 first rest selected ih =>
    obtain ⟨later, ended, grouped, popped⟩ := ih
    refine ⟨⟨selected.1, selected.2, false⟩ :: later, fun fuel enough => ?_, ?_, ?_⟩
    · have counted := Greedy.select_length conflicts [first] rest
      have kept := (Greedy.select_grows conflicts [first] rest).length_le
      have fewer : selected.2.length ≤ rest.length := by
        simp only [selected, Greedy.select_first]
        simp only [List.length_singleton] at counted kept
        omega
      cases fuel with
      | zero => simp at enough
      | succ fuel =>
        have enough : selected.2.length ≤ fuel := by simp only [List.length_cons] at enough; omega
        simp [scheduleRounds, schedule_round_cons, selected, ended fuel enough]
    · rw [Greedy.rounds]
      simp [grouped, selected]
    · simpa using popped

end Rounds

section Partition
variable [Blake3]

theorem schedule_groups (txs : List Transaction) :
    scheduleTransactions txs = Greedy.rounds conflicts (sortCanonically txs) := rfl

/-- What is scheduled carries its transaction's access set. -/
theorem sorted_own_access {txs : List Transaction} {scheduled : ScheduledTransaction}
    (member : scheduled ∈ sortCanonically txs) : scheduled.accessSet = scheduled.tx.generateAccessSet := by
  rw [sortCanonically, List.mem_insertionSort] at member
  obtain ⟨_, _, rfl⟩ := List.mem_map.mp member
  rfl

theorem scheduled_own_access {txs : List Transaction} :
    ∀ group ∈ scheduleTransactions txs, ∀ scheduled ∈ group, scheduled.accessSet = scheduled.tx.generateAccessSet := by
  intro group member scheduled there
  apply sorted_own_access
  exact (Greedy.rounds_perm _).subset (List.mem_flatten.mpr ⟨group, member, there⟩)

/-- Sorting keeps every transaction with its position. -/
theorem sorted_positions (txs : List Transaction) :
    ((sortCanonically txs).map fun scheduled => (scheduled.tx, scheduled.index)).Perm txs.zipIdx := by
  have sorted := (List.perm_insertionSort
    (fun left right : ScheduledTransaction => canonicalOrderKey left.tx 0 ≤ canonicalOrderKey right.tx 0)
    (txs.zipIdx.map fun item => (⟨item.1, item.1.generateAccessSet, item.2⟩ : ScheduledTransaction))).map
      fun scheduled => (scheduled.tx, scheduled.index)
  simpa [sortCanonically, List.map_map, Function.comp_def] using sorted

/-- The loop ends, and its groups deal out the transactions with their positions: each of them once, nobody in
conflict with anybody in its group, no group empty. The first transaction that remains is never popped. -/
theorem schedule_partitions (txs : List Transaction) :
    ∃ rounds, (∀ fuel, txs.length ≤ fuel → scheduleRounds fuel (sortCanonically txs) = some rounds) ∧
      rounds.map ScheduleRound.group = scheduleTransactions txs ∧
      (∀ round ∈ rounds, round.tookFirst = false) ∧
      ((scheduleTransactions txs).flatten.map fun scheduled => (scheduled.tx, scheduled.index)).Perm txs.zipIdx ∧
      ∀ group ∈ scheduleTransactions txs, group ≠ [] ∧
        (∀ scheduled ∈ group, scheduled.accessSet = scheduled.tx.generateAccessSet) ∧
        group.Pairwise fun left right => left.accessSet.hasConflict right.accessSet = false := by
  obtain ⟨rounds, ended, grouped, popped⟩ := schedule_rounds_eq (sortCanonically txs)
  have dealt : (scheduleTransactions txs).flatten.Perm (sortCanonically txs) := Greedy.rounds_perm _
  refine ⟨rounds, fun fuel enough => ended fuel ?_, grouped, popped, (dealt.map _).trans (sorted_positions txs),
    fun group member => ⟨?_, scheduled_own_access group member, ?_⟩⟩
  · have counted := (sorted_positions txs).length_eq
    simp only [List.length_map, List.length_zipIdx] at counted
    omega
  · exact Greedy.rounds_nonempty _ group member
  · exact Greedy.rounds_independent _ group member

end Partition

section Arrival
variable [Blake3] {txs others : List Transaction}

omit [Blake3] in
/-- Transactions with distinct ids have one canonical order. -/
theorem canonical_order_congr (distinct : (txs.map Transaction.id).Nodup) (permuted : txs.Perm others) :
    canonicalOrder txs = canonicalOrder others := by
  have left := List.perm_insertionSort (fun left right => canonicalOrderKey left 0 ≤ canonicalOrderKey right 0) txs
  have right := List.perm_insertionSort (fun left right => canonicalOrderKey left 0 ≤ canonicalOrderKey right 0) others
  refine ((left.trans permuted).trans right.symm).eq_of_pairwise ?_ (List.pairwise_insertionSort _ _)
    (List.pairwise_insertionSort _ _)
  intro first second here there below above
  have keys := congrArg (fun key => (ofLex key).2) (le_antisymm below above)
  exact List.inj_on_of_nodup_map distinct (left.subset here) (permuted.symm.subset (right.subset there)) keys

/-- The groups are those of the transactions in canonical order. -/
theorem scheduled_canonically (txs : List Transaction) :
    (scheduleTransactions txs).map (List.map ScheduledTransaction.tx) =
      Greedy.rounds (fun existing candidate : Transaction =>
        existing.generateAccessSet.hasConflict candidate.generateAccessSet) (canonicalOrder txs) := by
  rw [schedule_groups, ← sorted_txs, ← Greedy.rounds_map]
  intro left leftMember right rightMember
  rw [conflicts, sorted_own_access leftMember, sorted_own_access rightMember]

/-- Groups do not depend on the order of arrival. -/
theorem schedule_ignores_arrival (distinct : (txs.map Transaction.id).Nodup) (permuted : txs.Perm others) :
    (scheduleTransactions txs).map (List.map fun scheduled => (scheduled.tx, scheduled.accessSet)) =
      (scheduleTransactions others).map (List.map fun scheduled => (scheduled.tx, scheduled.accessSet)) := by
  have whole : ∀ txs : List Transaction,
      (scheduleTransactions txs).map (List.map fun scheduled => (scheduled.tx, scheduled.accessSet)) =
        ((scheduleTransactions txs).map (List.map ScheduledTransaction.tx)).map
          (List.map fun tx => (tx, tx.generateAccessSet)) := by
    intro txs
    rw [List.map_map]
    apply List.map_congr_left
    intro group member
    rw [Function.comp, List.map_map]
    apply List.map_congr_left
    intro scheduled there
    simp [scheduled_own_access group member scheduled there]
  rw [whole, whole, scheduled_canonically, scheduled_canonically, canonical_order_congr distinct permuted]

end Arrival

section Calls
open Klomang.Sample

/-- Two calls of one contract arrive in both orders. -/
theorem calls_in_any_order :
    let first : Transaction := { Transaction.new [] [⟨5, .replicate 9⟩] with contractAddress := some (.replicate 4) }
    let second : Transaction := { Transaction.new [] [⟨6, .replicate 9⟩] with contractAddress := some (.replicate 4) }
    (scheduleTransactions [first, second]).map (List.map fun scheduled => (scheduled.tx, scheduled.accessSet)) =
      (scheduleTransactions [second, first]).map (List.map fun scheduled => (scheduled.tx, scheduled.accessSet)) :=
  schedule_ignores_arrival (by decide +kernel) (List.Perm.swap _ _ [])

end Calls
end ParallelScheduler
end Klomang
