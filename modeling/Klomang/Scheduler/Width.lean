import Klomang.Scheduler.Precedence

/-! How many groups `schedule_transactions` makes: no transaction could run in an earlier group than its own. -/
namespace Klomang.ParallelScheduler

section Width
variable [Blake3] {txs : List Transaction}

/-- Equal transactions are told apart by their positions. -/
theorem scheduled_distinct (txs : List Transaction) : (sortCanonically txs).Nodup := by
  have indexed : ((txs.zipIdx.map fun entry => (⟨entry.1, entry.1.generateAccessSet, entry.2⟩ : ScheduledTransaction)).map
      ScheduledTransaction.index) = List.range txs.length := by
    rw [List.map_map]
    exact (List.zipIdx_map_snd 0 txs).trans List.range_eq_range'.symm
  have distinct := List.Nodup.of_map _ (indexed ▸ List.nodup_range)
  exact (List.perm_insertionSort _ _).nodup_iff.mpr distinct

/-- The transactions before one, in canonical order, that it conflicts with. -/
def earlierConflicts (before : List ScheduledTransaction) (next : ScheduledTransaction) : Nat :=
  before.countP fun earlier => conflicts earlier next

/-- The schedule is as wide as conflicts make it. Every transaction conflicts with an earlier one in each group before its
own; as many groups as there are transactions that all conflict with each other are needed; and one group more than the
most conflicts that a transaction has with earlier ones is enough. -/
theorem groups_bounded (txs : List Transaction) :
    (∀ (i j : Nat) earlierGroup group next, i < j → (scheduleTransactions txs)[i]? = some earlierGroup →
      (scheduleTransactions txs)[j]? = some group → next ∈ group →
      ∃ earlier ∈ earlierGroup, [earlier, next].Sublist (sortCanonically txs) ∧ conflicts earlier next = true) ∧
    (∀ clique : List ScheduledTransaction, clique.Nodup → clique ⊆ sortCanonically txs →
      clique.Pairwise (fun left right => conflicts left right = true) → clique.length ≤ (scheduleTransactions txs).length) ∧
    ∀ degree, (∀ before next after, sortCanonically txs = before ++ next :: after → earlierConflicts before next ≤ degree) →
      (scheduleTransactions txs).length ≤ degree + 1 := by
  have distinct := scheduled_distinct txs
  rw [schedule_groups]
  refine ⟨fun i j earlierGroup group next below earlierFound found here => ?_, fun clique apart among clashing => ?_,
    fun degree few => ?_⟩
  · exact Greedy.rounds_packed distinct found here earlierFound below
  · exact Greedy.length_le_rounds (fun left right => AccessSet.has_conflict_comm _ _) apart among clashing
  · exact Greedy.length_rounds_le distinct few

end Width

section Overtaking
open Klomang.Sample

/-- A transaction as it is scheduled from a position. -/
def scheduled (tx : Transaction) (index : Nat) : ScheduledTransaction := ⟨tx, tx.generateAccessSet, index⟩

theorem sorted_overtaken : sortCanonically overtaken =
    [scheduled (call 1 [1] 7) 0, scheduled (call 2 (List.replicate 32 8 ++ [0]) 7) 1, scheduled (call 3 [2] 8) 2] := by
  refine List.Pairwise.insertionSort_eq ?_
  change ([call 1 [1] 7, call 2 (List.replicate 32 8 ++ [0]) 7, call 3 [2] 8].zipIdx.map fun entry =>
    scheduled entry.1 entry.2).Pairwise fun left right => canonicalOrderKey left.tx 0 ≤ canonicalOrderKey right.tx 0
  decide +kernel

/-- The bounds meet where a transaction conflicts with both others: there are two groups. -/
theorem overtaken_two_groups : (scheduleTransactions overtaken).length = 2 := by
  obtain ⟨_, needed, enough⟩ := groups_bounded overtaken
  rw [sorted_overtaken] at needed enough
  have most : (scheduleTransactions overtaken).length ≤ 1 + 1 := by
    refine enough 1 fun before next after split => ?_
    match before, split with
    | [], _ => exact Nat.zero_le _
    | [_], _ => exact List.countP_le_length
    | [_, _], split =>
      cases split
      decide +kernel
    | _ :: _ :: _ :: _, split => simp at split
  have least := needed [scheduled (call 1 [1] 7) 0, scheduled (call 2 (List.replicate 32 8 ++ [0]) 7) 1]
    (List.Nodup.of_map ScheduledTransaction.index (by decide)) (by simp) (by decide +kernel)
  exact le_antisymm most least

end Overtaking
end Klomang.ParallelScheduler
