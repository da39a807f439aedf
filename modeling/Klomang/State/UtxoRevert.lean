import Klomang.State.BlockchainUndo
import Klomang.State.UtxoExact

/-! `revert_tx` undoes `apply_tx`. One transaction without collisions is undone exactly; a list of them is undone from
its end, also where a transaction spends what an earlier one created, because the shared map holds every spent output as
it was when it was spent. -/
namespace Klomang.BlockchainState

/-- The outputs of a transaction take outpoints that are free, or that the transaction itself spends. -/
structure CollisionFree (set : UtxoSet) (tx : Transaction) : Prop where
  few : tx.outputs.length < 2 ^ 32
  free : ∀ outpoint ∈ createdBy tx, outpoint ∈ spentBy tx ∨ set.utxos.lookup outpoint = none

section One
variable [Blake3] [SchnorrScheme] {set later : UtxoSet} {tx : Transaction} {changes : UtxoChangeSet}
  {spentOutputs : FiniteMap OutPoint TxOutput}

omit [Blake3] [SchnorrScheme] in
theorem CollisionFree.fresh (apart : CollisionFree set tx) : set.Fresh tx :=
  (fresh_iff set tx).mpr ⟨UtxoSet.outputs_of_nodup apart.few, apart.free⟩

/-- What a transaction that was applied had there, reports and leaves. -/
theorem applied_cases (applied : set.applyTx tx = (.ok changes, later)) :
    Present set tx ∧ changes = changesOf tx ∧ later = set.after tx := by
  obtain ⟨⟨fee, accepted⟩, rfl⟩ := UtxoSet.apply_tx_eq_ok applied
  have reported := UtxoSet.apply_tx_ok accepted
  rw [applied] at reported
  exact ⟨validated_present accepted, Except.ok.inj (Prod.mk.inj reported).1, rfl⟩

/-- A transaction that was applied without collisions is undone exactly. -/
theorem revert_applied (apart : CollisionFree set tx) (applied : set.applyTx tx = (.ok changes, later))
    (saved : ∀ outpoint ∈ changes.spent, spentOutputs.lookup outpoint = set.utxos.lookup outpoint) :
    later.revertTx changes spentOutputs = (.ok (), set) := by
  obtain ⟨present, rfl, rfl⟩ := applied_cases applied
  have created : ∀ outpoint ∈ createdBy tx, (set.after tx).utxos.lookup outpoint ≠ none :=
    fun outpoint member absent => ((lookup_after_none_iff set tx outpoint).mp absent).1 member
  apply (revert_tx_ok_iff _ tx).mpr
  refine ⟨⟨apart.fresh.1, created⟩, fun outpoint spent absent => ?_, fun outpoint => ?_⟩
  · exact present outpoint spent ((saved outpoint spent).symm.trans absent)
  · split
    next spent => exact (saved outpoint spent).symm
    next unspent =>
      split
      next made => exact (apart.free outpoint made).resolve_left unspent
      next unmade => exact (lookup_after_other unmade unspent).symm

end One

section Lists
variable [Blake3] [SchnorrScheme] {start final : UtxoSet} {txs : List Transaction} {changesets : List UtxoChangeSet}
  {spentOutputs : FiniteMap OutPoint TxOutput}

/-- Transactions are applied one after the other, each without collisions, and give these change sets. -/
inductive Applied : UtxoSet → List Transaction → List UtxoChangeSet → UtxoSet → Prop
  | nil (set : UtxoSet) : Applied set [] [] set
  | cons {set middle final : UtxoSet} {tx : Transaction} {rest : List Transaction} {changes : UtxoChangeSet}
      {further : List UtxoChangeSet} (apart : CollisionFree set tx) (applied : set.applyTx tx = (.ok changes, middle))
      (others : Applied middle rest further final) : Applied set (tx :: rest) (changes :: further) final

/-- A map holds what each transaction spends, as it is when it is spent. -/
def HoldsSpent (spentOutputs : FiniteMap OutPoint TxOutput) : UtxoSet → List Transaction → Prop
  | _, [] => True
  | set, tx :: rest =>
    (∀ outpoint ∈ spentBy tx, spentOutputs.lookup outpoint = set.utxos.lookup outpoint) ∧
      HoldsSpent spentOutputs (set.applyTx tx).2 rest

/-- The map of spent outputs as the loop of `apply_block` fills it. -/
def savedAlong (spentOutputs : FiniteMap OutPoint TxOutput) (set : UtxoSet) :
    List Transaction → FiniteMap OutPoint TxOutput
  | [] => spentOutputs
  | tx :: rest => savedAlong (saveSpent set spentOutputs tx.inputs) (set.applyTx tx).2 rest

omit [Blake3] [SchnorrScheme] in
theorem rollback_append {set middle : UtxoSet} {first : List UtxoChangeSet}
    (undone : rollback spentOutputs set first = (.ok (), middle)) (second : List UtxoChangeSet) :
    rollback spentOutputs set (first ++ second) = rollback spentOutputs middle second := by
  induction first generalizing set with
  | nil =>
    cases undone
    rfl
  | cons changes rest ih =>
    rw [rollback] at undone
    rw [List.cons_append, rollback]
    split at undone
    next => cases undone
    next reached reverted => exact ih undone

/-- Applied transactions are undone in reverse order. -/
theorem Applied.reverts (applied : Applied start txs changesets final) (holds : HoldsSpent spentOutputs start txs) :
    rollback spentOutputs final changesets.reverse = (.ok (), start) := by
  induction applied with
  | nil set => rfl
  | @cons set middle final tx rest changes further apart applied others ih =>
    obtain ⟨here, later⟩ := holds
    rw [applied] at later
    have reverted : middle.revertTx changes spentOutputs = (.ok (), set) := by
      apply revert_applied apart applied
      obtain ⟨_, rfl, _⟩ := applied_cases applied
      exact here
    rw [List.reverse_cons, rollback_append (ih later), rollback, reverted]
    rfl

/-- What later transactions do not spend stays in the map as it is. -/
theorem saved_along_other {outpoint : OutPoint} (unspent : outpoint ∉ txs.flatMap spentBy)
    (spentOutputs : FiniteMap OutPoint TxOutput) (set : UtxoSet) :
    (savedAlong spentOutputs set txs).lookup outpoint = spentOutputs.lookup outpoint := by
  induction txs generalizing spentOutputs set with
  | nil => rfl
  | cons tx rest ih =>
    rw [List.flatMap_cons, List.mem_append, not_or] at unspent
    obtain ⟨here, later⟩ := unspent
    rw [savedAlong, ih later, lookup_save_spent, ← spentBy, if_neg here, Option.none_or]

/-- Where no outpoint is spent twice, the map that `apply_block` fills holds what each transaction spends. -/
theorem Applied.holds_saved (applied : Applied start txs changesets final) (once : (txs.flatMap spentBy).Nodup)
    (spentOutputs : FiniteMap OutPoint TxOutput) : HoldsSpent (savedAlong spentOutputs start txs) start txs := by
  induction applied generalizing spentOutputs with
  | nil set => trivial
  | @cons set middle final tx rest changes further apart applied others ih =>
    obtain ⟨present, _, _⟩ := applied_cases applied
    rw [List.flatMap_cons, List.nodup_append'] at once
    obtain ⟨_, onceLater, disjoint⟩ := once
    refine ⟨fun outpoint spent => ?_, ?_⟩
    · obtain ⟨output, found⟩ := Option.ne_none_iff_exists'.mp (present outpoint spent)
      rw [savedAlong, saved_along_other (disjoint spent), lookup_save_spent, ← spentBy, if_pos spent, found,
        Option.some_or]
    · rw [savedAlong, applied]
      exact ih onceLater _

/-- `revert_tx` undoes `apply_tx`: a transaction without collisions is undone exactly with any map that holds what it
spent; a list of them, applied one after the other, is undone in reverse order with any one map that holds every spent
output as it was when it was spent; and where no outpoint is spent twice, the map that `apply_block` fills is one. -/
theorem revert_undoes_apply :
    (∀ (set later : UtxoSet) (tx : Transaction) (changes : UtxoChangeSet) (spentOutputs : FiniteMap OutPoint TxOutput),
      CollisionFree set tx → set.applyTx tx = (.ok changes, later) →
      (∀ outpoint ∈ changes.spent, spentOutputs.lookup outpoint = set.utxos.lookup outpoint) →
        later.revertTx changes spentOutputs = (.ok (), set)) ∧
    ∀ (start final : UtxoSet) (txs : List Transaction) (changesets : List UtxoChangeSet),
      Applied start txs changesets final →
      (∀ spentOutputs, HoldsSpent spentOutputs start txs →
        rollback spentOutputs final changesets.reverse = (.ok (), start)) ∧
      ((txs.flatMap spentBy).Nodup →
        HoldsSpent (savedAlong ∅ start txs) start txs ∧
          rollback (savedAlong ∅ start txs) final changesets.reverse = (.ok (), start)) := by
  refine ⟨fun _ _ _ _ _ apart applied saved => revert_applied apart applied saved, fun _ _ _ _ applied => ?_⟩
  refine ⟨fun _ holds => applied.reverts holds, fun once => ?_⟩
  have holds := applied.holds_saved once ∅
  exact ⟨holds, applied.reverts holds⟩

end Lists

section Spending
open scoped Klomang.Sample

/-- A transaction that spends the one output of another, before it is signed. -/
def forwardUnsigned (earlier : Transaction) (value : UInt64) : Transaction :=
  .new [⟨earlier.id, 0, [], List.replicate 32 5, .all⟩] [⟨value, .replicate 9⟩]

/-- The same transaction with a signature of the key 5. -/
def forward (earlier : Transaction) (value : UInt64) : Transaction :=
  { forwardUnsigned earlier value with
    inputs := [⟨earlier.id, 0, List.replicate 32 5 ++
      (Schnorr.taggedHash Schnorr.tagTxSign
        (Schnorr.serializeTxForSighash (forwardUnsigned earlier value) 0 .all)).bytes, List.replicate 32 5, .all⟩] }

/-- A coin is spent, what that creates is spent in turn, and undoing both gives the coin back. -/
theorem chain_undone :
    ∃ changesets final,
      Applied UtxoSet.five [UtxoSet.payment 3, forward (UtxoSet.payment 3) 2] changesets final ∧
      rollback (savedAlong ∅ UtxoSet.five [UtxoSet.payment 3, forward (UtxoSet.payment 3) 2]) final changesets.reverse =
        (.ok (), UtxoSet.five) := by
  have paid : UtxoSet.five.validateTx (UtxoSet.payment 3) = .ok 2 := by decide +kernel
  have forwarded : (UtxoSet.five.after (UtxoSet.payment 3)).validateTx (forward (UtxoSet.payment 3) 2) = .ok 1 := by
    decide +kernel
  have first : CollisionFree UtxoSet.five (UtxoSet.payment 3) := ⟨by decide, by decide +kernel⟩
  have second : CollisionFree (UtxoSet.five.after (UtxoSet.payment 3)) (forward (UtxoSet.payment 3) 2) :=
    ⟨by decide, by decide +kernel⟩
  have applied := Applied.cons first (UtxoSet.apply_tx_ok paid)
    (.cons second (UtxoSet.apply_tx_ok forwarded) (.nil _))
  exact ⟨_, _, applied, ((revert_undoes_apply.2 _ _ _ _ applied).2 (by decide +kernel)).2⟩

end Spending
end Klomang.BlockchainState
