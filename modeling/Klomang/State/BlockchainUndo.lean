import Klomang.State.Blockchain

/-! When undoing the transactions of a refused block gives the set of unspent outputs back. Undoing them in reverse
order keeps the domain exact as long as every transaction created fresh outpoints; what an outpoint gets back is what
the block named there last. -/
namespace Klomang.BlockchainState

section Steps
variable {set later : UtxoSet} {spentOutputs : FiniteMap OutPoint TxOutput}

theorem utxo_set_ext {left right : UtxoSet} (same : ∀ outpoint, left.utxos.lookup outpoint = right.utxos.lookup outpoint) :
    left = right := by
  cases left
  cases right
  exact congrArg UtxoSet.mk (Finmap.ext_lookup same)

theorem lookup_save_spent (set : UtxoSet) (spentOutputs : FiniteMap OutPoint TxOutput) (inputs : List TxInput)
    (outpoint : OutPoint) :
    (saveSpent set spentOutputs inputs).lookup outpoint =
      (if outpoint ∈ inputs.map TxInput.outpoint then set.utxos.lookup outpoint else none).or
        (spentOutputs.lookup outpoint) := by
  induction inputs generalizing spentOutputs with
  | nil => simp [saveSpent]
  | cons input rest ih =>
    rw [saveSpent, List.map_cons]
    by_cases same : outpoint = input.outpoint
    · subst same
      rw [if_pos List.mem_cons_self]
      split
      next output found =>
        rw [ih, FiniteMap.lookup_insert_ite, if_pos rfl, found]
        split <;> rfl
      next missing =>
        rw [ih, missing]
        split <;> rfl
    · simp only [List.mem_cons, same, false_or]
      split
      next output found => rw [ih, FiniteMap.lookup_insert_ite, if_neg same]
      next missing => rw [ih]

/-- Created outputs can be removed exactly when they are distinct and there. -/
theorem remove_created_ok_iff (set : UtxoSet) (created : List (OutPoint × TxOutput)) :
    set.removeCreated created = (.ok (), later) ↔
      ((created.map Prod.fst).Nodup ∧ ∀ key ∈ created.map Prod.fst, set.utxos.lookup key ≠ none) ∧
        later = set.without (created.map Prod.fst) := by
  induction created generalizing set with
  | nil =>
    simp only [UtxoSet.removeCreated, Prod.mk.injEq, true_and, List.map_nil, List.nodup_nil, List.not_mem_nil,
      false_implies, implies_true]
    exact eq_comm
  | cons entry rest ih =>
    obtain ⟨key, output⟩ := entry
    rw [UtxoSet.removeCreated]
    by_cases found : set.utxos.lookup key = none
    · simp only [found, Option.isSome_none, Bool.false_eq_true, if_false]
      exact iff_of_false (by simp) fun ⟨⟨_, present⟩, _⟩ => present key (by simp) found
    · have there : (set.utxos.lookup key).isSome = true := Option.isSome_iff_ne_none.mpr found
      rw [if_pos there, ih]
      simp only [FiniteMap.lookup_erase_ite, List.map_cons, List.nodup_cons, List.forall_mem_cons]
      refine and_congr ?_ Iff.rfl
      constructor
      · rintro ⟨distinct, present⟩
        have once : key ∉ rest.map Prod.fst := fun again => present key again (if_pos rfl)
        refine ⟨⟨once, distinct⟩, found, fun other member absent => present other member ?_⟩
        rw [absent, ite_self]
      · rintro ⟨⟨once, distinct⟩, _, present⟩
        refine ⟨distinct, fun other member => ?_⟩
        rw [if_neg fun same : other = key => once (same ▸ member)]
        exact present other member

/-- Spent outputs can be restored exactly when they were saved. -/
theorem restore_spent_ok_iff (set : UtxoSet) (spent : List OutPoint) :
    set.restoreSpent spentOutputs spent = (.ok (), later) ↔
      (∀ key ∈ spent, spentOutputs.lookup key ≠ none) ∧
        ∀ outpoint, later.utxos.lookup outpoint =
          if outpoint ∈ spent then spentOutputs.lookup outpoint else set.utxos.lookup outpoint := by
  induction spent generalizing set with
  | nil =>
    simp only [UtxoSet.restoreSpent, List.not_mem_nil, if_false, false_implies, implies_true, true_and]
    exact ⟨fun same outpoint => by cases same; rfl, fun same => by rw [utxo_set_ext same]⟩
  | cons key rest ih =>
    rw [UtxoSet.restoreSpent]
    cases found : spentOutputs.lookup key with
    | none =>
      refine iff_of_false (by simp) fun ⟨present, _⟩ => present key (by simp) found
    | some output =>
      dsimp only
      rw [ih]
      simp only [FiniteMap.lookup_insert_ite, List.mem_cons, forall_eq_or_imp, found, ne_eq, reduceCtorEq,
        not_false_eq_true, true_and]
      refine and_congr_right fun _ => forall_congr' fun outpoint => ?_
      by_cases same : outpoint = key
      · subst same
        simp [found]
      · simp [same]

theorem restore_spent_succeeds {spent : List OutPoint} (saved : ∀ key ∈ spent, spentOutputs.lookup key ≠ none)
    (set : UtxoSet) : ∃ later, set.restoreSpent spentOutputs spent = (.ok (), later) := by
  induction spent generalizing set with
  | nil => exact ⟨set, rfl⟩
  | cons key rest ih =>
    obtain ⟨here, further⟩ := List.forall_mem_cons.mp saved
    obtain ⟨output, found⟩ := Option.ne_none_iff_exists'.mp here
    rw [UtxoSet.restoreSpent, found]
    exact ih further _

/-- What the change set of an applied transaction says. -/
def changesOf (tx : Transaction) : UtxoChangeSet := ⟨tx.inputs.map TxInput.outpoint, UtxoSet.outputsOf tx⟩

/-- The outpoints that a transaction creates. -/
def createdBy (tx : Transaction) : List OutPoint := (UtxoSet.outputsOf tx).map Prod.fst

/-- The outpoints that a transaction spends. -/
def spentBy (tx : Transaction) : List OutPoint := tx.inputs.map TxInput.outpoint

/-- When a transaction can be undone, and what that leaves. -/
theorem revert_tx_ok_iff (set : UtxoSet) (tx : Transaction) :
    set.revertTx (changesOf tx) spentOutputs = (.ok (), later) ↔
      ((createdBy tx).Nodup ∧ ∀ key ∈ createdBy tx, set.utxos.lookup key ≠ none) ∧
        (∀ key ∈ spentBy tx, spentOutputs.lookup key ≠ none) ∧
        ∀ outpoint, later.utxos.lookup outpoint =
          if outpoint ∈ spentBy tx then spentOutputs.lookup outpoint
          else if outpoint ∈ createdBy tx then none else set.utxos.lookup outpoint := by
  rw [UtxoSet.revertTx, changesOf, createdBy]
  dsimp only
  rcases ran : set.removeCreated (UtxoSet.outputsOf tx) with ⟨outcome, middle⟩
  cases outcome with
  | error error =>
    refine iff_of_false (by simp) fun ⟨able, _⟩ => ?_
    have through := (remove_created_ok_iff set (UtxoSet.outputsOf tx)).mpr ⟨able, rfl⟩
    rw [ran] at through
    cases through
  | ok _ =>
    obtain ⟨able, rfl⟩ := (remove_created_ok_iff set (UtxoSet.outputsOf tx)).mp ran
    rw [restore_spent_ok_iff, and_iff_right able]
    simp only [UtxoSet.lookup_without]
    exact Iff.rfl

theorem revert_tx_succeeds {tx : Transaction} (distinct : (createdBy tx).Nodup)
    (there : ∀ key ∈ createdBy tx, set.utxos.lookup key ≠ none)
    (saved : ∀ key ∈ spentBy tx, spentOutputs.lookup key ≠ none) :
    ∃ later, set.revertTx (changesOf tx) spentOutputs = (.ok (), later) := by
  have removed := (remove_created_ok_iff set (UtxoSet.outputsOf tx)).mpr ⟨⟨distinct, there⟩, rfl⟩
  rw [UtxoSet.revertTx, changesOf]
  dsimp only
  rw [removed]
  exact restore_spent_succeeds saved _

end Steps

section Domains
variable {set other later : UtxoSet} {spentOutputs : FiniteMap OutPoint TxOutput} {tx : Transaction}

/-- An outpoint is free after a transaction that does not create it when it is spent or was free before. -/
theorem lookup_after_none_iff (set : UtxoSet) (tx : Transaction) (outpoint : OutPoint) :
    (set.after tx).utxos.lookup outpoint = none ↔
      outpoint ∉ createdBy tx ∧ (outpoint ∈ spentBy tx ∨ set.utxos.lookup outpoint = none) := by
  rw [UtxoSet.lookup_after, Option.or_eq_none_iff, UtxoSet.made_eq_none_iff, spentBy, createdBy]
  refine and_congr_right fun _ => ?_
  split <;> simp [*]

theorem lookup_after_other {outpoint : OutPoint} (created : outpoint ∉ createdBy tx) (spent : outpoint ∉ spentBy tx) :
    (set.after tx).utxos.lookup outpoint = set.utxos.lookup outpoint := by
  rw [UtxoSet.lookup_after, (UtxoSet.made_eq_none_iff tx outpoint).mpr created, Option.none_or]
  exact if_neg spent

theorem fresh_iff (set : UtxoSet) (tx : Transaction) :
    set.Fresh tx ↔ (createdBy tx).Nodup ∧
      ∀ outpoint ∈ createdBy tx, outpoint ∈ spentBy tx ∨ set.utxos.lookup outpoint = none := by
  refine and_congr_right fun _ => ?_
  rw [createdBy, List.forall_mem_map]
  refine forall₂_congr fun entry _ => ?_
  rw [UtxoSet.lookup_without, spentBy]
  split <;> simp [*]

/-- The inputs of a transaction are there. -/
def Present (set : UtxoSet) (tx : Transaction) : Prop := ∀ outpoint ∈ spentBy tx, set.utxos.lookup outpoint ≠ none

theorem validated_present [Blake3] [SchnorrScheme] {fee : UInt64} (accepted : set.validateTx tx = .ok fee) :
    Present set tx := by
  intro outpoint member
  obtain ⟨input, listed, rfl⟩ := List.mem_map.mp member
  exact Option.isSome_iff_ne_none.mp ((UtxoSet.validated_inputs accepted).2 input listed)

/-- Everything free in one set is free in the other. -/
def FreeIn (set other : UtxoSet) : Prop := ∀ outpoint, set.utxos.lookup outpoint = none → other.utxos.lookup outpoint = none

/-- What was free before a transaction is free after it is undone. -/
theorem free_in_undone (present : Present set tx) (free : FreeIn (set.after tx) other)
    (looks : ∀ outpoint, later.utxos.lookup outpoint =
      if outpoint ∈ spentBy tx then spentOutputs.lookup outpoint
      else if outpoint ∈ createdBy tx then none else other.utxos.lookup outpoint) : FreeIn set later := by
  intro outpoint absent
  have unspent : outpoint ∉ spentBy tx := fun member => present outpoint member absent
  rw [looks, if_neg unspent]
  split
  next => rfl
  next uncreated => exact free outpoint ((lookup_after_none_iff set tx outpoint).mpr ⟨uncreated, .inr absent⟩)

/-- A fresh transaction is undone, in every set with the domain that it left. -/
theorem undo_fresh (fresh : set.Fresh tx) (present : Present set tx)
    (saved : ∀ outpoint ∈ spentBy tx, spentOutputs.lookup outpoint ≠ none)
    (free : FreeIn (set.after tx) other) (held : FreeIn other (set.after tx)) :
    ∃ later, other.revertTx (changesOf tx) spentOutputs = (.ok (), later) ∧ FreeIn set later ∧ FreeIn later set ∧
      ∀ outpoint, later.utxos.lookup outpoint =
        if outpoint ∈ spentBy tx then spentOutputs.lookup outpoint
        else if outpoint ∈ createdBy tx then none else other.utxos.lookup outpoint := by
  obtain ⟨distinct, apart⟩ := (fresh_iff set tx).mp fresh
  have there : ∀ key ∈ createdBy tx, other.utxos.lookup key ≠ none :=
    fun key member absent => ((lookup_after_none_iff set tx key).mp (held key absent)).1 member
  obtain ⟨later, ran⟩ := revert_tx_succeeds distinct there saved
  have looks := ((revert_tx_ok_iff other tx).mp ran).2.2
  refine ⟨later, ran, free_in_undone present free looks, fun outpoint absent => ?_, looks⟩
  rw [looks] at absent
  split at absent
  next member => exact absurd absent (saved outpoint member)
  next unspent =>
    split at absent
    next created => exact (apart outpoint created).resolve_left unspent
    next uncreated =>
      exact ((lookup_after_none_iff set tx outpoint).mp (held outpoint absent)).2.resolve_left unspent

/-- A transaction that was undone from within the domain it left created fresh outpoints, unless something is lost. -/
theorem fresh_of_undo (present : Present set tx) (free : FreeIn (set.after tx) other)
    (undone : other.revertTx (changesOf tx) spentOutputs = (.ok (), later)) :
    FreeIn set later ∧ (FreeIn later set → FreeIn other (set.after tx) ∧ set.Fresh tx) := by
  obtain ⟨⟨distinct, there⟩, saved, looks⟩ := (revert_tx_ok_iff other tx).mp undone
  refine ⟨free_in_undone present free looks, fun whole => ⟨fun outpoint absent => ?_, ?_⟩⟩
  · have uncreated : outpoint ∉ createdBy tx := fun member => there outpoint member absent
    refine (lookup_after_none_iff set tx outpoint).mpr ⟨uncreated, or_iff_not_imp_left.mpr fun unspent => ?_⟩
    apply whole outpoint
    rw [looks, if_neg unspent, if_neg uncreated, absent]
  · refine (fresh_iff set tx).mpr ⟨distinct, fun outpoint created => or_iff_not_imp_left.mpr fun unspent => ?_⟩
    apply whole outpoint
    rw [looks, if_neg unspent, if_pos created]

end Domains

section Runs
variable {start set final : UtxoSet} {spentOutputs : FiniteMap OutPoint TxOutput} {txs : List Transaction}

/-- The last transaction is undone first. -/
theorem rollback_snoc (tx : Transaction) :
    rollback spentOutputs set ((txs ++ [tx]).map changesOf).reverse = (.ok (), final) ↔
      ∃ middle, set.revertTx (changesOf tx) spentOutputs = (.ok (), middle) ∧
        rollback spentOutputs middle (txs.map changesOf).reverse = (.ok (), final) := by
  rw [List.map_append, List.reverse_append, List.map_singleton, List.reverse_singleton, List.singleton_append, rollback]
  rcases set.revertTx (changesOf tx) spentOutputs with ⟨outcome, middle⟩
  cases outcome with
  | error error => simp
  | ok _ => simp

/-- Fresh transactions leave what they do not spend. -/
theorem run_kept (fresh : Runs.Meets UtxoSet.after start UtxoSet.Fresh txs) {outpoint : OutPoint}
    (there : start.utxos.lookup outpoint ≠ none) (unspent : ∀ tx ∈ txs, outpoint ∉ spentBy tx) :
    (Runs.run UtxoSet.after start txs).utxos.lookup outpoint = start.utxos.lookup outpoint := by
  induction txs using List.reverseRecOn with
  | nil => rfl
  | append_singleton txs tx ih =>
    obtain ⟨earlier, last⟩ := (Runs.meets_snoc txs tx).mp fresh
    have kept := ih earlier fun other member => unspent other (List.mem_append_left _ member)
    have here := unspent tx (by simp)
    have uncreated : outpoint ∉ createdBy tx := fun member =>
      there (kept ▸ (((fresh_iff _ tx).mp last).2 outpoint member).resolve_left here)
    rw [Runs.run_snoc, lookup_after_other uncreated here, kept]

/-- Fresh transactions are all undone. What was there at first holds what was saved for it, when it was spent. -/
theorem rollback_fresh (present : Runs.Meets UtxoSet.after start Present txs)
    (fresh : Runs.Meets UtxoSet.after start UtxoSet.Fresh txs)
    (saved : ∀ tx ∈ txs, ∀ outpoint ∈ spentBy tx, spentOutputs.lookup outpoint ≠ none)
    (free : FreeIn (Runs.run UtxoSet.after start txs) set) (held : FreeIn set (Runs.run UtxoSet.after start txs)) :
    ∃ final, rollback spentOutputs set (txs.map changesOf).reverse = (.ok (), final) ∧ FreeIn start final ∧
      FreeIn final start ∧ ∀ outpoint, start.utxos.lookup outpoint ≠ none →
        final.utxos.lookup outpoint =
          if ∃ tx ∈ txs, outpoint ∈ spentBy tx then spentOutputs.lookup outpoint else set.utxos.lookup outpoint := by
  induction txs using List.reverseRecOn generalizing set with
  | nil => exact ⟨set, rfl, free, held, fun outpoint _ => by simp⟩
  | append_singleton txs tx ih =>
    obtain ⟨earlier, last⟩ := (Runs.meets_snoc txs tx).mp fresh
    obtain ⟨earlierPresent, lastPresent⟩ := (Runs.meets_snoc txs tx).mp present
    rw [Runs.run_snoc] at free held
    obtain ⟨middle, undone, middleFree, middleHeld, looks⟩ :=
      undo_fresh last lastPresent (saved tx (by simp)) free held
    obtain ⟨final, ran, finalFree, finalHeld, values⟩ := ih earlierPresent earlier
      (fun other member => saved other (List.mem_append_left _ member)) middleFree middleHeld
    refine ⟨final, (rollback_snoc tx).mpr ⟨middle, undone, ran⟩, finalFree, finalHeld, fun outpoint there => ?_⟩
    rw [values outpoint there, looks outpoint]
    by_cases before : ∃ tx ∈ txs, outpoint ∈ spentBy tx
    · obtain ⟨other, member, spent⟩ := before
      rw [if_pos ⟨other, member, spent⟩, if_pos ⟨other, List.mem_append_left _ member, spent⟩]
    · rw [if_neg before]
      by_cases spent : outpoint ∈ spentBy tx
      · rw [if_pos spent, if_pos ⟨tx, by simp, spent⟩]
      · have never : ¬ ∃ other ∈ txs ++ [tx], outpoint ∈ spentBy other := by
          simpa [spent] using before
        have kept := run_kept earlier there fun other member here => before ⟨other, member, here⟩
        have uncreated : outpoint ∉ createdBy tx := fun member =>
          there (kept ▸ (((fresh_iff _ tx).mp last).2 outpoint member).resolve_left spent)
        rw [if_neg spent, if_neg uncreated, if_neg never]

/-- Transactions that were all undone without losing anything created fresh outpoints. -/
theorem fresh_of_rollback (present : Runs.Meets UtxoSet.after start Present txs)
    (free : FreeIn (Runs.run UtxoSet.after start txs) set)
    (ran : rollback spentOutputs set (txs.map changesOf).reverse = (.ok (), final)) :
    FreeIn start final ∧ (FreeIn final start → FreeIn set (Runs.run UtxoSet.after start txs) ∧
      Runs.Meets UtxoSet.after start UtxoSet.Fresh txs) := by
  induction txs using List.reverseRecOn generalizing set with
  | nil =>
    cases ran
    exact ⟨free, fun whole => ⟨whole, Runs.meets_nil⟩⟩
  | append_singleton txs tx ih =>
    obtain ⟨earlierPresent, lastPresent⟩ := (Runs.meets_snoc txs tx).mp present
    obtain ⟨middle, undone, further⟩ := (rollback_snoc tx).mp ran
    rw [Runs.run_snoc] at free ⊢
    obtain ⟨middleFree, fresh⟩ := fresh_of_undo lastPresent free undone
    obtain ⟨finalFree, rest⟩ := ih earlierPresent middleFree further
    refine ⟨finalFree, fun whole => ?_⟩
    obtain ⟨middleHeld, earlier⟩ := rest whole
    obtain ⟨held, last⟩ := fresh middleHeld
    exact ⟨held, (Runs.meets_snoc txs tx).mpr ⟨earlier, last⟩⟩

end Runs
end Klomang.BlockchainState
