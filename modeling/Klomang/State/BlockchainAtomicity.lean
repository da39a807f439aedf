import Klomang.Sample
import Klomang.State.BlockchainUndo

/-! When a refused block leaves the set of unspent outputs as it was. -/
namespace Klomang.BlockchainState

section Refusal
variable [Blake3] [SchnorrScheme]

/-- A transaction is accepted. -/
def Accepts (set : UtxoSet) (tx : Transaction) : Prop := ∃ fee, set.validateTx tx = .ok fee

/-- The transactions before the first one that is refused, that one, and what is wrong with it. -/
def refusal (set : UtxoSet) : List Transaction → Option (List Transaction × Transaction × CoreError)
  | [] => none
  | tx :: rest =>
    match set.validateTx tx with
    | .error error => some ([], tx, error)
    | .ok _ => (refusal (set.after tx) rest).map fun (before, refused) => (tx :: before, refused)

/-- What some transactions find at an outpoint when one of them names it as an input for the last time. -/
def lastNamed (outpoint : OutPoint) (set : UtxoSet) : List Transaction → Option TxOutput
  | [] => none
  | tx :: rest =>
    (lastNamed outpoint (set.after tx) rest).or (if outpoint ∈ spentBy tx then set.utxos.lookup outpoint else none)

/-- The transactions before a refused one can be undone: each creates fresh outpoints, and an outpoint of the original
set that they spend is last named while it holds what it held originally. -/
structure Undoable (set : UtxoSet) (before : List Transaction) (refused : Transaction) : Prop where
  fresh : Runs.Meets UtxoSet.after set UtxoSet.Fresh before
  unchanged : ∀ outpoint output, set.utxos.lookup outpoint = some output → (∃ tx ∈ before, outpoint ∈ spentBy tx) →
    lastNamed outpoint set (before ++ [refused]) = some output

/-- If a transaction is refused, those before it can be undone. -/
def RefusalUndoable (set : UtxoSet) (txs : List Transaction) : Prop :=
  ∀ before refused error, refusal set txs = some (before, refused, error) → Undoable set before refused

variable {set : UtxoSet} {txs before : List Transaction} {refused : Transaction} {error : CoreError}

theorem refusal_some (found : refusal set txs = some (before, refused, error)) :
    Runs.Meets UtxoSet.after set Accepts before ∧
      (Runs.run UtxoSet.after set before).validateTx refused = .error error := by
  induction txs generalizing set before with
  | nil => cases found
  | cons tx rest ih =>
    rw [refusal] at found
    split at found
    next wrong checked =>
      cases found
      exact ⟨Runs.meets_nil, checked⟩
    next fee checked =>
      obtain ⟨⟨earlier, pair⟩, further, same⟩ := Option.map_eq_some_iff.mp found
      cases same
      obtain ⟨accepted, wrong⟩ := ih further
      exact ⟨(Runs.meets_cons tx earlier).mpr ⟨⟨fee, checked⟩, accepted⟩, wrong⟩

theorem accepts_present {tx : Transaction} (accepts : Accepts set tx) : Present set tx := by
  obtain ⟨fee, accepted⟩ := accepts
  exact validated_present accepted

/-- What accepted transactions spend was named. -/
theorem last_named_of_spent (accepted : Runs.Meets UtxoSet.after set Accepts before) (rest : List Transaction) :
    ∀ tx ∈ before, ∀ outpoint ∈ spentBy tx, lastNamed outpoint set (before ++ rest) ≠ none := by
  induction before generalizing set with
  | nil => simp
  | cons first others ih =>
    obtain ⟨here, further⟩ := (Runs.meets_cons first others).mp accepted
    intro tx member outpoint spent
    rw [List.cons_append, lastNamed, ne_eq, Option.or_eq_none_iff]
    rintro ⟨later, now⟩
    rcases List.mem_cons.mp member with rfl | other
    · rw [if_pos spent] at now
      exact accepts_present here outpoint spent now
    · exact ih further tx other outpoint spent later

theorem apply_transactions_accepted (changesets : List UtxoChangeSet) (spentOutputs : FiniteMap OutPoint TxOutput)
    (all : refusal set txs = none) :
    applyTransactions changesets spentOutputs set txs = (.ok (), Runs.run UtxoSet.after set txs) := by
  induction txs generalizing set changesets spentOutputs with
  | nil => rfl
  | cons tx rest ih =>
    rw [refusal] at all
    split at all
    · cases all
    next fee checked =>
      rw [applyTransactions, UtxoSet.apply_tx_ok checked]
      exact ih _ _ (Option.map_eq_none_iff.mp all)

/-- A refused transaction makes the block undo those before it, with what was saved for them. -/
theorem apply_transactions_refused (changesets : List UtxoChangeSet) (spentOutputs : FiniteMap OutPoint TxOutput)
    (found : refusal set txs = some (before, refused, error)) :
    ∃ saved : FiniteMap OutPoint TxOutput,
      (∀ outpoint, saved.lookup outpoint =
        (lastNamed outpoint set (before ++ [refused])).or (spentOutputs.lookup outpoint)) ∧
      applyTransactions changesets spentOutputs set txs =
        match rollback saved (Runs.run UtxoSet.after set before) (changesets ++ before.map changesOf).reverse with
        | (.error revertError, left) => (.error revertError, left)
        | (.ok (), left) => (.error error, left) := by
  induction txs generalizing set before changesets spentOutputs with
  | nil => cases found
  | cons tx rest ih =>
    rw [refusal] at found
    rw [applyTransactions]
    split at found
    next wrong checked =>
      cases found
      refine ⟨saveSpent set spentOutputs refused.inputs, fun outpoint => ?_, ?_⟩
      · rw [lookup_save_spent]
        simp [lastNamed, spentBy]
      · rw [UtxoSet.apply_tx_error checked, List.map_nil, List.append_nil]
        rfl
    next fee checked =>
      obtain ⟨⟨earlier, pair⟩, further, same⟩ := Option.map_eq_some_iff.mp found
      cases same
      obtain ⟨saved, looks, ran⟩ := ih (changesets ++ [changesOf tx]) (saveSpent set spentOutputs tx.inputs) further
      refine ⟨saved, fun outpoint => ?_, ?_⟩
      · rw [looks, lookup_save_spent, List.cons_append, lastNamed, Option.or_assoc]
        rfl
      · rw [UtxoSet.apply_tx_ok checked]
        exact ran.trans (by rw [List.append_assoc]; rfl)

/-- What the undo after a refused transaction starts from: the outputs that the transactions before it spent were there,
and each of them was saved as it was last named. -/
theorem apply_transactions_undoes (found : refusal set txs = some (before, refused, error)) :
    Runs.Meets UtxoSet.after set Present before ∧
      ∃ saved : FiniteMap OutPoint TxOutput,
        (∀ outpoint, saved.lookup outpoint = lastNamed outpoint set (before ++ [refused])) ∧
        (∀ tx ∈ before, ∀ outpoint ∈ spentBy tx, saved.lookup outpoint ≠ none) ∧
        applyTransactions [] ∅ set txs =
          match rollback saved (Runs.run UtxoSet.after set before) (before.map changesOf).reverse with
          | (.error revertError, left) => (.error revertError, left)
          | (.ok (), left) => (.error error, left) := by
  obtain ⟨accepted, _⟩ := refusal_some found
  obtain ⟨saved, looks, ran⟩ := apply_transactions_refused [] ∅ found
  have kept : ∀ outpoint, saved.lookup outpoint = lastNamed outpoint set (before ++ [refused]) := by
    intro outpoint
    rw [looks]
    simp
  refine ⟨fun earlier tx partly => accepts_present (accepted earlier tx partly), saved, kept, ?_, ran⟩
  intro tx member outpoint spent
  rw [kept]
  exact last_named_of_spent accepted [refused] tx member outpoint spent

section Errors
omit [Blake3] [SchnorrScheme]

/-- An error that does not say that an undo failed. -/
def NotRevert (error : CoreError) : Prop := ∀ inner, error ≠ revertFailed inner

theorem not_revert_of_head {msg : String} (head : msg.toList.head? ≠ some 'T') : NotRevert (.transactionError msg) := by
  intro inner same
  apply head
  rw [CoreError.transactionError.inj same, String.toList_append, List.head?_append]
  rfl

theorem not_revert_total_output {total : UInt64} {outputs : List TxOutput}
    (wrong : UtxoSet.totalOutput total outputs = .error error) : NotRevert error := by
  induction outputs generalizing total with
  | nil => cases wrong
  | cons output rest ih =>
    rw [UtxoSet.totalOutput] at wrong
    split at wrong
    · exact ih wrong
    · cases wrong
      exact not_revert_of_head (by decide)

theorem not_revert_verify_input [Blake3] [SchnorrScheme] {tx : Transaction} {inputIdx : Nat} {input : TxInput}
    (wrong : UtxoSet.verifyInput tx inputIdx input = .error error) : NotRevert error := by
  intro inner same
  subst same
  unfold UtxoSet.verifyInput at wrong
  repeat' first
    | cases wrong
    | split at wrong

theorem not_revert_total_input [Blake3] [SchnorrScheme] {tx : Transaction} {total : UInt64}
    {inputs : List (TxInput × Nat)} (wrong : set.totalInput tx total inputs = .error error) : NotRevert error := by
  induction inputs generalizing total with
  | nil => cases wrong
  | cons item rest ih =>
    obtain ⟨input, inputIdx⟩ := item
    rw [UtxoSet.totalInput] at wrong
    split at wrong
    · cases wrong
      exact not_revert_of_head (by decide)
    split at wrong
    · cases wrong
      exact not_revert_of_head (by decide)
    split at wrong
    next verified =>
      cases wrong
      exact not_revert_verify_input verified
    · exact ih wrong

/-- What `validate_tx` says of a transaction is never that an undo failed. -/
theorem not_revert_validate_tx [Blake3] [SchnorrScheme] {tx : Transaction} (wrong : set.validateTx tx = .error error) :
    NotRevert error := by
  unfold UtxoSet.validateTx at wrong
  dsimp only at wrong
  split at wrong
  · cases wrong
    exact not_revert_of_head (by decide)
  split at wrong
  · cases wrong
  split at wrong
  · cases wrong
    exact not_revert_of_head (by simp [String.toList_append])
  split at wrong
  next outputs =>
    cases wrong
    exact not_revert_total_output outputs
  split at wrong
  next inputs =>
    cases wrong
    exact not_revert_total_input inputs
  split at wrong
  · cases wrong
    exact not_revert_of_head (by decide)
  · cases wrong

end Errors

variable {state : BlockchainState} {block : BlockNode}

omit [Blake3] [SchnorrScheme] in
theorem rollback_error {spentOutputs : FiniteMap OutPoint TxOutput} {changesets : List UtxoChangeSet} {left : UtxoSet}
    (failed : rollback spentOutputs set changesets = (.error error, left)) : ∃ inner, error = revertFailed inner := by
  induction changesets generalizing set with
  | nil => cases failed
  | cons changeset rest ih =>
    rw [rollback] at failed
    split at failed
    next inner _ _ =>
      cases failed
      exact ⟨inner, rfl⟩
    · exact ih failed

theorem apply_block_refused (found : refusal state.utxoSet block.transactions = some (before, refused, error)) :
    ∃ wrong, (state.applyBlock block).1 = .error wrong := by
  obtain ⟨saved, _, ran⟩ := apply_transactions_refused [] ∅ found
  rw [applyBlock, ran]
  split
  next result utxoSet same =>
    split at same <;> cases same <;> exact ⟨_, rfl⟩

/-- A refused block that can be undone leaves the error of the refused transaction and the set as it was. -/
theorem apply_block_undone (found : refusal state.utxoSet block.transactions = some (before, refused, error))
    (undoable : Undoable state.utxoSet before refused) : state.applyBlock block = (.error error, state) := by
  obtain ⟨present, saved, kept, filled, ran⟩ := apply_transactions_undoes found
  obtain ⟨final, undone, free, _, values⟩ :=
    rollback_fresh present undoable.fresh filled (fun _ => id) (fun _ => id)
  have same : final = state.utxoSet := by
    refine utxo_set_ext fun outpoint => ?_
    cases here : state.utxoSet.utxos.lookup outpoint with
    | none => exact free outpoint here
    | some output =>
      rw [values outpoint (by simp [here])]
      split
      next spent => rw [kept, undoable.unchanged outpoint output here spent]
      next unspent =>
        rw [run_kept undoable.fresh (by simp [here]) fun tx member spent => unspent ⟨tx, member, spent⟩, here]
  rw [applyBlock, ran, undone, same]

/-- A refused block whose undo succeeds and gives the set back could be undone. -/
theorem undoable_of_restored (found : refusal state.utxoSet block.transactions = some (before, refused, error))
    (restored : (state.applyBlock block).2 = state)
    (clean : ∀ inner, (state.applyBlock block).1 ≠ .error (revertFailed inner)) : Undoable state.utxoSet before refused := by
  obtain ⟨present, saved, kept, filled, ran⟩ := apply_transactions_undoes found
  rw [applyBlock, ran] at restored clean
  rcases undone : rollback saved (Runs.run UtxoSet.after state.utxoSet before) (before.map changesOf).reverse
    with ⟨outcome, final⟩
  rw [undone] at restored clean
  cases outcome with
  | error revertError =>
    obtain ⟨inner, rfl⟩ := rollback_error undone
    exact absurd rfl (clean inner)
  | ok _ =>
    have same : final = state.utxoSet := congrArg utxoSet restored
    subst same
    obtain ⟨_, fresh⟩ := fresh_of_rollback present (fun _ => id) undone
    obtain ⟨_, fresh⟩ := fresh fun _ => id
    refine ⟨fresh, fun outpoint output here spent => ?_⟩
    obtain ⟨again, rolled, _, _, values⟩ := rollback_fresh present fresh filled (fun _ => id) (fun _ => id)
    cases undone.symm.trans rolled
    have value := values outpoint (by simp [here])
    rw [if_pos spent, kept, here] at value
    exact value.symm

/-- All or nothing: unless the undo reports its own failure, a refused block leaves the set of unspent outputs as it was
exactly when the transactions before the refused one can be undone. -/
theorem apply_block_all_or_nothing_iff (state : BlockchainState) (block : BlockNode) :
    (RefusalUndoable state.utxoSet block.transactions →
      ∀ error, (state.applyBlock block).1 = .error error → (state.applyBlock block).2 = state) ∧
    (RefusalUndoable state.utxoSet block.transactions ↔
      ∀ error, (state.applyBlock block).1 = .error error →
        (state.applyBlock block).2 = state ∧ ∀ inner, error ≠ revertFailed inner) := by
  have exact : RefusalUndoable state.utxoSet block.transactions ↔
      ∀ error, (state.applyBlock block).1 = .error error →
        (state.applyBlock block).2 = state ∧ ∀ inner, error ≠ revertFailed inner := by
    rcases found : refusal state.utxoSet block.transactions with _ | ⟨before, refused, error⟩
    · refine iff_of_true (fun _ _ _ refused => by cases found.symm.trans refused) fun error wrong => ?_
      rw [applyBlock, apply_transactions_accepted [] ∅ found] at wrong
      cases wrong
    · constructor
      · intro undoable wrong failed
        rw [apply_block_undone found (undoable before refused error found)] at failed ⊢
        cases failed
        exact ⟨rfl, not_revert_validate_tx (refusal_some found).2⟩
      · intro restores _ _ _ same
        cases found.symm.trans same
        obtain ⟨wrong, failed⟩ := apply_block_refused found
        obtain ⟨restored, clean⟩ := restores wrong failed
        exact undoable_of_restored found restored fun inner same => clean inner (Except.error.inj (failed.symm.trans same))
  exact ⟨fun undoable error wrong => (exact.mp undoable error wrong).1, exact⟩

end Refusal

section Destruction
open Klomang.Sample

/-- A block of some transactions. -/
def blockWith (transactions : List Transaction) : BlockNode :=
  ⟨⟨.ofNat 0, ∅, 0, 1, 0, .ofNat 0, none, none⟩, ∅, none, ∅, ∅, 0, transactions⟩

/-- A coinbase; one with the same outputs has the same id. -/
def coinbase : Transaction := .new [] [⟨5, .replicate 9⟩]

/-- A transaction that spends what is not there. -/
def unfounded : Transaction := .new [⟨.replicate 7, 0, [], List.replicate 32 5, .all⟩] []

/-- The state after a block with the coinbase. -/
def rewarded : BlockchainState := ((⟨.new⟩ : BlockchainState).applyBlock (blockWith [coinbase])).2

/-- A refused block that repeats the coinbase takes the coin of the block before away. -/
theorem refused_block_destroys_coin :
    (rewarded.applyBlock (blockWith [coinbase, unfounded])).1 =
        .error (.transactionError "Input UTXO not found") ∧
      rewarded.utxoSet.utxos.lookup (coinbase.id, 0) = some ⟨5, .replicate 9⟩ ∧
      (rewarded.applyBlock (blockWith [coinbase, unfounded])).2.utxoSet.utxos.lookup (coinbase.id, 0) = none := by
  refine ⟨?_, ?_, ?_⟩ <;> decide +kernel

end Destruction
end Klomang.BlockchainState
