import Klomang.Lib.Edits
import Klomang.State.UtxoApply

/-! Transactions as edits of the set of unspent outputs: every input removes an outpoint, every output writes one. -/
namespace Klomang.UtxoSet

/-- What a transaction writes where it creates outputs. -/
def creations (tx : Transaction) : List (Edit OutPoint TxOutput) :=
  (outputsOf tx).map fun entry => (entry.1, some entry.2)

/-- What a transaction edits. -/
def edits (tx : Transaction) : List (Edit OutPoint TxOutput) :=
  tx.inputs.map (fun input => (input.outpoint, none)) ++ creations tx

/-- What a transaction leaves at an outpoint that it creates: the last of the outputs that are written there. -/
def made (tx : Transaction) (outpoint : OutPoint) : Option TxOutput := (Edit.last outpoint (creations tx)).join

variable (set : UtxoSet) (tx : Transaction) (outpoint : OutPoint)

theorem without_eq (outpoints : List OutPoint) :
    (set.without outpoints).utxos = Edit.replay set.utxos (outpoints.map fun outpoint => (outpoint, none)) := by
  simp [without, Edit.replay, Edit.apply, List.foldl_map]

theorem extended_eq (created : List (OutPoint × TxOutput)) :
    (set.extended created).utxos = Edit.replay set.utxos (created.map fun entry => (entry.1, some entry.2)) := by
  simp [extended, Edit.replay, Edit.apply, List.foldl_map]

theorem after_eq : (set.after tx).utxos = Edit.replay set.utxos (edits tx) := by
  rw [after, extended_eq, without_eq, edits, Edit.replay_append, List.map_map]
  rfl

/-- The last edit of an outpoint by writes alone. -/
theorem last_writes (created : List (OutPoint × TxOutput)) :
    Edit.last outpoint (created.map fun entry => (entry.1, some entry.2)) =
      (Edit.last outpoint (created.map fun entry => (entry.1, some entry.2))).join.map some := by
  induction created with
  | nil => rfl
  | cons entry rest ih =>
    rw [List.map_cons, Edit.last, ih]
    cases (Edit.last outpoint (rest.map fun entry => (entry.1, some entry.2))).join with
    | some output => rfl
    | none =>
      simp only [Option.map_none, Option.none_or]
      split <;> rfl

theorem last_erasures (outpoints : List OutPoint) :
    Edit.last outpoint (outpoints.map fun outpoint => ((outpoint, none) : Edit OutPoint TxOutput)) =
      if outpoint ∈ outpoints then some none else none := by
  induction outpoints with
  | nil => rfl
  | cons first rest ih =>
    rw [List.map_cons, Edit.last, ih]
    by_cases later : outpoint ∈ rest
    · simp [later]
    · by_cases same : first = outpoint
      · subst same
        simp [later]
      · simp [later, same, Ne.symm same]

theorem lookup_without (outpoints : List OutPoint) :
    (set.without outpoints).utxos.lookup outpoint =
      if outpoint ∈ outpoints then none else set.utxos.lookup outpoint := by
  rw [without_eq, Edit.lookup_replay, last_erasures]
  split <;> rfl

/-- What a set holds at an outpoint after a transaction. -/
theorem lookup_after :
    (set.after tx).utxos.lookup outpoint =
      (made tx outpoint).or
        (if outpoint ∈ tx.inputs.map TxInput.outpoint then none else set.utxos.lookup outpoint) := by
  have erased := last_erasures outpoint (tx.inputs.map TxInput.outpoint)
  have written := last_writes outpoint (outputsOf tx)
  rw [List.map_map] at erased
  rw [after_eq, Edit.lookup_replay, edits, Edit.last_append, made]
  simp only [creations] at *
  rw [written, show ((fun input : TxInput => ((input.outpoint, none) : Edit OutPoint TxOutput))) =
    (fun outpoint => (outpoint, none)) ∘ TxInput.outpoint from rfl, erased]
  cases (Edit.last outpoint ((outputsOf tx).map fun entry => (entry.1, some entry.2))).join with
  | some output => rfl
  | none => split <;> rfl

/-- Something is made exactly where an output has its outpoint. -/
theorem made_eq_none_iff : made tx outpoint = none ↔ outpoint ∉ (outputsOf tx).map Prod.fst := by
  have written : Edit.last outpoint (creations tx) = (made tx outpoint).map some := last_writes outpoint (outputsOf tx)
  rw [← Option.map_eq_none_iff, ← written, Edit.last_eq_none_iff, creations, List.forall_mem_map, List.mem_map]
  exact ⟨fun apart ⟨entry, member, same⟩ => apart entry member same,
    fun apart entry member same => apart ⟨entry, member, same⟩⟩

end Klomang.UtxoSet
