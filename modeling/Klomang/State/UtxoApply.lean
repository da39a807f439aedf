import Klomang.State.Utxo

/-! `core/state/utxo.rs`: applying one transaction to the set of unspent outputs. -/
namespace Klomang

structure UtxoChangeSet where
  spent : List OutPoint
  created : List (OutPoint × TxOutput)

namespace UtxoSet

/-- The loop of `apply_tx` over the inputs. -/
def takeInputs (set : UtxoSet) (spent : List OutPoint) : List TxInput → Except CoreError (List OutPoint) × UtxoSet
  | [] => (.ok spent, set)
  | input :: rest =>
    let key := input.outpoint
    if (set.utxos.lookup key).isSome then
      takeInputs ⟨set.utxos.erase key⟩ (spent ++ [key]) rest
    else (.error (.transactionError "Input UTXO disappeared during apply"), set)

/-- The loop of `apply_tx` over the outputs and their positions. -/
def putOutputs (set : UtxoSet) (id : Hash) (created : List (OutPoint × TxOutput)) :
    List (TxOutput × Nat) → List (OutPoint × TxOutput) × UtxoSet
  | [] => (created, set)
  | (output, index) :: rest =>
    let key := (id, UInt32.ofNat index)
    putOutputs ⟨set.utxos.insert key output⟩ id (created ++ [(key, output)]) rest

section Apply
variable [Blake3] [SchnorrScheme]

/-- `apply_tx`. -/
def applyTx (set : UtxoSet) (tx : Transaction) : Except CoreError UtxoChangeSet × UtxoSet :=
  match set.validateTx tx with
  | .error error => (.error error, set)
  | .ok _ =>
    match set.takeInputs [] tx.inputs with
    | (.error error, set) => (.error error, set)
    | (.ok spent, set) =>
      let (created, set) := set.putOutputs tx.id [] tx.outputs.zipIdx
      (.ok ⟨spent, created⟩, set)

end Apply

section Effects

/-- The set without some of its outputs. -/
def without (set : UtxoSet) (outpoints : List OutPoint) : UtxoSet :=
  ⟨outpoints.foldl (fun utxos outpoint => utxos.erase outpoint) set.utxos⟩

/-- The set with further outputs. -/
def extended (set : UtxoSet) (created : List (OutPoint × TxOutput)) : UtxoSet :=
  ⟨created.foldl (fun utxos entry => utxos.insert entry.1 entry.2) set.utxos⟩

/-- The outputs of a transaction at their outpoints. -/
def outputsOf (tx : Transaction) : List (OutPoint × TxOutput) :=
  tx.outputs.zipIdx.map fun (output, index) => ((tx.id, UInt32.ofNat index), output)

/-- What a transaction leaves of the set that it is applied to. -/
def after (set : UtxoSet) (tx : Transaction) : UtxoSet :=
  (set.without (tx.inputs.map TxInput.outpoint)).extended (outputsOf tx)

variable {set : UtxoSet} {tx : Transaction}

theorem take_inputs_ok {spent : List OutPoint} {inputs : List TxInput}
    (distinct : (inputs.map TxInput.outpoint).Nodup)
    (found : ∀ input ∈ inputs, (set.utxos.lookup input.outpoint).isSome = true) :
    set.takeInputs spent inputs =
      (.ok (spent ++ inputs.map TxInput.outpoint), set.without (inputs.map TxInput.outpoint)) := by
  induction inputs generalizing set spent with
  | nil =>
    rw [takeInputs, List.map_nil, List.append_nil]
    rfl
  | cons input rest ih =>
    obtain ⟨once, others⟩ := List.nodup_cons.mp distinct
    have kept : ∀ other ∈ rest,
        ((⟨set.utxos.erase input.outpoint⟩ : UtxoSet).utxos.lookup other.outpoint).isSome = true := by
      intro other member
      have different : other.outpoint ≠ input.outpoint :=
        fun same => once (List.mem_map.mpr ⟨other, member, same⟩)
      rw [FiniteMap.lookup_erase_ite, if_neg different]
      exact found other (List.mem_cons_of_mem _ member)
    rw [takeInputs, if_pos (found input List.mem_cons_self), ih others kept, List.append_assoc]
    rfl

theorem put_outputs_eq (set : UtxoSet) (id : Hash) (created : List (OutPoint × TxOutput))
    (outputs : List (TxOutput × Nat)) :
    set.putOutputs id created outputs =
      (created ++ outputs.map (fun (output, index) => ((id, UInt32.ofNat index), output)),
        set.extended (outputs.map fun (output, index) => ((id, UInt32.ofNat index), output))) := by
  induction outputs generalizing set created with
  | nil =>
    rw [putOutputs, List.map_nil, List.append_nil]
    rfl
  | cons item rest ih =>
    obtain ⟨output, index⟩ := item
    rw [putOutputs]
    dsimp only
    rw [ih, List.append_assoc]
    rfl

variable [Blake3] [SchnorrScheme]

/-- The inputs of a transaction that is accepted are distinct and there. -/
theorem validated_inputs {fee : UInt64} (accepted : set.validateTx tx = .ok fee) :
    (tx.inputs.map TxInput.outpoint).Nodup ∧
      ∀ input ∈ tx.inputs, (set.utxos.lookup input.outpoint).isSome = true := by
  by_cases empty : tx.inputs = []
  · simp [empty]
  · obtain ⟨signed, covered⟩ := (validate_tx_ok_iff empty).mp ⟨fee, accepted⟩
    exact ⟨signed.distinct, covered.found⟩

/-- A transaction that is accepted is applied, and nothing disappears on the way. -/
theorem apply_tx_ok {fee : UInt64} (accepted : set.validateTx tx = .ok fee) :
    set.applyTx tx = (.ok ⟨tx.inputs.map TxInput.outpoint, outputsOf tx⟩, set.after tx) := by
  obtain ⟨distinct, found⟩ := validated_inputs accepted
  rw [applyTx, accepted]
  dsimp only
  rw [take_inputs_ok distinct found]
  dsimp only
  rw [put_outputs_eq, List.nil_append, List.nil_append]
  rfl

theorem apply_tx_error {error : CoreError} (refused : set.validateTx tx = .error error) :
    set.applyTx tx = (.error error, set) := by
  rw [applyTx, refused]

/-- `apply_tx` succeeds exactly when `validate_tx` does, and then leaves what the transaction leaves. -/
theorem apply_tx_eq_ok {changes : UtxoChangeSet} {later : UtxoSet}
    (applied : set.applyTx tx = (.ok changes, later)) :
    (∃ fee, set.validateTx tx = .ok fee) ∧ later = set.after tx := by
  cases checked : set.validateTx tx with
  | error error =>
    rw [apply_tx_error checked] at applied
    cases applied
  | ok fee =>
    rw [apply_tx_ok checked] at applied
    cases applied
    exact ⟨⟨fee, rfl⟩, rfl⟩

end Effects

section Values

/-- What the inputs of a transaction are worth in a set. -/
def spentValue (set : UtxoSet) (tx : Transaction) : Nat :=
  (tx.inputs.map fun input => set.valueAt input.outpoint).sum

/-- What the outputs of a transaction are worth. -/
def outputValue (tx : Transaction) : Nat := (tx.outputs.map fun output => output.value.toNat).sum

/-- The outpoints that a transaction creates are distinct, and free when it creates them. -/
def Fresh (set : UtxoSet) (tx : Transaction) : Prop :=
  ((outputsOf tx).map Prod.fst).Nodup ∧
    ∀ entry ∈ outputsOf tx, (set.without (tx.inputs.map TxInput.outpoint)).utxos.lookup entry.1 = none

variable {set : UtxoSet} {tx : Transaction}

/-- A transaction with fresh outputs changes the total by what it creates and what it spends. -/
theorem total_after (distinct : (tx.inputs.map TxInput.outpoint).Nodup) (fresh : Fresh set tx) :
    (set.after tx).totalValue + set.spentValue tx = set.totalValue + outputValue tx := by
  have taken : (set.without (tx.inputs.map TxInput.outpoint)).totalValue + _ = set.totalValue :=
    FiniteMap.total_erase_all (fun output : TxOutput => output.value.toNat) set.utxos distinct
  have put := FiniteMap.total_insert_all (fun output : TxOutput => output.value.toNat)
    (set.without (tx.inputs.map TxInput.outpoint)).utxos fresh.1 fresh.2
  have spent : (tx.inputs.map TxInput.outpoint).map
      (FiniteMap.weight (fun output : TxOutput => output.value.toNat) set.utxos) =
        tx.inputs.map fun input => set.valueAt input.outpoint := by
    rw [List.map_map]
    exact List.map_congr_left fun input _ => (value_at_weight set input.outpoint).symm
  have created : ((outputsOf tx).map fun entry => entry.2.value.toNat) =
      tx.outputs.map fun output => output.value.toNat := by
    rw [outputsOf, List.map_map]
    conv_rhs => rw [← List.zipIdx_map_fst 0 tx.outputs, List.map_map]
    rfl
  rw [spent] at taken
  rw [created] at put
  rw [totalValue] at taken
  rw [spentValue, outputValue, totalValue, after, extended, put]
  omega

variable [Blake3] [SchnorrScheme]

/-- The fee of an accepted transaction is what its inputs are worth beyond its outputs. -/
theorem validate_tx_fee {fee : UInt64} (spends : tx.isCoinbase = false)
    (accepted : set.validateTx tx = .ok fee) : fee.toNat + outputValue tx = set.spentValue tx := by
  have values := values_with_positions set tx
  unfold validateTx at accepted
  dsimp only at accepted
  split at accepted
  · cases accepted
  rw [spends, if_neg Bool.false_ne_true] at accepted
  split at accepted
  · cases accepted
  split at accepted
  · cases accepted
  rename_i outputSum outputs
  split at accepted
  · cases accepted
  rename_i inputSum inputs
  have created := total_output_ok.mp outputs
  obtain ⟨_, spent⟩ := total_input_ok.mp inputs
  rw [UInt64.toNat_zero, Nat.zero_add] at created spent
  rw [values] at spent
  split at accepted
  · cases accepted
  rename_i enough
  cases accepted
  have covered : outputSum ≤ inputSum := UInt64.not_lt.mp enough
  rw [UInt64.toNat_sub_of_le _ _ covered, spentValue, outputValue, created, spent]
  have numbers := UInt64.le_iff_toNat_le.mp covered
  omega

end Values

section Subsets

/-- Everything in the first set is in the second one. -/
def Within (set other : UtxoSet) : Prop :=
  ∀ outpoint output, set.utxos.lookup outpoint = some output → other.utxos.lookup outpoint = some output

variable {set other : UtxoSet} {tx : Transaction}

theorem Within.erase (within : Within set other) (outpoint : OutPoint) :
    Within ⟨set.utxos.erase outpoint⟩ ⟨other.utxos.erase outpoint⟩ := by
  intro key output found
  rw [FiniteMap.lookup_erase_ite] at found ⊢
  split at found
  · cases found
  · rename_i different
    rw [if_neg different]
    exact within key output found

theorem Within.insert (within : Within set other) (outpoint : OutPoint) (value : TxOutput) :
    Within ⟨set.utxos.insert outpoint value⟩ ⟨other.utxos.insert outpoint value⟩ := by
  intro key output found
  rw [FiniteMap.lookup_insert_ite] at found ⊢
  split at found
  · rename_i same
    rw [if_pos same]
    exact found
  · rename_i different
    rw [if_neg different]
    exact within key output found

theorem Within.after (within : Within set other) (tx : Transaction) : Within (set.after tx) (other.after tx) := by
  have erased : ∀ (outpoints : List OutPoint) (set other : UtxoSet), Within set other →
      Within (set.without outpoints) (other.without outpoints) := by
    intro outpoints
    induction outpoints with
    | nil => exact fun _ _ within => within
    | cons outpoint rest ih => exact fun set other within => ih _ _ (within.erase outpoint)
  have put : ∀ (created : List (OutPoint × TxOutput)) (set other : UtxoSet), Within set other →
      Within (set.extended created) (other.extended created) := by
    intro created
    induction created with
    | nil => exact fun _ _ within => within
    | cons entry rest ih => exact fun set other within => ih _ _ (within.insert entry.1 entry.2)
  exact put _ _ _ (erased _ _ _ within)

/-- New outputs leave alone what was there. -/
theorem Within.extended (within : Within set other) {created : List (OutPoint × TxOutput)}
    (fresh : ∀ entry ∈ created, set.utxos.lookup entry.1 = none) : Within set (other.extended created) := by
  induction created generalizing other with
  | nil => exact within
  | cons entry rest ih =>
    suffices inserted : Within set (⟨other.utxos.insert entry.1 entry.2⟩ : UtxoSet) from
      ih inserted fun later member => fresh later (List.mem_cons_of_mem _ member)
    intro outpoint output found
    have free := fresh entry List.mem_cons_self
    have different : outpoint ≠ entry.1 := by
      rintro rfl
      rw [found] at free
      cases free
    rw [FiniteMap.lookup_insert_ite, if_neg different]
    exact within outpoint output found

/-- A coinbase only adds outputs. -/
theorem Within.after_coinbase (within : Within set other) (coinbase : tx.isCoinbase = true)
    (fresh : other.Fresh tx) : Within set (other.after tx) := by
  have inputs : tx.inputs = [] := List.isEmpty_iff.mp coinbase
  obtain ⟨_, free⟩ := fresh
  rw [inputs] at free
  rw [UtxoSet.after, inputs]
  refine Within.extended within fun entry created => ?_
  cases found : set.utxos.lookup entry.1 with
  | none => rfl
  | some output => cases (within _ _ found).symm.trans (free entry created)

end Subsets
end UtxoSet
end Klomang
