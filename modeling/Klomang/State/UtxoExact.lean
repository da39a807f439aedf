import Klomang.Sample
import Klomang.State.UtxoEdits

/-! `apply_tx` does what `validate_tx` promises. The checks that precede the loops are enough for both of them: nothing
disappears on the way, the created outpoints are counted without repeating, and the total loses the fee. -/
namespace Klomang.UtxoSet

/-- What a transaction creates: its outputs under its id, by their positions. -/
def createdAt (tx : Transaction) (outpoint : OutPoint) : Option TxOutput :=
  if outpoint.1 = tx.id then tx.outputs[outpoint.2.toNat]? else none

/-- The set without the inputs of a transaction, overridden by its outputs. -/
def expected (set : UtxoSet) (tx : Transaction) (outpoint : OutPoint) : Option TxOutput :=
  (createdAt tx outpoint).or
    (if ∃ input ∈ tx.inputs, input.outpoint = outpoint then none else set.utxos.lookup outpoint)

section Positions
variable {tx : Transaction}

/-- Positions that fit 32 bits are not cut to the same number. -/
theorem position_injective {first second : Nat} (left : first < 2 ^ 32) (right : second < 2 ^ 32)
    (same : UInt32.ofNat first = UInt32.ofNat second) : first = second := by
  have numbers := congrArg UInt32.toNat same
  rwa [UInt32.toNat_ofNat_of_lt' left, UInt32.toNat_ofNat_of_lt' right] at numbers

theorem mem_outputs_of (few : tx.outputs.length < 2 ^ 32) {outpoint : OutPoint} {output : TxOutput} :
    (outpoint, output) ∈ outputsOf tx ↔ createdAt tx outpoint = some output := by
  obtain ⟨id, position⟩ := outpoint
  rw [outputsOf, List.mem_map, createdAt]
  constructor
  · rintro ⟨⟨other, index⟩, member, same⟩
    cases same
    have here := List.mk_mem_zipIdx_iff_getElem?.mp member
    have inside := (List.getElem?_eq_some_iff.mp here).1
    rw [if_pos rfl, UInt32.toNat_ofNat_of_lt' (inside.trans few)]
    exact here
  · intro found
    split at found
    · rename_i same
      dsimp only at same found
      subst same
      exact ⟨(output, position.toNat), List.mk_mem_zipIdx_iff_getElem?.mpr found, by simp⟩
    · cases found

/-- The outpoints of fewer than 2^32 outputs are all different. -/
theorem outputs_of_nodup (few : tx.outputs.length < 2 ^ 32) : ((outputsOf tx).map Prod.fst).Nodup := by
  rw [outputsOf, List.map_map, List.Nodup, List.pairwise_map]
  have positions : tx.outputs.zipIdx.Pairwise fun first second => first.2 ≠ second.2 := by
    have distinct : (tx.outputs.zipIdx.map Prod.snd).Nodup := by
      rw [List.zipIdx_map_snd]
      exact List.nodup_range'
    exact List.pairwise_map.mp distinct
  refine positions.imp_of_mem fun {first second} left right different same => different ?_
  have bound : ∀ item ∈ tx.outputs.zipIdx, item.2 < 2 ^ 32 := fun item member =>
    (List.getElem?_eq_some_iff.mp (List.mk_mem_zipIdx_iff_getElem?.mp member)).1.trans few
  exact position_injective (bound first left) (bound second right) (Prod.mk.inj same).2

/-- The last output that is written at an outpoint is the only one. -/
theorem made_eq_created (few : tx.outputs.length < 2 ^ 32) (outpoint : OutPoint) :
    made tx outpoint = createdAt tx outpoint := by
  cases found : made tx outpoint with
  | none =>
    have unnamed := (made_eq_none_iff tx outpoint).mp found
    symm
    rw [Option.eq_none_iff_forall_ne_some]
    intro output created
    exact unnamed (List.mem_map.mpr ⟨_, (mem_outputs_of few).mpr created, rfl⟩)
  | some output =>
    have written := Edit.mem_of_last (Option.join_eq_some_iff.mp found)
    rw [creations, List.mem_map] at written
    obtain ⟨entry, member, same⟩ := written
    cases same
    exact ((mem_outputs_of few).mp member).symm

/-- A created outpoint is fresh when it is free once the inputs are gone. -/
theorem fresh_of_free (few : tx.outputs.length < 2 ^ 32) {set : UtxoSet}
    (free : ∀ outpoint, createdAt tx outpoint ≠ none →
      outpoint ∈ tx.inputs.map TxInput.outpoint ∨ set.utxos.lookup outpoint = none) : set.Fresh tx := by
  refine ⟨outputs_of_nodup few, fun entry member => ?_⟩
  have created : createdAt tx entry.1 = some entry.2 := (mem_outputs_of few).mp member
  rw [lookup_without]
  rcases free entry.1 (by simp [created]) with spent | empty
  · rw [if_pos spent]
  · rw [empty, ite_self]

end Positions

section Exactness
variable [Blake3] [SchnorrScheme]

/-- `apply_tx` is exact. It succeeds when `validate_tx` does, its error is the one of `validate_tx` and leaves the set
alone, and the loop over the inputs never finds one gone. After success the set is the old one without the inputs,
overridden by the outputs; and a transaction that spends, with outpoints that are free once its inputs are gone, takes
its fee out of the total, with sums that fit 64 bits. -/
theorem apply_tx_exact (set : UtxoSet) (tx : Transaction) (few : tx.outputs.length < 2 ^ 32) :
    ((∃ changes, (set.applyTx tx).1 = .ok changes) ↔ ∃ fee, set.validateTx tx = .ok fee) ∧
    (∀ error, (set.applyTx tx).1 = .error error → set.validateTx tx = .error error ∧ (set.applyTx tx).2 = set) ∧
    ∀ fee, set.validateTx tx = .ok fee →
      (∃ spent left, set.takeInputs [] tx.inputs = (.ok spent, left)) ∧
      (∀ outpoint, (set.applyTx tx).2.utxos.lookup outpoint = expected set tx outpoint) ∧
      (tx.inputs ≠ [] →
        (∀ outpoint, createdAt tx outpoint ≠ none →
          outpoint ∈ tx.inputs.map TxInput.outpoint ∨ set.utxos.lookup outpoint = none) →
        set.spentValue tx < 2 ^ 64 ∧ outputValue tx ≤ set.spentValue tx ∧
          fee.toNat = set.spentValue tx - outputValue tx ∧
          (set.applyTx tx).2.totalValue + fee.toNat = set.totalValue) := by
  refine ⟨?_, ?_, fun fee accepted => ⟨?_, fun outpoint => ?_, fun spends free => ?_⟩⟩
  · cases checked : set.validateTx tx with
    | error error => simp [apply_tx_error checked]
    | ok fee => simp [apply_tx_ok checked]
  · intro error failed
    cases checked : set.validateTx tx with
    | error wrong =>
      rw [apply_tx_error checked] at failed ⊢
      cases failed
      exact ⟨rfl, rfl⟩
    | ok fee =>
      rw [apply_tx_ok checked] at failed
      cases failed
  · obtain ⟨distinct, found⟩ := validated_inputs accepted
    exact ⟨_, _, take_inputs_ok distinct found⟩
  · rw [apply_tx_ok accepted, lookup_after, made_eq_created few, expected]
    simp only [List.mem_map]
  · have spending : tx.isCoinbase = false := by simpa [Transaction.isCoinbase] using spends
    obtain ⟨signed, covered⟩ := (validate_tx_ok_iff spends).mp ⟨fee, accepted⟩
    have paid := validate_tx_fee spending accepted
    have moved := total_after signed.distinct (fresh_of_free few free)
    have enough : outputValue tx ≤ set.spentValue tx := covered.enough
    refine ⟨covered.fits, enough, by omega, ?_⟩
    rw [apply_tx_ok accepted]
    dsimp only
    omega

end Exactness

section Spending
open scoped Klomang.Sample

/-- A set that holds five. -/
def five : UtxoSet := ⟨Finmap.insert (.replicate 7, 0) ⟨5, .replicate 9⟩ ∅⟩

/-- A transaction that spends the five, before it is signed. -/
def unsigned (value : UInt64) : Transaction :=
  .new [⟨.replicate 7, 0, [], List.replicate 32 5, .all⟩] [⟨value, .replicate 9⟩]

/-- The same transaction with a signature of the key 5. -/
def payment (value : UInt64) : Transaction :=
  { unsigned value with
    inputs := [⟨.replicate 7, 0, List.replicate 32 5 ++
      (Schnorr.taggedHash Schnorr.tagTxSign (Schnorr.serializeTxForSighash (unsigned value) 0 .all)).bytes,
      List.replicate 32 5, .all⟩] }

/-- Whoever pays three out of five leaves a fee of two. -/
theorem payment_exact :
    five.validateTx (payment 3) = .ok 2 ∧ (five.applyTx (payment 3)).2.totalValue + 2 = five.totalValue := by
  have accepted : five.validateTx (payment 3) = .ok 2 := by decide +kernel
  refine ⟨accepted, ?_⟩
  obtain ⟨_, _, exact⟩ := apply_tx_exact five (payment 3) (by decide)
  obtain ⟨_, _, spending⟩ := exact 2 accepted
  have free : ∀ outpoint, createdAt (payment 3) outpoint ≠ none →
      outpoint ∈ (payment 3).inputs.map TxInput.outpoint ∨ five.utxos.lookup outpoint = none := by
    intro outpoint _
    by_cases there : outpoint = (.replicate 7, 0)
    · exact .inl (List.mem_singleton.mpr there)
    · exact .inr (by simp [five, there])
  obtain ⟨_, _, _, total⟩ := spending (List.cons_ne_nil _ _) free
  rwa [show (2 : UInt64).toNat = 2 from rfl] at total

end Spending
end Klomang.UtxoSet
