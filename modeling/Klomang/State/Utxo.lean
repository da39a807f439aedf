import Klomang.Consensus.EconomicConstants
import Klomang.Crypto.Schnorr
import Klomang.Lib.FiniteMap

/-! `core/state/utxo.rs`: the set of unspent outputs and the validation of one
transaction against it. -/
namespace Klomang

structure UtxoSet where
  utxos : FiniteMap OutPoint TxOutput

/-- `u64::checked_add`. -/
def checkedAdd (left right : UInt64) : Option UInt64 :=
  if left.toNat + right.toNat < 2 ^ 64 then some (left + right) else none

theorem checked_add_some {left right sum : UInt64} :
    checkedAdd left right = some sum ↔ left.toNat + right.toNat = sum.toNat := by
  unfold checkedAdd
  split
  · rename_i fits
    have exact : (left + right).toNat = left.toNat + right.toNat := by
      rw [UInt64.toNat_add, Nat.mod_eq_of_lt fits]
    rw [Option.some.injEq, ← UInt64.toNat_inj, exact]
  · rename_i overflow
    constructor
    · exact fun absurdity => nomatch absurdity
    · intro same
      exact absurd (same ▸ sum.toNat_lt) overflow

theorem checked_add_none {left right : UInt64} :
    checkedAdd left right = none ↔ 2 ^ 64 ≤ left.toNat + right.toNat := by
  unfold checkedAdd
  split <;> simp_all

namespace UtxoSet

/-- `UtxoSet::new`. -/
def new : UtxoSet := ⟨∅⟩

/-- The value held at an outpoint, zero when nothing is. -/
def valueAt (set : UtxoSet) (outpoint : OutPoint) : Nat :=
  ((set.utxos.lookup outpoint).map fun output => output.value.toNat).getD 0

theorem value_at_weight (set : UtxoSet) (outpoint : OutPoint) :
    set.valueAt outpoint = FiniteMap.weight (fun output => output.value.toNat) set.utxos outpoint := by
  rw [valueAt, FiniteMap.weight]
  cases set.utxos.lookup outpoint <;> rfl

/-- The values of all unspent outputs, added up without overflow. -/
def totalValue (set : UtxoSet) : Nat := FiniteMap.total (fun output => output.value.toNat) set.utxos

/-- The values of the outputs to one public key hash, added up without overflow. -/
def heldBy (set : UtxoSet) (pubkeyHash : Hash) : Nat :=
  FiniteMap.total (fun output => if output.pubkeyHash = pubkeyHash then output.value.toNat else 0) set.utxos

/-- `get_balance`, wrapping as the `u64` sum of a release build does. -/
def getBalance (set : UtxoSet) (pubkeyHash : Hash) : UInt64 := UInt64.ofNat (set.heldBy pubkeyHash)

/-- The first outpoint of a list that occurred before. -/
def firstDuplicate : Finset OutPoint → List OutPoint → Option OutPoint
  | _, [] => none
  | spent, outpoint :: rest =>
    if outpoint ∈ spent then some outpoint else firstDuplicate (insert outpoint spent) rest

theorem first_duplicate_none {spent : Finset OutPoint} {outpoints : List OutPoint} :
    firstDuplicate spent outpoints = none ↔ outpoints.Nodup ∧ ∀ outpoint ∈ outpoints, outpoint ∉ spent := by
  induction outpoints generalizing spent with
  | nil => simp [firstDuplicate]
  | cons outpoint rest ih =>
    rw [firstDuplicate]
    by_cases before : outpoint ∈ spent
    · simp [before]
    · rw [if_neg before, ih, List.nodup_cons, List.forall_mem_cons]
      constructor
      · rintro ⟨distinct, apart⟩
        refine ⟨⟨fun again => ?_, distinct⟩, before, fun other member => ?_⟩
        · exact apart outpoint again (Finset.mem_insert_self _ _)
        · exact fun there => apart other member (Finset.mem_insert_of_mem there)
      · rintro ⟨⟨once, distinct⟩, _, apart⟩
        refine ⟨distinct, fun other member => ?_⟩
        rw [Finset.mem_insert, not_or]
        exact ⟨fun same => once (same ▸ member), apart other member⟩

/-- The output values added up until they overflow. -/
def totalOutput : UInt64 → List TxOutput → Except CoreError UInt64
  | total, [] => .ok total
  | total, output :: rest =>
    match checkedAdd total output.value with
    | some total => totalOutput total rest
    | none => .error (.transactionError "Output overflow")

theorem total_output_ok {total sum : UInt64} {outputs : List TxOutput} :
    totalOutput total outputs = .ok sum ↔
      total.toNat + (outputs.map fun output => output.value.toNat).sum = sum.toNat := by
  induction outputs generalizing total with
  | nil => simp [totalOutput, UInt64.toNat_inj]
  | cons output rest ih =>
    rw [totalOutput, List.map_cons, List.sum_cons]
    split
    · rename_i next added
      rw [ih, ← checked_add_some.mp added, Nat.add_assoc]
    · rename_i overflow
      have large := checked_add_none.mp overflow
      have bound := sum.toNat_lt
      simp only [reduceCtorEq, false_iff]
      omega

variable [Blake3] [SchnorrScheme]

/-- The checks on the key and the signature of one input. -/
def verifyInput (tx : Transaction) (inputIdx : Nat) (input : TxInput) : Except CoreError Unit :=
  if input.pubkey.length ≠ 33 ∧ input.pubkey.length ≠ 32 then .error .invalidPublicKey
  else if input.signature.length ≠ 64 then .error .invalidSignature
  else
    match SchnorrScheme.verifyingKeyFromBytes input.pubkey with
    | .error _ => .error .invalidPublicKey
    | .ok pubkey =>
      match SchnorrScheme.signatureTryFrom input.signature with
      | .error _ => .error .invalidSignature
      | .ok signature =>
        match Schnorr.computeSighash tx inputIdx input.sighashType with
        | .error _ => .error .signatureVerificationFailed
        | .ok msg =>
          if SchnorrScheme.verify pubkey msg.bytes signature then .ok ()
          else .error .signatureVerificationFailed

/-- The inputs from a position on: each is found, added up and verified. -/
def totalInput (set : UtxoSet) (tx : Transaction) : UInt64 → List (TxInput × Nat) → Except CoreError UInt64
  | total, [] => .ok total
  | total, (input, inputIdx) :: rest =>
    match set.utxos.lookup input.outpoint with
    | none => .error (.transactionError "Input UTXO not found")
    | some output =>
      match checkedAdd total output.value with
      | none => .error (.transactionError "Input overflow")
      | some total =>
        match verifyInput tx inputIdx input with
        | .error error => .error error
        | .ok () => totalInput set tx total rest

/-- `validate_tx`: the fee of an acceptable transaction. -/
def validateTx (set : UtxoSet) (tx : Transaction) : Except CoreError UInt64 :=
  let burnAddressHash := Hash.new EconomicConstants.burnAddress.bytes
  if tx.outputs.any fun output => output.pubkeyHash = burnAddressHash then
    .error (.transactionError "Output to zero address (burn) is prohibited by economic policy")
  else if tx.isCoinbase then .ok 0
  else
    match firstDuplicate ∅ (tx.inputs.map TxInput.outpoint) with
    | some outpoint =>
      .error (.transactionError
        ("Duplicate input in transaction " ++ toString tx.id ++ ": " ++ outpoint.debug))
    | none =>
      match totalOutput 0 tx.outputs with
      | .error error => .error error
      | .ok totalOutput =>
        match totalInput set tx 0 tx.inputs.zipIdx with
        | .error error => .error error
        | .ok totalInput =>
          if totalInput < totalOutput then .error (.transactionError "Insufficient input value")
          else .ok (totalInput - totalOutput)

section Acceptance
variable {set : UtxoSet} {tx : Transaction}

theorem total_input_ok {total sum : UInt64} {inputs : List (TxInput × Nat)} :
    totalInput set tx total inputs = .ok sum ↔
      (∀ item ∈ inputs, (set.utxos.lookup item.1.outpoint).isSome = true ∧
        verifyInput tx item.2 item.1 = .ok ()) ∧
      total.toNat + (inputs.map fun item => set.valueAt item.1.outpoint).sum = sum.toNat := by
  induction inputs generalizing total with
  | nil => simp [totalInput, UInt64.toNat_inj]
  | cons item rest ih =>
    obtain ⟨input, inputIdx⟩ := item
    rw [totalInput, List.map_cons, List.sum_cons, List.forall_mem_cons]
    dsimp only
    cases found : set.utxos.lookup input.outpoint with
    | none => simp
    | some output =>
      have value : set.valueAt input.outpoint = output.value.toNat := by simp [valueAt, found]
      rw [value]
      dsimp only
      cases added : checkedAdd total output.value with
      | none =>
        have large := checked_add_none.mp added
        have bound := sum.toNat_lt
        simp only [reduceCtorEq, false_iff, not_and]
        intro _
        omega
      | some next =>
        dsimp only
        rw [← Nat.add_assoc, checked_add_some.mp added]
        cases verified : verifyInput tx inputIdx input with
        | error error => simp
        | ok _ =>
          dsimp only
          rw [ih]
          simp

/-- The checks of `validate_tx` that do not read the set of unspent outputs. -/
structure WellSigned (tx : Transaction) : Prop where
  noBurn : ∀ output ∈ tx.outputs, output.pubkeyHash ≠ Hash.new EconomicConstants.burnAddress.bytes
  distinct : (tx.inputs.map TxInput.outpoint).Nodup
  fits : (tx.outputs.map fun output => output.value.toNat).sum < 2 ^ 64
  verified : ∀ item ∈ tx.inputs.zipIdx, verifyInput tx item.2 item.1 = .ok ()

/-- What `validate_tx` reads in the set: every input is there, and together they cover the outputs. -/
structure Covered (set : UtxoSet) (tx : Transaction) : Prop where
  found : ∀ input ∈ tx.inputs, (set.utxos.lookup input.outpoint).isSome = true
  fits : (tx.inputs.map fun input => set.valueAt input.outpoint).sum < 2 ^ 64
  enough : (tx.outputs.map fun output => output.value.toNat).sum ≤
    (tx.inputs.map fun input => set.valueAt input.outpoint).sum

omit [Blake3] [SchnorrScheme] in
/-- The values of the inputs do not depend on their positions. -/
theorem values_with_positions (set : UtxoSet) (tx : Transaction) :
    (tx.inputs.zipIdx.map fun item => set.valueAt item.1.outpoint) =
      tx.inputs.map fun input => set.valueAt input.outpoint := by
  conv_rhs => rw [← List.zipIdx_map_fst 0 tx.inputs, List.map_map]
  rfl

/-- `validate_tx` accepts a spending transaction exactly when it is well signed and covered. -/
theorem validate_tx_ok_iff (spends : tx.inputs ≠ []) :
    (∃ fee, validateTx set tx = .ok fee) ↔ WellSigned tx ∧ Covered set tx := by
  have notCoinbase : tx.isCoinbase = false := by simpa [Transaction.isCoinbase] using spends
  have values := values_with_positions set tx
  unfold validateTx
  dsimp only
  split
  · rename_i burned
    simp only [reduceCtorEq, exists_false, false_iff, not_and]
    intro signed
    obtain ⟨output, member, same⟩ := List.any_eq_true.mp burned
    exact absurd (of_decide_eq_true same) (signed.noBurn output member)
  rename_i safe
  have noBurn : ∀ output ∈ tx.outputs, output.pubkeyHash ≠ Hash.new EconomicConstants.burnAddress.bytes :=
    fun output member same => safe (List.any_eq_true.mpr ⟨output, member, decide_eq_true same⟩)
  rw [notCoinbase, if_neg Bool.false_ne_true]
  cases duplicate : firstDuplicate ∅ (tx.inputs.map TxInput.outpoint) with
  | some outpoint =>
    simp only [reduceCtorEq, exists_false, false_iff, not_and]
    intro signed
    have none := first_duplicate_none.mpr ⟨signed.distinct, fun outpoint _ => Finset.notMem_empty outpoint⟩
    rw [duplicate] at none
    cases none
  | none =>
    have distinct := (first_duplicate_none.mp duplicate).1
    cases outputs : totalOutput 0 tx.outputs with
    | error error =>
      simp only [reduceCtorEq, exists_false, false_iff, not_and]
      intro signed
      have added : totalOutput 0 tx.outputs = .ok (UInt64.ofNat (tx.outputs.map fun output => output.value.toNat).sum) := by
        rw [total_output_ok, UInt64.toNat_ofNat_of_lt' signed.fits]
        simp
      rw [outputs] at added
      cases added
    | ok outputSum =>
      have outputTotal := total_output_ok.mp outputs
      rw [UInt64.toNat_zero, Nat.zero_add] at outputTotal
      cases inputs : totalInput set tx 0 tx.inputs.zipIdx with
      | error error =>
        simp only [reduceCtorEq, exists_false, false_iff, not_and]
        intro signed covered
        have added : totalInput set tx 0 tx.inputs.zipIdx =
            .ok (UInt64.ofNat (tx.inputs.map fun input => set.valueAt input.outpoint).sum) := by
          rw [total_input_ok, values, UInt64.toNat_ofNat_of_lt' covered.fits]
          refine ⟨fun item member => ⟨covered.found item.1 ?_, signed.verified item member⟩, by simp⟩
          exact List.fst_mem_of_mem_zipIdx member
        rw [inputs] at added
        cases added
      | ok inputSum =>
        obtain ⟨checked, inputTotal⟩ := total_input_ok.mp inputs
        rw [UInt64.toNat_zero, Nat.zero_add, values] at inputTotal
        have signed : WellSigned tx :=
          ⟨noBurn, distinct, by rw [outputTotal]; exact outputSum.toNat_lt, fun item member => (checked item member).2⟩
        have found : ∀ input ∈ tx.inputs, (set.utxos.lookup input.outpoint).isSome = true := by
          intro input member
          obtain ⟨position, here⟩ := List.mem_iff_getElem?.mp member
          have listed : (input, position) ∈ tx.inputs.zipIdx := List.mk_mem_zipIdx_iff_getElem?.mpr here
          exact (checked _ listed).1
        dsimp only
        split
        · rename_i short
          simp only [reduceCtorEq, exists_false, false_iff, not_and]
          intro _ covered
          have enough := covered.enough
          rw [outputTotal, inputTotal] at enough
          exact absurd (UInt64.lt_iff_toNat_lt.mp short) (Nat.not_lt.mpr enough)
        · rename_i enough
          rw [UInt64.lt_iff_toNat_lt, Nat.not_lt] at enough
          refine iff_of_true ⟨_, rfl⟩ ⟨signed, found, by rw [inputTotal]; exact inputSum.toNat_lt, ?_⟩
          rw [outputTotal, inputTotal]
          exact enough

end Acceptance
end UtxoSet
end Klomang
