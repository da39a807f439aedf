import Klomang.Crypto.Schnorr
import Klomang.Sample

/-! What a signature of type `All` binds. The signed input is serialized as its
public key alone, so the coin it spends is the one thing left out. -/
namespace Klomang.Schnorr

/-- Every input carries a public key of 32 bytes. -/
def ShortKeys (tx : Transaction) : Prop := ∀ input ∈ tx.inputs, input.pubkey.length = 32

instance (tx : Transaction) : Decidable (ShortKeys tx) := by unfold ShortKeys; infer_instance

/-- Two transactions spend the same coins, in order, to the same outputs. -/
structure SameSpend (tx other : Transaction) : Prop where
  chainId : tx.chainId = other.chainId
  locktime : tx.locktime = other.locktime
  coins : tx.inputs.map TxInput.outpoint = other.inputs.map TxInput.outpoint
  outputs : tx.outputs = other.outputs

/-- A signature of type `All` over an input fixes the whole spend. -/
def BindsSpend (tx : Transaction) (inputIndex : Nat) : Prop :=
  ∀ (other : Transaction) (otherIndex : Nat), ShortKeys other → otherIndex < other.inputs.length →
    serializeTxForSighash tx inputIndex .all = serializeTxForSighash other otherIndex .all →
    SameSpend tx other

section Encoding

theorem length_outpoint_bytes (input : TxInput) : (outpointBytes input).length = 36 := by
  simp [outpointBytes]

theorem length_output_bytes (output : TxOutput) : (outputBytes output).length = 40 := by
  simp [outputBytes]

theorem outpoint_bytes_injective {left right : TxInput} :
    outpointBytes left = outpointBytes right ↔ left.outpoint = right.outpoint := by
  constructor
  · intro same
    obtain ⟨prevTx, index⟩ := List.append_inj same (by simp)
    exact Prod.ext (Bytes32.ext prevTx) (Bytes.beBytes_u32_injective index)
  · intro same
    obtain ⟨prevTx, index⟩ := Prod.mk.inj same
    rw [outpointBytes, outpointBytes, prevTx, index]

theorem output_bytes_injective : Function.Injective outputBytes := serialize_injective

/-- Pieces of pairwise equal lengths are recovered from their concatenation. -/
private theorem flatten_inj {left right : List (List UInt8)}
    (lengths : left.map List.length = right.map List.length) (same : left.flatten = right.flatten) :
    left = right :=
  List.eq_iff_flatten_eq.mpr ⟨same, lengths⟩

theorem outputs_bytes_injective {left right : List TxOutput}
    (same : left.flatMap outputBytes = right.flatMap outputBytes) : left = right := by
  have count : left.length = right.length := by
    have lengths := congrArg List.length same
    rw [length_flatMap_uniform length_output_bytes, length_flatMap_uniform length_output_bytes] at lengths
    omega
  exact flatMap_uniform_injective length_output_bytes output_bytes_injective count same

end Encoding

section Bound
variable {tx other : Transaction} {inputIndex : Nat}

/-- What the serialization keeps of two inputs at one position. -/
def SameInput (inputIndex position : Nat) (left right : TxInput) : Prop :=
  if position = inputIndex then left.pubkey = right.pubkey else left.outpoint = right.outpoint

private theorem length_input_pieces (keys : ShortKeys tx) (inputIndex : Nat) :
    (tx.inputs.zipIdx.map fun (input, position) =>
        if position = inputIndex then input.pubkey else outpointBytes input).map List.length =
      (List.range tx.inputs.length).map fun position => if position = inputIndex then 32 else 36 := by
  refine List.ext_getElem (by simp) fun position within _ => ?_
  simp only [List.getElem_map, List.getElem_zipIdx, List.getElem_range, Nat.zero_add]
  split
  · exact keys _ (List.getElem_mem _)
  · exact length_outpoint_bytes _

/-- With as many inputs on both sides, the inputs' bytes give back every outpoint
but the signed one, and the key that signs. -/
theorem input_bytes_eq_iff (keys : ShortKeys tx) (otherKeys : ShortKeys other)
    (count : tx.inputs.length = other.inputs.length) :
    inputBytes tx inputIndex = inputBytes other inputIndex ↔
      ∀ position left right, tx.inputs[position]? = some left → other.inputs[position]? = some right →
        SameInput inputIndex position left right := by
  have widths := (length_input_pieces keys inputIndex).trans
    ((congrArg _ (congrArg _ count)).trans (length_input_pieces otherKeys inputIndex).symm)
  constructor
  · intro same position left right here there
    have pieces := congrArg (fun pieces => pieces[position]?) (flatten_inj widths same)
    simp only [List.getElem?_map, List.getElem?_zipIdx, here, there, Option.map_some, Nat.zero_add,
      Option.some.injEq] at pieces
    rw [SameInput]
    split at pieces
    · rename_i signed
      rwa [if_pos signed]
    · rename_i unsigned
      rw [if_neg unsigned]
      exact outpoint_bytes_injective.mp pieces
  · intro same
    refine congrArg List.flatten (List.ext_getElem (by simp [count]) fun position within alsoWithin => ?_)
    simp only [List.length_map, List.length_zipIdx] at within alsoWithin
    have input := same position _ _ (List.getElem?_eq_getElem within) (List.getElem?_eq_getElem alsoWithin)
    simp only [List.getElem_map, List.getElem_zipIdx, Nat.zero_add]
    rw [SameInput] at input
    split
    · rename_i signed
      rwa [if_pos signed] at input
    · rename_i unsigned
      rw [if_neg unsigned] at input
      exact outpoint_bytes_injective.mpr input

/-- Between transactions with as many inputs, a signature of type `All` binds the chain,
the locktime, the outputs, the signing key and every other coin, and nothing more. -/
theorem serialize_all_eq_iff (keys : ShortKeys tx) (otherKeys : ShortKeys other)
    (count : tx.inputs.length = other.inputs.length) :
    serializeTxForSighash tx inputIndex .all = serializeTxForSighash other inputIndex .all ↔
      tx.chainId = other.chainId ∧ tx.locktime = other.locktime ∧ tx.outputs = other.outputs ∧
        ∀ position left right, tx.inputs[position]? = some left → other.inputs[position]? = some right →
          SameInput inputIndex position left right := by
  rw [← input_bytes_eq_iff keys otherKeys count]
  have widths : (inputBytes tx inputIndex).length = (inputBytes other inputIndex).length := by
    rw [inputBytes, inputBytes, List.length_flatten, List.length_flatten, length_input_pieces keys,
      length_input_pieces otherKeys, count]
  constructor
  · intro same
    obtain ⟨front, locktime⟩ := List.append_inj' same (by simp)
    obtain ⟨chainId, body⟩ := List.append_inj front (by simp)
    obtain ⟨inputs, outputs⟩ := List.append_inj body widths
    exact ⟨Bytes.beBytes_u32_injective chainId, Bytes.beBytes_u32_injective locktime,
      outputs_bytes_injective outputs, inputs⟩
  · rintro ⟨chainId, locktime, outputs, inputs⟩
    simp only [serializeTxForSighash, chainId, locktime, outputs, inputs]

end Bound

section Moving
variable [Blake3]

/-- The same transaction with one input pointed at another coin, under its new id. -/
def redirect (tx : Transaction) (inputIndex : Nat) (coin : OutPoint) : Transaction :=
  let moved := { tx with
    inputs := tx.inputs.modify inputIndex fun input => { input with prevTx := coin.1, index := coin.2 } }
  { moved with id := moved.calculateId }

variable {tx : Transaction} {inputIndex : Nat}

private theorem redirect_inputs (coin : OutPoint) (position : Nat) :
    (redirect tx inputIndex coin).inputs[position]? = (tx.inputs[position]?).map fun input =>
      if inputIndex = position then { input with prevTx := coin.1, index := coin.2 } else input := by
  rw [redirect, List.getElem?_modify]
  split <;> rename_i same <;> simp

theorem redirect_keys (keys : ShortKeys tx) (coin : OutPoint) : ShortKeys (redirect tx inputIndex coin) := by
  intro input member
  obtain ⟨position, here⟩ := List.mem_iff_getElem?.mp member
  rw [redirect_inputs, Option.map_eq_some_iff] at here
  obtain ⟨original, found, rfl⟩ := here
  have short := keys original (List.mem_of_getElem? found)
  split <;> exact short

theorem redirect_count (coin : OutPoint) : (redirect tx inputIndex coin).inputs.length = tx.inputs.length := by
  simp [redirect]

/-- The signature of an input is valid for every other coin. -/
theorem redirect_serialized (keys : ShortKeys tx) (coin : OutPoint) :
    serializeTxForSighash tx inputIndex .all =
      serializeTxForSighash (redirect tx inputIndex coin) inputIndex .all := by
  rw [serialize_all_eq_iff keys (redirect_keys keys coin) (redirect_count coin).symm]
  refine ⟨rfl, rfl, rfl, fun position left right here there => ?_⟩
  rw [redirect_inputs, here, Option.map_some, Option.some.injEq] at there
  subst there
  rw [SameInput]
  split
  · split <;> rfl
  · rename_i unsigned
    rw [if_neg (Ne.symm unsigned)]

/-- No signature of type `All` fixes the spend: the signed input can be pointed elsewhere. -/
theorem signature_never_binds (keys : ShortKeys tx) (signed : inputIndex < tx.inputs.length) :
    ¬ BindsSpend tx inputIndex := by
  intro binds
  let input := tx.inputs[inputIndex]
  let coin : OutPoint := (input.prevTx, input.index + 1)
  have spend := binds (redirect tx inputIndex coin) inputIndex (redirect_keys keys coin)
    (by rwa [redirect_count]) (redirect_serialized keys coin)
  have same := congrArg (fun coins => coins[inputIndex]?) spend.coins
  simp only [List.getElem?_map, redirect_inputs, List.getElem?_eq_getElem signed, Option.map_some,
    if_pos, Option.some.injEq] at same
  have index : input.index = input.index + 1 := congrArg Prod.snd same
  simp at index

end Moving

section Sample
open Klomang.Sample

/-- One input, one output. -/
def payment : Transaction :=
  Transaction.new [⟨.replicate 7, 0, [], List.replicate 32 5, .all⟩] [⟨1, .replicate 9⟩]

theorem payment_unbound : ¬ BindsSpend payment 0 := signature_never_binds (by decide) (by decide)

/-- One signature serves two coins. -/
theorem payment_redirected :
    ShortKeys payment ∧ ShortKeys (redirect payment 0 (.replicate 8, 3)) ∧
      serializeTxForSighash payment 0 .all =
        serializeTxForSighash (redirect payment 0 (.replicate 8, 3)) 0 .all ∧
      ¬ SameSpend payment (redirect payment 0 (.replicate 8, 3)) := by
  refine ⟨by decide +kernel, by decide +kernel, by decide +kernel, fun same => ?_⟩
  have coins := same.coins
  revert coins
  decide +kernel

end Sample
end Klomang.Schnorr
