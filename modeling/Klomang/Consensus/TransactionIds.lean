import Klomang.Consensus.Validation
import Klomang.Crypto.Sighash

/-! What the id of a transaction binds. The contract fields are not hashed at all, and the fields that are hashed
are run together without counts or lengths, so the id fixes them only among transactions of one shape. -/
namespace Klomang

section Preimage

/-- An input without its signature. -/
def TxInput.unsigned (input : TxInput) : Hash × UInt32 × List UInt8 × SigHashType :=
  (input.prevTx, input.index, input.pubkey, input.sighashType)

namespace Transaction

/-- What `calculate_id` hashes. -/
def idPreimage (tx : Transaction) : List UInt8 :=
  Bytes.beBytes 4 tx.chainId.toNat ++ tx.inputs.flatMap TxInput.idBytes ++
    tx.outputs.flatMap TxOutput.serialize ++ Bytes.beBytes 4 tx.locktime.toNat

/-- Two transactions have the same hashed fields. -/
structure SameHashed (tx other : Transaction) : Prop where
  chainId : tx.chainId = other.chainId
  locktime : tx.locktime = other.locktime
  inputs : tx.inputs.map TxInput.unsigned = other.inputs.map TxInput.unsigned
  outputs : tx.outputs = other.outputs

/-- Two transactions agree on everything but their signatures and their ids. -/
structure SameBody (tx other : Transaction) : Prop extends SameHashed tx other where
  executionPayload : tx.executionPayload = other.executionPayload
  contractAddress : tx.contractAddress = other.contractAddress
  gasLimit : tx.gasLimit = other.gasLimit
  maxFeePerGas : tx.maxFeePerGas = other.maxFeePerGas

/-- As many inputs, with public keys of the same lengths. -/
def SameShape (tx other : Transaction) : Prop :=
  tx.inputs.map (·.pubkey.length) = other.inputs.map (·.pubkey.length)

/-- The same transaction with other contract fields. -/
def withContract (tx : Transaction) (executionPayload : List UInt8) (contractAddress : Option Bytes32)
    (gasLimit : UInt64) (maxFeePerGas : Nat) : Transaction :=
  { tx with executionPayload, contractAddress, gasLimit, maxFeePerGas }

theorem as_u8_injective : Function.Injective SigHashType.asU8 := by
  intro left right same
  cases left <;> cases right <;> first | rfl | cases same

theorem length_id_bytes (input : TxInput) : input.idBytes.length = 37 + input.pubkey.length := by
  simp only [TxInput.idBytes, List.length_append, Bytes32.length_bytes, Bytes.length_beBytes, List.length_cons,
    List.length_nil]
  omega

/-- One input is read back once the length of its key is known. -/
theorem id_bytes_injective {left right : TxInput} (width : left.pubkey.length = right.pubkey.length) :
    left.idBytes = right.idBytes ↔ left.unsigned = right.unsigned := by
  constructor
  · intro same
    obtain ⟨body, sighash⟩ := List.append_inj' same rfl
    obtain ⟨coin, pubkey⟩ := List.append_inj' body width
    obtain ⟨prevTx, index⟩ := List.append_inj coin (by simp)
    have kind := as_u8_injective (List.cons.inj sighash).1
    simp only [TxInput.unsigned, Bytes32.ext prevTx, Bytes.beBytes_u32_injective index, pubkey, kind]
  · intro same
    simp only [TxInput.unsigned, Prod.mk.injEq] at same
    obtain ⟨prevTx, index, pubkey, kind⟩ := same
    simp only [TxInput.idBytes, prevTx, index, pubkey, kind]

/-- The inputs are read back once the lengths of their keys are known, whatever follows them. -/
theorem inputs_id_bytes_injective {left right : List TxInput} {after following : List UInt8}
    (widths : left.map (·.pubkey.length) = right.map (·.pubkey.length)) :
    left.flatMap TxInput.idBytes ++ after = right.flatMap TxInput.idBytes ++ following ↔
      left.map TxInput.unsigned = right.map TxInput.unsigned ∧ after = following := by
  induction left generalizing right with
  | nil =>
    cases right with
    | nil => simp
    | cons => simp at widths
  | cons input rest ih =>
    cases right with
    | nil => simp at widths
    | cons other tail =>
      simp only [List.map_cons, List.cons.injEq] at widths
      obtain ⟨width, further⟩ := widths
      have lengths : input.idBytes.length = other.idBytes.length := by
        rw [length_id_bytes, length_id_bytes, width]
      simp only [List.flatMap_cons, List.map_cons, List.cons.injEq, List.append_assoc,
        List.append_eq_append_iff_of_size_eq_left lengths, id_bytes_injective width, ih further, and_assoc]

variable {tx other : Transaction}

/-- Among transactions of one shape the preimage fixes every hashed field. -/
theorem id_preimage_eq_iff (shape : tx.SameShape other) : tx.idPreimage = other.idPreimage ↔ tx.SameHashed other := by
  constructor
  · intro same
    obtain ⟨front, locktime⟩ := List.append_inj' same (by simp)
    simp only [List.append_assoc] at front
    obtain ⟨chainId, body⟩ := List.append_inj front (by simp)
    obtain ⟨inputs, outputs⟩ := (inputs_id_bytes_injective shape).mp body
    exact ⟨Bytes.beBytes_u32_injective chainId, Bytes.beBytes_u32_injective locktime, inputs,
      Schnorr.outputs_bytes_injective outputs⟩
  · rintro ⟨chainId, locktime, inputs, outputs⟩
    have body : tx.inputs.flatMap TxInput.idBytes ++ [] = other.inputs.flatMap TxInput.idBytes ++ [] :=
      (inputs_id_bytes_injective shape).mpr ⟨inputs, rfl⟩
    simp only [List.append_nil] at body
    simp only [idPreimage, chainId, locktime, outputs, body]

variable [Blake3]

theorem calculate_id_eq (tx : Transaction) : tx.calculateId = Hash.new tx.idPreimage := rfl

/-- The id of a transaction fixes its body. -/
def IdBinds (tx : Transaction) : Prop := ∀ other : Transaction, tx.calculateId = other.calculateId → tx.SameBody other

/-- No id fixes the body of its transaction: the payload, the contract address and the gas fields can be anything
under the same id and the same root of the block. Among transactions of one shape an id fixes all other fields. -/
theorem id_never_binds (tx : Transaction) :
    ¬ tx.IdBinds ∧
      (∀ (executionPayload : List UInt8) (contractAddress : Option Bytes32) (gasLimit : UInt64) (maxFeePerGas : Nat),
        let other := tx.withContract executionPayload contractAddress gasLimit maxFeePerGas
        other.calculateId = tx.calculateId ∧ (other.id = other.calculateId ↔ tx.id = tx.calculateId) ∧
          ∀ (ghostDag : GhostDag) (before after : List Transaction),
            ghostDag.computeTransactionMerkleRoot (before ++ other :: after) =
              ghostDag.computeTransactionMerkleRoot (before ++ tx :: after)) ∧
      ∀ other : Transaction, tx.SameShape other → Set.InjOn Hash.new {tx.idPreimage, other.idPreimage} →
        (tx.calculateId = other.calculateId ↔ tx.SameHashed other) := by
  refine ⟨fun binds => ?_, fun _ _ _ _ => ⟨rfl, Iff.rfl, fun ghostDag before after => ?_⟩,
    fun other shape injective => ?_⟩
  · have same := (binds (tx.withContract (0 :: tx.executionPayload) none 0 0) rfl).executionPayload
    simp [withContract] at same
  · simp [GhostDag.computeTransactionMerkleRoot, withContract]
  · rw [← id_preimage_eq_iff shape, calculate_id_eq, calculate_id_eq]
    exact injective.eq_iff (by simp) (by simp)

end Transaction
end Preimage

section Witness
open Klomang.Sample

/-- A call of a contract by one input. -/
def calling : Transaction :=
  { id := .ofNat 0, inputs := [⟨.ofNat 1, 0, [], [5, 6, 7], .all⟩], outputs := [], executionPayload := [1], gasLimit := 9 }

/-- The same call of other code. -/
def recoded : Transaction := calling.withContract [2] none 9 0

/-- No inputs, and one output with the bytes of the input. -/
def minting : Transaction :=
  { id := .ofNat 0, inputs := [], outputs := [⟨0, ⟨(TxInput.idBytes ⟨.ofNat 1, 0, [], [5, 6, 7], .all⟩).drop 8, rfl⟩⟩] }

theorem calling_bound : ¬ calling.IdBinds ∧ (calling.calculateId = recoded.calculateId ↔ calling.SameHashed recoded) :=
  have one : Set.InjOn Hash.new {calling.idPreimage, recoded.idPreimage} := by
    rw [show recoded.idPreimage = calling.idPreimage from rfl, Set.insert_eq_of_mem (Set.mem_singleton _)]
    exact Set.injOn_singleton _ _
  ⟨(Transaction.id_never_binds calling).1, (Transaction.id_never_binds calling).2.2 recoded rfl one⟩

/-- Other code has the id of the call, and so has a transaction that spends nothing and creates a coin. -/
theorem call_shares_its_id :
    (calling.idPreimage = recoded.idPreimage ∧ calling.executionPayload ≠ recoded.executionPayload) ∧
      (calling.idPreimage = minting.idPreimage ∧ calling.inputs ≠ [] ∧ minting.inputs = [] ∧
        calling.outputs ≠ minting.outputs) ∧
      recoded.calculateId = calling.calculateId ∧ minting.calculateId = calling.calculateId := by
  have confused : calling.idPreimage = minting.idPreimage := by decide
  refine ⟨⟨rfl, by decide⟩, ⟨confused, by decide, rfl, by decide⟩, rfl, ?_⟩
  rw [Transaction.calculate_id_eq, Transaction.calculate_id_eq, confused]

end Witness
end Klomang
