import Klomang.Crypto.Hash

/-! `core/state/transaction.rs`: transactions, their identifiers and the
serialized form of an output. -/
namespace Klomang

inductive SigHashType where
  | all
  | none
  | single
  deriving DecidableEq

/-- `SigHashType::as_u8`. -/
def SigHashType.asU8 : SigHashType → UInt8
  | .all => 0x01
  | .none => 0x02
  | .single => 0x03

structure TxInput where
  prevTx : Hash
  index : UInt32
  signature : List UInt8
  pubkey : List UInt8
  sighashType : SigHashType
  deriving DecidableEq

structure TxOutput where
  value : UInt64
  pubkeyHash : Hash
  deriving DecidableEq

structure Transaction where
  id : Hash
  inputs : List TxInput
  outputs : List TxOutput
  executionPayload : List UInt8 := []
  contractAddress : Option Bytes32 := none
  gasLimit : UInt64 := 0
  /-- A `u128`. -/
  maxFeePerGas : Nat := 0
  chainId : UInt32 := 1
  locktime : UInt32 := 0
  deriving DecidableEq

/-- `OutPoint`: a transaction id and an output position. -/
abbrev OutPoint := Hash × UInt32

/-- The derived `Debug` text of an outpoint. -/
def OutPoint.debug (outpoint : OutPoint) : String :=
  "(" ++ outpoint.1.debug ++ ", " ++ toString outpoint.2 ++ ")"

def TxInput.outpoint (input : TxInput) : OutPoint := (input.prevTx, input.index)

section Preimages

/-- The bytes of an input inside the preimage of a transaction id. -/
def TxInput.idBytes (input : TxInput) : List UInt8 :=
  input.prevTx.bytes ++ Bytes.beBytes 4 input.index.toNat ++ input.pubkey ++ [input.sighashType.asU8]

/-- `TxOutput::serialize`. -/
def TxOutput.serialize (output : TxOutput) : List UInt8 :=
  Bytes.beBytes 8 output.value.toNat ++ output.pubkeyHash.bytes

/-- `TxOutput::deserialize`. -/
def TxOutput.deserialize (bytes : List UInt8) : Except String TxOutput :=
  if width : bytes.length = 8 + 32 then
    .ok ⟨UInt64.ofNat (Bytes.ofBE (bytes.take 8)), ⟨bytes.drop 8, by simp [width]⟩⟩
  else .error "Invalid length for TxOutput"

@[simp] theorem length_serialize (output : TxOutput) : output.serialize.length = 40 := by
  simp [TxOutput.serialize]

/-- Reading back a serialized output gives the output. -/
theorem deserialize_serialize (output : TxOutput) :
    TxOutput.deserialize output.serialize = .ok output := by
  have head : output.serialize.take 8 = Bytes.beBytes 8 output.value.toNat :=
    List.take_left' (by simp)
  have tail : output.serialize.drop 8 = output.pubkeyHash.bytes := List.drop_left' (by simp)
  have value : UInt64.ofNat (Bytes.ofBE (output.serialize.take 8)) = output.value := by
    have fits : output.value.toNat < 256 ^ 8 := output.value.toNat_lt
    rw [head, Bytes.ofBE_beBytes, Nat.mod_eq_of_lt fits, UInt64.ofNat_toNat]
  rw [TxOutput.deserialize, dif_pos (length_serialize output), value]
  congr

theorem serialize_injective : Function.Injective TxOutput.serialize := by
  intro left right same
  have read := deserialize_serialize left
  rw [same, deserialize_serialize right] at read
  exact (Except.ok.inj read).symm

end Preimages

variable [Blake3]

namespace Transaction

/-- `Transaction::calculate_id`. -/
def calculateId (tx : Transaction) : Hash :=
  Hash.new (Bytes.beBytes 4 tx.chainId.toNat ++ tx.inputs.flatMap TxInput.idBytes ++
    tx.outputs.flatMap TxOutput.serialize ++ Bytes.beBytes 4 tx.locktime.toNat)

/-- `Transaction::new`. -/
def new (inputs : List TxInput) (outputs : List TxOutput) : Transaction :=
  let tx : Transaction := { id := Hash.new [], inputs, outputs }
  { tx with id := tx.calculateId }

/-- `Transaction::is_coinbase`. -/
def isCoinbase (tx : Transaction) : Bool := tx.inputs.isEmpty

/-- `Transaction::hash_with_index`. -/
def hashWithIndex (tx : Transaction) (index : UInt32) : Bytes32 :=
  Hash.new (tx.id.bytes ++ Bytes.beBytes 4 index.toNat)

/-- A transaction that neither carries a payload nor names a contract. -/
def Plain (tx : Transaction) : Prop := tx.executionPayload = [] ∧ tx.contractAddress = none

instance (tx : Transaction) : Decidable tx.Plain := by unfold Plain; infer_instance

end Transaction

/-- The tree key of an outpoint: the hash of the id and the big-endian position. -/
def OutPoint.key (outpoint : OutPoint) : Bytes32 :=
  Hash.new (outpoint.1.bytes ++ Bytes.beBytes 4 outpoint.2.toNat)

/-- Creating an output writes under the key its outpoint is looked up with. -/
theorem hash_with_index_is_key (tx : Transaction) (index : UInt32) :
    tx.hashWithIndex index = OutPoint.key (tx.id, index) := rfl

end Klomang
