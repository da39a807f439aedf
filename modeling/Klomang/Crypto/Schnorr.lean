import Klomang.Errors
import Klomang.Lib.Chunks
import Klomang.State.Transaction

/-! `core/crypto/schnorr.rs`: signature hashes and batch verification. The
`k256` crate is a parameter, as is the order in which worker threads deliver
their results through a channel. -/
namespace Klomang

/-- The `k256::schnorr` types and operations the source calls, with the texts
of their errors. -/
class SchnorrScheme where
  VerifyingKey : Type
  Signature : Type
  verifyingKeyFromBytes : List UInt8 → Except String VerifyingKey
  signatureTryFrom : List UInt8 → Except String Signature
  verify : VerifyingKey → List UInt8 → Signature → Bool

/-- The order in which a channel hands over what several senders sent. -/
class Channel where
  deliver : List Bool → List Bool
  delivers : ∀ sent, (deliver sent).Perm sent

namespace Schnorr

/-- `TAG_TX_SIGN`. -/
def tagTxSign : String := "KLOMANG_TX_V1"

/-- `tagged_hash`. -/
def taggedHash [Blake3] (tag : String) (data : List UInt8) : Bytes32 :=
  let tagHash := Hash.new tag.toUTF8.toList
  Hash.new (tagHash.bytes ++ tagHash.bytes ++ data)

/-- An unsigned input's bytes: its outpoint. -/
def outpointBytes (input : TxInput) : List UInt8 :=
  input.prevTx.bytes ++ Bytes.beBytes 4 input.index.toNat

/-- An output's bytes. -/
def outputBytes (output : TxOutput) : List UInt8 :=
  Bytes.beBytes 8 output.value.toNat ++ output.pubkeyHash.bytes

/-- The inputs' bytes: the signed input gives its public key, the others their
outpoints. -/
def inputBytes (tx : Transaction) (inputIndex : Nat) : List UInt8 :=
  (tx.inputs.zipIdx.map fun (input, position) =>
    if position = inputIndex then input.pubkey else outpointBytes input).flatten

/-- `serialize_tx_for_sighash`. -/
def serializeTxForSighash (tx : Transaction) (inputIndex : Nat) (sighash : SigHashType) : List UInt8 :=
  let body := match sighash with
    | .all => inputBytes tx inputIndex ++ tx.outputs.flatMap outputBytes
    | .none => inputBytes tx inputIndex
    | .single => inputBytes tx inputIndex ++
        match tx.outputs[inputIndex]? with
        | some output => outputBytes output
        | none => []
  Bytes.beBytes 4 tx.chainId.toNat ++ body ++ Bytes.beBytes 4 tx.locktime.toNat

/-- `compute_sighash`. -/
def computeSighash [Blake3] (tx : Transaction) (inputIndex : Nat) (sighash : SigHashType) :
    Except CoreError Bytes32 :=
  .ok (taggedHash tagTxSign (serializeTxForSighash tx inputIndex sighash))

section Batches

/-- The received results up to the first failure. -/
def collectResults : List Bool → Bool
  | [] => true
  | result :: rest => if result then collectResults rest else false

theorem collect_results_iff (results : List Bool) :
    collectResults results = true ↔ ∀ result ∈ results, result = true := by
  induction results with
  | nil => simp [collectResults]
  | cons result rest ih => cases result <;> simp [collectResults, ih]

variable [SchnorrScheme]

/-- What one signature check needs: key, message and signature. -/
abbrev SignatureItem := SchnorrScheme.VerifyingKey × Bytes32 × SchnorrScheme.Signature

/-- One item verifies. -/
def itemVerifies (item : SignatureItem) : Bool :=
  SchnorrScheme.verify item.1 item.2.1.bytes item.2.2

/-- The items in order up to the first that fails. -/
def verifyChunk : List SignatureItem → Bool
  | [] => true
  | item :: rest => if itemVerifies item then verifyChunk rest else false

/-- `batch_verify`. -/
def batchVerify [Channel] (items : List SignatureItem) : Except CoreError Bool :=
  if items.isEmpty then .ok true
  else
    let chunks := chunks 10 items
    if chunks.length = 1 then .ok (verifyChunk items)
    else .ok (collectResults (Channel.deliver (chunks.map verifyChunk)))

theorem verify_chunk_iff (items : List SignatureItem) :
    verifyChunk items = true ↔ ∀ item ∈ items, itemVerifies item = true := by
  induction items with
  | nil => simp [verifyChunk]
  | cons item rest ih =>
    simp only [verifyChunk, List.forall_mem_cons]
    split
    · rename_i verified
      simp [verified, ih]
    · rename_i failed
      simp [failed]

/-- Whatever the order in which the workers answer, a batch verifies when every item does. -/
theorem batch_verify_iff [Channel] (items : List SignatureItem) :
    batchVerify items = .ok true ↔ ∀ item ∈ items, itemVerifies item = true := by
  unfold batchVerify
  split
  · rename_i empty
    simp [List.isEmpty_iff.mp empty]
  · dsimp only
    split
    · rw [Except.ok.injEq, verify_chunk_iff]
    · rw [Except.ok.injEq, collect_results_iff]
      conv_rhs => rw [← flatten_chunks (by decide : 0 < 10) items]
      simp only [(Channel.delivers _).mem_iff, List.mem_map, forall_exists_index, and_imp,
        forall_apply_eq_imp_iff₂, verify_chunk_iff, List.mem_flatten]
      exact ⟨fun all item chunk listed member => all chunk listed item member,
        fun all chunk listed item member => all item chunk listed member⟩

/-- A batch is verified or not; it never fails. -/
theorem batch_verify_ok [Channel] (items : List SignatureItem) : ∃ valid, batchVerify items = .ok valid := by
  unfold batchVerify
  split
  · exact ⟨true, rfl⟩
  · dsimp only
    split
    · exact ⟨_, rfl⟩
    · exact ⟨_, rfl⟩

/-- Verifying a batch is verifying its items one by one, whatever the order in which the workers answer: no item is
skipped between two chunks, and no order of the answers hides a failure. -/
theorem batch_verify_one_by_one [Channel] (items : List SignatureItem) :
    batchVerify items = .ok (items.all itemVerifies) := by
  obtain ⟨valid, verified⟩ := batch_verify_ok items
  have accepts : valid = true ↔ ∀ item ∈ items, itemVerifies item = true := by
    rw [← batch_verify_iff items, verified, Except.ok.injEq]
  rw [verified, Except.ok.injEq, Bool.eq_iff_iff, accepts, List.all_eq_true]

end Batches
end Schnorr
end Klomang
