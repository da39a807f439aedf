/-! `core/errors.rs`: the error type of the core and its displayed texts. -/
namespace Klomang

inductive CoreError where
  | blockNotFound
  | invalidParent
  | duplicateBlock
  | consensusError (msg : String)
  | transactionError (msg : String)
  | invalidSignature
  | invalidPublicKey
  | signatureVerificationFailed
  | configError (msg : String)
  | serializationError (msg : String)
  | polynomialCommitmentError (msg : String)
  | cryptographicError (msg : String)
  | storageError (msg : String)
  | prunedData (msg : String)
  | invalidState (msg : String)
  deriving DecidableEq

/-- The `Display` text of an error. -/
def CoreError.text : CoreError → String
  | .blockNotFound => "Block not found"
  | .invalidParent => "Invalid parent"
  | .duplicateBlock => "Duplicate block"
  | .consensusError msg => s!"Consensus error: {msg}"
  | .transactionError msg => s!"Transaction error: {msg}"
  | .invalidSignature => "Invalid signature"
  | .invalidPublicKey => "Invalid public key"
  | .signatureVerificationFailed => "Signature verification failed"
  | .configError msg => s!"Config error: {msg}"
  | .serializationError msg => s!"Serialization error: {msg}"
  | .polynomialCommitmentError msg => s!"Polynomial commitment error: {msg}"
  | .cryptographicError msg => s!"Cryptographic error: {msg}"
  | .storageError msg => s!"Storage error: {msg}"
  | .prunedData msg => s!"Pruned data access error: {msg}"
  | .invalidState msg => s!"Invalid state: {msg}"

instance : ToString CoreError := ⟨CoreError.text⟩

/-- How a call ends without a result: the `Err` the source returns, or a panic. -/
inductive Abort (ε : Type) where
  | err (error : ε)
  | panic
  deriving DecidableEq

end Klomang
