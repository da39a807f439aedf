import Klomang.Consensus.Validation
import Klomang.Lib.Runs
import Klomang.Sample

/-! `KeyPairWrapper`, and what its signatures are worth to `validate_transactions`: no signature is signed over, so those
who own the inputs of a transaction can sign them in any order. -/
namespace Klomang

/-- The signing side of the `k256` crate. -/
class SigningScheme extends SchnorrScheme where
  SigningKey : Type
  /-- `SigningKey::from_bytes`; the source drops its error. -/
  signingKeyFromBytes : List UInt8 → Option SigningKey
  verifyingKey : SigningKey → VerifyingKey
  sign : SigningKey → List UInt8 → Signature
  keyBytes : VerifyingKey → List UInt8
  signatureBytes : Signature → List UInt8
  key_parses : ∀ key, verifyingKeyFromBytes (keyBytes key) = .ok key
  signature_parses : ∀ signature, signatureTryFrom (signatureBytes signature) = .ok signature
  length_signature : ∀ signature, (signatureBytes signature).length = 64
  verifies : ∀ key message, verify (verifyingKey key) message (sign key message) = true

namespace Schnorr

/-- `KeyPairWrapper`. -/
@[ext] structure KeyPairWrapper [SigningScheme] where
  signingKey : SigningScheme.SigningKey

section Keys
variable [SigningScheme]

/-- The key that a counter derives from a seed. -/
def derivedKey [Blake3] (seed : UInt64) (counter : Nat) : Option SigningScheme.SigningKey :=
  SigningScheme.signingKeyFromBytes (Hash.new (Bytes.leBytes 8 seed.toNat ++ Bytes.leBytes 8 counter)).bytes

/-- The first key that a counter below 1024 derives. -/
def firstKey [Blake3] (seed : UInt64) : Option SigningScheme.SigningKey := (List.range 1024).findSome? (derivedKey seed)

/-- `KeyPairWrapper::from_seed`. -/
def KeyPairWrapper.fromSeed [Blake3] (seed : UInt64) : Except CoreError KeyPairWrapper :=
  match firstKey seed with
  | some signingKey => .ok ⟨signingKey⟩
  | none => .error (.cryptographicError "Failed to derive deterministic keypair from seed")

/-- `KeyPairWrapper::public_key`. -/
def KeyPairWrapper.publicKey (pair : KeyPairWrapper) : SchnorrScheme.VerifyingKey :=
  SigningScheme.verifyingKey pair.signingKey

/-- `KeyPairWrapper::sign`. -/
def KeyPairWrapper.sign (pair : KeyPairWrapper) (msg : List UInt8) : SchnorrScheme.Signature :=
  SigningScheme.sign pair.signingKey msg

/-- `verify`. -/
def verify (pubkey : SchnorrScheme.VerifyingKey) (msg : List UInt8) (signature : SchnorrScheme.Signature) : Bool :=
  SchnorrScheme.verify pubkey msg signature

omit [SigningScheme] in
theorem find_some_range {α : Type} {derive : Nat → Option α} {count : Nat} {answer : α} :
    (List.range count).findSome? derive = some answer ↔
      ∃ counter < count, derive counter = some answer ∧ ∀ earlier < counter, derive earlier = none := by
  induction count with
  | zero => simp
  | succ count ih =>
    rw [List.range_succ, List.findSome?_append, Option.or_eq_some_iff, ih, List.findSome?_singleton,
      List.findSome?_eq_none_iff]
    constructor
    · rintro (⟨counter, few, derived⟩ | ⟨none, derived⟩)
      · exact ⟨counter, by omega, derived⟩
      · exact ⟨count, by omega, derived, fun earlier less => none earlier (List.mem_range.mpr less)⟩
    · rintro ⟨counter, few, derived, none⟩
      rcases Nat.lt_or_eq_of_le (Nat.le_of_lt_succ few) with less | rfl
      · exact .inl ⟨counter, less, derived, none⟩
      · exact .inr ⟨fun earlier listed => none earlier (List.mem_range.mp listed), derived⟩

/-- A seed gives the key of the first counter that derives one. -/
theorem from_seed_ok_iff [Blake3] {seed : UInt64} {pair : KeyPairWrapper} :
    KeyPairWrapper.fromSeed seed = .ok pair ↔ ∃ counter < 1024, derivedKey seed counter = some pair.signingKey ∧
      ∀ earlier < counter, derivedKey seed earlier = none := by
  refine Iff.trans ?_ find_some_range
  change KeyPairWrapper.fromSeed seed = .ok pair ↔ firstKey seed = some pair.signingKey
  unfold KeyPairWrapper.fromSeed
  cases firstKey seed with
  | none => simp
  | some signingKey => simp [KeyPairWrapper.ext_iff]

/-- What a key pair signs its public key verifies. -/
theorem verify_sign (pair : KeyPairWrapper) (msg : List UInt8) : verify pair.publicKey msg (pair.sign msg) = true :=
  SigningScheme.verifies pair.signingKey msg

end Keys

section Signing
variable [Blake3] [SigningScheme]

/-- An input that a key pair is asked to sign. -/
abbrev Signing := Nat × KeyPairWrapper

/-- The signature of an input under its own type. -/
def inputSignature (tx : Transaction) (position : Nat) (pair : KeyPairWrapper) (input : TxInput) : List UInt8 :=
  match computeSighash tx position input.sighashType with
  | .ok sighash => SigningScheme.signatureBytes (pair.sign sighash.bytes)
  | .error _ => input.signature

/-- One owner signs. -/
def signInput (tx : Transaction) (signing : Signing) : Transaction :=
  { tx with inputs := tx.inputs.modify signing.1 fun input =>
      { input with signature := inputSignature tx signing.1 signing.2 input } }

/-- The owners sign one after the other. -/
def signAll (tx : Transaction) (signings : List Signing) : Transaction := Runs.run signInput tx signings

end Signing

section Unsigned
variable {tx : Transaction}

/-- A transaction without its signatures. -/
def unsigned (tx : Transaction) : Transaction := { tx with inputs := tx.inputs.map fun input => { input with signature := [] } }

theorem unsigned_outpoints (tx : Transaction) :
    (unsigned tx).inputs.map TxInput.outpoint = tx.inputs.map TxInput.outpoint := List.map_map

variable [Blake3]

theorem unsigned_calculate_id (tx : Transaction) : (unsigned tx).calculateId = tx.calculateId := by
  have inputs : (unsigned tx).inputs.flatMap TxInput.idBytes = tx.inputs.flatMap TxInput.idBytes := by
    rw [unsigned, List.flatMap_map]
    rfl
  rw [Transaction.calculateId, inputs]
  rfl

/-- What is signed is the same without the signatures. -/
theorem unsigned_sighash (tx : Transaction) (position : Nat) (sighash : SigHashType) :
    computeSighash (unsigned tx) position sighash = computeSighash tx position sighash := by
  have inputs : inputBytes (unsigned tx) position = inputBytes tx position := by
    rw [inputBytes, unsigned, List.zipIdx_map, List.map_map]
    rfl
  unfold computeSighash serializeTxForSighash
  rw [inputs]
  rfl

variable [SigningScheme]

theorem sign_unsigned (tx : Transaction) (signing : Signing) : unsigned (signInput tx signing) = unsigned tx := by
  have inputs : (signInput tx signing).inputs.map (fun input => { input with signature := [] }) =
      tx.inputs.map fun input => { input with signature := [] } := by
    refine List.ext_getElem? fun position => ?_
    rw [List.getElem?_map, List.getElem?_map, signInput, List.getElem?_modify]
    split <;> cases tx.inputs[position]? <;> rfl
  rw [unsigned, inputs]
  rfl

theorem sign_all_unsigned (tx : Transaction) (signings : List Signing) : unsigned (signAll tx signings) = unsigned tx :=
  Runs.run_keeps (fun after => unsigned after = unsigned tx) rfl (fun _ signing same => (sign_unsigned _ signing).trans same)
    signings

/-- Nobody's signature changes what the others sign. -/
theorem sign_all_sighash (tx : Transaction) (signings : List Signing) (position : Nat) (sighash : SigHashType) :
    computeSighash (signAll tx signings) position sighash = computeSighash tx position sighash := by
  rw [← unsigned_sighash (signAll tx signings), sign_all_unsigned, unsigned_sighash]

theorem sign_all_id (tx : Transaction) (signings : List Signing) : (signAll tx signings).id = tx.id := by
  have same := congrArg Transaction.id (sign_all_unsigned tx signings)
  exact same

theorem sign_all_calculate_id (tx : Transaction) (signings : List Signing) :
    (signAll tx signings).calculateId = tx.calculateId := by
  rw [← unsigned_calculate_id (signAll tx signings), sign_all_unsigned, unsigned_calculate_id]

theorem sign_all_outpoints (tx : Transaction) (signings : List Signing) :
    (signAll tx signings).inputs.map TxInput.outpoint = tx.inputs.map TxInput.outpoint := by
  rw [← unsigned_outpoints (signAll tx signings), sign_all_unsigned, unsigned_outpoints]

end Unsigned

section Signed
variable [Blake3] [SigningScheme] {tx : Transaction} {signings : List Signing} {position : Nat} {input : TxInput}

/-- An input that nobody signed has the signature it had, and one that was signed has one that an owner made over the
transaction as it was at first. -/
theorem sign_all_input (here : tx.inputs[position]? = some input) (signings : List Signing) :
    ∃ signature, (signAll tx signings).inputs[position]? = some { input with signature } ∧
      ((signature = input.signature ∧ ∀ pair, (position, pair) ∉ signings) ∨
        ∃ pair, (position, pair) ∈ signings ∧ signature = inputSignature tx position pair input) := by
  induction signings using List.reverseRecOn with
  | nil => exact ⟨_, here, .inl ⟨rfl, fun _ => List.not_mem_nil⟩⟩
  | append_singleton signings signing ih =>
    obtain ⟨signature, before, made⟩ := ih
    obtain ⟨signed, pair⟩ := signing
    rw [signAll, Runs.run_snoc, ← signAll, signInput, List.getElem?_modify, before]
    dsimp only
    split
    next same =>
      subst same
      refine ⟨_, rfl, .inr ⟨pair, by simp, ?_⟩⟩
      rw [inputSignature, inputSignature, sign_all_sighash]
      rfl
    next other =>
      refine ⟨signature, rfl, made.imp (fun kept => ⟨kept.1, fun owner member => ?_⟩) fun ⟨owner, member, made⟩ =>
        ⟨owner, List.mem_append_left _ member, made⟩⟩
      rcases List.mem_append.mp member with earlier | now
      · exact kept.2 owner earlier
      · exact other (congrArg Prod.fst (List.mem_singleton.mp now)).symm

/-- Every signing is by the key pair whose public key the input carries. -/
def Owned (tx : Transaction) (signings : List Signing) : Prop :=
  ∀ position pair, (position, pair) ∈ signings → ∀ input, tx.inputs[position]? = some input →
    input.pubkey = SigningScheme.keyBytes pair.publicKey

/-- Every input is signed. -/
def Complete (tx : Transaction) (signings : List Signing) : Prop :=
  ∀ position < tx.inputs.length, ∃ pair, (position, pair) ∈ signings

/-- What an owner signed passes, whatever was signed since. -/
theorem input_signature_signed {pair : KeyPairWrapper} (key : input.pubkey = SigningScheme.keyBytes pair.publicKey) :
    GhostDag.InputSigned (signAll tx signings) position
      { input with signature := inputSignature tx position pair input } := by
  have bytes : inputSignature tx position pair input = SigningScheme.signatureBytes
      (pair.sign (taggedHash tagTxSign (serializeTxForSighash tx position input.sighashType)).bytes) := rfl
  rw [GhostDag.input_signed_iff, bytes]
  refine ⟨fun empty => ?_, pair.publicKey, _, _, ?_, SigningScheme.signature_parses _, ?_, verify_sign pair _⟩
  · have long := SigningScheme.length_signature
      (pair.sign (taggedHash tagTxSign (serializeTxForSighash tx position input.sighashType)).bytes)
    exact absurd ((congrArg List.length empty).symm.trans long) (by decide)
  · exact key ▸ SigningScheme.key_parses pair.publicKey
  · exact sign_all_sighash tx signings position input.sighashType

/-- Once its owners have signed, a transaction passes with every input exactly when none was left out. -/
theorem sign_all_signed_iff (blank : ∀ input ∈ tx.inputs, input.signature = []) (owned : Owned tx signings) :
    (∀ position input, (signAll tx signings).inputs[position]? = some input →
      GhostDag.InputSigned (signAll tx signings) position input) ↔ Complete tx signings := by
  constructor
  · intro signed position within
    have here := List.getElem?_eq_getElem within
    obtain ⟨signature, there, made⟩ := sign_all_input here signings
    have present := ((GhostDag.input_signed_iff _ _ _).mp (signed position _ there)).1
    rcases made with ⟨kept, _⟩ | ⟨pair, member, _⟩
    · exact absurd (kept.trans (blank _ (List.getElem_mem within))) present
    · exact ⟨pair, member⟩
  · intro complete position input there
    have within : position < tx.inputs.length := by
      have listed := congrArg List.length (sign_all_outpoints tx signings)
      rw [List.length_map, List.length_map] at listed
      exact listed ▸ (List.getElem?_eq_some_iff.mp there).1
    have here := List.getElem?_eq_getElem within
    obtain ⟨signature, found, made⟩ := sign_all_input here signings
    rw [there, Option.some.injEq] at found
    rcases made with ⟨_, nobody⟩ | ⟨pair, member, made⟩
    · obtain ⟨pair, member⟩ := complete position within
      exact absurd member (nobody pair)
    · rw [found, made]
      exact input_signature_signed (owned position pair member _ here)

variable [Channel]

/-- A block of transactions whose inputs are signed by their owners, each as often as they like and in whatever order, is
accepted exactly when the ids are the computed ones, no outpoint is spent twice, and no input was left unsigned. -/
theorem signed_block_accepted_iff (ghostDag : GhostDag) (dag : Dag) (block : BlockNode)
    (drafts : List (Transaction × List Signing))
    (signed : block.transactions = drafts.map fun draft => signAll draft.1 draft.2)
    (blank : ∀ draft ∈ drafts, ∀ input ∈ draft.1.inputs, input.signature = [])
    (owned : ∀ draft ∈ drafts, Owned draft.1 draft.2) :
    ghostDag.validateTransactions block dag = .ok () ↔
      (∀ draft ∈ drafts, draft.1.id = draft.1.calculateId) ∧
      (drafts.flatMap fun draft => draft.1.inputs.map TxInput.outpoint).Nodup ∧
      ∀ draft ∈ drafts, Complete draft.1 draft.2 := by
  have outpoints : (block.transactions.flatMap fun tx => tx.inputs.map TxInput.outpoint) =
      drafts.flatMap fun draft => draft.1.inputs.map TxInput.outpoint := by
    rw [signed, List.flatMap_map]
    exact congrArg (List.flatMap · drafts) (funext fun draft => sign_all_outpoints draft.1 draft.2)
  have named (draft : Transaction × List Signing) :
      (signAll draft.1 draft.2).id = (signAll draft.1 draft.2).calculateId ↔ draft.1.id = draft.1.calculateId := by
    rw [sign_all_id, sign_all_calculate_id]
  rw [GhostDag.validate_transactions_ok_iff]
  constructor
  · rintro ⟨ids, once, passed⟩
    rw [signed, List.forall_mem_map] at ids passed
    refine ⟨fun draft member => (named draft).mp (ids draft member), outpoints ▸ once, fun draft member => ?_⟩
    refine (sign_all_signed_iff (blank draft member) (owned draft member)).mp fun position input there => ?_
    exact passed draft member (input, position) (List.mk_mem_zipIdx_iff_getElem?.mpr there)
  · rintro ⟨ids, once, complete⟩
    refine ⟨?_, outpoints.symm ▸ once, ?_⟩ <;> rw [signed, List.forall_mem_map]
    · exact fun draft member => (named draft).mpr (ids draft member)
    · intro draft member item listed
      have passed := (sign_all_signed_iff (blank draft member) (owned draft member)).mpr (complete draft member)
      exact passed item.2 item.1 (List.mk_mem_zipIdx_iff_getElem?.mp listed)

end Signed

end Schnorr
end Klomang

/-! Two owners of the coins of one transaction. -/
namespace Klomang.JointSpend

open Schnorr

scoped instance blake3 : Blake3 := Sample.blake3

scoped instance channel : Channel := Sample.channel

/-- Keys have 32 bytes, and a signature is the key followed by the hash of the message. -/
scoped instance keyed : SigningScheme where
  VerifyingKey := Bytes32
  Signature := Bytes32 × Bytes32
  verifyingKeyFromBytes bytes := if width : bytes.length = 32 then .ok ⟨bytes, width⟩ else .error "signature error"
  signatureTryFrom bytes :=
    if width : bytes.length = 64 then .ok (⟨bytes.take 32, by simp [width]⟩, ⟨bytes.drop 32, by simp [width]⟩)
    else .error "signature error"
  verify key message signature := signature = (key, Hash.new message)
  SigningKey := Bytes32
  signingKeyFromBytes bytes := if width : bytes.length = 32 then some ⟨bytes, width⟩ else none
  verifyingKey key := key
  sign key message := (key, Hash.new message)
  keyBytes key := key.bytes
  signatureBytes signature := signature.1.bytes ++ signature.2.bytes
  key_parses key := by simp
  signature_parses signature := by simp
  length_signature signature := by simp
  verifies key message := by simp

/-- Two coins of two owners. -/
def jointDraft : Transaction :=
  .new [⟨.replicate 7, 0, [], (Bytes32.replicate 1).bytes, .all⟩, ⟨.replicate 7, 1, [], (Bytes32.replicate 2).bytes, .single⟩]
    [⟨5, .replicate 9⟩]

/-- The second owner signs first. -/
def jointSignings : List Signing := [(1, ⟨.replicate 2⟩), (0, ⟨.replicate 1⟩)]

/-- Their spend is accepted. -/
theorem joint_spend_accepted :
    (GhostDag.new 18).validateTransactions
      ⟨⟨.replicate 8, ∅, 0, 1, 0, .replicate 0, none, none⟩, ∅, none, ∅, ∅, 0, [signAll jointDraft jointSignings]⟩ Dag.new =
        .ok () := by
  refine (signed_block_accepted_iff (GhostDag.new 18) Dag.new _ [(jointDraft, jointSignings)] List.map_singleton.symm
    ?_ ?_).mpr ⟨?_, by decide, ?_⟩ <;> rw [List.forall_mem_singleton]
  · decide
  · intro position pair member input here
    rcases List.mem_pair.mp member with same | same <;> cases same <;> cases here <;> rfl
  · rfl
  · intro position within
    match position, within with
    | 0, _ => exact ⟨⟨.replicate 1⟩, by simp [jointSignings]⟩
    | 1, _ => exact ⟨⟨.replicate 2⟩, by simp [jointSignings]⟩

end Klomang.JointSpend
