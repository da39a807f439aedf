import Klomang.Crypto.Schnorr
import Klomang.Dag.Basic
import Klomang.Lib.Enumeration
import Klomang.Sample
import Mathlib.Data.List.Permutation

/-! `core/crypto/schnorr.rs`: the signature of a block. What is signed is the serialized header, with the parents in the
order in which their hash set is iterated, which differs from node to node. -/
namespace Klomang

/-- The `bincode` crate: a hash takes 32 bytes, and an optional byte string says whether it is there. Fields follow each
other in the order in which they are declared. -/
class Bincode where
  u64 : UInt64 → List UInt8
  hash : Hash → List UInt8
  optionBytes : Option (List UInt8) → List UInt8
  length_hash : ∀ value, (hash value).length = 32
  hash_injective : Function.Injective hash

namespace Schnorr

section Serialization
variable [Bincode]

/-- A set is written as its length followed by its members in iteration order. -/
def serializeSet (members : List Hash) : List UInt8 :=
  Bincode.u64 (UInt64.ofNat members.length) ++ members.flatMap Bincode.hash

/-- `bincode::serialize` of a header. It does not fail, so the empty default is never taken. -/
def serializeHeader (order : Enumeration Hash) (header : BlockHeader) : List UInt8 :=
  Bincode.hash header.id ++ serializeSet (order.list header.parents) ++ Bincode.u64 header.timestamp ++
    Bincode.u64 header.difficulty ++ Bincode.u64 header.nonce ++ Bincode.hash header.verkleRoot ++
    Bincode.optionBytes header.verkleProofs ++ Bincode.optionBytes header.signature

/-- The serialized header keeps the order of the parents. -/
theorem serialize_header_eq_iff (order other : Enumeration Hash) (header : BlockHeader) :
    serializeHeader order header = serializeHeader other header ↔
      order.list header.parents = other.list header.parents := by
  constructor
  · intro same
    have count : (order.list header.parents).length = (other.list header.parents).length := by
      rw [order.length_list, other.length_list]
    simp only [serializeHeader, serializeSet, count, List.append_cancel_right_eq, List.append_cancel_left_eq] at same
    exact flatMap_uniform_injective Bincode.length_hash Bincode.hash_injective count same
  · intro same
    rw [serializeHeader, serializeHeader, same]

end Serialization

section Verification
variable [Blake3] [SchnorrScheme]

/-- `verify_schnorr`. -/
def verifySchnorr (pubkeyBytes : Bytes32) (sigBytes msg : List UInt8) : Except CoreError Bool :=
  match SchnorrScheme.verifyingKeyFromBytes pubkeyBytes.bytes with
  | .error _ => .error .invalidPublicKey
  | .ok pubkey =>
    if sigBytes.length ≠ 64 then .error .invalidSignature
    else
      match SchnorrScheme.signatureTryFrom sigBytes with
      | .error _ => .error .invalidSignature
      | .ok sig => .ok (SchnorrScheme.verify pubkey (taggedHash tagTxSign msg).bytes sig)

/-- `verify_schnorr` accepts when both parse and the signature fits the tagged hash of the message. -/
theorem verify_schnorr_ok_iff {pubkeyBytes : Bytes32} {sigBytes msg : List UInt8} (width : sigBytes.length = 64) :
    verifySchnorr pubkeyBytes sigBytes msg = .ok true ↔
      ∃ pubkey sig, SchnorrScheme.verifyingKeyFromBytes pubkeyBytes.bytes = .ok pubkey ∧
        SchnorrScheme.signatureTryFrom sigBytes = .ok sig ∧
        SchnorrScheme.verify pubkey (taggedHash tagTxSign msg).bytes sig = true := by
  rw [verifySchnorr]
  cases SchnorrScheme.verifyingKeyFromBytes pubkeyBytes.bytes with
  | error error => simp
  | ok pubkey =>
    dsimp only
    rw [if_neg (not_not.mpr width)]
    cases SchnorrScheme.signatureTryFrom sigBytes with
    | error error => simp
    | ok sig => simp

/-- `verify_block_signature`. The key is the hash in the first output of the first transaction. -/
def verifyBlockSignature [Bincode] (order : Enumeration Hash) (block : BlockNode) : Bool :=
  match block.header.signature with
  | none => false
  | some sigVec =>
    if sigVec.length ≠ 64 then false
    else
      let msgHash := taggedHash tagTxSign (serializeHeader order { block.header with signature := none })
      match block.transactions.head? with
      | none => false
      | some coinbaseTx =>
        match coinbaseTx.outputs.head? with
        | none => false
        | some output =>
          match verifySchnorr output.pubkeyHash sigVec msgHash.bytes with
          | .ok valid => valid
          | .error _ => false

end Verification

section Messages
variable [Blake3] [Bincode]

/-- What the hash function is applied to for a tagged hash. -/
def taggedText (tag : String) (data : List UInt8) : List UInt8 :=
  (Hash.new tag.toUTF8.toList).bytes ++ (Hash.new tag.toUTF8.toList).bytes ++ data

/-- The hash of the header that `verify_block_signature` hands on. -/
def headerDigest (order : Enumeration Hash) (header : BlockHeader) : Bytes32 :=
  taggedHash tagTxSign (serializeHeader order { header with signature := none })

/-- The message that a block's signature is over: `verify_schnorr` hashes once more. -/
def signedMessage (order : Enumeration Hash) (header : BlockHeader) : Bytes32 :=
  taggedHash tagTxSign (headerDigest order header).bytes

/-- What is hashed on the way to the message, over all orders of the parents. -/
def HashedTexts (header : BlockHeader) : Set (List UInt8) :=
  {text | ∃ order : Enumeration Hash,
    text = taggedText tagTxSign (serializeHeader order { header with signature := none }) ∨
      text = taggedText tagTxSign (headerDigest order header).bytes}

variable {header : BlockHeader} {order other : Enumeration Hash}

/-- Two orders of the parents have one message only when they are the same. -/
theorem signed_message_inj (injective : Set.InjOn Hash.new (HashedTexts header))
    (same : signedMessage order header = signedMessage other header) :
    order.list header.parents = other.list header.parents := by
  have outer : taggedText tagTxSign (headerDigest order header).bytes =
      taggedText tagTxSign (headerDigest other header).bytes :=
    injective ⟨order, .inr rfl⟩ ⟨other, .inr rfl⟩ same
  have digests : headerDigest order header = headerDigest other header := Bytes32.ext (List.append_cancel_left outer)
  have inner : taggedText tagTxSign (serializeHeader order { header with signature := none }) =
      taggedText tagTxSign (serializeHeader other { header with signature := none }) :=
    injective ⟨order, .inl rfl⟩ ⟨other, .inl rfl⟩ digests
  exact (serialize_header_eq_iff order other { header with signature := none }).mp (List.append_cancel_left inner)

end Messages

section Nodes
variable [Blake3] [Bincode] {block : BlockNode} {order other : Enumeration Hash}

/-- A block that has what `verify_block_signature` needs: a signature of 64 bytes and a first output with the key. -/
def Signable (block : BlockNode) : Prop :=
  ∃ sigVec tx output, block.header.signature = some sigVec ∧ sigVec.length = 64 ∧
    block.transactions.head? = some tx ∧ tx.outputs.head? = some output

section Scheme
variable [SchnorrScheme]

/-- A block's signature is accepted when it parses, and signs the message under the key of the first output. -/
theorem verify_block_signature_iff (order : Enumeration Hash) (block : BlockNode) :
    verifyBlockSignature order block = true ↔
      ∃ sigVec tx output pubkey sig, block.header.signature = some sigVec ∧ sigVec.length = 64 ∧
        block.transactions.head? = some tx ∧ tx.outputs.head? = some output ∧
        SchnorrScheme.verifyingKeyFromBytes output.pubkeyHash.bytes = .ok pubkey ∧
        SchnorrScheme.signatureTryFrom sigVec = .ok sig ∧
        SchnorrScheme.verify pubkey (signedMessage order block.header).bytes sig = true := by
  constructor
  · intro accepted
    rw [verifyBlockSignature] at accepted
    dsimp only at accepted
    split at accepted
    · cases accepted
    rename_i sigVec signed
    split at accepted
    · cases accepted
    rename_i width
    split at accepted
    · cases accepted
    rename_i tx first
    split at accepted
    · cases accepted
    rename_i output paid
    split at accepted
    next valid checked =>
      subst accepted
      obtain ⟨pubkey, sig, verified⟩ := (verify_schnorr_ok_iff (not_not.mp width)).mp checked
      exact ⟨sigVec, tx, output, pubkey, sig, signed, not_not.mp width, first, paid, verified⟩
    next => cases accepted
  · rintro ⟨sigVec, tx, output, pubkey, sig, signed, width, first, paid, verified⟩
    have checked := (verify_schnorr_ok_iff width).mpr ⟨pubkey, sig, verified⟩
    rw [verifyBlockSignature, signed]
    dsimp only
    rw [if_neg (not_not.mpr width), first]
    dsimp only
    rw [paid]
    dsimp only
    rw [headerDigest] at checked
    rw [checked]

theorem signable_of_verified (verified : verifyBlockSignature order block = true) : Signable block := by
  obtain ⟨sigVec, tx, output, _, _, signed, width, first, paid, _⟩ :=
    (verify_block_signature_iff order block).mp verified
  exact ⟨sigVec, tx, output, signed, width, first, paid⟩

/-- The order of the parents is read through the serialized header alone. -/
theorem verify_block_signature_congr (same : order.list block.header.parents = other.list block.header.parents) :
    verifyBlockSignature order block = verifyBlockSignature other block := by
  have texts := (serialize_header_eq_iff order other { block.header with signature := none }).mpr same
  rw [verifyBlockSignature, texts]
  rfl

/-- A key and a signature fit one message at most. -/
def SignsOnce : Prop :=
  ∀ pubkey first second sig, SchnorrScheme.verify pubkey first sig = true →
    SchnorrScheme.verify pubkey second sig = true → first = second

/-- A block that is accepted in two orders has one message in both. -/
theorem same_message (once : SignsOnce) (here : verifyBlockSignature order block = true)
    (there : verifyBlockSignature other block = true) :
    signedMessage order block.header = signedMessage other block.header := by
  obtain ⟨sigVec, tx, output, pubkey, sig, signed, _, first, paid, key, parsed, verified⟩ :=
    (verify_block_signature_iff order block).mp here
  obtain ⟨sigVec', tx', output', pubkey', sig', signed', _, first', paid', key', parsed', verified'⟩ :=
    (verify_block_signature_iff other block).mp there
  cases signed.symm.trans signed'
  cases first.symm.trans first'
  cases paid.symm.trans paid'
  cases key.symm.trans key'
  cases parsed.symm.trans parsed'
  exact Bytes32.ext (once pubkey _ _ sig verified verified')

end Scheme

/-- A scheme in which every key and signature fit one message, and no other. -/
@[reducible] def signsOnly (message : List UInt8) : SchnorrScheme where
  VerifyingKey := Unit
  Signature := Unit
  verifyingKeyFromBytes _ := .ok ()
  signatureTryFrom _ := .ok ()
  verify _ msg _ := msg == message

theorem verified_signs_only (signable : Signable block) (order : Enumeration Hash) (message : List UInt8) :
    @verifyBlockSignature _ (signsOnly message) _ order block = true ↔
      (signedMessage order block.header).bytes = message := by
  rw [@verify_block_signature_iff _ _ (signsOnly message)]
  constructor
  · rintro ⟨_, _, _, _, _, _, _, _, _, _, _, verified⟩
    exact eq_of_beq verified
  · intro same
    obtain ⟨sigVec, tx, output, signed, width, first, paid⟩ := signable
    exact ⟨sigVec, tx, output, (), (), signed, width, first, paid, rfl, rfl, beq_iff_eq.mpr same⟩

/-- Whatever the verification predicate is, a block's signature has one answer on all nodes exactly when the block has
one parent at most, or lacks what the verification needs. And where a key and a signature fit one message only, a block
that one node accepts is accepted on all of them exactly when it has one parent at most. -/
theorem block_signature_same_iff (block : BlockNode) (injective : Set.InjOn Hash.new (HashedTexts block.header)) :
    ((∀ [SchnorrScheme] (order other : Enumeration Hash),
        verifyBlockSignature order block = verifyBlockSignature other block) ↔
      block.header.parents.card ≤ 1 ∨ ¬ Signable block) ∧
    ∀ [SchnorrScheme], SignsOnce → ∀ order : Enumeration Hash, verifyBlockSignature order block = true →
      ((∀ other, verifyBlockSignature other block = true) ↔ block.header.parents.card ≤ 1) := by
  refine ⟨⟨fun agree => ?_, fun condition _ order other => ?_⟩,
    fun once order here => ⟨fun everywhere => ?_, fun few other => ?_⟩⟩
  · by_contra neither
    simp only [not_or, not_le, not_not] at neither
    obtain ⟨many, signable⟩ := neither
    -- the signature is over the parents in one order, and is checked against them in the reversed order
    let order : Enumeration Hash := Sample.sorted
    have here := (verified_signs_only signable order _).mpr rfl
    rw [@agree (signsOnly (signedMessage order block.header).bytes) order order.reversed] at here
    have same := Bytes32.ext ((verified_signs_only signable order.reversed _).mp here)
    exact Enumeration.reversed_ne many order (signed_message_inj injective same)
  · rcases condition with few | unsignable
    · exact verify_block_signature_congr (Enumeration.list_eq_of_card_le_one few order other)
    · have refused : ∀ order, verifyBlockSignature order block = false := fun order =>
        Bool.eq_false_iff.mpr fun verified => unsignable (signable_of_verified verified)
      rw [refused, refused]
  · by_contra many
    have same := same_message once (everywhere order.reversed) here
    exact Enumeration.reversed_ne (Nat.lt_of_not_le many) order (signed_message_inj injective same)
  · rw [← verify_block_signature_congr (Enumeration.list_eq_of_card_le_one few order other)]
    exact here

end Nodes
end Schnorr

namespace Sample

/-- Little-endian integers of fixed width, and one byte before what is optional. -/
scoped instance bincode : Bincode where
  u64 value := Bytes.leBytes 8 value.toNat
  hash := Bytes32.bytes
  optionBytes
    | none => [0]
    | some bytes => 1 :: (Bytes.leBytes 8 bytes.length ++ bytes)
  length_hash := Bytes32.length_bytes
  hash_injective _ _ := Bytes32.ext

end Sample

namespace Schnorr

section Blocks
open scoped Klomang.Sample

/-- A header with two parents. -/
def twoParents : BlockHeader := ⟨.ofNat 0, {.replicate 3, .replicate 4}, 0, 1, 0, .ofNat 0, none, none⟩

/-- A block with this header, signed by the key 9 over the parents in increasing order. -/
def signedBlock : BlockNode :=
  ⟨{ twoParents with
      signature := some ((Bytes32.replicate 9).bytes ++ (signedMessage Sample.sorted twoParents).bytes) },
    ∅, none, ∅, ∅, 0, [.new [] [⟨5, .replicate 9⟩]]⟩

/-- The signature of a block with two parents is accepted on one node and refused on another one. -/
theorem two_parents_disagree :
    verifyBlockSignature Sample.sorted signedBlock = true ∧
      verifyBlockSignature Sample.sorted.reversed signedBlock = false := by
  constructor <;> decide +kernel

/-- Two parents are iterated in one order or in the other. -/
theorem orders_of_two (order : Enumeration Hash) :
    order.list twoParents.parents = Sample.sorted.list twoParents.parents ∨
      order.list twoParents.parents = Sample.sorted.reversed.list twoParents.parents := by
  have forth : Sample.sorted.list twoParents.parents = [.replicate 3, .replicate 4] := by decide +kernel
  have back : Sample.sorted.reversed.list twoParents.parents = [.replicate 4, .replicate 3] := by decide +kernel
  have arranged := order.perm Sample.sorted twoParents.parents
  rw [forth] at arranged
  rw [forth, back]
  exact List.perm_pair.mp arranged

/-- What is hashed for the two orders has four different hashes. -/
theorem two_parents_injective : Set.InjOn Hash.new (HashedTexts signedBlock.header) := by
  have four : ∀ text ∈ HashedTexts signedBlock.header, text ∈
      [taggedText tagTxSign (serializeHeader Sample.sorted twoParents),
        taggedText tagTxSign (serializeHeader Sample.sorted.reversed twoParents),
        taggedText tagTxSign (headerDigest Sample.sorted twoParents).bytes,
        taggedText tagTxSign (headerDigest Sample.sorted.reversed twoParents).bytes] := by
    rintro text ⟨order, here⟩
    have digests : headerDigest order signedBlock.header =
        taggedHash tagTxSign (serializeHeader order twoParents) := rfl
    have headers : ({ signedBlock.header with signature := none } : BlockHeader) = twoParents := rfl
    rw [digests, headers] at here
    rcases orders_of_two order with same | same <;>
      rw [(serialize_header_eq_iff order _ twoParents).mpr same] at here <;>
      rcases here with rfl | rfl
    · exact List.mem_cons_self
    · exact List.mem_cons_of_mem _ (List.mem_cons_of_mem _ List.mem_cons_self)
    · exact List.mem_cons_of_mem _ List.mem_cons_self
    · exact List.mem_cons_of_mem _ (List.mem_cons_of_mem _ (List.mem_cons_of_mem _ List.mem_cons_self))
  intro first here second there same
  have apart : ∀ first ∈ [taggedText tagTxSign (serializeHeader Sample.sorted twoParents),
        taggedText tagTxSign (serializeHeader Sample.sorted.reversed twoParents),
        taggedText tagTxSign (headerDigest Sample.sorted twoParents).bytes,
        taggedText tagTxSign (headerDigest Sample.sorted.reversed twoParents).bytes],
      ∀ second ∈ [taggedText tagTxSign (serializeHeader Sample.sorted twoParents),
        taggedText tagTxSign (serializeHeader Sample.sorted.reversed twoParents),
        taggedText tagTxSign (headerDigest Sample.sorted twoParents).bytes,
        taggedText tagTxSign (headerDigest Sample.sorted.reversed twoParents).bytes],
      Hash.new first = Hash.new second → first = second := by
    decide +kernel
  exact apart first (four first here) second (four second there) same

/-- Accepted in one order of its two parents, the block is not accepted in all of them. -/
theorem signed_block_not_portable : ¬ ∀ other, verifyBlockSignature other signedBlock = true := by
  have once : SignsOnce := fun pubkey first second sig here there =>
    List.append_cancel_left ((eq_of_beq here).symm.trans (eq_of_beq there))
  intro everywhere
  have few := ((block_signature_same_iff signedBlock two_parents_injective).2 once Sample.sorted
    (everywhere Sample.sorted)).mp everywhere
  exact absurd few (by decide +kernel)

end Blocks
end Schnorr
end Klomang
