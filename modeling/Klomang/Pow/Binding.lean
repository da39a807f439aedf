import Klomang.Lib.Chunks
import Klomang.Pow.Hash
import Klomang.Sample

/-! What the proof-of-work hash binds. The parents stand between fields of fixed widths, so their number follows from
the length of the whole, and sorting them forgets their order and nothing else. -/
namespace Klomang.Pow

section Preimages

/-- What `calculate_hash` hashes. -/
def preimage (timestamp difficulty : UInt64) (parentHashes : List Hash) (merit nonce : UInt64) (txMerkleRoot : Hash) :
    List UInt8 :=
  Bytes.leBytes 8 timestamp.toNat ++ Bytes.leBytes 8 difficulty.toNat ++
    (parentHashes.insertionSort (· ≤ ·)).flatMap Bytes32.bytes ++ Bytes.leBytes 8 merit.toNat ++
    Bytes.leBytes 8 nonce.toNat ++ txMerkleRoot.bytes

variable {timestamp difficulty merit nonce otherTimestamp otherDifficulty otherMerit otherNonce : UInt64}
  {parents others : List Hash} {txMerkleRoot otherRoot : Hash}

theorem length_preimage : (preimage timestamp difficulty parents merit nonce txMerkleRoot).length =
    64 + 32 * parents.length := by
  simp only [preimage, List.length_append, Bytes.length_leBytes, Bytes32.length_bytes,
    length_flatMap_uniform Bytes32.length_bytes, List.length_insertionSort]
  omega

/-- The preimage is parsed from both ends; what is left in the middle are the sorted parents. -/
theorem preimage_eq_iff :
    preimage timestamp difficulty parents merit nonce txMerkleRoot =
        preimage otherTimestamp otherDifficulty others otherMerit otherNonce otherRoot ↔
      timestamp = otherTimestamp ∧ difficulty = otherDifficulty ∧ merit = otherMerit ∧ nonce = otherNonce ∧
        txMerkleRoot = otherRoot ∧ parents.Perm others := by
  constructor
  · intro same
    have count : parents.length = others.length := by
      have lengths := congrArg List.length same
      rw [length_preimage, length_preimage] at lengths
      omega
    have sorted : (parents.insertionSort (· ≤ ·)).length = (others.insertionSort (· ≤ ·)).length := by
      rw [List.length_insertionSort, List.length_insertionSort, count]
    obtain ⟨upToNonce, root⟩ := List.append_inj' same (by simp)
    obtain ⟨upToMerit, nonces⟩ := List.append_inj' upToNonce (by simp)
    obtain ⟨upToParents, merits⟩ := List.append_inj' upToMerit (by simp)
    obtain ⟨front, middle⟩ := List.append_inj upToParents (by simp)
    obtain ⟨timestamps, difficulties⟩ := List.append_inj front (by simp)
    have kept := flatMap_uniform_injective Bytes32.length_bytes (fun _ _ => Bytes32.ext) sorted middle
    exact ⟨Bytes.leBytes_u64_injective timestamps, Bytes.leBytes_u64_injective difficulties,
      Bytes.leBytes_u64_injective merits, Bytes.leBytes_u64_injective nonces, Bytes32.ext root,
      insertion_sort_eq_iff.mp kept⟩
  · rintro ⟨rfl, rfl, rfl, rfl, rfl, rearranged⟩
    rw [preimage, preimage, insertion_sort_eq_iff.mpr rearranged]

/-- The proof-of-work hash binds the header and ignores the order of the parents, however many there are on either
side: unless the hash function maps the two preimages to one hash, equal hashes have equal fields and the same parents. -/
theorem calculate_hash_eq_iff [Blake3] (timestamp difficulty : UInt64) (parents : List Hash) (merit nonce : UInt64)
    (txMerkleRoot : Hash) (otherTimestamp otherDifficulty : UInt64) (others : List Hash) (otherMerit otherNonce : UInt64)
    (otherRoot : Hash)
    (injective : Set.InjOn Hash.new
      {preimage timestamp difficulty parents merit nonce txMerkleRoot,
        preimage otherTimestamp otherDifficulty others otherMerit otherNonce otherRoot}) :
    calculateHash timestamp difficulty parents merit nonce txMerkleRoot =
        calculateHash otherTimestamp otherDifficulty others otherMerit otherNonce otherRoot ↔
      timestamp = otherTimestamp ∧ difficulty = otherDifficulty ∧ merit = otherMerit ∧ nonce = otherNonce ∧
        txMerkleRoot = otherRoot ∧ parents.Perm others := by
  rw [← preimage_eq_iff]
  exact injective.eq_iff (.inl rfl) (.inr rfl)

end Preimages

section Headers
open scoped Klomang.Sample

/-- Two headers that differ in the number of their parents alone have different hashes. -/
theorem further_parent_bound :
    calculateHash 1 2 [.replicate 3, .replicate 4] 5 6 (.replicate 7) ≠
      calculateHash 1 2 [.replicate 4] 5 6 (.replicate 7) := by
  intro same
  have counts := ((calculate_hash_eq_iff 1 2 [.replicate 3, .replicate 4] 5 6 (.replicate 7)
    1 2 [.replicate 4] 5 6 (.replicate 7) ?_).mp same).2.2.2.2.2
  · exact absurd counts.length_eq (by decide)
  · apply (Set.injOn_pair).mpr
    intro collision
    exact absurd collision (by decide +kernel)

end Headers
end Klomang.Pow
