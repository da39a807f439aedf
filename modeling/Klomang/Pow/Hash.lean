import Klomang.Crypto.Hash
import Mathlib.Data.List.Sort

/-! `core/pow/hash.rs`: the proof-of-work hash of a header, and the search for a nonce. -/
namespace Klomang.Pow

/-- `calculate_hash`; the parents are sorted before they are hashed. -/
def calculateHash [Blake3] (timestamp difficulty : UInt64) (parentHashes : List Hash) (merit nonce : UInt64)
    (txMerkleRoot : Hash) : Hash :=
  let parents := parentHashes.insertionSort (· ≤ ·)
  Hash.new (Bytes.leBytes 8 timestamp.toNat ++ Bytes.leBytes 8 difficulty.toNat ++
    parents.flatMap Bytes32.bytes ++ Bytes.leBytes 8 merit.toNat ++ Bytes.leBytes 8 nonce.toNat ++
    txMerkleRoot.bytes)

/-- The first 8 bytes of a hash as a little-endian number. -/
def hashVal (hash : Hash) : Nat := Bytes.ofLE (hash.bytes.take 8)

/-- `is_valid_pow`: the first 8 bytes, little endian, are below the target. -/
def isValidPow (hash : Hash) (target : UInt64) : Bool :=
  decide (Bytes.ofLE (hash.bytes.take 8) < target.toNat)

theorem is_valid_pow_iff (hash : Hash) (target : UInt64) :
    isValidPow hash target = true ↔ hashVal hash < target.toNat := by
  simp [isValidPow, hashVal]

/-- Every number of 8 bytes starts some hash. -/
theorem exists_hash_val (value : UInt64) : ∃ hash, hashVal hash = value.toNat := by
  refine ⟨⟨Bytes.leBytes 8 value.toNat ++ List.replicate 24 0, by simp⟩, ?_⟩
  rw [hashVal, List.take_left' (Bytes.length_leBytes 8 _), Bytes.ofLE_leBytes]
  exact Nat.mod_eq_of_lt value.toNat_lt

/-- Two lists sort to the same list exactly when they are rearrangements of each other. -/
theorem insertion_sort_eq_iff {parents others : List Hash} :
    parents.insertionSort (· ≤ ·) = others.insertionSort (· ≤ ·) ↔ parents.Perm others := by
  constructor
  · intro same
    exact (List.perm_insertionSort _ parents).symm.trans (same ▸ List.perm_insertionSort _ others)
  · intro same
    apply List.Perm.eq_of_pairwise' (List.pairwise_insertionSort _ _) (List.pairwise_insertionSort _ _)
    exact (List.perm_insertionSort _ _).trans (same.trans (List.perm_insertionSort _ _).symm)

/-- The hash does not depend on the order in which the parents are given. -/
theorem calculate_hash_perm [Blake3] {parents others : List Hash} (same : parents.Perm others)
    (timestamp difficulty merit nonce : UInt64) (txMerkleRoot : Hash) :
    calculateHash timestamp difficulty parents merit nonce txMerkleRoot =
      calculateHash timestamp difficulty others merit nonce txMerkleRoot := by
  simp only [calculateHash, insertion_sort_eq_iff.mpr same]

structure BlockMiningParams where
  header : List UInt8
  target : UInt64
  minerAddress : List UInt8
  nodeRewardAddress : List UInt8
  timestamp : UInt64
  difficulty : UInt64
  parentHashes : List Hash
  verkleRoot : Bytes32

/-- The hash of the header fields, before the reward addresses come in; the merit is zero while mining. -/
def headerHash [Blake3] (params : BlockMiningParams) (nonce : UInt64) : Hash :=
  calculateHash params.timestamp params.difficulty params.parentHashes 0 nonce (Hash.new params.header)

/-- What the miner compares with its target. -/
def rewardedHash [Blake3] (params : BlockMiningParams) (nonce : UInt64) : Hash :=
  Hash.new ((headerHash params nonce).bytes ++ params.verkleRoot.bytes ++ params.minerAddress ++
    params.nodeRewardAddress)

/-- The loop over the nonces, of which `left` are left from `nonce` on. -/
def firstNonce (accepted : UInt64 → Bool) : (left nonce : Nat) → Option UInt64
  | 0, _ => none
  | left + 1, nonce =>
    if accepted (UInt64.ofNat nonce) then some (UInt64.ofNat nonce) else firstNonce accepted left (nonce + 1)

/-- `mine_block`. -/
def mineBlock [Blake3] (params : BlockMiningParams) : Option UInt64 :=
  if params.minerAddress.isEmpty || params.nodeRewardAddress.isEmpty then none
  else firstNonce (fun nonce => isValidPow (rewardedHash params nonce) params.target) (2 ^ 64) 0

theorem first_nonce_some_iff (accepted : UInt64 → Bool) {left nonce : Nat} (fits : nonce + left ≤ 2 ^ 64)
    (found : UInt64) :
    firstNonce accepted left nonce = some found ↔
      (nonce ≤ found.toNat ∧ found.toNat < nonce + left) ∧ accepted found = true ∧
        ∀ earlier : UInt64, nonce ≤ earlier.toNat → earlier < found → accepted earlier = false := by
  induction left generalizing nonce with
  | zero =>
    simp only [firstNonce, reduceCtorEq, false_iff, not_and]
    intro range
    omega
  | succ left ih =>
    have here : (UInt64.ofNat nonce).toNat = nonce := UInt64.toNat_ofNat_of_lt' (by simp only [UInt64.size]; omega)
    rw [firstNonce]
    cases test : accepted (UInt64.ofNat nonce) with
    | true =>
      simp only [if_true, Option.some.injEq]
      constructor
      · rintro rfl
        refine ⟨⟨here.ge, by omega⟩, test, fun earlier above below => ?_⟩
        rw [UInt64.lt_iff_toNat_lt, here] at below
        omega
      · rintro ⟨⟨above, _⟩, _, first⟩
        by_contra other
        have strict : UInt64.ofNat nonce < found := by
          rw [UInt64.lt_iff_toNat_lt, here]
          exact above.lt_of_ne fun same => other (UInt64.toNat_inj.mp (here.trans same))
        simp [first _ here.ge strict] at test
    | false =>
      simp only [Bool.false_eq_true, if_false, ih (by omega : nonce + 1 + left ≤ 2 ^ 64)]
      constructor
      · rintro ⟨⟨above, within⟩, accept, first⟩
        refine ⟨⟨by omega, by omega⟩, accept, fun earlier later below => ?_⟩
        rcases later.eq_or_lt with same | more
        · rwa [← UInt64.toNat_inj.mp (here.trans same)]
        · exact first earlier more below
      · rintro ⟨⟨above, within⟩, accept, first⟩
        have apart : nonce ≠ found.toNat := by
          intro same
          rw [UInt64.toNat_inj.mp (here.trans same), accept] at test
          cases test
        exact ⟨⟨by omega, by omega⟩, accept, fun earlier later below => first earlier (by omega) below⟩

/-- A nonce is the first that the miner accepts. -/
def FirstAccepted [Blake3] (params : BlockMiningParams) (nonce : UInt64) : Prop :=
  hashVal (rewardedHash params nonce) < params.target.toNat ∧
    ∀ earlier < nonce, params.target.toNat ≤ hashVal (rewardedHash params earlier)

/-- With both reward addresses the miner returns the first nonce that it accepts. -/
theorem mine_block_some_iff [Blake3] (params : BlockMiningParams) (nonce : UInt64) :
    mineBlock params = some nonce ↔
      (params.minerAddress ≠ [] ∧ params.nodeRewardAddress ≠ []) ∧ FirstAccepted params nonce := by
  have bound := nonce.toNat_lt
  rw [mineBlock]
  split
  next missing =>
    simp only [reduceCtorEq, false_iff, not_and]
    intro given
    simp [given.1, given.2] at missing
  next given =>
    simp only [Bool.or_eq_true, List.isEmpty_iff, not_or] at given
    rw [first_nonce_some_iff _ (by omega)]
    simp only [is_valid_pow_iff, Nat.zero_le, Nat.zero_add, true_and, bound, forall_const, Bool.eq_false_iff, ne_eq, not_lt,
      FirstAccepted, given.1, given.2, not_false_eq_true]

end Klomang.Pow
