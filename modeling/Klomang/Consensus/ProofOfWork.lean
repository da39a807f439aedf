import Klomang.Consensus.Validation
import Klomang.Pow.Miner
import Klomang.Sample

/-! What mining has to do with validation. The miner looks for a hash over the reward addresses below the largest
`u64` divided by the difficulty; a block is validated by its plain hash, and that is compared with the difficulty. -/
namespace Klomang.GhostDag

section Mining
variable [Blake3]

/-- The hash of a block in `validate_block`. -/
def blockHash (ghostDag : GhostDag) (order : Enumeration Hash) (block : BlockNode) : Hash :=
  Pow.calculateHash block.header.timestamp block.header.difficulty (order.list block.header.parents)
    block.blueScore block.header.nonce (ghostDag.computeTransactionMerkleRoot block.transactions)

/-- The block with another nonce. -/
def withNonce (block : BlockNode) (nonce : UInt64) : BlockNode :=
  { block with header := { block.header with nonce := nonce } }

/-- No block with another hash gets through. -/
theorem validate_block_tests_pow [SchnorrScheme] [Channel] [Bandersnatch] {S : Type} [Storage S] {ghostDag : GhostDag}
    {order : Enumeration Hash} {block : BlockNode} {dag : Dag} {tree : VerkleTree S} {currentTime : UInt64}
    (accepted : ghostDag.validateBlock order block dag tree currentTime = .ok ()) :
    Pow.isValidPow (ghostDag.blockHash order block) block.header.difficulty = true :=
  ((validate_block_ok_iff ghostDag order block dag tree currentTime).mp accepted).1.pow

/-- A block with the header fields that were mined. -/
structure Carries (ghostDag : GhostDag) (order : Enumeration Hash) (params : Pow.BlockMiningParams)
    (block : BlockNode) : Prop where
  timestamp : block.header.timestamp = params.timestamp
  difficulty : block.header.difficulty = params.difficulty
  parents : (order.list block.header.parents).Perm params.parentHashes
  verkleRoot : block.header.verkleRoot = params.verkleRoot
  blueScore : block.blueScore = 0
  transactions : ghostDag.computeTransactionMerkleRoot block.transactions = Hash.new params.header

variable {ghostDag : GhostDag} {order : Enumeration Hash} {params : Pow.BlockMiningParams} {block : BlockNode}

/-- The plain hash of such a block is the one from which the miner starts. -/
theorem block_hash_of_carries (carries : Carries ghostDag order params block) (nonce : UInt64) :
    ghostDag.blockHash order (withNonce block nonce) = Pow.headerHash params nonce := by
  simp only [blockHash, withNonce, Pow.headerHash, carries.timestamp, carries.difficulty, carries.blueScore,
    carries.transactions]
  exact Pow.calculate_hash_perm carries.parents _ _ _ _ _

/-- A found nonce makes a block that both tests accept. -/
def MinedIsValid (ghostDag : GhostDag) (order : Enumeration Hash) (params : Pow.BlockMiningParams)
    (block : BlockNode) : Prop :=
  ∀ nonce, Pow.mineBlock params = some nonce →
    (Pow.new params.difficulty).validatePow (ghostDag.blockHash order (withNonce block nonce)) = true ∧
      Pow.isValidPow (ghostDag.blockHash order (withNonce block nonce)) block.header.difficulty = true

/-- No hash that passes the test of `validate_block` at a difficulty fails it at a lower one. -/
def HigherIsHarder : Prop :=
  ∀ (hash : Hash) (low high : UInt64), low ≤ high →
    Pow.isValidPow hash high = true → Pow.isValidPow hash low = true

omit [Blake3] in
/-- Some hash passes at one difficulty and fails at another exactly when the other is the lower one. -/
theorem exists_only_at_higher_iff (low high : UInt64) :
    (∃ hash, Pow.isValidPow hash high = true ∧ Pow.isValidPow hash low = false) ↔ low < high := by
  simp only [Bool.eq_false_iff, ne_eq, Pow.is_valid_pow_iff, not_lt, UInt64.lt_iff_toNat_lt]
  constructor
  · rintro ⟨hash, below, above⟩
    exact above.trans_lt below
  · intro lower
    obtain ⟨hash, start⟩ := Pow.exists_hash_val low
    exact ⟨hash, start ▸ lower, start.ge⟩

/-- Mining and validation never agree, since the test of `validate_block` is the easier the higher the difficulty:
between every two difficulties there is a hash that only the higher one lets through. A mined block itself is
valid exactly when its plain hash, with the first nonce whose rewarded hash is good, is below both thresholds. -/
theorem mining_never_agrees (carries : Carries ghostDag order params block) :
    ¬ (MinedIsValid ghostDag order params block ∧ HigherIsHarder) ∧
      (MinedIsValid ghostDag order params block ↔
        (params.minerAddress ≠ [] ∧ params.nodeRewardAddress ≠ [] →
          ∀ nonce, Pow.FirstAccepted params nonce →
            Pow.hashVal (Pow.headerHash params nonce) < (2 ^ 64 - 1) / max params.difficulty.toNat 1 ∧
              Pow.hashVal (Pow.headerHash params nonce) < params.difficulty.toNat)) ∧
      ∀ low high : UInt64,
        (∃ hash, Pow.isValidPow hash high = true ∧ Pow.isValidPow hash low = false) ↔ low < high := by
  refine ⟨?_, ?_, exists_only_at_higher_iff⟩
  · rintro ⟨_, harder⟩
    obtain ⟨hash, passes, fails⟩ := (exists_only_at_higher_iff 0 1).mpr (by decide)
    have both := harder hash 0 1 (by decide) passes
    rw [fails] at both
    cases both
  · have divisor : (Pow.new params.difficulty).target.toNat = (2 ^ 64 - 1) / max params.difficulty.toNat 1 := by
      simp [Pow.to_nat_target, Pow.new, Pow.to_nat_max]
    simp only [MinedIsValid, block_hash_of_carries carries, Pow.validate_pow_iff, Pow.is_valid_pow_iff, divisor,
      carries.difficulty, Pow.mine_block_some_iff, and_imp]
    constructor
    · exact fun valid miner node nonce => valid nonce miner node
    · exact fun valid nonce miner node => valid miner node nonce

end Mining

section Witness
open Klomang.Sample

/-- Mining at the lowest difficulty. -/
def candidate : Pow.BlockMiningParams where
  header := []
  target := (Pow.new 1).target
  minerAddress := [1]
  nodeRewardAddress := [2]
  timestamp := 0
  difficulty := 1
  parentHashes := []
  verkleRoot := .ofNat 0

def candidateBlock : BlockNode where
  header := ⟨.ofNat 0, ∅, 0, 1, 0, .ofNat 0, none, none⟩
  children := ∅
  selectedParent := none
  blueSet := ∅
  redSet := ∅
  blueScore := 0
  transactions := []

theorem candidate_carried : Carries (GhostDag.new 18) sorted candidate candidateBlock :=
  ⟨rfl, rfl, .refl _, rfl, rfl, rfl⟩

theorem candidate_mined : Pow.mineBlock candidate = some 0 := by
  rw [Pow.mine_block_some_iff]
  refine ⟨⟨by simp [candidate], by simp [candidate]⟩, ?_, fun earlier below => ?_⟩
  · decide +kernel
  · exact absurd below (UInt64.not_lt.mpr (UInt64.zero_le))

/-- The candidate is judged. -/
theorem candidate_judged : ¬ (MinedIsValid (GhostDag.new 18) sorted candidate candidateBlock ∧ HigherIsHarder) :=
  (mining_never_agrees candidate_carried).1

/-- At difficulty 1 the first nonce is mined, and the block with it is refused. -/
theorem mined_block_refused :
    Carries (GhostDag.new 18) sorted candidate candidateBlock ∧
      candidate.target = (Pow.new candidate.difficulty).target ∧ Pow.mineBlock candidate = some 0 ∧
      Pow.isValidPow ((GhostDag.new 18).blockHash sorted (withNonce candidateBlock 0)) 1 = false ∧
      (∃ hash, Pow.isValidPow hash 2 = true ∧ Pow.isValidPow hash 1 = false) := by
  refine ⟨candidate_carried, rfl, candidate_mined, ?_, (exists_only_at_higher_iff 1 2).mpr (by decide)⟩
  rw [block_hash_of_carries candidate_carried]
  decide +kernel

end Witness
end Klomang.GhostDag
