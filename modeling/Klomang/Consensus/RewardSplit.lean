import Klomang.Consensus.Coinbase
import Klomang.StateManager.Basic

/-! The split and the policy that it is asserted against. `create_coinbase_tx` and `create_gas_fee_witness` round the
share of the miner down and give the nodes the rest; the policy rounds both shares down. Only of a multiple of five is
nothing lost to rounding. -/
namespace Klomang.Reward
open EconomicConstants (burnAddress minerRewardPercent fullnodeRewardPercent validateMinerShare validateFullnodeShare)
open StateManager (createGasFeeWitness)

/-- The shares of the miner and of the full nodes that `create_coinbase_tx` computes when there are any nodes. -/
def coinbaseShares (totalReward : Nat) : Nat × Nat :=
  let minerShare := totalReward * minerRewardPercent % 2 ^ 128 / 100
  (minerShare, totalReward - minerShare)

/-- The shares are those of the policy. -/
def PolicyAccepts (totalPool minerShare fullnodeShare : Nat) : Prop :=
  validateMinerShare totalPool minerShare = true ∧ validateFullnodeShare totalPool fullnodeShare = true

instance (totalPool minerShare fullnodeShare : Nat) : Decidable (PolicyAccepts totalPool minerShare fullnodeShare) :=
  inferInstanceAs (Decidable (_ ∧ _))

section Assertions
variable [Blake3]

/-- `create_coinbase_tx` with its debug assertions, in whose builds a product that overflows is a panic too. -/
def createCoinbaseTxAsserted (minerRewardAddress : Hash) (nodeRewardPoolAddress : Option Hash)
    (activeNodeCount : UInt32) (totalReward : Nat) : Except (Abort CoreError) Transaction :=
  let created := createCoinbaseTx minerRewardAddress nodeRewardPoolAddress activeNodeCount totalReward
  if minerRewardAddress = burnAddress then .error .panic
  else if activeNodeCount = 0 then created
  else if totalReward * minerRewardPercent > u128Max then .error .panic
  else
    let (minerShare, fullnodeShare) := coinbaseShares totalReward
    if !validateMinerShare totalReward minerShare then .error .panic
    else if totalReward * fullnodeRewardPercent > u128Max then .error .panic
    else if !validateFullnodeShare totalReward fullnodeShare then .error .panic
    else created

end Assertions

section Rounding
variable {totalReward : Nat}

/-- The nodes' share by subtraction is the share by percentage only when a fifth is exact. -/
theorem fullnode_share_iff :
    totalReward - minerShare totalReward = totalReward * fullnodeRewardPercent / 100 ↔ 5 ∣ totalReward := by
  rw [minerShare, minerRewardPercent, fullnodeRewardPercent]
  omega

/-- A share by percentage of a reward of 64 bits does not wrap. -/
theorem percent_unwrapped (fits : totalReward ≤ 2 ^ 64 - 1) {percent : Nat} (part : percent ≤ 100) :
    totalReward * percent % 2 ^ 128 = totalReward * percent ∧ totalReward * percent ≤ u128Max := by
  have product : totalReward * percent ≤ (2 ^ 64 - 1) * 100 := Nat.mul_le_mul fits part
  rw [u128Max]
  exact ⟨Nat.mod_eq_of_lt (by omega), by omega⟩

/-- The policy accepts the split exactly of the multiples of five. -/
theorem policy_accepts_iff (fits : totalReward ≤ 2 ^ 64 - 1) :
    PolicyAccepts totalReward (minerShare totalReward) (totalReward - minerShare totalReward) ↔ 5 ∣ totalReward := by
  have miner := (percent_unwrapped fits (show minerRewardPercent ≤ 100 by decide)).1
  have nodes := (percent_unwrapped fits (show fullnodeRewardPercent ≤ 100 by decide)).1
  rw [PolicyAccepts, validateMinerShare, validateFullnodeShare, miner, nodes, decide_eq_true_iff, decide_eq_true_iff,
    fullnode_share_iff]
  exact and_iff_right rfl

theorem coinbase_shares_eq (fits : totalReward ≤ 2 ^ 64 - 1) :
    coinbaseShares totalReward = (minerShare totalReward, totalReward - minerShare totalReward) := by
  rw [coinbaseShares, (percent_unwrapped fits (show minerRewardPercent ≤ 100 by decide)).1]
  rfl

theorem gas_fee_witness_eq (fits : totalReward ≤ 2 ^ 64 - 1) :
    createGasFeeWitness totalReward =
      ⟨totalReward, minerShare totalReward, totalReward - minerShare totalReward⟩ := by
  rw [createGasFeeWitness, (percent_unwrapped fits (show minerRewardPercent ≤ 100 by decide)).1]
  rfl

end Rounding

section Splitting
variable [Blake3] {totalReward : Nat}

/-- The assertions pass when the policy accepts the shares, and panic when it does not. -/
theorem create_coinbase_asserted (fits : totalReward ≤ 2 ^ 64 - 1) {activeNodeCount : UInt32}
    (active : 0 < activeNodeCount) {minerRewardAddress : Hash} (minerKept : minerRewardAddress ≠ burnAddress)
    (nodeRewardPoolAddress : Option Hash) :
    createCoinbaseTxAsserted minerRewardAddress nodeRewardPoolAddress activeNodeCount totalReward =
      if PolicyAccepts totalReward (coinbaseShares totalReward).1 (coinbaseShares totalReward).2 then
        createCoinbaseTx minerRewardAddress nodeRewardPoolAddress activeNodeCount totalReward
      else .error .panic := by
  have miner := (percent_unwrapped fits (show minerRewardPercent ≤ 100 by decide)).2
  have nodes := (percent_unwrapped fits (show fullnodeRewardPercent ≤ 100 by decide)).2
  rw [createCoinbaseTxAsserted]
  dsimp only
  rw [if_neg minerKept, if_neg (UInt32.pos_iff_ne_zero.mp active), if_neg (Nat.not_lt.mpr miner)]
  by_cases accepts : PolicyAccepts totalReward (coinbaseShares totalReward).1 (coinbaseShares totalReward).2
  · obtain ⟨minerValid, nodesValid⟩ := id accepts
    simp [accepts, minerValid, nodesValid, Nat.not_lt.mpr nodes]
  · rw [if_neg accepts]
    by_cases minerValid : validateMinerShare totalReward (coinbaseShares totalReward).1 = true
    · simp [minerValid, mt (And.intro minerValid) accepts, Nat.not_lt.mpr nodes]
    · simp [minerValid]

/-- The policy accepts the shares of a coinbase and of a gas fee exactly when they are shares of a multiple of five, and
only then the debug assertions let the coinbase through. -/
theorem split_accepted_iff (fits : totalReward ≤ 2 ^ 64 - 1) {activeNodeCount : UInt32} (active : 0 < activeNodeCount) :
    (PolicyAccepts totalReward (coinbaseShares totalReward).1 (coinbaseShares totalReward).2 ↔ 5 ∣ totalReward) ∧
    (PolicyAccepts totalReward (createGasFeeWitness totalReward).minerShare
      (createGasFeeWitness totalReward).fullnodeShare ↔ 5 ∣ totalReward) ∧
    ∀ minerRewardAddress nodeRewardPoolAddress tx,
      createCoinbaseTx minerRewardAddress nodeRewardPoolAddress activeNodeCount totalReward = .ok tx →
      (createCoinbaseTxAsserted minerRewardAddress nodeRewardPoolAddress activeNodeCount totalReward = .ok tx ↔
        5 ∣ totalReward) := by
  have shares : PolicyAccepts totalReward (coinbaseShares totalReward).1 (coinbaseShares totalReward).2 ↔
      5 ∣ totalReward := by
    rw [coinbase_shares_eq fits]
    exact policy_accepts_iff fits
  refine ⟨shares, ?_, fun minerRewardAddress nodeRewardPoolAddress tx created => ?_⟩
  · rw [gas_fee_witness_eq fits]
    exact policy_accepts_iff fits
  · have minerKept : minerRewardAddress ≠ burnAddress := by
      rintro rfl
      rw [createCoinbaseTx, if_pos rfl] at created
      cases created
    rw [create_coinbase_asserted fits active minerKept, created, ← shares]
    split
    · rename_i accepts
      exact iff_of_true rfl accepts
    · rename_i refuses
      exact iff_of_false (fun absurdity => by cases absurdity) refuses

end Splitting

section Units
open scoped Sample

/-- One unit goes to the nodes, where the policy expects nothing; the release build creates the coinbase. -/
theorem one_unit_refused :
    ¬ PolicyAccepts 1 (coinbaseShares 1).1 (coinbaseShares 1).2 ∧
      (createCoinbaseTx (.replicate 1) (some (.replicate 2)) 5 1).toOption.isSome = true ∧
      createCoinbaseTxAsserted (.replicate 1) (some (.replicate 2)) 5 1 = .error .panic := by
  decide +kernel

/-- Five units are split as the policy says. -/
theorem five_units_split :
    PolicyAccepts 5 (coinbaseShares 5).1 (coinbaseShares 5).2 ∧
      PolicyAccepts 5 (createGasFeeWitness 5).minerShare (createGasFeeWitness 5).fullnodeShare := by
  obtain ⟨shares, fees, _⟩ := split_accepted_iff (show 5 ≤ 2 ^ 64 - 1 by decide) (show 0 < (1 : UInt32) by decide)
  exact ⟨shares.mpr (by decide), fees.mpr (by decide)⟩

end Units
end Klomang.Reward
