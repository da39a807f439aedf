import Klomang.Consensus.Reward
import Klomang.Sample

/-! The coinbases that `create_coinbase_tx` makes are coinbases that `validate_coinbase_reward` accepts. Both round
the miner's share down and leave the rest to the nodes, and a share of zero for the nodes means that nothing was to
be shared at all. -/
namespace Klomang.Reward
open EconomicConstants (burnAddress minerRewardPercent)
open UtxoSet (outputValue)

/-- The share of the miner, rounded down. -/
def minerShare (totalReward : Nat) : Nat := totalReward * minerRewardPercent / 100

theorem miner_share_le (totalReward : Nat) : minerShare totalReward ≤ totalReward := by
  rw [minerShare, minerRewardPercent]
  omega

/-- Only of nothing does the miner get everything. -/
theorem miner_share_whole {totalReward : Nat} (whole : totalReward - minerShare totalReward = 0) : totalReward = 0 := by
  rw [minerShare, minerRewardPercent] at whole
  omega

/-- The outputs of a coinbase: everything to one recipient, or the two shares. None is burned. -/
inductive Pays (totalReward : Nat) : List TxOutput → Prop where
  | whole (recipient : Hash) (kept : recipient ≠ burnAddress) : Pays totalReward [⟨UInt64.ofNat totalReward, recipient⟩]
  | shared (miner nodes : Hash) (minerKept : miner ≠ burnAddress) (nodesKept : nodes ≠ burnAddress) :
    Pays totalReward [⟨UInt64.ofNat (minerShare totalReward), miner⟩,
      ⟨UInt64.ofNat (totalReward - minerShare totalReward), nodes⟩]

section Accepting
variable {totalReward : Nat} {outputs : List TxOutput}

/-- The cut to 64 bits takes nothing away. -/
theorem paid_value {value : Nat} (within : value ≤ totalReward) (fits : totalReward ≤ 2 ^ 64 - 1) :
    (UInt64.ofNat value).toNat = value :=
  UInt64.toNat_ofNat_of_lt' (by rw [UInt64.size]; omega)

theorem Pays.sum (pays : Pays totalReward outputs) (fits : totalReward ≤ 2 ^ 64 - 1) :
    (outputs.map fun output => output.value.toNat).sum = totalReward := by
  have share := miner_share_le totalReward
  cases pays with
  | whole recipient kept => simpa using paid_value le_rfl fits
  | shared miner nodes minerKept nodesKept =>
    simp only [List.map_cons, List.map_nil, List.sum_cons, List.sum_nil]
    rw [paid_value share fits, paid_value (Nat.sub_le _ _) fits]
    omega

theorem Pays.unburned (pays : Pays totalReward outputs) :
    (outputs.findIdx? fun output => output.pubkeyHash = burnAddress) = none := by
  cases pays with
  | whole recipient kept => simp [kept]
  | shared miner nodes minerKept nodesKept => simp [minerKept, nodesKept]

theorem Pays.accepted (pays : Pays totalReward outputs) (fits : totalReward ≤ 2 ^ 64 - 1) {block : BlockNode}
    {tx : Transaction} (first : block.transactions.find? Transaction.isCoinbase = some tx)
    (listed : tx.outputs = outputs) : validateCoinbaseReward block totalReward = .ok () := by
  subst listed
  have total := pays.sum fits
  have unburned := pays.unburned
  have share := miner_share_le totalReward
  rw [validateCoinbaseReward, validateCoinbaseRewardInternal, first]
  dsimp only
  rw [total, unburned]
  generalize tx.outputs = outputs at *
  cases pays with
  | whole recipient kept => simp [paid_value le_rfl fits]
  | shared miner nodes minerKept nodesKept =>
    have split : splitValid totalReward (minerShare totalReward) (totalReward - minerShare totalReward) = true := by
      simp [splitValid, minerShare]
    simp [paid_value share fits, paid_value (Nat.sub_le _ _) fits, split]

end Accepting

section Creating
variable [Blake3] {totalReward : Nat}

/-- What `create_coinbase_tx` creates. -/
theorem create_coinbase_pays {minerRewardAddress : Hash} {nodeRewardPoolAddress : Option Hash}
    (minerKept : minerRewardAddress ≠ burnAddress)
    (poolKept : ∀ poolAddr, nodeRewardPoolAddress = some poolAddr → poolAddr ≠ burnAddress) (activeNodeCount : UInt32)
    (fits : totalReward ≤ 2 ^ 64 - 1) :
    ∃ outputs, createCoinbaseTx minerRewardAddress nodeRewardPoolAddress activeNodeCount totalReward =
      .ok (.new [] outputs) ∧ Pays totalReward outputs := by
  have unwrapped : totalReward * minerRewardPercent % 2 ^ 128 / 100 = minerShare totalReward := by
    rw [minerShare, Nat.mod_eq_of_lt]
    rw [minerRewardPercent]
    omega
  rw [createCoinbaseTx, if_neg minerKept]
  by_cases inactive : activeNodeCount = 0
  · refine ⟨_, ?_, .whole minerRewardAddress minerKept⟩
    simp [inactive]
  · have active : activeNodeCount > 0 := UInt32.pos_iff_ne_zero.mpr inactive
    rw [if_neg inactive, unwrapped]
    dsimp only
    by_cases shared : totalReward - minerShare totalReward > 0
    · rw [if_pos ⟨active, shared⟩]
      cases pool : nodeRewardPoolAddress with
      | some poolAddr =>
        have kept := poolKept poolAddr pool
        refine ⟨_, if_neg kept, .shared minerRewardAddress poolAddr minerKept kept⟩
      | none => exact ⟨_, rfl, .shared minerRewardAddress minerRewardAddress minerKept minerKept⟩
    · obtain rfl := miner_share_whole (Nat.eq_zero_of_not_pos shared)
      rw [if_neg fun both => shared both.2]
      exact ⟨_, rfl, .whole minerRewardAddress minerKept⟩

/-- A created coinbase pays the whole reward, has the id of what it says, and is accepted. -/
theorem created_coinbase_accepted {minerRewardAddress : Hash} {nodeRewardPoolAddress : Option Hash}
    (minerKept : minerRewardAddress ≠ burnAddress)
    (poolKept : ∀ poolAddr, nodeRewardPoolAddress = some poolAddr → poolAddr ≠ burnAddress) (activeNodeCount : UInt32)
    (fits : totalReward ≤ 2 ^ 64 - 1) :
    ∃ tx, createCoinbaseTx minerRewardAddress nodeRewardPoolAddress activeNodeCount totalReward = .ok tx ∧
      outputValue tx = totalReward ∧ tx.id = tx.calculateId ∧
      ∀ block : BlockNode, block.transactions.find? Transaction.isCoinbase = some tx →
        validateCoinbaseReward block totalReward = .ok () := by
  obtain ⟨outputs, created, pays⟩ := create_coinbase_pays minerKept poolKept activeNodeCount fits
  exact ⟨_, created, pays.sum fits, rfl, fun block first => pays.accepted fits first rfl⟩

end Creating

section Rounding
open scoped Sample

/-- Of three units the miner gets two. -/
theorem three_units_accepted :
    ∃ tx, createCoinbaseTx (.replicate 1) (some (.replicate 2)) 5 3 = .ok tx ∧
      outputValue tx = 3 ∧ tx.id = tx.calculateId ∧
      ∀ block : BlockNode, block.transactions.find? Transaction.isCoinbase = some tx →
        validateCoinbaseReward block 3 = .ok () :=
  created_coinbase_accepted (by decide) (fun _ same => Option.some.inj same ▸ by decide) 5 (by decide)

end Rounding
end Klomang.Reward
