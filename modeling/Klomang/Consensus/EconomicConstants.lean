import Klomang.Crypto.Hash

/-! `core/consensus/economic_constants.rs`: the constants of the economic policy. -/
namespace Klomang

/-- The largest `u128`. -/
def u128Max : Nat := 2 ^ 128 - 1

namespace EconomicConstants

/-- `MAX_GLOBAL_SUPPLY_NANO_SLUG`. -/
def maxGlobalSupplyNanoSlug : Nat := 600_000_000_000_000_000

/-- `MINER_REWARD_PERCENT`. -/
def minerRewardPercent : Nat := 80

/-- `FULLNODE_REWARD_PERCENT`. -/
def fullnodeRewardPercent : Nat := 20

/-- `BURN_ADDRESS`. -/
def burnAddress : Bytes32 := .replicate 0

/-- `validate_miner_share`; the product wraps as it does in a release build. -/
def validateMinerShare (totalPool minerShare : Nat) : Bool :=
  let expectedMiner := totalPool * minerRewardPercent % 2 ^ 128 / 100
  minerShare = expectedMiner

/-- `validate_fullnode_share`; the product wraps as it does in a release build. -/
def validateFullnodeShare (totalPool fullnodeShare : Nat) : Bool :=
  let expectedFullnode := totalPool * fullnodeRewardPercent % 2 ^ 128 / 100
  fullnodeShare = expectedFullnode

end EconomicConstants
end Klomang
