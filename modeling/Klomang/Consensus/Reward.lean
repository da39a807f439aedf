import Klomang.Consensus.Emission
import Klomang.Dag.Basic
import Klomang.State.UtxoApply

/-! `core/consensus/reward.rs`: fees, the reward of a block, and the coinbase that pays it. -/
namespace Klomang

/-- The `FullNodeValidator` trait, as far as it is used. -/
structure FullNodeValidator where
  isValidFullNode : Bytes32 → Bool

namespace Reward
variable [Blake3]

section Fees
variable [SchnorrScheme]

/-- `calculate_fees`. -/
def calculateFees (tx : Transaction) (utxo : UtxoSet) : Except CoreError UInt64 := utxo.validateTx tx

/-- `calculate_tx_total_fee`. The sum and the product saturate at 128 bits. -/
def calculateTxTotalFee (tx : Transaction) (utxo : UtxoSet) : Except CoreError Nat := do
  let baseFee := (← calculateFees tx utxo).toNat
  let gasUsed := tx.gasLimit.toNat
  let totalGasFee := min (gasUsed * tx.maxFeePerGas) u128Max
  return min (baseFee + totalGasFee) u128Max

/-- The loop of `calculate_accepted_fees` over the transactions and the working set. -/
def acceptedFees (totalFees : Nat) (workingUtxo : UtxoSet) : List Transaction → Except CoreError Nat
  | [] => .ok totalFees
  | tx :: rest =>
    if tx.isCoinbase then acceptedFees totalFees workingUtxo rest
    else
      match calculateTxTotalFee tx workingUtxo with
      | .error error => .error error
      | .ok fee =>
        match workingUtxo.applyTx tx with
        | (.error error, _) => .error error
        | (.ok _, workingUtxo) =>
          let totalFees := min (totalFees + fee) u128Max
          if totalFees > 2 ^ 64 - 1 then
            .error (.transactionError "Fee overflow in accepted fee calculation")
          else acceptedFees totalFees workingUtxo rest

/-- `calculate_accepted_fees`. -/
def calculateAcceptedFees (block : BlockNode) (utxo : UtxoSet) : Except CoreError UInt64 := do
  let totalFees ← acceptedFees 0 utxo block.transactions
  return UInt64.ofNat totalFees

/-- `block_total_reward`, at a `u64` height. -/
def blockTotalReward (block : BlockNode) (height : UInt64) (isBlue : Bool) (utxo : UtxoSet) :
    Except CoreError UInt64 :=
  if !isBlue then .ok 0
  else do
    let subsidyUnits := Emission.cappedReward height.toNat
    let fees ← calculateAcceptedFees block utxo
    let total := subsidyUnits + fees.toNat
    if total > u128Max then
      .error (.transactionError "Reward overflow: subsidy + fees exceed max limit")
    else if total > 2 ^ 64 - 1 then .error (.transactionError "Total reward overflow u64")
    else return UInt64.ofNat total

end Fees

section Coinbase

/-- `create_coinbase_tx`. The amounts of the outputs are cut to 64 bits. -/
def createCoinbaseTx (minerRewardAddress : Hash) (nodeRewardPoolAddress : Option Hash)
    (activeNodeCount : UInt32) (totalReward : Nat) : Except (Abort CoreError) Transaction :=
  if minerRewardAddress = EconomicConstants.burnAddress then .error .panic
  else
    let (minerReward, nodeRewardPool) :=
      if activeNodeCount = 0 then (totalReward, 0)
      else
        -- the product wraps at 128 bits
        let minerShare := totalReward * EconomicConstants.minerRewardPercent % 2 ^ 128 / 100
        (minerShare, totalReward - minerShare)
    let minerOutput : TxOutput := ⟨UInt64.ofNat minerReward, minerRewardAddress⟩
    let created (outputs : List TxOutput) : Transaction := .new [] outputs
    if activeNodeCount > 0 ∧ nodeRewardPool > 0 then
      match nodeRewardPoolAddress with
      | some poolAddr =>
        if poolAddr = EconomicConstants.burnAddress then .error .panic
        else .ok (created [minerOutput, ⟨UInt64.ofNat nodeRewardPool, poolAddr⟩])
      | none => .ok (created [minerOutput, ⟨UInt64.ofNat nodeRewardPool, minerRewardAddress⟩])
    else .ok (created [minerOutput])

/-- The check of the split between miner and full nodes, in either order. -/
def splitValid (actualReward firstValue secondValue : Nat) : Bool :=
  -- a reward that is the sum of two outputs is too small for the product to wrap
  let expectedMiner := actualReward * EconomicConstants.minerRewardPercent / 100
  let expectedNode := actualReward - expectedMiner
  (firstValue = expectedMiner ∧ secondValue = expectedNode) ∨
    (firstValue = expectedNode ∧ secondValue = expectedMiner)

/-- `validate_coinbase_reward_internal`. -/
def validateCoinbaseRewardInternal (block : BlockNode) (actualReward : Nat)
    (validator : Option FullNodeValidator) : Except CoreError Unit :=
  match block.transactions.find? Transaction.isCoinbase with
  | none => .error (.transactionError "Block must contain a coinbase transaction")
  | some tx =>
    if tx.outputs.isEmpty then .error (.transactionError "Coinbase transaction has no outputs")
    else
      let totalValue := (tx.outputs.map fun output => output.value.toNat).sum
      if totalValue ≠ actualReward then
        .error (.transactionError ("Invalid coinbase reward: expected " ++ toString actualReward ++
          " total, got " ++ toString totalValue))
      else
        match tx.outputs.findIdx? fun output => output.pubkeyHash = EconomicConstants.burnAddress with
        | some idx =>
          .error (.transactionError ("Coinbase output " ++ toString idx ++
            " is sent to burn address (zero address) - prohibited"))
        | none =>
          match tx.outputs with
          | [first, second] =>
            let firstValue := first.value.toNat
            let secondValue := second.value.toNat
            let expectedMiner := actualReward * EconomicConstants.minerRewardPercent / 100
            let expectedNode := actualReward - expectedMiner
            if !splitValid actualReward firstValue secondValue then
              .error (.transactionError ("Invalid 80/20 split: expected [miner: " ++ toString expectedMiner ++
                ", node: " ++ toString expectedNode ++ "], got [" ++ toString firstValue ++ ", " ++
                toString secondValue ++ "]"))
            else
              match validator with
              | none => .ok ()
              | some validator =>
                let nodeAddress := if firstValue = expectedNode then first.pubkeyHash else second.pubkeyHash
                if validator.isValidFullNode nodeAddress then .ok ()
                else
                  .error (.transactionError ("Node reward address \"" ++ nodeAddress.toHex ++
                    "\" is not a valid full node provider"))
          | [output] =>
            if output.value.toNat ≠ actualReward then
              .error (.transactionError ("Single output coinbase must contain all reward value: expected " ++
                toString actualReward ++ ", got " ++ toString output.value.toNat))
            else .ok ()
          | outputs =>
            .error (.transactionError ("Coinbase must have 1 or 2 outputs, got " ++ toString outputs.length))

/-- `validate_coinbase_reward`. -/
def validateCoinbaseReward (block : BlockNode) (actualReward : Nat) : Except CoreError Unit :=
  validateCoinbaseRewardInternal block actualReward none

end Coinbase
end Reward
end Klomang
