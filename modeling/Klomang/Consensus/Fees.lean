import Klomang.Consensus.Reward
import Klomang.StateManager.Conservation

/-! What fees and coinbases add to the value of the unspent outputs. The gas fee of a transaction
is promised to the coinbase on top of what its inputs leave over, but nobody pays it; and of all
transactions without inputs only the first one is compared with the reward. -/
namespace Klomang.Reward
open UtxoSet (outputValue)

section Coinbases

/-- The transactions of a block that have no inputs. -/
def coinbases (block : BlockNode) : List Transaction := block.transactions.filter Transaction.isCoinbase

/-- What an accepted block's first coinbase pays. -/
theorem first_coinbase_pays {block : BlockNode} {reward : Nat} {validator : Option FullNodeValidator}
    (valid : validateCoinbaseRewardInternal block reward validator = .ok ()) :
    ∃ first rest, coinbases block = first :: rest ∧ outputValue first = reward := by
  rw [validateCoinbaseRewardInternal] at valid
  cases found : block.transactions.find? Transaction.isCoinbase with
  | none => simp [found] at valid
  | some first =>
    rw [← List.head?_filter] at found
    obtain ⟨rest, listed⟩ := List.head?_eq_some_iff.mp found
    refine ⟨first, rest, listed, ?_⟩
    by_contra different
    have unequal : (first.outputs.map fun output => output.value.toNat).sum ≠ reward := different
    rw [← List.head?_filter, found] at valid
    dsimp only at valid
    by_cases empty : first.outputs.isEmpty
    · rw [if_pos empty] at valid
      cases valid
    · rw [if_neg empty, if_pos unequal] at valid
      cases valid

/-- An accepted reward is all that the block mints exactly when the coinbases after the first one
pay nothing. -/
theorem coinbases_bounded_iff {block : BlockNode} {reward : Nat}
    (valid : validateCoinbaseReward block reward = .ok ()) :
    ((coinbases block).map outputValue).sum = reward ↔
      ((coinbases block).tail.map outputValue).sum = 0 := by
  obtain ⟨first, rest, listed, paid⟩ := first_coinbase_pays valid
  rw [listed, List.map_cons, List.sum_cons, paid, List.tail_cons]
  omega

end Coinbases

section Gas

/-- The gas fee that `calculate_tx_total_fee` adds to what the inputs leave over. -/
def gasFee (tx : Transaction) : Nat := tx.gasLimit.toNat * tx.maxFeePerGas

/-- The gas fees of the transactions that have inputs. -/
def gasFees (txs : List Transaction) : Nat := ((txs.filter fun tx => !tx.isCoinbase).map gasFee).sum

theorem gas_fees_zero {txs : List Transaction} : gasFees txs = 0 ↔ ∀ tx ∈ txs, tx.isCoinbase = false → gasFee tx = 0 := by
  rw [gasFees, List.sum_eq_zero_iff, List.forall_mem_map]
  simp

end Gas

section Kept
variable [Blake3] [SchnorrScheme]

/-- What the inputs of the transactions that have any hold beyond the outputs, each taken in the set
that the ones before it leave. -/
def leftOver (set : UtxoSet) : List Transaction → Int
  | [] => 0
  | tx :: rest =>
    if tx.isCoinbase then leftOver set rest
    else (set.spentValue tx : Int) - outputValue tx + leftOver (set.after tx) rest

/-- `apply_tx` for one transaction after the other. -/
def applyAll (set : UtxoSet) : List Transaction → Except CoreError UtxoSet
  | [] => .ok set
  | tx :: rest =>
    match set.applyTx tx with
    | (.error error, _) => .error error
    | (.ok _, set) => applyAll set rest

/-- Every transaction creates its outputs at free outpoints. -/
def FreshAll (set : UtxoSet) : List Transaction → Prop
  | [] => True
  | tx :: rest => set.Fresh tx ∧ FreshAll (set.after tx) rest

/-- No fee of a block is minted. -/
structure FeesKept (block : BlockNode) (utxo : UtxoSet) (fees : UInt64) : Prop where
  /-- The fees are what the inputs leave over. -/
  covered : (fees.toNat : Int) = leftOver utxo block.transactions
  /-- Coinbases that pay the reward of the block add the subsidy to the unspent outputs. -/
  subsidised : ∀ height reward final, blockTotalReward block height true utxo = .ok reward →
    ((coinbases block).map outputValue).sum = reward.toNat → applyAll utxo block.transactions = .ok final →
    FreshAll utxo block.transactions → final.totalValue = utxo.totalValue + Emission.cappedReward height.toNat

variable {set working : UtxoSet} {tx : Transaction} {txs rest : List Transaction}

/-- One round of the loop of `calculate_accepted_fees`: nothing saturates in it. -/
theorem accepted_fees_cons {start total : Nat} (accepted : acceptedFees start working (tx :: rest) = .ok total) :
    (tx.isCoinbase = true ∧ acceptedFees start working rest = .ok total) ∨
    (tx.isCoinbase = false ∧ ∃ base fee, working.validateTx tx = .ok base ∧
      fee + outputValue tx = working.spentValue tx + gasFee tx ∧ start + fee ≤ 2 ^ 64 - 1 ∧
      acceptedFees (start + fee) (working.after tx) rest = .ok total) := by
  rw [acceptedFees] at accepted
  cases spends : tx.isCoinbase with
  | true => exact .inl ⟨rfl, by simpa [spends] using accepted⟩
  | false =>
    rw [spends, if_neg Bool.false_ne_true] at accepted
    refine .inr ⟨rfl, ?_⟩
    cases checked : working.validateTx tx with
    | error error =>
      simp only [calculateTxTotalFee, calculateFees, checked] at accepted
      cases accepted
    | ok base =>
      have charged : calculateTxTotalFee tx working =
          .ok (min (base.toNat + min (gasFee tx) u128Max) u128Max) := by
        simp only [calculateTxTotalFee, calculateFees, checked, gasFee]
        rfl
      rw [charged, UtxoSet.apply_tx_ok checked] at accepted
      dsimp only at accepted
      split at accepted
      · cases accepted
      · rename_i fits
        have limit : u128Max = 2 ^ 128 - 1 := rfl
        have paid := UtxoSet.validate_tx_fee spends checked
        have exact : min (start + min (base.toNat + min (gasFee tx) u128Max) u128Max) u128Max =
            start + (base.toNat + gasFee tx) := by omega
        rw [exact] at accepted fits
        exact ⟨base, _, rfl, by omega, Nat.not_lt.mp fits, accepted⟩

/-- The loop adds up what the inputs leave over and the gas fees. -/
theorem accepted_fees_ok {start total : Nat} (low : start ≤ 2 ^ 64 - 1)
    (accepted : acceptedFees start working txs = .ok total) :
    (total : Int) = start + leftOver working txs + gasFees txs ∧ total ≤ 2 ^ 64 - 1 := by
  induction txs generalizing start working with
  | nil =>
    cases accepted
    simpa [leftOver, gasFees] using low
  | cons tx rest ih =>
    rcases accepted_fees_cons accepted with ⟨coinbase, further⟩ | ⟨spends, base, fee, _, paid, fits, further⟩
    · rw [leftOver, if_pos coinbase, gasFees, List.filter_cons_of_neg (by simp [coinbase])]
      exact ih low further
    · obtain ⟨sum, bound⟩ := ih fits further
      refine ⟨?_, bound⟩
      rw [leftOver, if_neg (by simp [spends]), gasFees, List.filter_cons_of_pos (by simp [spends]), List.map_cons,
        List.sum_cons]
      rw [gasFees] at sum
      omega

theorem spent_value_within {base : UInt64} (within : UtxoSet.Within working set)
    (checked : working.validateTx tx = .ok base) : set.spentValue tx = working.spentValue tx := by
  rw [UtxoSet.spentValue, UtxoSet.spentValue]
  congr 1
  refine List.map_congr_left fun input member => ?_
  obtain ⟨output, found⟩ := Option.isSome_iff_exists.mp ((UtxoSet.validated_inputs checked).2 input member)
  rw [UtxoSet.valueAt, UtxoSet.valueAt, found, within _ _ found]

/-- Applying a block adds what its coinbases pay and takes what the other transactions leave over. The
loop over the fees works in a set of its own, in which nothing that a coinbase pays is there. -/
theorem total_after_all {start total : Nat} {final : UtxoSet} (within : UtxoSet.Within working set)
    (accepted : acceptedFees start working txs = .ok total) (applied : applyAll set txs = .ok final)
    (fresh : FreshAll set txs) :
    (final.totalValue : Int) + leftOver working txs =
      set.totalValue + ((txs.filter Transaction.isCoinbase).map outputValue).sum := by
  induction txs generalizing start working set with
  | nil =>
    cases applied
    simp [leftOver]
  | cons tx rest ih =>
    obtain ⟨free, later⟩ := fresh
    rw [applyAll] at applied
    rcases moved : set.applyTx tx with ⟨_ | changes, next⟩
    · rw [moved] at applied
      cases applied
    rw [moved] at applied
    dsimp only at applied
    obtain ⟨⟨_, checked⟩, rfl⟩ := UtxoSet.apply_tx_eq_ok moved
    have change := UtxoSet.total_after (UtxoSet.validated_inputs checked).1 free
    rcases accepted_fees_cons accepted with ⟨coinbase, further⟩ | ⟨spends, base, fee, accept, _, _, further⟩
    · have unspent : set.spentValue tx = 0 := by
        rw [UtxoSet.spentValue, List.isEmpty_iff.mp coinbase]
        rfl
      have rest := ih (within.after_coinbase coinbase free) further applied later
      rw [leftOver, if_pos coinbase, List.filter_cons_of_pos coinbase, List.map_cons, List.sum_cons]
      omega
    · have rest := ih (within.after tx) further applied later
      have same := spent_value_within within accept
      rw [leftOver, if_neg (by simp [spends]), List.filter_cons_of_neg (by simp [spends])]
      omega

/-- What the reward of a blue block is made of. -/
theorem block_total_reward_ok {block : BlockNode} {height fees reward : UInt64}
    (accepted : calculateAcceptedFees block set = .ok fees)
    (granted : blockTotalReward block height true set = .ok reward) :
    reward.toNat = Emission.cappedReward height.toNat + fees.toNat := by
  simp only [blockTotalReward, accepted] at granted
  change (if Emission.cappedReward height.toNat + fees.toNat > u128Max then _ else _) = _ at granted
  split at granted
  · cases granted
  split at granted
  · cases granted
  rename_i fits
  cases granted
  exact UInt64.toNat_ofNat_of_lt' (Nat.lt_succ_of_le (Nat.not_lt.mp fits))

/-- The fees of an accepted block are what its inputs leave over and its gas. -/
theorem calculated_fees {block : BlockNode} {utxo : UtxoSet} {fees : UInt64}
    (accepted : calculateAcceptedFees block utxo = .ok fees) :
    acceptedFees 0 utxo block.transactions = .ok fees.toNat ∧
      (fees.toNat : Int) = leftOver utxo block.transactions + gasFees block.transactions := by
  rw [calculateAcceptedFees] at accepted
  cases summed : acceptedFees 0 utxo block.transactions with
  | error error =>
    rw [summed] at accepted
    cases accepted
  | ok total =>
    rw [summed] at accepted
    cases accepted
    obtain ⟨sum, bound⟩ := accepted_fees_ok (Nat.zero_le _) summed
    rw [UInt64.toNat_ofNat_of_lt' (Nat.lt_succ_of_le bound)]
    exact ⟨rfl, by simpa using sum⟩

/-- Coinbases that pay the reward of their block mint its gas on top of the subsidy. -/
theorem minted_by_block {block : BlockNode} {utxo final : UtxoSet} {height fees reward : UInt64}
    (accepted : calculateAcceptedFees block utxo = .ok fees)
    (granted : blockTotalReward block height true utxo = .ok reward)
    (paid : ((coinbases block).map outputValue).sum = reward.toNat)
    (applied : applyAll utxo block.transactions = .ok final) (fresh : FreshAll utxo block.transactions) :
    final.totalValue = utxo.totalValue + Emission.cappedReward height.toNat + gasFees block.transactions := by
  obtain ⟨summed, covered⟩ := calculated_fees accepted
  have change := total_after_all (fun _ _ found => found) summed applied fresh
  have amount := block_total_reward_ok accepted granted
  rw [coinbases] at paid
  omega

/-- The fees of an accepted block are all paid by somebody exactly when no transaction promises gas: its
gas fee goes to the coinbase on top of what its inputs leave over. -/
theorem fees_kept_iff {block : BlockNode} {utxo : UtxoSet} {fees : UInt64}
    (accepted : calculateAcceptedFees block utxo = .ok fees) :
    FeesKept block utxo fees ↔ ∀ tx ∈ block.transactions, tx.isCoinbase = false → gasFee tx = 0 := by
  obtain ⟨_, sum⟩ := calculated_fees accepted
  rw [← gas_fees_zero]
  constructor
  · intro kept
    have covered := kept.covered
    omega
  · intro free
    refine ⟨by omega, fun height reward final granted paid applied fresh => ?_⟩
    rw [minted_by_block accepted granted paid applied fresh, free, Nat.add_zero]

end Kept

section Runs
open Klomang.Sample StateManager

/-- A coin of five. -/
def purse : UtxoSet := ⟨Finmap.insert coin ⟨5, .replicate 9⟩ ∅⟩

/-- A block with a coinbase of each of the values and the transactions. -/
def minting (values : List UInt64) (txs : List Transaction) : BlockNode :=
  blockOf (values.map Sample.reward ++ txs)

/-- A payment of a value that promises some gas at a price of seven. -/
def fuelled (value gas : UInt64) : Transaction := { payment value with gasLimit := gas, maxFeePerGas := 7 }

/-- A payment of three out of five leaves a fee of two. -/
theorem fees_of_payment :
    calculateAcceptedFees (minting [] [fuelled 3 0]) purse = .ok 2 ∧
      FeesKept (minting [] [fuelled 3 0]) purse 2 := by
  have accepted : calculateAcceptedFees (minting [] [fuelled 3 0]) purse = .ok 2 := by decide +kernel
  exact ⟨accepted, (fees_kept_iff accepted).mpr (by decide +kernel)⟩

/-- A payment of five out of five leaves nothing over, yet a gas of one is a fee of seven. -/
theorem fees_of_gas :
    calculateAcceptedFees (minting [] [fuelled 5 1]) purse = .ok 7 ∧
      ¬ FeesKept (minting [] [fuelled 5 1]) purse 7 := by
  refine ⟨by decide +kernel, fun kept => ?_⟩
  have covered := kept.covered
  revert covered
  decide +kernel

/-- A single coinbase is all that its block mints. -/
theorem single_coinbase_bounded :
    validateCoinbaseReward (minting [5] []) 5 = .ok () ∧
      ((coinbases (minting [5] [])).map outputValue).sum = 5 := by
  have valid : validateCoinbaseReward (minting [5] []) 5 = .ok () := by decide +kernel
  exact ⟨valid, (coinbases_bounded_iff valid).mpr (by decide +kernel)⟩

/-- A second coinbase mints what it likes. -/
theorem second_coinbase_unbounded :
    validateCoinbaseReward (minting [5, 7] []) 5 = .ok () ∧
      ((coinbases (minting [5, 7] [])).map outputValue).sum ≠ 5 := by
  constructor <;> decide +kernel

end Runs
end Klomang.Reward
