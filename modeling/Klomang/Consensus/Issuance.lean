import Klomang.Consensus.Coinbase
import Klomang.Consensus.Emission
import Klomang.Consensus.Fees

/-! What a chain of blocks adds to the value of the unspent outputs, and the three places that say how a reward is
shared. -/
namespace Klomang.Reward
open EconomicConstants (burnAddress minerRewardPercent)
open Emission (cappedReward rawBlockReward maxSupply coinUnit halvingInterval rate)
open UtxoSet (outputValue)

/-! A chain of blocks, each paid by the reward of its height. -/
section Chain
variable [Blake3] [SchnorrScheme]

/-- A block at its height, blue or red. -/
structure Entry where
  block : BlockNode
  height : UInt64
  isBlue : Bool

/-- The unspent outputs after the block. -/
def settle (set : UtxoSet) (entry : Entry) : UtxoSet :=
  match applyAll set entry.block.transactions with
  | .ok final => final
  | .error _ => set

/-- The block has a reward, its coinbase is accepted for it, and its transactions can be applied and create their outputs
at free outpoints. -/
structure Settles (set : UtxoSet) (entry : Entry) : Prop where
  rewarded : ∃ reward, blockTotalReward entry.block entry.height entry.isBlue set = .ok reward ∧
    validateCoinbaseReward entry.block reward.toNat = .ok ()
  applied : ∃ final, applyAll set entry.block.transactions = .ok final
  fresh : FreshAll set entry.block.transactions

/-- The subsidy of a blue block. -/
def subsidy (entry : Entry) : Nat := if entry.isBlue then cappedReward entry.height.toNat else 0

/-- The gas that the coinbase of a blue block is paid. -/
def gasMinted (entry : Entry) : Nat := if entry.isBlue then gasFees entry.block.transactions else 0

/-- What the coinbases after the first one pay. -/
def unchecked (entry : Entry) : Nat := ((coinbases entry.block).tail.map outputValue).sum

/-- What the transactions with inputs leave over, each taken in the set that all the ones before it leave. -/
def feesPaid (set : UtxoSet) : List Transaction → Int
  | [] => 0
  | tx :: rest =>
    (if tx.isCoinbase then 0 else (set.spentValue tx : Int) - outputValue tx) + feesPaid (set.after tx) rest

/-- The fees of a red block, which nobody gets. -/
def forgone (set : UtxoSet) (entry : Entry) : List Int :=
  if entry.isBlue then [] else [feesPaid set entry.block.transactions]

variable {set final : UtxoSet} {txs : List Transaction} {entry : Entry} {entries : List Entry}

/-- What a blue block mints. -/
theorem settled_blue (settles : Settles set entry) (blue : entry.isBlue = true) :
    (settle set entry).totalValue = set.totalValue + (subsidy entry + gasMinted entry + unchecked entry) := by
  obtain ⟨⟨reward, granted, valid⟩, ⟨final, applied⟩, fresh⟩ := settles
  obtain ⟨first, rest, listed, paid⟩ := first_coinbase_pays valid
  rw [blue] at granted
  cases accepted : calculateAcceptedFees entry.block set with
  | error error =>
    simp only [blockTotalReward, accepted] at granted
    cases granted
  | ok fees =>
    obtain ⟨summed, covered⟩ := calculated_fees accepted
    have change := total_after_all (fun _ _ found => found) summed applied fresh
    have amount := block_total_reward_ok accepted granted
    have minted : ((entry.block.transactions.filter Transaction.isCoinbase).map outputValue).sum =
        reward.toNat + unchecked entry := by
      rw [unchecked, listed, ← coinbases, listed, List.map_cons, List.sum_cons, paid, List.tail_cons]
    rw [settle, applied, subsidy, gasMinted, if_pos blue, if_pos blue]
    dsimp only
    omega

/-- Transactions that are applied leave over what they do not mint. -/
theorem total_after_applied (applied : applyAll set txs = .ok final) (fresh : FreshAll set txs) :
    (final.totalValue : Int) + feesPaid set txs =
        set.totalValue + ((txs.filter Transaction.isCoinbase).map outputValue).sum ∧
      0 ≤ feesPaid set txs := by
  induction txs generalizing set with
  | nil =>
    cases applied
    simp [feesPaid]
  | cons tx rest ih =>
    obtain ⟨free, later⟩ := fresh
    rw [applyAll] at applied
    rcases moved : set.applyTx tx with ⟨_ | changes, next⟩
    · rw [moved] at applied
      cases applied
    rw [moved] at applied
    dsimp only at applied
    obtain ⟨⟨fee, checked⟩, rfl⟩ := UtxoSet.apply_tx_eq_ok moved
    have change := UtxoSet.total_after (UtxoSet.validated_inputs checked).1 free
    obtain ⟨further, kept⟩ := ih applied later
    rw [feesPaid]
    cases spends : tx.isCoinbase with
    | true =>
      have unspent : set.spentValue tx = 0 := by
        rw [UtxoSet.spentValue, List.isEmpty_iff.mp spends]
        rfl
      rw [if_pos rfl, List.filter_cons_of_pos spends, List.map_cons, List.sum_cons]
      exact ⟨by omega, by omega⟩
    | false =>
      have paid := UtxoSet.validate_tx_fee spends checked
      rw [if_neg Bool.false_ne_true, List.filter_cons_of_neg (by simp [spends])]
      exact ⟨by omega, by omega⟩

/-- A red block mints nothing but its further coinbases, and its fees are lost. -/
theorem settled_red (settles : Settles set entry) (red : entry.isBlue = false) :
    ((settle set entry).totalValue : Int) + feesPaid set entry.block.transactions =
        set.totalValue + unchecked entry ∧
      0 ≤ feesPaid set entry.block.transactions := by
  obtain ⟨⟨reward, granted, valid⟩, ⟨final, applied⟩, fresh⟩ := settles
  obtain ⟨first, rest, listed, paid⟩ := first_coinbase_pays valid
  rw [red] at granted
  cases granted
  obtain ⟨change, kept⟩ := total_after_applied applied fresh
  rw [← coinbases, listed, List.map_cons, List.sum_cons, paid] at change
  rw [settle, applied, unchecked, listed, List.tail_cons]
  exact ⟨change.trans (by simp), kept⟩

/-- What a block adds to the value of the unspent outputs, but for fees that nobody gets. -/
def minted (entry : Entry) : Nat := subsidy entry + gasMinted entry + unchecked entry

/-- What one block adds, and what is forgone in it. -/
theorem settled_step (settles : Settles set entry) :
    ((settle set entry).totalValue : Int) + (forgone set entry).sum = set.totalValue + minted entry ∧
      0 ≤ (forgone set entry).sum := by
  rw [forgone]
  cases colour : entry.isBlue with
  | true =>
    have value := settled_blue settles colour
    simp [minted, value]
  | false =>
    obtain ⟨change, kept⟩ := settled_red settles colour
    simp [minted, subsidy, gasMinted, colour, change, kept]

omit [Blake3] [SchnorrScheme] in
/-- The subsidies of scores that are all different, below the last one that keeps to the cap. -/
theorem subsidies_capped (early : ∀ entry ∈ entries, entry.isBlue = true → entry.height.toNat < 106_000_001_111_500_000)
    (once : ((entries.filter Entry.isBlue).map fun entry => entry.height).Nodup) :
    (entries.map subsidy).sum ≤ maxSupply := by
  have paid := Emission.paid_at_limit (Nat.zero_le 1)
  have blues : (entries.map subsidy).sum =
      (((entries.filter Entry.isBlue).map fun entry => entry.height.toNat).map cappedReward).sum := by
    clear early once
    induction entries with
    | nil => rfl
    | cons entry rest ih =>
      rw [List.map_cons, List.sum_cons, ih, subsidy]
      cases colour : entry.isBlue <;> simp [colour]
  have distinct : ((entries.filter Entry.isBlue).map fun entry => entry.height.toNat).Nodup := by
    have heights := once.map (fun _ _ => UInt64.toNat_inj.mp : Function.Injective UInt64.toNat)
    rwa [List.map_map] at heights
  have below : ((entries.filter Entry.isBlue).map fun entry => entry.height.toNat).toFinset ⊆
      Finset.range (106_000_001_111_500_000 + 0) := by
    intro height member
    obtain ⟨entry, listed, rfl⟩ := List.mem_map.mp (List.mem_toFinset.mp member)
    obtain ⟨inside, blue⟩ := List.mem_filter.mp listed
    exact Finset.mem_range.mpr (early entry inside blue)
  rw [blues, ← List.sum_toFinset _ distinct]
  exact (Finset.sum_le_sum_of_subset below).trans paid.le

end Chain

/-! The reward of a score, as `emission.rs` shares it and as the coinbase pays it. -/
section Shares

/-- `block_reward`, cut to 64 bits. -/
def blockReward (daaScore : UInt64) (activeNodeCount : UInt32) : UInt64 × UInt64 × UInt64 :=
  let total := cappedReward daaScore.toNat
  let miner := total * 80 / 100
  let infra := if activeNodeCount = 0 then 0 else total - miner
  let miner := if activeNodeCount = 0 then total else miner
  let perNode := if activeNodeCount = 0 then 0 else infra / activeNodeCount.toNat
  (UInt64.ofNat miner, UInt64.ofNat infra, UInt64.ofNat perNode)

/-- `validate_reward_split`. -/
def validateRewardSplit (daaScore : UInt64) (activeNodeCount : UInt32) : Bool :=
  let (miner, infra, _) := blockReward daaScore activeNodeCount
  let splitTotal := miner.toNat + infra.toNat
  splitTotal ≤ cappedReward daaScore.toNat

/-- The `block_reward` of the default configuration, in whole coins. -/
def configBlockReward : UInt64 := 100

/-- `calculate_block_reward`, in whole coins. -/
def calculateBlockReward (height : UInt64) : UInt64 :=
  let initialReward := configBlockReward
  let halvings := height / UInt64.ofNat halvingInterval
  if halvings ≥ 64 then 0 else initialReward >>> halvings

theorem capped_reward_le (daaScore : Nat) : cappedReward daaScore ≤ Emission.baseReward := by
  have raw : rawBlockReward daaScore ≤ Emission.baseReward := by
    rw [Emission.raw_block_reward_rate]
    exact Emission.rate_le_base _
  rw [cappedReward]
  split
  · exact Nat.zero_le _
  split
  · omega
  · exact raw

/-- The shares of a score add up to its reward, and the shares of the nodes leave less than one unit a node. -/
theorem block_reward_spec (daaScore : UInt64) (activeNodeCount : UInt32) :
    ∃ miner infra perNode, blockReward daaScore activeNodeCount = (miner, infra, perNode) ∧
      miner.toNat = (if activeNodeCount = 0 then cappedReward daaScore.toNat else minerShare (cappedReward daaScore.toNat)) ∧
      infra.toNat = cappedReward daaScore.toNat - miner.toNat ∧ miner.toNat ≤ cappedReward daaScore.toNat ∧
      perNode.toNat * activeNodeCount.toNat ≤ infra.toNat ∧
      (activeNodeCount ≠ 0 → infra.toNat < (perNode.toNat + 1) * activeNodeCount.toNat) := by
  have most := capped_reward_le daaScore.toNat
  have share := miner_share_le (cappedReward daaScore.toNat)
  have base : Emission.baseReward = 10_000_000_000 := rfl
  rw [blockReward]
  generalize cappedReward daaScore.toNat = total at *
  have whole {value : Nat} (within : value ≤ total) : (UInt64.ofNat value).toNat = value :=
    paid_value within (by omega)
  by_cases inactive : activeNodeCount = 0
  · refine ⟨_, _, _, rfl, ?_⟩
    simp [inactive, whole le_rfl]
  · have some : 0 < activeNodeCount.toNat :=
      Nat.pos_of_ne_zero fun zero => inactive (UInt32.toNat_inj.mp zero)
    have miner : total * 80 / 100 = minerShare total := rfl
    refine ⟨_, _, _, rfl, ?_⟩
    simp only [if_neg inactive, miner]
    have part : (total - minerShare total) / activeNodeCount.toNat ≤ total :=
      (Nat.div_le_self _ _).trans (Nat.sub_le _ _)
    rw [whole share, whole (Nat.sub_le _ _), whole part]
    exact ⟨rfl, rfl, share, Nat.div_mul_le_self _ _, fun _ => by
      rw [Nat.mul_comm]
      exact Nat.lt_mul_div_succ _ some⟩

/-- What the miner gets of a reward. -/
def minerPart (activeNodeCount : UInt32) (totalReward : Nat) : Nat :=
  if activeNodeCount = 0 then totalReward else minerShare totalReward

/-- What `create_coinbase_tx` creates: the miner's part, and the rest for the pool when there is any. -/
theorem create_coinbase_eq [Blake3] (activeNodeCount : UInt32) {minerRewardAddress : Hash}
    {nodeRewardPoolAddress : Option Hash} (minerKept : minerRewardAddress ≠ burnAddress)
    (poolKept : ∀ poolAddr, nodeRewardPoolAddress = some poolAddr → poolAddr ≠ burnAddress) {totalReward : Nat}
    (fits : totalReward ≤ 2 ^ 64 - 1) :
    createCoinbaseTx minerRewardAddress nodeRewardPoolAddress activeNodeCount totalReward =
      .ok (.new [] (⟨UInt64.ofNat (minerPart activeNodeCount totalReward), minerRewardAddress⟩ ::
        if totalReward - minerPart activeNodeCount totalReward = 0 then []
        else [⟨UInt64.ofNat (totalReward - minerPart activeNodeCount totalReward),
          nodeRewardPoolAddress.getD minerRewardAddress⟩])) := by
  have unwrapped : totalReward * minerRewardPercent % 2 ^ 128 / 100 = minerShare totalReward := by
    rw [minerShare, Nat.mod_eq_of_lt]
    rw [minerRewardPercent]
    omega
  rw [createCoinbaseTx, if_neg minerKept, minerPart]
  by_cases inactive : activeNodeCount = 0
  · simp [inactive]
  · have active : activeNodeCount > 0 := UInt32.pos_iff_ne_zero.mpr inactive
    rw [if_neg inactive, if_neg inactive, unwrapped]
    dsimp only
    by_cases none : totalReward - minerShare totalReward = 0
    · rw [if_neg fun both => both.2.ne' none, if_pos none]
    · rw [if_pos ⟨active, Nat.pos_of_ne_zero none⟩, if_neg none]
      cases pool : nodeRewardPoolAddress with
      | some poolAddr => exact if_neg (poolKept poolAddr pool)
      | none => rfl

/-- The shares of `block_reward` are what the coinbase of that reward pays: nothing is lost between them, the check of
the split always passes, and all but less than one unit a node can be given out evenly. -/
theorem shares_agree [Blake3] (daaScore : UInt64) (activeNodeCount : UInt32) {minerRewardAddress : Hash}
    {nodeRewardPoolAddress : Option Hash} (minerKept : minerRewardAddress ≠ burnAddress)
    (poolKept : ∀ poolAddr, nodeRewardPoolAddress = some poolAddr → poolAddr ≠ burnAddress) :
    ∃ miner infra perNode tx, blockReward daaScore activeNodeCount = (miner, infra, perNode) ∧
      createCoinbaseTx minerRewardAddress nodeRewardPoolAddress activeNodeCount (cappedReward daaScore.toNat) = .ok tx ∧
      tx.outputs = ⟨miner, minerRewardAddress⟩ ::
        (if infra = 0 then [] else [⟨infra, nodeRewardPoolAddress.getD minerRewardAddress⟩]) ∧
      miner.toNat + infra.toNat = cappedReward daaScore.toNat ∧ validateRewardSplit daaScore activeNodeCount = true ∧
      perNode.toNat * activeNodeCount.toNat ≤ infra.toNat ∧
      (activeNodeCount ≠ 0 → infra.toNat < (perNode.toNat + 1) * activeNodeCount.toNat) := by
  obtain ⟨miner, infra, perNode, shared, minerIs, infraIs, within, given, rest⟩ := block_reward_spec daaScore activeNodeCount
  have split : validateRewardSplit daaScore activeNodeCount = true := by
    rw [validateRewardSplit, shared]
    dsimp only
    rw [decide_eq_true_iff]
    omega
  have most := capped_reward_le daaScore.toNat
  have fits : cappedReward daaScore.toNat ≤ 2 ^ 64 - 1 := most.trans (by decide)
  have created := create_coinbase_eq activeNodeCount minerKept poolKept fits
  rw [← minerPart] at minerIs
  rw [← minerIs, ← infraIs, UInt64.ofNat_toNat, UInt64.ofNat_toNat] at created
  have zero : infra.toNat = 0 ↔ infra = 0 := by
    rw [← UInt64.toNat_inj]
    rfl
  simp only [zero] at created
  exact ⟨miner, infra, perNode, _, shared, created, rfl, by omega, split, given, rest⟩

/-- The reward of the old calculation: nothing from the seventh halving on. -/
theorem calculate_block_reward_toNat (height : UInt64) :
    (calculateBlockReward height).toNat =
      if 7 ≤ height.toNat / halvingInterval then 0 else 100 >>> (height.toNat / halvingInterval) := by
  have number : (height / UInt64.ofNat halvingInterval).toNat = height.toNat / halvingInterval := by
    rw [UInt64.toNat_div]
    rfl
  have few : ∀ halvings < 64, 100 >>> halvings = if 7 ≤ halvings then 0 else 100 >>> halvings := by decide
  rw [calculateBlockReward]
  by_cases late : height / UInt64.ofNat halvingInterval ≥ 64
  · have many : 64 ≤ height.toNat / halvingInterval := number ▸ UInt64.le_iff_toNat_le.mp late
    rw [if_pos late, if_pos (by omega)]
    rfl
  · have early : height.toNat / halvingInterval < 64 := number ▸ UInt64.lt_iff_toNat_lt.mp (UInt64.not_le.mp late)
    rw [if_neg late, UInt64.toNat_shiftRight, number, Nat.mod_eq_of_lt early]
    exact few _ early

/-- The whole coins of a scheduled reward. -/
theorem rate_coins (interval : Nat) : rate interval / coinUnit = if 7 ≤ interval then 0 else 100 >>> interval := by
  have few : ∀ steps < 129, max (Emission.halve steps Emission.baseReward) Emission.minReward / coinUnit =
      if 7 ≤ steps then 0 else 100 >>> steps := by decide
  rw [rate, few _ (by omega)]
  by_cases late : 7 ≤ interval
  · rw [if_pos late, if_pos (by omega)]
  · rw [if_neg late, if_neg (by omega), Nat.min_eq_left (by omega)]

/-- The two reward schedules agree, in whole coins, exactly but for the first coins that the one of `emission.rs` pays
whenever it starts again. -/
theorem whole_coins_iff (height : UInt64) :
    (calculateBlockReward height).toNat = rawBlockReward height.toNat / coinUnit ↔
      height.toNat / halvingInterval < 2 ^ 32 ∨ 7 ≤ height.toNat / halvingInterval % 2 ^ 32 := by
  have paid : ∀ halvings < 7, 100 >>> halvings ≠ 0 := by decide
  rw [calculate_block_reward_toNat, Emission.raw_block_reward_rate, rate_coins]
  generalize height.toNat / halvingInterval = interval
  by_cases round : interval < 2 ^ 32
  · rw [Nat.mod_eq_of_lt round]
    exact iff_of_true rfl (.inl round)
  · rw [if_pos (by omega)]
    by_cases late : 7 ≤ interval % 2 ^ 32
    · exact iff_of_true (if_pos late).symm (.inr late)
    · rw [if_neg late]
      refine iff_of_false (fun same => paid _ (by omega) same.symm) (by omega)

end Shares

section Witness
open Klomang.Sample

/-- A blue block at height zero and a red one that pays its coinbase nothing. -/
def firstTwo : List Entry := [⟨minting [10_000_000_000] [], 0, true⟩, ⟨minting [0] [], 1, false⟩]

/-- Of the first reward of ten billion units the nodes get two. -/
theorem first_reward_shared :
    ∃ miner infra perNode tx, blockReward 0 3 = (miner, infra, perNode) ∧
      createCoinbaseTx (.replicate 1) (some (.replicate 2)) 3 (cappedReward 0) = .ok tx ∧
      tx.outputs = ⟨miner, .replicate 1⟩ :: (if infra = 0 then [] else [⟨infra, .replicate 2⟩]) ∧
      miner.toNat + infra.toNat = cappedReward 0 ∧ validateRewardSplit 0 3 = true ∧
      perNode.toNat * 3 ≤ infra.toNat ∧ (3 ≠ (0 : UInt32) → infra.toNat < (perNode.toNat + 1) * 3) :=
  shares_agree 0 3 (by decide) (fun _ same => Option.some.inj same ▸ by decide)

end Witness
end Klomang.Reward
