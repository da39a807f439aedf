import Klomang.Consensus.EconomicConstants
import Klomang.Lib.Schedule
import Mathlib.Algebra.Order.BigOperators.Group.Finset
import Mathlib.Tactic.NormNum

/-! `core/consensus/emission.rs`: the reward schedule and its hard cap. The reward
halves with every interval of scores, but the number of intervals is cut to 32 bits
on the way, so the schedule starts again after 2^32 of them. The closed form that
enforces the cap does not start again. -/
namespace Klomang.Emission

section Schedule

/-- `COIN_UNIT`. -/
def coinUnit : Nat := 100_000_000

/-- `MAX_SUPPLY`. -/
def maxSupply : Nat := EconomicConstants.maxGlobalSupplyNanoSlug

/-- `BASE_REWARD`. -/
def baseReward : Nat := 100 * coinUnit

/-- `HALVING_INTERVAL`. -/
def halvingInterval : Nat := 100_000

/-- `MIN_REWARD`. -/
def minReward : Nat := 1

/-- The loop of `raw_block_reward`, which is left early at the minimum. -/
def halve : Nat → Nat → Nat
  | 0, reward => reward
  | steps + 1, reward =>
    let reward := max (reward / 2) minReward
    if reward = minReward then reward else halve steps reward

/-- `raw_block_reward` of a `u64` score. -/
def rawBlockReward (daaScore : Nat) : Nat :=
  if daaScore = 0 then baseReward
  else
    -- `as u32` keeps the low 32 bits of the number of intervals
    let halvings := daaScore / halvingInterval % 2 ^ 32
    let halvingSteps := min halvings 128
    max (halve halvingSteps baseReward) minReward

/-- `HALVING_REWARDS`. -/
def halvingRewards : List Nat :=
  [10000000000, 5000000000, 2500000000, 1250000000, 625000000, 312500000,
    156250000, 78125000, 39062500, 19531250, 9765625, 4882812, 2441406,
    1220703, 610351, 305175, 152587, 76293, 38146, 19073, 9536, 4768,
    2384, 1192, 596, 298, 149, 74, 37, 18, 9, 4, 2, 1]

/-- `CUMULATIVE_REWARDS`. -/
def cumulativeRewards : List Nat :=
  [10000000000, 15000000000, 17500000000, 18750000000, 19375000000,
    19687500000, 19843750000, 19921875000, 19960937500, 19980468750,
    19990234375, 19995117187, 19997558593, 19998779296, 19999389647,
    19999694822, 19999847409, 19999923702, 19999961848, 19999980921,
    19999990457, 19999995225, 19999997609, 19999998801, 19999999397,
    19999999695, 19999999844, 19999999918, 19999999955, 19999999973,
    19999999982, 19999999986, 19999999988, 19999999989]

/-- `total_emitted` of a `u64` score. -/
def totalEmitted (daaScore : Nat) : Nat :=
  if daaScore = 0 then 0
  else
    let fullIntervals := daaScore / halvingInterval
    let remainderBlocks := daaScore % halvingInterval
    let fullEmitted :=
      if fullIntervals = 0 then 0
      else if fullIntervals ≤ halvingRewards.length then
        cumulativeRewards.getD (fullIntervals - 1) 0 * halvingInterval
      else
        cumulativeRewards.getLast?.getD 0 * halvingInterval +
          (fullIntervals - halvingRewards.length) * minReward * halvingInterval
    let nextReward :=
      if fullIntervals < halvingRewards.length then halvingRewards.getD fullIntervals 0 else minReward
    let remainderEmitted := min (remainderBlocks * nextReward) u128Max
    min (min (fullEmitted + remainderEmitted) u128Max) maxSupply

/-- `capped_reward` of a `u64` score. -/
def cappedReward (daaScore : Nat) : Nat :=
  let currentTotal := totalEmitted daaScore
  let baseReward := rawBlockReward daaScore
  if maxSupply ≤ currentTotal then 0
  else if maxSupply < currentTotal + baseReward then maxSupply - currentTotal
  else baseReward

end Schedule

section Rewards

/-- The reward of an interval that is reached without wrapping. -/
def rate (interval : Nat) : Nat := max (halve (min interval 128) baseReward) minReward

theorem raw_block_reward_rate (daaScore : Nat) :
    rawBlockReward daaScore = rate (daaScore / halvingInterval % 2 ^ 32) := by
  rw [rawBlockReward]
  split
  · rename_i zero
    rw [zero]
    decide
  · rfl

theorem min_reward_le_rate (interval : Nat) : minReward ≤ rate interval := le_max_right _ _

theorem rate_le_base (interval : Nat) : rate interval ≤ baseReward := by
  have below : ∀ steps reward, minReward ≤ reward → halve steps reward ≤ reward := by
    intro steps
    induction steps with
    | zero => exact fun reward _ => le_refl reward
    | succ steps ih =>
      intro reward least
      have halved : max (reward / 2) minReward ≤ reward := max_le (Nat.div_le_self reward 2) least
      rw [halve]
      split
      · exact halved
      · exact (ih _ (le_max_right _ _)).trans halved
  exact max_le (below _ _ (by decide)) (by decide)

/-- The table holds the rewards of the first intervals and their running totals. -/
theorem rewards_tabulated : ∀ interval < 34,
    halvingRewards.getD interval 0 = rate interval ∧
      cumulativeRewards.getD interval 0 = ∑ index ∈ Finset.range (interval + 1), rate index := by
  decide

/-- From the last entry of the table on, the reward is the minimum. -/
theorem rate_tail {interval : Nat} (late : 33 ≤ interval) : rate interval = minReward := by
  have settled : ∀ steps < 129, 33 ≤ steps → max (halve steps baseReward) minReward = minReward := by decide
  exact settled _ (by omega) (by omega)

/-- What the first intervals pay together. -/
theorem sum_rates {count : Nat} (late : 34 ≤ count) :
    ∑ index ∈ Finset.range count, rate index = 19999999989 + (count - 34) := by
  obtain ⟨more, rfl⟩ := Nat.exists_eq_add_of_le late
  have tail : ∀ index ∈ Finset.range more, rate (34 + index) = 1 := fun index _ => rate_tail (by omega)
  have head : ∑ index ∈ Finset.range 34, rate index = 19999999989 := by decide
  rw [Finset.sum_range_add, head, Finset.sum_const_nat tail, Finset.card_range, Nat.mul_one,
    Nat.add_sub_cancel_left]

end Rewards

section Cap

/-- What the closed form counts for full intervals and a part of the next one. -/
def emittedBy (fullIntervals remainderBlocks : Nat) : Nat :=
  (if fullIntervals = 0 then 0
    else if fullIntervals ≤ halvingRewards.length then
      cumulativeRewards.getD (fullIntervals - 1) 0 * halvingInterval
    else
      cumulativeRewards.getLast?.getD 0 * halvingInterval +
        (fullIntervals - halvingRewards.length) * minReward * halvingInterval) +
    remainderBlocks * (if fullIntervals < halvingRewards.length then halvingRewards.getD fullIntervals 0 else minReward)

/-- The closed form adds up the rates of the intervals. -/
theorem emitted_by_rates (fullIntervals remainderBlocks : Nat) :
    emittedBy fullIntervals remainderBlocks =
      (∑ index ∈ Finset.range fullIntervals, rate index) * halvingInterval +
        remainderBlocks * rate fullIntervals := by
  have entries : halvingRewards.length = 34 := rfl
  have last : cumulativeRewards.getLast?.getD 0 = 19999999989 := rfl
  have full : (if fullIntervals = 0 then 0
      else if fullIntervals ≤ 34 then cumulativeRewards.getD (fullIntervals - 1) 0 * halvingInterval
      else 19999999989 * halvingInterval + (fullIntervals - 34) * minReward * halvingInterval) =
      (∑ index ∈ Finset.range fullIntervals, rate index) * halvingInterval := by
    split
    · rename_i first
      rw [first, Finset.sum_range_zero, Nat.zero_mul]
    · split
      · rw [(rewards_tabulated (fullIntervals - 1) (by omega)).2, Nat.sub_add_cancel (by omega)]
      · rw [sum_rates (by omega), minReward, Nat.mul_one, Nat.add_mul]
  have next : (if fullIntervals < 34 then halvingRewards.getD fullIntervals 0 else minReward) =
      rate fullIntervals := by
    split
    · exact (rewards_tabulated fullIntervals (by assumption)).1
    · exact (rate_tail (by omega)).symm
  rw [emittedBy, entries, last, full, next]

/-- The closed form never counts more than the halvings and one unit a score. -/
theorem total_emitted_le (daaScore : Nat) :
    totalEmitted daaScore ≤ 19999999989 * halvingInterval + daaScore := by
  have early : daaScore % halvingInterval < halvingInterval := Nat.mod_lt _ (by decide)
  have counted : totalEmitted daaScore ≤
      emittedBy (daaScore / halvingInterval) (daaScore % halvingInterval) := by
    rw [totalEmitted]
    split
    · exact Nat.zero_le _
    · refine (min_le_left _ _).trans ((min_le_left _ _).trans ?_)
      exact Nat.add_le_add_left (min_le_left _ _) _
  have split := Nat.div_add_mod daaScore halvingInterval
  rw [emitted_by_rates] at counted
  refine counted.trans ?_
  generalize daaScore / halvingInterval = full at *
  generalize daaScore % halvingInterval = part at *
  have paid : ∑ index ∈ Finset.range (full + 1), rate index ≤ 19999999989 + full := by
    rcases Nat.lt_or_ge (full + 1) 34 with low | high
    · have subset : Finset.range (full + 1) ⊆ Finset.range 34 := Finset.range_subset_range.mpr low.le
      have bound : ∑ index ∈ Finset.range (full + 1), rate index ≤ ∑ index ∈ Finset.range 34, rate index :=
        Finset.sum_le_sum_of_subset subset
      rw [sum_rates (le_refl 34)] at bound
      omega
    · rw [sum_rates high]
      omega
  have ahead : part * rate full ≤ halvingInterval * rate full := Nat.mul_le_mul_right _ early.le
  have bound := Nat.mul_le_mul_right halvingInterval paid
  rw [Finset.sum_range_succ, Nat.add_mul, Nat.add_mul] at bound
  rw [Nat.mul_comm (rate full), Nat.mul_comm full] at bound
  omega

/-- As long as the closed form leaves room, every score pays its scheduled reward. -/
theorem capped_reward_scheduled {daaScore : Nat} (low : daaScore ≤ 2 ^ 58) :
    cappedReward daaScore = rate (daaScore / halvingInterval % 2 ^ 32) := by
  have emitted := total_emitted_le daaScore
  have least := min_reward_le_rate (daaScore / halvingInterval % 2 ^ 32)
  have most := rate_le_base (daaScore / halvingInterval % 2 ^ 32)
  have interval : halvingInterval = 100000 := rfl
  have base : baseReward = 10000000000 := rfl
  have cap : maxSupply = 600000000000000000 := rfl
  rw [cappedReward, raw_block_reward_rate, if_neg (by omega), if_neg (by omega)]

/-- What full rounds of the schedule pay, with the intervals of another one. -/
theorem paid_in_rounds (rounds : Nat) {full part : Nat} (late : 34 ≤ full) (within : full ≤ 2 ^ 32)
    (few : part ≤ halvingInterval) :
    ∑ score ∈ Finset.range ((rounds * 2 ^ 32 + full) * halvingInterval + part),
        rate (score / halvingInterval % 2 ^ 32) =
      (rounds * (19999999989 + (2 ^ 32 - 34)) + (19999999989 + (full - 34))) * halvingInterval +
        part * rate ((rounds * 2 ^ 32 + full) % 2 ^ 32) := by
  rw [Schedule.sum_intervals (fun index => rate (index % 2 ^ 32)) (by decide) _ few,
    Schedule.sum_rounds rate (2 ^ 32) rounds full within, sum_rates late, sum_rates (late.trans within)]

/-- After 246 rounds and most of another one, every score paid so far adds up to the cap. -/
theorem paid_at_limit {part : Nat} (few : part ≤ 1) :
    ∑ score ∈ Finset.range (106_000_001_111_500_000 + part), cappedReward score = maxSupply + part := by
  have scheduled : ∀ score ∈ Finset.range (106_000_001_111_500_000 + part),
      cappedReward score = rate (score / halvingInterval % 2 ^ 32) := by
    intro score member
    have before := Finset.mem_range.mp member
    exact capped_reward_scheduled (by omega)
  have late : rate 3438056299 = 1 := rate_tail (by norm_num)
  have rounds : (246 * 2 ^ 32 + 3438056299) * halvingInterval = 106_000_001_111_500_000 := by
    norm_num [halvingInterval]
  have current : (246 * 2 ^ 32 + 3438056299) % 2 ^ 32 = 3438056299 := by norm_num
  have total : (246 * (19999999989 + (2 ^ 32 - 34)) + (19999999989 + (3438056299 - 34))) * halvingInterval =
      maxSupply := by
    norm_num [halvingInterval, maxSupply, EconomicConstants.maxGlobalSupplyNanoSlug]
  have few : part ≤ halvingInterval := few.trans (by decide)
  have early : 34 ≤ 3438056299 := by norm_num
  have within : 3438056299 ≤ 2 ^ 32 := by norm_num
  have paid := paid_in_rounds 246 early within few
  rw [rounds, current, late, total, Nat.mul_one] at paid
  rw [Finset.sum_congr rfl scheduled, paid]

/-- The rewards of all scores below a bound keep to the hard cap up to this bound. -/
theorem emission_capped_iff (n : UInt64) :
    ∑ score ∈ Finset.range n.toNat, cappedReward score ≤ maxSupply ↔ n.toNat ≤ 106_000_001_111_500_000 := by
  have limit := paid_at_limit (Nat.zero_le 1)
  have beyond := paid_at_limit (le_refl 1)
  constructor
  · intro capped
    by_contra past
    have longer : Finset.range (106_000_001_111_500_000 + 1) ⊆ Finset.range n.toNat :=
      Finset.range_subset_range.mpr (by omega)
    have more : ∑ score ∈ Finset.range (106_000_001_111_500_000 + 1), cappedReward score ≤
        ∑ score ∈ Finset.range n.toNat, cappedReward score := Finset.sum_le_sum_of_subset longer
    omega
  · intro early
    have shorter : Finset.range n.toNat ⊆ Finset.range (106_000_001_111_500_000 + 0) :=
      Finset.range_subset_range.mpr (by omega)
    have less : ∑ score ∈ Finset.range n.toNat, cappedReward score ≤
        ∑ score ∈ Finset.range (106_000_001_111_500_000 + 0), cappedReward score :=
      Finset.sum_le_sum_of_subset shorter
    omega

/-- One score further, more than the hard cap has been paid. -/
theorem hard_cap_exceeded :
    ¬ ∑ score ∈ Finset.range (106_000_001_111_500_001 : UInt64).toNat, cappedReward score ≤ maxSupply := by
  have beyond := paid_at_limit (le_refl 1)
  have bound : (106_000_001_111_500_001 : UInt64).toNat = 106_000_001_111_500_000 + 1 := by decide
  rw [bound, beyond]
  omega

end Cap
end Klomang.Emission
