import Klomang.Consensus.Emission

/-! The table of `total_emitted` against the rewards that `capped_reward` grants. The table goes on at the minimum
where the reward loop, whose number of intervals is cut to 32 bits, starts again: from there on the scores of the
first 33 intervals of every round are granted more than the table counts, until it has reached the cap. -/
namespace Klomang.Emission

section Table

/-- What the table counts without the cap. -/
def tabulated (daaScore : Nat) : Nat := ∑ score ∈ Finset.range daaScore, rate (score / halvingInterval)

theorem tabulated_succ (daaScore : Nat) :
    tabulated (daaScore + 1) = tabulated daaScore + rate (daaScore / halvingInterval) :=
  Finset.sum_range_succ _ _

/-- The table, up to the cap. No product or sum saturates below it. -/
theorem total_emitted_eq (daaScore : Nat) : totalEmitted daaScore = min (tabulated daaScore) maxSupply := by
  have part : daaScore % halvingInterval ≤ halvingInterval := (Nat.mod_lt _ (by decide)).le
  have counted : tabulated daaScore = emittedBy (daaScore / halvingInterval) (daaScore % halvingInterval) := by
    have scores := Schedule.sum_intervals rate (by decide) (daaScore / halvingInterval) part
    rw [Nat.div_add_mod'] at scores
    rw [tabulated, scores, emitted_by_rates]
  have wide : maxSupply ≤ u128Max := by decide
  rw [counted, totalEmitted]
  split
  · rename_i zero
    rw [zero]
    rfl
  · rw [emittedBy]
    dsimp only
    generalize daaScore % halvingInterval * _ = remainder
    omega

/-- The reward, up to what is left. -/
theorem capped_reward_eq (daaScore : Nat) :
    cappedReward daaScore = min (rate (daaScore / halvingInterval % 2 ^ 32)) (maxSupply - totalEmitted daaScore) := by
  rw [cappedReward, raw_block_reward_rate]
  split
  · omega
  · split <;> omega

/-- The interval after which the minimum is reached. -/
theorem two_le_rate : ∀ interval < 33, 2 ≤ rate interval := by decide

/-- The reward loop and the table agree, unless the loop has started again and not yet come to the minimum. -/
theorem rate_wrapped {interval : Nat} (agree : interval < 2 ^ 32 ∨ 33 ≤ interval % 2 ^ 32) :
    rate (interval % 2 ^ 32) = rate interval := by
  by_cases low : interval < 2 ^ 32
  · rw [Nat.mod_eq_of_lt low]
  · have settled := agree.resolve_left low
    rw [rate_tail settled, rate_tail (settled.trans (Nat.mod_le _ _))]

theorem rate_restarted {interval : Nat} (restarted : ¬ (interval < 2 ^ 32 ∨ 33 ≤ interval % 2 ^ 32)) :
    rate interval = 1 ∧ 2 ≤ rate (interval % 2 ^ 32) := by
  rw [not_or, not_lt, not_le] at restarted
  refine ⟨rate_tail ?_, two_le_rate _ restarted.2⟩
  omega

/-- The loop never grants less than the table counts. -/
theorem rate_le_wrapped (interval : Nat) : rate interval ≤ rate (interval % 2 ^ 32) := by
  by_cases agree : interval < 2 ^ 32 ∨ 33 ≤ interval % 2 ^ 32
  · exact (rate_wrapped agree).ge
  · have restarted := rate_restarted agree
    omega

/-- From the thirty-fourth interval on the table counts one for every score. -/
theorem tabulated_late {daaScore : Nat} (late : 34 ≤ daaScore / halvingInterval) :
    tabulated daaScore = 1_999_999_995_500_000 + daaScore := by
  have early : daaScore % halvingInterval ≤ halvingInterval := (Nat.mod_lt _ (by decide)).le
  have scores := Schedule.sum_intervals rate (by decide) (daaScore / halvingInterval) early
  have split := Nat.div_add_mod' daaScore halvingInterval
  rw [split, sum_rates late, rate_tail (by omega), minReward, Nat.mul_one] at scores
  rw [tabulated, scores]
  conv_rhs => rw [← split]
  generalize daaScore / halvingInterval = full at late ⊢
  obtain ⟨more, rfl⟩ := Nat.exists_eq_add_of_le late
  rw [Nat.add_sub_cancel_left, halvingInterval]
  omega

/-- Granted and counted rewards, both up to the cap. -/
theorem granted_eq (daaScore : Nat) :
    totalEmitted daaScore + cappedReward daaScore =
      min (tabulated daaScore + rate (daaScore / halvingInterval % 2 ^ 32)) maxSupply := by
  rw [capped_reward_eq, total_emitted_eq]
  omega

theorem counted_eq (daaScore : Nat) :
    totalEmitted (daaScore + 1) = min (tabulated daaScore + rate (daaScore / halvingInterval)) maxSupply := by
  rw [total_emitted_eq, tabulated_succ]

/-- The scores at which the table counts what is granted. -/
def Matches (daaScore : Nat) : Prop :=
  daaScore / halvingInterval < 2 ^ 32 ∨ 33 ≤ daaScore / halvingInterval % 2 ^ 32 ∨ 598_000_000_004_499_999 ≤ daaScore

theorem matches_iff (daaScore : Nat) :
    totalEmitted (daaScore + 1) = totalEmitted daaScore + cappedReward daaScore ↔ Matches daaScore := by
  rw [granted_eq, counted_eq, Matches, ← or_assoc]
  by_cases agree : daaScore / halvingInterval < 2 ^ 32 ∨ 33 ≤ daaScore / halvingInterval % 2 ^ 32
  · exact iff_of_true (by rw [rate_wrapped agree]) (.inl agree)
  · obtain ⟨least, more⟩ := rate_restarted agree
    have cap : maxSupply = 600_000_000_000_000_000 := rfl
    rw [or_iff_right agree, tabulated_late (by omega), least, cap]
    omega

/-- The table grows by no more than is granted. -/
theorem counted_le (daaScore : Nat) : totalEmitted (daaScore + 1) ≤ totalEmitted daaScore + cappedReward daaScore := by
  have less := rate_le_wrapped (daaScore / halvingInterval)
  rw [granted_eq, counted_eq]
  omega

/-- The table counts what is granted at a score exactly when the number of its interval fits in 32 bits, or is past
the halvings when it is cut to 32 bits, or nothing more than one unit is left; and it counts what has been granted
before a score exactly up to the first one whose interval does not fit. -/
theorem table_matches_iff (daaScore : Nat) :
    (totalEmitted (daaScore + 1) = totalEmitted daaScore + cappedReward daaScore ↔ Matches daaScore) ∧
      (totalEmitted daaScore = ∑ score ∈ Finset.range daaScore, cappedReward score ↔
        daaScore ≤ 2 ^ 32 * halvingInterval) := by
  refine ⟨matches_iff daaScore, ?_⟩
  have interval : halvingInterval = 100_000 := rfl
  rw [Schedule.total_eq_paid_iff rfl counted_le]
  constructor
  · intro steps
    by_contra beyond
    -- the first score of the interval that is cut to zero
    have first := (matches_iff _).mp (steps (2 ^ 32 * halvingInterval) (by omega))
    rw [Matches, interval] at first
    omega
  · intro early score before
    refine (matches_iff score).mpr (.inl ?_)
    rw [interval] at *
    omega

/-- At the first score after 2^32 intervals the first reward is granted again, and the table counts one unit. -/
theorem restarted_reward :
    cappedReward 429_496_729_600_000 = 10_000_000_000 ∧
      totalEmitted (429_496_729_600_000 + 1) = totalEmitted 429_496_729_600_000 + 1 ∧
      totalEmitted (429_496_729_600_000 + 1) ≠ totalEmitted 429_496_729_600_000 + cappedReward 429_496_729_600_000 := by
  decide

end Table
end Klomang.Emission
