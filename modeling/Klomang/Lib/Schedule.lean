import Mathlib.Algebra.BigOperators.Group.Finset.Basic

/-! Payments by a schedule: a rate that changes once an interval, and rates that
come round again after a number of intervals. A table of totals is the sum of the
payments when it grows by every one of them. -/
namespace Klomang.Schedule

/-- Over whole intervals and a part of the next one, every interval pays its own rate. -/
theorem sum_intervals (rate : Nat → Nat) {interval : Nat} (positive : 0 < interval) (full : Nat) {part : Nat}
    (within : part ≤ interval) :
    ∑ moment ∈ Finset.range (full * interval + part), rate (moment / interval) =
      (∑ index ∈ Finset.range full, rate index) * interval + part * rate full := by
  have inside : ∀ index part, part ≤ interval →
      ∑ moment ∈ Finset.range part, rate ((index * interval + moment) / interval) = part * rate index := by
    intro index part within
    have constant : ∀ moment ∈ Finset.range part,
        rate ((index * interval + moment) / interval) = rate index := by
      intro moment member
      have early : moment < interval := (Finset.mem_range.mp member).trans_le within
      rw [Nat.mul_comm, Nat.mul_add_div positive, Nat.div_eq_of_lt early, Nat.add_zero]
    rw [Finset.sum_const_nat constant, Finset.card_range]
  rw [Finset.sum_range_add, inside full part within]
  congr 1
  induction full with
  | zero => simp
  | succ full ih =>
    rw [Nat.succ_mul, Finset.sum_range_add, ih, inside full interval le_rfl, Finset.sum_range_succ, Nat.add_mul,
      Nat.mul_comm interval]

/-- Rates that come round again pay the same in every round. -/
theorem sum_rounds (rate : Nat → Nat) (period rounds part : Nat) (within : part ≤ period) :
    ∑ index ∈ Finset.range (rounds * period + part), rate (index % period) =
      rounds * ∑ index ∈ Finset.range period, rate index + ∑ index ∈ Finset.range part, rate index := by
  have inside : ∀ round part, part ≤ period →
      ∑ index ∈ Finset.range part, rate ((round * period + index) % period) =
        ∑ index ∈ Finset.range part, rate index := by
    intro round part within
    refine Finset.sum_congr rfl fun index member => ?_
    have early : index < period := (Finset.mem_range.mp member).trans_le within
    rw [Nat.mul_comm, Nat.mul_add_mod, Nat.mod_eq_of_lt early]
  rw [Finset.sum_range_add, inside rounds part within]
  congr 1
  induction rounds with
  | zero => simp
  | succ rounds ih =>
    rw [Nat.succ_mul, Finset.sum_range_add, ih, inside rounds period le_rfl, Nat.succ_mul]

section Totals
variable {total paid : Nat → Nat}

/-- A table of totals that never grows by more than is paid. -/
theorem total_le_paid (start : total 0 = 0) (grows : ∀ moment, total (moment + 1) ≤ total moment + paid moment)
    (moment : Nat) : total moment ≤ ∑ earlier ∈ Finset.range moment, paid earlier := by
  induction moment with
  | zero => exact start.le
  | succ moment ih =>
    rw [Finset.sum_range_succ]
    exact (grows moment).trans (Nat.add_le_add_right ih _)

/-- It is the sum of what was paid exactly when it grew by as much at every moment. -/
theorem total_eq_paid_iff (start : total 0 = 0) (grows : ∀ moment, total (moment + 1) ≤ total moment + paid moment)
    (moment : Nat) :
    total moment = ∑ earlier ∈ Finset.range moment, paid earlier ↔
      ∀ earlier < moment, total (earlier + 1) = total earlier + paid earlier := by
  induction moment with
  | zero => simp [start]
  | succ moment ih =>
    have before := total_le_paid start grows moment
    have last := grows moment
    rw [Finset.sum_range_succ]
    constructor
    · intro whole earlier early
      rcases Nat.lt_succ_iff_lt_or_eq.mp early with sooner | rfl
      · exact ih.mp (by omega) earlier sooner
      · omega
    · intro steps
      rw [steps moment (Nat.lt_succ_self _), ih.mpr fun earlier early => steps earlier (Nat.lt_succ_of_lt early)]

end Totals
end Klomang.Schedule
