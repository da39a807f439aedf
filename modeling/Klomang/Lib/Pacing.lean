import Klomang.Lib.Runs
import Mathlib.Algebra.Order.Group.Abs
import Mathlib.Algebra.Order.Ring.Int

/-! A level that moves by one at most, and only when some time has passed since it moved last: however many inputs a run
has, the level drifts no faster than the clock allows. -/
namespace Klomang.Pacing
variable {State Input : Type} {step : State → Input → State} {reading : Input → Option ℕ} {last : State → ℕ}
  {level : State → ℤ} {interval : ℕ} {start : State} {inputs : List Input}

/-- A step leaves the level, or moves it by one at most, an interval after it moved last. -/
def Paced (step : State → Input → State) (reading : Input → Option ℕ) (last : State → ℕ) (level : State → ℤ)
    (interval : ℕ) (state : State) (input : Input) : Prop :=
  (last (step state input) = last state ∧ level (step state input) = level state) ∨
    ∃ time, reading input = some time ∧ last state + interval ≤ time ∧ last (step state input) = time ∧
      |level (step state input) - level state| ≤ 1

/-- Between two times the level drifts by one for every interval, and one more. -/
theorem drift_le (paced : Runs.Meets step start (Paced step reading last level interval) inputs) {since till : ℕ}
    (within : ∀ input ∈ inputs, ∀ time, reading input = some time → since ≤ time ∧ time ≤ till) :
    |level (Runs.run step start inputs) - level start| * interval ≤ (till - since : ℕ) + interval := by
  -- once the level has moved, it is the time of its last move that bounds it
  have moved : level (Runs.run step start inputs) = level start ∨
      since ≤ last (Runs.run step start inputs) ∧ last (Runs.run step start inputs) ≤ till ∧
        |level (Runs.run step start inputs) - level start| * interval ≤
          (last (Runs.run step start inputs) - since : ℕ) + interval := by
    induction inputs using List.reverseRecOn with
    | nil => exact .inl rfl
    | append_singleton inputs input ih =>
      obtain ⟨earlier, here⟩ := (Runs.meets_snoc inputs input).mp paced
      have before := ih earlier fun other member => within other (List.mem_append_left _ member)
      rw [Runs.run_snoc]
      generalize Runs.run step start inputs = state at here before ⊢
      rcases here with ⟨sameLast, sameLevel⟩ | ⟨time, read, waited, lastIs, one⟩
      · rw [sameLast, sameLevel]
        exact before
      · obtain ⟨after, upto⟩ := within input (by simp) time read
        rw [lastIs]
        refine .inr ⟨after, upto, ?_⟩
        rcases before with same | ⟨sinceLast, _, bound⟩
        · rw [same] at one
          have least := Int.mul_le_mul_of_nonneg_right one (Int.natCast_nonneg interval)
          omega
        · have triangle := abs_sub_le (level (step state input)) (level state) (level start)
          have sum : |level (step state input) - level start| * (interval : ℤ) ≤
              (1 + |level state - level start|) * interval :=
            Int.mul_le_mul_of_nonneg_right (by omega) (Int.natCast_nonneg interval)
          rw [Int.add_mul, Int.one_mul] at sum
          omega
  rcases moved with same | ⟨_, _, bound⟩
  · rw [same, Int.sub_self, abs_zero, Int.zero_mul]
    omega
  · omega

end Klomang.Pacing
