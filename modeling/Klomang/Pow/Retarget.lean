import Klomang.Lib.Rounding
import Klomang.Lib.Runs
import Klomang.Pow.Miner
import Mathlib.Algebra.Order.BigOperators.Group.List

/-! `Pow::calculate_next_difficulty`: the next difficulty from the timestamps of the last blocks. The target is one second
and every interval counts one second at least, so the difficulty can only fall; how far, a step limits. -/
namespace Klomang.Pow
open Rounding
variable {pow : Pow} {timestamps : List UInt64} {next : UInt64}

/-- The seconds from each timestamp to the next one, one at least. -/
def intervals : List UInt64 → List Nat
  | previous :: current :: rest => max (current.toNat - previous.toNat) 1 :: intervals (current :: rest)
  | _ => []

/-- `clamp(1, u64::MAX / 2)`. -/
def clamped (difficulty : Nat) : UInt64 := .ofNat (max 1 (min difficulty (2 ^ 63 - 1)))

/-- The difficulty times the target of one second over the average interval. -/
def scaled (difficulty total count : Nat) : Nat :=
  let sma := double (double total / double count)
  toU64 (round (double (double difficulty * double (1 / sma))))

/-- `calculate_next_difficulty`, in a build where a sum that overflows is a panic. -/
def calculateNextDifficulty (pow : Pow) (blockTimestamps : List UInt64) : Option UInt64 :=
  let difficulty := pow.difficulty.toNat
  if blockTimestamps.length < 2 then some (clamped difficulty)
  else
    let diffs := intervals blockTimestamps
    if 2 ^ 64 ≤ diffs.sum then none
    else
      let next := scaled difficulty diffs.sum diffs.length
      let maxStep := max (difficulty / 2) 1
      let raised := min (difficulty + maxStep) (2 ^ 64 - 1)
      if raised < next then some (clamped raised)
      else if 2 ^ 64 ≤ next + maxStep then none
      else if next + maxStep < difficulty then some (clamped (difficulty - maxStep))
      else some (clamped next)

theorem length_intervals (timestamps : List UInt64) : (intervals timestamps).length = timestamps.length - 1 := by
  induction timestamps with
  | nil => rfl
  | cons previous rest ih =>
    cases rest with
    | nil => rfl
    | cons current rest => simpa [intervals] using ih

/-- Every interval counts. -/
theorem count_le_sum (timestamps : List UInt64) : (intervals timestamps).length ≤ (intervals timestamps).sum := by
  apply List.length_le_sum_of_one_le
  induction timestamps with
  | nil => exact fun _ listed => nomatch listed
  | cons previous rest ih =>
    cases rest with
    | nil => exact fun _ listed => nomatch listed
    | cons current rest =>
      rw [intervals]
      exact List.forall_mem_cons.mpr ⟨le_max_right _ _, ih⟩

theorem to_nat_clamped (difficulty : Nat) : (clamped difficulty).toNat = max 1 (min difficulty (2 ^ 63 - 1)) :=
  UInt64.toNat_ofNat_of_lt' (show max 1 (min difficulty (2 ^ 63 - 1)) < 2 ^ 64 by omega)

/-- The average is one second at least, so scaling does not raise the difficulty. -/
theorem scaled_le {difficulty total count : Nat} (moderate : difficulty < 2 ^ 53) (some : 0 < count) (counted : count ≤ total) :
    scaled difficulty total count ≤ difficulty := by
  have average := one_le_quotient some counted
  have positive := zero_lt_one.trans_le average
  have factor := quotient_le_one zero_le_one positive average
  have reached := to_u64_round_mono (double_mul_le moderate (double_nonneg (div_nonneg zero_le_one positive.le)) factor)
  rw [to_u64_round_natCast] at reached
  exact reached.trans (min_le_left _ _)

/-- Below 2^53 the call panics exactly when the intervals overflow. What it answers otherwise is never above the
difficulty, and not more than one step below it. -/
theorem next_difficulty_falls (pow : Pow) (timestamps : List UInt64) (least : 1 ≤ pow.difficulty.toNat)
    (moderate : pow.difficulty.toNat < 2 ^ 53) :
    (pow.calculateNextDifficulty timestamps = none ↔ 2 ≤ timestamps.length ∧ 2 ^ 64 ≤ (intervals timestamps).sum) ∧
    ∀ next, pow.calculateNextDifficulty timestamps = some next →
      1 ≤ next.toNat ∧ next.toNat ≤ pow.difficulty.toNat ∧
        pow.difficulty.toNat ≤ next.toNat + max (pow.difficulty.toNat / 2) 1 := by
  rw [calculateNextDifficulty]
  dsimp only
  split
  · rename_i few
    refine ⟨iff_of_false (Option.some_ne_none _) fun both => absurd few (Nat.not_lt.mpr both.1), fun next same => ?_⟩
    rw [← Option.some.inj same, to_nat_clamped]
    omega
  rename_i several
  rw [Nat.not_lt] at several
  split
  · rename_i overflows
    exact ⟨iff_of_true rfl ⟨several, overflows⟩, fun _ nothing => nomatch nothing⟩
  rename_i fits
  have counted : 0 < (intervals timestamps).length := by
    rw [length_intervals]
    omega
  have scaledDown := scaled_le moderate counted (count_le_sum timestamps)
  generalize scaled pow.difficulty.toNat (intervals timestamps).sum (intervals timestamps).length = next at scaledDown
  have answers : ¬ (2 ≤ timestamps.length ∧ 2 ^ 64 ≤ (intervals timestamps).sum) := fun both => fits both.2
  rw [if_neg (by omega), if_neg (by omega)]
  split
  · refine ⟨iff_of_false (Option.some_ne_none _) answers, fun next same => ?_⟩
    rw [← Option.some.inj same, to_nat_clamped]
    omega
  · refine ⟨iff_of_false (Option.some_ne_none _) answers, fun next same => ?_⟩
    rw [← Option.some.inj same, to_nat_clamped]
    omega

/-- Ten seconds a block: as far down as one step goes. -/
theorem slow_blocks_fall :
    (⟨1000⟩ : Pow).calculateNextDifficulty [0, 10, 20] ≠ none ∧
      ∀ next, (⟨1000⟩ : Pow).calculateNextDifficulty [0, 10, 20] = some next → 500 ≤ next.toNat ∧ next.toNat ≤ 1000 := by
  obtain ⟨panics, answers⟩ := next_difficulty_falls ⟨1000⟩ [0, 10, 20] (by decide) (by decide)
  refine ⟨fun panicked => absurd (panics.mp panicked).2 (by decide), fun next answered => ?_⟩
  obtain ⟨_, most, least⟩ := answers next answered
  have thousand : (⟨1000⟩ : Pow).difficulty.toNat = 1000 := rfl
  omega

/-- The target of the next blocks. A call that panics changes nothing. -/
def retarget (pow : Pow) (timestamps : List UInt64) : Pow :=
  match pow.calculateNextDifficulty timestamps with
  | some next => .new next
  | none => pow

theorem retarget_bounds (timestamps : List UInt64) (least : 1 ≤ pow.difficulty.toNat) (moderate : pow.difficulty.toNat < 2 ^ 53) :
    1 ≤ (pow.retarget timestamps).difficulty.toNat ∧
      (pow.retarget timestamps).difficulty.toNat ≤ pow.difficulty.toNat := by
  rw [retarget]
  split
  next next answered =>
    obtain ⟨low, high, _⟩ := (next_difficulty_falls pow timestamps least moderate).2 next answered
    rw [new, to_nat_max, show (1 : UInt64).toNat = 1 from rfl, max_eq_left low]
    exact ⟨low, high⟩
  next => exact ⟨least, le_rfl⟩

end Klomang.Pow
