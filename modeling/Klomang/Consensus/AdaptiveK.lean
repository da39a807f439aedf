import Klomang.Consensus.GhostDag
import Klomang.Lib.Pacing
import Klomang.Lib.Rounding

/-! The adaptive parameter of GHOSTDAG: `update_network_load`, `adjust_k` and `new_adaptive`. The clock is an argument, and
a load is a number of double precision, an infinity or not a number. -/
namespace Klomang.AdaptiveK
open Rounding (double)

/-- An `f64`. -/
inductive Load where
  | nan
  | below
  | finite (number : ℚ)
  | above
  deriving DecidableEq

/-- `clamp(0.0, 1.0)`. -/
def Load.clamp : Load → Load
  | .nan => .nan
  | .below => .finite 0
  | .finite number => .finite (max 0 (min number 1))
  | .above => .finite 1

/-- `load > threshold`. -/
def Load.exceeds (threshold : ℚ) : Load → Bool
  | .finite number => threshold < number
  | .above => true
  | _ => false

/-- `load < threshold`. -/
def Load.fallsBelow (threshold : ℚ) : Load → Bool
  | .finite number => number < threshold
  | .below => true
  | _ => false

/-- `GhostDag` with its load metric. -/
structure Adaptive extends GhostDag where
  networkLoad : Load
  lastAdjustmentTime : UInt64

/-- `K_MIN`. -/
def kMin : Nat := 1

/-- `K_MAX`. -/
def kMax : Nat := 64

/-- `ADJUSTMENT_INTERVAL`. -/
def adjustmentInterval : UInt64 := 3600

/-- `HIGH_LOAD_THRESHOLD`. -/
def highLoadThreshold : ℚ := double (4 / 5)

/-- `LOW_LOAD_THRESHOLD`. -/
def lowLoadThreshold : ℚ := double (1 / 5)

example : highLoadThreshold = 3602879701896397 / 4503599627370496 := by decide +kernel

/-- `GhostDag::new`. -/
def Adaptive.new (k : Nat) : Adaptive := ⟨.new k, .finite 0, 0⟩

/-- `update_network_load`. -/
def Adaptive.updateNetworkLoad (ghostDag : Adaptive) (load : Load) : Adaptive := { ghostDag with networkLoad := load.clamp }

/-- `Default for GhostDag`. -/
def Adaptive.default : Adaptive := .new 1

/-- What the load makes of a parameter. Neither the sum nor the difference leaves a `usize`: every parameter is within its
bounds. -/
def adjusted (load : Load) (k : Nat) : Nat :=
  if load.exceeds highLoadThreshold then min (k + 1) kMax
  else if load.fallsBelow lowLoadThreshold then max (k - 1) kMin
  else k

/-- `adjust_k`. The difference of the times wraps when the clock went back behind the last adjustment. -/
def Adaptive.adjustK (ghostDag : Adaptive) (currentTime : UInt64) : Adaptive :=
  if currentTime - ghostDag.lastAdjustmentTime < adjustmentInterval then ghostDag
  else
    let newK := adjusted ghostDag.networkLoad ghostDag.k
    if newK ≠ ghostDag.k then { ghostDag with k := newK, lastAdjustmentTime := currentTime } else ghostDag

/-- `new_adaptive`. -/
def Adaptive.newAdaptive (initialLoad : Load) (currentTime : UInt64) : Adaptive :=
  ((Adaptive.new 1).updateNetworkLoad initialLoad).adjustK currentTime

/-- A call that tunes the parameter. -/
inductive Tuning where
  | updateNetworkLoad (load : Load)
  | adjustK (currentTime : UInt64)

def step (ghostDag : Adaptive) : Tuning → Adaptive
  | .updateNetworkLoad load => ghostDag.updateNetworkLoad load
  | .adjustK currentTime => ghostDag.adjustK currentTime

/-- The parameter of an anticone. -/
def Bounded (ghostDag : Adaptive) : Prop := kMin ≤ ghostDag.k ∧ ghostDag.k ≤ kMax

/-- The clock does not stand behind the last adjustment. -/
def ClockAhead (ghostDag : Adaptive) : Tuning → Prop
  | .adjustK currentTime => ghostDag.lastAdjustmentTime ≤ currentTime
  | _ => True

/-- What a call reads from the clock. -/
def reading : Tuning → Option ℕ
  | .adjustK currentTime => some currentTime.toNat
  | _ => none

section Steps
variable {ghostDag : Adaptive} {load : Load} {k : Nat} {currentTime : UInt64}

/-- One adjustment moves the parameter by one at most, within its bounds. -/
theorem adjusted_spec (low : kMin ≤ k) (high : k ≤ kMax) (load : Load) :
    kMin ≤ adjusted load k ∧ adjusted load k ≤ kMax ∧ adjusted load k ≤ k + 1 ∧ k ≤ adjusted load k + 1 := by
  rw [kMin] at low
  rw [kMax] at high
  rw [adjusted, kMin, kMax]
  split
  · omega
  split <;> omega

/-- What `adjust_k` does: nothing, or one adjustment at the time of the clock. -/
theorem adjust_k_cases (ghostDag : Adaptive) (currentTime : UInt64) :
    ghostDag.adjustK currentTime = ghostDag ∨
      adjustmentInterval ≤ currentTime - ghostDag.lastAdjustmentTime ∧
        ghostDag.adjustK currentTime =
          { ghostDag with k := adjusted ghostDag.networkLoad ghostDag.k, lastAdjustmentTime := currentTime } := by
  rw [Adaptive.adjustK]
  split
  · exact .inl rfl
  next waited =>
    dsimp only
    split
    · exact .inr ⟨UInt64.not_lt.mp waited, rfl⟩
    · exact .inl rfl

theorem step_bounded (bounded : Bounded ghostDag) (call : Tuning) : Bounded (step ghostDag call) := by
  cases call with
  | updateNetworkLoad load => exact bounded
  | adjustK currentTime =>
    rw [step]
    rcases adjust_k_cases ghostDag currentTime with same | ⟨_, moved⟩
    · rw [same]
      exact bounded
    · rw [moved]
      obtain ⟨low, high, _⟩ := adjusted_spec bounded.1 bounded.2 ghostDag.networkLoad
      exact ⟨low, high⟩

theorem new_bounded (k : Nat) : Bounded (.new k) := by
  change 1 ≤ max 1 (min k 64) ∧ max 1 (min k 64) ≤ 64
  omega

theorem new_adaptive_bounded (initialLoad : Load) (currentTime : UInt64) :
    Bounded (Adaptive.newAdaptive initialLoad currentTime) :=
  step_bounded (step_bounded (new_bounded 1) (.updateNetworkLoad initialLoad)) (.adjustK currentTime)

/-- As long as the clock does not go back, the parameter is paced. -/
theorem step_paced (bounded : Bounded ghostDag) {call : Tuning} (ahead : ClockAhead ghostDag call) :
    Pacing.Paced step reading (fun ghostDag => ghostDag.lastAdjustmentTime.toNat) (fun ghostDag => (ghostDag.k : ℤ)) 3600
      ghostDag call := by
  cases call with
  | updateNetworkLoad load => exact .inl ⟨rfl, rfl⟩
  | adjustK currentTime =>
    rw [Pacing.Paced, step]
    rcases adjust_k_cases ghostDag currentTime with same | ⟨waited, moved⟩
    · rw [same]
      exact .inl ⟨rfl, rfl⟩
    · rw [moved]
      have difference := UInt64.toNat_sub_of_le _ _ ahead
      have long : 3600 ≤ (currentTime - ghostDag.lastAdjustmentTime).toNat := UInt64.le_iff_toNat_le.mp waited
      have order := UInt64.le_iff_toNat_le.mp ahead
      obtain ⟨_, _, up, down⟩ := adjusted_spec bounded.1 bounded.2 ghostDag.networkLoad
      refine .inr ⟨currentTime.toNat, rfl, by omega, rfl, abs_le.mpr ⟨?_, ?_⟩⟩ <;> dsimp only <;> omega

end Steps

section Runs
variable {start : Adaptive} {calls : List Tuning}

theorem run_bounded (bounded : Bounded start) (calls : List Tuning) : Bounded (Runs.run step start calls) :=
  Runs.run_keeps Bounded bounded (fun _ call kept => step_bounded kept call) calls

/-- Over any calls the parameter keeps its bounds, whatever the loads are and whatever the clock says; and between two
times, as long as the clock does not go back behind an adjustment, it drifts by at most one an hour, and one more. -/
theorem k_drifts_slowly (bounded : Bounded start) (calls : List Tuning) :
    Bounded (Runs.run step start calls) ∧
      ∀ since till : ℕ, (∀ call ∈ calls, ∀ time, reading call = some time → since ≤ time ∧ time ≤ till) →
        Runs.Meets step start ClockAhead calls →
        |((Runs.run step start calls).k : ℤ) - start.k| * 3600 ≤ (till - since : ℕ) + 3600 := by
  refine ⟨run_bounded bounded calls, fun since till within ahead => ?_⟩
  have paced : Runs.Meets step start (Pacing.Paced step reading (fun ghostDag => ghostDag.lastAdjustmentTime.toNat)
      (fun ghostDag => (ghostDag.k : ℤ)) 3600) calls :=
    fun before call partly => step_paced (run_bounded bounded before) (ahead before call partly)
  have drift := Pacing.drift_le paced within
  rwa [Nat.cast_ofNat] at drift

/-- Calls of `adjust_k` an hour apart, the load unchanged: every one of them adjusts. -/
theorem run_hourly (times : List UInt64) {since : Nat} (reached : start.lastAdjustmentTime.toNat ≤ since)
    (hourly : (since :: times.map UInt64.toNat).IsChain fun earlier later => earlier + 3600 ≤ later) :
    (Runs.run step start (times.map .adjustK)).k = (adjusted start.networkLoad)^[times.length] start.k := by
  induction times generalizing start since with
  | nil => rfl
  | cons time rest ih =>
    obtain ⟨waited, later⟩ := List.isChain_cons_cons.mp hourly
    have ahead : start.lastAdjustmentTime ≤ time := UInt64.le_iff_toNat_le.mpr (by omega)
    have long : ¬ time - start.lastAdjustmentTime < adjustmentInterval := by
      rw [UInt64.not_lt, UInt64.le_iff_toNat_le, UInt64.toNat_sub_of_le _ _ ahead]
      change 3600 ≤ _
      omega
    have moved : (start.adjustK time).k = adjusted start.networkLoad start.k ∧
        (start.adjustK time).networkLoad = start.networkLoad ∧
        (start.adjustK time).lastAdjustmentTime.toNat ≤ time.toNat := by
      rw [Adaptive.adjustK, if_neg long]
      dsimp only
      split
      · exact ⟨rfl, rfl, le_rfl⟩
      next same => exact ⟨(not_not.mp same).symm, rfl, by omega⟩
    obtain ⟨kIs, loadIs, lastIs⟩ := moved
    have rest := ih lastIs later
    rw [loadIs, kIs] at rest
    exact rest

/-- Under a load that stays high the parameter rises by one an hour to its maximum, and under one that stays low it falls
to its minimum. -/
theorem k_follows_load (bounded : Bounded start) (times : List UInt64)
    (hourly : (start.lastAdjustmentTime.toNat :: times.map UInt64.toNat).IsChain fun earlier later =>
      earlier + 3600 ≤ later) :
    (start.networkLoad.exceeds highLoadThreshold = true →
      (Runs.run step start (times.map .adjustK)).k = min (start.k + times.length) kMax) ∧
    (start.networkLoad.exceeds highLoadThreshold = false → start.networkLoad.fallsBelow lowLoadThreshold = true →
      (Runs.run step start (times.map .adjustK)).k = max (start.k - times.length) kMin) ∧
    (start.networkLoad.exceeds highLoadThreshold = false → start.networkLoad.fallsBelow lowLoadThreshold = false →
      (Runs.run step start (times.map .adjustK)).k = start.k) := by
  obtain ⟨low, high⟩ := bounded
  rw [run_hourly times le_rfl hourly]
  rw [kMin] at low
  rw [kMax] at high
  generalize start.k = k at low high ⊢
  generalize times.length = count
  refine ⟨fun rises => ?_, fun steady falls => ?_, fun steady stays => ?_⟩
  · induction count with
    | zero => exact (min_eq_left high).symm
    | succ count ih =>
      rw [Function.iterate_succ_apply', ih, adjusted, if_pos rises, kMax]
      omega
  · induction count with
    | zero => exact (max_eq_left low).symm
    | succ count ih =>
      rw [Function.iterate_succ_apply', ih, adjusted, if_neg (by simp [steady]), if_pos falls, kMin]
      omega
  · induction count with
    | zero => rfl
    | succ count ih =>
      rw [Function.iterate_succ_apply', ih, adjusted, if_neg (by simp [steady]), if_neg (by simp [stays])]

end Runs

section Witness

/-- Two adjustments under full load, an hour apart. -/
def loaded : List Tuning := [.updateNetworkLoad (.finite 1), .adjustK 3600, .adjustK 7200]

/-- They move the parameter by two at most. -/
theorem loaded_drift :
    |((Runs.run step (.new 18) loaded).k : ℤ) - (Adaptive.new 18).k| * 3600 ≤ (7200 - 3600 : ℕ) + 3600 := by
  refine (k_drifts_slowly (new_bounded 18) loaded).2 3600 7200 ?_ ?_
  · intro call member time read
    simp only [loaded, List.mem_cons, List.not_mem_nil, or_false] at member
    rcases member with rfl | rfl | rfl <;> cases read <;> decide
  · refine (Runs.meets_cons _ _).mpr ⟨trivial, (Runs.meets_cons _ _).mpr ⟨?_, (Runs.meets_cons _ _).mpr ⟨?_, Runs.meets_nil⟩⟩⟩
    · change (_ : UInt64) ≤ _
      decide +kernel
    · change (_ : UInt64) ≤ _
      decide +kernel

/-- An idle network takes it down. -/
theorem idle_falls : (Runs.run step (.new 18) ([3600, 7200].map .adjustK)).k = 16 := by
  have falls := (k_follows_load (new_bounded 18) [3600, 7200] (by decide +kernel)).2.1 (by decide +kernel) (by decide +kernel)
  rw [falls]
  decide

end Witness
end Klomang.AdaptiveK
