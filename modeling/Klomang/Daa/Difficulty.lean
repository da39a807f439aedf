import Klomang.Dag.Shape
import Klomang.Lib.Rounding

/-! `core/daa/difficulty.rs`: the next difficulty, from the intervals between the newest blocks. Doubles are the rational
numbers they stand for, and each operation on them rounds; every value here is in the normal range. -/
namespace Klomang
open Rounding

structure Daa where
  targetTime : UInt64
  windowSize : Nat

namespace Daa

/-- A stored block as the adjustment reads it: hash, timestamp, difficulty. -/
abbrev Observed := Hash × UInt64 × UInt64

def observe (dag : Dag) (hash : Hash) : Option Observed :=
  (dag.getBlock hash).map fun block => (hash, block.header.timestamp, block.header.difficulty)

/-- The stored blocks from the oldest to the newest, those of one timestamp in the order of their hashes. -/
def timeline (dag : Dag) : List Observed :=
  (dag.getAllHashes.filterMap (observe dag)).insertionSort fun left right => left.2.1 ≤ right.2.1

/-- The newest `window_size` of them. -/
def window (daa : Daa) (blocks : List Observed) : List Observed := blocks.drop (blocks.length - daa.windowSize)

def newestDifficulty (blocks : List Observed) : UInt64 := (blocks.getLast?.map fun block => block.2.2).getD 1000

/-- The seconds between two timestamps, one at least. -/
def interval (previous current : UInt64) : Nat := max (current.toNat - previous.toNat) 1

def totalInterval : List Observed → Nat
  | previous :: current :: rest => interval previous.2.1 current.2.1 + totalInterval (current :: rest)
  | _ => 0

/-- `clamp(1, u64::MAX / 2)`. -/
def clamped (difficulty : Nat) : Nat := max 1 (min difficulty (2 ^ 63 - 1))

/-- The factor between the difficulties: target over average, between a half and two. -/
def adjustment (targetTime : UInt64) (total intervals : Nat) : ℚ :=
  let sma := double (double total / double intervals)
  min (max (double (double targetTime.toNat / sma)) (1 / 2)) 2

/-- The next difficulty from the current one. No value is negative, where `round` is that of `f64`. -/
def adjusted (targetTime current : UInt64) (total intervals : Nat) : UInt64 :=
  .ofNat (clamped (toU64 (round (double (double current.toNat * adjustment targetTime total intervals)))))

/-- `calculate_next_difficulty`. -/
def calculateNextDifficulty (daa : Daa) (dag : Dag) (_currentTimestamp : UInt64) : UInt64 :=
  if dag.getAllHashes = [] then 1000
  else
    let blocks := timeline dag
    if blocks.length < 2 then newestDifficulty blocks
    else
      let window := daa.window blocks
      if window.length < 2 then newestDifficulty window
      else adjusted daa.targetTime (newestDifficulty window) (totalInterval window) (window.length - 1)

section Samples

/-- A block without transactions at a time. -/
def stamped (id : UInt8) (parents : Finset Hash) (timestamp difficulty : UInt64) : BlockNode where
  header := ⟨.replicate id, parents, timestamp, difficulty, 0, .replicate 0, none, none⟩
  children := ∅
  selectedParent := none
  blueSet := ∅
  redSet := ∅
  blueScore := 0
  transactions := []

/-- A chain of three blocks with the same interval between them. -/
def paced (interval : UInt64) : Dag :=
  let first := (Dag.new.addBlock (stamped 1 ∅ 0 1000)).2
  let second := (first.addBlock (stamped 2 {.replicate 1} interval 1000)).2
  (second.addBlock (stamped 3 {.replicate 2} (2 * interval) 1000)).2

example : (⟨2, 3⟩ : Daa).calculateNextDifficulty (paced 3) 0 = 667 := by decide +kernel

end Samples

section Adjusting
variable {targetTime current : UInt64} {total further intervals : Nat}

theorem to_nat_adjusted (targetTime current : UInt64) (total intervals : Nat) :
    (adjusted targetTime current total intervals).toNat =
      clamped (toU64 (round (double (double current.toNat * adjustment targetTime total intervals)))) := by
  have fits : clamped (toU64 (round (double (double current.toNat * adjustment targetTime total intervals)))) < 2 ^ 64 := by
    unfold clamped
    omega
  rw [adjusted, UInt64.toNat_ofNat_of_lt' fits]

theorem adjustment_bounds (targetTime : UInt64) (total intervals : Nat) :
    1 / 2 ≤ adjustment targetTime total intervals ∧ adjustment targetTime total intervals ≤ 2 :=
  ⟨le_min (le_max_right _ _) (by norm_num), min_le_right _ _⟩

theorem clamped_mono {low high : Nat} (below : low ≤ high) : clamped low ≤ clamped high := by
  unfold clamped
  omega

/-- One adjustment goes down to a half, rounded up, and up to the double. -/
theorem adjusted_bounds (moderate : current.toNat < 2 ^ 53) (targetTime : UInt64) (total intervals : Nat) :
    (current.toNat + 1) / 2 ≤ (adjusted targetTime current total intervals).toNat ∧
      (adjusted targetTime current total intervals).toNat ≤ max 1 (2 * current.toNat) := by
  obtain ⟨half, twice⟩ := adjustment_bounds targetTime total intervals
  have exact := double_natCast moderate
  have present : (0 : ℚ) ≤ current.toNat := Nat.cast_nonneg _
  rw [to_nat_adjusted, exact]
  constructor
  · have least : double ((current.toNat : ℚ) * (1 / 2)) ≤
        double (current.toNat * adjustment targetTime total intervals) :=
      double_mono (by positivity) (mul_le_mul_of_nonneg_left half present)
    have halved := double_half present
    rw [exact] at halved
    rw [halved] at least
    have reached := to_u64_round_mono least
    have rounds : round ((current.toNat : ℚ) * (1 / 2)) = ((current.toNat + 1) / 2 : ℕ) := by
      rw [round_eq, show (current.toNat : ℚ) * (1 / 2) + 1 / 2 = ((current.toNat + 1 : ℕ) : ℚ) / (2 : ℕ) by push_cast; ring,
        Rat.floor_natCast_div_natCast]
      norm_cast
    rw [rounds, toU64, Int.floor_intCast, Int.toNat_natCast] at reached
    unfold clamped
    omega
  · have most : double (current.toNat * adjustment targetTime total intervals) ≤ double ((current.toNat : ℚ) * 2) :=
      double_mono (mul_nonneg present (le_trans (by norm_num) half)) (mul_le_mul_of_nonneg_left twice present)
    have doubled := double_twice present
    rw [exact] at doubled
    rw [doubled, show (current.toNat : ℚ) * 2 = (current.toNat * 2 : ℕ) by push_cast; rfl] at most
    have reached := to_u64_round_mono most
    rw [to_u64_round_natCast] at reached
    unfold clamped
    omega

theorem average_pos (some : 0 < intervals) (positive : 0 < total) :
    0 < double (double total / double intervals) :=
  double_pos (div_pos (double_pos (Nat.cast_pos.mpr positive)) (double_pos (Nat.cast_pos.mpr some)))

/-- With a target of one second at most the factor is one at most. -/
theorem adjustment_le_one (short : targetTime.toNat ≤ 1) (some : 0 < intervals) (counted : intervals ≤ total) :
    adjustment targetTime total intervals ≤ 1 := by
  have average := one_le_quotient some counted
  have target : double targetTime.toNat ≤ 1 := by
    rw [double_natCast (by omega)]
    exact_mod_cast short
  have ratio := quotient_le_one (double_nonneg (Nat.cast_nonneg _)) (zero_lt_one.trans_le average) (target.trans average)
  exact (min_le_left _ _).trans (max_le ratio (by norm_num))

/-- With a target of one second at most no adjustment raises the difficulty. -/
theorem adjusted_le_current (moderate : current.toNat < 2 ^ 53) (short : targetTime.toNat ≤ 1) (some : 0 < intervals)
    (counted : intervals ≤ total) : (adjusted targetTime current total intervals).toNat ≤ max 1 current.toNat := by
  have least := (adjustment_bounds targetTime total intervals).1
  have factor := adjustment_le_one short some counted
  have reached := to_u64_round_mono (double_mul_le moderate (le_trans (by norm_num) least) factor)
  rw [to_u64_round_natCast] at reached
  rw [to_nat_adjusted]
  unfold clamped
  omega

/-- The longer the intervals, the lower the difficulty. -/
theorem adjusted_antitone (targetTime current : UInt64) (some : 0 < intervals) (positive : 0 < total)
    (longer : total ≤ further) :
    (adjusted targetTime current further intervals).toNat ≤ (adjusted targetTime current total intervals).toNat := by
  have average := average_pos some positive
  have averages : double (double total / double intervals) ≤ double (double further / double intervals) := by
    have divisor : 0 ≤ double intervals := double_nonneg (Nat.cast_nonneg _)
    apply double_mono (div_nonneg (double_nonneg (Nat.cast_nonneg _)) divisor)
    exact div_le_div_of_nonneg_right (double_mono (Nat.cast_nonneg _) (Nat.cast_le.mpr longer)) divisor
  have target : 0 ≤ double targetTime.toNat := double_nonneg (Nat.cast_nonneg _)
  have factors : adjustment targetTime further intervals ≤ adjustment targetTime total intervals := by
    refine min_le_min_right _ (max_le_max_right _ (double_mono ?_ ?_))
    · exact div_nonneg target (average.le.trans averages)
    · exact div_le_div_of_nonneg_left target average averages
  have present : 0 ≤ double current.toNat := double_nonneg (Nat.cast_nonneg _)
  have least : 0 ≤ adjustment targetTime further intervals :=
    le_trans (by norm_num) (adjustment_bounds targetTime further intervals).1
  rw [to_nat_adjusted, to_nat_adjusted]
  exact clamped_mono (to_u64_round_mono (double_mono (mul_nonneg present least)
    (mul_le_mul_of_nonneg_left factors present)))

/-- On target the difficulty stays. -/
theorem adjusted_on_target (moderate : current.toNat < 2 ^ 53) (positive : 0 < targetTime.toNat) (some : 0 < intervals)
    (fits : targetTime.toNat * intervals < 2 ^ 53) :
    (adjusted targetTime current (targetTime.toNat * intervals) intervals).toNat = max 1 current.toNat := by
  have few : intervals < 2 ^ 53 := lt_of_le_of_lt (Nat.le_mul_of_pos_left _ positive) fits
  have low : targetTime.toNat < 2 ^ 53 := lt_of_le_of_lt (Nat.le_mul_of_pos_right _ some) fits
  have average : double (double (targetTime.toNat * intervals : ℕ) / double intervals) = targetTime.toNat := by
    rw [double_natCast fits, double_natCast few, Nat.cast_mul, mul_div_cancel_right₀ _ (Nat.cast_ne_zero.mpr some.ne'),
      double_natCast low]
  have factor : adjustment targetTime (targetTime.toNat * intervals) intervals = 1 := by
    rw [adjustment, average, double_natCast low, div_self (Nat.cast_ne_zero.mpr positive.ne'), double_one]
    norm_num
  rw [to_nat_adjusted, factor, mul_one, double_double (Nat.cast_nonneg _), double_natCast moderate, to_u64_round_natCast]
  unfold clamped
  omega

end Adjusting

section Windows
variable {daa : Daa} {dag : Dag} {blocks : List Observed}

theorem intervals_le_total (blocks : List Observed) : blocks.length - 1 ≤ totalInterval blocks := by
  induction blocks with
  | nil => exact Nat.le_refl 0
  | cons previous rest ih =>
    cases rest with
    | nil => exact Nat.zero_le _
    | cons current rest =>
      have one : 1 ≤ interval previous.2.1 current.2.1 := le_max_right _ _
      rw [totalInterval]
      simp only [List.length_cons] at ih ⊢
      omega

/-- With a window of one block at least the newest block of the window is the newest of all. -/
theorem newest_of_window (some : 1 ≤ daa.windowSize) (blocks : List Observed) :
    newestDifficulty (daa.window blocks) = newestDifficulty blocks := by
  cases blocks with
  | nil => rw [window, List.drop_nil]
  | cons first rest =>
    have present : first :: rest ≠ [] := List.cons_ne_nil _ _
    have short : (first :: rest).length - daa.windowSize < (first :: rest).length :=
      Nat.sub_lt (List.length_pos_of_ne_nil present) some
    rw [newestDifficulty, newestDifficulty, window, List.getLast?_drop, if_neg (Nat.not_le.mpr short)]

/-- Without the case of an empty graph, which answers what the next test would. -/
theorem calculate_eq (daa : Daa) (dag : Dag) (now : UInt64) :
    daa.calculateNextDifficulty dag now =
      if (timeline dag).length < 2 then newestDifficulty (timeline dag)
      else if (daa.window (timeline dag)).length < 2 then newestDifficulty (daa.window (timeline dag))
      else adjusted daa.targetTime (newestDifficulty (daa.window (timeline dag)))
        (totalInterval (daa.window (timeline dag))) ((daa.window (timeline dag)).length - 1) := by
  rw [calculateNextDifficulty]
  split
  · rename_i empty
    rw [timeline, empty]
    rfl
  · rfl

/-- The answer is the difficulty of the newest block, or an adjustment of it over intervals that count a second at least. -/
theorem calculate_cases (some : 1 ≤ daa.windowSize) (dag : Dag) (now : UInt64) :
    daa.calculateNextDifficulty dag now = newestDifficulty (timeline dag) ∨
      ∃ total intervals, 0 < intervals ∧ intervals ≤ total ∧
        daa.calculateNextDifficulty dag now =
          adjusted daa.targetTime (newestDifficulty (timeline dag)) total intervals := by
  rw [calculate_eq, newest_of_window some]
  split
  · exact .inl rfl
  split
  · exact .inl rfl
  rename_i several
  exact .inr ⟨_, _, by omega, intervals_le_total _, rfl⟩

/-- The next difficulty lies between the half, rounded up, and the double of the newest block's, and with a target of one
second at most it does not lie above it. -/
theorem next_difficulty_step (daa : Daa) (dag : Dag) (now : UInt64) (some : 1 ≤ daa.windowSize)
    (least : 1 ≤ (newestDifficulty (timeline dag)).toNat) (moderate : (newestDifficulty (timeline dag)).toNat < 2 ^ 53) :
    ((newestDifficulty (timeline dag)).toNat + 1) / 2 ≤ (daa.calculateNextDifficulty dag now).toNat ∧
      (daa.calculateNextDifficulty dag now).toNat ≤ 2 * (newestDifficulty (timeline dag)).toNat ∧
      (daa.targetTime.toNat ≤ 1 →
        (daa.calculateNextDifficulty dag now).toNat ≤ (newestDifficulty (timeline dag)).toNat) := by
  rcases calculate_cases some dag now with same | ⟨total, intervals, positive, counted, adjusts⟩
  · rw [same]
    omega
  · obtain ⟨low, high⟩ := adjusted_bounds moderate daa.targetTime total intervals
    rw [adjusts]
    refine ⟨low, by omega, fun short => ?_⟩
    have kept := adjusted_le_current moderate short positive counted
    omega

/-- Too fast, and the difficulty is doubled; with a target of one second it stays at best. -/
theorem paced_step :
    (500 ≤ ((⟨2, 3⟩ : Daa).calculateNextDifficulty (paced 1) 0).toNat ∧
      ((⟨2, 3⟩ : Daa).calculateNextDifficulty (paced 1) 0).toNat ≤ 2000) ∧
    ((⟨1, 3⟩ : Daa).calculateNextDifficulty (paced 0) 0).toNat ≤ 1000 := by
  obtain ⟨low, high, _⟩ := next_difficulty_step ⟨2, 3⟩ (paced 1) 0 (by decide) (by decide +kernel) (by decide +kernel)
  obtain ⟨_, _, most⟩ := next_difficulty_step ⟨1, 3⟩ (paced 0) 0 (by decide) (by decide +kernel) (by decide +kernel)
  have fast : newestDifficulty (timeline (paced 1)) = 1000 := by decide +kernel
  have faster : newestDifficulty (timeline (paced 0)) = 1000 := by decide +kernel
  rw [fast] at low high
  rw [faster] at most
  exact ⟨⟨low, high⟩, most (by decide)⟩

/-- Of two graphs with as many blocks in the window and the same difficulty, the one with the longer intervals gets the
lower difficulty; and where the intervals add up to the target the difficulty stays. -/
theorem next_difficulty_responds (daa : Daa) (dag other : Dag) (now later : UInt64)
    (several : 2 ≤ (daa.window (timeline dag)).length)
    (alike : (daa.window (timeline other)).length = (daa.window (timeline dag)).length)
    (current : newestDifficulty (daa.window (timeline other)) = newestDifficulty (daa.window (timeline dag))) :
    (totalInterval (daa.window (timeline dag)) ≤ totalInterval (daa.window (timeline other)) →
      (daa.calculateNextDifficulty other later).toNat ≤ (daa.calculateNextDifficulty dag now).toNat) ∧
    (totalInterval (daa.window (timeline dag)) = daa.targetTime.toNat * ((daa.window (timeline dag)).length - 1) →
      totalInterval (daa.window (timeline dag)) < 2 ^ 53 →
      (newestDifficulty (daa.window (timeline dag))).toNat < 2 ^ 53 →
      (daa.calculateNextDifficulty dag now).toNat = max 1 (newestDifficulty (daa.window (timeline dag))).toNat) := by
  have answers : ∀ graph time, 2 ≤ (daa.window (timeline graph)).length →
      daa.calculateNextDifficulty graph time = adjusted daa.targetTime (newestDifficulty (daa.window (timeline graph)))
        (totalInterval (daa.window (timeline graph))) ((daa.window (timeline graph)).length - 1) := by
    intro graph time enough
    have within : (daa.window (timeline graph)).length ≤ (timeline graph).length := by
      rw [window, List.length_drop]
      omega
    rw [calculate_eq, if_neg (by omega), if_neg (by omega)]
  have counted := intervals_le_total (daa.window (timeline dag))
  rw [answers dag now several, answers other later (alike ▸ several), alike, current]
  refine ⟨fun longer => adjusted_antitone _ _ (by omega) (by omega) longer, fun met low moderate => ?_⟩
  have positive : 0 < daa.targetTime.toNat := by
    by_contra zero
    rw [Nat.eq_zero_of_not_pos zero, Nat.zero_mul] at met
    omega
  rw [met] at low ⊢
  exact adjusted_on_target moderate positive (by omega) low

/-- Three seconds for a block are too long for a target of two. -/
theorem paced_responds :
    ((⟨2, 3⟩ : Daa).calculateNextDifficulty (paced 3) 0).toNat ≤ ((⟨2, 3⟩ : Daa).calculateNextDifficulty (paced 2) 0).toNat ∧
      ((⟨2, 3⟩ : Daa).calculateNextDifficulty (paced 2) 0).toNat = 1000 := by
  obtain ⟨slower, steady⟩ := next_difficulty_responds ⟨2, 3⟩ (paced 2) (paced 3) 0 0 (by decide +kernel)
    (by decide +kernel) (by decide +kernel)
  refine ⟨slower (by decide +kernel), (steady (by decide +kernel) (by decide +kernel) (by decide +kernel)).trans ?_⟩
  decide +kernel

end Windows
end Daa
end Klomang
