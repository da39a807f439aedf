import Mathlib.Algebra.Order.Round
import Mathlib.Data.Int.Log
import Mathlib.Data.Rat.Floor
import Mathlib.Tactic.Linarith
import Mathlib.Tactic.Positivity

/-! Binary numbers with a fixed count of significant digits, as the rational numbers they stand for. Rounding goes to the
nearest such number, a tie to the one with an even last digit; exponents have no bounds. -/
namespace Klomang.Rounding

/-- The nearest integer, a tie to the even one. -/
def halfEven (x : ℚ) : ℤ :=
  if Int.fract x < 1 / 2 then ⌊x⌋
  else if 1 / 2 < Int.fract x then ⌊x⌋ + 1
  else if Even ⌊x⌋ then ⌊x⌋
  else ⌊x⌋ + 1

/-- The weight of the last of the significant digits of a number. -/
def lastPlace (digits : ℕ) (x : ℚ) : ℚ := 2 ^ (Int.log 2 x + 1 - digits)

/-- The nearest number with so many significant digits, of a number that is not negative. -/
def rounded (digits : ℕ) (x : ℚ) : ℚ := halfEven (x / lastPlace digits x) * lastPlace digits x

/-- So many binary digits, somewhere. -/
def Short (digits : ℕ) (x : ℚ) : Prop := ∃ n < 2 ^ digits, ∃ exponent : ℤ, x = (n : ℕ) * 2 ^ exponent

section Integers
variable {x y : ℚ}

theorem floor_le_half_even (x : ℚ) : ⌊x⌋ ≤ halfEven x := by
  unfold halfEven
  split_ifs <;> omega

theorem half_even_le (x : ℚ) : halfEven x ≤ ⌊x⌋ + 1 := by
  unfold halfEven
  split_ifs <;> omega

@[simp] theorem half_even_int (n : ℤ) : halfEven n = n := by
  simp [halfEven]

theorem half_even_mono (below : x ≤ y) : halfEven x ≤ halfEven y := by
  rcases (Int.floor_le_floor below).lt_or_eq with apart | same
  · exact (half_even_le x).trans (apart.trans_le (floor_le_half_even y))
  · have fractions : Int.fract x ≤ Int.fract y := by
      rw [Int.fract, Int.fract, same]
      exact sub_le_sub_right below _
    unfold halfEven
    rw [same]
    split_ifs <;> first | omega | linarith

end Integers

section Digits
variable {digits : ℕ} {x y : ℚ}

theorem last_place_pos (digits : ℕ) (x : ℚ) : 0 < lastPlace digits x := zpow_pos two_pos _

@[simp] theorem rounded_zero (digits : ℕ) : rounded digits 0 = 0 := by
  have zero : halfEven 0 = 0 := half_even_int 0
  rw [rounded, zero_div, zero, Int.cast_zero, zero_mul]

/-- An integer number of last places is left as it is. -/
theorem rounded_of_places {n : ℤ} (whole : x = n * lastPlace digits x) : rounded digits x = x := by
  have places : x / lastPlace digits x = n := (div_eq_iff (last_place_pos digits x).ne').mpr whole
  rw [rounded, places, half_even_int, ← whole]

/-- A number with so many digits is left as it is. -/
theorem rounded_exact (short : Short digits x) : rounded digits x = x := by
  obtain ⟨n, few, exponent, rfl⟩ := short
  rcases Nat.eq_zero_or_pos n with rfl | positive
  · simp
  · have present : (0 : ℚ) < n * 2 ^ exponent := mul_pos (Nat.cast_pos.mpr positive) (zpow_pos two_pos _)
    have fits : (n : ℚ) * 2 ^ exponent < 2 ^ (digits + exponent) := by
      rw [zpow_add₀ two_ne_zero, zpow_natCast]
      exact mul_lt_mul_of_pos_right (by exact_mod_cast few) (zpow_pos two_pos _)
    have places : Int.log 2 ((n : ℚ) * 2 ^ exponent) + 1 - digits ≤ exponent := by
      have bounded := (Int.lt_zpow_iff_log_lt one_lt_two present).mp fits
      omega
    obtain ⟨shift, reach⟩ := Int.eq_ofNat_of_zero_le (sub_nonneg.mpr places)
    apply rounded_of_places (n := n * 2 ^ shift)
    rw [lastPlace, Int.cast_mul, Int.cast_natCast, Int.cast_pow, Int.cast_ofNat, mul_assoc, ← zpow_natCast,
      ← zpow_add₀ two_ne_zero]
    congr 2
    omega

theorem log_lower (positive : 0 < x) : (2 : ℚ) ^ Int.log 2 x ≤ x := Int.zpow_log_le_self one_lt_two positive

theorem log_upper (x : ℚ) : x < (2 : ℚ) ^ (Int.log 2 x + 1) := Int.lt_zpow_succ_log_self one_lt_two x

/-- Rounding does not leave the interval between two powers of two. -/
theorem rounded_bounds (some : 0 < digits) (positive : 0 < x) :
    (2 : ℚ) ^ Int.log 2 x ≤ rounded digits x ∧ rounded digits x ≤ 2 ^ (Int.log 2 x + 1) := by
  have place := last_place_pos digits x
  obtain ⟨further, rfl⟩ : ∃ further, digits = further + 1 := ⟨digits - 1, by omega⟩
  have first : (2 : ℚ) ^ Int.log 2 x = (2 ^ further : ℤ) * lastPlace (further + 1) x := by
    rw [lastPlace, Int.cast_pow, Int.cast_ofNat, ← zpow_natCast, ← zpow_add₀ two_ne_zero]
    congr 1
    push_cast
    ring
  have last : (2 : ℚ) ^ (Int.log 2 x + 1) = (2 ^ (further + 1) : ℤ) * lastPlace (further + 1) x := by
    rw [lastPlace, Int.cast_pow, Int.cast_ofNat, ← zpow_natCast, ← zpow_add₀ two_ne_zero]
    congr 1
    push_cast
    ring
  constructor
  · rw [first, rounded]
    apply mul_le_mul_of_nonneg_right _ place.le
    rw [← half_even_int (2 ^ further)]
    refine Int.cast_le.mpr (half_even_mono ((le_div_iff₀ place).mpr ?_))
    rw [← first]
    exact log_lower positive
  · rw [last, rounded]
    apply mul_le_mul_of_nonneg_right _ place.le
    rw [← half_even_int (2 ^ (further + 1))]
    refine Int.cast_le.mpr (half_even_mono ((div_le_iff₀ place).mpr ?_))
    rw [← last]
    exact (log_upper x).le

theorem short_natCast {n : ℕ} (few : n < 2 ^ digits) : Short digits n := ⟨n, few, 0, by simp⟩

theorem Short.scaled (short : Short digits x) (shift : ℤ) : Short digits (x * 2 ^ shift) := by
  obtain ⟨n, few, exponent, rfl⟩ := short
  exact ⟨n, few, exponent + shift, by rw [zpow_add₀ two_ne_zero, mul_assoc]⟩

theorem rounded_nonneg (some : 0 < digits) (least : 0 ≤ x) : 0 ≤ rounded digits x := by
  rcases least.eq_or_lt with rfl | positive
  · rw [rounded_zero]
  · exact (zpow_pos two_pos _).le.trans (rounded_bounds some positive).1

/-- What rounding gives has no more digits. -/
theorem rounded_short (some : 0 < digits) (least : 0 ≤ x) : Short digits (rounded digits x) := by
  have place := last_place_pos digits x
  obtain ⟨count, counted⟩ := Int.eq_ofNat_of_zero_le (a := halfEven (x / lastPlace digits x))
    ((Int.floor_nonneg.mpr (div_nonneg least place.le)).trans (floor_le_half_even _))
  have form : rounded digits x = count * 2 ^ (Int.log 2 x + 1 - digits) := by
    rw [rounded, counted, lastPlace, Int.cast_natCast]
  rcases least.eq_or_lt with rfl | positive
  · rw [rounded_zero]
    exact ⟨0, by positivity, 0, by simp⟩
  · have most : (count : ℚ) ≤ 2 ^ digits := by
      have upper := (rounded_bounds some positive).2
      rw [form, ← le_div_iff₀ (zpow_pos two_pos _), ← zpow_sub₀ two_ne_zero,
        show Int.log 2 x + 1 - (Int.log 2 x + 1 - digits) = (digits : ℤ) by ring, zpow_natCast] at upper
      exact upper
    rcases (show count ≤ 2 ^ digits by exact_mod_cast most).lt_or_eq with few | full
    · exact ⟨count, few, _, form⟩
    · -- all digits were carried away: the next power of two
      refine ⟨1, Nat.one_lt_two_pow some.ne', Int.log 2 x + 1, ?_⟩
      rw [form, full, Nat.cast_pow, Nat.cast_ofNat, ← zpow_natCast, ← zpow_add₀ two_ne_zero, Nat.cast_one, one_mul]
      congr 1
      ring

theorem rounded_mono (some : 0 < digits) (least : 0 ≤ x) (below : x ≤ y) : rounded digits x ≤ rounded digits y := by
  rcases least.eq_or_lt with rfl | positive
  · rw [rounded_zero]
    exact rounded_nonneg some below
  · rcases (Int.log_mono_right (b := 2) positive below).lt_or_eq with apart | same
    · calc rounded digits x
        _ ≤ 2 ^ (Int.log 2 x + 1) := (rounded_bounds some positive).2
        _ ≤ 2 ^ Int.log 2 y := zpow_le_zpow_right₀ one_le_two (by omega)
        _ ≤ rounded digits y := (rounded_bounds some (positive.trans_le below)).1
    · rw [rounded, rounded, show lastPlace digits x = lastPlace digits y by rw [lastPlace, lastPlace, same]]
      have place := last_place_pos digits y
      apply mul_le_mul_of_nonneg_right _ place.le
      exact Int.cast_le.mpr (half_even_mono (div_le_div_of_nonneg_right below place.le))

end Digits

section Doubles
variable {x y : ℚ} {n : ℕ}

/-- The double nearest to a number: the result of one operation on doubles, within the normal range. -/
def double (x : ℚ) : ℚ := rounded 53 x

/-- A double as an unsigned 64-bit integer: what is behind the point is cut off, and what is too large is the greatest. -/
def toU64 (x : ℚ) : ℕ := min ⌊x⌋.toNat (2 ^ 64 - 1)

theorem double_nonneg (least : 0 ≤ x) : 0 ≤ double x := rounded_nonneg (by decide) least

theorem double_pos (positive : 0 < x) : 0 < double x := (zpow_pos two_pos _).trans_le (rounded_bounds (by decide) positive).1

theorem double_mono (least : 0 ≤ x) (below : x ≤ y) : double x ≤ double y := rounded_mono (by decide) least below

/-- Integers below 2^53 are doubles. -/
theorem double_natCast (few : n < 2 ^ 53) : double n = n := rounded_exact (short_natCast few)

@[simp] theorem double_one : double 1 = 1 := by exact_mod_cast double_natCast (n := 1) (by decide)

/-- The quotient of an integer by a smaller one is one at least, rounded as it is. -/
theorem one_le_quotient {count total : ℕ} (some : 0 < count) (counted : count ≤ total) :
    1 ≤ double (double total / double count) := by
  have divisor : 0 < double count := double_pos (Nat.cast_pos.mpr some)
  have ratio := (one_le_div divisor).mpr (double_mono (Nat.cast_nonneg _) (Nat.cast_le.mpr counted))
  exact double_one ▸ double_mono zero_le_one ratio

/-- What is divided by at least itself gives one at most. -/
theorem quotient_le_one (least : 0 ≤ x) (positive : 0 < y) (below : x ≤ y) : double (x / y) ≤ 1 :=
  double_one ▸ double_mono (div_nonneg least positive.le) ((div_le_one positive).mpr below)

/-- An integer that is a double does not grow by a factor that is one at most. -/
theorem double_mul_le {factor : ℚ} (few : n < 2 ^ 53) (least : 0 ≤ factor) (most : factor ≤ 1) :
    double (double n * factor) ≤ n := by
  have present : (0 : ℚ) ≤ n := Nat.cast_nonneg _
  rw [double_natCast few]
  calc double (n * factor)
    _ ≤ double n := double_mono (mul_nonneg present least) (mul_le_of_le_one_right present most)
    _ = n := double_natCast few

theorem double_double (least : 0 ≤ x) : double (double x) = double x := rounded_exact (rounded_short (by decide) least)

theorem double_twice (least : 0 ≤ x) : double (double x * 2) = double x * 2 := by
  have rounds : Short 53 (double x) := rounded_short (by decide) least
  have short := rounds.scaled 1
  rw [zpow_one] at short
  exact rounded_exact short

theorem double_half (least : 0 ≤ x) : double (double x * (1 / 2)) = double x * (1 / 2) := by
  have rounds : Short 53 (double x) := rounded_short (by decide) least
  have short := rounds.scaled (-1)
  rw [zpow_neg_one, ← one_div] at short
  exact rounded_exact short

/-- Rounding to the nearest integer and converting keeps the order. -/
theorem to_u64_round_mono (below : x ≤ y) : toU64 (round x) ≤ toU64 (round y) := by
  have rounds : round x ≤ round y := by
    rw [round_eq, round_eq]
    exact Int.floor_le_floor (add_le_add_left below _)
  rw [toU64, toU64, Int.floor_intCast, Int.floor_intCast]
  omega

theorem to_u64_round_natCast : toU64 (round (n : ℚ)) = min n (2 ^ 64 - 1) := by
  rw [toU64, round_natCast, Int.floor_intCast, Int.toNat_natCast]

end Doubles
end Klomang.Rounding
