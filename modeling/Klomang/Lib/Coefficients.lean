import Mathlib.Algebra.Polynomial.Eval.Degree
import Mathlib.Algebra.Polynomial.Degree.Lemmas
import Mathlib.Data.List.GetD
import Mathlib.Tactic.Ring

/-! Lists of coefficients, from the lowest degree up, as polynomials. Dividing by `X - z` is Horner's
scheme: the coefficients of the quotient are the values that the proper suffixes have at `z`. -/
namespace Klomang.Coefficients
open Polynomial

section Ring
variable {R : Type*} [CommRing R]

/-- The polynomial of a list of coefficients. -/
noncomputable def poly : List R → R[X]
  | [] => 0
  | coefficient :: rest => C coefficient + X * poly rest

/-- Horner's evaluation. -/
def horner (z : R) : List R → R
  | [] => 0
  | coefficient :: rest => coefficient + z * horner z rest

/-- The values of all suffixes that have a coefficient. -/
def suffixValues (z : R) : List R → List R
  | [] => []
  | coefficient :: rest => horner z (coefficient :: rest) :: suffixValues z rest

variable (z : R) (coeffs : List R)

@[simp] theorem poly_nil : poly ([] : List R) = 0 := rfl

@[simp] theorem length_suffixValues : (suffixValues z coeffs).length = coeffs.length := by
  induction coeffs with
  | nil => rfl
  | cons coefficient rest ih => rw [suffixValues, List.length_cons, List.length_cons, ih]

/-- A suffix of every length but zero. -/
theorem suffixValues_eq_map :
    suffixValues z coeffs = (List.range coeffs.length).map fun start => horner z (coeffs.drop start) := by
  induction coeffs with
  | nil => rfl
  | cons coefficient rest ih =>
    rw [suffixValues, List.length_cons, List.range_succ_eq_map, List.map_cons, List.map_map, ih]
    rfl

theorem coeff_poly (position : Nat) : (poly coeffs).coeff position = coeffs.getD position 0 := by
  induction coeffs generalizing position with
  | nil => simp
  | cons coefficient rest ih => cases position <;> simp [poly, coeff_C, ih]

theorem eval_poly : (poly coeffs).eval z = horner z coeffs := by
  induction coeffs with
  | nil => simp [horner]
  | cons coefficient rest ih => simp [poly, horner, ih]

theorem poly_append (left right : List R) : poly (left ++ right) = poly left + X ^ left.length * poly right := by
  induction left with
  | nil => simp
  | cons coefficient rest ih =>
    rw [List.cons_append, poly, poly, ih, List.length_cons, pow_succ']
    ring

@[simp] theorem poly_replicate_zero (count : Nat) : poly (List.replicate count (0 : R)) = 0 := by
  induction count with
  | zero => rfl
  | succ count ih => rw [List.replicate_succ, poly, ih, C_0, mul_zero, add_zero]

theorem poly_append_zeros (count : Nat) : poly (coeffs ++ List.replicate count 0) = poly coeffs := by
  rw [poly_append, poly_replicate_zero, mul_zero, add_zero]

/-- Adding to one coefficient adds a monomial. -/
theorem poly_modify (position : Nat) (summand : R) (within : position < coeffs.length) :
    poly (coeffs.modify position (· + summand)) = poly coeffs + C summand * X ^ position := by
  induction coeffs generalizing position with
  | nil => exact absurd within (Nat.not_lt_zero _)
  | cons coefficient rest ih =>
    cases position with
    | zero =>
      rw [List.modify_zero_cons, poly, poly, C_add]
      ring
    | succ position =>
      rw [List.modify_succ_cons, poly, poly, ih position (Nat.lt_of_succ_lt_succ within)]
      ring

/-- Two lists that do not end in zero are the same when their polynomials are. -/
theorem poly_injective {left right : List R} (leftTrimmed : ∀ present : left ≠ [], left.getLast present ≠ 0)
    (rightTrimmed : ∀ present : right ≠ [], right.getLast present ≠ 0) (same : poly left = poly right) :
    left = right := by
  have entries : ∀ position, left.getD position 0 = right.getD position 0 := by
    intro position
    rw [← coeff_poly, ← coeff_poly, same]
  -- the last coefficient of a longer list would be zero
  have shorter : ∀ {first second : List R}, (∀ position, first.getD position 0 = second.getD position 0) →
      (∀ present : first ≠ [], first.getLast present ≠ 0) → first.length ≤ second.length := by
    intro first second agree trimmed
    by_contra longer
    have present : first ≠ [] := by
      rintro rfl
      exact longer (Nat.zero_le _)
    apply trimmed present
    have beyond := agree (first.length - 1)
    rw [List.getD_eq_default second 0 (by omega),
      List.getD_eq_getElem first 0 (by have := List.length_pos_iff.mpr present; omega)] at beyond
    rw [List.getLast_eq_getElem]
    exact beyond
  have width := Nat.le_antisymm (shorter entries leftTrimmed) (shorter (fun p => (entries p).symm) rightTrimmed)
  refine List.ext_getElem width fun position inLeft inRight => ?_
  rw [← List.getD_eq_getElem left 0 inLeft, ← List.getD_eq_getElem right 0 inRight]
  exact entries position

theorem trimmed_suffix {coefficient : R} {rest : List R}
    (trimmed : ∀ present : coefficient :: rest ≠ [], (coefficient :: rest).getLast present ≠ 0) :
    ∀ present : rest ≠ [], rest.getLast present ≠ 0 := by
  intro present
  rw [← List.getLast_cons present]
  exact trimmed _

/-- Horner's scheme divides by `X - z`. -/
theorem poly_division (coefficient : R) :
    poly (coefficient :: coeffs) =
      poly (suffixValues z coeffs) * (X - C z) + C (horner z (coefficient :: coeffs)) := by
  induction coeffs generalizing coefficient with
  | nil => simp [poly, suffixValues, horner]
  | cons next rest ih =>
    rw [poly, ih next, suffixValues, poly]
    simp only [horner, C_add, C_mul]
    ring

/-- The last value is the last coefficient. -/
theorem suffixValues_trimmed (trimmed : ∀ present : coeffs ≠ [], coeffs.getLast present ≠ 0) :
    ∀ present : suffixValues z coeffs ≠ [], (suffixValues z coeffs).getLast present ≠ 0 := by
  induction coeffs with
  | nil => exact fun present => absurd rfl present
  | cons coefficient rest ih =>
    intro present
    cases rest with
    | nil =>
      have last := trimmed (List.cons_ne_nil _ _)
      simpa [suffixValues, horner] using last
    | cons next rest =>
      have further := ih (trimmed_suffix trimmed) (List.cons_ne_nil _ _)
      simpa [suffixValues] using further

end Ring
end Klomang.Coefficients
