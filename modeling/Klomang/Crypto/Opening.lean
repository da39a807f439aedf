import Klomang.Crypto.PolynomialCommitment
import Klomang.Errors
import Klomang.Lib.Coefficients

/-! `core/crypto/verkle/polynomial_commitment.rs`: opening a committed polynomial at a point. -/
namespace Klomang
open Bandersnatch (ScalarField EdwardsPoint)
open Coefficients Polynomial

variable [Blake3] [Bandersnatch]

namespace DensePolynomial

section Operations

/-- `Polynomial::degree`, zero for the zero polynomial. -/
def degree (polynomial : DensePolynomial) : Nat := polynomial.coeffs.length - 1

/-- `Polynomial::evaluate`. -/
def evaluate (polynomial : DensePolynomial) (point : ScalarField) : ScalarField := horner point polynomial.coeffs

/-- The difference of two polynomials. -/
def sub (left right : DensePolynomial) : DensePolynomial :=
  .fromCoefficientsVec <| (List.range (max left.coeffs.length right.coeffs.length)).map fun position =>
    left.coeffs.getD position 0 - right.coeffs.getD position 0

end Operations

section Meaning

theorem poly_from_coefficients (coeffs : List ScalarField) : poly (fromCoefficientsVec coeffs).coeffs = poly coeffs := by
  conv_rhs => rw [← from_coefficients_append_zeros coeffs, poly_append_zeros]

theorem poly_sub (left right : DensePolynomial) :
    poly (left.sub right).coeffs = poly left.coeffs - poly right.coeffs := by
  rw [sub, poly_from_coefficients]
  ext position
  rw [coeff_sub, coeff_poly, coeff_poly, coeff_poly]
  by_cases within : position < max left.coeffs.length right.coeffs.length
  · rw [List.getD_eq_getElem _ _ (by simpa using within)]
    simp
  · have inLeft : left.coeffs.length ≤ position := by omega
    have inRight : right.coeffs.length ≤ position := by omega
    rw [List.getD_eq_default _ _ (by simpa using within), List.getD_eq_default _ _ inLeft,
      List.getD_eq_default _ _ inRight, sub_zero]

theorem ext_poly {left right : DensePolynomial} (same : poly left.coeffs = poly right.coeffs) : left = right := by
  have coeffs := poly_injective left.trimmed right.trimmed same
  cases left
  cases right
  cases coeffs
  rfl

theorem from_coefficients_of_trimmed {coeffs : List ScalarField}
    (trimmed : ∀ present : coeffs ≠ [], coeffs.getLast present ≠ 0) : (fromCoefficientsVec coeffs).coeffs = coeffs :=
  poly_injective (fromCoefficientsVec coeffs).trimmed trimmed (poly_from_coefficients coeffs)

/-- A polynomial without high coefficients is short. -/
theorem length_le_of_coeff_zero {polynomial : DensePolynomial} {bound : Nat}
    (low : ∀ position, bound ≤ position → (poly polynomial.coeffs).coeff position = 0) :
    polynomial.coeffs.length ≤ bound := by
  by_contra longer
  have present : polynomial.coeffs ≠ [] := by
    intro empty
    rw [empty] at longer
    exact longer (Nat.zero_le _)
  apply polynomial.trimmed present
  have last := low (polynomial.coeffs.length - 1) (by omega)
  rw [coeff_poly, List.getD_eq_getElem _ _ (by omega)] at last
  rw [List.getLast_eq_getElem]
  exact last

/-- Where the leading coefficient stands. -/
theorem leading_coefficient {polynomial : DensePolynomial} {position : Nat}
    (leads : (poly polynomial.coeffs).coeff position ≠ 0)
    (low : ∀ further, position < further → (poly polynomial.coeffs).coeff further = 0) :
    polynomial.degree = position ∧
      polynomial.coeffs[position]? = some ((poly polynomial.coeffs).coeff position) := by
  have short : polynomial.coeffs.length ≤ position + 1 := length_le_of_coeff_zero low
  have long : position < polynomial.coeffs.length := by
    by_contra beyond
    rw [coeff_poly, List.getD_eq_default _ _ (Nat.not_lt.mp beyond)] at leads
    exact leads rfl
  refine ⟨by rw [degree]; omega, ?_⟩
  rw [coeff_poly, List.getD_eq_getElem _ _ long, List.getElem?_eq_getElem long]

end Meaning
end DensePolynomial

namespace PolynomialCommitment
open DensePolynomial

section Division

/-- The inner loop of `naive_polynomial_multiply`. -/
def addRow (aCoeff : ScalarField) (i : Nat) (resultCoeffs : List ScalarField) :
    List (ScalarField × Nat) → List ScalarField
  | [] => resultCoeffs
  | (bCoeff, j) :: rest =>
    if bCoeff = 0 then addRow aCoeff i resultCoeffs rest
    else addRow aCoeff i (resultCoeffs.modify (i + j) (· + aCoeff * bCoeff)) rest

/-- The outer loop of `naive_polynomial_multiply`. -/
def addRows (b resultCoeffs : List ScalarField) : List (ScalarField × Nat) → List ScalarField
  | [] => resultCoeffs
  | (aCoeff, i) :: rest =>
    if aCoeff = 0 then addRows b resultCoeffs rest
    else addRows b (addRow aCoeff i resultCoeffs b.zipIdx) rest

/-- `naive_polynomial_multiply`. -/
def naivePolynomialMultiply (a b : DensePolynomial) : DensePolynomial :=
  if a.coeffs = [] ∨ b.coeffs = [] then .fromCoefficientsVec []
  else
    let resultLen := a.coeffs.length + b.coeffs.length - 1
    .fromCoefficientsVec (addRows b.coeffs (List.replicate resultLen 0) a.coeffs.zipIdx)

/-- A row is added at its offset. -/
theorem poly_addRow (aCoeff : ScalarField) (i start : Nat) (coeffs result : List ScalarField)
    (room : coeffs = [] ∨ i + start + coeffs.length ≤ result.length) :
    poly (addRow aCoeff i result (coeffs.zipIdx start)) =
        poly result + C aCoeff * X ^ (i + start) * poly coeffs ∧
      (addRow aCoeff i result (coeffs.zipIdx start)).length = result.length := by
  induction coeffs generalizing start result with
  | nil => simp [addRow]
  | cons bCoeff rest ih =>
    have room := room.resolve_left (List.cons_ne_nil _ _)
    rw [List.length_cons] at room
    rw [List.zipIdx_cons, addRow]
    by_cases zero : bCoeff = 0
    · obtain ⟨sum, width⟩ := ih (start + 1) result (.inr (by omega))
      rw [if_pos zero, sum, poly, zero, C_0, zero_add, ← add_assoc, pow_succ]
      exact ⟨by ring, width⟩
    · have kept : (result.modify (i + start) (· + aCoeff * bCoeff)).length = result.length := by simp
      obtain ⟨sum, width⟩ := ih (start + 1) (result.modify (i + start) (· + aCoeff * bCoeff))
        (.inr (by rw [kept]; omega))
      rw [if_neg zero, sum, width, kept, poly_modify _ _ _ (by omega), poly, C_mul, ← add_assoc, pow_succ]
      exact ⟨by ring, rfl⟩

theorem poly_addRows (b : List ScalarField) (start : Nat) (coeffs result : List ScalarField)
    (room : coeffs = [] ∨ start + coeffs.length + b.length ≤ result.length + 1) :
    poly (addRows b result (coeffs.zipIdx start)) = poly result + X ^ start * poly coeffs * poly b := by
  induction coeffs generalizing start result with
  | nil => simp [addRows]
  | cons aCoeff rest ih =>
    have room := room.resolve_left (List.cons_ne_nil _ _)
    rw [List.length_cons] at room
    rw [List.zipIdx_cons, addRows]
    by_cases zero : aCoeff = 0
    · rw [if_pos zero, ih (start + 1) result (.inr (by omega)), poly, zero, C_0, zero_add, pow_succ]
      ring
    · obtain ⟨sum, width⟩ := poly_addRow aCoeff start 0 b result (.inr (by omega))
      rw [if_neg zero, ih (start + 1) _ (.inr (by rw [width]; omega)), sum, poly, add_zero, pow_succ]
      ring

/-- The naive product is the product. -/
theorem poly_naive_multiply (a b : DensePolynomial) :
    poly (naivePolynomialMultiply a b).coeffs = poly a.coeffs * poly b.coeffs := by
  rw [naivePolynomialMultiply]
  by_cases zero : a.coeffs = [] ∨ b.coeffs = []
  · rw [if_pos zero, poly_from_coefficients]
    rcases zero with empty | empty <;> rw [empty] <;> simp
  · rw [if_neg zero]
    dsimp only
    have present := List.length_pos_iff.mpr (not_or.mp zero).1
    rw [poly_from_coefficients, poly_addRows _ 0 _ _ (.inr (by rw [List.length_replicate]; omega)),
      poly_replicate_zero, pow_zero, zero_add, one_mul]

/-- The term of the quotient that cancels a leading coefficient. -/
def quotientTerm (degreeDiff : Nat) (quotientCoeff : ScalarField) : DensePolynomial :=
  .fromCoefficientsVec (List.replicate degreeDiff 0 ++ [quotientCoeff])

theorem poly_quotient_term (degreeDiff : Nat) (quotientCoeff : ScalarField) :
    poly (quotientTerm degreeDiff quotientCoeff).coeffs = X ^ degreeDiff * C quotientCoeff := by
  rw [quotientTerm, poly_from_coefficients, poly_append]
  simp [poly]

/-- Subtracting the term that cancels the leading coefficient shortens the remainder. -/
theorem remainder_shorter {remainder denominator : DensePolynomial} {remLeadingCoeff denLeadingCoeff : ScalarField}
    (denLead : denominator.coeffs[denominator.degree]? = some denLeadingCoeff)
    (remLead : remainder.coeffs[remainder.degree]? = some remLeadingCoeff)
    (fits : denominator.degree ≤ remainder.degree) :
    (remainder.sub (naivePolynomialMultiply
      (quotientTerm (remainder.degree - denominator.degree) (remLeadingCoeff * denLeadingCoeff⁻¹))
        denominator)).coeffs.length < remainder.coeffs.length := by
  obtain ⟨denWithin, denHere⟩ := List.getElem?_eq_some_iff.mp denLead
  obtain ⟨remWithin, remHere⟩ := List.getElem?_eq_some_iff.mp remLead
  have nonzero : denLeadingCoeff ≠ 0 := by
    have present : denominator.coeffs ≠ [] := List.ne_nil_of_length_pos (Nat.zero_lt_of_lt denWithin)
    have last := denominator.trimmed present
    rw [List.getLast_eq_getElem] at last
    rw [← denHere]
    exact last
  have bound : remainder.coeffs.length = remainder.degree + 1 := by
    have width : remainder.degree = remainder.coeffs.length - 1 := rfl
    omega
  have denBound : denominator.coeffs.length = denominator.degree + 1 := by
    have width : denominator.degree = denominator.coeffs.length - 1 := rfl
    omega
  rw [bound, Nat.lt_succ_iff]
  refine length_le_of_coeff_zero fun position high => ?_
  rw [poly_sub, poly_naive_multiply, poly_quotient_term, coeff_sub, mul_assoc, coeff_X_pow_mul', coeff_C_mul,
    if_pos (by omega), coeff_poly, coeff_poly]
  rcases Nat.eq_or_lt_of_le high with rfl | higher
  · have offset : remainder.degree - (remainder.degree - denominator.degree) = denominator.degree := by omega
    rw [offset, List.getD_eq_getElem _ _ remWithin, List.getD_eq_getElem _ _ denWithin, remHere, denHere, mul_assoc,
      inv_mul_cancel₀ nonzero, mul_one, sub_self]
  · rw [List.getD_eq_default _ _ (by omega), List.getD_eq_default _ _ (by omega), mul_zero, sub_zero]

/-- The loop of `polynomial_division`. A coefficient of the quotient is pushed only when the remainder
reaches its degree. -/
def divisionLoop (denominator : DensePolynomial) (denLeadingCoeff : ScalarField)
    (denLead : denominator.coeffs[denominator.degree]? = some denLeadingCoeff) (quotientCoeffs : List ScalarField)
    (remainder : DensePolynomial) : Except (Abort PolynomialCommitmentError) (List ScalarField) :=
  if _ : denominator.degree ≤ remainder.degree then
    match _ : remainder.coeffs[remainder.degree]? with
    | none => .error .panic
    | some remLeadingCoeff =>
      -- the last coefficient of a polynomial is not zero, so the inverse is there
      let quotientCoeff := remLeadingCoeff * denLeadingCoeff⁻¹
      let term := quotientTerm (remainder.degree - denominator.degree) quotientCoeff
      divisionLoop denominator denLeadingCoeff denLead (quotientCoeffs ++ [quotientCoeff])
        (remainder.sub (naivePolynomialMultiply term denominator))
  else .ok quotientCoeffs
termination_by remainder.coeffs.length
decreasing_by exact remainder_shorter denLead ‹_› ‹_›

/-- `polynomial_division`. -/
def polynomialDivision (numerator denominator : DensePolynomial) :
    Except (Abort PolynomialCommitmentError) DensePolynomial :=
  if numerator.degree < denominator.degree then .ok (.fromCoefficientsVec [])
  else
    match denLead : denominator.coeffs[denominator.degree]? with
    | none => .error .panic
    | some denLeadingCoeff => do
      let quotientCoeffs ← divisionLoop denominator denLeadingCoeff denLead [] numerator
      return .fromCoefficientsVec quotientCoeffs.reverse

/-- `compute_quotient_polynomial`. The zero polynomial has no coefficient to subtract from. -/
def computeQuotientPolynomial (polynomial : DensePolynomial) (point value : ScalarField) :
    Except (Abort PolynomialCommitmentError) DensePolynomial :=
  match polynomial.coeffs with
  | [] => .error .panic
  | first :: rest =>
    polynomialDivision (.fromCoefficientsVec ((first - value) :: rest)) (.fromCoefficientsVec [-point, 1])

end Division
end PolynomialCommitment

structure IpaProof where
  finalCommitment : Commitment
  proofScalars : List ScalarField

structure OpeningProof where
  quotientCommitment : Commitment
  ipaProof : IpaProof
  point : ScalarField
  value : ScalarField

namespace PolynomialCommitment

section Opening

/-- `generate_ipa_proof`. -/
def generateIpaProof (pc : PolynomialCommitment) (polynomial : DensePolynomial) :
    Except PolynomialCommitmentError IpaProof := do
  let coeffs := polynomial.coeffs
  let finalCommitment ← pc.commit polynomial
  return ⟨finalCommitment, coeffs⟩

/-- `PolynomialCommitment::open`. -/
def openAt (pc : PolynomialCommitment) (polynomial : DensePolynomial) (point value : ScalarField) :
    Except (Abort PolynomialCommitmentError) OpeningProof :=
  if polynomial.evaluate point ≠ value then .error (.err .invalidEvaluation)
  else do
    let quotient ← computeQuotientPolynomial polynomial point value
    let quotientCommitment ← (pc.commit quotient).mapError .err
    let ipaProof ← (pc.generateIpaProof quotient).mapError .err
    return ⟨quotientCommitment, ipaProof, point, value⟩

/-- `reconstruct_commitment_from_scalars`. -/
def reconstructCommitmentFromScalars (pc : PolynomialCommitment) (scalars : List ScalarField) :
    Except PolynomialCommitmentError Commitment :=
  if scalars.length > pc.generators.length then .error .degreeTooHigh else .ok (pc.blindedSum scalars)

/-- `reconstruct_polynomial_from_quotient`. -/
def reconstructPolynomialFromQuotient (quotientCoeffs : List ScalarField) (point value : ScalarField) :
    List ScalarField :=
  (-point * quotientCoeffs.head?.getD 0 + value) ::
    (List.range' 1 quotientCoeffs.length).map fun i =>
      quotientCoeffs.getD (i - 1) 0 - point * quotientCoeffs.getD i 0

/-- `verify_ipa_proof`. -/
def verifyIpaProof (pc : PolynomialCommitment) (commitment : Commitment) (proof : OpeningProof) :
    Except PolynomialCommitmentError Bool := do
  let reconstructed ← pc.reconstructCommitmentFromScalars proof.ipaProof.proofScalars
  if reconstructed.point ≠ proof.ipaProof.finalCommitment.point then return false
  if reconstructed.point ≠ proof.quotientCommitment.point then return false
  let pCoeffs := reconstructPolynomialFromQuotient proof.ipaProof.proofScalars proof.point proof.value
  let expectedCommitment ← pc.commit (.fromCoefficientsVec pCoeffs)
  return expectedCommitment.point = commitment.point

/-- `PolynomialCommitment::verify`. -/
def verify (pc : PolynomialCommitment) (commitment : Commitment) (proof : OpeningProof) :
    Except PolynomialCommitmentError Bool :=
  pc.verifyIpaProof commitment proof

end Opening
end PolynomialCommitment
end Klomang
