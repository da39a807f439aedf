import Klomang.Crypto.Opening
import Klomang.Sample

/-! What an accepted opening says, and which openings are accepted. A quotient is committed to by the
coefficients that the long division pushed, so one that has a zero coefficient is recommitted as another
polynomial. -/
namespace Klomang.PolynomialCommitment
open Bandersnatch (ScalarField EdwardsPoint)
open Polynomial (X C C_neg C_1 C_sub)
open Coefficients DensePolynomial

section Quotient
variable [Blake3] [Bandersnatch]

/-- Only zeros are trimmed to nothing. -/
theorem from_coefficients_empty_iff {coeffs : List ScalarField} :
    (fromCoefficientsVec coeffs).coeffs = [] ↔ ∀ coefficient ∈ coeffs, coefficient = 0 := by
  constructor
  · intro empty
    have whole := from_coefficients_append_zeros coeffs
    rw [empty, List.nil_append] at whole
    intro coefficient member
    rw [← whole] at member
    exact List.eq_of_mem_replicate member
  · intro zeros
    refine poly_injective (fromCoefficientsVec coeffs).trimmed (fun present => absurd rfl present) ?_
    rw [poly_from_coefficients, List.eq_replicate_of_mem zeros, poly_replicate_zero, poly_nil]

/-- `X - z`. -/
theorem denominator_shape (point : ScalarField) :
    (fromCoefficientsVec [-point, 1]).coeffs = [-point, 1] :=
  from_coefficients_of_trimmed fun _ => one_ne_zero

/-- Dividing a multiple of `X - z` pushes the coefficients of the quotient that are not zero. -/
theorem division_loop_multiple (point : ScalarField)
    (denLead : (fromCoefficientsVec [-point, 1]).coeffs[(fromCoefficientsVec [-point, 1]).degree]? =
      some (1 : ScalarField)) (quotient pushed : List ScalarField) (remainder : DensePolynomial)
    (multiple : poly remainder.coeffs = poly quotient * (X - C point)) :
    divisionLoop (fromCoefficientsVec [-point, 1]) 1 denLead pushed remainder =
      .ok (pushed ++ quotient.reverse.filter (· ≠ 0)) := by
  have linear : poly (fromCoefficientsVec [-point, 1]).coeffs = X - C point := by
    rw [denominator_shape, poly, poly, poly_nil, C_neg, C_1]
    ring
  have degreeOne : (fromCoefficientsVec [-point, 1]).degree = 1 := by rw [degree, denominator_shape]; rfl
  induction quotient using List.reverseRecOn generalizing pushed remainder with
  | nil =>
    rw [poly_nil, zero_mul] at multiple
    have nothing : remainder.coeffs = [] :=
      poly_injective remainder.trimmed (fun present => absurd rfl present) multiple
    have low : remainder.degree = 0 := by rw [degree, nothing]; rfl
    rw [divisionLoop, dif_neg (by omega), List.reverse_nil, List.filter_nil, List.append_nil]
  | append_singleton front last ih =>
    rw [List.reverse_append, List.reverse_singleton, List.singleton_append]
    by_cases zero : last = 0
    · rw [List.filter_cons_of_neg (by simpa using zero)]
      refine ih pushed remainder ?_
      rw [multiple, zero]
      congr 1
      exact poly_append_zeros front 1
    · rw [List.filter_cons_of_pos (by simpa using zero)]
      have entries : ∀ position, (poly remainder.coeffs).coeff (position + 1) =
          (front ++ [last]).getD position 0 - (front ++ [last]).getD (position + 1) 0 * point := by
        intro position
        rw [multiple, Polynomial.coeff_mul_X_sub_C, coeff_poly, coeff_poly]
      have at_last : (front ++ [last]).getD front.length 0 = last := by simp
      have lead : (poly remainder.coeffs).coeff (front.length + 1) = last := by
        rw [entries, at_last, List.getD_eq_default _ _ (by simp), zero_mul, sub_zero]
      obtain ⟨width, here⟩ := leading_coefficient (by rw [lead]; exact zero) (fun further beyond => by
        obtain ⟨position, rfl⟩ := Nat.exists_eq_succ_of_ne_zero (Nat.ne_zero_of_lt beyond)
        rw [entries, List.getD_eq_default _ _ (by simp; omega), List.getD_eq_default _ _ (by simp; omega)]
        simp)
      rw [lead] at here
      rw [divisionLoop, dif_pos (by omega)]
      have found : remainder.coeffs[remainder.degree]? = some last := by rw [width, here]
      split
      · rename_i missing
        rw [found] at missing
        cases missing
      · rename_i lead found'
        rw [found] at found'
        cases found'
        dsimp only
        rw [ih, List.append_assoc, List.singleton_append, inv_one, mul_one]
        rw [poly_sub, poly_naive_multiply, poly_quotient_term, linear, multiple, width, degreeOne, poly_append,
          inv_one, mul_one, poly, poly_nil]
        simp only [Nat.add_sub_cancel]
        ring

/-- The quotient that is computed: the values of the proper suffixes, less those that are zero. -/
theorem compute_quotient_ok {polynomial : DensePolynomial} {first : ScalarField} {rest : List ScalarField}
    (listed : polynomial.coeffs = first :: rest) (point : ScalarField) :
    ∃ quotient, computeQuotientPolynomial polynomial point (polynomial.evaluate point) = .ok quotient ∧
      quotient.coeffs = (suffixValues point rest).filter (· ≠ 0) := by
  have trimmed : ∀ present : (suffixValues point rest).filter (· ≠ 0) ≠ [],
      ((suffixValues point rest).filter (· ≠ 0)).getLast present ≠ 0 := by
    intro present
    have kept := List.getLast_mem present
    simpa using (List.mem_filter.mp kept).2
  refine ⟨fromCoefficientsVec ((suffixValues point rest).filter (· ≠ 0)), ?_, from_coefficients_of_trimmed trimmed⟩
  have multiple : poly (fromCoefficientsVec ((first - polynomial.evaluate point) :: rest)).coeffs =
      poly (suffixValues point rest) * (X - C point) := by
    have division := poly_division point rest first
    rw [poly_from_coefficients, evaluate, listed]
    rw [poly, C_sub]
    rw [poly, ← sub_eq_iff_eq_add] at division
    rw [← division]
    ring
  have denLead : (fromCoefficientsVec [-point, 1]).coeffs[(fromCoefficientsVec [-point, 1]).degree]? =
      some (1 : ScalarField) := by
    rw [degree, denominator_shape]
    rfl
  have degreeOne : (fromCoefficientsVec [-point, 1]).degree = 1 := by rw [degree, denominator_shape]; rfl
  have ran := division_loop_multiple point denLead (suffixValues point rest) [] _ multiple
  rw [computeQuotientPolynomial, listed]
  dsimp only
  rw [polynomialDivision]
  split
  · rename_i low
    -- the loop would not have been entered either
    rw [divisionLoop, dif_neg (by omega)] at ran
    have nothing := Except.ok.inj ran
    rw [List.nil_append, List.filter_reverse, eq_comm, List.reverse_eq_nil_iff] at nothing
    rw [nothing]
  · split
    · rename_i missing
      rw [denLead] at missing
      cases missing
    · rename_i lead found
      obtain rfl : (1 : ScalarField) = lead := Option.some.inj (denLead.symm.trans found)
      rw [ran, List.nil_append, List.filter_reverse]
      simp only [bind, Except.bind, List.reverse_reverse]
      rfl

/-- The coefficients that are pushed are those of the quotient exactly when none of these is zero. -/
theorem pushed_exact_iff {polynomial : DensePolynomial} {first : ScalarField} {rest : List ScalarField}
    (listed : polynomial.coeffs = first :: rest) (point : ScalarField) :
    poly ((suffixValues point rest).filter (· ≠ 0)) * (X - C point) =
        poly polynomial.coeffs - C (polynomial.evaluate point) ↔
      ∀ start, 0 < start → start < polynomial.coeffs.length → horner point (polynomial.coeffs.drop start) ≠ 0 := by
  have division := poly_division point rest first
  rw [← listed] at division
  have restTrimmed : ∀ present : rest ≠ [], rest.getLast present ≠ 0 := by
    have trimmed := polynomial.trimmed
    simp only [listed] at trimmed
    exact trimmed_suffix trimmed
  calc poly ((suffixValues point rest).filter (· ≠ 0)) * (X - C point) =
        poly polynomial.coeffs - C (polynomial.evaluate point)
      ↔ (suffixValues point rest).filter (· ≠ 0) = suffixValues point rest := by
        rw [evaluate, division, add_sub_cancel_right]
        constructor
        · intro same
          have quotients := mul_right_cancel₀ (Polynomial.X_sub_C_ne_zero point) same
          refine poly_injective (fun present => ?_) (suffixValues_trimmed _ _ restTrimmed) quotients
          simpa using (List.mem_filter.mp (List.getLast_mem present)).2
        · intro kept
          rw [kept]
    _ ↔ ∀ start, 0 < start → start < polynomial.coeffs.length → horner point (polynomial.coeffs.drop start) ≠ 0 := by
        rw [List.filter_eq_self, suffixValues_eq_map, List.forall_mem_map, listed]
        constructor
        · intro present start positive within
          obtain ⟨before, rfl⟩ := Nat.exists_eq_succ_of_ne_zero positive.ne'
          simpa using present before (List.mem_range.mpr (Nat.lt_of_succ_lt_succ within))
        · intro present start member
          have within := List.mem_range.mp member
          simpa using present (start + 1) (Nat.succ_pos _) (Nat.succ_lt_succ within)

/-- The quotient is exact when it has no coefficient zero, that is when no proper suffix of the coefficients
has a zero at the point. -/
theorem quotient_exact_iff {polynomial : DensePolynomial} (present : polynomial.coeffs ≠ []) (point : ScalarField) :
    (∃ quotient, computeQuotientPolynomial polynomial point (polynomial.evaluate point) = .ok quotient ∧
        poly quotient.coeffs * (X - C point) = poly polynomial.coeffs - C (polynomial.evaluate point)) ↔
      ∀ start, 0 < start → start < polynomial.coeffs.length → horner point (polynomial.coeffs.drop start) ≠ 0 := by
  obtain ⟨first, rest, listed⟩ := List.exists_cons_of_ne_nil present
  obtain ⟨quotient, computed, coeffs⟩ := compute_quotient_ok listed point
  rw [← pushed_exact_iff listed, ← coeffs, computed]
  constructor
  · rintro ⟨found, same, exact⟩
    obtain rfl := Except.ok.inj same
    exact exact
  · exact fun exact => ⟨quotient, rfl, exact⟩

end Quotient

section Verification
variable [Blake3] [Bandersnatch] {pc : PolynomialCommitment}

/-- The polynomial that `verify` commits to. -/
def recommitted (proof : OpeningProof) : DensePolynomial :=
  .fromCoefficientsVec (reconstructPolynomialFromQuotient proof.ipaProof.proofScalars proof.point proof.value)

theorem length_reconstruct (scalars : List ScalarField) (point value : ScalarField) :
    (reconstructPolynomialFromQuotient scalars point value).length = scalars.length + 1 := by
  simp [reconstructPolynomialFromQuotient]

/-- The reconstructed coefficients are those of `q * (X - z) + v`. -/
theorem poly_recommitted (proof : OpeningProof) :
    poly (recommitted proof).coeffs = poly proof.ipaProof.proofScalars * (X - C proof.point) + C proof.value := by
  rw [recommitted, poly_from_coefficients]
  generalize proof.ipaProof.proofScalars = scalars
  ext position
  rw [coeff_poly, Polynomial.coeff_add]
  cases position with
  | zero =>
    have first : scalars.head?.getD 0 = scalars.getD 0 0 := by cases scalars <;> rfl
    rw [Polynomial.mul_coeff_zero, Polynomial.coeff_sub, Polynomial.coeff_X_zero, Polynomial.coeff_C_zero,
      Polynomial.coeff_C_zero, coeff_poly, reconstructPolynomialFromQuotient, List.getD_cons_zero, first]
    ring
  | succ position =>
    rw [Polynomial.coeff_mul_X_sub_C, Polynomial.coeff_C_succ, add_zero, coeff_poly, coeff_poly,
      reconstructPolynomialFromQuotient, List.getD_cons_succ]
    by_cases within : position < scalars.length
    · rw [List.getD_eq_getElem _ _ (by simpa using within), List.getElem_map, List.getElem_range', Nat.one_mul,
        Nat.add_sub_cancel_left, Nat.add_comm 1 position]
      ring
    · rw [List.getD_eq_default _ _ (by simpa using within), List.getD_eq_default _ _ (by omega),
        List.getD_eq_default _ _ (by omega)]
      ring

theorem commit_fits {polynomial : DensePolynomial} (fits : polynomial.coeffs.length ≤ pc.generators.length) :
    pc.commit polynomial = .ok (pc.blindedSum polynomial.coeffs) := by
  rw [commit, if_neg (Nat.not_lt.mpr fits)]

/-- The answer of `verify`, check by check. -/
theorem verify_eq (commitment : Commitment) (proof : OpeningProof) :
    pc.verify commitment proof =
      if pc.generators.length < proof.ipaProof.proofScalars.length then .error .degreeTooHigh
      else if (pc.blindedSum proof.ipaProof.proofScalars).point ≠ proof.ipaProof.finalCommitment.point then .ok false
      else if (pc.blindedSum proof.ipaProof.proofScalars).point ≠ proof.quotientCommitment.point then .ok false
      else (pc.commit (recommitted proof)).map fun expected => decide (expected.point = commitment.point) := by
  rw [verify, verifyIpaProof, reconstructCommitmentFromScalars, recommitted]
  by_cases long : pc.generators.length < proof.ipaProof.proofScalars.length
  · rw [if_pos long, if_pos long]
    rfl
  · rw [if_neg long, if_neg long]
    simp only [bind, Except.bind, pure, Except.pure]
    split
    · rfl
    · split
      · rfl
      · cases pc.commit (.fromCoefficientsVec (reconstructPolynomialFromQuotient proof.ipaProof.proofScalars proof.point
          proof.value)) <;> rfl

/-- What `verify` accepts. -/
theorem verify_ok_iff {commitment : Commitment} {proof : OpeningProof} :
    pc.verify commitment proof = .ok true ↔
      proof.ipaProof.proofScalars.length ≤ pc.generators.length ∧
      (pc.blindedSum proof.ipaProof.proofScalars).point = proof.ipaProof.finalCommitment.point ∧
      (pc.blindedSum proof.ipaProof.proofScalars).point = proof.quotientCommitment.point ∧
      ∃ expected, pc.commit (recommitted proof) = .ok expected ∧ expected.point = commitment.point := by
  rw [verify_eq, ← not_lt]
  split
  · rename_i long
    simp [long]
  · rename_i fits
    split
    · rename_i different
      simp [different]
    · rename_i final
      split
      · rename_i different
        simp [different]
      · rename_i same
        rw [and_iff_right fits, and_iff_right (not_not.mp final), and_iff_right (not_not.mp same)]
        cases pc.commit (recommitted proof) <;> simp [Except.map]

/-- The scalars of an opening fit and give other commitments than it shows. -/
def Mismatched (pc : PolynomialCommitment) (commitment : Commitment) (proof : OpeningProof) : Prop :=
  proof.ipaProof.proofScalars.length ≤ pc.generators.length ∧
    ((pc.blindedSum proof.ipaProof.proofScalars).point ≠ proof.ipaProof.finalCommitment.point ∨
      (pc.blindedSum proof.ipaProof.proofScalars).point ≠ proof.quotientCommitment.point ∨
      ∃ expected, pc.commit (recommitted proof) = .ok expected ∧ expected.point ≠ commitment.point)

/-- An opening has more scalars than there are generators, or one of them is left for no further coefficient. -/
def Oversized (pc : PolynomialCommitment) (proof : OpeningProof) : Prop :=
  pc.generators.length < proof.ipaProof.proofScalars.length ∨
    ((pc.blindedSum proof.ipaProof.proofScalars).point = proof.ipaProof.finalCommitment.point ∧
      (pc.blindedSum proof.ipaProof.proofScalars).point = proof.quotientCommitment.point ∧
      pc.generators.length < (recommitted proof).coeffs.length)

/-- What `verify` says no about, without an error. -/
theorem verify_false_iff {commitment : Commitment} {proof : OpeningProof} :
    pc.verify commitment proof = .ok false ↔ Mismatched pc commitment proof := by
  rw [verify_eq, Mismatched, ← not_lt]
  split
  · rename_i long
    simp [long]
  · rename_i fits
    rw [and_iff_right fits]
    split
    · rename_i different
      exact iff_of_true rfl (.inl different)
    · rename_i final
      rw [or_iff_right final]
      split
      · rename_i different
        exact iff_of_true rfl (.inl different)
      · rename_i same
        rw [or_iff_right same]
        cases pc.commit (recommitted proof) <;> simp [Except.map]

/-- What `verify` fails on. -/
theorem verify_error_iff {commitment : Commitment} {proof : OpeningProof} :
    (∃ error, pc.verify commitment proof = .error error) ↔ Oversized pc proof := by
  rw [verify_eq, Oversized]
  split
  · rename_i long
    exact iff_of_true ⟨_, rfl⟩ (.inl long)
  · rename_i fits
    rw [or_iff_right fits]
    split
    · rename_i different
      simp [different]
    · rename_i final
      rw [and_iff_right (not_not.mp final)]
      split
      · rename_i different
        simp [different]
      · rename_i same
        rw [and_iff_right (not_not.mp same), commit]
        split
        · rename_i tooLong
          exact iff_of_true ⟨_, rfl⟩ tooLong
        · rename_i within
          simp [Except.map, not_lt.mp within]

/-- Of a commitment to the quotient itself, `verify` accepts only the opening of the zero polynomial at the
value zero. -/
theorem verify_own_quotient {proof : OpeningProof}
    (trimmed : (fromCoefficientsVec proof.ipaProof.proofScalars).coeffs = proof.ipaProof.proofScalars)
    (binding : Set.InjOn pc.commit {fromCoefficientsVec proof.ipaProof.proofScalars, recommitted proof})
    (accepted : pc.verify proof.quotientCommitment proof = .ok true) :
    proof.ipaProof.proofScalars = [] ∧ proof.value = 0 := by
  obtain ⟨fits, _, quotient, expected, again, point⟩ := verify_ok_iff.mp accepted
  have committed : pc.commit (fromCoefficientsVec proof.ipaProof.proofScalars) = pc.commit (recommitted proof) := by
    rw [commit_fits (by rw [trimmed]; exact fits), again, trimmed]
    refine congrArg Except.ok ?_
    have points := quotient.trans point.symm
    generalize pc.blindedSum proof.ipaProof.proofScalars = left at points
    cases left
    cases expected
    cases points
    rfl
  have same := congrArg (fun polynomial => poly polynomial.coeffs) (binding (.inl rfl) (.inr rfl) committed)
  simp only [trimmed, poly_recommitted] at same
  -- the quotient would be its own multiple by a polynomial of degree one, but for a constant
  have constant : poly proof.ipaProof.proofScalars * (X - C (proof.point + 1)) = C (-proof.value) := by
    rw [C_neg, eq_sub_of_add_eq' same.symm, Polynomial.C_add, C_1]
    ring
  have zero : poly proof.ipaProof.proofScalars = 0 := by
    by_contra present
    have degrees := congrArg Polynomial.degree constant
    rw [Polynomial.degree_mul, Polynomial.degree_X_sub_C, Polynomial.degree_eq_natDegree present] at degrees
    have low := degrees.le.trans Polynomial.degree_C_le
    norm_cast at low
  rw [zero, zero_mul, eq_comm, Polynomial.C_eq_zero, neg_eq_zero] at constant
  refine ⟨?_, constant⟩
  rw [← trimmed]
  exact poly_injective (fromCoefficientsVec _).trimmed (fun present => absurd rfl present) (by rw [trimmed, zero, poly_nil])

/-- An accepted opening of a committed polynomial gives the value of this polynomial at its point. -/
theorem verify_sound {polynomial : DensePolynomial} {commitment : Commitment} {proof : OpeningProof}
    (committed : pc.commit polynomial = .ok commitment)
    (binding : Set.InjOn pc.commit {polynomial, recommitted proof})
    (accepted : pc.verify commitment proof = .ok true) : polynomial.evaluate proof.point = proof.value := by
  obtain ⟨_, _, _, expected, again, point⟩ := verify_ok_iff.mp accepted
  have sameCommitment : pc.commit polynomial = pc.commit (recommitted proof) := by
    rw [committed, again]
    cases commitment
    cases expected
    cases point
    rfl
  have same : polynomial = recommitted proof := binding (.inl rfl) (.inr rfl) sameCommitment
  rw [same, evaluate, ← eval_poly, poly_recommitted]
  simp

/-- What `open` returns for a polynomial that is not zero. -/
theorem open_ok {polynomial : DensePolynomial} {first : ScalarField} {rest : List ScalarField}
    (listed : polynomial.coeffs = first :: rest) (fits : polynomial.coeffs.length ≤ pc.generators.length)
    (point : ScalarField) :
    ∃ proof, pc.openAt polynomial point (polynomial.evaluate point) = .ok proof ∧ proof.point = point ∧
      proof.value = polynomial.evaluate point ∧
      proof.ipaProof.proofScalars = (suffixValues point rest).filter (· ≠ 0) ∧
      proof.quotientCommitment = pc.blindedSum proof.ipaProof.proofScalars ∧
      proof.ipaProof.finalCommitment = pc.blindedSum proof.ipaProof.proofScalars := by
  obtain ⟨quotient, computed, coeffs⟩ := compute_quotient_ok listed point
  have width : polynomial.coeffs.length = rest.length + 1 := by rw [listed, List.length_cons]
  have short : quotient.coeffs.length ≤ rest.length := by
    rw [coeffs]
    exact (List.length_filter_le _ _).trans (length_suffixValues point rest).le
  have committed : pc.commit quotient = .ok (pc.blindedSum quotient.coeffs) := commit_fits (by omega)
  refine ⟨⟨pc.blindedSum quotient.coeffs, ⟨pc.blindedSum quotient.coeffs, quotient.coeffs⟩, point,
    polynomial.evaluate point⟩, ?_, rfl, rfl, coeffs, rfl, rfl⟩
  rw [openAt, if_neg (not_not.mpr rfl), computed]
  simp only [bind, Except.bind, generateIpaProof, committed]
  rfl

/-- The zero polynomial is not opened. -/
theorem open_zero_panics {polynomial : DensePolynomial} (zero : polynomial.coeffs = []) (point : ScalarField) :
    pc.openAt polynomial point (polynomial.evaluate point) = .error .panic := by
  rw [openAt, if_neg (not_not.mpr rfl), computeQuotientPolynomial, zero]
  rfl

theorem commit_recommitted {proof : OpeningProof}
    (fits : proof.ipaProof.proofScalars.length < pc.generators.length) :
    pc.commit (recommitted proof) = .ok (pc.blindedSum (recommitted proof).coeffs) := by
  refine commit_fits ?_
  have short := from_coefficients_length_le
    (reconstructPolynomialFromQuotient proof.ipaProof.proofScalars proof.point proof.value)
  rw [length_reconstruct] at short
  rw [recommitted]
  omega

/-- The polynomial that is opened is recommitted exactly when no coefficient of its quotient is zero. -/
theorem recommitted_eq_iff {polynomial : DensePolynomial} {first : ScalarField} {rest : List ScalarField}
    (listed : polynomial.coeffs = first :: rest) {proof : OpeningProof}
    (value : proof.value = polynomial.evaluate proof.point)
    (scalars : proof.ipaProof.proofScalars = (suffixValues proof.point rest).filter (· ≠ 0)) :
    recommitted proof = polynomial ↔
      ∀ start, 0 < start → start < polynomial.coeffs.length → horner proof.point (polynomial.coeffs.drop start) ≠ 0 := by
  rw [← pushed_exact_iff listed, eq_sub_iff_add_eq, ← value, ← scalars, ← poly_recommitted]
  constructor
  · intro same
    rw [same]
  · exact ext_poly

/-- Whether the opening that `open` returns is accepted. -/
theorem opened_verifies_iff {polynomial : DensePolynomial} {first : ScalarField} {rest : List ScalarField}
    (listed : polynomial.coeffs = first :: rest) (fits : polynomial.coeffs.length ≤ pc.generators.length)
    {point : ScalarField} {proof : OpeningProof}
    (opened : pc.openAt polynomial point (polynomial.evaluate point) = .ok proof) :
    pc.verify (pc.blindedSum polynomial.coeffs) proof = .ok true ↔
      pc.commit (recommitted proof) = pc.commit polynomial := by
  obtain ⟨expected, ran, _, _, scalars, quotient, final⟩ := open_ok listed fits point
  obtain rfl : expected = proof := Except.ok.inj (ran.symm.trans opened)
  have width : polynomial.coeffs.length = rest.length + 1 := by rw [listed, List.length_cons]
  have short : expected.ipaProof.proofScalars.length < pc.generators.length := by
    have kept := List.length_filter_le (· ≠ 0) (suffixValues point rest)
    rw [length_suffixValues] at kept
    rw [scalars]
    omega
  rw [verify_ok_iff, commit_fits fits, commit_recommitted short, quotient, final]
  constructor
  · rintro ⟨_, _, _, recommitment, same, points⟩
    cases same
    cases recommitted : pc.blindedSum (recommitted expected).coeffs
    cases committed : pc.blindedSum polynomial.coeffs
    rw [recommitted, committed] at points
    cases points
    rfl
  · intro same
    exact ⟨short.le, rfl, rfl, _, rfl, congrArg Commitment.point (Except.ok.inj same)⟩

/-- An honest opening is accepted exactly when the polynomial is not zero and its quotient by `X - z` has
no coefficient zero. -/
theorem opening_verifies_iff {polynomial : DensePolynomial} {point : ScalarField}
    (fits : polynomial.coeffs.length ≤ pc.generators.length)
    (binding : ∀ proof, pc.openAt polynomial point (polynomial.evaluate point) = .ok proof →
      Set.InjOn pc.commit {polynomial, recommitted proof}) :
    (∃ proof commitment, pc.openAt polynomial point (polynomial.evaluate point) = .ok proof ∧
      pc.commit polynomial = .ok commitment ∧ pc.verify commitment proof = .ok true) ↔
    polynomial.coeffs ≠ [] ∧ ∀ start, 0 < start → start < polynomial.coeffs.length →
      horner point (polynomial.coeffs.drop start) ≠ 0 := by
  cases listed : polynomial.coeffs with
  | nil =>
    rw [open_zero_panics listed]
    simp
  | cons first rest =>
    obtain ⟨proof, opened, atPoint, ofValue, scalars, _, _⟩ := open_ok listed fits point
    rw [← atPoint] at ofValue scalars
    rw [← listed, and_iff_right (by rw [listed]; exact List.cons_ne_nil _ _), ← atPoint,
      ← recommitted_eq_iff listed ofValue scalars, atPoint]
    constructor
    · rintro ⟨found, commitment, again, committed, accepted⟩
      obtain rfl : proof = found := Except.ok.inj (opened.symm.trans again)
      rw [commit_fits fits] at committed
      cases committed
      exact binding proof opened (.inr rfl) (.inl rfl) ((opened_verifies_iff listed fits opened).mp accepted)
    · intro same
      refine ⟨proof, _, opened, commit_fits fits, (opened_verifies_iff listed fits opened).mpr ?_⟩
      rw [same]

/-- `verify` answers, whatever it is asked about, when the scalars leave room for one more coefficient. -/
theorem verify_answers {proof : OpeningProof} (fits : proof.ipaProof.proofScalars.length < pc.generators.length)
    (commitment : Commitment) : ∃ answer, pc.verify commitment proof = .ok answer := by
  rw [verify_eq, if_neg (Nat.lt_asymm fits), commit_recommitted fits]
  split
  · exact ⟨false, rfl⟩
  · split
    · exact ⟨false, rfl⟩
    · exact ⟨_, rfl⟩

/-- `open` panics on the zero polynomial at the value zero, and else returns an error or an opening that
`verify` answers about. -/
theorem open_cases {polynomial : DensePolynomial} (fits : polynomial.coeffs.length ≤ pc.generators.length)
    (point value : ScalarField) :
    (polynomial.coeffs = [] ∧ value = 0 ∧ pc.openAt polynomial point value = .error .panic) ∨
    (¬ (polynomial.coeffs = [] ∧ value = 0) ∧
      ((∃ error, pc.openAt polynomial point value = .error (.err error)) ∨
        ∃ proof, pc.openAt polynomial point value = .ok proof ∧
          ∀ commitment, ∃ answer, pc.verify commitment proof = .ok answer)) := by
  by_cases right : polynomial.evaluate point = value
  · subst right
    cases listed : polynomial.coeffs with
    | nil =>
      have zero : polynomial.evaluate point = 0 := by rw [evaluate, listed, horner]
      exact .inl ⟨rfl, zero, open_zero_panics listed point⟩
    | cons first rest =>
      obtain ⟨proof, opened, _, _, scalars, _, _⟩ := open_ok listed fits point
      have kept := List.length_filter_le (· ≠ 0) (suffixValues point rest)
      rw [length_suffixValues] at kept
      have width : polynomial.coeffs.length = rest.length + 1 := by rw [listed, List.length_cons]
      refine .inr ⟨fun absurdity => absurd absurdity.1 (List.cons_ne_nil first rest), .inr ⟨proof, opened, verify_answers ?_⟩⟩
      rw [scalars]
      omega
  · refine .inr ⟨?_, .inl ⟨.invalidEvaluation, by rw [openAt, if_pos right]⟩⟩
    rintro ⟨empty, rfl⟩
    rw [evaluate, empty, horner] at right
    exact right rfl

end Verification

section Runs
open Klomang.Sample

/-- Three generators and no blinding. -/
def powers : PolynomialCommitment := ⟨([1, 2, 4] : List ℚ), (0 : ℚ)⟩

/-- The polynomial `1 + 2 X`. -/
def slope : DensePolynomial := ⟨([1, 2] : List ℚ), by decide +kernel⟩

/-- The polynomial `X ^ 2`. -/
def square : DensePolynomial := ⟨([0, 0, 1] : List ℚ), by decide +kernel⟩

theorem ext_coeffs {left right : DensePolynomial} (same : left.coeffs = right.coeffs) : left = right :=
  ext_poly (congrArg poly same)

/-- The opening of `1 + 2 X` at three. -/
def slopeProof : OpeningProof :=
  ⟨powers.blindedSum ([2] : List ℚ), ⟨powers.blindedSum ([2] : List ℚ), ([2] : List ℚ)⟩, (3 : ℚ), (7 : ℚ)⟩

theorem slope_recommitted : recommitted slopeProof = slope :=
  ext_coeffs (show (recommitted slopeProof).coeffs = ([1, 2] : List ℚ) by decide +kernel)

/-- The opening at three is accepted and gives seven. -/
theorem slope_sound : slope.evaluate (3 : ℚ) = (7 : ℚ) := by
  have committed : powers.commit slope = .ok (powers.blindedSum slope.coeffs) := commit_fits (by decide)
  have accepted : powers.verify (powers.blindedSum slope.coeffs) slopeProof = .ok true := by decide +kernel
  exact verify_sound committed (by rw [slope_recommitted]; simp) accepted

theorem slope_leading (point : ℚ) (start : Nat) (positive : 0 < start) (within : start < slope.coeffs.length) :
    horner (R := ℚ) point (slope.coeffs.drop start) ≠ 0 := by
  obtain rfl : start = 1 := by
    have short : slope.coeffs.length = 2 := rfl
    omega
  intro zero
  have two : (2 : ℚ) + point * 0 = 0 := zero
  simp at two

/-- A quotient with one coefficient is exact. -/
theorem slope_quotient_exact :
    ∃ quotient, computeQuotientPolynomial slope (3 : ℚ) (slope.evaluate (3 : ℚ)) = .ok quotient ∧
      poly quotient.coeffs * (X - C (3 : ℚ)) = poly slope.coeffs - C (slope.evaluate (3 : ℚ)) :=
  (quotient_exact_iff (by decide) (3 : ℚ)).mpr (slope_leading 3)

/-- A quotient with one coefficient is opened. -/
theorem slope_opened :
    ∃ proof commitment, powers.openAt slope (3 : ℚ) (slope.evaluate (3 : ℚ)) = .ok proof ∧
      powers.commit slope = .ok commitment ∧ powers.verify commitment proof = .ok true := by
  have fits : slope.coeffs.length ≤ powers.generators.length := by decide
  have listed : slope.coeffs = (1 : ℚ) :: ([2] : List ℚ) := rfl
  refine (opening_verifies_iff fits fun proof opened => ?_).mpr ⟨by decide, slope_leading 3⟩
  obtain ⟨expected, ran, atPoint, value, scalars, _, _⟩ := open_ok listed fits (3 : ℚ)
  obtain rfl : expected = proof := Except.ok.inj (ran.symm.trans opened)
  rw [← atPoint] at value scalars
  rw [(recommitted_eq_iff rfl value scalars).mpr (slope_leading expected.point)]
  simp

/-- The quotient of `X ^ 2` at zero is computed as one, not as `X`. -/
theorem square_quotient_inexact :
    ∃ quotient, computeQuotientPolynomial square (0 : ℚ) (square.evaluate (0 : ℚ)) = .ok quotient ∧
      quotient.coeffs = ([1] : List ℚ) ∧
      poly quotient.coeffs * (X - C (0 : ℚ)) ≠ poly square.coeffs - C (square.evaluate (0 : ℚ)) := by
  have listed : square.coeffs = (0 : ℚ) :: ([0, 1] : List ℚ) := rfl
  obtain ⟨quotient, computed, coeffs⟩ := compute_quotient_ok listed (0 : ℚ)
  have one : (suffixValues (0 : ℚ) ([0, 1] : List ℚ)).filter (· ≠ 0) = [1] := by decide +kernel
  refine ⟨quotient, computed, coeffs.trans one, fun exact => ?_⟩
  rw [coeffs] at exact
  exact (pushed_exact_iff listed (0 : ℚ)).mp exact 1 (by decide) (by decide) (by decide +kernel)

/-- The zero polynomial is not opened, and the opening of `X ^ 2` at zero is not accepted although its
commitment differs from the one that is compared with it. -/
theorem square_not_opened :
    powers.openAt (.fromCoefficientsVec []) (0 : ℚ) ((fromCoefficientsVec []).evaluate (0 : ℚ)) = .error .panic ∧
    (∀ proof, powers.openAt square (0 : ℚ) (square.evaluate (0 : ℚ)) = .ok proof →
      Set.InjOn powers.commit {square, recommitted proof}) ∧
    ¬ ∃ proof commitment, powers.openAt square (0 : ℚ) (square.evaluate (0 : ℚ)) = .ok proof ∧
      powers.commit square = .ok commitment ∧ powers.verify commitment proof = .ok true := by
  have fits : square.coeffs.length ≤ powers.generators.length := by decide
  have listed : square.coeffs = (0 : ℚ) :: ([0, 1] : List ℚ) := rfl
  have different : ∀ proof, powers.openAt square (0 : ℚ) (square.evaluate (0 : ℚ)) = .ok proof →
      powers.commit (recommitted proof) ≠ powers.commit square := by
    intro proof opened
    obtain ⟨expected, ran, atPoint, value, scalars, _, _⟩ := open_ok listed fits (0 : ℚ)
    obtain rfl : expected = proof := Except.ok.inj (ran.symm.trans opened)
    have one : (suffixValues (0 : ℚ) ([0, 1] : List ℚ)).filter (· ≠ 0) = [1] := by decide +kernel
    have linear : recommitted expected = .fromCoefficientsVec
        (reconstructPolynomialFromQuotient ([1] : List ℚ) (0 : ℚ) (square.evaluate (0 : ℚ))) := by
      rw [recommitted, scalars, atPoint, value]
      exact congrArg (fun scalars => fromCoefficientsVec (reconstructPolynomialFromQuotient scalars (0 : ℚ)
        (square.evaluate (0 : ℚ)))) one
    rw [linear, commit_fits (by decide +kernel), commit_fits (by decide)]
    intro same
    have points := congrArg Commitment.point (Except.ok.inj same)
    revert points
    decide +kernel
  refine ⟨open_zero_panics rfl _, fun proof opened => ?_, ?_⟩
  · rintro left (rfl | rfl) right (rfl | rfl) same
    · rfl
    · exact absurd same.symm (different proof opened)
    · exact absurd same (different proof opened)
    · rfl
  · rintro ⟨proof, commitment, opened, committed, accepted⟩
    rw [commit_fits (by decide)] at committed
    cases committed
    exact different proof opened ((opened_verifies_iff listed fits opened).mp accepted)

end Runs
end Klomang.PolynomialCommitment
