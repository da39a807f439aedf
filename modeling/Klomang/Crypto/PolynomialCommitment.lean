import Klomang.Crypto.Hash
import Mathlib.Algebra.Module.Defs
import Mathlib.Algebra.Field.Defs
import Mathlib.Algebra.BigOperators.Group.List.Basic
import Mathlib.Data.List.DropRight
import Mathlib.Data.Nat.Find

/-! `core/crypto/verkle/polynomial_commitment.rs`: vector commitments. The
arkworks curve and its scalar field are parameters. -/
namespace Klomang

/-- What the source uses of the Bandersnatch curve. `scalar_found` is what ends
the search of `hash_to_curve`. -/
class Bandersnatch [Blake3] where
  ScalarField : Type
  EdwardsPoint : Type
  [field : Field ScalarField]
  [scalarEq : DecidableEq ScalarField]
  [group : AddCommGroup EdwardsPoint]
  [module : Module ScalarField EdwardsPoint]
  [pointEq : DecidableEq EdwardsPoint]
  generator : EdwardsPoint
  fromLeBytesModOrder : List UInt8 → ScalarField
  toBytesLe : ScalarField → List UInt8
  serializeUncompressed : EdwardsPoint → List UInt8
  scalar_found : ∀ prelude : List UInt8, ∃ counter : Nat,
    fromLeBytesModOrder (Hash.new (prelude ++ Bytes.leBytes 8 counter)).bytes ≠ 0

open Bandersnatch (ScalarField EdwardsPoint)

variable [Blake3] [Bandersnatch]

instance : Field ScalarField := Bandersnatch.field
instance : DecidableEq ScalarField := Bandersnatch.scalarEq
instance : AddCommGroup EdwardsPoint := Bandersnatch.group
instance : Module ScalarField EdwardsPoint := Bandersnatch.module
instance : DecidableEq EdwardsPoint := Bandersnatch.pointEq

/-- `DensePolynomial`: coefficients from the lowest degree up, the last one not zero. -/
structure DensePolynomial where
  coeffs : List ScalarField
  trimmed : ∀ present : coeffs ≠ [], coeffs.getLast present ≠ 0

/-- `DensePolynomial::from_coefficients_vec`: trailing zeros are dropped. -/
def DensePolynomial.fromCoefficientsVec (coeffs : List ScalarField) : DensePolynomial where
  coeffs := coeffs.rdropWhile (· = 0)
  trimmed present := by
    have last := List.rdropWhile_last_not (fun c : ScalarField => decide (c = 0)) coeffs present
    simpa using last

theorem from_coefficients_length_le (coeffs : List ScalarField) :
    (DensePolynomial.fromCoefficientsVec coeffs).coeffs.length ≤ coeffs.length :=
  (List.rdropWhile_prefix _ _).length_le

/-- What trimming drops are zeros. -/
theorem from_coefficients_append_zeros (coeffs : List ScalarField) :
    (DensePolynomial.fromCoefficientsVec coeffs).coeffs ++
      List.replicate (coeffs.length - (DensePolynomial.fromCoefficientsVec coeffs).coeffs.length) 0 = coeffs := by
  have split : coeffs.rdropWhile (· = 0) ++ coeffs.rtakeWhile (· = 0) = coeffs := List.rdropWhile_append_rtakeWhile
  have zeros : coeffs.rtakeWhile (· = 0) = List.replicate (coeffs.rtakeWhile (· = 0)).length 0 := by
    refine List.eq_replicate_iff.mpr ⟨rfl, fun coefficient member => ?_⟩
    simpa using List.mem_rtakeWhile_imp member
  have width := congrArg List.length split
  rw [List.length_append] at width
  have dropped : coeffs.length - (coeffs.rdropWhile (· = 0)).length = (coeffs.rtakeWhile (· = 0)).length := by omega
  rw [DensePolynomial.fromCoefficientsVec, dropped, ← zeros]
  exact split

/-- Coefficient vectors of one length are the same when their polynomials are. -/
theorem from_coefficients_injective {left right : List ScalarField} (width : left.length = right.length)
    (same : DensePolynomial.fromCoefficientsVec left = DensePolynomial.fromCoefficientsVec right) :
    left = right := by
  rw [← from_coefficients_append_zeros left, ← from_coefficients_append_zeros right, same, width]

/-- Equal coefficients that are not zero are not trimmed. -/
theorem from_coefficients_replicate (count : Nat) {scalar : ScalarField} (present : scalar ≠ 0) :
    (DensePolynomial.fromCoefficientsVec (List.replicate count scalar)).coeffs = List.replicate count scalar := by
  refine List.rdropWhile_eq_self_iff.mpr fun inhabited => ?_
  rw [List.getLast_replicate]
  simpa using present

inductive PolynomialCommitmentError where
  | degreeTooHigh
  | invalidEvaluation
  | invalidProof
  | serializationError (msg : String)
  deriving DecidableEq

/-- The `Display` text of a commitment error. -/
def PolynomialCommitmentError.text : PolynomialCommitmentError → String
  | .degreeTooHigh => "Polynomial degree too high for available generators"
  | .invalidEvaluation => "Polynomial evaluation mismatch"
  | .invalidProof => "Invalid IPA opening proof"
  | .serializationError msg => "Serialization error: " ++ msg

/-- `Commitment`: a curve point. -/
structure Commitment where
  point : EdwardsPoint

structure PolynomialCommitment where
  generators : List EdwardsPoint
  randomPoint : EdwardsPoint

namespace PolynomialCommitment

/-- The scalar that `hash_to_curve` tries at a counter; the counter wraps at 64 bits. -/
def scalarAt (tag : String) (index counter : Nat) : ScalarField :=
  Bandersnatch.fromLeBytesModOrder
    (Hash.new ((tag.toUTF8.toList ++ Bytes.leBytes 8 index) ++ Bytes.leBytes 8 counter)).bytes

/-- `hash_to_curve`: the first counter that gives a non-zero scalar. -/
def hashToCurve (tag : String) (index : Nat) : EdwardsPoint :=
  scalarAt tag index (Nat.find (Bandersnatch.scalar_found (tag.toUTF8.toList ++ Bytes.leBytes 8 index))) •
    (Bandersnatch.generator : EdwardsPoint)

/-- `generate_generator_point`. -/
def generateGeneratorPoint (index : Nat) : EdwardsPoint := hashToCurve "KLOMANG_GENERATOR" index

/-- `PolynomialCommitment::new`. -/
def new (generatorCount : Nat) : PolynomialCommitment where
  generators := (List.range generatorCount).map generateGeneratorPoint
  randomPoint := generateGeneratorPoint generatorCount

/-- `generate_blinding_factor`. -/
def generateBlindingFactor (coeffs : List ScalarField) : ScalarField :=
  Bandersnatch.fromLeBytesModOrder
    (Hash.new ("KLOMANG_COMMITMENT_BLINDING".toUTF8.toList ++ coeffs.flatMap Bandersnatch.toBytesLe)).bytes

/-- The multi-scalar multiplication with its blinding term. -/
def blindedSum (pc : PolynomialCommitment) (coeffs : List ScalarField) : Commitment :=
  ⟨(List.zipWith (· • ·) coeffs pc.generators).sum + generateBlindingFactor coeffs • pc.randomPoint⟩

/-- `PolynomialCommitment::commit`. -/
def commit (pc : PolynomialCommitment) (polynomial : DensePolynomial) :
    Except PolynomialCommitmentError Commitment :=
  if polynomial.coeffs.length > pc.generators.length then .error .degreeTooHigh
  else .ok (pc.blindedSum polynomial.coeffs)

@[simp] theorem length_generators (generatorCount : Nat) :
    (new generatorCount).generators.length = generatorCount := by
  simp [new]

/-- A commitment to no more coefficients than there are generators succeeds. -/
theorem commit_ok (generatorCount : Nat) {coeffs : List ScalarField}
    (fits : coeffs.length ≤ generatorCount) :
    (new generatorCount).commit (.fromCoefficientsVec coeffs) =
      .ok ((new generatorCount).blindedSum (DensePolynomial.fromCoefficientsVec coeffs).coeffs) := by
  have short := (from_coefficients_length_le coeffs).trans fits
  rw [commit, if_neg (by rw [length_generators]; omega)]

end PolynomialCommitment
end Klomang
