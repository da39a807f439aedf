import Klomang.State.VTrieRuns
import Mathlib.Algebra.Field.Rat
import Mathlib.Algebra.Order.Ring.Rat
import Mathlib.Data.Nat.Cast.Order.Ring
import Mathlib.Tactic.NormNum
import Mathlib.Tactic.Ring

/-! Binding of the state tree's proofs. The verifier takes every sibling from the prover, but under
one root two accepted proofs along one path commit to the same vectors from the root down, as far
as the path goes; so they end in one leaf.

A hash has 32 bytes, so no commitment can be injective on all polynomials. What is assumed is that
the polynomials and the values of the two proofs at hand do not collide. -/
namespace Klomang.VerkleTree

open Bandersnatch (ScalarField)

variable [Blake3] [Bandersnatch] {first second : VerkleProof}

section Collisions

/-- The scalar of the root of what a polynomial commits to. -/
def polynomialScalar (polynomial : DensePolynomial) : ScalarField :=
  rootScalar (commitmentRootHash ((PolynomialCommitment.new verkleRadix).blindedSum polynomial.coeffs))

/-- No two of the polynomials have one scalar, and no value shares its scalar with another one or
with an empty leaf. -/
structure CollisionFree (polynomials : Set DensePolynomial) (values : Set (List UInt8)) : Prop where
  commitment : Set.InjOn polynomialScalar polynomials
  value : Set.InjOn valueToScalar values
  nonzero : ∀ value ∈ values, valueToScalar value ≠ 0

/-- The polynomial of a leaf. -/
def leafPolynomial (value : Option (List UInt8)) : DensePolynomial := .fromCoefficientsVec [leafScalar value]

/-- The polynomial of a node whose children have the given scalars. -/
def nodePolynomial (vector : UInt8 → ScalarField) : DensePolynomial :=
  .fromCoefficientsVec (childIndices.map vector)

/-- The polynomials that the verifier commits to for a proof. -/
def committedTo (proof : VerkleProof) : List DensePolynomial :=
  leafPolynomial proof.leafValue ::
    (Openings.vectors vectorRoot rootScalar (proofLevels proof.path proof.siblings keySize)
      (leafRoot proof.leafValue)).map nodePolynomial

/-- Nothing in the verification of two proofs collides. -/
def Collisionless (first second : VerkleProof) : Prop :=
  CollisionFree {polynomial | polynomial ∈ committedTo first ∨ polynomial ∈ committedTo second}
    {value | first.leafValue = some value ∨ second.leafValue = some value}

/-- The coefficients are in the order of the children, so trimming loses none of them. -/
theorem node_polynomial_injective : Function.Injective nodePolynomial := by
  intro left right same
  have coefficients := from_coefficients_injective (by simp) same
  exact funext fun child => List.map_inj_left.mp coefficients child (mem_child_indices child)

theorem Collisionless.vectors (collisionless : Collisionless first second) :
    Set.InjOn (rootScalar ∘ vectorRoot)
      {vector |
        vector ∈ Openings.vectors vectorRoot rootScalar (proofLevels first.path first.siblings keySize)
          (leafRoot first.leafValue) ∨
        vector ∈ Openings.vectors vectorRoot rootScalar (proofLevels second.path second.siblings keySize)
          (leafRoot second.leafValue)} := by
  intro left leftMember right rightMember same
  refine node_polynomial_injective (collisionless.commitment ?_ ?_ same)
  · exact leftMember.imp (fun member => List.mem_cons_of_mem _ (List.mem_map_of_mem member))
      fun member => List.mem_cons_of_mem _ (List.mem_map_of_mem member)
  · exact rightMember.imp (fun member => List.mem_cons_of_mem _ (List.mem_map_of_mem member))
      fun member => List.mem_cons_of_mem _ (List.mem_map_of_mem member)

/-- A leaf's scalar tells its value. -/
theorem Collisionless.leaf (collisionless : Collisionless first second)
    (same : rootScalar (leafRoot first.leafValue) = rootScalar (leafRoot second.leafValue)) :
    first.leafValue = second.leafValue := by
  have polynomials : leafPolynomial first.leafValue = leafPolynomial second.leafValue :=
    collisionless.commitment (.inl List.mem_cons_self) (.inr List.mem_cons_self) same
  have single : [leafScalar first.leafValue] = [leafScalar second.leafValue] :=
    from_coefficients_injective rfl polynomials
  have scalars := (List.cons.inj single).1
  cases left : first.leafValue with
  | none =>
    cases right : second.leafValue with
    | none => rfl
    | some value =>
      simp only [left, right] at scalars
      exact absurd scalars.symm (collisionless.nonzero value (.inr right))
  | some value =>
    cases right : second.leafValue with
    | none =>
      simp only [left, right] at scalars
      exact absurd scalars (collisionless.nonzero value (.inl left))
    | some other =>
      simp only [left, right] at scalars
      exact congrArg some (collisionless.value (.inl left) (.inr right) scalars)

end Collisions

section Binding

omit [Blake3] [Bandersnatch] in
theorem proof_levels_path (path : List UInt8) (siblings other : List Hash) (depths : Nat) :
    (proofLevels path siblings depths).map Prod.fst = (proofLevels path other depths).map Prod.fst := by
  simp [proofLevels]

/-- Two accepted proofs with one root and one path have one leaf value. -/
theorem accepted_bound (firstAccepted : Accepted first) (secondAccepted : Accepted second)
    (root : first.root = second.root) (path : first.path = second.path)
    (collisionless : Collisionless first second) : first.leafValue = second.leafValue := by
  refine collisionless.leaf (Openings.bottom_bound ?_ collisionless.vectors ?_)
  · rw [path]
    exact proof_levels_path _ _ _ _
  · rw [firstAccepted.rebuilt, secondAccepted.rebuilt, root]

/-- The verifier of an opening commits to its leaf and to the nodes above it. -/
theorem committed_to_opening {label : List UInt8 → Hash}
    (labelled : Openings.Labelled vectorRoot rootScalar keySize label) (key : Bytes32) {proof : VerkleProof}
    (path : proof.path = key.bytes)
    (siblings : proof.siblings = (Openings.opening label [] key.bytes).flatMap shown)
    (leaf : label key.bytes = leafRoot proof.leafValue) :
    ∀ polynomial ∈ committedTo proof, polynomial = leafPolynomial proof.leafValue ∨
      ∃ node, node <+: key.bytes ∧ node.length < keySize ∧
        polynomial = nodePolynomial fun child => rootScalar (label (node ++ [child])) := by
  have levels := proof_levels_flat (Openings.opening label [] key.bytes)
  simp only [Openings.opening_path, Openings.length_opening, length_key] at levels
  have whole : ([] : List UInt8).length + key.bytes.length ≤ keySize := by
    rw [length_key, List.length_nil, Nat.zero_add]
  have inner := Openings.vectors_opening labelled [] key.bytes whole
  simp only [List.nil_append, leaf] at inner
  intro polynomial member
  simp only [committedTo, List.mem_cons] at member
  rcases member with rfl | member
  · exact .inl rfl
  · obtain ⟨vector, there, rfl⟩ := List.mem_map.mp member
    rw [path, siblings, levels] at there
    obtain ⟨node, on, within, rfl⟩ := inner vector there
    exact .inr ⟨node, on, within, rfl⟩

variable {S T : Type} [Storage S] [Storage T]

/-- An accepted proof binds its prover. Any other accepted proof with its root and its path has its
leaf value, and so has the proof that a tree with that root generates for that key. -/
theorem proofs_bind {verifier : VerkleTree S} (reached : Reached verifier) {proof : VerkleProof}
    (accepted : verifier.verifyProof proof = .ok true) :
    (∀ (another : VerkleTree T) (other : VerkleProof), Reached another →
      another.verifyProof other = .ok true → other.root = proof.root → other.path = proof.path →
      Collisionless other proof → other.leafValue = proof.leafValue) ∧
    ∀ (tree : VerkleTree T) (key : Bytes32) (generated : VerkleProof), Reached tree →
      tree.getRoot.1 = .ok proof.root → proof.path = key.bytes →
      (tree.generateProof key).1 = .ok generated → Collisionless proof generated →
      proof.leafValue = generated.leafValue := by
  have sound := (reached.coherent.verify_proof proof).mp accepted
  refine ⟨fun another other known also root path collisionless => ?_,
    fun tree key generated known root path made collisionless => ?_⟩
  · exact accepted_bound ((known.coherent.verify_proof other).mp also) sound root path collisionless
  · simp only [(known.coherent.generate_proof key).1] at made
    simp only [known.coherent.get_root.1] at root
    cases made
    have honest := storage_proof_accepted known.coherent.rooted key
    exact accepted_bound sound honest (Except.ok.inj root).symm path collisionless

end Binding

section Uniform
variable {value : List UInt8}

/-- The roots of the tree in which every key holds one value. -/
def uniformRoot (value : List UInt8) : Nat → Hash
  | 0 => leafRoot (some value)
  | levels + 1 => vectorRoot fun _ => rootScalar (uniformRoot value levels)

/-- What that tree commits to at each level. -/
def uniformPolynomial (value : List UInt8) : Nat → DensePolynomial
  | 0 => leafPolynomial (some value)
  | levels + 1 => nodePolynomial fun _ => rootScalar (uniformRoot value levels)

/-- The proof of one of its keys. -/
def uniformProof (key : Bytes32) (value : List UInt8) : VerkleProof where
  proofType := .membership
  path := key.bytes
  siblings := (Openings.opening (fun node => uniformRoot value (keySize - node.length)) [] key.bytes).flatMap shown
  leafValue := some value
  root := uniformRoot value keySize
  gasFeeDistribution := none

theorem uniform_labelled (value : List UInt8) :
    Openings.Labelled vectorRoot rootScalar keySize fun node => uniformRoot value (keySize - node.length) := by
  intro node inner
  have level : keySize - node.length = keySize - (node.length + 1) + 1 := by omega
  simp only [List.length_append, List.length_singleton]
  rw [level, uniformRoot]

theorem uniform_accepted (key : Bytes32) (value : List UInt8) : Accepted (uniformProof key value) := by
  refine opening_accepted (uniform_labelled value) key rfl rfl ?_ ?_ rfl rfl
  · simp [uniformProof]
  · rw [length_key, Nat.sub_self]
    rfl

theorem polynomial_scalar_uniform (value : List UInt8) (levels : Nat) :
    polynomialScalar (uniformPolynomial value levels) = rootScalar (uniformRoot value levels) := by
  cases levels <;> rfl

theorem committed_to_uniform (key : Bytes32) :
    ∀ polynomial ∈ committedTo (uniformProof key value), ∃ levels ≤ keySize,
      polynomial = uniformPolynomial value levels := by
  have leaf : uniformRoot value (keySize - key.bytes.length) = leafRoot (uniformProof key value).leafValue := by
    rw [length_key, Nat.sub_self]
    rfl
  have shows : ∀ polynomial ∈ committedTo (uniformProof key value), _ :=
    committed_to_opening (uniform_labelled value) key rfl rfl leaf
  intro polynomial member
  rcases shows polynomial member with rfl | ⟨node, _, within, rfl⟩
  · exact ⟨0, Nat.zero_le _, rfl⟩
  · refine ⟨keySize - (node.length + 1) + 1, by omega, ?_⟩
    simp only [List.length_append, List.length_singleton]
    rfl

end Uniform
end Klomang.VerkleTree

/-! Scalars that count: a node whose children all have one scalar has the next one but one. -/
namespace Klomang.Counting

open VerkleTree
open Bandersnatch (ScalarField)

scoped instance blake3 : Blake3 :=
  ⟨fun data => ⟨Bytes.leBytes 32 (if data.length = 64 then Bytes.ofLE data else 255), by simp⟩⟩

scoped instance bandersnatch : Bandersnatch where
  ScalarField := ℚ
  EdwardsPoint := ℚ
  generator := 1 / 65536
  fromLeBytesModOrder bytes := Bytes.ofLE bytes + 1
  toBytesLe _ := []
  serializeUncompressed point := Bytes.leBytes 64 point.num.natAbs
  scalar_found _ := ⟨0, (Nat.cast_add_one_pos _).ne'⟩

theorem other_scalar {data : List UInt8} (other : data.length ≠ 64) :
    Bandersnatch.fromLeBytesModOrder (Hash.new data).bytes = (256 : ℚ) := by
  change (Bytes.ofLE (Bytes.leBytes 32 (if data.length = 64 then Bytes.ofLE data else 255)) : ℚ) + 1 = 256
  rw [if_neg other, Bytes.ofLE_leBytes]
  norm_num

theorem generator_point (index : Nat) : PolynomialCommitment.generateGeneratorPoint index = (1 / 256 : ℚ) := by
  have tag : "KLOMANG_GENERATOR".toUTF8.toList.length = 17 := by decide +kernel
  have scalar (counter : Nat) : PolynomialCommitment.scalarAt "KLOMANG_GENERATOR" index counter = (256 : ℚ) := by
    refine other_scalar ?_
    rw [List.length_append, List.length_append, tag]
    simp
  rw [PolynomialCommitment.generateGeneratorPoint, PolynomialCommitment.hashToCurve, scalar]
  change (256 : ℚ) * (1 / 65536) = 1 / 256
  norm_num

theorem blinding (coeffs : List ScalarField) : PolynomialCommitment.generateBlindingFactor coeffs = (256 : ℚ) := by
  have tag : "KLOMANG_COMMITMENT_BLINDING".toUTF8.toList.length = 27 := by decide +kernel
  have empty : coeffs.flatMap Bandersnatch.toBytesLe = [] := List.flatMap_eq_nil_iff.mpr fun _ _ => rfl
  refine other_scalar ?_
  rw [empty, List.append_nil, tag]
  decide

/-- The commitment to equal coefficients. -/
theorem blinded_sum_replicate {count : Nat} (few : count ≤ verkleRadix) (scalar : ℚ) :
    (PolynomialCommitment.new verkleRadix).blindedSum (List.replicate count scalar : List ℚ) =
      ⟨(count * (scalar * (1 / 256)) + 1 : ℚ)⟩ := by
  have generators : (PolynomialCommitment.new verkleRadix).generators = List.replicate verkleRadix (1 / 256 : ℚ) := by
    refine List.eq_replicate_iff.mpr ⟨by simp, fun point member => ?_⟩
    obtain ⟨index, _, rfl⟩ := List.mem_map.mp member
    exact generator_point index
  have random : (PolynomialCommitment.new verkleRadix).randomPoint = (1 / 256 : ℚ) := generator_point _
  have one : (256 : ℚ) * (1 / 256) = 1 := by norm_num
  rw [PolynomialCommitment.blindedSum, generators, blinding, random, List.zipWith_replicate, min_eq_left few,
    List.sum_replicate]
  refine congrArg Commitment.mk ?_
  change count • (scalar * (1 / 256) : ℚ) + 256 * (1 / 256) = _
  rw [one, nsmul_eq_mul]

/-- A natural point has the next number as its scalar. -/
theorem root_scalar_natural {count : Nat} (small : count < 256 ^ 32) :
    rootScalar (commitmentRootHash ⟨(count : ℚ)⟩) = (count + 1 : ℚ) := by
  have bytes : Bytes.ofLE (Bytes.leBytes 32 (Bytes.ofLE (Bytes.leBytes 64 count))) = count := by
    rw [Bytes.ofLE_leBytes, Bytes.ofLE_leBytes, Nat.mod_eq_of_lt, Nat.mod_eq_of_lt]
    · exact small.trans (by norm_num)
    · exact (Nat.mod_le _ _).trans_lt small
  change (Bytes.ofLE (Bytes.leBytes 32 (if (Bytes.leBytes 64 (count : ℚ).num.natAbs).length = 64 then
    Bytes.ofLE (Bytes.leBytes 64 (count : ℚ).num.natAbs) else 255)) : ℚ) + 1 = count + 1
  rw [Bytes.length_leBytes, if_pos rfl, Rat.num_natCast, Int.natAbs_natCast, bytes]

theorem uniform_scalar {value : List UInt8} (short : value.length ≠ 64) {levels : Nat} (few : levels ≤ keySize) :
    rootScalar (uniformRoot value levels) = ((2 * levels + 3 : ℕ) : ℚ) := by
  have radix : ((verkleRadix : ℕ) : ℚ) = 256 := by norm_num [verkleRadix]
  induction levels with
  | zero =>
    have scalar : leafScalar (some value) = (256 : ℚ) := other_scalar short
    have present : (256 : ℚ) ≠ 0 := by norm_num
    have whole := from_coefficients_replicate 1 present
    have point : (((1 : ℕ) : ℚ) * (256 * (1 / 256)) + 1) = ((2 : ℕ) : ℚ) := by norm_num
    rw [uniformRoot, leafRoot, committed, scalar, ← List.replicate_one, whole,
      blinded_sum_replicate (by decide), point, root_scalar_natural (by norm_num)]
    norm_num
  | succ levels ih =>
    simp only [key_size_eq] at few
    have present : ((2 * levels + 3 : ℕ) : ℚ) ≠ 0 := Nat.cast_ne_zero.mpr (by omega)
    have whole := from_coefficients_replicate verkleRadix present
    have point : ((verkleRadix : ℕ) : ℚ) * (((2 * levels + 3 : ℕ) : ℚ) * (1 / 256)) + 1 =
        ((2 * levels + 4 : ℕ) : ℚ) := by
      rw [radix]
      push_cast
      ring
    rw [uniformRoot, vectorRoot, List.map_const', length_child_indices, committed, ih (by rw [key_size_eq]; omega),
      whole, blinded_sum_replicate le_rfl, point, root_scalar_natural]
    · push_cast
      ring
    · exact lt_of_le_of_lt (by omega : 2 * levels + 4 ≤ 68) (by norm_num)

/-- Nothing collides in a uniform proof: every level has its own scalar. -/
theorem uniform_collisionless (key : Bytes32) {value : List UInt8} (short : value.length ≠ 64)
    (gasWitness : Option GasFeeWitness) :
    Collisionless { uniformProof key value with gasFeeDistribution := gasWitness } (uniformProof key value) where
  commitment left leftMember right rightMember same := by
    obtain ⟨upper, upperFew, rfl⟩ := committed_to_uniform key left (leftMember.elim id id)
    obtain ⟨lower, lowerFew, rfl⟩ := committed_to_uniform key right (rightMember.elim id id)
    rw [polynomial_scalar_uniform, polynomial_scalar_uniform, uniform_scalar short upperFew,
      uniform_scalar short lowerFew] at same
    have numbers : ((2 * upper + 3 : ℕ) : ℚ) = ((2 * lower + 3 : ℕ) : ℚ) := same
    have levels := Nat.cast_injective numbers
    rw [show upper = lower by omega]
  value left leftMember right rightMember _ := by
    have first : value = left := Option.some.inj (leftMember.elim id id)
    have second : value = right := Option.some.inj (rightMember.elim id id)
    rw [← first, ← second]
  nonzero other member := by
    have same : value = other := Option.some.inj (member.elim id id)
    subst same
    have scalar : valueToScalar value = (256 : ℚ) := other_scalar short
    rw [scalar]
    exact (by norm_num : (256 : ℚ) ≠ 0)

/-- A proof with a fee witness is bound to the plain one. -/
theorem uniform_bound :
    ({ uniformProof (.replicate 7) [1] with gasFeeDistribution := some ⟨10, 8, 2⟩ } : VerkleProof).leafValue =
      (uniformProof (.replicate 7) [1]).leafValue := by
  have reached : Reached (fresh (∅ : MemoryStorage)) := ⟨∅, fresh ∅, [], new_ok _, rfl⟩
  have plain := uniform_accepted (.replicate 7) [1]
  have shared : Accepted { uniformProof (.replicate 7) [1] with gasFeeDistribution := some ⟨10, 8, 2⟩ } :=
    ⟨plain.path, plain.siblings, plain.typed, plain.rebuilt, fun witness same => by cases same; decide⟩
  exact (proofs_bind reached ((reached.coherent.verify_proof _).mpr plain)).1 (fresh (∅ : MemoryStorage)) _ reached
    ((reached.coherent.verify_proof _).mpr shared) rfl rfl (uniform_collisionless _ (by decide) _)

end Klomang.Counting
