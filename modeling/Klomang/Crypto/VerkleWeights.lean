import Klomang.Crypto.VerkleRuns
import Klomang.State.VTrieBinding
import Mathlib.Algebra.Order.BigOperators.Group.List

/-! Scalars that weigh: a hash and a curve under which the scalar of a node is the weight of the values
below it, but for a number that tells its height. Nothing collides in them as long as the weights of the
values tell these apart. -/
namespace Klomang.Weighing

open Klomang.VerkleTree (key_off_path keySize verkleRadix childIndices key_size_eq length_key length_child_indices mem_child_indices
  rootScalar commitmentRootHash committed leafScalar leafRoot vectorRoot rootAt root_at_labelled root_at_leaf provenValue
  valueToScalar committedTo storageProof polynomialScalar leafPolynomial nodePolynomial committed_to_opening Collisionless)
open Klomang.Crypto (Contents Standing)
open Bandersnatch (ScalarField)

/-- The number that data is hashed to. The texts that generators and blinding factors are derived from are
told by their lengths; all generators but the one of the last child are alike. -/
def digest (data : List UInt8) : Nat :=
  if data.length = 33 then if data.getD 17 0 = 255 then 256 ^ 32 - 1 else 0
  else if data.length = 27 then 0
  else Bytes.ofLE data

/-- The weights of the generators sum up to one. -/
def scalarOf (bytes : List UInt8) : ℚ := if Bytes.ofLE bytes = 256 ^ 32 - 1 then -254 else Bytes.ofLE bytes + 1

theorem scalar_of_ne_zero (bytes : List UInt8) : scalarOf bytes ≠ 0 := by
  rw [scalarOf]
  split
  · norm_num
  · exact (Nat.cast_add_one_pos _).ne'

scoped instance blake3 : Blake3 := ⟨fun data => ⟨Bytes.leBytes 32 (digest data), by simp⟩⟩

scoped instance bandersnatch : Bandersnatch where
  ScalarField := ℚ
  EdwardsPoint := ℚ
  generator := 1
  fromLeBytesModOrder := scalarOf
  toBytesLe _ := []
  serializeUncompressed point := Bytes.leBytes 64 point.num.natAbs
  scalar_found _ := ⟨0, scalar_of_ne_zero _⟩

theorem hash_scalar_eq (data : List UInt8) :
    Bandersnatch.fromLeBytesModOrder (Hash.new data).bytes = scalarOf (Bytes.leBytes 32 (digest data)) := rfl

theorem hash_scalar {data : List UInt8} (small : digest data < 256 ^ 32 - 1) :
    Bandersnatch.fromLeBytesModOrder (Hash.new data).bytes = (digest data + 1 : ℚ) := by
  have read : Bytes.ofLE (Bytes.leBytes 32 (digest data)) = digest data := by
    rw [Bytes.ofLE_leBytes, Nat.mod_eq_of_lt (small.trans_le (Nat.sub_le _ _))]
  rw [hash_scalar_eq, scalarOf, read, if_neg small.ne]

/-- The generators weigh one, but for the last of every 256. -/
theorem generator_point (index : Nat) :
    PolynomialCommitment.generateGeneratorPoint index = (if index % 256 = 255 then -254 else 1 : ℚ) := by
  have tag : "KLOMANG_GENERATOR".toUTF8.toList.length = 17 := by decide +kernel
  have scalar (counter : Nat) : PolynomialCommitment.scalarAt "KLOMANG_GENERATOR" index counter =
      (if index % 256 = 255 then -254 else 1 : ℚ) := by
    have width : (("KLOMANG_GENERATOR".toUTF8.toList ++ Bytes.leBytes 8 index) ++ Bytes.leBytes 8 counter).length = 33 := by
      rw [List.length_append, List.length_append, tag, Bytes.length_leBytes, Bytes.length_leBytes]
    have low : (("KLOMANG_GENERATOR".toUTF8.toList ++ Bytes.leBytes 8 index) ++ Bytes.leBytes 8 counter).getD 17 0 =
        UInt8.ofNat (index % 256) := by
      rw [List.append_assoc, List.getD_append_right _ _ _ _ tag.le, tag]
      rfl
    have digested : digest (("KLOMANG_GENERATOR".toUTF8.toList ++ Bytes.leBytes 8 index) ++ Bytes.leBytes 8 counter) =
        if index % 256 = 255 then 256 ^ 32 - 1 else 0 := by
      have byte : UInt8.ofNat (index % 256) = 255 ↔ index % 256 = 255 := by
        rw [← UInt8.toNat_inj, UInt8.toNat_ofNat', Nat.mod_eq_of_lt (Nat.mod_lt _ (by decide))]
        rfl
      rw [digest, if_pos width, low]
      exact if_congr byte rfl rfl
    rw [PolynomialCommitment.scalarAt, hash_scalar_eq, digested, scalarOf, Bytes.ofLE_leBytes]
    split
    · rw [if_pos (by norm_num)]
    · norm_num
  rw [PolynomialCommitment.generateGeneratorPoint, PolynomialCommitment.hashToCurve, scalar]
  change (if index % 256 = 255 then -254 else 1 : ℚ) * 1 = _
  rw [mul_one]

theorem blinding (coeffs : List ScalarField) : PolynomialCommitment.generateBlindingFactor coeffs = (1 : ℚ) := by
  have tag : "KLOMANG_COMMITMENT_BLINDING".toUTF8.toList.length = 27 := by decide +kernel
  have empty : coeffs.flatMap Bandersnatch.toBytesLe = [] := List.flatMap_eq_nil_iff.mpr fun _ _ => rfl
  have digested : digest ("KLOMANG_COMMITMENT_BLINDING".toUTF8.toList ++ coeffs.flatMap Bandersnatch.toBytesLe) = 0 := by
    rw [empty, List.append_nil, digest, tag]
    rfl
  have scalar := hash_scalar (digested.trans_lt (by norm_num))
  rw [digested] at scalar
  exact scalar.trans (by norm_num)

/-- A natural point has the next number as its scalar. -/
theorem root_scalar_natural {count : Nat} (small : count < 256 ^ 32 - 1) :
    rootScalar (commitmentRootHash ⟨(count : ℚ)⟩) = (count + 1 : ℚ) := by
  have within : count < 256 ^ 64 := by omega
  have read : digest (Bytes.leBytes 64 (count : ℚ).num.natAbs) = count := by
    rw [digest, Bytes.length_leBytes, if_neg (by decide), if_neg (by decide), Rat.num_natCast, Int.natAbs_natCast,
      Bytes.ofLE_leBytes, Nat.mod_eq_of_lt within]
  have scalar := hash_scalar (read.trans_lt small)
  rw [read] at scalar
  exact scalar

/-- Zeros at the end change nothing. -/
theorem sum_append_zeros (coeffs : List ℚ) (zeros : Nat) (points : List ℚ) :
    (List.zipWith (· * ·) (coeffs ++ List.replicate zeros 0) points).sum = (List.zipWith (· * ·) coeffs points).sum := by
  induction coeffs generalizing points with
  | nil =>
    induction zeros generalizing points with
    | zero => rfl
    | succ zeros ih =>
      cases points with
      | nil => rfl
      | cons point points =>
        have rest := ih points
        rw [List.nil_append] at rest ⊢
        rw [List.replicate_succ, List.zipWith_cons_cons, List.sum_cons, rest, zero_mul, zero_add]
        rfl
  | cons coefficient coeffs ih =>
    cases points with
    | nil => rfl
    | cons point points =>
      rw [List.cons_append, List.zipWith_cons_cons, List.zipWith_cons_cons, List.sum_cons, List.sum_cons, ih]

/-- A commitment weighs its coefficients. -/
theorem committed_eq (coeffs : List ℚ) :
    committed coeffs = ⟨((List.zipWith (· * ·) coeffs
      ((List.range verkleRadix).map fun index => if index % 256 = 255 then (-254 : ℚ) else 1)).sum + 1 : ℚ)⟩ := by
  have generators : (PolynomialCommitment.new verkleRadix).generators =
      (List.range verkleRadix).map fun index => if index % 256 = 255 then (-254 : ℚ) else 1 :=
    List.map_congr_left fun index _ => generator_point index
  have random : (PolynomialCommitment.new verkleRadix).randomPoint = (1 : ℚ) := generator_point verkleRadix
  have padded : (DensePolynomial.fromCoefficientsVec coeffs).coeffs ++ List.replicate
      (coeffs.length - (DensePolynomial.fromCoefficientsVec coeffs).coeffs.length) (0 : ℚ) = coeffs :=
    from_coefficients_append_zeros coeffs
  rw [committed, PolynomialCommitment.blindedSum, generators, blinding, random]
  refine congrArg Commitment.mk ?_
  conv_rhs => rw [← padded]
  rw [sum_append_zeros]
  change _ + (1 : ℚ) * 1 = _
  rw [mul_one]
  rfl

/-- A commitment to the scalars of children weighs the children, as long as the last one is light. -/
theorem committed_children (height : ℕ) (weight : UInt8 → ℕ) (light : weight 255 = 0) :
    committed (childIndices.map fun child => ((height + weight child : ℕ) : ℚ)) =
      ⟨((height + (childIndices.map weight).sum + 1 : ℕ) : ℚ)⟩ := by
  have indices : List.range verkleRadix = List.range 255 ++ [255] := List.range_succ
  have others : ∀ index ∈ List.range 255, ¬ index % 256 = 255 := by
    intro index member
    have small := List.mem_range.mp member
    omega
  rw [committed_eq]
  refine congrArg Commitment.mk ?_
  change (_ : ℚ) = _
  have products : ∀ indices : List ℕ, (∀ index ∈ indices, ¬ index % 256 = 255) →
      (List.zipWith (· * ·) (indices.map fun index => ((height + weight (UInt8.ofNat index) : ℕ) : ℚ))
        (indices.map fun index => if index % 256 = 255 then (-254 : ℚ) else 1)).sum =
      ((indices.length * height + (indices.map fun index => weight (UInt8.ofNat index)).sum : ℕ) : ℚ) := by
    intro indices ordinary
    induction indices with
    | nil => simp
    | cons index indices ih =>
      have rest := ih fun other member => ordinary other (List.mem_cons_of_mem _ member)
      simp only [List.map_cons, List.zipWith_cons_cons, List.sum_cons, rest, if_neg (ordinary index List.mem_cons_self),
        List.length_cons]
      push_cast
      ring
  rw [childIndices, List.map_map, List.map_map, indices, List.map_append, List.map_append, List.map_append,
    List.zipWith_append (by simp)]
  have whole := products (List.range 255) others
  rw [List.length_range] at whole
  have top : UInt8.ofNat 255 = 255 := rfl
  simp only [List.map_cons, List.map_nil, List.zipWith_cons_cons, List.zipWith_nil_left, List.sum_append, List.sum_cons,
    List.sum_nil, Function.comp_def, top, light]
  rw [whole]
  push_cast
  ring

/-- The weight of a value. -/
def weigh (value : List UInt8) : ℕ := Bytes.ofLE value + 1

theorem value_scalar {value : List UInt8} (short : value.length < 27) :
    valueToScalar value = ((weigh value : ℕ) : ℚ) := by
  have bound : Bytes.ofLE value < 256 ^ 26 :=
    (Bytes.ofLE_lt value).trans_le (Nat.pow_le_pow_right (by decide) (by omega))
  have digested : digest value = Bytes.ofLE value := by rw [digest, if_neg (by omega), if_neg (by omega)]
  have hashed := hash_scalar (digested.trans_lt (by omega))
  rw [digested] at hashed
  refine Eq.trans hashed ?_
  rw [weigh, Nat.cast_add, Nat.cast_one]

theorem leaf_scalar_some {value : List UInt8} (short : value.length < 27) :
    rootScalar (leafRoot (some value)) = ((2 + weigh value : ℕ) : ℚ) := by
  have bound : Bytes.ofLE value < 256 ^ 26 :=
    (Bytes.ofLE_lt value).trans_le (Nat.pow_le_pow_right (by decide) (by omega))
  have scalar : leafScalar (some value) = ((weigh value : ℕ) : ℚ) := value_scalar short
  have point : committed [leafScalar (some value)] = ⟨((weigh value + 1 : ℕ) : ℚ)⟩ := by
    rw [scalar, committed_eq]
    refine congrArg Commitment.mk ?_
    change (((weigh value : ℕ) : ℚ) * 1 + 0) + 1 = _
    push_cast
    ring
  rw [leafRoot, point, root_scalar_natural (by rw [weigh]; omega)]
  push_cast
  ring

theorem leaf_scalar_none : rootScalar (leafRoot none) = ((2 : ℕ) : ℚ) := by
  have point : committed [leafScalar none] = ⟨((1 : ℕ) : ℚ)⟩ := by
    rw [leafScalar, committed_eq]
    refine congrArg Commitment.mk ?_
    change ((0 : ℚ) * 1 + 0) + 1 = _
    norm_num
  rw [leafRoot, point, root_scalar_natural (by norm_num)]
  norm_num

theorem sum_single (children : List UInt8) (next : UInt8) (weight : ℕ) :
    (children.map fun child => if child = next then weight else 0).sum = children.count next * weight := by
  induction children with
  | nil => rw [List.map_nil, List.sum_nil, List.count_nil, zero_mul]
  | cons child children ih =>
    rw [List.map_cons, List.sum_cons, ih, List.count_cons]
    by_cases same : child = next
    · rw [if_pos same, if_pos (beq_iff_eq.mpr same), Nat.add_mul, one_mul, Nat.add_comm]
    · rw [if_neg same, if_neg (fun equal => same (beq_iff_eq.mp equal)), Nat.zero_add, Nat.add_zero]

/-- The weight of the values that are held below a node. -/
def mass (held : List (Bytes32 × List UInt8)) (node : List UInt8) : ℕ :=
  (held.map fun entry => if node <+: entry.1.bytes then weigh entry.2 else 0).sum

theorem mass_children (held : List (Bytes32 × List UInt8)) {node : List UInt8} (inner : node.length < keySize) :
    (childIndices.map fun child => mass held (node ++ [child])).sum = mass held node := by
  have distinct : childIndices.Nodup := by
    refine List.Nodup.map_on (fun left leftMember right rightMember same => ?_) List.nodup_range
    have bounds : left < 256 ∧ right < 256 := ⟨List.mem_range.mp leftMember, List.mem_range.mp rightMember⟩
    have numbers := congrArg UInt8.toNat same
    rw [UInt8.toNat_ofNat_of_lt' bounds.1, UInt8.toNat_ofNat_of_lt' bounds.2] at numbers
    exact numbers
  have single : ∀ (key : Bytes32) (weight : ℕ), (childIndices.map fun child =>
      if node ++ [child] <+: key.bytes then weight else 0).sum = if node <+: key.bytes then weight else 0 := by
    intro key weight
    by_cases on : node <+: key.bytes
    · obtain ⟨rest, split⟩ := on
      have width := congrArg List.length split
      rw [length_key, List.length_append] at width
      cases rest with
      | nil => simp at width; omega
      | cons next rest =>
        have meets : ∀ child, node ++ [child] <+: key.bytes ↔ child = next := by
          intro child
          rw [← split, List.prefix_append_right_inj, List.cons_prefix_cons]
          simp
        have once : childIndices.count next = 1 := List.count_eq_one_of_mem distinct (mem_child_indices next)
        rw [if_pos ⟨next :: rest, split⟩]
        simp only [meets]
        rw [sum_single, once, one_mul]
    · have off : ∀ child, ¬ node ++ [child] <+: key.bytes := fun child above =>
        on ((List.prefix_append _ _).trans above)
      simp [on, off]
  induction held with
  | nil => simp [mass]
  | cons entry held ih =>
    simp only [mass, List.map_cons, List.sum_cons, List.sum_map_add] at ih ⊢
    rw [ih, single]

theorem mass_le (held : List (Bytes32 × List UInt8)) {node path : List UInt8} (above : node <+: path) :
    mass held path ≤ mass held node := by
  refine List.sum_le_sum fun entry _ => ?_
  split
  · rename_i on
    rw [if_pos (above.trans on)]
  · exact Nat.zero_le _

/-- Contents whose leaves weigh what is held. -/
structure Holds (contents : Contents) (held : List (Bytes32 × List UInt8)) : Prop where
  plain : ∀ entry ∈ held, 255 ∉ entry.1.bytes
  light : mass held [] < 256 ^ 31
  short : ∀ key value, provenValue contents key = some value → value.length < 27
  leaves : ∀ key, rootScalar (leafRoot (provenValue contents key)) = ((2 + mass held key.bytes : ℕ) : ℚ)

variable {S : Type} [Storage S] {contents left right : Contents} {held leftHeld rightHeld : List (Bytes32 × List UInt8)} {key : Bytes32}

/-- The number of a node: its weight and its height. -/
def number (held : List (Bytes32 × List UInt8)) (node : List UInt8) : ℕ := 2 * (keySize - node.length) + 2 + mass held node

theorem Holds.node_scalar (holds : Holds contents held) {node : List UInt8} (within : node.length ≤ keySize) :
    rootScalar (rootAt contents node) = ((number held node : ℕ) : ℚ) := by
  generalize remaining : keySize - node.length = levels
  induction levels generalizing node with
  | zero =>
    obtain ⟨key, rfl⟩ := Standing.exists_key (by omega : node.length = keySize)
    rw [root_at_leaf, holds.leaves, number, remaining]
  | succ levels ih =>
    have inner : node.length < keySize := by omega
    have below : ∀ child, rootScalar (rootAt contents (node ++ [child])) =
        ((2 * levels + 2 + mass held (node ++ [child]) : ℕ) : ℚ) := by
      intro child
      have width : (node ++ [child]).length = node.length + 1 := by simp
      rw [ih (by omega) (by omega), number, width]
      congr 3
      omega
    have last : mass held (node ++ [255]) = 0 := by
      refine List.sum_eq_zero fun weight member => ?_
      obtain ⟨entry, there, rfl⟩ := List.mem_map.mp member
      refine if_neg fun on => holds.plain entry there (on.subset ?_)
      simp
    have top := mass_le held (List.nil_prefix (l := node))
    have light := holds.light
    rw [root_at_labelled contents node inner, vectorRoot, List.map_congr_left fun child _ => below child,
      committed_children _ _ last, mass_children held inner, root_scalar_natural, number, remaining]
    · push_cast
      ring
    · rw [key_size_eq] at *
      omega

/-- A held value weighs what its leaf weighs. -/
theorem Holds.value_scalar (holds : Holds contents held) {value : List UInt8}
    (found : provenValue contents key = some value) : valueToScalar value = ((mass held key.bytes : ℕ) : ℚ) := by
  have short := holds.short key value found
  have leaf := holds.leaves key
  rw [found, leaf_scalar_some short] at leaf
  have numbers : ((2 + weigh value : ℕ) : ℚ) = ((2 + mass held key.bytes : ℕ) : ℚ) := leaf
  rw [Weighing.value_scalar short, Nat.add_left_cancel (Nat.cast_injective numbers)]

/-- Down one path the numbers fall. -/
theorem number_injective (held : List (Bytes32 × List UInt8)) {node other path : List UInt8} (on : node <+: path)
    (also : other <+: path) (within : path.length = keySize) (same : number held node = number held other) :
    node = other := by
  have nodeShort := on.length_le
  have otherShort := also.length_le
  rw [number, number] at same
  rcases List.prefix_or_prefix_of_prefix on also with above | above
  · have lighter := mass_le held above
    have shorter := above.length_le
    exact above.eq_of_length (by omega)
  · have lighter := mass_le held above
    have shorter := above.length_le
    exact (above.eq_of_length (by omega)).symm

/-- What a storage's proof commits to, node by node. -/
theorem Holds.committed_scalar (holds : Holds contents held) (key : Bytes32) {polynomial : DensePolynomial}
    (member : polynomial ∈ committedTo (storageProof contents key none)) :
    ∃ node, node <+: key.bytes ∧ polynomialScalar polynomial = ((number held node : ℕ) : ℚ) ∧
      polynomial = if node = key.bytes then leafPolynomial (provenValue contents key)
        else nodePolynomial fun child => rootScalar (rootAt contents (node ++ [child])) := by
  have shows : ∀ polynomial ∈ committedTo (storageProof contents key none), _ :=
    committed_to_opening (root_at_labelled contents) key rfl rfl (root_at_leaf contents key)
  rcases shows polynomial member with rfl | ⟨node, on, inner, rfl⟩
  · refine ⟨key.bytes, List.prefix_rfl, ?_, (if_pos rfl).symm⟩
    rw [← holds.node_scalar (length_key key).le, root_at_leaf]
    rfl
  · refine ⟨node, on, ?_, (if_neg ?_).symm⟩
    · rw [← holds.node_scalar inner.le, root_at_labelled contents node inner]
      rfl
    · rintro rfl
      exact absurd (length_key key) inner.ne

/-- In one proof a scalar tells its polynomial. -/
theorem Holds.committed_injective (holds : Holds contents held) (key : Bytes32) {first second : DensePolynomial}
    (member : first ∈ committedTo (storageProof contents key none))
    (also : second ∈ committedTo (storageProof contents key none))
    (same : polynomialScalar first = polynomialScalar second) : first = second := by
  obtain ⟨node, on, scalar, rfl⟩ := holds.committed_scalar key member
  obtain ⟨other, beside, weight, rfl⟩ := holds.committed_scalar key also
  rw [scalar, weight] at same
  have numbers : ((number held node : ℕ) : ℚ) = ((number held other : ℕ) : ℚ) := same
  rw [number_injective held on beside (length_key key) (Nat.cast_injective numbers)]

/-- Nothing collides in two proofs of a key whose numbers tell the contents apart. -/
theorem Holds.collisionless (leftHolds : Holds left leftHeld) (rightHolds : Holds right rightHeld) (key : Bytes32)
    (apart : left = right ∨ ∀ node other, node <+: key.bytes → other <+: key.bytes →
      number leftHeld node ≠ number rightHeld other) :
    Collisionless (storageProof left key none) (storageProof right key none) := by
  have nonzero : ∀ value : List UInt8, value.length < 27 → valueToScalar value ≠ 0 := by
    intro value short
    rw [Weighing.value_scalar short]
    have positive : ((weigh value : ℕ) : ℚ) ≠ 0 := Nat.cast_ne_zero.mpr (Nat.succ_ne_zero _)
    exact positive
  rcases apart with rfl | apart
  · refine ⟨fun first member second also same => ?_, fun value found other also _ => ?_, fun value found => ?_⟩
    · exact leftHolds.committed_injective key (member.elim id id) (also.elim id id) same
    · exact Option.some.inj ((found.elim id id).symm.trans (also.elim id id))
    · exact nonzero value (leftHolds.short key value (found.elim id id))
  · have crossed : ∀ {first second : DensePolynomial}, first ∈ committedTo (storageProof left key none) →
        second ∈ committedTo (storageProof right key none) → polynomialScalar first ≠ polynomialScalar second := by
      intro first second member also same
      obtain ⟨node, on, scalar, _⟩ := leftHolds.committed_scalar key member
      obtain ⟨other, beside, weight, _⟩ := rightHolds.committed_scalar key also
      rw [scalar, weight] at same
      have numbers : ((number leftHeld node : ℕ) : ℚ) = ((number rightHeld other : ℕ) : ℚ) := same
      exact apart node other on beside (Nat.cast_injective numbers)
    have weighed : ∀ {value other : List UInt8}, provenValue left key = some value →
        provenValue right key = some other → valueToScalar value ≠ valueToScalar other := by
      intro value other found also same
      rw [leftHolds.value_scalar found, rightHolds.value_scalar also] at same
      have numbers : ((mass leftHeld key.bytes : ℕ) : ℚ) = ((mass rightHeld key.bytes : ℕ) : ℚ) := same
      refine apart key.bytes key.bytes List.prefix_rfl List.prefix_rfl ?_
      rw [number, number, Nat.cast_injective numbers]
    refine ⟨?_, ?_, ?_⟩
    · rintro first (member | member) second (also | also) same
      · exact leftHolds.committed_injective key member also same
      · exact absurd same (crossed member also)
      · exact absurd same.symm (crossed also member)
      · exact rightHolds.committed_injective key member also same
    · rintro value (found | found) other (also | also) same
      · exact Option.some.inj (found.symm.trans also)
      · exact absurd same (weighed found also)
      · exact absurd same.symm (weighed also found)
      · exact Option.some.inj (found.symm.trans also)
    · rintro value (found | found)
      · exact nonzero value (leftHolds.short key value found)
      · exact nonzero value (rightHolds.short key value found)

theorem root_scalar_ne_zero (root : Hash) : rootScalar root ≠ 0 := scalar_of_ne_zero root.bytes

omit [Storage S] in
/-- `open` panics on no path: no scalar is zero. -/
theorem unblocked (tree : Crypto.VerkleTree S) (standing : Standing) (key : Bytes32) (node rest : List UInt8) :
    ¬ tree.Blocked standing key node rest := by
  rintro ⟨before, byte, after, _, _, _, zero⟩
  exact root_scalar_ne_zero _ zero

theorem mass_absent {held : List (Bytes32 × List UInt8)} (absent : key ∉ held.map Prod.fst) :
    mass held key.bytes = 0 := by
  refine List.sum_eq_zero fun weight member => ?_
  obtain ⟨entry, there, rfl⟩ := List.mem_map.mp member
  refine if_neg fun on => absent ?_
  have same : key = entry.1 := Bytes32.ext (on.eq_of_length (by rw [length_key, length_key]))
  exact same ▸ List.mem_map_of_mem there

/-- Contents with the values of a list, no key twice. -/
theorem holds_lookup (distinct : (held.map Prod.fst).Nodup) (plain : ∀ entry ∈ held, 255 ∉ entry.1.bytes)
    (light : mass held [] < 256 ^ 31) (short : ∀ entry ∈ held, entry.2.length < 27)
    (found : ∀ key, provenValue contents key = held.lookup key) : Holds contents held where
  plain := plain
  light := light
  short key value proven := by
    rw [found] at proven
    obtain ⟨before, after, split, _⟩ := List.lookup_eq_some_iff.mp proven
    exact short (key, value) (by rw [split]; simp)
  leaves key := by
    rw [found]
    clear found light plain
    induction held with
    | nil => exact leaf_scalar_none
    | cons entry held ih =>
      obtain ⟨fresh, rest⟩ := List.nodup_cons.mp distinct
      have more : mass (entry :: held) key.bytes =
          (if key.bytes <+: entry.1.bytes then weigh entry.2 else 0) + mass held key.bytes := rfl
      rw [List.lookup_cons, more]
      by_cases same : key = entry.1
      · have beside : mass held key.bytes = 0 := mass_absent (same ▸ fresh)
        rw [if_pos (same ▸ List.prefix_rfl), beside, Nat.add_zero, beq_iff_eq.mpr same]
        exact leaf_scalar_some (short entry List.mem_cons_self)
      · rw [if_neg (key_off_path same), Nat.zero_add, beq_eq_false_iff_ne.mpr same]
        exact ih rest fun entry member => short entry (List.mem_cons_of_mem _ member)

section Siblings

/-- Two keys whose leaves are children of one node. -/
def first : Bytes32 := .replicate 0

def second : Bytes32 := ⟨List.replicate 31 0 ++ [1], by decide⟩

theorem holds_lists (lists : Crypto.Lists contents held) (distinct : (held.map Prod.fst).Nodup)
    (plain : ∀ entry ∈ held, 255 ∉ entry.1.bytes) (light : mass held [] < 256 ^ 31)
    (short : ∀ entry ∈ held, entry.2.length < 27) : Holds contents held :=
  holds_lookup distinct plain light short lists.proven

/-- Numbers down the path of a key are told apart at every depth. -/
theorem numbers_apart
    (apart : ∀ depth ≤ 32, ∀ other ≤ 32, number leftHeld (key.bytes.take depth) ≠ number rightHeld (key.bytes.take other))
    (node other : List UInt8) (on : node <+: key.bytes) (also : other <+: key.bytes) :
    number leftHeld node ≠ number rightHeld other := by
  have nodeShort := on.length_le
  have otherShort := also.length_le
  rw [key.size] at nodeShort otherShort
  rw [List.prefix_iff_eq_take.mp on, List.prefix_iff_eq_take.mp also]
  exact apart node.length nodeShort other.length otherShort

end Siblings
end Klomang.Weighing
