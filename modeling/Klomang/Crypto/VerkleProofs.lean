import Klomang.Crypto.OpeningProofs
import Klomang.Crypto.VerkleCoherence
import Klomang.Crypto.VerkleValues

/-! Proofs of the tree with opening proofs. Inner siblings come from the standing contents, leaves from
the storage, so a proof shows the contents without the pruned siblings of its key, under a root that
still commits to them. -/
namespace Klomang.Crypto

open Bandersnatch (ScalarField fromLeBytesModOrder)
open Klomang.VerkleTree (keySize verkleRadix childIndices keyForPath key_for_path_injective key_size_eq length_key
  length_child_indices mem_child_indices getElem?_empty_roots storedNode storedValue pathStored path_stored_iff
  path_stored_snoc commitmentRootHash rootScalar leafScalar leafRoot leaf_root_none committed emptyRoot emptyRoots
  commitmentAt storageRoot rootAt provenValue storageProof shown length_shown root_at_labelled root_at_leaf
  vectorRoot node_commitment_congr levelCoeffs proofLevels level_coeffs_eq Accepted opening_accepted_iff)

variable [Blake3] [Bandersnatch]

namespace Standing
variable {standing : Standing} {key : Bytes32} {path : List UInt8}

/-- The root that a proof for a key shows at a path. -/
def shownRoot (standing : Standing) (key : Bytes32) (path : List UInt8) : Hash :=
  if path.length = keySize then rootAt (standing.dropped key) path else rootAt standing.contents path

/-- Beside the path of its key, a proof shows the contents without the dropped leaves. -/
theorem shown_root_off (off : ¬ path <+: key.bytes) (within : path.length ≤ keySize) :
    standing.shownRoot key path = rootAt (standing.dropped key) path := by
  rw [shownRoot]
  split
  · rfl
  · rename_i inner
    rw [rootAt, rootAt, commitment_dropped_off standing off inner,
      path_stored_congr (fun node other => dropped_inner other) (by omega)]

/-- What a proof for a key gives when it is rebuilt: the root without the dropped leaves. -/
theorem rebuild_shown (standing : Standing) (key : Bytes32) :
    Openings.rebuild vectorRoot rootScalar (Openings.opening (standing.shownRoot key) [] key.bytes)
      (leafRoot (provenValue (standing.dropped key) key)) = rootAt (standing.dropped key) [] := by
  have whole : ([] : List UInt8).length + key.bytes.length ≤ keySize := by
    rw [length_key, List.length_nil, Nat.zero_add]
  have rebuilt := Openings.rebuild_opening (root_at_labelled (standing.dropped key)) [] key.bytes whole
  rw [List.nil_append, root_at_leaf] at rebuilt
  rw [← rebuilt]
  refine Openings.rebuild_opening_congr [] key.bytes (fun before index after child split off => ?_) _
  rw [List.nil_append]
  have width := congrArg List.length split
  rw [length_key] at width
  simp only [List.length_append, List.length_cons] at width
  refine shown_root_off ?_ (by rw [List.length_append, List.length_singleton]; omega)
  intro on
  rw [split, List.prefix_append_right_inj] at on
  exact off (List.cons_prefix_cons.mp on).1

end Standing

namespace VerkleTree
variable {S : Type} [Storage S] {tree : VerkleTree S} {standing : Standing} {key : Bytes32} {path : List UInt8}

section Generation

/-- The polynomial of a node on the path of a key and the value of the child on the path are both zero:
`open` panics there. -/
def Zeroed (tree : VerkleTree S) (standing : Standing) (key : Bytes32) (node : List UInt8) (byte : UInt8) : Prop :=
  pathStored standing.stored node = true ∧
    (∀ child, rootScalar (standing.shownRoot key (node ++ [child])) = 0) ∧
    rootScalar (commitmentRootHash (tree.trueCommitment standing.contents (node ++ [byte]))) = 0

/-- Where the nodes of a path are stored, a proof shows the true commitments of their children. -/
theorem Follows.shown_child (follows : tree.Follows standing) {node : List UInt8} (on : node <+: key.bytes)
    (inner : node.length < keySize) (there : pathStored standing.stored node = true) (child : UInt8) :
    (if tree.nodeExists (node ++ [child]) then
      commitmentRootHash (tree.trueCommitment standing.contents (node ++ [child]))
    else emptyRoot (keySize - (node.length + 1))) = standing.shownRoot key (node ++ [child]) := by
  have contents : pathStored standing.contents node = true := by
    rw [← path_stored_congr (fun other inner => Standing.stored_inner inner) inner]
    exact there
  have width : (node ++ [child]).length = node.length + 1 := by simp
  rw [follows.node_exists, Standing.shownRoot]
  by_cases leaf : (node ++ [child]).length = keySize
  · obtain ⟨other, same⟩ := Standing.exists_key leaf
    have siblings : Siblings other key := by
      rw [Siblings, ← same, Standing.take_snoc (by omega)]
      have shorter : node.length = 31 := by
        rw [key_size_eq] at leaf
        omega
      rw [← shorter]
      exact List.prefix_iff_eq_take.mp on
    have dropped : pathStored (standing.dropped key) node = true := by
      rw [path_stored_congr (fun other inner => Standing.dropped_inner inner) inner]
      exact contents
    have alike : standing.dropped key (keyForPath other.bytes) = standing.stored (keyForPath other.bytes) := by
      rw [Standing.dropped_leaf]
      by_cases pruned : other ∈ standing.pruned
      · rw [if_pos ⟨pruned, siblings⟩, Standing.stored_pruned pruned]
      · rw [if_neg (fun both => pruned both.1), Standing.stored_unpruned pruned]
    have found : storedNode (standing.dropped key) other.bytes = (standing.stored (keyForPath other.bytes)).isSome :=
      congrArg Option.isSome alike
    rw [if_pos leaf, rootAt, path_stored_snoc, dropped, Bool.true_and, width, same, found]
    split
    · rename_i stored
      have unpruned : other ∉ standing.pruned := by
        intro pruned
        rw [Standing.stored_pruned pruned] at stored
        cases stored
      have value : storedValue (standing.dropped key) other.bytes = storedValue standing.contents other.bytes := by
        have read := alike.trans (Standing.stored_unpruned unpruned)
        exact stored_value_congr read
      rw [follows.truth_unpruned unpruned, Klomang.VerkleTree.commitment_at_leaf _ (length_key other),
        Klomang.VerkleTree.commitment_at_leaf _ (length_key other), value]
    · rfl
  · rw [if_neg leaf, rootAt, path_stored_snoc, contents, Bool.true_and, width, follows.truth_inner leaf,
      Standing.stored_inner leaf]
    rfl

theorem Follows.empty_root_hash (follows : tree.Follows standing) {depth : Nat} (within : depth ≤ keySize) :
    tree.emptySubtreeRootHash depth = emptyRoot (keySize - depth) := by
  rw [emptySubtreeRootHash, follows.roots, List.getD_eq_getElem?_getD, getElem?_empty_roots within]
  rfl

/-- How far the walk along a key has come. Only at the start does it go on from a node that is not
stored. -/
structure Walked (tree : VerkleTree S) (standing : Standing) (node path : List UInt8) (pathExists : Bool) : Prop where
  there : (pathExists && tree.nodeExists path) = pathStored standing.stored node
  same : pathStored standing.stored node = true → path = node
  onward : pathExists = pathStored standing.stored node ∨
    node = [] ∧ pathExists = true ∧ ∀ path, standing.stored path = none

theorem Follows.walked (follows : tree.Follows standing) {node path : List UInt8}
    (same : pathStored standing.stored node = true → path = node) :
    tree.Walked standing node path (pathStored standing.stored node) where
  there := by
    by_cases there : pathStored standing.stored node = true
    · rw [there, same there, follows.node_exists, Bool.true_and]
      exact path_stored_iff.mp there node List.prefix_rfl
    · rw [Bool.not_eq_true _ |>.mp there, Bool.false_and]
  same := same
  onward := .inl rfl

theorem Follows.starts (follows : tree.Follows standing) (rooted : standing.Rooted) :
    tree.Walked standing [] [] true where
  there := by simp [follows.node_exists, pathStored, storedNode, Storage.get]
  same _ := rfl
  onward := by
    rcases rooted with stored | empty
    · have inner : ([] : List UInt8).length ≠ keySize := by
        rw [key_size_eq]
        decide
      have there : storedNode standing.stored [] = true :=
        (congrArg Option.isSome (Standing.stored_inner inner)).trans stored
      exact .inl (by simp [pathStored, there])
    · refine .inr ⟨rfl, rfl, fun path => ?_⟩
      rw [Standing.stored, empty, ite_self]

/-- The next step of the walk. -/
theorem Follows.walk (follows : tree.Follows standing) {node path : List UInt8} {pathExists : Bool}
    (walked : tree.Walked standing node path pathExists) (byte : UInt8) :
    (pathExists && tree.nodeExists (if pathExists then path ++ [byte] else path)) =
        pathStored standing.stored (node ++ [byte]) ∧
      (pathStored standing.stored (node ++ [byte]) = true →
        (if pathExists then path ++ [byte] else path) = node ++ [byte]) := by
  rw [path_stored_snoc]
  rcases walked.onward with rfl | ⟨rfl, rfl, empty⟩
  · by_cases there : pathStored standing.stored node = true
    · rw [there, if_pos rfl, walked.same there, follows.node_exists]
      exact ⟨rfl, fun _ => rfl⟩
    · rw [Bool.not_eq_true _ |>.mp there]
      exact ⟨rfl, fun absurdity => absurd absurdity Bool.false_ne_true⟩
  · have absent : ∀ path, storedNode standing.stored path = false := fun path => congrArg Option.isSome (empty _)
    rw [follows.node_exists, empty, absent, Bool.and_false]
    exact ⟨rfl, fun absurdity => absurd absurdity Bool.false_ne_true⟩

theorem Follows.ends_collect_level (follows : tree.Follows standing) {node path : List UInt8} {pathExists : Bool}
    (on : node <+: key.bytes) (inner : node.length < keySize) (walked : tree.Walked standing node path pathExists) :
    Memo.Ends (Repeats (tree.trueCommitment standing.contents)) (tree.collectLevel node.length path pathExists)
      (.ok (childIndices.map fun child => standing.shownRoot key (node ++ [child]))) := by
  refine Memo.ends_mapM _ fun child _ => ?_
  rw [walked.there]
  by_cases there : pathStored standing.stored node = true
  · have child' := follows.shown_child on inner there child
    rw [walked.same there, there, Bool.true_and]
    split
    · rename_i stored
      rw [if_pos stored] at child'
      rw [← child']
      exact follows.tells.ends_root_hash (by rw [List.length_append, List.length_singleton]; omega)
    · rename_i missing
      rw [if_neg missing] at child'
      rw [← child', follows.empty_root_hash inner]
      exact Memo.ends_pure _
  · have absent : standing.shownRoot key (node ++ [child]) = emptyRoot (keySize - (node.length + 1)) := by
      have width : (node ++ [child]).length = node.length + 1 := by simp
      have left : pathStored standing.contents node = false := by
        rw [← path_stored_congr (fun other inner => Standing.stored_inner inner) inner]
        exact Bool.not_eq_true _ |>.mp there
      have right : pathStored (standing.dropped key) node = false := by
        rw [path_stored_congr (fun other inner => Standing.dropped_inner inner) inner]
        exact left
      rw [Standing.shownRoot, rootAt, rootAt, path_stored_snoc, path_stored_snoc, left, right, width]
      simp
    rw [Bool.not_eq_true _ |>.mp there, Bool.false_and, follows.empty_root_hash inner, absent]
    exact Memo.ends_pure _

/-- Opening a node on the path of a key panics where its polynomial and the value are zero; else what it
adds to the proof does not fail in the verifier. -/
theorem Follows.ends_open_node (follows : tree.Follows standing) {node : List UInt8} (on : node <+: key.bytes)
    (inner : node.length < keySize) (there : pathStored standing.stored node = true) (byte : UInt8) :
    (tree.Zeroed standing key node byte ∧ Memo.Ends (Repeats (tree.trueCommitment standing.contents))
      (tree.openNode (keySize - (node.length + 1)) node byte) (.error .panic)) ∨
    (¬ tree.Zeroed standing key node byte ∧ ∃ openings : List OpeningProof,
      (∀ opening ∈ openings, tree.openingFails opening = false) ∧
      Memo.Ends (Repeats (tree.trueCommitment standing.contents))
        (tree.openNode (keySize - (node.length + 1)) node byte) (.ok openings)) := by
  have tells := follows.tells
  generalize levels : keySize - (node.length + 1) = below
  have scalars : tree.trueScalars (tree.trueCommitment standing.contents) below node =
      childIndices.map fun child => rootScalar (standing.shownRoot key (node ++ [child])) := by
    refine List.map_congr_left fun child _ => ?_
    rw [← follows.shown_child on inner there child, levels]
    split <;> rfl
  have zeroed : tree.Zeroed standing key node byte ↔
      (DensePolynomial.fromCoefficientsVec
          (tree.trueScalars (tree.trueCommitment standing.contents) below node)).coeffs = [] ∧
        rootScalar (commitmentRootHash (tree.trueCommitment standing.contents (node ++ [byte]))) = 0 := by
    rw [PolynomialCommitment.from_coefficients_empty_iff, scalars, List.forall_mem_map]
    simp [Zeroed, there]
  have fits : (DensePolynomial.fromCoefficientsVec
      (tree.trueScalars (tree.trueCommitment standing.contents) below node)).coeffs.length ≤
        tree.pc.generators.length := by
    refine (from_coefficients_length_le _).trans ?_
    rw [follows.generators, PolynomialCommitment.length_generators, trueScalars, List.length_map,
      length_child_indices]
  have deep : node.length + (below + 1) = keySize := by omega
  have deeper : ∀ child, (node ++ [child]).length + below = keySize := by
    intro child
    rw [List.length_append, List.length_singleton]
    omega
  have valued : Memo.Ends (Repeats (tree.trueCommitment standing.contents)) (tree.hashNodeValueAtIndex below node byte)
      (.ok (rootScalar (commitmentRootHash (tree.trueCommitment standing.contents (node ++ [byte]))))) :=
    (tells.ends_root_hash (deeper byte)).bind (Memo.ends_pure _)
  have rebuilt : Memo.Ends (Repeats (tree.trueCommitment standing.contents))
      (tree.reconstructNodePolynomial (below + 1) node)
      (.ok (.fromCoefficientsVec (tree.trueScalars (tree.trueCommitment standing.contents) below node))) :=
    (tells.ends_child_scalars (by omega) fun child => tells.ends_get (deeper child)).bind (Memo.ends_pure _)
  rcases PolynomialCommitment.open_cases fits (fromLeBytesModOrder [byte])
    (rootScalar (commitmentRootHash (tree.trueCommitment standing.contents (node ++ [byte])))) with
    ⟨empty, zero, panics⟩ | ⟨apart, ⟨error, refused⟩ | ⟨proof, opened, answers⟩⟩
  · refine .inl ⟨zeroed.mpr ⟨empty, zero⟩, (tells.ends_get deep).bind (valued.bind (rebuilt.bind ?_))⟩
    rw [panics]
    exact Memo.ends_ofExcept _
  · refine .inr ⟨fun both => apart (zeroed.mp both), [], fun _ member => absurd member List.not_mem_nil,
      (tells.ends_get deep).bind (valued.bind (rebuilt.bind ?_))⟩
    rw [refused]
    exact Memo.ends_pure _
  · refine .inr ⟨fun both => apart (zeroed.mp both), [proof], fun opening member => ?_,
      (tells.ends_get deep).bind (valued.bind (rebuilt.bind ?_))⟩
    · obtain ⟨answer, verified⟩ := answers proof.quotientCommitment
      rw [List.mem_singleton.mp member, openingFails, verified]
    · rw [opened]
      exact Memo.ends_pure _

/-- Somewhere on the rest of a path `open` panics. -/
def Blocked (tree : VerkleTree S) (standing : Standing) (key : Bytes32) (node rest : List UInt8) : Prop :=
  ∃ before byte after, rest = before ++ byte :: after ∧ tree.Zeroed standing key (node ++ before) byte

omit [Storage S] in
theorem blocked_cons (tree : VerkleTree S) (standing : Standing) (key : Bytes32) (node : List UInt8) (byte : UInt8)
    (rest : List UInt8) :
    tree.Blocked standing key node (byte :: rest) ↔
      tree.Zeroed standing key node byte ∨ tree.Blocked standing key (node ++ [byte]) rest := by
  constructor
  · rintro ⟨before, other, after, split, zeroed⟩
    cases before with
    | nil =>
      cases split
      rw [List.append_nil] at zeroed
      exact .inl zeroed
    | cons first before =>
      obtain ⟨rfl, later⟩ := List.cons.inj split
      exact .inr ⟨before, other, after, later, by simpa using zeroed⟩
  · rintro (zeroed | ⟨before, other, after, split, zeroed⟩)
    · exact ⟨[], byte, rest, rfl, by rw [List.append_nil]; exact zeroed⟩
    · exact ⟨byte :: before, other, after, by rw [split, List.cons_append], by simpa using zeroed⟩

theorem Follows.ends_open_level (follows : tree.Follows standing) {node path : List UInt8} {pathExists : Bool}
    (on : node <+: key.bytes) (inner : node.length < keySize) (walked : tree.Walked standing node path pathExists)
    (byte : UInt8) :
    (tree.Zeroed standing key node byte ∧ Memo.Ends (Repeats (tree.trueCommitment standing.contents))
      (tree.openLevel node.length path byte pathExists) (.error .panic)) ∨
    (¬ tree.Zeroed standing key node byte ∧ ∃ openings : List OpeningProof,
      (∀ opening ∈ openings, tree.openingFails opening = false) ∧
      Memo.Ends (Repeats (tree.trueCommitment standing.contents))
        (tree.openLevel node.length path byte pathExists) (.ok openings)) := by
  rw [openLevel, walked.there]
  by_cases there : pathStored standing.stored node = true
  · rw [walked.same there, there, if_pos rfl]
    exact follows.ends_open_node on inner there byte
  · rw [if_neg there]
    exact .inr ⟨fun zeroed => there zeroed.1, [], (fun _ member => absurd member List.not_mem_nil), Memo.ends_pure _⟩

/-- The walk along the key panics where it is blocked; else it collects the shown roots. -/
theorem Follows.ends_collect (follows : tree.Follows standing) (rest : List UInt8) {node path : List UInt8}
    {pathExists : Bool} (split : node ++ rest = key.bytes) (walked : tree.Walked standing node path pathExists) :
    (tree.Blocked standing key node rest ∧ Memo.Ends (Repeats (tree.trueCommitment standing.contents))
      (tree.collect rest node.length path pathExists) (.error .panic)) ∨
    (¬ tree.Blocked standing key node rest ∧ ∃ (openings : List OpeningProof) (last : List UInt8),
      (∀ opening ∈ openings, tree.openingFails opening = false) ∧
      (pathStored standing.stored key.bytes = true → last = key.bytes) ∧
      Memo.Ends (Repeats (tree.trueCommitment standing.contents)) (tree.collect rest node.length path pathExists)
        (.ok (((Openings.opening (standing.shownRoot key) node rest).flatMap shown, openings), last,
          pathStored standing.stored key.bytes))) := by
  induction rest generalizing node path pathExists with
  | nil =>
    rw [List.append_nil] at split
    have ended : pathExists = pathStored standing.stored node := by
      rcases walked.onward with same | ⟨rfl, _⟩
      · exact same
      · have width := congrArg List.length split
        rw [length_key, key_size_eq] at width
        cases width
    refine .inr ⟨?_, [], path, (fun _ member => absurd member List.not_mem_nil), ?_, ?_⟩
    · rintro ⟨before, byte, after, absurdity, _⟩
      simp at absurdity
    · rw [← split]
      exact walked.same
    · rw [← split, ended]
      exact Memo.ends_pure _
  | cons byte rest ih =>
    have width := congrArg List.length split
    rw [length_key] at width
    simp only [List.length_append, List.length_cons] at width
    have on : node <+: key.bytes := ⟨byte :: rest, split⟩
    have longer : (node ++ [byte]).length = node.length + 1 := by simp
    obtain ⟨onward, same⟩ := follows.walk walked byte
    have level := follows.ends_collect_level on (by omega) walked
    have remaining : node ++ [byte] ++ rest = key.bytes := by rw [List.append_assoc, List.singleton_append, split]
    have later := ih remaining (follows.walked same)
    rw [longer, ← onward] at later
    rw [blocked_cons]
    rcases follows.ends_open_level on (by omega) walked byte with ⟨zeroed, panics⟩ | ⟨clear, openings, sound, added⟩
    · exact .inl ⟨.inl zeroed, level.bind panics.bind_error⟩
    · rcases later with ⟨blocked, panics⟩ | ⟨free, more, last, moreSound, whole, collected⟩
      · exact .inl ⟨.inr blocked, level.bind (added.bind panics.bind_error)⟩
      · refine .inr ⟨(fun either => either.elim clear free), openings ++ more, last, fun opening member => ?_, whole, ?_⟩
        · exact (List.mem_append.mp member).elim (sound opening) (moreSound opening)
        · exact level.bind (added.bind (collected.bind (Memo.ends_pure _)))

/-- The proof that a tree gives for a key, up to its openings. -/
def standingProof (standing : Standing) (key : Bytes32) (openingProofs : List OpeningProof) : VerkleProof where
  proofType := if (provenValue (standing.dropped key) key).isSome then .membership else .nonMembership
  path := key.bytes
  siblings := (Openings.opening (standing.shownRoot key) [] key.bytes).flatMap shown
  leafValue := provenValue (standing.dropped key) key
  root := storageRoot standing.contents
  openingProofs := openingProofs

omit [Blake3] [Bandersnatch] in
/-- What is stored at a key is what is left there without its pruned siblings. -/
theorem proven_stored (standing : Standing) (key : Bytes32) :
    (if pathStored standing.stored key.bytes then storedValue standing.stored key.bytes else none) =
      provenValue (standing.dropped key) key := by
  have leaf : standing.stored (keyForPath key.bytes) = standing.dropped key (keyForPath key.bytes) := by
    rw [Standing.dropped_leaf]
    by_cases pruned : key ∈ standing.pruned
    · rw [if_pos ⟨pruned, rfl⟩, Standing.stored_pruned pruned]
    · rw [if_neg (fun both => pruned both.1), Standing.stored_unpruned pruned]
  have nodes : ∀ node, node <+: key.bytes → storedNode standing.stored node = storedNode (standing.dropped key) node := by
    intro node on
    by_cases inner : node.length = keySize
    · rw [on.eq_of_length (inner.trans (length_key key).symm)]
      exact congrArg Option.isSome leaf
    · exact congrArg Option.isSome ((Standing.stored_inner inner).trans (Standing.dropped_inner inner).symm)
  have paths : pathStored standing.stored key.bytes = pathStored (standing.dropped key) key.bytes := by
    rw [Bool.eq_iff_iff, path_stored_iff, path_stored_iff]
    exact forall₂_congr fun node on => by rw [nodes node on]
  rw [provenValue, paths, stored_value_congr leaf]

/-- Generating a proof panics where it is blocked, and else shows the standing contents; it changes
nothing but the caches. -/
theorem Follows.generate_proof (follows : tree.Follows standing) (rooted : standing.Rooted) (key : Bytes32) :
    (tree.generateProof key).2.Follows standing ∧
      ((tree.Blocked standing key [] key.bytes ∧ (tree.generateProof key).1 = .error .panic) ∨
        (¬ tree.Blocked standing key [] key.bytes ∧ ∃ openings : List OpeningProof,
          (∀ opening ∈ openings, tree.openingFails opening = false) ∧
          (tree.generateProof key).1 = .ok (standingProof standing key openings))) := by
  have walk := follows.ends_collect key.bytes (List.nil_append _) (follows.starts rooted)
  rw [List.length_nil] at walk
  rw [generateProof]
  rcases walk with ⟨blocked, panics⟩ | ⟨free, openings, last, sound, whole, collected⟩
  · obtain ⟨table, ran, kept⟩ := panics tree.commitmentCache follows.cache
    rw [ran]
    exact ⟨follows.recached kept follows.cachedRoot, .inl ⟨blocked, rfl⟩⟩
  · obtain ⟨table, ran, kept⟩ := collected tree.commitmentCache follows.cache
    obtain ⟨answer, still⟩ := (follows.recached kept follows.cachedRoot).get_root
    have leaf : (if pathStored standing.stored key.bytes then tree.getNodeValue last else none) =
        provenValue (standing.dropped key) key := by
      rw [← proven_stored]
      split
      · rename_i stored
        rw [whole stored, follows.node_value]
      · rfl
    rw [ran]
    dsimp only
    rw [leaf]
    rcases got : getRoot { tree with commitmentCache := table } with ⟨outcome, later⟩
    rw [got] at answer still
    cases answer
    exact ⟨still, .inr ⟨free, openings, sound, rfl⟩⟩

end Generation

section Verification
variable {proof : VerkleProof}

/-- The same proof for the state tree, which has no openings to look at. -/
def plain (proof : VerkleProof) : Klomang.VerkleProof where
  proofType := proof.proofType
  path := proof.path
  siblings := proof.siblings
  leafValue := proof.leafValue
  root := proof.root
  gasFeeDistribution := none

omit [Storage S] in
/-- The loop of the verifier rebuilds the opening, from the deepest level up. -/
theorem reconstruct_eq (generators : tree.pc = .new verkleRadix) (path : List UInt8) (siblings : List Hash)
    (depths : Nat) (below : Hash) :
    tree.reconstruct path siblings depths (rootScalar below) below =
      some (Openings.rebuild vectorRoot rootScalar (proofLevels path siblings depths) below) := by
  induction depths generalizing below with
  | zero => rfl
  | succ depth ih =>
    rw [reconstruct, generators, level_coeffs_eq, PolynomialCommitment.commit_ok verkleRadix (by simp)]
    refine (ih _).trans ?_
    rw [proofLevels, proofLevels, List.range_succ, List.map_append, Openings.rebuild_append]
    rfl

/-- The verifier starts from the leaf of the proof, when its type agrees with its value. -/
theorem Follows.start_scalar (follows : tree.Follows standing) (proofType : ProofType)
    (leafValue : Option (List UInt8)) :
    tree.startScalar proofType leafValue =
      if proofType = .membership ↔ leafValue.isSome = true then some (rootScalar (leafRoot leafValue)) else none := by
  have empty : tree.emptySubtreeRootHash keySize = leafRoot none := by
    rw [follows.empty_root_hash le_rfl, Nat.sub_self, leaf_root_none]
  have committed (value : List UInt8) : tree.pc.commit (.fromCoefficientsVec [Klomang.VerkleTree.valueToScalar value]) =
      .ok (committed [leafScalar (some value)]) := by
    rw [follows.generators, PolynomialCommitment.commit_ok verkleRadix (by simp [verkleRadix])]
    rfl
  cases proofType <;> cases leafValue <;> simp [startScalar, empty, committed, leafRoot]

/-- The verifier accepts what the state tree's verifier accepts, as long as it fails on none of the
openings. -/
theorem Follows.verify_proof (follows : tree.Follows standing) (proof : VerkleProof) :
    tree.verifyProof proof = true ↔
      Accepted (plain proof) ∧ ∀ opening ∈ proof.openingProofs, tree.openingFails opening = false := by
  have levels : keySize = 31 + 1 := key_size_eq
  have accepted : Accepted (plain proof) ↔ proof.path.length = keySize ∧
      proof.siblings.length = keySize * verkleRadix ∧
      (proof.proofType = .membership ↔ proof.leafValue.isSome = true) ∧
      Openings.rebuild vectorRoot rootScalar (proofLevels proof.path proof.siblings keySize)
        (leafRoot proof.leafValue) = proof.root := by
    constructor
    · exact fun accepted => ⟨accepted.path, accepted.siblings, accepted.typed, accepted.rebuilt⟩
    · rintro ⟨path, siblings, typed, rebuilt⟩
      exact ⟨path, siblings, typed, rebuilt, fun _ asked => absurd asked (Option.some_ne_none _).symm⟩
  -- the root that the loop starts with is replaced at its first level
  have rebuilt : tree.reconstruct proof.path proof.siblings keySize (rootScalar (leafRoot proof.leafValue))
      (.replicate 0) = some (Openings.rebuild vectorRoot rootScalar (proofLevels proof.path proof.siblings keySize)
        (leafRoot proof.leafValue)) := by
    rw [← reconstruct_eq follows.generators, levels]
    rfl
  have openings : (proof.openingProofs.any tree.openingFails = true) ↔
      ¬ ∀ opening ∈ proof.openingProofs, tree.openingFails opening = false := by
    simp
  rw [accepted, verifyProof, follows.start_scalar]
  by_cases path : proof.path.length = keySize
  · by_cases siblings : proof.siblings.length = keySize * verkleRadix
    · rw [if_neg (not_not.mpr path), if_neg (not_not.mpr siblings)]
      by_cases sound : ∀ opening ∈ proof.openingProofs, tree.openingFails opening = false
      · rw [if_neg fun fails => openings.mp fails sound]
        by_cases typed : proof.proofType = .membership ↔ proof.leafValue.isSome = true
        · rw [if_pos typed]
          dsimp only
          rw [rebuilt]
          simp only [decide_eq_true_eq]
          exact ⟨fun same => ⟨⟨path, siblings, typed, same⟩, sound⟩, fun both => both.1.2.2.2⟩
        · rw [if_neg typed]
          exact iff_of_false Bool.false_ne_true fun both => typed both.1.2.2.1
      · rw [if_pos (openings.mpr sound)]
        exact iff_of_false Bool.false_ne_true fun both => sound both.2
    · simp [path, siblings]
  · simp [path]

/-- A generated proof is accepted when the dropped leaves do not change the root. -/
theorem standing_proof_accepted (standing : Standing) (key : Bytes32) (openingProofs : List OpeningProof) :
    Accepted (plain (standingProof standing key openingProofs)) ↔
      rootAt (standing.dropped key) [] = storageRoot standing.contents := by
  have siblings : (plain (standingProof standing key openingProofs)).siblings =
      (Openings.opening (standing.shownRoot key) [] key.bytes).flatMap shown := rfl
  rw [opening_accepted_iff key rfl siblings ?_ rfl]
  · rw [← standing.rebuild_shown key]
    rfl
  · dsimp only [plain, standingProof]
    split <;> simp_all

end Verification
end VerkleTree
end Klomang.Crypto
