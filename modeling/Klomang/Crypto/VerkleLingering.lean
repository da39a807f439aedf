import Klomang.Crypto.VerkleWeights

/-! Pruned values that linger. The root goes on committing to a pruned value, although it is gone from the
storage, until an insertion renews the node above its leaf. Until then no proof of the key or of a key
beside it is accepted. -/
namespace Klomang.Crypto

open Klomang.VerkleTree (keySize keyForPath key_size_eq storedNode storedValue pathStored path_stored_iff provenValue
  rootAt root_at_root storageRoot storageProof storage_proof_accepted Collisionless accepted_bound)
open Klomang.Crypto.VerkleTree (Operation perform fresh new_ok run_follows standingProof plain standing_proof_accepted
  entries)

section Roots
variable [Blake3] [Bandersnatch] {standing : Standing} {left right : Contents} {key : Bytes32}

omit [Blake3] [Bandersnatch] in
theorem proven_dropped_none {other : Bytes32} (pruned : other ∈ standing.pruned) (siblings : Siblings other key) :
    provenValue (standing.dropped key) other = none := by
  have gone := value_dropped standing key other
  rw [if_pos ⟨pruned, siblings⟩] at gone
  rw [proven_value_eq, gone, ite_self]

omit [Blake3] [Bandersnatch] in
/-- Without its pruned siblings a key's tree has the same proven values when none of them is proven. -/
theorem proven_dropped (gone : ∀ other ∈ standing.pruned, Siblings other key → provenValue standing.contents other = none)
    (other : Bytes32) : provenValue (standing.dropped key) other = provenValue standing.contents other := by
  have paths : pathStored (standing.dropped key) (other.bytes.take 31) =
      pathStored standing.contents (other.bytes.take 31) :=
    path_stored_congr (fun _ inner => Standing.dropped_inner inner) (short_parent other)
  by_cases both : other ∈ standing.pruned ∧ Siblings other key
  · rw [gone other both.1 both.2, proven_dropped_none both.1 both.2]
  · rw [proven_value_eq, proven_value_eq, paths, value_dropped, if_neg both]

/-- A proof of a key gives the root when none of the key's pruned siblings is still proven by it; only
then, unless something collides. -/
theorem dropped_root_iff (rooted : standing.Rooted)
    (collisionless : ∀ other ∈ standing.pruned, Siblings other key →
      Collisionless (storageProof (standing.dropped key) other none) (storageProof standing.contents other none)) :
    rootAt (standing.dropped key) [] = storageRoot standing.contents ↔
      ∀ other ∈ standing.pruned, Siblings other key → provenValue standing.contents other = none := by
  have droppedRooted := rooted.dropped key
  constructor
  · intro same other pruned siblings
    have roots := droppedRooted.root.symm.trans same
    have bound := accepted_bound (droppedRooted.accepted other) (rooted.accepted other) roots rfl
      (collisionless other pruned siblings)
    change provenValue (standing.dropped key) other = provenValue standing.contents other at bound
    rw [← bound]
    exact proven_dropped_none pruned siblings
  · intro gone
    rw [← rooted.root]
    exact root_of_proven (proven_dropped gone)

end Roots

namespace VerkleTree
variable [Blake3] [Bandersnatch] {S : Type} [Storage S]

/-- The operations that compute the node above a leaf anew. -/
def Operation.Renews (key : Bytes32) : Operation → Prop
  | .insert other _ => Siblings key other
  | .pruneKey _ => False
  | .getRoot => False
  | .generateProof _ => False
  | .calculateVerkleRoot _ _ => True

/-- A key was pruned while it held a value, and the node above its leaf has not been renewed since. -/
def Lingers (start : VerkleTree S) (operations : List Operation) (key : Bytes32) (value : List UInt8) : Prop :=
  ∃ before rest, operations = before ++ .pruneKey key :: rest ∧
    (Runs.run perform start before).get key = .ok (some value) ∧ ∀ operation ∈ rest, ¬ operation.Renews key

theorem lingers_snoc (start : VerkleTree S) (operations : List Operation) (operation : Operation) (key : Bytes32)
    (value : List UInt8) :
    Lingers start (operations ++ [operation]) key value ↔
      (operation = .pruneKey key ∧ (Runs.run perform start operations).get key = .ok (some value)) ∨
        (¬ operation.Renews key ∧ Lingers start operations key value) := by
  constructor
  · rintro ⟨before, rest, split, held, quiet⟩
    cases rest using List.reverseRecOn with
    | nil =>
      obtain ⟨rfl, last⟩ := List.append_inj' split rfl
      exact .inl ⟨(List.cons.inj last).1, held⟩
    | append_singleton rest last =>
      have shorter : operations ++ [operation] = (before ++ .pruneKey key :: rest) ++ [last] := by simp [split]
      obtain ⟨rfl, same⟩ := List.append_inj' shorter rfl
      obtain rfl := (List.cons.inj same).1
      refine .inr ⟨quiet operation (by simp), before, rest, rfl, held, fun other member => ?_⟩
      exact quiet other (List.mem_append_left _ member)
  · rintro (⟨rfl, held⟩ | ⟨idle, before, rest, rfl, held, quiet⟩)
    · exact ⟨operations, [], rfl, held, fun _ member => absurd member List.not_mem_nil⟩
    · refine ⟨before, rest ++ [operation], by simp, held, fun other member => ?_⟩
      rcases List.mem_append.mp member with earlier | last
      · exact quiet other earlier
      · rw [List.mem_singleton.mp last]
        exact idle

/-- What a tree answers for a key. -/
theorem Follows.get {tree : VerkleTree S} {standing : Standing} (follows : tree.Follows standing) (key : Bytes32)
    (value : List UInt8) :
    tree.get key = .ok (some value) ↔ key ∉ standing.pruned ∧ storedValue standing.contents key.bytes = some value := by
  rw [VerkleTree.get, follows.node_value]
  by_cases pruned : key ∈ standing.pruned
  · rw [if_pos ((follows.marked key).mpr pruned)]
    refine iff_of_false ?_ fun both => both.1 pruned
    intro absurdity
    cases absurdity
  · rw [if_neg (mt (follows.marked key).mp pruned), stored_value_congr (Standing.stored_unpruned pruned)]
    exact ⟨fun same => ⟨pruned, Except.ok.inj same⟩, fun both => congrArg Except.ok both.2⟩

/-- The standing values of pruned keys are those that linger. -/
theorem lingers_iff (storage : S) (operations : List Operation) (key : Bytes32) (value : List UInt8) :
    Lingers (fresh storage) operations key value ↔
      key ∈ (Standing.after (contentsOf storage) operations).pruned ∧
        storedValue (Standing.after (contentsOf storage) operations).contents key.bytes = some value := by
  induction operations using List.reverseRecOn with
  | nil =>
    constructor
    · rintro ⟨before, rest, split, _⟩
      simp at split
    · exact fun both => absurd both.1 (Finset.notMem_empty key)
  | append_singleton operations operation ih =>
    have follows := (run_follows storage operations).1
    rw [lingers_snoc, ih, follows.get, Standing.after_snoc]
    generalize Standing.after (contentsOf storage) operations = standing
    cases operation with
    | insert other written =>
      rw [Standing.step, Standing.insert]
      dsimp only
      rw [value_written, Finset.mem_erase, value_dropped]
      by_cases siblings : Siblings key other
      · have renews : (Operation.insert other written).Renews key := siblings
        by_cases same : key = other
        · subst same
          simp [renews]
        · by_cases pruned : key ∈ standing.pruned <;> simp [renews, same, siblings, pruned]
      · have idle : ¬ (Operation.insert other written).Renews key := siblings
        have apart : key ≠ other := by
          rintro rfl
          exact siblings rfl
        simp [idle, apart, siblings]
    | pruneKey other =>
      have idle : ¬ (Operation.pruneKey other).Renews key := id
      rw [Standing.step, Standing.prune]
      by_cases same : key = other
      · subst same
        by_cases pruned : key ∈ standing.pruned
        · rw [Standing.stored_pruned pruned]
          simp [idle, pruned]
        · rw [Standing.stored_unpruned pruned]
          split
          · simp [idle, pruned]
          · rename_i missing
            have empty : storedValue standing.contents key.bytes = none :=
              stored_value_none (Option.not_isSome_iff_eq_none.mp missing)
            simp [pruned, empty]
      · have apart : Operation.pruneKey other ≠ .pruneKey key := fun equal => same (Operation.pruneKey.inj equal).symm
        split <;> simp [idle, apart, same]
    | getRoot =>
      have idle : ¬ Operation.getRoot.Renews key := id
      simp [idle, Standing.step]
    | generateProof other =>
      have idle : ¬ (Operation.generateProof other).Renews key := id
      simp [idle, Standing.step]
    | calculateVerkleRoot order utxoSet =>
      have renews : (Operation.calculateVerkleRoot order utxoSet).Renews key := trivial
      have unpruned : (standing.step (.calculateVerkleRoot order utxoSet)).pruned = ∅ := by
        rw [Standing.step]
        induction entries order utxoSet using List.reverseRecOn with
        | nil => rfl
        | append_singleton before last ih =>
          rw [List.foldl_append, List.foldl_cons, List.foldl_nil, Standing.insert, ih]
          rfl
      simp [renews, unpruned]

/-- Nodes of the tree and of what stands are the same, the pruned leaves excepted. -/
theorem Follows.path_stored {tree : VerkleTree S} {standing : Standing} (follows : tree.Follows standing)
    {path : List UInt8} (short : path.length < keySize) :
    pathStored tree.storage path = pathStored standing.contents path := by
  have stored : pathStored tree.storage path = pathStored standing.stored path := by
    rw [Bool.eq_iff_iff, path_stored_iff, path_stored_iff]
    exact forall₂_congr fun node _ => Bool.eq_iff_iff.mp (follows.node_exists node)
  rw [stored]
  exact path_stored_congr (fun _ inner => Standing.stored_inner inner) short

/-- A generated proof is made and accepted exactly when nothing on the way makes `open` panic, and the
contents without the pruned leaves beside the key have the root. -/
theorem Follows.generated_accepted {tree : VerkleTree S} {standing : Standing} (follows : tree.Follows standing)
    (rooted : standing.Rooted) (key : Bytes32) :
    (∃ proof, (tree.generateProof key).1 = .ok proof ∧ (tree.generateProof key).2.verifyProof proof = true) ↔
      ¬ tree.Blocked standing key [] key.bytes ∧ rootAt (standing.dropped key) [] = storageRoot standing.contents := by
  obtain ⟨later, ⟨blocked, panics⟩ | ⟨free, openings, sound, made⟩⟩ := follows.generate_proof rooted key
  · rw [panics]
    exact ⟨fun both => (nomatch both.choose_spec.1), fun both => absurd blocked both.1⟩
  · rw [made, ← standing_proof_accepted _ key openings]
    constructor
    · rintro ⟨proof, same, accepted⟩
      cases same
      exact ⟨free, ((later.verify_proof _).mp accepted).1⟩
    · rintro ⟨_, accepted⟩
      refine ⟨_, rfl, (later.verify_proof _).mpr ⟨accepted, fun opening member => ?_⟩⟩
      have answer := sound opening member
      rw [openingFails, follows.generators] at answer
      rw [openingFails, later.generators]
      exact answer

/-- A generated proof is made and accepted exactly when nothing on the way makes `open` panic, and no
value of the key or of a key beside it lingers where it is proven. -/
theorem generated_accepted_iff (storage : S) (operations : List Operation) (key : Bytes32)
    (collisionless : ∀ other ∈ (Standing.after (contentsOf storage) operations).pruned, Siblings other key →
      Collisionless (storageProof ((Standing.after (contentsOf storage) operations).dropped key) other none)
        (storageProof (Standing.after (contentsOf storage) operations).contents other none)) :
    ∃ start, new storage = .ok start ∧
      ((∃ proof, ((Runs.run perform start operations).generateProof key).1 = .ok proof ∧
          ((Runs.run perform start operations).generateProof key).2.verifyProof proof = true) ↔
        ¬ (Runs.run perform start operations).Blocked (Standing.after (contentsOf storage) operations) key [] key.bytes ∧
          (pathStored (Runs.run perform start operations).storage (key.bytes.take 31) = true →
            ∀ other value, Siblings other key → ¬ Lingers start operations other value)) := by
  obtain ⟨follows, rooted⟩ := run_follows storage operations
  refine ⟨fresh storage, new_ok storage, ?_⟩
  rw [follows.generated_accepted rooted, dropped_root_iff rooted collisionless, follows.path_stored (short_parent key)]
  refine and_congr_right fun _ => ?_
  constructor
  · intro gone above other value siblings lingers
    obtain ⟨pruned, held⟩ := (lingers_iff storage operations other value).mp lingers
    have empty := gone other pruned siblings
    rw [proven_value_eq, siblings, if_pos above, held] at empty
    cases empty
  · intro quiet other pruned siblings
    rw [proven_value_eq, siblings]
    split
    · rename_i above
      refine Option.eq_none_iff_forall_ne_some.mpr fun value held => ?_
      exact quiet above other value siblings ((lingers_iff storage operations other value).mpr ⟨pruned, held⟩)
    · rfl

end VerkleTree

section Runs
open Weighing
open scoped Weighing

/-- A key is pruned while it holds a value. -/
def pruneFirst : List Operation := [.insert first [255], .pruneKey first]

/-- The contents with its value. -/
def firstHeld : Contents := ((Standing.start (contentsOf (∅ : MemoryStorage))).insert first [255]).contents

theorem after_prune_first : Standing.after (contentsOf (∅ : MemoryStorage)) pruneFirst = ⟨firstHeld, {first}⟩ := by
  have unpruned : (Standing.start (contentsOf (∅ : MemoryStorage))).pruned = ∅ := rfl
  exact Standing.prune_inserted unpruned first [255]

theorem lists_first : Lists firstHeld [(first, [255])] := lists_start.insert rfl first (by decide)

/-- Without the pruned leaf there is no value. -/
theorem prune_first_dropped {key : Bytes32} (siblings : Siblings first key) :
    Lists ((Standing.after (contentsOf (∅ : MemoryStorage)) pruneFirst).dropped key) [] := by
  refine lists_nothing fun other => ?_
  rw [value_dropped, after_prune_first]
  by_cases same : other = first
  · rw [if_pos ⟨Finset.mem_singleton.mpr same, same ▸ siblings⟩]
  · rw [if_neg (fun both => same (Finset.mem_singleton.mp both.1)), lists_first.value]
    rw [List.lookup_cons, beq_eq_false_iff_ne.mpr same, List.lookup_nil]

theorem prune_first_collisionless :
    ∀ other ∈ (Standing.after (contentsOf (∅ : MemoryStorage)) pruneFirst).pruned, Siblings other first →
      Collisionless (storageProof ((Standing.after (contentsOf (∅ : MemoryStorage)) pruneFirst).dropped first) other none)
        (storageProof (Standing.after (contentsOf (∅ : MemoryStorage)) pruneFirst).contents other none) := by
  intro other pruned _
  rw [after_prune_first] at pruned
  obtain rfl := Finset.mem_singleton.mp pruned
  have nothing : Holds ((Standing.after (contentsOf (∅ : MemoryStorage)) pruneFirst).dropped first) [] :=
    holds_lists (prune_first_dropped rfl) (by simp) (by simp) (by decide +kernel) (by simp)
  have something : Holds (Standing.after (contentsOf (∅ : MemoryStorage)) pruneFirst).contents [(first, [255])] := by
    rw [after_prune_first]
    exact holds_lists lists_first (by simp) (by decide) (by decide +kernel) (by decide)
  refine nothing.collisionless something first (.inr fun node below on also => ?_)
  exact numbers_apart (by decide +kernel) node below on also

/-- The proof of a pruned key is not accepted. -/
theorem pruned_first_refused :
    (∀ other ∈ (Standing.after (contentsOf (∅ : MemoryStorage)) pruneFirst).pruned, Siblings other first →
      Collisionless (storageProof ((Standing.after (contentsOf (∅ : MemoryStorage)) pruneFirst).dropped first) other none)
        (storageProof (Standing.after (contentsOf (∅ : MemoryStorage)) pruneFirst).contents other none)) ∧
    ∃ start, VerkleTree.new (∅ : MemoryStorage) = .ok start ∧
      ∃ proof, ((Runs.run perform start pruneFirst).generateProof first).1 = .ok proof ∧
        ((Runs.run perform start pruneFirst).generateProof first).2.verifyProof proof = false := by
  refine ⟨prune_first_collisionless, _, new_ok _, ?_⟩
  obtain ⟨follows, rooted⟩ := run_follows (∅ : MemoryStorage) pruneFirst
  have refused : ¬ rootAt ((Standing.after (contentsOf (∅ : MemoryStorage)) pruneFirst).dropped first) [] =
      storageRoot (Standing.after (contentsOf (∅ : MemoryStorage)) pruneFirst).contents := by
    rw [dropped_root_iff rooted prune_first_collisionless, after_prune_first]
    intro gone
    have empty := gone first (Finset.mem_singleton_self first) rfl
    rw [lists_first.proven, List.lookup_cons, beq_self_eq_true] at empty
    cases empty
  have unaccepted := mt (follows.generated_accepted rooted first).mp fun both => refused both.2
  obtain ⟨_, ⟨blocked, _⟩ | ⟨_, _, _, made⟩⟩ := follows.generate_proof rooted first
  · exact absurd blocked (unblocked _ _ _ _ _)
  · refine ⟨_, made, ?_⟩
    exact Bool.not_eq_true _ |>.mp fun accepted => unaccepted ⟨_, made, accepted⟩

/-- What decides about it. -/
theorem pruned_first_decided :
    ∃ start, VerkleTree.new (∅ : MemoryStorage) = .ok start ∧
      ((∃ proof, ((Runs.run perform start pruneFirst).generateProof first).1 = .ok proof ∧
          ((Runs.run perform start pruneFirst).generateProof first).2.verifyProof proof = true) ↔
        ¬ (Runs.run perform start pruneFirst).Blocked
            (Standing.after (contentsOf (∅ : MemoryStorage)) pruneFirst) first [] first.bytes ∧
          (pathStored (Runs.run perform start pruneFirst).storage (first.bytes.take 31) = true →
            ∀ other value, Siblings other first → ¬ VerkleTree.Lingers start pruneFirst other value)) :=
  VerkleTree.generated_accepted_iff ∅ pruneFirst first prune_first_collisionless

end Runs
end Klomang.Crypto
