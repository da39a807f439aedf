import Klomang.Crypto.VerkleLingering

/-! What `verify_verkle_proof` attests. A membership proof attests a value that the root stands for, be it
held by the tree or lingering; a proof of the other type is accepted for every value that is asked for. -/
namespace Klomang.Crypto

open Klomang.VerkleTree (pathStored provenValue storageProof storageRoot Collisionless accepted_bound)
open Klomang.Crypto.VerkleTree (Operation perform fresh new_ok run_follows plain Lingers lingers_iff)

section Attesting
variable [Blake3] [Bandersnatch] {S T : Type} [Storage S] [Storage T]

/-- The trees that a run of operations reaches from a new tree. -/
def Reached (tree : VerkleTree S) : Prop :=
  ∃ storage start operations, VerkleTree.new storage = .ok start ∧ tree = Runs.run perform start operations

theorem Reached.follows {tree : VerkleTree S} (reached : Reached tree) : ∃ standing, tree.Follows standing := by
  obtain ⟨storage, start, operations, made, rfl⟩ := reached
  obtain rfl : fresh storage = start := Except.ok.inj ((new_ok storage).symm.trans made)
  exact ⟨_, (run_follows storage operations).1⟩

omit [Storage S] in
/-- The checks of `verify_verkle_proof`. -/
theorem verify_verkle_proof_iff (tree : VerkleTree S) (root : Hash) (proof : VerkleProof) (key value : Hash) :
    tree.verifyVerkleProof root proof key value = true ↔
      proof.root = root ∧ tree.verifyProof proof = true ∧ proof.path = key.bytes ∧
        (proof.proofType = .membership → ∃ held, proof.leafValue = some held ∧ Hash.new held = value) ∧
        (proof.proofType = .nonMembership → proof.leafValue = none) := by
  rw [VerkleTree.verifyVerkleProof]
  by_cases root : proof.root = root
  · by_cases accepted : tree.verifyProof proof = true
    · by_cases path : proof.path = key.bytes
      · cases proof.proofType <;> cases proof.leafValue <;> simp [root, accepted, path]
      · simp [path]
    · simp [accepted]
  · simp [root]

/-- An accepted membership proof attests a value with the hash that was asked for: the tree holds it, or
held it when the key was pruned. An accepted proof of the other type attests that the root proves no value,
whatever was asked for. -/
theorem attested (storage : S) {start : VerkleTree S} (made : VerkleTree.new storage = .ok start)
    (operations : List Operation) {verifier : VerkleTree T} (reached : Reached verifier) {root key value : Hash}
    {proof : VerkleProof} (rooted : (Runs.run perform start operations).getRoot.1 = .ok root)
    (accepted : verifier.verifyVerkleProof root proof key value = true)
    (collisionless : Collisionless (plain proof)
      (storageProof (Standing.after (contentsOf storage) operations).contents key none)) :
    (proof.proofType = .membership → ∃ held, Hash.new held = value ∧
        ((Runs.run perform start operations).get key = .ok (some held) ∨ Lingers start operations key held)) ∧
      (proof.proofType = .nonMembership →
        pathStored (Runs.run perform start operations).storage (key.bytes.take 31) = true →
          ∀ held, (Runs.run perform start operations).get key ≠ .ok (some held) ∧
            ¬ Lingers start operations key held) := by
  obtain rfl : fresh storage = start := Except.ok.inj ((new_ok storage).symm.trans made)
  obtain ⟨follows, top⟩ := run_follows storage operations
  obtain ⟨standing, verifies⟩ := reached.follows
  obtain ⟨same, verified, path, member, absent⟩ := (verify_verkle_proof_iff verifier root proof key value).mp accepted
  rw [follows.get_root.1] at rooted
  have sound := ((verifies.verify_proof proof).mp verified).1
  have shown : proof.leafValue = provenValue (Standing.after (contentsOf storage) operations).contents key :=
    accepted_bound sound (top.accepted key) (same.trans (Except.ok.inj rooted).symm) path collisionless
  rw [proven_value_eq] at shown
  constructor
  · intro typed
    obtain ⟨held, leaf, hashed⟩ := member typed
    refine ⟨held, hashed, ?_⟩
    rw [follows.get, lingers_iff]
    rw [leaf] at shown
    split at shown
    · by_cases pruned : key ∈ (Standing.after (contentsOf storage) operations).pruned
      · exact .inr ⟨pruned, shown.symm⟩
      · exact .inl ⟨pruned, shown.symm⟩
    · cases shown
  · intro typed above held
    rw [follows.path_stored (short_parent key)] at above
    rw [absent typed, if_pos above] at shown
    rw [Ne, follows.get, lingers_iff, ← shown]
    simp

/-- The proof that contents give for a key, with no openings to look at. -/
def shownProof (contents : Contents) (key : Bytes32) : VerkleProof where
  proofType := (storageProof contents key none).proofType
  path := (storageProof contents key none).path
  siblings := (storageProof contents key none).siblings
  leafValue := (storageProof contents key none).leafValue
  root := (storageProof contents key none).root
  openingProofs := []

theorem plain_shown (contents : Contents) (key : Bytes32) :
    plain (shownProof contents key) = storageProof contents key none := rfl

/-- It is accepted for its root and its key, for the hash of its value or, without one, for any hash. -/
theorem shown_accepted (storage : S) (operations : List Operation) (key value : Hash)
    (hashed : ∀ held, provenValue (Standing.after (contentsOf storage) operations).contents key = some held →
      Hash.new held = value) :
    (Runs.run perform (fresh storage) operations).verifyVerkleProof
      (storageRoot (Standing.after (contentsOf storage) operations).contents)
      (shownProof (Standing.after (contentsOf storage) operations).contents key) key value = true := by
  obtain ⟨follows, top⟩ := run_follows storage operations
  have accepted := top.accepted key
  refine (verify_verkle_proof_iff _ _ _ _ _).mpr ⟨rfl, ?_, rfl, fun typed => ?_, fun typed => ?_⟩
  · exact (follows.verify_proof _).mpr ⟨accepted, fun _ member => absurd member List.not_mem_nil⟩
  · obtain ⟨held, found⟩ := Option.isSome_iff_exists.mp (accepted.typed.mp typed)
    exact ⟨held, found, hashed held found⟩
  · refine Option.not_isSome_iff_eq_none.mp fun there => ?_
    have membership := accepted.typed.mpr there
    rw [show (storageProof (Standing.after (contentsOf storage) operations).contents key none).proofType =
      .nonMembership from typed] at membership
    cases membership

end Attesting

section Runs
open Weighing
open scoped Weighing

/-- On a new tree a proof is accepted for a value of a key that the tree does not hold, and so is one for
the value of a key that has been pruned. -/
theorem accepted_unheld :
    (∃ start, VerkleTree.new (∅ : MemoryStorage) = .ok start ∧ ∃ root proof value,
      start.getRoot.1 = .ok root ∧ start.verifyVerkleProof root proof first value = true ∧
        Collisionless (plain proof)
          (storageProof (Standing.after (contentsOf (∅ : MemoryStorage)) []).contents first none) ∧
        ∀ held, start.get first ≠ .ok (some held)) ∧
    ∃ start, VerkleTree.new (∅ : MemoryStorage) = .ok start ∧ ∃ root proof value,
      (Runs.run perform start pruneFirst).getRoot.1 = .ok root ∧
        (Runs.run perform start pruneFirst).verifyVerkleProof root proof first value = true ∧
        Collisionless (plain proof)
          (storageProof (Standing.after (contentsOf (∅ : MemoryStorage)) pruneFirst).contents first none) ∧
        ∀ held, (Runs.run perform start pruneFirst).get first ≠ .ok (some held) := by
  constructor
  · obtain ⟨follows, _⟩ := run_follows (∅ : MemoryStorage) []
    have empty : Lists (Standing.after (contentsOf (∅ : MemoryStorage)) []).contents [] := lists_start
    have nothing : Holds (Standing.after (contentsOf (∅ : MemoryStorage)) []).contents [] :=
      holds_lists empty (by simp) (by simp) (by decide +kernel) (by simp)
    refine ⟨_, new_ok _, _, shownProof (Standing.after (contentsOf (∅ : MemoryStorage)) []).contents first,
      Hash.new [], follows.get_root.1, ?_, ?_, fun held holds => ?_⟩
    · refine shown_accepted (∅ : MemoryStorage) [] first (Hash.new []) fun held found => ?_
      rw [empty.proven] at found
      cases found
    · rw [plain_shown]
      exact nothing.collisionless nothing first (.inl rfl)
    · have value := ((follows.get first held).mp holds).2
      rw [empty.value] at value
      cases value
  · obtain ⟨follows, _⟩ := run_follows (∅ : MemoryStorage) pruneFirst
    have lists : Lists (Standing.after (contentsOf (∅ : MemoryStorage)) pruneFirst).contents [(first, [255])] := by
      rw [after_prune_first]
      exact lists_first
    have something : Holds (Standing.after (contentsOf (∅ : MemoryStorage)) pruneFirst).contents [(first, [255])] :=
      holds_lists lists (by simp) (by decide) (by decide +kernel) (by decide)
    refine ⟨_, new_ok _, _, shownProof (Standing.after (contentsOf (∅ : MemoryStorage)) pruneFirst).contents first,
      Hash.new [255], follows.get_root.1, ?_, ?_, fun held holds => ?_⟩
    · refine shown_accepted (∅ : MemoryStorage) pruneFirst first (Hash.new [255]) fun held found => ?_
      rw [lists.proven, List.lookup_cons, beq_self_eq_true] at found
      rw [Option.some.inj found]
    · rw [plain_shown]
      exact something.collisionless something first (.inl rfl)
    · refine ((follows.get first held).mp holds).1 ?_
      rw [after_prune_first]
      exact Finset.mem_singleton_self first

/-- A proof of a value that is held. -/
theorem first_attested :
    ∃ held, Hash.new held = Hash.new [255] ∧
      ((Runs.run perform (fresh (∅ : MemoryStorage)) [.insert first [255]]).get first = .ok (some held) ∨
        Lingers (fresh (∅ : MemoryStorage)) [.insert first [255]] first held) := by
  obtain ⟨follows, top⟩ := run_follows (∅ : MemoryStorage) [.insert first [255]]
  have lists : Lists (Standing.after (contentsOf (∅ : MemoryStorage)) [.insert first [255]]).contents
      [(first, [255])] := lists_first
  have found : provenValue (Standing.after (contentsOf (∅ : MemoryStorage)) [.insert first [255]]).contents first =
      some [255] := by
    rw [lists.proven, List.lookup_cons, beq_self_eq_true]
  have something : Holds (Standing.after (contentsOf (∅ : MemoryStorage)) [.insert first [255]]).contents
      [(first, [255])] := holds_lists lists (by simp) (by decide) (by decide +kernel) (by decide)
  have accepted := shown_accepted (∅ : MemoryStorage) [.insert first [255]] first (Hash.new [255]) fun held same =>
    congrArg Hash.new (Option.some.inj (same.symm.trans found))
  have reached : Reached (Runs.run perform (fresh (∅ : MemoryStorage)) [.insert first [255]]) :=
    ⟨∅, _, [.insert first [255]], new_ok _, rfl⟩
  refine (attested (∅ : MemoryStorage) (new_ok _) [.insert first [255]] reached follows.get_root.1 accepted ?_).1 ?_
  · rw [plain_shown]
    exact something.collisionless something first (.inl rfl)
  · exact (top.accepted first).typed.mpr (congrArg Option.isSome found)

end Runs
end Klomang.Crypto
