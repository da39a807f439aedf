import Klomang.Crypto.VerkleProofs
import Klomang.State.VTrieBinding

/-! Runs of the tree with opening proofs: it follows the contents that its operations leave standing.
Without pruning these depend on the last value of every key alone, and the state tree commits to the
same. -/
namespace Klomang.Crypto

open Klomang.VerkleTree (keySize keyForPath key_for_path_injective key_off_path serializeNode storedNode storageRoot
  node_commitment_congr)

variable {S T : Type} [Storage S] [Storage T]

namespace VerkleTree

/-- What can be asked of a tree. -/
inductive Operation where
  | insert (key : Bytes32) (value : List UInt8)
  | pruneKey (key : Bytes32)
  | getRoot
  | generateProof (key : Bytes32)
  | calculateVerkleRoot (order : Enumeration OutPoint) (utxoSet : UtxoSet)

variable [Blake3] [Bandersnatch]

/-- The tree after an operation. A panic leaves it with the caches that it had filled. -/
def perform (tree : VerkleTree S) : Operation → VerkleTree S
  | .insert key value => tree.insert key value
  | .pruneKey key => (tree.pruneKey key).2
  | .getRoot => tree.getRoot.2
  | .generateProof key => (tree.generateProof key).2
  | .calculateVerkleRoot order utxoSet => (tree.calculateVerkleRoot order utxoSet).2

end VerkleTree

open Klomang.Crypto.VerkleTree (Operation perform entries utxoKey)

section Following
variable [Blake3] [Bandersnatch]

/-- What an operation leaves standing. -/
def Standing.step (standing : Standing) : Operation → Standing
  | .insert key value => standing.insert key value
  | .pruneKey key => standing.prune key
  | .getRoot => standing
  | .generateProof _ => standing
  | .calculateVerkleRoot order utxoSet =>
    (entries order utxoSet).foldl (fun standing entry =>
      standing.insert (utxoKey entry.1 entry.2) (Bytes.leBytes 8 entry.2.value.toNat)) ⟨fun _ => none, ∅⟩

/-- What a run from a new tree leaves standing. -/
def Standing.after (contents : Contents) (operations : List Operation) : Standing :=
  Runs.run Standing.step (.start contents) operations

omit [Bandersnatch] in
theorem Standing.after_snoc (contents : Contents) (operations : List Operation) (operation : Operation) :
    Standing.after contents (operations ++ [operation]) = (Standing.after contents operations).step operation :=
  Runs.run_snoc operation

variable {standing : Standing}

omit [Blake3] [Bandersnatch] in
theorem Standing.Rooted.insert (standing : Standing) (key : Bytes32) (value : List UInt8) :
    (standing.insert key value).Rooted := by
  refine .inl ?_
  have found := get_written (standing.dropped key) key value (keyForPath [])
  have root : ∃ path ∈ key.bytes.inits, keyForPath [] = keyForPath path :=
    ⟨[], (List.mem_inits _ _).mpr List.nil_prefix, rfl⟩
  rw [storedNode]
  refine (congrArg Option.isSome found).trans ?_
  rw [if_pos root]
  split
  · rfl
  · exact Option.isSome_or.trans (Bool.or_true _)

omit [Bandersnatch] in
theorem Standing.Rooted.step (rooted : standing.Rooted) (operation : Operation) : (standing.step operation).Rooted := by
  cases operation with
  | insert key value => exact Rooted.insert standing key value
  | pruneKey key =>
    rw [Standing.step, Standing.prune]
    split
    · exact rooted
    · exact rooted
  | getRoot => exact rooted
  | generateProof key => exact rooted
  | calculateVerkleRoot order utxoSet =>
    rw [Standing.step]
    cases entries order utxoSet using List.reverseRecOn with
    | nil => exact .inr fun _ => rfl
    | append_singleton before last =>
      rw [List.foldl_append]
      exact Rooted.insert _ _ _

theorem VerkleTree.Follows.perform {tree : VerkleTree S} (follows : tree.Follows standing) (rooted : standing.Rooted)
    (operation : Operation) : (tree.perform operation).Follows (standing.step operation) := by
  cases operation with
  | insert key value => exact follows.insert key value
  | pruneKey key => exact (follows.prune_key key).2
  | getRoot => exact follows.get_root.2
  | generateProof key => exact (follows.generate_proof rooted key).1
  | calculateVerkleRoot order utxoSet => exact (follows.cleared.insert_all _ _ _).get_root.2

/-- Every tree that is reached follows what its operations leave standing. -/
theorem VerkleTree.run_follows (storage : S) (operations : List Operation) :
    (Runs.run perform (fresh storage) operations).Follows (.after (contentsOf storage) operations) ∧
      (Standing.after (contentsOf storage) operations).Rooted := by
  induction operations using List.reverseRecOn with
  | nil =>
    refine ⟨fresh_follows storage, .inl ?_⟩
    have found := get_ensured (contentsOf storage) [] (keyForPath [])
    rw [if_pos rfl] at found
    exact (congrArg Option.isSome found).trans (Option.isSome_or.trans (Bool.or_true _))
  | append_singleton operations operation ih =>
    rw [Standing.after_snoc, Runs.run_snoc]
    exact ⟨ih.1.perform ih.2 operation, ih.2.step operation⟩

end Following

section Filling
variable {before contents other : Contents} {map : Bytes32 → Option (List UInt8)}

/-- Contents into which a map has been written. -/
structure Filled (before : Contents) (map : Bytes32 → Option (List UInt8)) (contents : Contents) : Prop where
  leaf : ∀ key value, map key = some value → contents (keyForPath key.bytes) = some (serializeNode (some value))
  above : ∀ key, (map key).isSome = true → ∀ path, path <+: key.bytes →
    (∀ leaf, (map leaf).isSome = true → path ≠ leaf.bytes) →
    contents (keyForPath path) = (before (keyForPath path)).or (some (serializeNode none))
  off : ∀ raw, (∀ key, (map key).isSome = true → ∀ path, path <+: key.bytes → raw ≠ keyForPath path) →
    contents raw = before raw

/-- Only one contents is filled so: the order of the writes and what was overwritten are forgotten. -/
theorem Filled.unique (filled : Filled before map contents) (also : Filled before map other) : contents = other := by
  funext raw
  by_cases on : ∃ key, (map key).isSome = true ∧ ∃ path, path <+: key.bytes ∧ raw = keyForPath path
  · obtain ⟨key, mapped, path, prefixed, rfl⟩ := on
    by_cases leaf : ∃ leaf, (map leaf).isSome = true ∧ path = leaf.bytes
    · obtain ⟨leaf, held, rfl⟩ := leaf
      obtain ⟨value, found⟩ := Option.isSome_iff_exists.mp held
      rw [filled.leaf leaf value found, also.leaf leaf value found]
    · have apart : ∀ leaf, (map leaf).isSome = true → path ≠ leaf.bytes :=
        fun other held same => leaf ⟨other, held, same⟩
      rw [filled.above key mapped path prefixed apart, also.above key mapped path prefixed apart]
  · have apart : ∀ key, (map key).isSome = true → ∀ path, path <+: key.bytes → raw ≠ keyForPath path :=
      fun key mapped path prefixed same => on ⟨key, mapped, path, prefixed, same⟩
    rw [filled.off raw apart, also.off raw apart]

theorem filled_start (before : Contents) : Filled before (fun _ => none) before where
  leaf _ _ absurdity := nomatch absurdity
  above _ absurdity := nomatch absurdity
  off _ _ := rfl

/-- A write updates the map. -/
theorem Filled.written (filled : Filled before map contents) (key : Bytes32) (value : List UInt8) :
    Filled before (Function.update map key (some value)) (written contents key value) := by
  have mapped : ∀ other, (Function.update map key (some value) other).isSome = true ↔
      other = key ∨ (map other).isSome = true := by
    intro other
    rw [Function.update_apply]
    split
    · rename_i same
      simp [same]
    · rename_i apart
      simp [apart]
  have found : ∀ raw, Crypto.written contents key value raw = _ := fun raw => get_written contents key value raw
  constructor
  · intro other held present
    rw [Function.update_apply] at present
    rw [found]
    split at present
    · rename_i same
      cases present
      rw [if_pos (congrArg (fun key : Bytes32 => keyForPath key.bytes) same)]
    · rename_i apart
      have off := key_off_path apart
      rw [if_neg (fun same => apart (Bytes32.ext (key_for_path_injective same))), if_neg]
      · exact filled.leaf other held present
      · rintro ⟨path, member, same⟩
        rw [← key_for_path_injective same] at member
        exact off ((List.mem_inits _ _).mp member)
  · intro other held path prefixed apart
    have unwritten : keyForPath path ≠ keyForPath key.bytes :=
      fun same => apart key ((mapped key).mpr (.inl rfl)) (key_for_path_injective same)
    have older : ∀ leaf, (map leaf).isSome = true → path ≠ leaf.bytes :=
      fun leaf there => apart leaf ((mapped leaf).mpr (.inr there))
    rw [found, if_neg unwritten]
    by_cases before' : ∃ owner, (map owner).isSome = true ∧ path <+: owner.bytes
    · obtain ⟨owner, there, on⟩ := before'
      have already := filled.above owner there path on older
      split
      · refine (congrArg (fun node => Option.or node _) already).trans ?_
        rw [Option.or_assoc, Option.or_self]
      · exact already
    · have same : other = key := ((mapped other).mp held).resolve_right fun there => before' ⟨other, there, prefixed⟩
      subst same
      have untouched : contents (keyForPath path) = before (keyForPath path) := by
        refine filled.off _ fun owner there node on same => ?_
        rw [← key_for_path_injective same] at on
        exact before' ⟨owner, there, on⟩
      rw [if_pos ⟨path, (List.mem_inits _ _).mpr prefixed, rfl⟩]
      exact congrArg (fun node => Option.or node _) untouched
  · intro raw apart
    have older : ∀ owner, (map owner).isSome = true → ∀ path, path <+: owner.bytes → raw ≠ keyForPath path :=
      fun owner there => apart owner ((mapped owner).mpr (.inr there))
    have mine := apart key ((mapped key).mpr (.inl rfl))
    rw [found, if_neg (mine _ List.prefix_rfl), if_neg]
    · exact filled.off raw older
    · rintro ⟨path, member, same⟩
      exact mine path ((List.mem_inits _ _).mp member) same

end Filling

section Agreement

/-- What both trees can be asked for. -/
inductive Call where
  | insert (key : Bytes32) (value : List UInt8)
  | getRoot
  | generateProof (key : Bytes32)

/-- A call on the tree with opening proofs. -/
def Call.crypto : Call → Operation
  | .insert key value => .insert key value
  | .getRoot => .getRoot
  | .generateProof key => .generateProof key

/-- A call on the state tree. -/
def Call.state : Call → Klomang.VerkleTree.Operation
  | .insert key value => .insert key value
  | .getRoot => .getRoot
  | .generateProof key => .generateProof key

/-- The key/value map after a call. -/
def Call.record (map : Bytes32 → Option (List UInt8)) : Call → Bytes32 → Option (List UInt8)
  | .insert key value => Function.update map key (some value)
  | .getRoot => map
  | .generateProof _ => map

/-- The key/value map that a sequence of calls ends in. -/
def finalMap (calls : List Call) : Bytes32 → Option (List UInt8) := Runs.run Call.record (fun _ => none) calls

variable [Blake3] [Bandersnatch]

theorem storage_root_contents (storage : S) : storageRoot (contentsOf storage) = storageRoot storage :=
  congrArg Klomang.VerkleTree.commitmentRootHash (node_commitment_congr _ [] fun _ _ => rfl)

omit [Bandersnatch] in
/-- The tree with opening proofs fills its storage. -/
theorem standing_filled (contents : Contents) (calls : List Call) :
    Filled (ensured contents []) (finalMap calls) (Standing.after contents (calls.map Call.crypto)).contents ∧
      (Standing.after contents (calls.map Call.crypto)).pruned = ∅ := by
  induction calls using List.reverseRecOn with
  | nil => exact ⟨filled_start _, rfl⟩
  | append_singleton calls call ih =>
    rw [finalMap, List.map_append, List.map_singleton, Standing.after_snoc, Runs.run_snoc]
    cases call with
    | insert key value =>
      obtain ⟨filled, unpruned⟩ := ih
      refine ⟨?_, ?_⟩
      · have grown := filled.written key value
        rw [← Standing.undropped unpruned key] at grown
        exact grown
      · rw [Call.crypto, Standing.step, Standing.insert, unpruned]
        rfl
    | getRoot => exact ih
    | generateProof key => exact ih

/-- The state tree ensures nodes alike. -/
theorem state_ensured (paths : List (List UInt8)) (tree : Klomang.VerkleTree T) :
    (paths.foldl Klomang.VerkleTree.ensureNode tree).storage = paths.foldl ensured tree.storage := by
  induction paths generalizing tree with
  | nil => rfl
  | cons path rest ih =>
    rw [List.foldl_cons, List.foldl_cons, ih, Klomang.VerkleTree.ensureNode, ensured]
    split <;> rfl

/-- So does the state tree. -/
theorem state_filled (storage : T) (calls : List Call) :
    Filled (ensured (contentsOf storage) []) (finalMap calls)
      (contentsOf (Runs.run Klomang.VerkleTree.perform (.fresh storage) (calls.map Call.state)).storage) := by
  induction calls using List.reverseRecOn with
  | nil =>
    have started : contentsOf (Klomang.VerkleTree.fresh storage).storage = ensured (contentsOf storage) [] := by
      funext raw
      have fresh : (Klomang.VerkleTree.fresh storage).storage = ensured storage [] := state_ensured [[]] _
      rw [fresh]
      have left := get_ensured storage [] raw
      have right := get_ensured (contentsOf storage) [] raw
      exact left.trans right.symm
    rw [List.map_nil, Runs.run_nil, started]
    exact filled_start _
  | append_singleton calls call ih =>
    have coherent := Klomang.VerkleTree.run_coherent storage (calls.map Call.state)
    rw [finalMap, List.map_append, List.map_singleton, Runs.run_snoc, Runs.run_snoc]
    cases call with
    | insert key value =>
      have grown := ih.written key value
      rw [← contents_of_written] at grown
      rw [Call.state, Klomang.VerkleTree.perform, Klomang.VerkleTree.insert_storage, state_ensured]
      exact grown
    | getRoot =>
      rw [Call.state, Klomang.VerkleTree.perform, Klomang.VerkleTree.get_root_storage]
      exact ih
    | generateProof key =>
      rw [Call.state, Klomang.VerkleTree.perform, ← (coherent.generate_proof key).2.2.storage]
      exact ih

/-- Both trees have one root after calls that end in one map, whatever the order of the insertions, what
was overwritten on the way and what was asked in between. -/
theorem roots_agree (storage : T) (other : S) (calls others : List Call)
    (same : contentsOf storage = contentsOf other) (final : finalMap calls = finalMap others) :
    ∃ first, Klomang.VerkleTree.new storage = .ok first ∧ ∃ second, VerkleTree.new other = .ok second ∧
      ∃ root, (Runs.run Klomang.VerkleTree.perform first (calls.map Call.state)).getRoot.1 = .ok root ∧
        (Runs.run perform second (others.map Call.crypto)).getRoot.1 = .ok root := by
  have coherent := Klomang.VerkleTree.run_coherent storage (calls.map Call.state)
  have follows := (VerkleTree.run_follows other (others.map Call.crypto)).1
  have filled := state_filled storage calls
  rw [same, final] at filled
  have contents := filled.unique (standing_filled (contentsOf other) others).1
  refine ⟨_, Klomang.VerkleTree.new_ok storage, _, VerkleTree.new_ok other, _, coherent.get_root.1, ?_⟩
  rw [follows.get_root.1, ← contents, storage_root_contents]

end Agreement

section Overwriting
open scoped Counting

/-- A value that is overwritten after the root was asked for is as if it had never been there. -/
theorem overwritten_roots_agree :
    ∃ first, Klomang.VerkleTree.new (∅ : MemoryStorage) = .ok first ∧
      ∃ second, VerkleTree.new (∅ : MemoryStorage) = .ok second ∧
        ∃ root, (Runs.run Klomang.VerkleTree.perform first
            ([.insert (.replicate 7) [1], .getRoot, .insert (.replicate 7) [2]].map Call.state)).getRoot.1 = .ok root ∧
          (Runs.run perform second
            ([.generateProof (.replicate 7), .insert (.replicate 7) [2]].map Call.crypto)).getRoot.1 = .ok root := by
  refine roots_agree ∅ ∅ _ _ rfl ?_
  change Function.update (Function.update _ _ _) _ _ = Function.update _ _ _
  exact Function.update_idem _ _ _

end Overwriting
end Klomang.Crypto
