import Klomang.State.VTrieBinding
import Klomang.State.VTriePruning

/-! The state tree as a map with tombstones. What a key holds follows from the last operation on
it that succeeded, but a tombstone is for ever: nothing takes a key out of the pruned keys. -/
namespace Klomang.VerkleTree

/-- What a successful operation does to its key. -/
inductive Entry where
  | inserted (value : List UInt8)
  | pruned
  deriving DecidableEq

/-- What a map with tombstones answers for a key with such a history. -/
def answer (initial : Option (List UInt8)) (history : List Entry) : Except CoreError (Option (List UInt8)) :=
  match history.getLast? with
  | none => .ok initial
  | some (.inserted value) => .ok (some value)
  | some .pruned => .error (.prunedData "Key has been pruned")

/-- The value that the leaf of a key with such a history has. -/
def lastValue (initial : Option (List UInt8)) (history : List Entry) : Option (List UInt8) :=
  match history.getLast? with
  | none => initial
  | some (.inserted value) => some value
  | some .pruned => none

/-- A key that was pruned at some time has been inserted last. -/
def Reinserted (history : List Entry) : Prop :=
  .pruned ∈ history ∧ ∃ value, history.getLast? = some (.inserted value)

/-- An inserted value has a length that its four length bytes hold. -/
def Operation.Short : Operation → Prop
  | .insert _ value => value.length < 2 ^ 32
  | .pruneKey _ | .getRoot | .generateProof _ | .clone => True

variable [Blake3] [Bandersnatch] {S : Type} [Storage S] {tree other : VerkleTree S} {key : Bytes32}
  {initial : Option (List UInt8)} {history : List Entry} {operations : List Operation}

/-- What an operation adds to the history of a key. A failed pruning adds nothing. -/
def entries (key : Bytes32) (tree : VerkleTree S) : Operation → List Entry
  | .insert written value => if written = key then [.inserted value] else []
  | .pruneKey pruned =>
    match (tree.pruneKey pruned).1 with
    | .ok () => if pruned = key then [.pruned] else []
    | .error _ => []
  | .getRoot | .generateProof _ | .clone => []

section Steps

theorem insert_stored (tree : VerkleTree S) (key : Bytes32) (value : List UInt8) :
    storedNode (tree.insert key value).storage key.bytes = true := by
  rw [storedNode, insert_storage, Storage.get_put, if_pos rfl]
  rfl

/-- A key that has just been inserted can be pruned. -/
theorem prune_inserted (tree : VerkleTree S) (key : Bytes32) (value : List UInt8) :
    ((tree.insert key value).pruneKey key).1 = .ok () := by
  rcases prune_key_spec (tree.insert key value) key with ⟨absent, _⟩ | ⟨succeeded, _⟩
  · simp only [insert_stored] at absent
    cases absent
  · exact succeeded

/-- A tree holds of a key what its history tells. -/
structure Tracks (initial : Option (List UInt8)) (tree : VerkleTree S) (key : Bytes32) (history : List Entry) :
    Prop where
  marked : key.bytes ∈ tree.prunedKeys ↔ .pruned ∈ history
  leaf : leaves tree.storage key = lastValue initial history

theorem Tracks.same_contents (tracks : Tracks initial tree key history) (same : SameContents tree other) :
    Tracks initial other key history :=
  ⟨same.prunedKeys ▸ tracks.marked, same.storage ▸ tracks.leaf⟩

theorem Tracks.insert (tracks : Tracks initial tree key history) (written : Bytes32) {value : List UInt8}
    (short : value.length < 2 ^ 32) :
    Tracks initial (tree.insert written value) key (history ++ entries key tree (.insert written value)) := by
  rw [entries]
  by_cases same : written = key
  · subst same
    rw [if_pos rfl]
    refine ⟨?_, ?_⟩
    · rw [insert_pruned, tracks.marked]
      simp
    · rw [leaves_insert _ _ short, Function.update_self, lastValue, List.getLast?_concat]
  · rw [if_neg same, List.append_nil]
    refine ⟨?_, ?_⟩
    · rw [insert_pruned, tracks.marked]
    · rw [leaves_insert _ _ short, Function.update_of_ne (Ne.symm same), tracks.leaf]

theorem Tracks.prune_key (tracks : Tracks initial tree key history) (pruned : Bytes32) :
    Tracks initial (tree.pruneKey pruned).2 key (history ++ entries key tree (.pruneKey pruned)) := by
  rw [entries]
  rcases prune_key_spec tree pruned with ⟨_, failed, same⟩ | ⟨succeeded, stop, prunes⟩
  · rw [failed]
    dsimp only
    rw [List.append_nil]
    exact tracks.same_contents same
  · rw [succeeded]
    dsimp only
    by_cases same : pruned = key
    · subst same
      rw [if_pos rfl]
      have here : pruned.bytes <+: pruned.bytes ∧ stop ≤ pruned.bytes.length :=
        ⟨List.prefix_rfl, length_key pruned ▸ prunes.within⟩
      refine ⟨?_, ?_⟩
      · rw [prunes.marked]
        exact ⟨fun _ => by simp, fun _ => .inr here⟩
      · rw [leaves, storedValue, prunes.storage, if_pos here, lastValue, List.getLast?_concat]
        rfl
    · rw [if_neg same, List.append_nil]
      have apart : ¬ (key.bytes <+: pruned.bytes ∧ stop ≤ key.bytes.length) :=
        fun on => key_off_path (Ne.symm same) on.1
      refine ⟨?_, ?_⟩
      · rw [prunes.marked, or_iff_left apart, tracks.marked]
      · rw [leaves, storedValue, prunes.storage, if_neg apart]
        exact tracks.leaf

theorem Tracks.perform (tracks : Tracks initial tree key history) (coherent : tree.Coherent) {operation : Operation}
    (short : operation.Short) :
    Tracks initial (tree.perform operation) key (history ++ entries key tree operation) := by
  cases operation with
  | insert written value => exact tracks.insert written short
  | pruneKey pruned => exact tracks.prune_key pruned
  | getRoot =>
    rw [entries, List.append_nil]
    exact tracks.same_contents (same_contents_get_root tree)
  | generateProof asked =>
    rw [entries, List.append_nil]
    exact tracks.same_contents (coherent.generate_proof asked).2.2
  | clone =>
    rw [entries, List.append_nil, VerkleTree.perform, clone_ok]
    exact tracks.same_contents ⟨coherent.cloned_storage.symm, rfl⟩

end Steps

section Runs

/-- After every run, a tree holds of a key what its history tells. -/
theorem run_tracks (storage : S) (key : Bytes32) (short : ∀ operation ∈ operations, operation.Short) :
    Tracks (leaves storage key) (Runs.run perform (fresh storage) operations) key
      (Runs.gather perform (entries key) (fresh storage) operations) := by
  induction operations using List.reverseRecOn with
  | nil =>
    refine ⟨?_, congrFun (leaves_fresh storage) key⟩
    rw [Runs.run_nil, fresh_pruned, Runs.gather]
    simp
  | append_singleton operations operation ih =>
    rw [Runs.run_snoc, Runs.gather_snoc]
    have earlier := ih fun other member => short other (List.mem_append_left _ member)
    exact earlier.perform (run_coherent storage operations) (short operation (by simp))

theorem Tracks.get (tracks : Tracks initial tree key history) :
    tree.get key = if .pruned ∈ history then .error (.prunedData "Key has been pruned")
      else .ok (lastValue initial history) := by
  rw [VerkleTree.get, show tree.getNodeValue key.bytes = lastValue initial history from tracks.leaf]
  exact if_congr tracks.marked rfl rfl

/-- The answer for a key is right when no tombstone stands where a value was inserted last. -/
theorem Tracks.get_iff (tracks : Tracks initial tree key history) :
    tree.get key = answer initial history ↔ ¬ Reinserted history := by
  rw [tracks.get, answer, lastValue, Reinserted]
  cases last : history.getLast? with
  | none =>
    have empty : history = [] := List.getLast?_eq_none_iff.mp last
    simp [empty]
  | some entry =>
    cases entry with
    | inserted value => by_cases tombstone : Entry.pruned ∈ history <;> simp [tombstone]
    | pruned =>
      have tombstone : Entry.pruned ∈ history := List.mem_of_getLast? last
      simp [tombstone]

/-- A new tree answers for a key like a map with tombstones exactly when the key's last successful
operation is no insertion that comes after a pruning of it. A key without any operation has what
the storage held. -/
theorem get_tombstone_iff (storage : S) (short : ∀ operation ∈ operations, operation.Short) :
    ∃ start, new storage = .ok start ∧ ∀ key,
      ((Runs.run perform start operations).get key =
          answer (leaves storage key) (Runs.gather perform (entries key) start operations) ↔
        ¬ Reinserted (Runs.gather perform (entries key) start operations)) :=
  ⟨fresh storage, new_ok storage, fun key => (run_tracks storage key short).get_iff⟩

end Runs
end Klomang.VerkleTree

namespace Klomang.Counting

open VerkleTree

/-- A key that has only been inserted has its value. -/
theorem inserted_key_answered :
    ∃ start, new (∅ : MemoryStorage) = .ok start ∧
      (Runs.run perform start [.insert (.replicate 7) [1]]).get (.replicate 7) = .ok (some [1]) := by
  have short : ∀ operation ∈ [Operation.insert (.replicate 7) [1]], operation.Short := by simp [Operation.Short]
  obtain ⟨start, made, exact⟩ := get_tombstone_iff (∅ : MemoryStorage) short
  have history : Runs.gather perform (entries (.replicate 7)) start [.insert (.replicate 7) [1]] = [.inserted [1]] := by
    simp [Runs.gather, entries]
  have answered := (exact (.replicate 7)).mpr (by simp [history, Reinserted])
  simp only [history] at answered
  exact ⟨start, made, answered⟩

/-- A key that is inserted again after its pruning still reads as pruned. -/
theorem reinserted_key_pruned :
    ∃ start, new (∅ : MemoryStorage) = .ok start ∧
      answer none (Runs.gather perform (entries (.replicate 7)) start
        [.insert (.replicate 7) [1], .pruneKey (.replicate 7), .insert (.replicate 7) [2]]) = .ok (some [2]) ∧
      (Runs.run perform start
        [.insert (.replicate 7) [1], .pruneKey (.replicate 7), .insert (.replicate 7) [2]]).get (.replicate 7) =
          .error (.prunedData "Key has been pruned") := by
  have short : ∀ operation ∈ [Operation.insert (.replicate 7) [1], .pruneKey (.replicate 7),
      .insert (.replicate 7) [2]], operation.Short := by simp [Operation.Short]
  have tracks := run_tracks (∅ : MemoryStorage) (.replicate 7) short
  have history : Runs.gather perform (entries (.replicate 7)) (fresh (∅ : MemoryStorage))
      [.insert (.replicate 7) [1], .pruneKey (.replicate 7), .insert (.replicate 7) [2]] =
        [.inserted [1], .pruned, .inserted [2]] := by
    simp [Runs.gather, entries, perform, prune_inserted]
  refine ⟨fresh ∅, new_ok _, ?_, ?_⟩
  · rw [history]
    rfl
  · rw [tracks.get, history]
    rfl

end Klomang.Counting
