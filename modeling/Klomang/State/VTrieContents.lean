import Klomang.State.VTrieRoots
import Mathlib.Logic.Function.Basic

/-! The state tree as a map from 32-byte keys to values, while nothing is pruned, and the
keys that are left when something is. -/
namespace Klomang.VerkleTree

variable {S : Type} [Storage S]

section Encoding

/-- A stored value of a length that fits its four length bytes is read back. -/
theorem deserialize_serialize_node {value : List UInt8} (short : value.length < 2 ^ 32) :
    deserializeNode (serializeNode (some value)) = some (some value) := by
  have head : (Bytes.beBytes 4 value.length ++ value).take 4 = Bytes.beBytes 4 value.length :=
    List.take_left' (by simp)
  have tail : (Bytes.beBytes 4 value.length ++ value).drop 4 = value := List.drop_left' (by simp)
  have size : Bytes.ofBE ((Bytes.beBytes 4 value.length ++ value).take 4) = value.length := by
    have fits : value.length < 256 ^ 4 := short
    rw [head, Bytes.ofBE_beBytes, Nat.mod_eq_of_lt fits]
  rw [serializeNode, deserializeNode]
  simp only [size, tail, List.length_append, Bytes.length_beBytes]
  simp

/-- Paths of the same length are prefixes of each other only when they are equal. -/
theorem key_off_path {key other : Bytes32} (different : other ≠ key) : ¬ other.bytes <+: key.bytes := by
  intro shared
  exact different (Bytes32.ext (shared.eq_of_length (by simp)))

theorem key_on_path_iff {key other : Bytes32} : other.bytes <+: key.bytes ↔ other = key := by
  constructor
  · intro shared
    by_contra different
    exact key_off_path different shared
  · rintro rfl
    exact List.prefix_rfl

end Encoding

/-- The values the storage holds at the leaves. -/
def leaves (storage : S) (key : Bytes32) : Option (List UInt8) := storedValue storage key.bytes

variable [Blake3] [Bandersnatch]

theorem get_of_unpruned {tree : VerkleTree S} (unpruned : tree.prunedKeys = ∅) (key : Bytes32) :
    tree.get key = .ok (leaves tree.storage key) := by
  rw [get, unpruned, if_neg (Finset.notMem_empty _)]
  rfl

/-- Writing a leaf changes that leaf only. -/
theorem leaves_insert (tree : VerkleTree S) (key : Bytes32) {value : List UInt8}
    (short : value.length < 2 ^ 32) :
    leaves (tree.insert key value).storage = Function.update (leaves tree.storage) key (some value) := by
  funext other
  by_cases same : other = key
  · subst same
    rw [Function.update_self, leaves, storedValue, insert_storage, Storage.get_put, if_pos rfl,
      Option.bind_some, deserialize_serialize_node short]
    rfl
  · rw [Function.update_of_ne same, leaves, leaves, storedValue, storedValue,
      insert_agree tree key value other.bytes (key_off_path same)]

/-- The leaves after a list of writes. -/
def writeLeaves (updates : List (Bytes32 × List UInt8)) (before : Bytes32 → Option (List UInt8)) :
    Bytes32 → Option (List UInt8) :=
  updates.foldl (fun leaves update => Function.update leaves update.1 (some update.2)) before

theorem leaves_insert_all {updates : List (Bytes32 × List UInt8)}
    (short : ∀ update ∈ updates, update.2.length < 2 ^ 32) (tree : VerkleTree S) :
    leaves (updates.foldl (fun tree update => tree.insert update.1 update.2) tree).storage =
      writeLeaves updates (leaves tree.storage) := by
  induction updates generalizing tree with
  | nil => rfl
  | cons update rest ih =>
    rw [List.foldl_cons, ih fun other member => short other (List.mem_cons_of_mem _ member),
      leaves_insert tree update.1 (short update List.mem_cons_self)]
    rfl

theorem insert_all_pruned (updates : List (Bytes32 × List UInt8)) (tree : VerkleTree S) :
    (updates.foldl (fun tree update => tree.insert update.1 update.2) tree).prunedKeys = tree.prunedKeys := by
  induction updates generalizing tree with
  | nil => rfl
  | cons update rest ih => rw [List.foldl_cons, ih, insert_pruned]

theorem leaves_fresh (storage : S) : leaves (fresh storage).storage = leaves storage := by
  funext key
  have inner : ¬ key.bytes <+: [] := by
    intro root
    have long := root.length_le
    simp at long
  rw [leaves, leaves, storedValue, storedValue, fresh]
  rw [agree_off_ensure (List.prefix_refl []) _ key.bytes inner]

/-- When a state transition goes through. -/
theorem apply_state_transition_ok_iff (tree : VerkleTree S) (updates : List (Bytes32 × List UInt8))
    (supply : Nat) :
    (tree.applyStateTransition updates supply).1 = .ok () ↔
      burnUpdate updates = none ∧ supply ≤ EconomicConstants.maxGlobalSupplyNanoSlug := by
  unfold applyStateTransition
  dsimp only
  split
  · rename_i key burned
    simp [burned]
  · rename_i safe
    rw [safe]
    split
    · rename_i above
      simp only [reduceCtorEq, true_and, false_iff]
      omega
    · rename_i below
      simp only [true_and, true_iff]
      omega

/-- The leaves a successful state transition leaves behind: the updates in order, then the
supply leaf. -/
theorem leaves_apply_state_transition {tree : VerkleTree S} {updates : List (Bytes32 × List UInt8)}
    {supply : Nat} (short : ∀ update ∈ updates, update.2.length < 2 ^ 32)
    (applied : (tree.applyStateTransition updates supply).1 = .ok ()) :
    leaves (tree.applyStateTransition updates supply).2.storage =
      Function.update (writeLeaves updates (leaves tree.storage)) totalSupplyKey
        (some (Bytes.leBytes 16 supply)) := by
  obtain ⟨safe, within⟩ := (apply_state_transition_ok_iff tree updates supply).mp applied
  unfold applyStateTransition
  simp only [safe, if_neg (Nat.not_lt.mpr within)]
  rw [leaves_insert _ _ (by simp), leaves_insert_all short]

theorem apply_state_transition_pruned (tree : VerkleTree S) (updates : List (Bytes32 × List UInt8))
    (supply : Nat) : (tree.applyStateTransition updates supply).2.prunedKeys = tree.prunedKeys := by
  unfold applyStateTransition
  dsimp only
  split
  · rfl
  · split <;> rw [insert_pruned, insert_all_pruned]

section Pruning

/-- The clean-up removes nodes above the path only, and adds none. -/
theorem cleanup_agree (tree : VerkleTree S) (path : List UInt8) (depth : Nat) :
    AgreeOff path tree.storage (tree.recursiveCleanupEmptyNodes path depth).storage ∧
      ∀ node, Storage.get tree.storage node = none →
        Storage.get (tree.recursiveCleanupEmptyNodes path depth).storage node = none := by
  induction depth generalizing tree with
  | zero => exact ⟨.refl _ _, fun _ absent => absent⟩
  | succ depth ih =>
    rw [recursiveCleanupEmptyNodes]
    dsimp only
    split
    · obtain ⟨agree, gone⟩ := ih (invalidatePathCache
        { tree with
          storage := Storage.delete tree.storage (keyForPath (path.take depth))
          prunedKeys := Insert.insert (path.take depth) tree.prunedKeys } (path.take depth))
      refine ⟨(agree_off_delete (List.take_prefix depth path) _).trans agree, fun node absent => gone node ?_⟩
      rw [invalidatePathCache, Storage.get_delete, absent, ite_self]
    · exact ⟨.refl _ _, fun _ absent => absent⟩

/-- A key can be pruned exactly when its leaf is stored; then that leaf is gone and every other
leaf is still there. -/
theorem prune_key_cases (tree : VerkleTree S) (key : Bytes32) :
    (storedNode tree.storage key.bytes = false ∧ ∃ error, (tree.pruneKey key).1 = .error error) ∨
    (storedNode tree.storage key.bytes = true ∧ (tree.pruneKey key).1 = .ok () ∧
      ∀ other : Bytes32, storedNode (tree.pruneKey key).2.storage other.bytes =
        (decide (other ≠ key) && storedNode tree.storage other.bytes)) := by
  unfold pruneKey
  dsimp only
  split
  · rename_i absent
    exact .inl ⟨by simpa [storedNode] using absent, _, rfl⟩
  · rename_i present
    refine .inr ⟨by simpa [storedNode, Option.isSome_iff_ne_none] using present, rfl, fun other => ?_⟩
    obtain ⟨agree, gone⟩ := cleanup_agree (invalidatePathCache
      { tree with
        storage := Storage.delete tree.storage (keyForPath key.bytes)
        dirty := true
        prunedKeys := Insert.insert key.bytes tree.prunedKeys } key.bytes) key.bytes key.bytes.length
    by_cases same : other = key
    · subst same
      rw [storedNode, gone _ (by rw [invalidatePathCache, Storage.get_delete, if_pos rfl])]
      simp
    · have kept := (agree_off_delete (List.prefix_refl key.bytes) tree.storage).trans agree
      rw [storedNode, kept other.bytes (key_off_path same), storedNode]
      simp [same]

end Pruning
end Klomang.VerkleTree
