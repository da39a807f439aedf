import Klomang.State.VTrieAncestors

/-! Pruning erases a key. A tree into which some keys were inserted and of which some were pruned stores the nodes on the
way to the remaining keys and no others, as a tree does into which only these were inserted. -/
namespace Klomang.VerkleTree

variable [Blake3] [Bandersnatch] {S : Type} [Storage S] {storage : S} {tree after other : VerkleTree S} {node : List UInt8}
  {key : Bytes32} {value : List UInt8} {stop : Nat} {held : Bytes32 → Option (List UInt8)}

section Holding

/-- The tree stores the root and the nodes on the way to the keys that are held, with their values at the leaves, and no
stored node is marked as pruned. -/
structure Stores (tree : VerkleTree S) (held : Bytes32 → Option (List UInt8)) : Prop where
  nodes : ∀ node, storedNode tree.storage node = true ↔ node = [] ∨ ∃ key, (held key).isSome ∧ node <+: key.bytes
  inner : ∀ node, node.length ≠ keySize → storedNode tree.storage node = true →
    Storage.get tree.storage (keyForPath node) = some (serializeNode none)
  leaves : ∀ key value, held key = some value →
    Storage.get tree.storage (keyForPath key.bytes) = some (serializeNode (some value))
  unmarked : ∀ node, storedNode tree.storage node = true → node ∉ tree.prunedKeys

theorem stores_fresh (empty : ∀ key, Storage.get storage key = none) : (fresh storage).Stores fun _ => none where
  nodes node := by
    simp only [Option.isSome_none, Bool.false_eq_true, false_and, exists_false, or_false]
    exact ⟨fresh_only empty node, fun root => root ▸ ensure_node_stored _ _⟩
  inner node _ stored := by
    obtain rfl := fresh_only empty node stored
    rw [fresh, ensureNode, empty]
    exact Storage.get_put ..
  leaves _ _ found := nomatch found
  unmarked node _ := by
    rw [fresh_pruned]
    exact Finset.notMem_empty node

theorem get_ensure (tree : VerkleTree S) (path node : List UInt8) :
    Storage.get (tree.ensureNode path).storage (keyForPath node) =
      (Storage.get tree.storage (keyForPath node)).or (if node = path then some (serializeNode none) else none) := by
  unfold ensureNode
  split
  · rename_i absent
    rw [Storage.get_put]
    by_cases same : node = path
    · subst same
      simp [Option.isNone_iff_eq_none.mp absent]
    · simp [same, key_for_path_injective.eq_iff]
  · rename_i present
    by_cases same : node = path
    · subst same
      obtain ⟨encoded, found⟩ := Option.ne_none_iff_exists'.mp (by simpa using present)
      simp [found]
    · simp [same]

/-- The walk of an insertion fills in the nodes that were missing. -/
theorem get_ensure_all (paths : List (List UInt8)) (tree : VerkleTree S) (node : List UInt8) :
    Storage.get (paths.foldl ensureNode tree).storage (keyForPath node) =
      (Storage.get tree.storage (keyForPath node)).or (if node ∈ paths then some (serializeNode none) else none) := by
  induction paths generalizing tree with
  | nil => simp
  | cons path rest ih =>
    rw [List.foldl_cons, ih, get_ensure, Option.or_assoc]
    by_cases same : node = path
    · simp [same]
    · simp [same]

theorem get_insert (tree : VerkleTree S) (key : Bytes32) (value node : List UInt8) :
    Storage.get (tree.insert key value).storage (keyForPath node) =
      if node = key.bytes then some (serializeNode (some value))
      else (Storage.get tree.storage (keyForPath node)).or
        (if node <+: key.bytes then some (serializeNode none) else none) := by
  rw [insert_storage, Storage.get_put, get_ensure_all, if_congr key_for_path_injective.eq_iff rfl rfl]
  simp only [List.mem_inits]

theorem Stores.insert (stores : tree.Stores held) (unpruned : tree.prunedKeys = ∅) (key : Bytes32) (value : List UInt8) :
    (tree.insert key value).Stores (Function.update held key (some value)) where
  nodes node := by
    rw [stored_insert, stores.nodes, or_assoc]
    refine or_congr_right ⟨?_, ?_⟩
    · rintro (⟨other, holds, on⟩ | on)
      · refine ⟨other, ?_, on⟩
        by_cases same : other = key
        · simp [same]
        · rwa [Function.update_of_ne same]
      · exact ⟨key, by simp, on⟩
    · rintro ⟨other, holds, on⟩
      by_cases same : other = key
      · exact .inr (same ▸ on)
      · rw [Function.update_of_ne same] at holds
        exact .inl ⟨other, holds, on⟩
  inner node inner stored := by
    have apart : node ≠ key.bytes := fun same => inner (same ▸ length_key key)
    rw [get_insert, if_neg apart]
    rw [stored_insert] at stored
    by_cases before : storedNode tree.storage node = true
    · simp [stores.inner node inner before]
    · have none : Storage.get tree.storage (keyForPath node) = none := by simpa [storedNode] using before
      simp [none, stored.resolve_left before]
  leaves other held found := by
    rw [get_insert]
    by_cases same : other = key
    · subst same
      rw [Function.update_self] at found
      cases found
      exact if_pos rfl
    · rw [Function.update_of_ne same] at found
      have apart : other.bytes ≠ key.bytes := fun equal => same (Bytes32.ext equal)
      simp [apart, stores.leaves other held found]
  unmarked node _ := by
    rw [insert_pruned, unpruned]
    exact Finset.notMem_empty node

/-- Two trees that store the same keys agree at every node. -/
theorem Stores.agree (stores : tree.Stores held) (same : other.Stores held) (node : List UInt8) :
    Storage.get tree.storage (keyForPath node) = Storage.get other.storage (keyForPath node) := by
  have both := (stores.nodes node).trans (same.nodes node).symm
  by_cases stored : storedNode tree.storage node = true
  · by_cases leaf : node.length = keySize
    · rcases (stores.nodes node).mp stored with rfl | ⟨key, holds, on⟩
      · rw [key_size_eq] at leaf
        cases leaf
      · obtain rfl := on.eq_of_length (leaf.trans (length_key key).symm)
        obtain ⟨value, found⟩ := Option.isSome_iff_exists.mp holds
        rw [stores.leaves key value found, same.leaves key value found]
    · rw [stores.inner node leaf stored, same.inner node leaf (both.mp stored)]
  · have here : Storage.get tree.storage (keyForPath node) = none := by simpa [storedNode] using stored
    have there : Storage.get other.storage (keyForPath node) = none := by simpa [storedNode] using both.not.mp stored
    rw [here, there]

end Holding

section Erasing

omit [Blake3] [Bandersnatch] [Storage S] in
/-- A key that shares the beginning of another one leaves its path at some deeper node. -/
theorem leaves_path {other : Bytes32} {depth : Nat} (shared : key.bytes.take depth <+: other.bytes)
    (within : depth ≤ keySize) (different : other ≠ key) :
    ∃ above child, depth ≤ above ∧ above < keySize ∧ key.bytes.take above ++ [child] <+: other.bytes ∧
      ¬ key.bytes.take above ++ [child] <+: key.bytes := by
  induction levels : keySize - depth generalizing depth with
  | zero =>
    have whole : key.bytes.take depth = key.bytes := List.take_of_length_le (by rw [length_key]; omega)
    rw [whole] at shared
    exact absurd shared (key_off_path different.symm)
  | succ levels ih =>
    have length : (key.bytes.take depth).length = depth := by
      rw [List.length_take, length_key]
      omega
    obtain ⟨child, next⟩ := next_on_path shared (by omega)
    by_cases on : key.bytes.take depth ++ [child] <+: key.bytes
    · have deeper : key.bytes.take depth ++ [child] = key.bytes.take (depth + 1) := by
        refine (eq_take_iff (by rw [length_key]; omega)).mpr ⟨on, ?_⟩
        rw [List.length_append, length, List.length_singleton]
      obtain ⟨above, other, low, rest⟩ := ih (deeper ▸ next) (by omega) (by omega)
      exact ⟨above, other, by omega, rest⟩
    · exact ⟨depth, child, le_rfl, by omega, next, on⟩

/-- With no stored node marked, every stored child keeps its parent. -/
theorem Stores.keeps (stores : tree.Stores held) {child : UInt8} {depth : Nat}
    (off : ¬ key.bytes.take depth ++ [child] <+: key.bytes)
    (stored : storedNode tree.storage (key.bytes.take depth ++ [child]) = true) : tree.KeepsChild key.bytes depth :=
  ⟨child, off, stored, stores.unmarked _ stored⟩

/-- Pruning a key leaves the nodes of the other keys. -/
theorem Stores.prune (stores : tree.Stores held) (prunes : Prunes tree after key stop) :
    after.Stores (Function.update held key none) where
  nodes node := by
    have positive := prunes.positive
    rw [prunes.stored_iff]
    constructor
    · rintro ⟨stored, kept⟩
      rcases (stores.nodes node).mp stored with root | ⟨other, holds, on⟩
      · exact .inl root
      by_cases same : other = key
      · -- the clean-up has stopped below this node, at one that keeps another key
        subst same
        have above : node.length < stop := Nat.lt_of_not_le fun far => kept ⟨on, far⟩
        rcases prunes.stopped with first | ⟨child, off, sibling, _⟩
        · exact .inl (List.eq_nil_of_length_eq_zero (by omega))
        · rcases (stores.nodes _).mp sibling with root | ⟨further, holds, below⟩
          · exact absurd root (by simp)
          · have apart : further ≠ other := fun equal => off (equal ▸ below)
            have way : node <+: other.bytes.take (stop - 1) ++ [child] := by
              refine List.IsPrefix.trans ?_ (List.prefix_append _ _)
              rw [List.prefix_take_iff]
              exact ⟨on, by omega⟩
            exact .inr ⟨further, by rwa [Function.update_of_ne apart], way.trans below⟩
      · exact .inr ⟨other, by rwa [Function.update_of_ne same], on⟩
    · rintro (rfl | ⟨other, holds, on⟩)
      · exact ⟨(stores.nodes []).mpr (.inl rfl), fun gone => absurd gone.2 (Nat.not_le.mpr positive)⟩
      · have different : other ≠ key := by
          rintro rfl
          simp at holds
        rw [Function.update_of_ne different] at holds
        refine ⟨(stores.nodes node).mpr (.inr ⟨other, holds, on⟩), fun ⟨onKey, far⟩ => ?_⟩
        have shared : key.bytes.take node.length <+: other.bytes := (take_on_path onKey).symm ▸ on
        obtain ⟨above, child, low, within, below, off⟩ := leaves_path shared (length_key key ▸ onKey.length_le) different
        exact prunes.childless above (far.trans low) within
          (stores.keeps off ((stores.nodes _).mpr (.inr ⟨other, holds, below⟩)))
  inner node inner stored := by
    obtain ⟨before, kept⟩ := prunes.stored_iff.mp stored
    rw [prunes.storage, if_neg kept]
    exact stores.inner node inner before
  leaves other value found := by
    have different : other ≠ key := by
      rintro rfl
      simp at found
    rw [Function.update_of_ne different] at found
    rw [prunes.storage, if_neg fun gone => key_off_path different gone.1]
    exact stores.leaves other value found
  unmarked node stored := by
    obtain ⟨before, kept⟩ := prunes.stored_iff.mp stored
    rw [prunes.marked, or_iff_left kept]
    exact stores.unmarked node before

end Erasing

section Runs

/-- A tree after some insertions. -/
def insertAll (tree : VerkleTree S) (entries : List (Bytes32 × List UInt8)) : VerkleTree S :=
  entries.foldl (fun tree entry => tree.insert entry.1 entry.2) tree

/-- A tree after one call of `prune_key`. -/
def pruned (tree : VerkleTree S) (key : Bytes32) : VerkleTree S := (tree.pruneKey key).2

/-- The insertions of keys that are not in a list. -/
def remaining (entries : List (Bytes32 × List UInt8)) (keys : List Bytes32) : List (Bytes32 × List UInt8) :=
  entries.filter fun entry => entry.1 ∉ keys

variable {entries : List (Bytes32 × List UInt8)} {keys : List Bytes32}

theorem Stores.insert_all (stores : tree.Stores held) (unpruned : tree.prunedKeys = ∅)
    (entries : List (Bytes32 × List UInt8)) : (tree.insertAll entries).Stores (writeLeaves entries held) := by
  induction entries generalizing tree held with
  | nil => exact stores
  | cons entry rest ih =>
    have step := stores.insert unpruned entry.1 entry.2
    exact ih step (by rw [insert_pruned, unpruned])

theorem Stores.prune_all (stores : tree.Stores held)
    (succeed : Runs.Meets pruned tree (fun tree key => (tree.pruneKey key).1 = .ok ()) keys) :
    (Runs.run pruned tree keys).Stores fun key => if key ∈ keys then none else held key := by
  induction keys generalizing tree held with
  | nil => simpa using stores
  | cons key rest ih =>
    obtain ⟨succeeded, further⟩ := (Runs.meets_cons key rest).mp succeed
    rcases prune_key_spec tree key with ⟨_, refused, _⟩ | ⟨_, stop, prunes⟩
    · cases succeeded.symm.trans refused
    have left : (fun other => if other ∈ rest then none else Function.update held key none other) =
        fun other => if other ∈ key :: rest then none else held other := by
      funext other
      by_cases same : other = key
      · simp [same]
      · simp [same]
    exact left ▸ ih (stores.prune prunes) further

omit [Blake3] [Bandersnatch] in
theorem write_leaves_remaining (entries : List (Bytes32 × List UInt8)) (keys : List Bytes32)
    (before : Bytes32 → Option (List UInt8)) :
    writeLeaves (remaining entries keys) (fun key => if key ∈ keys then none else before key) =
      fun key => if key ∈ keys then none else writeLeaves entries before key := by
  induction entries generalizing before with
  | nil => rfl
  | cons entry rest ih =>
    have step : writeLeaves (entry :: rest) before = writeLeaves rest (Function.update before entry.1 (some entry.2)) := rfl
    rw [step, ← ih]
    by_cases pruned : entry.1 ∈ keys
    · have skipped : remaining (entry :: rest) keys = remaining rest keys := by simp [remaining, pruned]
      rw [skipped]
      congr 1
      funext key
      by_cases same : key = entry.1
      · simp [same, pruned]
      · simp [Function.update_of_ne same]
    · have kept : remaining (entry :: rest) keys = entry :: remaining rest keys := by simp [remaining, pruned]
      rw [kept, writeLeaves, List.foldl_cons]
      congr 1
      funext key
      by_cases same : key = entry.1
      · simp [same, pruned]
      · simp [Function.update_of_ne same]

/-- Insertions into a new tree over an empty storage and then any successful prunings, in any order: the nodes that are
stored and the root are those of the tree after the insertions of the remaining keys alone. -/
theorem pruning_erases {start : VerkleTree S} (empty : ∀ key, Storage.get storage key = none)
    (made : new storage = .ok start) (entries : List (Bytes32 × List UInt8)) (keys : List Bytes32)
    (succeed : Runs.Meets pruned (start.insertAll entries) (fun tree key => (tree.pruneKey key).1 = .ok ()) keys) :
    (∀ node, Storage.get (Runs.run pruned (start.insertAll entries) keys).storage (keyForPath node) =
      Storage.get (start.insertAll (remaining entries keys)).storage (keyForPath node)) ∧
    (Runs.run pruned (start.insertAll entries) keys).getRoot.1 =
      (start.insertAll (remaining entries keys)).getRoot.1 := by
  rw [new_ok] at made
  cases made
  have new := stores_fresh empty
  have erased := (new.insert_all (fresh_pruned storage) entries).prune_all succeed
  have alone := new.insert_all (fresh_pruned storage) (remaining entries keys)
  have nothing : (fun _ : Bytes32 => (none : Option (List UInt8))) = fun key => if key ∈ keys then none else none := by simp
  rw [nothing, write_leaves_remaining] at alone
  have agree := erased.agree alone
  refine ⟨agree, ?_⟩
  have erasedRoot : (Runs.run pruned ((fresh storage).insertAll entries) keys).Coherent :=
    Runs.run_keeps Coherent ((fresh_coherent storage).insert_all entries) (fun _ key coherent => coherent.prune_key key) keys
  have aloneRoot : ((fresh storage).insertAll (remaining entries keys)).Coherent :=
    (fresh_coherent storage).insert_all (remaining entries keys)
  rw [erasedRoot.get_root.1, aloneRoot.get_root.1, storageRoot, storageRoot, commitmentAt, commitmentAt,
    node_commitment_congr _ _ fun below _ => agree below]

end Runs
end Klomang.VerkleTree

namespace Klomang.Counting

open VerkleTree

/-- Of two keys the second is pruned. -/
theorem second_key_erased :
    (Runs.run pruned ((fresh (∅ : MemoryStorage)).insertAll [(.replicate 7, [1]), (.replicate 8, [2])])
      [.replicate 8]).getRoot.1 = ((fresh (∅ : MemoryStorage)).insertAll [(.replicate 7, [1])]).getRoot.1 := by
  have succeed : Runs.Meets pruned ((fresh (∅ : MemoryStorage)).insertAll [(.replicate 7, [1]), (.replicate 8, [2])])
      (fun tree key => (tree.pruneKey key).1 = .ok ()) [.replicate 8] :=
    (Runs.meets_cons _ _).mpr ⟨prune_inserted _ _ _, Runs.meets_nil⟩
  have left : remaining [(.replicate 7, [1]), (.replicate 8, [2])] [.replicate 8] = [(.replicate 7, [1])] := by decide
  rw [(pruning_erases (fun _ => Finmap.lookup_empty _) (new_ok _) _ _ succeed).2, left]

end Klomang.Counting
