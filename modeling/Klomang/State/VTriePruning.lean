import Klomang.State.VTrieRuns

/-! What pruning a key removes: its leaf and then, from the deepest one up, the inner nodes above
it, until one has another child that is stored and not marked as pruned. -/
namespace Klomang.VerkleTree

variable [Blake3] [Bandersnatch] {S : Type} {tree : VerkleTree S} {path node : List UInt8} {depth : Nat}

section Children
variable [Storage S]

theorem has_children_iff :
    tree.hasChildren node = true ↔
      ∃ child, storedNode tree.storage (node ++ [child]) = true ∧ node ++ [child] ∉ tree.prunedKeys := by
  simp [hasChildren, nodeExists]

/-- A node on a path has a stored child off the path. -/
def Branches (tree : VerkleTree S) (path : List UInt8) (depth : Nat) : Prop :=
  ∃ child, ¬ path.take depth ++ [child] <+: path ∧
    storedNode tree.storage (path.take depth ++ [child]) = true

/-- A node on a path has a stored child off the path that is not marked as pruned. -/
def KeepsChild (tree : VerkleTree S) (path : List UInt8) (depth : Nat) : Prop :=
  ∃ child, ¬ path.take depth ++ [child] <+: path ∧
    storedNode tree.storage (path.take depth ++ [child]) = true ∧ path.take depth ++ [child] ∉ tree.prunedKeys

theorem KeepsChild.branches (keeps : tree.KeepsChild path depth) : tree.Branches path depth := by
  obtain ⟨child, off, stored, _⟩ := keeps
  exact ⟨child, off, stored⟩

omit [Blake3] [Bandersnatch] [Storage S] in
/-- The node of a path at some depth. -/
theorem eq_take_iff (within : depth ≤ path.length) :
    node = path.take depth ↔ node <+: path ∧ node.length = depth := by
  constructor
  · rintro rfl
    exact ⟨List.take_prefix depth path, by rw [List.length_take]; omega⟩
  · rintro ⟨on, length⟩
    rw [← length]
    exact List.prefix_iff_eq_take.mp on

/-- Once the child on the path is gone, only the others count. -/
theorem has_children_of_gone (within : depth < path.length)
    (gone : storedNode tree.storage (path.take (depth + 1)) = false) :
    tree.hasChildren (path.take depth) = true ↔ tree.KeepsChild path depth := by
  rw [has_children_iff]
  constructor
  · rintro ⟨child, stored, unmarked⟩
    refine ⟨child, fun on => ?_, stored, unmarked⟩
    have length : (path.take depth ++ [child]).length = depth + 1 := by
      rw [List.length_append, List.length_take, List.length_singleton]
      omega
    simp only [(eq_take_iff within).mpr ⟨on, length⟩, gone] at stored
    cases stored
  · rintro ⟨child, _, stored, unmarked⟩
    exact ⟨child, stored, unmarked⟩

end Children

section CleanUp
variable [Storage S]

/-- A tree without one of its nodes, which is marked as pruned. -/
def drop (tree : VerkleTree S) (node : List UInt8) : VerkleTree S :=
  invalidatePathCache { tree with
    storage := Storage.delete tree.storage (keyForPath node)
    prunedKeys := Insert.insert node tree.prunedKeys } node

theorem get_drop (tree : VerkleTree S) (node other : List UInt8) :
    Storage.get (tree.drop node).storage (keyForPath other) =
      if other = node then none else Storage.get tree.storage (keyForPath other) := by
  rw [drop, invalidatePathCache, Storage.get_delete]
  exact if_congr key_for_path_injective.eq_iff rfl rfl

theorem mem_drop_pruned {other : List UInt8} :
    other ∈ (tree.drop node).prunedKeys ↔ other = node ∨ other ∈ tree.prunedKeys :=
  Finset.mem_insert

/-- Dropping a node of the path leaves the children off the path as they are. -/
theorem keeps_child_drop (on : node <+: path) :
    (tree.drop node).KeepsChild path depth ↔ tree.KeepsChild path depth := by
  refine exists_congr fun child => and_congr_right fun off => ?_
  have other : path.take depth ++ [child] ≠ node := fun same => off (same ▸ on)
  rw [storedNode, get_drop, if_neg other, mem_drop_pruned, or_iff_right other, storedNode]

/-- The nodes of a path from some depth on, above another one, are gone and marked. -/
structure Removes (before after : VerkleTree S) (path : List UInt8) (stop depth : Nat) : Prop where
  storage : ∀ node, Storage.get after.storage (keyForPath node) =
    if node <+: path ∧ stop ≤ node.length ∧ node.length < depth then none
    else Storage.get before.storage (keyForPath node)
  marked : ∀ node, node ∈ after.prunedKeys ↔
    node ∈ before.prunedKeys ∨ (node <+: path ∧ stop ≤ node.length ∧ node.length < depth)

/-- A node dropped before the others counts as one of them. -/
theorem Removes.extend {after : VerkleTree S} {stop : Nat} (within : depth ≤ path.length) (low : stop ≤ depth)
    (removes : Removes (tree.drop (path.take depth)) after path stop depth) :
    Removes tree after path stop (depth + 1) := by
  have here (node : List UInt8) : node = path.take depth ↔ node <+: path ∧ node.length = depth := eq_take_iff within
  have range (node : List UInt8) : stop ≤ node.length ∧ node.length < depth + 1 ↔
      node.length = depth ∨ (stop ≤ node.length ∧ node.length < depth) := by omega
  refine ⟨fun node => ?_, fun node => ?_⟩
  · rw [removes.storage node, get_drop]
    by_cases same : node = path.take depth
    · obtain ⟨on, length⟩ := (here node).mp same
      rw [if_pos same, ite_self, if_pos ⟨on, (range node).mpr (.inl length)⟩]
    · rw [if_neg same]
      refine if_congr (and_congr_right fun on => ?_) rfl rfl
      rw [range]
      exact (or_iff_right fun length => same ((here node).mpr ⟨on, length⟩)).symm
  · rw [removes.marked node, mem_drop_pruned, here, range, and_or_left]
    tauto

/-- The loop stops below the deepest node that keeps a child, or below the root. -/
theorem cleanup_spec (tree : VerkleTree S) (within : depth ≤ path.length)
    (gone : storedNode tree.storage (path.take depth) = false) :
    ∃ stop, stop ≤ depth ∧ (0 < depth → 0 < stop) ∧
      Removes tree (tree.recursiveCleanupEmptyNodes path depth) path stop depth ∧
      (∀ above, stop ≤ above → above < depth → ¬ tree.KeepsChild path above) ∧
      (stop ≤ 1 ∨ tree.KeepsChild path (stop - 1)) := by
  induction depth generalizing tree with
  | zero =>
    refine ⟨0, le_rfl, id, ⟨fun node => ?_, fun node => ?_⟩, fun above _ below => ?_, .inl (Nat.zero_le 1)⟩
    · rw [if_neg fun range => Nat.not_lt_zero _ range.2.2, recursiveCleanupEmptyNodes]
    · exact (or_iff_left fun range => Nat.not_lt_zero _ range.2.2).symm
    · exact absurd below (Nat.not_lt_zero above)
  | succ depth ih =>
    have children := has_children_of_gone within gone
    rw [recursiveCleanupEmptyNodes]
    dsimp only
    split
    · rename_i barren
      simp only [Bool.and_eq_true, Bool.not_eq_true', decide_eq_true_eq] at barren
      obtain ⟨none, inner⟩ := barren
      have absent : storedNode (tree.drop (path.take depth)).storage (path.take depth) = false := by
        rw [storedNode, get_drop, if_pos rfl]
        rfl
      have on := List.take_prefix depth path
      obtain ⟨stop, low, positive, removes, childless, stopped⟩ := ih (tree.drop (path.take depth)) (by omega) absent
      refine ⟨stop, by omega, fun _ => positive inner, removes.extend (by omega) low, fun above far below => ?_, ?_⟩
      · rcases Nat.lt_succ_iff_lt_or_eq.mp below with deeper | same
        · exact fun keeps => childless above far deeper ((keeps_child_drop on).mpr keeps)
        · subst same
          exact fun keeps => Bool.false_ne_true (none.symm.trans (children.mpr keeps))
      · exact stopped.imp_right (keeps_child_drop on).mp
    · rename_i kept
      refine ⟨depth + 1, le_rfl, fun _ => Nat.succ_pos depth, ⟨fun node => ?_, fun node => ?_⟩,
        fun above low below => ?_, ?_⟩
      · rw [if_neg (by omega)]
      · exact (or_iff_left (by omega)).symm
      · omega
      · rw [Nat.add_sub_cancel]
        by_cases root : depth = 0
        · exact .inl (by omega)
        · refine .inr (children.mp ?_)
          simpa [Nat.pos_of_ne_zero root] using kept

end CleanUp

section Keys
variable [Storage S] {key : Bytes32} {stop : Nat}

/-- What pruning a key does: the nodes of the key from some depth on are gone and marked; no inner
one among them had another unmarked child, and the next one up had, or is the root. -/
structure Prunes (before after : VerkleTree S) (key : Bytes32) (stop : Nat) : Prop where
  leaf : storedNode before.storage key.bytes = true
  positive : 0 < stop
  within : stop ≤ keySize
  storage : ∀ node, Storage.get after.storage (keyForPath node) =
    if node <+: key.bytes ∧ stop ≤ node.length then none else Storage.get before.storage (keyForPath node)
  marked : ∀ node, node ∈ after.prunedKeys ↔
    node ∈ before.prunedKeys ∨ (node <+: key.bytes ∧ stop ≤ node.length)
  childless : ∀ depth, stop ≤ depth → depth < keySize → ¬ before.KeepsChild key.bytes depth
  stopped : stop = 1 ∨ before.KeepsChild key.bytes (stop - 1)

/-- A key can be pruned exactly when its leaf is stored. -/
theorem prune_key_spec (tree : VerkleTree S) (key : Bytes32) :
    (storedNode tree.storage key.bytes = false ∧
      (tree.pruneKey key).1 = .error (.prunedData "Key does not exist or already absent") ∧
      SameContents tree (tree.pruneKey key).2) ∨
    ((tree.pruneKey key).1 = .ok () ∧ ∃ stop, Prunes tree (tree.pruneKey key).2 key stop) := by
  unfold pruneKey
  dsimp only
  split
  · rename_i absent
    exact .inl ⟨by simpa [storedNode] using absent, rfl, rfl, rfl⟩
  · rename_i present
    have stored : storedNode tree.storage key.bytes = true := by
      simpa [storedNode, Option.isSome_iff_ne_none] using present
    let leafless := ({ tree with dirty := true } : VerkleTree S).drop key.bytes
    have whole : key.bytes.take key.bytes.length = key.bytes := List.take_length
    have gone : storedNode leafless.storage (key.bytes.take key.bytes.length) = false := by
      rw [whole, storedNode, get_drop, if_pos rfl]
      rfl
    obtain ⟨stop, low, positive, removes, childless, stopped⟩ := cleanup_spec leafless le_rfl gone
    have cleaned : Removes (tree.drop (key.bytes.take key.bytes.length))
        (leafless.recursiveCleanupEmptyNodes key.bytes key.bytes.length) key.bytes stop key.bytes.length := by
      rw [whole]
      exact ⟨removes.storage, removes.marked⟩
    obtain ⟨storage, marked⟩ := cleaned.extend le_rfl low
    have above (node : List UInt8) : node <+: key.bytes ∧ stop ≤ node.length ∧ node.length < key.bytes.length + 1 ↔
        node <+: key.bytes ∧ stop ≤ node.length :=
      and_congr_right fun on => and_iff_left (Nat.lt_succ_of_le on.length_le)
    have long : 0 < key.bytes.length := by simp
    have unchanged (depth : Nat) : leafless.KeepsChild key.bytes depth ↔ tree.KeepsChild key.bytes depth :=
      keeps_child_drop List.prefix_rfl
    refine .inr ⟨rfl, stop, stored, positive long, length_key key ▸ low, fun node => ?_, fun node => ?_,
      fun depth far deeper keeps => ?_, ?_⟩
    · exact (storage node).trans (if_congr (above node) rfl rfl)
    · exact (marked node).trans (or_congr_right (above node))
    · exact childless depth far (length_key key ▸ deeper) ((unchanged depth).mpr keeps)
    · have first := positive long
      exact stopped.imp (fun _ => by omega) (unchanged _).mp

theorem pruned_of_stored (stored : storedNode tree.storage key.bytes = true) :
    ∃ stop, Prunes tree (tree.pruneKey key).2 key stop := by
  rcases prune_key_spec tree key with ⟨absent, _⟩ | ⟨_, prunes⟩
  · simp only [stored] at absent
    cases absent
  · exact prunes

/-- Pruning reaches as deep as no node keeps a child. -/
theorem Prunes.stop_le {after : VerkleTree S} (prunes : Prunes tree after key stop) (deep : 0 < depth)
    (barren : ∀ above, depth ≤ above → above < keySize → ¬ tree.KeepsChild key.bytes above) : stop ≤ depth := by
  have within := prunes.within
  have positive := prunes.positive
  rcases prunes.stopped with first | keeps
  · omega
  · by_contra above
    exact barren (stop - 1) (by omega) (by omega) keeps

/-- Pruning a key changes nothing that `get` returns of another one. -/
theorem Prunes.get_other {after : VerkleTree S} {other : Bytes32} (prunes : Prunes tree after key stop)
    (different : other ≠ key) : after.get other = tree.get other := by
  have apart : ¬ (other.bytes <+: key.bytes ∧ stop ≤ other.bytes.length) :=
    fun on => key_off_path different on.1
  rw [get, get, getNodeValue, getNodeValue, storedValue, prunes.storage, if_neg apart, storedValue]
  exact if_congr ((prunes.marked _).trans (or_iff_left apart)) rfl rfl

end Keys
end Klomang.VerkleTree
