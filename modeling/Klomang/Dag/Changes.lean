import Klomang.Dag.Shape
import Klomang.Lib.Runs

/-! Graphs under additions and removals. Removing a block detaches it from both ends of its
links, so whatever is added and removed, the links stay mirrored and without cycles. -/
namespace Klomang

/-- The block without another one among its parents and children. -/
def BlockNode.detach (block : BlockNode) (id : Hash) : BlockNode :=
  { block with
    header := { block.header with parents := block.header.parents.erase id }
    children := block.children.erase id }

namespace Dag
variable {dag : Dag} {block : BlockNode} {id node parent child : Hash}

section Removing

private theorem lookup_drop_children (id : Hash) {parents : List Hash} (distinct : parents.Nodup)
    (blocks : FiniteMap Hash BlockNode) (node : Hash) :
    (parents.foldl (dropChild id) blocks).lookup node = (blocks.lookup node).map fun stored =>
      if node ∈ parents then { stored with children := stored.children.erase id } else stored :=
  FiniteMap.lookup_fold_update (fun map key absent => by rw [dropChild, absent])
    (fun map key value found => by rw [dropChild, found]) distinct blocks node

private theorem lookup_drop_parents (id : Hash) {children : List Hash} (distinct : children.Nodup)
    (blocks : FiniteMap Hash BlockNode) (node : Hash) :
    (children.foldl (dropParent id) blocks).lookup node = (blocks.lookup node).map fun stored =>
      if node ∈ children then
        { stored with header := { stored.header with parents := stored.header.parents.erase id } }
      else stored :=
  FiniteMap.lookup_fold_update (fun map key absent => by rw [dropParent, absent])
    (fun map key value found => by rw [dropParent, found]) distinct blocks node

/-- A block that lists neither stays as it is. -/
private theorem detach_unlisted (parents : id ∉ block.header.parents) (children : id ∉ block.children) :
    block.detach id = block := by
  rw [BlockNode.detach, Finset.erase_eq_of_notMem parents, Finset.erase_eq_of_notMem children]

theorem remove_absent (absent : id ∉ dag.blocks.keys) : dag.removeBlock id = dag := by
  rw [← get_block_none, getBlock] at absent
  rw [removeBlock, absent]

/-- In a linked graph removal takes one block away and detaches it from all the others. -/
theorem Linked.get_block_removed (linked : dag.Linked) (id node : Hash) :
    (dag.removeBlock id).getBlock node =
      if node = id then none else (dag.getBlock node).map fun stored => stored.detach id := by
  cases found : dag.getBlock id with
  | none =>
    have absent := get_block_none.mp found
    rw [remove_absent absent]
    split
    · rename_i same
      rw [same, found]
    · cases there : dag.getBlock node with
      | none => rfl
      | some stored =>
        -- an unknown block is nobody's parent and nobody's child
        rw [Option.map_some, detach_unlisted]
        · exact fun named => absent (linked.stored id node ⟨stored, there, named⟩)
        · exact fun named => absent (parent_of_stored ((linked.children node id).mp ⟨stored, there, named⟩))
  | some block =>
    have lookup : dag.blocks.lookup id = some block := found
    simp only [removeBlock, lookup, getBlock]
    rw [lookup_drop_parents id (ascending_nodup _), lookup_drop_children id (ascending_nodup _),
      FiniteMap.lookup_erase_ite]
    by_cases same : node = id
    · simp [same]
    · simp only [if_neg same]
      cases there : dag.blocks.lookup node with
      | none => rfl
      | some stored =>
        have parents : node ∈ block.children ↔ id ∈ stored.header.parents := by
          constructor
          · intro listed
            obtain ⟨other, same, named⟩ := (linked.children id node).mp ⟨block, found, listed⟩
            cases there.symm.trans same
            exact named
          · intro named
            obtain ⟨other, same, listed⟩ := (linked.children id node).mpr ⟨stored, there, named⟩
            cases found.symm.trans same
            exact listed
        have children : node ∈ block.header.parents ↔ id ∈ stored.children := by
          constructor
          · intro named
            obtain ⟨other, same, listed⟩ := (linked.children node id).mpr ⟨block, found, named⟩
            cases there.symm.trans same
            exact listed
          · intro listed
            obtain ⟨other, same, named⟩ := (linked.children node id).mp ⟨stored, there, listed⟩
            cases found.symm.trans same
            exact named
        simp only [Option.map_some, mem_ascending, parents, children, BlockNode.detach]
        by_cases up : id ∈ stored.header.parents <;> by_cases down : id ∈ stored.children <;> simp [up, down]

theorem Linked.keys_removed (linked : dag.Linked) (id : Hash) :
    (dag.removeBlock id).blocks.keys = dag.blocks.keys.erase id := by
  ext node
  rw [← get_block_isSome, linked.get_block_removed, Finset.mem_erase, ← get_block_isSome]
  by_cases same : node = id
  · simp [same]
  · simp [same]

theorem Linked.parent_of_removed (linked : dag.Linked) :
    (dag.removeBlock id).ParentOf parent child ↔ parent ≠ id ∧ child ≠ id ∧ dag.ParentOf parent child := by
  unfold ParentOf
  rw [linked.get_block_removed]
  by_cases same : child = id
  · simp [same]
  · simp only [same, ↓reduceIte, Option.map_eq_some_iff, ne_eq, not_false_eq_true, true_and]
    constructor
    · rintro ⟨_, ⟨stored, found, rfl⟩, named⟩
      obtain ⟨different, old⟩ := Finset.mem_erase.mp named
      exact ⟨different, stored, found, old⟩
    · rintro ⟨different, stored, found, named⟩
      exact ⟨stored.detach id, ⟨stored, found, rfl⟩, Finset.mem_erase.mpr ⟨different, named⟩⟩

theorem Linked.child_of_removed (linked : dag.Linked) :
    (dag.removeBlock id).ChildOf child parent ↔ parent ≠ id ∧ child ≠ id ∧ dag.ChildOf child parent := by
  unfold ChildOf
  rw [linked.get_block_removed]
  by_cases same : parent = id
  · simp [same]
  · simp only [same, ↓reduceIte, Option.map_eq_some_iff, ne_eq, not_false_eq_true, true_and]
    constructor
    · rintro ⟨_, ⟨stored, found, rfl⟩, listed⟩
      obtain ⟨different, old⟩ := Finset.mem_erase.mp listed
      exact ⟨different, stored, found, old⟩
    · rintro ⟨different, stored, found, listed⟩
      exact ⟨stored.detach id, ⟨stored, found, rfl⟩, Finset.mem_erase.mpr ⟨different, listed⟩⟩

theorem Linked.remove (linked : dag.Linked) (id : Hash) : (dag.removeBlock id).Linked where
  stored := by
    intro parent child edge
    obtain ⟨different, _, old⟩ := linked.parent_of_removed.mp edge
    rw [linked.keys_removed]
    exact Finset.mem_erase.mpr ⟨different, linked.stored parent child old⟩
  children := by
    intro parent child
    rw [linked.parent_of_removed, linked.child_of_removed, linked.children]
  ranked := by
    obtain ⟨rank, ranked⟩ := linked.ranked
    exact ⟨rank, fun parent child edge => ranked parent child (linked.parent_of_removed.mp edge).2.2⟩

end Removing

/-- An `add_block` of a block without children, or a `remove_block`. -/
inductive Change where
  | add (block : BlockNode) (leaf : block.children = ∅)
  | remove (id : Hash)

/-- The graph after a change, refused or not. -/
def change (dag : Dag) : Change → Dag
  | .add block _ => (dag.addBlock block).2
  | .remove id => dag.removeBlock id

theorem Linked.change (linked : dag.Linked) (step : Change) : (dag.change step).Linked := by
  cases step with
  | add block leaf =>
    rw [Dag.change]
    rcases fits_or_refused leaf with fits | refused
    · exact linked.grow fits.grown
    · rw [refused]
      exact linked
  | remove id => exact linked.remove id

/-- The graph after the changes. -/
def built (changes : List Change) : Dag := Runs.run Dag.change Dag.new changes

/-- Every graph that additions and removals lead to is linked. -/
theorem built_linked (changes : List Change) : (built changes).Linked :=
  Runs.run_keeps Linked wellFormed_new.linked (fun _ step linked => linked.change step) changes

/-- The graph over any additions and removals: parents are stored, the two sets of links mirror
each other, no block is its own parent and there are no cycles. -/
theorem links_represent_a_dag (changes : List Change) :
    (∀ parent child, (built changes).ParentOf parent child → parent ∈ (built changes).blocks.keys) ∧
    (∀ parent child, (built changes).ParentOf parent child ↔ (built changes).ChildOf child parent) ∧
    (∀ id, ¬ (built changes).ParentOf id id) ∧
    ∀ id, ¬ (built changes).Past id id := by
  have linked := built_linked changes
  refine ⟨linked.stored, fun parent child => (linked.children parent child).symm, fun id own => ?_, ?_⟩
  · exact linked.past_irreflexive id (.single own)
  · exact linked.past_irreflexive

/-- An addition of a block without transactions. -/
def Change.empty (id : UInt8) (parents : Finset Hash) : Change :=
  .add ⟨⟨.replicate id, parents, 0, 1, 0, .replicate 0, none, none⟩, ∅, none, ∅, ∅, 0, []⟩ rfl

end Dag
end Klomang
