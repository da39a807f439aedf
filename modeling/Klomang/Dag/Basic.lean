import Klomang.Errors
import Klomang.Lib.Ascending
import Klomang.Lib.FiniteMap
import Klomang.Lib.Traversal
import Klomang.State.Transaction

/-! `core/dag`: blocks, the block graph and the anticone of a block. -/
namespace Klomang

structure BlockHeader where
  id : Hash
  parents : Finset Hash
  timestamp : UInt64
  difficulty : UInt64
  nonce : UInt64
  verkleRoot : Hash
  verkleProofs : Option (List UInt8)
  signature : Option (List UInt8)
  deriving DecidableEq

structure BlockNode where
  header : BlockHeader
  children : Finset Hash
  selectedParent : Option Hash
  blueSet : Finset Hash
  redSet : Finset Hash
  blueScore : UInt64
  transactions : List Transaction
  deriving DecidableEq

structure Dag where
  blocks : FiniteMap Hash BlockNode
  tips : Finset Hash

namespace Dag

/-- `Dag::new`. -/
def new : Dag := ⟨∅, ∅⟩

/-- `get_all_hashes`. -/
def getAllHashes (dag : Dag) : List Hash := ascending dag.blocks.keys

/-- `get_block`. -/
def getBlock (dag : Dag) (id : Hash) : Option BlockNode := dag.blocks.lookup id

/-- Writing through `get_block_mut`. -/
def setBlock (dag : Dag) (id : Hash) (block : BlockNode) : Dag :=
  { dag with blocks := dag.blocks.insert id block }

/-- `get_tips`. -/
def getTips (dag : Dag) : List Hash := ascending dag.tips

/-- Record a child with one parent, if that parent is stored. -/
def addChild (child : Hash) (blocks : FiniteMap Hash BlockNode) (parent : Hash) : FiniteMap Hash BlockNode :=
  match blocks.lookup parent with
  | some block => blocks.insert parent { block with children := insert child block.children }
  | none => blocks

/-- `add_block`. -/
def addBlock (dag : Dag) (block : BlockNode) : Except CoreError Unit × Dag :=
  let id := block.header.id
  let parents := block.header.parents
  if id ∈ dag.blocks.keys then (.error .duplicateBlock, dag)
  else if id ∈ parents then
    (.error (.consensusError "Block cannot reference itself as parent"), dag)
  else if parents = ∅ ∧ dag.blocks.keys ≠ ∅ then
    (.error (.consensusError "Genesis block already exists"), dag)
  else if ¬ parents ⊆ dag.blocks.keys then (.error .invalidParent, dag)
  else
    (.ok (),
      { blocks := (ascending parents).foldl (addChild id) (dag.blocks.insert id block)
        tips := insert id (dag.tips \ parents) })

/-- The stored parents of a block, in order. -/
def parentsOf (dag : Dag) (id : Hash) : List Hash :=
  match dag.getBlock id with
  | some block => ascending block.header.parents
  | none => []

/-- The stored children of a block, in order. -/
def childrenOf (dag : Dag) (id : Hash) : List Hash :=
  match dag.getBlock id with
  | some block => ascending block.children
  | none => []

/-- `get_ancestors`. The fuel covers every parent link once. -/
def getAncestors (dag : Dag) (id : Hash) : List Hash :=
  let fuel := 1 + ∑ node ∈ dag.blocks.keys, (dag.parentsOf node).length
  ascending (Traversal.markOnPop dag.parentsOf fuel [id] ∅ ∅)

/-- `is_ancestor`. The fuel covers every parent link once. -/
def isAncestor (dag : Dag) (a b : Hash) : Bool :=
  if a = b then false
  else
    let fuel := 1 + ∑ node ∈ dag.blocks.keys, (dag.parentsOf node).length
    Traversal.searchOnPop dag.parentsOf a fuel [b] ∅

/-- `get_descendants`. The fuel covers every child once. -/
def getDescendants (dag : Dag) (id : Hash) : List Hash :=
  let fuel := 1 + (dag.blocks.keys.biUnion fun node => (dag.childrenOf node).toFinset).card
  (Traversal.markOnPush dag.childrenOf fuel [id] {id} []).insertionSort (· ≤ ·)

/-- `anticone::get_anticone`. -/
def getAnticone (dag : Dag) (id : Hash) : List Hash :=
  let ancestors := (dag.getAncestors id).toFinset
  let descendants := (dag.getDescendants id).toFinset
  dag.getAllHashes.filter fun hash => hash ≠ id ∧ hash ∉ ancestors ∧ hash ∉ descendants

/-- `block_exists`. -/
def blockExists (dag : Dag) (id : Hash) : Bool := dag.getBlock id |>.isSome

/-- Forget a child of one parent, if that parent is stored. -/
def dropChild (child : Hash) (blocks : FiniteMap Hash BlockNode) (parent : Hash) : FiniteMap Hash BlockNode :=
  match blocks.lookup parent with
  | some block => blocks.insert parent { block with children := block.children.erase child }
  | none => blocks

/-- Forget a parent of one child, if that child is stored. -/
def dropParent (parent : Hash) (blocks : FiniteMap Hash BlockNode) (child : Hash) : FiniteMap Hash BlockNode :=
  match blocks.lookup child with
  | some block => blocks.insert child
      { block with header := { block.header with parents := block.header.parents.erase parent } }
  | none => blocks

/-- `remove_block`. The order in which the two sets are gone through does not matter. -/
def removeBlock (dag : Dag) (id : Hash) : Dag :=
  match dag.blocks.lookup id with
  | none => dag
  | some block =>
    let blocks := dag.blocks.erase id
    let blocks := (ascending block.header.parents).foldl (dropChild id) blocks
    { blocks := (ascending block.children).foldl (dropParent id) blocks
      tips := dag.tips.erase id }

section Reading
variable {dag : Dag} {id node : Hash}

/-- The parent relation of the stored blocks. -/
def ParentOf (dag : Dag) (parent child : Hash) : Prop :=
  ∃ block, dag.getBlock child = some block ∧ parent ∈ block.header.parents

/-- The child relation of the stored blocks. -/
def ChildOf (dag : Dag) (child parent : Hash) : Prop :=
  ∃ block, dag.getBlock parent = some block ∧ child ∈ block.children

theorem mem_parents_of : node ∈ dag.parentsOf id ↔ dag.ParentOf node id := by
  unfold parentsOf ParentOf
  cases dag.getBlock id <;> simp

theorem mem_children_of : node ∈ dag.childrenOf id ↔ dag.ChildOf node id := by
  unfold childrenOf ChildOf
  cases dag.getBlock id <;> simp

theorem get_block_isSome : (∃ block, dag.getBlock id = some block) ↔ id ∈ dag.blocks.keys := by
  rw [Finmap.mem_keys, Finmap.mem_iff]
  rfl

theorem get_block_none : dag.getBlock id = none ↔ id ∉ dag.blocks.keys := by
  rw [Finmap.mem_keys, getBlock, Finmap.lookup_eq_none]

/-- `get_ancestors` lists the blocks that one or more parent links lead to. -/
theorem mem_get_ancestors :
    node ∈ dag.getAncestors id ↔ Relation.TransGen (fun child parent => dag.ParentOf parent child) id node := by
  have outside : ∀ other ∉ dag.blocks.keys, dag.parentsOf other = [] := by
    intro other absent
    rw [parentsOf, get_block_none.mpr absent]
  rw [getAncestors, mem_ascending, Traversal.mem_mark_on_pop outside le_rfl]
  refine Eq.to_iff (congrArg (fun edge => Relation.TransGen edge id node) ?_)
  funext child parent
  exact propext mem_parents_of

/-- `is_ancestor` holds of two different blocks when one or more parent links lead from the second
to the first. -/
theorem is_ancestor_iff {a b : Hash} :
    dag.isAncestor a b = true ↔ a ≠ b ∧ Relation.TransGen (fun child parent => dag.ParentOf parent child) b a := by
  have outside : ∀ other ∉ dag.blocks.keys, dag.parentsOf other = [] := by
    intro other absent
    rw [parentsOf, get_block_none.mpr absent]
  have edges : Traversal.Edge dag.parentsOf = fun child parent => dag.ParentOf parent child := by
    funext child parent
    exact propext mem_parents_of
  unfold isAncestor
  split
  · rename_i same
    simp [same]
  · rename_i different
    rw [Traversal.search_on_pop outside le_rfl, edges]
    simp [different]

/-- `get_descendants` lists, once each, the other blocks that child links lead to. -/
theorem get_descendants_lists (dag : Dag) (id : Hash) :
    (dag.getDescendants id).Nodup ∧ ∀ node, node ∈ dag.getDescendants id ↔
      node ≠ id ∧ Relation.ReflTransGen (fun parent child => dag.ChildOf child parent) id node := by
  have within : ∀ source, ∀ other ∈ dag.childrenOf source,
      other ∈ dag.blocks.keys.biUnion fun parent => (dag.childrenOf parent).toFinset := by
    intro source other edge
    obtain ⟨block, found, _⟩ := mem_children_of.mp edge
    refine Finset.mem_biUnion.mpr ⟨source, get_block_isSome.mp ⟨block, found⟩, ?_⟩
    exact List.mem_toFinset.mpr edge
  refine ⟨(List.perm_insertionSort _ _).nodup_iff.mpr (Traversal.mem_mark_on_push within le_rfl).1, fun node => ?_⟩
  rw [getDescendants, List.mem_insertionSort, (Traversal.mem_mark_on_push within le_rfl).2]
  refine and_congr_right fun _ => Eq.to_iff (congrArg (fun edge => Relation.ReflTransGen edge id node) ?_)
  funext parent child
  exact propext mem_children_of

theorem mem_get_descendants :
    node ∈ dag.getDescendants id ↔
      node ≠ id ∧ Relation.ReflTransGen (fun parent child => dag.ChildOf child parent) id node :=
  (get_descendants_lists dag id).2 node

theorem mem_get_all_hashes : node ∈ dag.getAllHashes ↔ node ∈ dag.blocks.keys := mem_ascending

/-- The anticone: the stored blocks that are neither the block itself nor
ordered with it. -/
theorem mem_get_anticone :
    node ∈ dag.getAnticone id ↔
      node ∈ dag.blocks.keys ∧ node ≠ id ∧ node ∉ dag.getAncestors id ∧ node ∉ dag.getDescendants id := by
  simp only [getAnticone, List.mem_filter, mem_get_all_hashes, List.mem_toFinset, decide_eq_true_eq]

end Reading
end Dag
end Klomang
