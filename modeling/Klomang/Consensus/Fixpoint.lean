import Klomang.Consensus.Reorganisation

/-! `process_block` reaches a fixpoint of the region it revisits: `recompute_block` finds nothing to change there
afterwards, so a second call is idle. -/
namespace Klomang.GhostDag

open Dag (WellFormed)

variable {ghostDag : GhostDag} {dag : Dag} {block stored : BlockNode} {blocks : List BlockNode} {id node : Hash}

/-- `recompute_block` finds nothing to change at a settled block. -/
theorem Settled.recompute (settled : ghostDag.Settled dag id) (formed : dag.WellFormed) :
    ghostDag.recomputeBlock dag id = (false, dag) := by
  cases found : dag.getBlock id with
  | none =>
    unfold recomputeBlock
    rw [found]
  | some block =>
    by_cases root : block.header.parents = ∅
    · unfold recomputeBlock
      rw [found]
      exact if_pos root
    · obtain ⟨selected, select, colouring⟩ := Option.map_eq_some_iff.mp ((settled block found).2 root)
      have same : block.selectedParent = some selected ∧
          block.blueSet = (ghostDag.buildBlueSet dag selected (ascending block.header.parents)).1 ∧
          block.redSet = (ghostDag.buildBlueSet dag selected (ascending block.header.parents)).2 ∧
          block.blueScore = storedScore dag selected + UInt64.ofNat
            (ghostDag.buildBlueSet dag selected (ascending block.header.parents)).1.card :=
        ⟨congrArg Colouring.selectedParent colouring.symm, congrArg Colouring.blueSet colouring.symm,
          congrArg Colouring.redSet colouring.symm, congrArg Colouring.blueScore colouring.symm⟩
      unfold recomputeBlock
      rw [found]
      dsimp only
      rw [if_neg root, if_neg (not_not_intro (parents_exist formed found)), select]
      exact if_pos same

/-- Nothing changes when every block of a list is settled. -/
theorem recompute_all_settled (formed : dag.WellFormed) {order : List Hash}
    (settled : ∀ node ∈ order, ghostDag.Settled dag node) : ghostDag.recomputeAll dag order = dag := by
  induction order with
  | nil => rfl
  | cons first rest ih =>
    rw [recomputeAll, List.foldl_cons, (settled first List.mem_cons_self).recompute formed]
    exact ih fun node member => settled node (List.mem_cons_of_mem _ member)

/-- `process_block` changes nothing where its block and the region above the block's parents are settled. -/
theorem process_settled (consistent : Consistent dag) (found : dag.getBlock id = some block)
    (settled : ∀ node, node = id ∨ AtOrAbove dag block.header.parents node → ghostDag.Settled dag node) :
    ghostDag.processBlock dag id = dag := by
  have start : ghostDag.loopStart dag id = dag := by
    rw [loopStart, found]
    dsimp only
    split
    · rename_i root
      have coloured : block.recolour rootColouring = block := by
        rw [← consistent.root id block found root]
        rfl
      rw [coloured]
      exact set_block_self found
    · rw [(settled id (.inl rfl)).recompute consistent.formed]
  have listed := (loop_ready ghostDag (consistent.ready id) found).listed
  rw [process_block_loop, start]
  exact recompute_all_settled consistent.formed fun node member => settled node (.inr ((listed node).mp member))

/-- The blocks that a call of `process_block` revisits: the block itself, its parents and their descendants. -/
def region (dag : Dag) (id : Hash) (block : BlockNode) : Finset Hash := insert id (affectedSet dag block.header.parents)

theorem mem_region (formed : dag.WellFormed) :
    node ∈ region dag id block ↔ node = id ∨ AtOrAbove dag block.header.parents node := by
  rw [region, Finset.mem_insert, mem_affected_set formed, AtOrAbove]

/-- One call of `process_block` on any stored block of any graph reached: `recompute_block` then finds nothing to
change at the block, at its parents and at the descendants of these, a second call is idle, and all other blocks are
what they were. -/
theorem process_block_reaches_fixpoint (ghostDag : GhostDag) (leaves : ∀ block ∈ blocks, Leaf block)
    (found : (ghostDag.dagOf blocks).getBlock id = some block) :
    (∀ node ∈ region (ghostDag.dagOf blocks) id block,
      ghostDag.recomputeBlock (ghostDag.processBlock (ghostDag.dagOf blocks) id) node =
        (false, ghostDag.processBlock (ghostDag.dagOf blocks) id)) ∧
    ghostDag.processBlock (ghostDag.processBlock (ghostDag.dagOf blocks) id) id =
      ghostDag.processBlock (ghostDag.dagOf blocks) id ∧
    ∀ node ∉ region (ghostDag.dagOf blocks) id block,
      (ghostDag.processBlock (ghostDag.dagOf blocks) id).getBlock node = (ghostDag.dagOf blocks).getBlock node := by
  have consistent := dag_of_consistent ghostDag leaves
  have processed := process_step ghostDag (consistent.ready id) found
  have formed := processed.consistent.formed
  refine ⟨fun node member => ?_, ?_, fun node outside => ?_⟩
  · exact (processed.settled node ((mem_region consistent.formed).mp member)).recompute formed
  · obtain ⟨again, there, header, _⟩ := processed.shape.find found
    refine process_settled processed.consistent there fun node visited => processed.settled node ?_
    rw [header] at visited
    exact visited.imp_right fun ⟨parent, named, above⟩ => ⟨parent, named, above.imp_right processed.shape.past.mp⟩
  · rw [mem_region consistent.formed, not_or] at outside
    exact processed.kept node outside.1 outside.2

theorem diamond_processed_twice :
    (GhostDag.new 1).processBlock ((GhostDag.new 1).processBlock ((GhostDag.new 1).dagOf diamond) (.replicate 2)) (.replicate 2) =
      (GhostDag.new 1).processBlock ((GhostDag.new 1).dagOf diamond) (.replicate 2) := by
  have leaves : ∀ block ∈ diamond, Leaf block := by decide +kernel
  have known : .replicate 2 ∈ ((GhostDag.new 1).dagOf diamond).blocks.keys := by decide +kernel
  obtain ⟨block, found⟩ := Dag.get_block_isSome.mpr known
  exact (process_block_reaches_fixpoint (GhostDag.new 1) leaves found).2.1

end Klomang.GhostDag
