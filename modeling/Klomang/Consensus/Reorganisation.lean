import Klomang.Consensus.Ordering
import Klomang.Dag.Tips

/-! The reorganisation guard. `can_reorganize` walks from its target down the selected parents
and stops at a tip. No block below a tip's child is a tip, so from any other block the walk runs
down to the first block and measures how high the target is, not how deep. -/
namespace Klomang.GhostDag

variable {ghostDag : GhostDag} {dag : Dag} {block : BlockNode} {blocks : List BlockNode} {id : Hash}
  {current : Option Hash} {virtualParents : Finset Hash}

section Tips

theorem recompute_tips (ghostDag : GhostDag) (dag : Dag) (id : Hash) :
    (ghostDag.recomputeBlock dag id).2.tips = dag.tips := by
  unfold recomputeBlock
  cases dag.getBlock id with
  | none => rfl
  | some block =>
    dsimp only
    split
    · rfl
    split
    · rfl
    split
    · rfl
    split
    · rfl
    · rfl

theorem recompute_all_tips (ghostDag : GhostDag) (dag : Dag) (order : List Hash) :
    (ghostDag.recomputeAll dag order).tips = dag.tips := by
  induction order generalizing dag with
  | nil => rfl
  | cons first rest ih => exact (ih _).trans (recompute_tips ghostDag dag first)

theorem process_tips (ghostDag : GhostDag) (dag : Dag) (id : Hash) :
    (ghostDag.processBlock dag id).tips = dag.tips := by
  rw [process_block_loop, recompute_all_tips]
  unfold loopStart
  split
  · rfl
  split
  · rfl
  · exact recompute_tips ghostDag dag id

theorem childless_same_shape {other : Dag} (same : dag.SameShape other) : other.childless = dag.childless := by
  rw [Dag.childless, Dag.childless, same.keys, same.children_of]

/-- The tips of every graph reached are the blocks without children. -/
theorem dag_of_tips (ghostDag : GhostDag) (leaves : ∀ block ∈ blocks, Leaf block) :
    (ghostDag.dagOf blocks).tips = (ghostDag.dagOf blocks).childless := by
  have both : Consistent (ghostDag.dagOf blocks) ∧
      (ghostDag.dagOf blocks).tips = (ghostDag.dagOf blocks).childless := by
    refine Runs.run_invariant (fun dag => Consistent dag ∧ dag.tips = dag.childless) Leaf
      ⟨consistent_new, rfl⟩ ?_ blocks leaves
    rintro dag block leaf ⟨consistent, exact⟩
    refine ⟨receive_consistent ghostDag consistent leaf, ?_⟩
    have added := consistent.formed.linked.tips_added leaf exact
    rcases receive_cases ghostDag consistent leaf with ⟨_, processed⟩ | ⟨_, _, same, processed⟩ | ⟨_, same⟩
    · rw [receive, process_tips, added]
      exact (childless_same_shape processed.shape).symm
    · rw [childless_same_shape processed.shape, same, process_tips, exact]
    · rw [same, exact]
  exact both.2

theorem virtual_parents (ghostDag : GhostDag) (known : id ∈ dag.blocks.keys) :
    (ghostDag.buildVirtualBlock dag).parents = dag.tips := by
  have tips : dag.getTips.toFinset = dag.tips := toFinset_ascending dag.tips
  have listed := Dag.mem_get_all_hashes.mpr known
  unfold buildVirtualBlock
  dsimp only
  split
  · rename_i empty
    rw [empty] at listed
    exact absurd listed List.not_mem_nil
  split
  · exact tips
  split
  · exact tips
  · exact tips

end Tips

section Walk

/-- The selected parent of a stored block. -/
def selectedParentOf (dag : Dag) (hash : Hash) : Option Hash := (dag.getBlock hash).bind (·.selectedParent)

/-- Where a number of steps along selected parents leads. -/
def selectedAncestor (dag : Dag) : Nat → Option Hash → Option Hash
  | 0, current => current
  | steps + 1, current => selectedAncestor dag steps (current.bind (selectedParentOf dag))

theorem selected_ancestor_none (dag : Dag) (steps : Nat) : selectedAncestor dag steps none = none := by
  induction steps with
  | zero => rfl
  | succ steps ih => exact ih

theorem selected_ancestor_ends {steps more : Nat} (ends : selectedAncestor dag steps current = none)
    (further : steps ≤ more) : selectedAncestor dag more current = none := by
  induction steps generalizing current more with
  | zero =>
    rw [show current = none from ends]
    exact selected_ancestor_none dag more
  | succ steps ih =>
    cases more with
    | zero => omega
    | succ more =>
      have next : selectedAncestor dag steps (current.bind (selectedParentOf dag)) = none := ends
      have later : selectedAncestor dag more (current.bind (selectedParentOf dag)) = none := ih next (by omega)
      exact later

/-- A stored block that is no tip, or nothing. -/
def Inner (dag : Dag) (current : Option Hash) : Prop :=
  ∀ hash, current = some hash → hash ∈ dag.blocks.keys ∧ hash ∉ dag.tips

/-- The selected parent is a parent. -/
theorem selected_parent_edge (consistent : Consistent dag) (balanced : AllBalanced dag) {parent : Hash}
    (selected : selectedParentOf dag id = some parent) : dag.ParentOf parent id := by
  obtain ⟨block, found, chosen⟩ := Option.bind_eq_some_iff.mp selected
  by_cases root : block.header.parents = ∅
  · have coloured := congrArg Colouring.selectedParent (consistent.root id block found root)
    cases chosen.symm.trans coloured
  · obtain ⟨selectedParent, kept⟩ := balanced id block found root
    cases chosen.symm.trans kept.selected
    exact ⟨block, found, kept.named⟩

/-- A parent is no tip. -/
theorem Inner.step (consistent : Consistent dag) (balanced : AllBalanced dag) (exact : dag.tips = dag.childless)
    (inner : Inner dag current) : Inner dag (current.bind (selectedParentOf dag)) := by
  intro parent reached
  obtain ⟨hash, rfl, selected⟩ := Option.bind_eq_some_iff.mp reached
  have edge := selected_parent_edge consistent balanced selected
  refine ⟨consistent.formed.stored parent hash edge, ?_⟩
  rw [exact, Dag.mem_childless]
  exact fun bare => bare.2 hash ((consistent.formed.children parent hash).mpr edge)

/-- Over blocks that are no tips, the walk ends where the selected parents do. -/
theorem walk_of_end (step : ∀ current, Inner dag current → Inner dag (current.bind (selectedParentOf dag)))
    {steps fuel depth : Nat} (ends : selectedAncestor dag steps current = none) (inner : Inner dag current)
    (fuelled : steps ≤ fuel) (shallow : depth + steps ≤ 10000) :
    ∃ walked ≤ steps, commonAncestorDepth dag dag.tips fuel current depth = .ok (depth + walked) := by
  induction steps generalizing current fuel depth with
  | zero =>
    rw [show current = none from ends]
    exact ⟨0, le_rfl, by cases fuel <;> rfl⟩
  | succ steps ih =>
    cases current with
    | none => exact ⟨0, Nat.zero_le _, by cases fuel <;> rfl⟩
    | some hash =>
      obtain ⟨fuel, rfl⟩ : ∃ less, fuel = less + 1 := ⟨fuel - 1, by omega⟩
      have next : selectedAncestor dag steps ((some hash).bind (selectedParentOf dag)) = none := ends
      obtain ⟨walked, few, went⟩ := ih next (step _ inner) (show steps ≤ fuel by omega)
        (show depth + 1 + steps ≤ 10000 by omega)
      refine ⟨walked + 1, by omega, ?_⟩
      rw [commonAncestorDepth, if_neg (inner hash rfl).2, if_neg (by omega)]
      exact went.trans (by rw [Nat.add_right_comm, Nat.add_assoc])

/-- Conversely, where the walk ends there is no selected parent. -/
theorem end_of_walk (step : ∀ current, Inner dag current → Inner dag (current.bind (selectedParentOf dag)))
    {fuel depth total : Nat} (inner : Inner dag current)
    (went : commonAncestorDepth dag dag.tips fuel current depth = .ok total) :
    depth ≤ total ∧ selectedAncestor dag (total - depth) current = none := by
  induction fuel generalizing current depth with
  | zero =>
    cases current with
    | none =>
      cases went
      exact ⟨le_rfl, selected_ancestor_none dag _⟩
    | some hash => cases went
  | succ fuel ih =>
    cases current with
    | none =>
      cases went
      exact ⟨le_rfl, selected_ancestor_none dag _⟩
    | some hash =>
      rw [commonAncestorDepth, if_neg (inner hash rfl).2] at went
      split at went
      · cases went
      · obtain ⟨deeper, ends⟩ := ih (step _ inner) went
        refine ⟨by omega, ?_⟩
        rw [show total - depth = (total - (depth + 1)) + 1 by omega]
        exact ends

/-- From a block that is no tip, a reorganisation is allowed exactly when fewer than 101 blocks
lie on its selected chain. -/
theorem can_reorganize_iff (consistent : Consistent dag) (balanced : AllBalanced dag)
    (exact : dag.tips = dag.childless) (known : id ∈ dag.blocks.keys) (inner : id ∉ dag.tips) :
    ghostDag.canReorganize dag id = .ok true ↔ selectedAncestor dag finalityDepth (some id) = none := by
  obtain ⟨block, found⟩ := Dag.get_block_isSome.mpr known
  have start : Inner dag (some id) := by
    intro hash same
    cases same
    exact ⟨known, inner⟩
  have step : ∀ current, Inner dag current → Inner dag (current.bind (selectedParentOf dag)) :=
    fun _ => Inner.step consistent balanced exact
  unfold canReorganize
  dsimp only
  rw [found, virtual_parents ghostDag known]
  dsimp only
  constructor
  · intro allowed
    cases went : commonAncestorDepth dag dag.tips 10001 (some id) 0 with
    | error error =>
      rw [went] at allowed
      cases allowed
    | ok depth =>
      rw [went] at allowed
      have shallow : depth ≤ finalityDepth := by simpa [bind, Except.bind, pure, Except.pure] using allowed
      exact selected_ancestor_ends (end_of_walk step start went).2 (by omega)
  · intro ends
    obtain ⟨walked, few, went⟩ := walk_of_end step ends start (show finalityDepth ≤ 10001 by decide)
      (show 0 + finalityDepth ≤ 10000 by decide)
    rw [went, Nat.zero_add]
    simpa [bind, Except.bind, pure, Except.pure] using few

end Walk

/-- The guard over a run. It keeps a final block that is no tip from being reorganised exactly
when the block has a hundredth ancestor along selected parents. -/
theorem guard_protects_iff (ghostDag : GhostDag) (leaves : ∀ block ∈ blocks, Leaf block)
    (known : id ∈ (ghostDag.dagOf blocks).blocks.keys) (inner : id ∉ (ghostDag.dagOf blocks).getTips)
    (threshold : UInt64) :
    (ghostDag.checkFinality (ghostDag.dagOf blocks) id threshold = true →
      ghostDag.canReorganize (ghostDag.dagOf blocks) id ≠ .ok true) ↔
    (ghostDag.checkFinality (ghostDag.dagOf blocks) id threshold = true →
      (selectedAncestor (ghostDag.dagOf blocks) 100 (some id)).isSome) := by
  refine imp_congr_right fun _ => ?_
  rw [Ne, can_reorganize_iff (dag_of_consistent ghostDag leaves) (dag_of_balanced ghostDag leaves)
    (dag_of_tips ghostDag leaves) known fun tip => inner (mem_ascending.mpr tip)]
  exact Option.isSome_iff_ne_none.symm

/-- A block whose score is too close to the virtual block's is not final, and so needs no guard. -/
theorem sibling_protected :
    (GhostDag.new 1).checkFinality ((GhostDag.new 1).dagOf diamond) (.replicate 2) 0 = false ∧
      (((GhostDag.new 1).checkFinality ((GhostDag.new 1).dagOf diamond) (.replicate 2) 0 = true →
          (GhostDag.new 1).canReorganize ((GhostDag.new 1).dagOf diamond) (.replicate 2) ≠ .ok true) ↔
        ((GhostDag.new 1).checkFinality ((GhostDag.new 1).dagOf diamond) (.replicate 2) 0 = true →
          (selectedAncestor ((GhostDag.new 1).dagOf diamond) 100 (some (.replicate 2))).isSome)) :=
  ⟨by decide +kernel,
    guard_protects_iff (GhostDag.new 1) (by decide +kernel) (by decide +kernel) (by decide +kernel) 0⟩

/-- Fourteen blocks, each on the one before. -/
def chain : List BlockNode :=
  emptyBlock 1 ∅ :: (List.range 13).map fun below =>
    emptyBlock (UInt8.ofNat (below + 2)) {.replicate (UInt8.ofNat (below + 1))}

/-- The first block of a chain of fourteen is final, and the guard would reorganise to it. -/
theorem final_block_reorganised :
    (∀ block ∈ chain, Leaf block) ∧
    .replicate 1 ∈ ((GhostDag.new 1).dagOf chain).blocks.keys ∧
    .replicate 1 ∉ ((GhostDag.new 1).dagOf chain).getTips ∧
    (GhostDag.new 1).checkFinality ((GhostDag.new 1).dagOf chain) (.replicate 1) 0 = true ∧
    (GhostDag.new 1).canReorganize ((GhostDag.new 1).dagOf chain) (.replicate 1) = .ok true := by
  decide +kernel

end Klomang.GhostDag
