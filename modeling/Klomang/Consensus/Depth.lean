import Klomang.Consensus.Finality
import Klomang.Consensus.VirtualBlock
import Mathlib.Tactic.Ring

/-! How deep a final block is. A blue set holds the blue set of the selected parent, and a score adds the size of the whole
blue set to the score of the selected parent, so an old blue block counts again with every block of the selected chain. -/
namespace Klomang.GhostDag

variable {ghostDag : GhostDag} {dag : Dag} {blocks : List BlockNode} {block : BlockNode} {id lower upper : Hash}

/-- `calculate_blue_score`. -/
def calculateBlueScore (_ : GhostDag) (dag : Dag) (blockHash : Hash) : UInt64 :=
  match dag.getBlock blockHash with
  | none => 0
  | some block =>
    if block.header.parents = ∅ then 0
    else
      match block.selectedParent with
      | none => 0
      | some selectedParent => storedScore dag selectedParent + UInt64.ofNat block.blueSet.card

section Chain
variable {chain : List Hash}

/-- The score of a block with parents is the one that is calculated again. -/
theorem calculate_blue_score_stored (balanced : AllBalanced dag) (found : dag.getBlock id = some block)
    (inner : block.header.parents ≠ ∅) : ghostDag.calculateBlueScore dag id = block.blueScore := by
  obtain ⟨selectedParent, kept⟩ := balanced id block found inner
  rw [calculateBlueScore, found]
  dsimp only
  rw [if_neg inner, kept.selected]
  exact kept.score.symm

/-- A block stores all that its selected parent hands on, and its score is that of its selected parent and one for every
blue block. -/
theorem selected_link (consistent : Consistent dag) (balanced : AllBalanced dag) (fits : ScoresFit dag)
    (selected : selectedParentOf dag upper = some lower) :
    ∃ block, dag.getBlock upper = some block ∧ inherited dag lower ⊆ block.blueSet ∧
      (storedScore dag upper).toNat = (storedScore dag lower).toNat + block.blueSet.card := by
  obtain ⟨block, found, named⟩ := selected_parent_edge consistent balanced selected
  obtain ⟨selectedParent, kept⟩ := balanced upper block found (Finset.ne_empty_of_mem named)
  have same : selectedParent = lower := by
    rw [selectedParentOf, found, Option.bind_some, kept.selected] at selected
    exact Option.some.inj selected
  subst same
  refine ⟨block, found, kept.inherits, ?_⟩
  rw [stored_score_of_found found]
  exact kept.score_nat fits found

/-- The last block of a chain of selected parents hands on the whole chain. -/
theorem chain_inherited (consistent : Consistent dag) (balanced : AllBalanced dag) (fits : ScoresFit dag)
    (linked : chain.IsChain fun lower upper => selectedParentOf dag upper = some lower)
    (last : chain.getLast? = some id) (known : id ∈ dag.blocks.keys) : chain.toFinset ⊆ inherited dag id := by
  induction chain using List.reverseRecOn generalizing id with
  | nil => cases last
  | append_singleton before newest ih =>
    rw [List.getLast?_concat, Option.some.injEq] at last
    subst last
    obtain ⟨stored, found⟩ := Dag.get_block_isSome.mpr known
    rw [List.toFinset_append, inherited_of_found found]
    refine Finset.union_subset (fun older member => Finset.mem_insert_of_mem ?_) (by simp)
    obtain ⟨linkedBefore, _, joined⟩ := List.isChain_append.mp linked
    obtain ⟨lower, lowest⟩ : ∃ lower, before.getLast? = some lower :=
      Option.isSome_iff_exists.mp (List.getLast?_isSome.mpr (List.ne_nil_of_mem (List.mem_toFinset.mp member)))
    have selected := joined lower lowest newest rfl
    obtain ⟨block, alsoFound, inherits, _⟩ := selected_link consistent balanced fits selected
    rw [found] at alsoFound
    cases alsoFound
    have stored := consistent.formed.stored lower newest (selected_parent_edge consistent balanced selected)
    exact inherits (ih linkedBefore lowest stored member)

/-- The scores along a chain of selected parents grow by one more at each block than at the one before. -/
theorem chain_scores (consistent : Consistent dag) (balanced : AllBalanced dag) (fits : ScoresFit dag)
    (linked : chain.IsChain fun lower upper => selectedParentOf dag upper = some lower) (distinct : chain.Nodup)
    {i j : Nat} (between : i ≤ j) (here : chain[i]? = some lower) (there : chain[j]? = some upper) :
    2 * (storedScore dag lower).toNat + j * (j + 1) ≤ 2 * (storedScore dag upper).toNat + i * (i + 1) := by
  induction j, between using Nat.le_induction generalizing upper with
  | base =>
    rw [here] at there
    cases there
    exact le_rfl
  | succ j between ih =>
    obtain ⟨within, rfl⟩ := List.getElem?_eq_some_iff.mp there
    have short : j < chain.length := by omega
    have below := ih (List.getElem?_eq_getElem short)
    have selected : selectedParentOf dag chain[j + 1] = some chain[j] := linked.getElem j within
    obtain ⟨block, found, inherits, score⟩ := selected_link consistent balanced fits selected
    have cut : (chain.take (j + 1)).getLast? = some chain[j] := by
      rw [List.getLast?_take, if_neg (Nat.succ_ne_zero j), Nat.add_sub_cancel, List.getElem?_eq_getElem short]
      rfl
    have known := consistent.formed.stored _ _ (selected_parent_edge consistent balanced selected)
    have whole := chain_inherited consistent balanced fits (linked.take (j + 1)) cut known
    have counted := Finset.card_le_card (whole.trans inherits)
    rw [List.toFinset_card_of_nodup (distinct.sublist (List.take_sublist _ _)), List.length_take,
      Nat.min_eq_left within.le] at counted
    have triangle : (j + 1) * (j + 1 + 1) = j * (j + 1) + 2 * (j + 1) := by ring
    omega

/-- The virtual block is linked to its selected parent as a stored block is. -/
theorem virtual_link (ghostDag : GhostDag) (consistent : Consistent dag) (exact : dag.tips = dag.childless)
    (two : 2 ≤ dag.blocks.keys.card) (virtualFits : VirtualFits ghostDag dag) :
    ∃ best ∈ dag.blocks.keys, (ghostDag.buildVirtualBlock dag).selectedParent = some best ∧
      inherited dag best ⊆ (ghostDag.buildVirtualBlock dag).blueSet ∧
      ghostDag.virtualScore dag = (storedScore dag best).toNat + (ghostDag.buildVirtualBlock dag).blueSet.card := by
  have filled := Finset.nonempty_iff_ne_empty.mp (Finset.card_pos.mp (Nat.zero_lt_of_lt two))
  obtain ⟨tip, bare⟩ := consistent.formed.linked.childless_nonempty filled
  obtain ⟨stored, found⟩ := Dag.get_block_isSome.mpr (Dag.mem_childless.mp bare).1
  have named : tip ∈ dag.getTips := mem_ascending.mpr (exact ▸ bare)
  obtain ⟨best, selected⟩ := select_parent_isSome ghostDag named found
  rw [VirtualFits, build_virtual_block_eq two selected] at virtualFits
  have room := virtualFits best rfl
  rw [virtualScore, build_virtual_block_eq two selected]
  refine ⟨best, (select_parent_found selected).2, rfl, ?_, ?_⟩
  · exact build_blue_set_run ghostDag dag best dag.getTips ▸
      (Cluster.run_grows (rivals dag) ghostDag.k (inherited dag best, ∅) (dag.getAnticone best)).1
  · rw [UInt64.toNat_add, UInt64.toNat_ofNat', Nat.add_mod_mod, Nat.mod_eq_of_lt room]

/-- What a run's virtual selected chain is worth: from a block of it to the virtual block the score grows, with every block
on the way, by at least the number of blocks of the chain below that one. -/
theorem chain_lead (ghostDag : GhostDag) (leaves : ∀ block ∈ blocks, Leaf block)
    (two : 2 ≤ (ghostDag.dagOf blocks).blocks.keys.card) (fits : ScoresFit (ghostDag.dagOf blocks))
    (virtualFits : VirtualFits ghostDag (ghostDag.dagOf blocks)) {i : Nat}
    (listed : (ghostDag.getVirtualSelectedChain (ghostDag.dagOf blocks))[i]? = some id) :
    (ghostDag.getVirtualSelectedChain (ghostDag.dagOf blocks)).length *
        ((ghostDag.getVirtualSelectedChain (ghostDag.dagOf blocks)).length + 1) ≤
      2 * ghostDag.lead (ghostDag.dagOf blocks) id + i * (i + 1) := by
  have consistent := dag_of_consistent ghostDag leaves
  have balanced := dag_of_balanced ghostDag leaves
  obtain ⟨best, known, selected, inherits, score⟩ :=
    virtual_link ghostDag consistent (dag_of_tips ghostDag leaves) two virtualFits
  obtain ⟨met, _, followed, chained⟩ := selected_chain consistent balanced fits known
  have walked : ghostDag.getVirtualSelectedChain (ghostDag.dagOf blocks) = met.reverse := by
    rw [getVirtualSelectedChain, selected]
    exact congrArg List.reverse followed
  rw [walked] at listed ⊢
  have linked := chained.linked.imp fun lower upper link => link.1
  obtain ⟨within, _⟩ := List.getElem?_eq_some_iff.mp listed
  obtain ⟨below, length⟩ : ∃ below, met.reverse.length = below + 1 := ⟨met.reverse.length - 1, by omega⟩
  have top : met.reverse[below]? = some best := by
    rw [← chained.last, List.getLast?_eq_getElem?, length, Nat.add_sub_cancel]
  have climbed := chain_scores consistent balanced fits linked chained.distinct (by omega) listed top
  have counted := Finset.card_le_card ((chain_inherited consistent balanced fits linked chained.last known).trans inherits)
  rw [List.toFinset_card_of_nodup chained.distinct] at counted
  have triangle : (below + 1) * (below + 1 + 1) = below * (below + 1) + 2 * (below + 1) := by ring
  rw [lead, score]
  rw [length] at counted ⊢
  omega

/-- Blocks become final early. A block of the virtual selected chain is final as soon as the chain has thirteen blocks
above it, and once the chain has a hundred blocks all of it is final, the newest block included. -/
theorem finality_comes_early (ghostDag : GhostDag) (leaves : ∀ block ∈ blocks, Leaf block)
    (two : 2 ≤ (ghostDag.dagOf blocks).blocks.keys.card) (fits : ScoresFit (ghostDag.dagOf blocks))
    (virtualFits : VirtualFits ghostDag (ghostDag.dagOf blocks)) {i : Nat}
    (listed : (ghostDag.getVirtualSelectedChain (ghostDag.dagOf blocks))[i]? = some id)
    (deep : i + 13 < (ghostDag.getVirtualSelectedChain (ghostDag.dagOf blocks)).length ∨
      finalityDepth ≤ (ghostDag.getVirtualSelectedChain (ghostDag.dagOf blocks)).length)
    {threshold : UInt64} (low : threshold.toNat ≤ finalityDepth) :
    ghostDag.checkFinality (ghostDag.dagOf blocks) id threshold = true := by
  have ahead := chain_lead ghostDag leaves two fits virtualFits listed
  have within := (List.getElem?_eq_some_iff.mp listed).1
  rw [check_finality_iff, max_eq_right low]
  rw [finalityDepth] at deep ⊢
  generalize (ghostDag.getVirtualSelectedChain (ghostDag.dagOf blocks)).length = length at *
  rcases deep with above | long
  · have triangle : (i + 14) * (i + 14 + 1) = i * (i + 1) + 28 * i + 210 := by ring
    have grows : (i + 14) * (i + 14 + 1) ≤ length * (length + 1) := Nat.mul_le_mul (by omega) (by omega)
    omega
  · obtain ⟨below, rfl⟩ : ∃ below, length = below + 1 := ⟨length - 1, by omega⟩
    have triangle : (below + 1) * (below + 1 + 1) = below * (below + 1) + 2 * (below + 1) := by ring
    have grows : i * (i + 1) ≤ below * (below + 1) := Nat.mul_le_mul (by omega) (by omega)
    omega

end Chain

/-- The first of fourteen blocks is final. -/
theorem chain_start_final : (GhostDag.new 1).checkFinality ((GhostDag.new 1).dagOf chain) (.replicate 1) 100 = true := by
  have leaves : ∀ block ∈ chain, Leaf block := by decide +kernel
  obtain ⟨count, virtualFits, first, length⟩ : ((GhostDag.new 1).dagOf chain).blocks.keys.card = 14 ∧
      VirtualFits (GhostDag.new 1) ((GhostDag.new 1).dagOf chain) ∧
      ((GhostDag.new 1).getVirtualSelectedChain ((GhostDag.new 1).dagOf chain))[0]? = some (.replicate 1) ∧
      ((GhostDag.new 1).getVirtualSelectedChain ((GhostDag.new 1).dagOf chain)).length = 14 := by decide +kernel
  have fits : ScoresFit ((GhostDag.new 1).dagOf chain) :=
    (dag_of_balanced (GhostDag.new 1) leaves).scores_fit (dag_of_consistent (GhostDag.new 1) leaves) (by omega)
  exact finality_comes_early (GhostDag.new 1) leaves (by omega) fits virtualFits first (.inl (by omega)) (by decide)

end Klomang.GhostDag
