import Klomang.Consensus.Reorganisation
import Klomang.Sample

/-! The virtual block over a run. All ways to pick the best block agree, since scores grow along every parent link, and
the selected parents lead from the virtual block down to the first block. -/
namespace Klomang.GhostDag

variable {ghostDag : GhostDag} {dag : Dag} {block : BlockNode} {blocks : List BlockNode} {id best : Hash}

section Selectors

theorem preferred_iff {left right : Hash × UInt64} : Preferred left right ↔ ¬ Exceeds right left := by
  unfold Preferred Exceeds
  rw [not_or, not_and, not_lt, not_lt]
  constructor
  · rintro (less | ⟨same, first⟩)
    · exact ⟨less.le, fun alike => absurd (congrArg UInt64.toNat alike) less.ne⟩
    · exact ⟨(congrArg UInt64.toNat same).le, fun _ => first⟩
  · rintro ⟨less, ties⟩
    rcases Nat.lt_or_eq_of_le less with lower | same
    · exact .inl lower
    · have alike := UInt64.toNat_inj.mp same
      exact .inr ⟨alike, ties alike⟩

theorem preferred_antisymm {left right : Hash × UInt64} (first : Preferred left right) (second : Preferred right left) :
    left.1 = right.1 := by
  rcases first with less | ⟨_, before⟩
  · rcases second with more | ⟨same, _⟩
    · exact absurd more less.not_gt
    · exact absurd (congrArg UInt64.toNat same) less.ne'
  · rcases second with more | ⟨_, after⟩
    · rename_i same
      exact absurd (congrArg UInt64.toNat same) more.ne'
    · exact le_antisymm before after

theorem exceeds_asymm (left right : Hash × UInt64) (greater : Exceeds left right) : ¬ Exceeds right left := by
  rw [← preferred_iff]
  rcases greater with more | ⟨same, before⟩
  · exact .inl more
  · exact .inr ⟨same.symm, before.le⟩

theorem exceeds_trans (left middle right : Hash × UInt64) (first : ¬ Exceeds middle left) (second : ¬ Exceeds right middle) :
    ¬ Exceeds right left := by
  rw [← preferred_iff] at first second ⊢
  exact trans_of Preferred first second

/-- `get_virtual_block` picks a block of the highest score, of these the one with the lowest hash. -/
theorem get_virtual_block_best [Blake3] (ghostDag : GhostDag) (filled : dag.blocks.keys ≠ ∅) :
    ∃ best ∈ dag.blocks.keys, ghostDag.getVirtualBlock dag = some best ∧
      ∀ id ∈ dag.blocks.keys, Preferred (best, storedScore dag best) (id, storedScore dag id) := by
  obtain ⟨known, member⟩ := Finset.nonempty_iff_ne_empty.mpr filled
  have listed : (known, storedScore dag known) ∈ _ := mem_scored.mpr ⟨Dag.mem_get_all_hashes.mpr member, member, rfl⟩
  obtain ⟨item, picked⟩ := @max_by_isSome _ Exceeds _ _ _ listed
  obtain ⟨inside, highest⟩ := max_by_best exceeds_asymm exceeds_trans picked
  obtain ⟨_, itemKnown, score⟩ := mem_scored.mp inside
  refine ⟨item.1, itemKnown, ?_, fun id here => ?_⟩
  · unfold getVirtualBlock
    cases hashes : dag.getAllHashes with
    | nil => exact absurd (Dag.mem_get_all_hashes.mpr member) (by rw [hashes]; exact List.not_mem_nil)
    | cons first rest =>
      rw [hashes] at picked
      dsimp only
      rw [picked]
      rfl
  · have atMost := highest (id, storedScore dag id) (mem_scored.mpr ⟨Dag.mem_get_all_hashes.mpr here, here, rfl⟩)
    rw [← score]
    exact preferred_iff.mpr atMost

/-- `build_virtual_block` over two blocks or more. -/
theorem build_virtual_block_eq (two : 2 ≤ dag.blocks.keys.card) (selected : ghostDag.selectParent dag dag.getTips = some best) :
    ghostDag.buildVirtualBlock dag = ⟨dag.getTips.toFinset, some best,
      (ghostDag.buildBlueSet dag best dag.getTips).1, (ghostDag.buildBlueSet dag best dag.getTips).2,
      storedScore dag best + UInt64.ofNat (ghostDag.buildBlueSet dag best dag.getTips).1.card⟩ := by
  have length : dag.getAllHashes.length = dag.blocks.keys.card := length_ascending _
  unfold buildVirtualBlock
  dsimp only
  rcases listed : dag.getAllHashes with _ | ⟨hash, _ | ⟨second, rest⟩⟩
  · rw [listed, List.length_nil] at length
    omega
  · rw [listed, List.length_singleton] at length
    omega
  · dsimp only
    rw [selected]

/-- `select_parent` does not look at the order of the parents. -/
theorem select_parent_tips (named : best ∈ dag.tips) (known : ∀ tip ∈ dag.tips, tip ∈ dag.blocks.keys)
    (highest : ∀ tip ∈ dag.tips, Preferred (best, storedScore dag best) (tip, storedScore dag tip))
    {parents : List Hash} (tips : parents.Perm dag.getTips) : ghostDag.selectParent dag parents = some best := by
  have listed : ∀ tip, tip ∈ parents ↔ tip ∈ dag.tips := fun tip => tips.mem_iff.trans mem_ascending
  obtain ⟨stored, found⟩ := Dag.get_block_isSome.mpr (known best named)
  obtain ⟨selected, picked⟩ := select_parent_isSome ghostDag ((listed best).mpr named) found
  have tip := (listed selected).mp (select_parent_mem picked)
  have preferred := select_parent_best picked ((listed best).mpr named) (known best named)
  have same : selected = best := preferred_antisymm preferred (highest selected tip)
  rw [picked, same]

/-- A block of the highest score is a tip. -/
theorem best_is_tip (consistent : Consistent dag) (balanced : AllBalanced dag) (exact : dag.tips = dag.childless)
    (fits : ScoresFit dag) (known : best ∈ dag.blocks.keys)
    (highest : ∀ id ∈ dag.blocks.keys, Preferred (best, storedScore dag best) (id, storedScore dag id)) :
    best ∈ dag.tips := by
  rw [exact, Dag.mem_childless]
  refine ⟨known, fun child edge => ?_⟩
  have above := (consistent.formed.children best child).mp edge
  have higher := balanced.score_lt consistent.formed fits above
  rcases highest child (Dag.parent_of_stored above) with less | ⟨same, _⟩
  · exact absurd less higher.not_gt
  · exact absurd (congrArg UInt64.toNat same) higher.ne'

/-- The score of the virtual block does not overflow. -/
def VirtualFits (ghostDag : GhostDag) (dag : Dag) : Prop :=
  ∀ selectedParent, (ghostDag.buildVirtualBlock dag).selectedParent = some selectedParent →
    (storedScore dag selectedParent).toNat + (ghostDag.buildVirtualBlock dag).blueSet.card < 2 ^ 64

instance (ghostDag : GhostDag) (dag : Dag) : Decidable (VirtualFits ghostDag dag) :=
  decidable_of_iff (∀ selectedParent ∈ (ghostDag.buildVirtualBlock dag).selectedParent,
    (storedScore dag selectedParent).toNat + (ghostDag.buildVirtualBlock dag).blueSet.card < 2 ^ 64) Iff.rfl

/-- The virtual block scores more than its selected parent. -/
theorem virtual_score_lt (two : 2 ≤ dag.blocks.keys.card) (selected : ghostDag.selectParent dag dag.getTips = some best)
    (known : best ∈ dag.blocks.keys) (fits : VirtualFits ghostDag dag) :
    (storedScore dag best).toNat < (ghostDag.buildVirtualBlock dag).blueScore.toNat := by
  rw [VirtualFits, build_virtual_block_eq two selected] at fits
  have room : (storedScore dag best).toNat + (ghostDag.buildBlueSet dag best dag.getTips).1.card < 2 ^ 64 := fits best rfl
  have grows := (Cluster.run_grows (rivals dag) ghostDag.k (inherited dag best, ∅) (dag.getAnticone best)).1
  rw [← build_blue_set_run ghostDag dag best dag.getTips] at grows
  have inside : best ∈ (ghostDag.buildBlueSet dag best dag.getTips).1 := by
    obtain ⟨stored, found⟩ := Dag.get_block_isSome.mpr known
    refine grows ?_
    rw [inherited_of_found found]
    exact Finset.mem_insert_self _ _
  have counted := Finset.card_pos.mpr ⟨best, inside⟩
  rw [build_virtual_block_eq two selected]
  dsimp only
  rw [UInt64.toNat_add, UInt64.toNat_ofNat', Nat.add_mod_mod, Nat.mod_eq_of_lt room]
  omega

/-- The best block over a run, where no score overflows: the scan of all blocks, the choice among the tips in any order
and the virtual block's selected parent are one tip, and the virtual block scores more than any block. -/
theorem selectors_agree [Blake3] (ghostDag : GhostDag) (leaves : ∀ block ∈ blocks, Leaf block)
    (two : 2 ≤ (ghostDag.dagOf blocks).blocks.keys.card) (fits : ScoresFit (ghostDag.dagOf blocks))
    (virtualFits : VirtualFits ghostDag (ghostDag.dagOf blocks)) :
    ∃ best ∈ (ghostDag.dagOf blocks).getTips,
      ghostDag.getVirtualBlock (ghostDag.dagOf blocks) = some best ∧
      (∀ parents : List Hash, parents.Perm (ghostDag.dagOf blocks).getTips →
        ghostDag.selectParent (ghostDag.dagOf blocks) parents = some best) ∧
      (ghostDag.buildVirtualBlock (ghostDag.dagOf blocks)).selectedParent = some best ∧
      ∀ id block, (ghostDag.dagOf blocks).getBlock id = some block →
        block.blueScore < (ghostDag.buildVirtualBlock (ghostDag.dagOf blocks)).blueScore := by
  have consistent := dag_of_consistent ghostDag leaves
  have exact := dag_of_tips ghostDag leaves
  have filled := Finset.nonempty_iff_ne_empty.mp (Finset.card_pos.mp (Nat.zero_lt_of_lt two))
  obtain ⟨best, known, picked, highest⟩ := get_virtual_block_best ghostDag filled
  have tip := best_is_tip consistent (dag_of_balanced ghostDag leaves) exact fits known highest
  have tipKnown : ∀ tip ∈ (ghostDag.dagOf blocks).tips, tip ∈ (ghostDag.dagOf blocks).blocks.keys := by
    intro tip member
    rw [exact] at member
    exact (Dag.mem_childless.mp member).1
  have selects : ∀ parents : List Hash, parents.Perm (ghostDag.dagOf blocks).getTips →
      ghostDag.selectParent (ghostDag.dagOf blocks) parents = some best :=
    fun parents tips => select_parent_tips tip tipKnown (fun other member => highest other (tipKnown other member)) tips
  have selected := selects _ (List.Perm.refl _)
  refine ⟨best, mem_ascending.mpr tip, picked, selects, ?_, fun id block found => ?_⟩
  · rw [build_virtual_block_eq two selected]
  · have above := virtual_score_lt two selected known virtualFits
    have atMost : (storedScore (ghostDag.dagOf blocks) id).toNat ≤ (storedScore (ghostDag.dagOf blocks) best).toNat := by
      rcases highest id (Dag.get_block_isSome.mp ⟨block, found⟩) with less | ⟨same, _⟩
      · exact less.le
      · exact (congrArg UInt64.toNat same).le
    rw [← stored_score_of_found found]
    exact UInt64.lt_iff_toNat_lt.mpr (atMost.trans_lt above)

theorem diamond_fits : ScoresFit ((GhostDag.new 1).dagOf diamond) := by
  have leaves : ∀ block ∈ diamond, Leaf block := by decide +kernel
  have few : ((GhostDag.new 1).dagOf diamond).blocks.keys.card < 2 ^ 32 := by decide +kernel
  exact (dag_of_balanced (GhostDag.new 1) leaves).scores_fit (dag_of_consistent (GhostDag.new 1) leaves) few

open Klomang.Sample in
theorem diamond_selected :
    ∃ best ∈ ((GhostDag.new 1).dagOf diamond).getTips,
      (GhostDag.new 1).getVirtualBlock ((GhostDag.new 1).dagOf diamond) = some best ∧
        ((GhostDag.new 1).buildVirtualBlock ((GhostDag.new 1).dagOf diamond)).selectedParent = some best := by
  have leaves : ∀ block ∈ diamond, Leaf block := by decide +kernel
  have two : 2 ≤ ((GhostDag.new 1).dagOf diamond).blocks.keys.card := by decide +kernel
  have virtualFits : VirtualFits (GhostDag.new 1) ((GhostDag.new 1).dagOf diamond) := by decide +kernel
  obtain ⟨best, tip, scanned, _, selected, _⟩ := selectors_agree (GhostDag.new 1) leaves two diamond_fits virtualFits
  exact ⟨best, tip, scanned, selected⟩

end Selectors

section Chain

/-- The selected parents from the first block up to a last one. -/
structure SelectedChain (dag : Dag) (last : Option Hash) (chain : List Hash) : Prop where
  distinct : chain.Nodup
  first : ∃ genesis block, chain.head? = some genesis ∧ dag.getBlock genesis = some block ∧ block.header.parents = ∅
  last : chain.getLast? = last
  linked : chain.IsChain fun lower upper =>
    selectedParentOf dag upper = some lower ∧ dag.ParentOf lower upper ∧ storedScore dag lower < storedScore dag upper

/-- The pointers down from a stored block end, and turned round they are a chain. -/
theorem selected_chain (consistent : Consistent dag) (balanced : AllBalanced dag) (fits : ScoresFit dag)
    (known : best ∈ dag.blocks.keys) :
    ∃ met, Pointers.Ends (selectedParentOf dag) (some best) met ∧
      Pointers.follow (selectedParentOf dag) (dag.blocks.keys.card + 1) (some best) = met ∧
      SelectedChain dag (some best) met.reverse := by
  have edge : ∀ upper lower, selectedParentOf dag upper = some lower → dag.ParentOf lower upper :=
    fun upper lower => selected_parent_edge consistent balanced
  have falls : ∀ upper lower, selectedParentOf dag upper = some lower →
      (storedScore dag lower).toNat < (storedScore dag upper).toNat :=
    fun upper lower selected => balanced.score_lt consistent.formed fits (edge upper lower selected)
  have inside : ∀ upper lower, selectedParentOf dag upper = some lower → lower ∈ dag.blocks.keys :=
    fun upper lower selected => consistent.formed.stored lower upper (edge upper lower selected)
  have ends := Pointers.follow_ends (fun id => (storedScore dag id).toNat) (fun upper _ => inside upper)
    (fun upper _ => falls upper) known (Finset.card_filter_le _ _)
  refine ⟨_, ends, rfl, ?_⟩
  have linked : (Pointers.follow (selectedParentOf dag) (dag.blocks.keys.card + 1) (some best)).reverse.IsChain
      fun lower upper => selectedParentOf dag upper = some lower :=
    List.isChain_reverse.mpr ends.linked
  refine ⟨?_, ?_, ?_, ?_⟩
  · exact List.nodup_reverse.mpr (ends.nodup (fun id => (storedScore dag id).toNat) falls)
  · have listed := ends.head
    cases last : (Pointers.follow (selectedParentOf dag) (dag.blocks.keys.card + 1) (some best)).getLast? with
    | none =>
      rw [List.getLast?_eq_none_iff.mp last] at listed
      cases listed
    | some genesis =>
      have stored : genesis ∈ dag.blocks.keys := by
        refine ends.all (· ∈ dag.blocks.keys) (fun id same => Option.some.inj same ▸ known) ?_ genesis
          (List.mem_of_getLast? last)
        exact fun upper lower _ => inside upper lower
      obtain ⟨block, found⟩ := Dag.get_block_isSome.mpr stored
      refine ⟨genesis, block, by rw [List.head?_reverse, last], found, ?_⟩
      have none := ends.last last
      by_contra inner
      obtain ⟨selectedParent, kept⟩ := balanced genesis block found inner
      rw [selectedParentOf, found] at none
      cases kept.selected.symm.trans none
  · rw [List.getLast?_reverse]
    exact ends.head
  · exact linked.imp fun lower upper selected =>
      ⟨selected, edge upper lower selected, UInt64.lt_iff_toNat_lt.mpr (falls upper lower selected)⟩

/-- Among two blocks or more the virtual block selects a stored one. -/
theorem virtual_selects (ghostDag : GhostDag) (consistent : Consistent dag) (exact : dag.tips = dag.childless)
    (two : 2 ≤ dag.blocks.keys.card) :
    ∃ best ∈ dag.blocks.keys, (ghostDag.buildVirtualBlock dag).selectedParent = some best := by
  have filled := Finset.nonempty_iff_ne_empty.mp (Finset.card_pos.mp (Nat.zero_lt_of_lt two))
  obtain ⟨tip, bare⟩ := consistent.formed.linked.childless_nonempty filled
  obtain ⟨stored, found⟩ := Dag.get_block_isSome.mpr (Dag.mem_childless.mp bare).1
  have named : tip ∈ dag.getTips := mem_ascending.mpr (exact ▸ bare)
  obtain ⟨best, selected⟩ := select_parent_isSome ghostDag named found
  refine ⟨best, (select_parent_found selected).2, ?_⟩
  rw [build_virtual_block_eq two selected]

/-- The virtual selected chain over a run, where no score overflows: the walk ends, and it lists once each the blocks
from the first one up to the virtual block's selected parent, each the selected parent and a parent of the next and of
a lower score. -/
theorem virtual_selected_chain (ghostDag : GhostDag) (leaves : ∀ block ∈ blocks, Leaf block)
    (two : 2 ≤ (ghostDag.dagOf blocks).blocks.keys.card) (fits : ScoresFit (ghostDag.dagOf blocks)) :
    (∃ met, Pointers.Ends (selectedParentOf (ghostDag.dagOf blocks))
        (ghostDag.buildVirtualBlock (ghostDag.dagOf blocks)).selectedParent met ∧
      ghostDag.getVirtualSelectedChain (ghostDag.dagOf blocks) = met.reverse) ∧
    SelectedChain (ghostDag.dagOf blocks) (ghostDag.buildVirtualBlock (ghostDag.dagOf blocks)).selectedParent
      (ghostDag.getVirtualSelectedChain (ghostDag.dagOf blocks)) := by
  have consistent := dag_of_consistent ghostDag leaves
  obtain ⟨best, known, selected⟩ := virtual_selects ghostDag consistent (dag_of_tips ghostDag leaves) two
  obtain ⟨met, ends, followed, chain⟩ := selected_chain consistent (dag_of_balanced ghostDag leaves) fits known
  have listed : ghostDag.getVirtualSelectedChain (ghostDag.dagOf blocks) = met.reverse := by
    rw [getVirtualSelectedChain, selected]
    exact congrArg List.reverse followed
  rw [selected, listed]
  exact ⟨⟨met, ends, rfl⟩, chain⟩

theorem diamond_chain :
    SelectedChain ((GhostDag.new 1).dagOf diamond)
      ((GhostDag.new 1).buildVirtualBlock ((GhostDag.new 1).dagOf diamond)).selectedParent
      ((GhostDag.new 1).getVirtualSelectedChain ((GhostDag.new 1).dagOf diamond)) := by
  have leaves : ∀ block ∈ diamond, Leaf block := by decide +kernel
  have two : 2 ≤ ((GhostDag.new 1).dagOf diamond).blocks.keys.card := by decide +kernel
  exact (virtual_selected_chain (GhostDag.new 1) leaves two diamond_fits).2

end Chain

end Klomang.GhostDag
