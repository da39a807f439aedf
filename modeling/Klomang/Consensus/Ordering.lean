import Klomang.Consensus.Clusters

/-! The consensus order. What `process_block` does not revisit keeps its equations with its
parents, so scores grow along every parent link and sorting by score puts ancestors first. -/
namespace Klomang.GhostDag

open Dag (WellFormed SameShape Grown Fits)

variable {ghostDag : GhostDag} {dag after other : Dag} {block stored : BlockNode} {id node selectedParent : Hash}
  {blocks : List BlockNode}

section Selecting

instance : Std.Total Preferred where
  total left right := by
    unfold Preferred
    rcases Nat.lt_trichotomy left.2.toNat right.2.toNat with less | same | more
    · exact .inr (.inl less)
    · have scores := UInt64.toNat_inj.mp same
      rcases le_total left.1 right.1 with first | second
      · exact .inl (.inr ⟨scores.symm, first⟩)
      · exact .inr (.inr ⟨scores, second⟩)
    · exact .inl (.inl more)

instance : IsTrans (Hash × UInt64) Preferred where
  trans left middle right := by
    rintro (more | ⟨same, first⟩) (further | ⟨alike, second⟩)
    · exact .inl (further.trans more)
    · exact .inl (alike ▸ more)
    · exact .inl (same ▸ further)
    · exact .inr ⟨alike.trans same, first.trans second⟩

/-- `select_parent` picks a parent of the highest score, of these the one with the lowest hash. -/
theorem select_parent_best {parents : List Hash} (selected : ghostDag.selectParent dag parents = some selectedParent)
    {parent : Hash} (named : parent ∈ parents) (known : parent ∈ dag.blocks.keys) :
    Preferred (selectedParent, storedScore dag selectedParent) (parent, storedScore dag parent) := by
  obtain ⟨pair, first, rfl⟩ := Option.map_eq_some_iff.mp selected
  have listed : (parent, storedScore dag parent) ∈ _ := mem_scored.mpr ⟨named, known, rfl⟩
  have own := (mem_scored.mp ((List.mem_insertionSort _).mp (List.mem_of_mem_head? first))).2.2
  have sorted := List.pairwise_insertionSort Preferred
    (parents.filterMap fun hash => (dag.getBlock hash).map fun block => (hash, block.blueScore))
  rw [← own]
  rw [← List.mem_insertionSort Preferred] at listed
  obtain ⟨rest, shape⟩ := List.head?_eq_some_iff.mp first
  rw [shape] at sorted listed
  rcases List.mem_cons.mp listed with same | later
  · rw [← same]
    exact refl_of Preferred _
  · exact (List.pairwise_cons.mp sorted).1 _ later

end Selecting

section Balancing

/-- What a block with parents stores: the best of its parents, a blue set with that parent and
all its blue blocks, and the score of that parent plus the size of the blue set. -/
structure Balanced (dag : Dag) (block : BlockNode) (selectedParent : Hash) : Prop where
  selected : block.selectedParent = some selectedParent
  named : selectedParent ∈ block.header.parents
  best : ∀ parent ∈ block.header.parents,
    Preferred (selectedParent, storedScore dag selectedParent) (parent, storedScore dag parent)
  inherits : inherited dag selectedParent ⊆ block.blueSet
  score : block.blueScore = storedScore dag selectedParent + UInt64.ofNat block.blueSet.card

/-- A settled block is balanced. -/
theorem Settled.balanced (settled : ghostDag.Settled dag id) (formed : dag.WellFormed)
    (found : dag.getBlock id = some block) (inner : block.header.parents ≠ ∅) :
    ∃ selectedParent, Balanced dag block selectedParent := by
  obtain ⟨selectedParent, selected, equation⟩ := Option.map_eq_some_iff.mp ((settled block found).2 inner)
  have parent := (congrArg Colouring.selectedParent equation).symm
  have blue := (congrArg Colouring.blueSet equation).symm
  have score := (congrArg Colouring.blueScore equation).symm
  refine ⟨selectedParent, parent, mem_ascending.mp (select_parent_mem selected), fun other named => ?_, ?_, ?_⟩
  · exact select_parent_best selected (mem_ascending.mpr named) (formed.stored other id ⟨block, found, named⟩)
  · refine subset_of_subset_of_eq ?_ blue.symm
    exact (Cluster.run_grows (rivals dag) ghostDag.k (inherited dag selectedParent, ∅) (dag.getAnticone selectedParent)).1
  · apply score.trans
    rw [show block.blueSet = _ from blue]
    rfl

/-- A block stays balanced while its own colouring and its parents' stay. -/
theorem Balanced.congr (balanced : Balanced dag block selectedParent) (header : stored.header = block.header)
    (own : stored.colouring = block.colouring)
    (parents : ∀ parent ∈ block.header.parents, colouringAt after parent = colouringAt dag parent) :
    Balanced after stored selectedParent := by
  obtain ⟨selected, named, best, inherits, score⟩ := balanced
  have blue : stored.blueSet = block.blueSet := congrArg Colouring.blueSet own
  have sameScore := stored_score_congr (parents selectedParent named)
  refine ⟨(congrArg Colouring.selectedParent own).trans selected, header ▸ named, fun parent listed => ?_, ?_, ?_⟩
  · rw [header] at listed
    rw [sameScore, stored_score_congr (parents parent listed)]
    exact best parent listed
  · rw [blue, inherited_congr (parents selectedParent named)]
    exact inherits
  · rw [sameScore, blue]
    exact (congrArg Colouring.blueScore own).trans score

/-- Every block with parents is balanced. -/
def AllBalanced (dag : Dag) : Prop :=
  ∀ id block, dag.getBlock id = some block → block.header.parents ≠ ∅ →
    ∃ selectedParent, Balanced dag block selectedParent

/-- After `process_block` a block is settled, or neither it nor a parent of it was touched. -/
theorem Processed.settled_or_kept (processed : Processed ghostDag dag block id after)
    (found : dag.getBlock id = some block)
    (first : block.header.parents = ∅ → (∃ child, dag.ParentOf id child) → block.colouring = rootColouring)
    (there : after.getBlock node = some stored) :
    ghostDag.Settled after node ∨ dag.getBlock node = some stored ∧
      ∀ parent ∈ stored.header.parents, colouringAt after parent = colouringAt dag parent := by
  by_cases visited : node = id ∨ AtOrAbove dag block.header.parents node
  · exact .inl (processed.settled node visited)
  obtain ⟨different, free⟩ := not_or.mp visited
  have before : dag.getBlock node = some stored := (processed.kept node different free).symm.trans there
  refine .inr ⟨before, fun parent named => ?_⟩
  have edge : dag.ParentOf parent node := ⟨stored, before, named⟩
  by_cases same : parent = id
  · subst same
    by_cases root : block.header.parents = ∅
    · obtain ⟨counterpart, counterFound, header, _⟩ := processed.shape.find found
      have coloured := processed.consistent.root parent counterpart counterFound (header ▸ root)
      rw [colouringAt, colouringAt, found, counterFound, Option.map_some, Option.map_some, coloured,
        first root ⟨node, edge⟩]
    · -- a block above the new block is above its parents
      obtain ⟨above, aboveNamed⟩ := Finset.nonempty_iff_ne_empty.mpr root
      have step : dag.Past above parent := .single ⟨block, found, aboveNamed⟩
      exact absurd ⟨above, aboveNamed, .inr (step.tail edge)⟩ free
  · rw [colouringAt, colouringAt, processed.kept parent same]
    rintro ⟨above, aboveNamed, rfl | path⟩
    · exact free ⟨parent, aboveNamed, .inr (.single edge)⟩
    · exact free ⟨above, aboveNamed, .inr (path.tail edge)⟩

theorem Processed.balanced (processed : Processed ghostDag dag block id after)
    (found : dag.getBlock id = some block)
    (first : block.header.parents = ∅ → (∃ child, dag.ParentOf id child) → block.colouring = rootColouring)
    (balanced : ∀ node ≠ id, ∀ stored, dag.getBlock node = some stored → stored.header.parents ≠ ∅ →
      ∃ selectedParent, Balanced dag stored selectedParent) : AllBalanced after := by
  intro node stored there inner
  by_cases same : node = id
  · exact (processed.settled node (.inl same)).balanced processed.consistent.formed there inner
  rcases processed.settled_or_kept found first there with settled | ⟨before, parents⟩
  · exact settled.balanced processed.consistent.formed there inner
  · obtain ⟨selectedParent, kept⟩ := balanced node same stored before inner
    exact ⟨selectedParent, kept.congr rfl rfl parents⟩

/-- After `add_block` the older blocks are as balanced as they were. -/
theorem balanced_added (consistent : Consistent dag) (fits : dag.Fits block) (balanced : AllBalanced dag) :
    ∀ node ≠ block.header.id, ∀ stored, (dag.addBlock block).2.getBlock node = some stored →
      stored.header.parents ≠ ∅ → ∃ selectedParent, Balanced (dag.addBlock block).2 stored selectedParent := by
  intro node different stored there inner
  have looked := there
  rw [fits.get_block, if_neg different] at looked
  obtain ⟨before, found, rewritten⟩ := Option.map_eq_some_iff.mp looked
  have header : stored.header = before.header := by
    rw [← rewritten]
    split <;> rfl
  have colouring : stored.colouring = before.colouring := by
    rw [← rewritten]
    split <;> rfl
  rw [header] at inner
  obtain ⟨selectedParent, kept⟩ := balanced node before found inner
  refine ⟨selectedParent, kept.congr header colouring fun parent named => ?_⟩
  refine added_keeps fits parent fun same => fits.absent ?_
  exact same ▸ consistent.formed.stored parent node ⟨before, found, named⟩

/-- Every block is balanced after a block has come in. -/
theorem receive_balanced (ghostDag : GhostDag) (consistent : Consistent dag) (leaf : Leaf block)
    (balanced : AllBalanced dag) : AllBalanced (ghostDag.receive dag block) := by
  rcases receive_cases ghostDag consistent leaf with ⟨fits, processed⟩ | ⟨stored, found, _, processed⟩ | ⟨_, same⟩
  · have found : (dag.addBlock block).2.getBlock block.header.id = some block := by
      rw [fits.get_block, if_pos rfl]
    refine processed.balanced found ?_ (balanced_added consistent fits balanced)
    rintro _ ⟨child, edge⟩
    exact absurd (.single edge) (fits.grown.new_in_no_past consistent.formed)
  · exact processed.balanced found (fun root _ => consistent.root _ stored found root)
      fun node _ => balanced node
  · rw [same]
    exact balanced

/-- Every block of every graph reached is balanced. -/
theorem dag_of_balanced (ghostDag : GhostDag) (leaves : ∀ block ∈ blocks, Leaf block) :
    AllBalanced (ghostDag.dagOf blocks) := by
  have both : Consistent (ghostDag.dagOf blocks) ∧ AllBalanced (ghostDag.dagOf blocks) :=
    Runs.run_invariant (fun dag => Consistent dag ∧ AllBalanced dag) Leaf
    ⟨consistent_new, fun id block found => nomatch found⟩
    (fun dag block leaf kept => ⟨receive_consistent ghostDag kept.1 leaf, receive_balanced ghostDag kept.1 leaf kept.2⟩)
    blocks leaves
  exact both.2

end Balancing

section Scores

/-- No score of the graph overflows. -/
def ScoresFit (dag : Dag) : Prop :=
  ∀ id block selectedParent, dag.getBlock id = some block → block.selectedParent = some selectedParent →
    (storedScore dag selectedParent).toNat + block.blueSet.card < 2 ^ 64

theorem Balanced.score_nat (balanced : Balanced dag block selectedParent) (fits : ScoresFit dag)
    (found : dag.getBlock id = some block) :
    block.blueScore.toNat = (storedScore dag selectedParent).toNat + block.blueSet.card := by
  have room := fits id block selectedParent found balanced.selected
  rw [balanced.score, UInt64.toNat_add, UInt64.toNat_ofNat', Nat.add_mod_mod, Nat.mod_eq_of_lt room]

/-- A block scores more than each of its parents. -/
theorem AllBalanced.score_lt (balanced : AllBalanced dag) (formed : dag.WellFormed) (fits : ScoresFit dag)
    {parent child : Hash} (edge : dag.ParentOf parent child) :
    (storedScore dag parent).toNat < (storedScore dag child).toNat := by
  obtain ⟨block, found, named⟩ := edge
  obtain ⟨selectedParent, kept⟩ := balanced child block found (Finset.ne_empty_of_mem named)
  obtain ⟨parentBlock, parentFound⟩ := Dag.get_block_isSome.mpr (formed.stored _ _ ⟨block, found, kept.named⟩)
  have counted : 0 < block.blueSet.card := by
    refine Finset.card_pos.mpr ⟨selectedParent, kept.inherits ?_⟩
    rw [inherited, parentFound]
    exact Finset.mem_insert_self _ _
  have best : (storedScore dag parent).toNat ≤ (storedScore dag selectedParent).toNat := by
    rcases kept.best parent named with less | ⟨same, _⟩
    · exact less.le
    · exact (congrArg UInt64.toNat same).le
  rw [stored_score_of_found found, kept.score_nat fits found]
  omega

theorem AllBalanced.score_lt_of_past (balanced : AllBalanced dag) (formed : dag.WellFormed) (fits : ScoresFit dag)
    {ancestor descendant : Hash} (path : dag.Past ancestor descendant) :
    (storedScore dag ancestor).toNat < (storedScore dag descendant).toNat := by
  induction path with
  | single edge => exact balanced.score_lt formed fits edge
  | tail _ edge ih => exact ih.trans (balanced.score_lt formed fits edge)

instance (dag : Dag) : Std.Total (ScoreOrder dag) where
  total left right := by
    unfold ScoreOrder
    rcases Nat.lt_trichotomy (storedScore dag left).toNat (storedScore dag right).toNat with less | same | more
    · exact .inl (.inl less)
    · have scores := UInt64.toNat_inj.mp same
      rcases le_total left right with first | second
      · exact .inl (.inr ⟨scores, first⟩)
      · exact .inr (.inr ⟨scores.symm, second⟩)
    · exact .inr (.inl more)

instance (dag : Dag) : IsTrans Hash (ScoreOrder dag) where
  trans left middle right := by
    rintro (less | ⟨same, first⟩) (further | ⟨alike, second⟩)
    · exact .inl (less.trans further)
    · exact .inl (alike ▸ less)
    · exact .inl (same ▸ further)
    · exact .inr ⟨same.trans alike, first.trans second⟩

/-- The blocks of a graph, once each and ancestors first. -/
abbrev ListsAncestorsFirst (dag : Dag) : List Hash → Prop :=
  TopologicalOrder.Listing dag.blocks.keys fun node => (dag.getAncestors node).toFinset

/-- Sorting by score puts ancestors first where descendants score more. -/
theorem get_ordering_listing (ghostDag : GhostDag)
    (ascends : ∀ ancestor descendant, dag.Past ancestor descendant →
      (storedScore dag ancestor).toNat < (storedScore dag descendant).toNat) :
    ListsAncestorsFirst dag (ghostDag.getOrdering dag) := by
  refine TopologicalOrder.listing_of_scores (fun node => (storedScore dag node).toNat) ?_ ?_ ?_ ?_
  · exact (List.perm_insertionSort _ _).nodup_iff.mpr (ascending_nodup dag.blocks.keys)
  · intro node
    rw [getOrdering, List.mem_insertionSort, Dag.mem_get_all_hashes]
  · refine (List.pairwise_insertionSort (ScoreOrder dag) dag.getAllHashes).imp ?_
    rintro before after (less | ⟨same, _⟩)
    · exact less.le
    · exact (congrArg UInt64.toNat same).le
  · intro node _ source ancestor
    exact ascends source node (Dag.mem_get_ancestors_iff_past.mp (List.mem_toFinset.mp ancestor))

/-- The blocks that parent links lead to from a block. -/
def ancestorSet (dag : Dag) (id : Hash) : Finset Hash := (dag.getAncestors id).toFinset

theorem mem_ancestor_set : node ∈ ancestorSet dag id ↔ dag.Past node id := by
  rw [ancestorSet, List.mem_toFinset, Dag.mem_get_ancestors_iff_past]

theorem ancestor_set_grows (formed : dag.WellFormed) (edge : dag.ParentOf node id) :
    (ancestorSet dag node).card + 1 ≤ (ancestorSet dag id).card := by
  have outside : node ∉ ancestorSet dag node := fun own => formed.past_irreflexive node (mem_ancestor_set.mp own)
  have within : Insert.insert node (ancestorSet dag node) ⊆ ancestorSet dag id := by
    intro ancestor member
    rw [mem_ancestor_set]
    rcases Finset.mem_insert.mp member with rfl | older
    · exact .single edge
    · exact (mem_ancestor_set.mp older).tail edge
  have counted := Finset.card_le_card within
  rwa [Finset.card_insert_of_notMem outside] at counted

/-- A score grows by at most the number of blocks with each generation. -/
theorem AllBalanced.score_le (balanced : AllBalanced dag) (consistent : Consistent dag) (id : Hash) :
    (storedScore dag id).toNat ≤ 1 + dag.blocks.keys.card * (ancestorSet dag id).card := by
  obtain ⟨rank, ranked⟩ := consistent.formed.ranked
  induction hypothesis : rank id using Nat.strong_induction_on generalizing id with
  | _ bound ih =>
    cases found : dag.getBlock id with
    | none =>
      rw [storedScore, found]
      exact Nat.zero_le _
    | some block =>
      rw [stored_score_of_found found]
      by_cases root : block.header.parents = ∅
      · have score : block.blueScore = 1 := congrArg Colouring.blueScore (consistent.root id block found root)
        rw [score]
        exact Nat.le_add_right 1 _
      · obtain ⟨selectedParent, kept⟩ := balanced id block found root
        have edge : dag.ParentOf selectedParent id := ⟨block, found, kept.named⟩
        have below := ih (rank selectedParent) (hypothesis ▸ ranked _ _ edge) selectedParent rfl
        have blue := Finset.card_le_card (consistent.within id block found).1
        have deeper := Nat.mul_le_mul_left dag.blocks.keys.card (ancestor_set_grows consistent.formed edge)
        rw [Nat.mul_add, Nat.mul_one] at deeper
        have wrapped : block.blueScore.toNat ≤ (storedScore dag selectedParent).toNat + block.blueSet.card := by
          rw [kept.score, UInt64.toNat_add, UInt64.toNat_ofNat', Nat.add_mod_mod]
          exact Nat.mod_le _ _
        omega

/-- With fewer than 2^32 blocks no score overflows. -/
theorem AllBalanced.scores_fit (balanced : AllBalanced dag) (consistent : Consistent dag)
    (few : dag.blocks.keys.card < 2 ^ 32) : ScoresFit dag := by
  intro id block selectedParent found selected
  have blue := Finset.card_le_card (consistent.within id block found).1
  have score := balanced.score_le consistent selectedParent
  have depth : (ancestorSet dag selectedParent).card ≤ dag.blocks.keys.card := by
    apply Finset.card_le_card
    intro ancestor member
    exact consistent.formed.past_stored (mem_ancestor_set.mp member)
  have product : dag.blocks.keys.card * (ancestorSet dag selectedParent).card ≤ (2 ^ 32 - 1) * (2 ^ 32 - 1) :=
    Nat.mul_le_mul (Nat.le_sub_one_of_lt few) (depth.trans (Nat.le_sub_one_of_lt few))
  omega

/-- The consensus order over a run, where no score overflows: blocks with parents are balanced,
scores grow along every parent link, and both orderings list every block once, ancestors first. -/
theorem ordering_respects_ancestry (ghostDag : GhostDag) (leaves : ∀ block ∈ blocks, Leaf block)
    (fits : ScoresFit (ghostDag.dagOf blocks)) :
    (∀ id block, (ghostDag.dagOf blocks).getBlock id = some block → block.header.parents ≠ ∅ →
      ∃ selectedParent, Balanced (ghostDag.dagOf blocks) block selectedParent ∧
        block.blueScore.toNat = (storedScore (ghostDag.dagOf blocks) selectedParent).toNat + block.blueSet.card) ∧
    (∀ parent child, (ghostDag.dagOf blocks).ParentOf parent child →
      storedScore (ghostDag.dagOf blocks) parent < storedScore (ghostDag.dagOf blocks) child) ∧
    ListsAncestorsFirst (ghostDag.dagOf blocks) (ghostDag.getOrdering (ghostDag.dagOf blocks)) ∧
    ListsAncestorsFirst (ghostDag.dagOf blocks) (ghostDag.getVirtualOrdering (ghostDag.dagOf blocks)) := by
  have formed := (dag_of_consistent ghostDag leaves).formed
  have balanced := dag_of_balanced ghostDag leaves
  have listing : ListsAncestorsFirst (ghostDag.dagOf blocks) (ghostDag.getOrdering (ghostDag.dagOf blocks)) :=
    get_ordering_listing ghostDag fun _ _ path => balanced.score_lt_of_past formed fits path
  refine ⟨fun id block found inner => ?_, fun parent child edge => ?_, listing, listing⟩
  · obtain ⟨selectedParent, kept⟩ := balanced id block found inner
    exact ⟨selectedParent, kept, kept.score_nat fits found⟩
  · exact UInt64.lt_iff_toNat_lt.mpr (balanced.score_lt formed fits edge)

theorem diamond_ordered :
    ListsAncestorsFirst ((GhostDag.new 1).dagOf diamond) ((GhostDag.new 1).getOrdering ((GhostDag.new 1).dagOf diamond)) := by
  have leaves : ∀ block ∈ diamond, Leaf block := by decide +kernel
  have few : ((GhostDag.new 1).dagOf diamond).blocks.keys.card < 2 ^ 32 := by decide +kernel
  have fits := (dag_of_balanced (GhostDag.new 1) leaves).scores_fit (dag_of_consistent (GhostDag.new 1) leaves) few
  exact (ordering_respects_ancestry (GhostDag.new 1) leaves fits).2.2.1

end Scores
end Klomang.GhostDag
