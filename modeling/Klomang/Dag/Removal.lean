import Klomang.Dag.Tips

/-! Removing several blocks. The order of the removals does not matter; and removing what was added gives back the blocks
and the links, but not the tips that the added blocks covered. -/
namespace Klomang

/-- The block without any of these among its parents and children. -/
def BlockNode.detachAll (block : BlockNode) (ids : Finset Hash) : BlockNode :=
  { block with
    header := { block.header with parents := block.header.parents \ ids }
    children := block.children \ ids }

theorem BlockNode.detach_all_empty (block : BlockNode) : block.detachAll ∅ = block := by
  rw [detachAll, Finset.sdiff_empty, Finset.sdiff_empty]

theorem BlockNode.detach_detach_all (block : BlockNode) (ids : Finset Hash) (id : Hash) :
    (block.detachAll ids).detach id = block.detachAll (insert id ids) := by
  simp only [detachAll, detach, Finset.sdiff_insert]

namespace Dag
variable {dag other : Dag} {block : BlockNode} {id node : Hash}

/-- `remove_block` for one id after the other. -/
def removeAll (dag : Dag) (ids : List Hash) : Dag := Runs.run removeBlock dag ids

/-- `add_block` for one block after the other. -/
def addAll (dag : Dag) (blocks : List BlockNode) : Dag := Runs.run (fun dag block => (dag.addBlock block).2) dag blocks

theorem remove_all_snoc (dag : Dag) (ids : List Hash) (id : Hash) :
    dag.removeAll (ids ++ [id]) = (dag.removeAll ids).removeBlock id := Runs.run_snoc id

theorem add_all_snoc (dag : Dag) (blocks : List BlockNode) (block : BlockNode) :
    dag.addAll (blocks ++ [block]) = ((dag.addAll blocks).addBlock block).2 := Runs.run_snoc block

theorem dag_ext (blocks : ∀ id, dag.getBlock id = other.getBlock id) (tips : dag.tips = other.tips) : dag = other := by
  cases dag
  cases other
  have same : _ = _ := Finmap.ext_lookup blocks
  dsimp only at same tips
  rw [same, tips]

section Tips

/-- Only stored blocks are tips. -/
def TipsStored (dag : Dag) : Prop := dag.tips ⊆ dag.blocks.keys

theorem TipsStored.add (stored : dag.TipsStored) (fits : dag.Fits block) : (dag.addBlock block).2.TipsStored := by
  rw [TipsStored, fits.tips, fits.grown.keys]
  exact Finset.insert_subset_insert _ (Finset.sdiff_subset.trans stored)

theorem TipsStored.tips_removed (stored : dag.TipsStored) (id : Hash) : (dag.removeBlock id).tips = dag.tips.erase id := by
  by_cases known : id ∈ dag.blocks.keys
  · obtain ⟨block, found⟩ := get_block_isSome.mpr known
    have lookup : dag.blocks.lookup id = some block := found
    simp only [removeBlock, lookup]
  · rw [remove_absent known, Finset.erase_eq_of_notMem fun tip => known (stored tip)]

theorem TipsStored.remove (stored : dag.TipsStored) (linked : dag.Linked) (id : Hash) : (dag.removeBlock id).TipsStored := by
  rw [TipsStored, stored.tips_removed, linked.keys_removed]
  exact Finset.erase_subset_erase id stored

theorem built_tips_stored (changes : List Change) : (built changes).TipsStored := by
  have steps : ∀ dag step, Linked dag ∧ TipsStored dag → (Dag.change dag step).Linked ∧ (Dag.change dag step).TipsStored := by
    rintro dag step ⟨linked, stored⟩
    refine ⟨linked.change step, ?_⟩
    cases step with
    | add block leaf =>
      rcases fits_or_refused leaf with fits | refused
      · exact stored.add fits
      · rw [change, refused]
        exact stored
    | remove id => exact stored.remove linked id
  exact (Runs.run_keeps (fun dag => Linked dag ∧ TipsStored dag) ⟨wellFormed_new.linked, Finset.Subset.refl _⟩ steps changes).2

end Tips

section Removing

theorem Linked.remove_all (linked : dag.Linked) (ids : List Hash) : (dag.removeAll ids).Linked :=
  Runs.run_keeps Linked linked (fun _ id linked => linked.remove id) ids

theorem Linked.get_block_removed_all (linked : dag.Linked) (ids : List Hash) (node : Hash) :
    (dag.removeAll ids).getBlock node =
      if node ∈ ids then none else (dag.getBlock node).map fun stored => stored.detachAll ids.toFinset := by
  induction ids using List.reverseRecOn with
  | nil =>
    have whole : (fun stored : BlockNode => stored.detachAll ([] : List Hash).toFinset) = id :=
      funext BlockNode.detach_all_empty
    rw [if_neg List.not_mem_nil, whole, Option.map_id, id]
    rfl
  | append_singleton ids id ih =>
    have whole : (ids ++ [id]).toFinset = insert id ids.toFinset := by
      rw [List.toFinset_append, Finset.insert_eq, Finset.union_comm]
      rfl
    rw [remove_all_snoc, (linked.remove_all ids).get_block_removed, ih, whole]
    by_cases last : node = id
    · simp [last]
    by_cases earlier : node ∈ ids
    · simp [earlier]
    · rw [if_neg last, if_neg earlier, if_neg (by simp [earlier, last]), Option.map_map]
      simp only [Function.comp_def, BlockNode.detach_detach_all]

theorem TipsStored.tips_removed_all (stored : dag.TipsStored) (linked : dag.Linked) (ids : List Hash) :
    (dag.removeAll ids).tips = dag.tips \ ids.toFinset ∧ (dag.removeAll ids).TipsStored := by
  induction ids using List.reverseRecOn with
  | nil => exact ⟨Finset.sdiff_empty.symm, stored⟩
  | append_singleton ids id ih =>
    rw [remove_all_snoc]
    refine ⟨?_, ih.2.remove (linked.remove_all ids) id⟩
    rw [ih.2.tips_removed, ih.1]
    ext node
    simp only [Finset.mem_erase, Finset.mem_sdiff, List.mem_toFinset, List.mem_append, List.mem_singleton]
    tauto

/-- Removals in any order and any number: what is left are the other blocks without links to the removed ones, and the other
tips; two lists of the same ids leave the same graph. -/
theorem removals_exact (changes : List Change) (ids others : List Hash) :
    (∀ node, ((built changes).removeAll ids).getBlock node =
      if node ∈ ids then none else ((built changes).getBlock node).map fun stored => stored.detachAll ids.toFinset) ∧
    ((built changes).removeAll ids).tips = (built changes).tips \ ids.toFinset ∧
    (ids.toFinset = others.toFinset → (built changes).removeAll ids = (built changes).removeAll others) := by
  have linked := built_linked changes
  have tips := fun ids => ((built_tips_stored changes).tips_removed_all linked ids).1
  refine ⟨linked.get_block_removed_all ids, tips ids, fun same => dag_ext (fun node => ?_) (by rw [tips, tips, same])⟩
  have member : node ∈ ids ↔ node ∈ others := by rw [← List.mem_toFinset, same, List.mem_toFinset]
  simp only [linked.get_block_removed_all, same, member]

end Removing

section Rewinding

/-- The ids of the blocks. -/
def idsOf (blocks : List BlockNode) : Finset Hash := (blocks.map (·.header.id)).toFinset

/-- Every block is accepted in its turn. -/
def FitAll (dag : Dag) (blocks : List BlockNode) : Prop :=
  Runs.Meets (fun dag block => (dag.addBlock block).2) dag Fits blocks

/-- What the blocks that were added left of a graph: the old blocks with new children only, and the tips they do not cover. -/
structure Extended (dag : Dag) (blocks : List BlockNode) (after : Dag) : Prop where
  linked : after.Linked
  tipsStored : after.TipsStored
  keys : after.blocks.keys = dag.blocks.keys ∪ idsOf blocks
  old : ∀ node ∈ dag.blocks.keys, (after.getBlock node).map (·.detachAll (idsOf blocks)) = dag.getBlock node
  fresh : Disjoint dag.blocks.keys (idsOf blocks)
  tips : after.tips \ idsOf blocks = dag.tips \ blocks.toFinset.biUnion fun block => block.header.parents

theorem ids_of_snoc (blocks : List BlockNode) (block : BlockNode) :
    idsOf (blocks ++ [block]) = insert block.header.id (idsOf blocks) := by
  ext id
  simp [idsOf]

/-- A graph is given back what it stored when a block it accepted is detached again. -/
theorem Linked.detach_added (linked : dag.Linked) (fits : dag.Fits block) (node : Hash) (ids : Finset Hash)
    (different : node ≠ block.header.id) :
    ((dag.addBlock block).2.getBlock node).map (·.detachAll (insert block.header.id ids)) =
      (dag.getBlock node).map (·.detachAll ids) := by
  rw [fits.get_block, if_neg different, Option.map_map]
  cases found : dag.getBlock node with
  | none => rfl
  | some stored =>
    -- nobody names an id that is not stored
    have unnamed : block.header.id ∉ stored.header.parents := fun named =>
      fits.absent (linked.stored _ node ⟨stored, found, named⟩)
    have unlisted : block.header.id ∉ stored.children := fun listed =>
      fits.absent (parent_of_stored ((linked.children node _).mp ⟨stored, found, listed⟩))
    have parents : stored.header.parents \ insert block.header.id ids = stored.header.parents \ ids := by
      rw [Finset.sdiff_insert, Finset.erase_eq_of_notMem fun member => unnamed (Finset.mem_sdiff.mp member).1]
    have children : stored.children \ insert block.header.id ids = stored.children \ ids := by
      rw [Finset.sdiff_insert, Finset.erase_eq_of_notMem fun member => unlisted (Finset.mem_sdiff.mp member).1]
    rw [Option.map_some, Option.map_some, Function.comp_apply]
    by_cases parent : node ∈ block.header.parents
    · rw [if_pos parent, BlockNode.detachAll, BlockNode.detachAll]
      dsimp only
      rw [Finset.insert_sdiff_of_mem _ (Finset.mem_insert_self _ _), parents, children]
    · rw [if_neg parent, BlockNode.detachAll, BlockNode.detachAll, parents, children]

theorem Extended.add {blocks : List BlockNode} (extended : dag.Extended blocks other) (fits : other.Fits block) :
    dag.Extended (blocks ++ [block]) (other.addBlock block).2 where
  linked := extended.linked.grow fits.grown
  tipsStored := extended.tipsStored.add fits
  keys := by rw [fits.grown.keys, extended.keys, ids_of_snoc, Finset.union_insert]
  old := by
    intro node known
    have different : node ≠ block.header.id := by
      rintro rfl
      exact fits.absent (extended.keys ▸ Finset.mem_union_left _ known)
    rw [ids_of_snoc, extended.linked.detach_added fits node _ different, extended.old node known]
  fresh := by
    have absent : block.header.id ∉ dag.blocks.keys := fun known =>
      fits.absent (extended.keys ▸ Finset.mem_union_left _ known)
    rw [ids_of_snoc]
    exact Finset.disjoint_insert_right.mpr ⟨absent, extended.fresh⟩
  tips := by
    have absent : block.header.id ∉ other.tips := fun tip => fits.absent (extended.tipsStored tip)
    have covered := Finset.ext_iff.mp extended.tips
    rw [fits.tips, ids_of_snoc, Finset.insert_sdiff_of_mem _ (Finset.mem_insert_self _ _)]
    ext node
    have same := covered node
    simp only [Finset.mem_sdiff, Finset.mem_biUnion, Finset.mem_insert, List.mem_toFinset, List.mem_append,
      List.mem_singleton] at same ⊢
    constructor
    · rintro ⟨⟨tip, free⟩, outside⟩
      obtain ⟨old, bare⟩ := same.mp ⟨tip, fun listed => outside (.inr listed)⟩
      refine ⟨old, ?_⟩
      rintro ⟨covering, added | rfl, named⟩
      · exact bare ⟨covering, added, named⟩
      · exact free named
    · rintro ⟨old, bare⟩
      obtain ⟨tip, outside⟩ := same.mpr ⟨old, fun ⟨covering, added, named⟩ => bare ⟨covering, .inl added, named⟩⟩
      refine ⟨⟨tip, fun named => bare ⟨block, .inr rfl, named⟩⟩, ?_⟩
      rintro (rfl | listed)
      · exact absent tip
      · exact outside listed

theorem FitAll.extended {blocks : List BlockNode} (linked : dag.Linked) (stored : dag.TipsStored) (fit : dag.FitAll blocks) :
    dag.Extended blocks (dag.addAll blocks) := by
  induction blocks using List.reverseRecOn with
  | nil =>
    refine ⟨linked, stored, (Finset.union_empty _).symm, fun node _ => ?_, Finset.disjoint_empty_right _, rfl⟩
    change (dag.getBlock node).map (·.detachAll ∅) = dag.getBlock node
    simp only [BlockNode.detach_all_empty, Option.map_id']
  | append_singleton blocks block ih =>
    obtain ⟨earlier, last⟩ := (Runs.meets_snoc _ _).mp fit
    rw [add_all_snoc]
    exact (ih earlier).add last

/-- Rewinding: removing what was added, in any order, gives back the blocks and their links. It gives back the whole graph
exactly when no added block had a tip for a parent: the tips that were covered do not come back. -/
theorem rewound_iff (changes : List Change) (blocks : List BlockNode) (order : List Hash) (fit : (built changes).FitAll blocks)
    (all : order.toFinset = idsOf blocks) :
    (∀ node, (((built changes).addAll blocks).removeAll order).getBlock node = (built changes).getBlock node) ∧
    (((built changes).addAll blocks).removeAll order = built changes ↔
      ∀ block ∈ blocks, ∀ parent ∈ block.header.parents, parent ∉ (built changes).tips) := by
  have extended := FitAll.extended (built_linked changes) (built_tips_stored changes) fit
  have restored : ∀ node,
      (((built changes).addAll blocks).removeAll order).getBlock node = (built changes).getBlock node := by
    intro node
    rw [extended.linked.get_block_removed_all, all]
    by_cases known : node ∈ (built changes).blocks.keys
    · have outside : node ∉ order := fun listed =>
        Finset.disjoint_left.mp extended.fresh known (all ▸ List.mem_toFinset.mpr listed)
      rw [if_neg outside, extended.old node known]
    · rw [get_block_none.mpr known]
      split
      · rfl
      · rename_i outside
        have absent : node ∉ ((built changes).addAll blocks).blocks.keys := by
          rw [extended.keys, Finset.mem_union, ← all, List.mem_toFinset]
          exact fun either => either.elim known outside
        rw [get_block_none.mpr absent, Option.map_none]
  have tips := (extended.tipsStored.tips_removed_all extended.linked order).1
  rw [all, extended.tips] at tips
  refine ⟨restored, fun same => ?_, fun uncovered => dag_ext restored ?_⟩
  · rw [same] at tips
    intro block added parent named tip
    rw [tips] at tip
    exact (Finset.mem_sdiff.mp tip).2 (Finset.mem_biUnion.mpr ⟨block, List.mem_toFinset.mpr added, named⟩)
  · rw [tips]
    refine Finset.sdiff_eq_self_of_disjoint (Finset.disjoint_right.mpr fun parent covered => ?_)
    obtain ⟨block, added, named⟩ := Finset.mem_biUnion.mp covered
    exact uncovered block (List.mem_toFinset.mp added) parent named

instance (dag : Dag) (block : BlockNode) : Decidable (dag.Fits block) :=
  decidable_of_iff (block.children = ∅ ∧ block.header.id ∉ dag.blocks.keys ∧ block.header.parents ⊆ dag.blocks.keys ∧
      (block.header.parents = ∅ ↔ dag.blocks.keys = ∅))
    ⟨fun ⟨leaf, absent, known, root⟩ => ⟨leaf, absent, known, root⟩,
      fun ⟨leaf, absent, known, root⟩ => ⟨leaf, absent, known, root⟩⟩

/-- A chain of two blocks. -/
def lineage : List Change := [.empty 1 ∅, .empty 2 {.replicate 1}]

/-- A block without transactions on another one. -/
def newcomer (id parent : UInt8) : BlockNode :=
  ⟨⟨.replicate id, {.replicate parent}, 0, 1, 0, .replicate 0, none, none⟩, ∅, none, ∅, ∅, 0, []⟩

theorem newcomers_fit : (built lineage).FitAll [newcomer 3 1, newcomer 4 2] := by
  unfold FitAll
  decide +kernel

/-- A block on the first one, which has a child already, comes and goes without a trace. A block on the tip does not. -/
theorem newcomers_rewound :
    ((built lineage).addAll [newcomer 3 1]).removeAll [.replicate 3] = built lineage ∧
      ((built lineage).addAll [newcomer 3 1, newcomer 4 2]).removeAll [.replicate 4, .replicate 3] ≠ built lineage := by
  have first : (built lineage).FitAll [newcomer 3 1] := ((Runs.meets_snoc [newcomer 3 1] (newcomer 4 2)).mp newcomers_fit).1
  have alone := rewound_iff lineage [newcomer 3 1] [.replicate 3] first (by decide +kernel)
  have both := rewound_iff lineage [newcomer 3 1, newcomer 4 2] [.replicate 4, .replicate 3] newcomers_fit (by decide +kernel)
  refine ⟨alone.2.mpr (by decide +kernel), fun same => absurd (both.2.mp same) (by decide +kernel)⟩

end Rewinding
end Dag
end Klomang
