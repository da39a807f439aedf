import Klomang.Consensus.Colouring
import Klomang.Consensus.Sorting

/-! One call of `process_block`: the block is coloured once, and then every block of the
affected set in a parents-first order. What the loop visits ends up settled; the rest
keeps what it had. -/
namespace Klomang.GhostDag

open Dag (WellFormed SameShape Grown PastOfNew Fits)

variable {ghostDag : GhostDag} {dag after other : Dag} {block : BlockNode} {id node : Hash}

section Sorting

/-- To be among some parents or related to one of them is to be at or beyond one of them. -/
theorem named_or_related {parents : Finset Hash} {related : Hash → Prop} :
    (node ∈ parents ∨ ∃ parent ∈ parents, related parent) ↔ ∃ parent ∈ parents, node = parent ∨ related parent := by
  constructor
  · rintro (named | ⟨parent, named, path⟩)
    · exact ⟨node, named, .inl rfl⟩
    · exact ⟨parent, named, .inr path⟩
  · rintro ⟨parent, named, rfl | path⟩
    · exact .inl named
    · exact .inr ⟨parent, named, path⟩

/-- The blocks a submission revisits: the parents and everything above them. -/
theorem mem_affected_set (formed : dag.WellFormed) {parents : Finset Hash} :
    node ∈ affectedSet dag parents ↔ ∃ parent ∈ parents, node = parent ∨ dag.Past parent node := by
  simp only [affectedSet, Finset.mem_union, Finset.mem_biUnion, List.mem_toFinset,
    formed.mem_get_descendants_iff_past]
  exact named_or_related

end Sorting

section Sets

/-- The coloured sets are what is inherited and the anticone of the selected parent. -/
theorem build_blue_set_union (ghostDag : GhostDag) (dag : Dag) (selectedParent : Hash) (parents : List Hash) :
    (ghostDag.buildBlueSet dag selectedParent parents).1 ∪ (ghostDag.buildBlueSet dag selectedParent parents).2 =
      inherited dag selectedParent ∪ rivals dag selectedParent := by
  rw [build_blue_set_run, Cluster.run_union, Finset.union_empty]
  rfl

/-- The whole anticone of the selected parent is coloured. -/
theorem anticone_coloured (ghostDag : GhostDag) {parent : Hash} (member : node ∈ dag.getAnticone parent)
    (parents : List Hash) :
    node ∈ (ghostDag.buildBlueSet dag parent parents).1 ∨ node ∈ (ghostDag.buildBlueSet dag parent parents).2 := by
  rw [← Finset.mem_union, build_blue_set_union]
  exact Finset.mem_union_right _ (List.mem_toFinset.mpr member)

/-- The coloured sets of a block are stored blocks. -/
def Within (dag : Dag) (id : Hash) : Prop :=
  ∀ block, dag.getBlock id = some block → block.blueSet ⊆ dag.blocks.keys ∧ block.redSet ⊆ dag.blocks.keys

theorem build_blue_set_subset {parent : Hash} (known : parent ∈ dag.blocks.keys) (within : Within dag parent)
    (parents : List Hash) :
    (ghostDag.buildBlueSet dag parent parents).1 ⊆ dag.blocks.keys ∧
      (ghostDag.buildBlueSet dag parent parents).2 ⊆ dag.blocks.keys := by
  obtain ⟨stored, found⟩ := Dag.get_block_isSome.mpr known
  rw [← Finset.union_subset_iff, build_blue_set_union, Finset.union_subset_iff, inherited, found]
  refine ⟨Finset.insert_subset known (within stored found).1, fun candidate member => ?_⟩
  exact (Dag.mem_get_anticone.mp (List.mem_toFinset.mp member)).1

/-- `recompute_block` writes stored blocks only, whatever its own block held before. -/
theorem recompute_within (formed : dag.WellFormed) (within : ∀ other ≠ id, Within dag other)
    (inner : ∀ block, dag.getBlock id = some block → block.header.parents ≠ ∅) :
    ∀ other, Within (ghostDag.recomputeBlock dag id).2 other := by
  have shape := recompute_same_shape ghostDag formed id
  intro other stored found
  rw [shape.keys]
  by_cases same : other = id
  · subst same
    obtain ⟨before, there, _⟩ := shape.symm.find found
    obtain ⟨colouring, equation, written⟩ :=
      recompute_eq ghostDag formed there (inner before there)
    rw [written, get_block_set, if_pos rfl, Option.some.injEq] at found
    obtain ⟨selected, select, rfl⟩ := Option.map_eq_some_iff.mp equation
    have named := mem_ascending.mp (select_parent_mem select)
    have different : selected ≠ other := by
      rintro rfl
      obtain ⟨rank, ranked⟩ := formed.ranked
      exact Nat.lt_irrefl _ (ranked _ _ ⟨before, there, named⟩)
    rw [← found]
    exact build_blue_set_subset (formed.stored _ _ ⟨before, there, named⟩) (within selected different) _
  · rw [recompute_frame formed same] at found
    exact within other same stored found

theorem recompute_all_within (formed : dag.WellFormed) (within : ∀ other, Within dag other) (order : List Hash) :
    ∀ other, Within (ghostDag.recomputeAll dag order) other := by
  induction order generalizing dag with
  | nil => exact within
  | cons first rest ih =>
    have step : ∀ other, Within (ghostDag.recomputeBlock dag first).2 other := by
      cases found : dag.getBlock first with
      | none =>
        rw [recompute_missing found]
        exact within
      | some stored =>
        by_cases root : stored.header.parents = ∅
        · rw [recompute_root found root]
          exact within
        · refine recompute_within formed (fun other _ => within other) fun block there => ?_
          rw [← Option.some.inj (found.symm.trans there)]
          exact root
    exact ih (formed.of_same_shape (recompute_same_shape ghostDag formed first)) step

end Sets

/-- What holds between submissions, settled or not. -/
structure Consistent (dag : Dag) : Prop where
  formed : dag.WellFormed
  root : ∀ id block, dag.getBlock id = some block → block.header.parents = ∅ →
    block.colouring = rootColouring
  within : ∀ id, Within dag id

theorem consistent_new : Consistent Dag.new where
  formed := Dag.wellFormed_new
  root _ _ found := nomatch found
  within _ _ found := nomatch found

section Loop

/-- What `process_block` starts its loop on: the graph after the block's own colouring. -/
def loopStart (ghostDag : GhostDag) (dag : Dag) (blockHash : Hash) : Dag :=
  match dag.getBlock blockHash with
  | none => dag
  | some block =>
    if block.header.parents = ∅ then dag.setBlock blockHash (block.recolour rootColouring)
    else (ghostDag.recomputeBlock dag blockHash).2

/-- What the loop of `process_block` goes through. -/
def loopOrder (ghostDag : GhostDag) (dag : Dag) (blockHash : Hash) : List Hash :=
  match dag.getBlock blockHash with
  | none => []
  | some block =>
    let started := ghostDag.loopStart dag blockHash
    ghostDag.topologicalSort started (ascending (affectedSet started block.header.parents))

theorem process_block_loop (ghostDag : GhostDag) (dag : Dag) (blockHash : Hash) :
    ghostDag.processBlock dag blockHash =
      ghostDag.recomputeAll (ghostDag.loopStart dag blockHash) (ghostDag.loopOrder dag blockHash) := by
  unfold processBlock loopOrder loopStart
  cases dag.getBlock blockHash with
  | none => rfl
  | some block => rfl

/-- Above a block of a set, or in it. -/
def AtOrAbove (dag : Dag) (parents : Finset Hash) (id : Hash) : Prop :=
  ∃ parent ∈ parents, id = parent ∨ dag.Past parent id

/-- A graph in which everything but one block is known to be in order. -/
structure Ready (dag : Dag) (id : Hash) : Prop where
  formed : dag.WellFormed
  root : ∀ other ≠ id, ∀ stored, dag.getBlock other = some stored → stored.header.parents = ∅ →
    stored.colouring = rootColouring
  within : ∀ other ≠ id, Within dag other

/-- What the loop meets. -/
structure LoopReady (ghostDag : GhostDag) (dag : Dag) (block : BlockNode) (id : Hash) : Prop where
  shape : dag.SameShape (ghostDag.loopStart dag id)
  kept : ∀ other ≠ id, (ghostDag.loopStart dag id).getBlock other = dag.getBlock other
  root : ∀ other stored, (ghostDag.loopStart dag id).getBlock other = some stored →
    stored.header.parents = ∅ → stored.colouring = rootColouring
  within : ∀ other, Within (ghostDag.loopStart dag id) other
  listed : ∀ other, other ∈ ghostDag.loopOrder dag id ↔ AtOrAbove dag block.header.parents other
  nodup : (ghostDag.loopOrder dag id).Nodup
  ordered : (ghostDag.loopOrder dag id).Pairwise fun before after => ¬ dag.ParentOf after before

private theorem within_of_congr (same : dag.SameShape after) (agree : after.getBlock id = dag.getBlock id)
    (within : Within dag id) : Within after id := by
  intro stored found
  rw [same.keys]
  exact within stored (agree ▸ found)

private theorem within_root {stored : BlockNode} (found : dag.getBlock id = some stored)
    (coloured : stored.colouring = rootColouring) : Within dag id := by
  intro other there
  cases found.symm.trans there
  have blue : stored.blueSet = ∅ := congrArg Colouring.blueSet coloured
  have red : stored.redSet = ∅ := congrArg Colouring.redSet coloured
  rw [blue, red]
  exact ⟨Finset.empty_subset _, Finset.empty_subset _⟩

/-- The graph when the loop starts: it has the shape it had, and only one block is coloured anew. -/
structure LoopStarted (ghostDag : GhostDag) (dag : Dag) (id : Hash) : Prop where
  shape : dag.SameShape (ghostDag.loopStart dag id)
  kept : ∀ other ≠ id, (ghostDag.loopStart dag id).getBlock other = dag.getBlock other
  root : ∀ other stored, (ghostDag.loopStart dag id).getBlock other = some stored →
    stored.header.parents = ∅ → stored.colouring = rootColouring
  within : ∀ other, Within (ghostDag.loopStart dag id) other

private theorem loop_start_root (ghostDag : GhostDag) (ready : Ready dag id) (found : dag.getBlock id = some block)
    (first : block.header.parents = ∅) :
    LoopStarted ghostDag dag id := by
  have start : ghostDag.loopStart dag id = dag.setBlock id (block.recolour rootColouring) := by
    rw [loopStart, found]
    exact if_pos first
  have shape : dag.SameShape (ghostDag.loopStart dag id) := start ▸ same_shape_set found rfl rfl
  have kept : ∀ other ≠ id, (ghostDag.loopStart dag id).getBlock other = dag.getBlock other := by
    intro other different
    rw [start, get_block_set, if_neg different]
  have own : (ghostDag.loopStart dag id).getBlock id = some (block.recolour rootColouring) := by
    rw [start, get_block_set, if_pos rfl]
  refine ⟨shape, kept, fun other stored there root => ?_, fun other => ?_⟩
  · by_cases same : other = id
    · rw [same, own] at there
      cases there
      rfl
    · exact ready.root other same stored (kept other same ▸ there) root
  · by_cases same : other = id
    · rw [same]
      exact within_root own rfl
    · exact within_of_congr shape (kept other same) (ready.within other same)

private theorem loop_start_inner (ghostDag : GhostDag) (ready : Ready dag id) (found : dag.getBlock id = some block)
    (inner : block.header.parents ≠ ∅) :
    LoopStarted ghostDag dag id := by
  have start : ghostDag.loopStart dag id = (ghostDag.recomputeBlock dag id).2 := by
    rw [loopStart, found]
    exact if_neg inner
  have shape := recompute_same_shape ghostDag ready.formed id
  constructor <;> rw [start]
  · exact shape
  · exact fun other => recompute_frame ready.formed
  · intro other stored there root
    by_cases same : other = id
    · obtain ⟨before, beforeFound, header, _⟩ := shape.symm.find there
      rw [same, found] at beforeFound
      rw [← header, ← Option.some.inj beforeFound] at root
      exact absurd root inner
    · rw [recompute_frame ready.formed same] at there
      exact ready.root other same stored there root
  · apply recompute_within ready.formed ready.within
    intro stored there
    rw [← Option.some.inj (found.symm.trans there)]
    exact inner

/-- The loop goes through the parents and everything above them, parents first. -/
theorem loop_ready (ghostDag : GhostDag) (ready : Ready dag id) (found : dag.getBlock id = some block) :
    LoopReady ghostDag dag block id := by
  obtain ⟨shape, kept, root, within⟩ : LoopStarted ghostDag dag id := by
    by_cases first : block.header.parents = ∅
    · exact loop_start_root ghostDag ready found first
    · exact loop_start_inner ghostDag ready found first
  have formed := ready.formed.of_same_shape shape
  have affected : ∀ other, other ∈ affectedSet (ghostDag.loopStart dag id) block.header.parents ↔
      AtOrAbove dag block.header.parents other := by
    intro other
    simp only [mem_affected_set formed, AtOrAbove, shape.past]
  have order : ghostDag.loopOrder dag id = ghostDag.topologicalSort (ghostDag.loopStart dag id)
      (ascending (affectedSet (ghostDag.loopStart dag id) block.header.parents)) := by
    rw [loopOrder, found]
  have listing := topological_sort_listing ghostDag formed.linked
    (ascending (affectedSet (ghostDag.loopStart dag id) block.header.parents))
  rw [← order, toFinset_ascending] at listing
  refine ⟨shape, kept, root, within, fun other => ?_, listing.nodup, ?_⟩
  · rw [listing.complete, affected]
  · refine listing.ordered.imp_of_mem fun {before after} _ member free edge => free ?_
    exact mem_listed_parents.mpr ⟨shape.parent_of.mpr edge, mem_ascending.mpr ((listing.complete after).mp member)⟩

/-- What one call of `process_block` on a stored block does. -/
structure Processed (ghostDag : GhostDag) (dag : Dag) (block : BlockNode) (id : Hash) (after : Dag) : Prop where
  shape : dag.SameShape after
  consistent : Consistent after
  settled : ∀ node, node = id ∨ AtOrAbove dag block.header.parents node → ghostDag.Settled after node
  kept : ∀ node ≠ id, ¬ AtOrAbove dag block.header.parents node → after.getBlock node = dag.getBlock node

theorem process_step (ghostDag : GhostDag) (ready : Ready dag id) (found : dag.getBlock id = some block) :
    Processed ghostDag dag block id (ghostDag.processBlock dag id) := by
  obtain ⟨shape, keptStart, root, within, listed, nodup, ordered⟩ := loop_ready ghostDag ready found
  have formed := ready.formed.of_same_shape shape
  have orderedStart : (ghostDag.loopOrder dag id).Pairwise fun before after =>
      ¬ (ghostDag.loopStart dag id).ParentOf after before := by
    simpa only [shape.parent_of] using ordered
  have settled := recompute_all_settles ghostDag formed nodup orderedStart fun other _ => root other
  have finalShape := recompute_all_same_shape ghostDag formed (ghostDag.loopOrder dag id)
  rw [process_block_loop]
  have rootAfter : ∀ other stored, (ghostDag.recomputeAll (ghostDag.loopStart dag id)
      (ghostDag.loopOrder dag id)).getBlock other = some stored → stored.header.parents = ∅ →
      stored.colouring = rootColouring := by
    intro other stored there first
    by_cases member : other ∈ ghostDag.loopOrder dag id
    · exact (settled other member stored there).1 first
    · rw [recompute_all_frame formed member] at there
      exact root other stored there first
  refine ⟨shape.trans finalShape, ⟨formed.of_same_shape finalShape, rootAfter, ?_⟩, ?_, ?_⟩
  · exact recompute_all_within formed within _
  · intro node visited
    by_cases member : node ∈ ghostDag.loopOrder dag id
    · exact settled node member
    · -- a block outside its own loop has no parents
      rcases visited with rfl | above
      · intro stored there
        obtain ⟨before, beforeFound, header, _⟩ := (shape.trans finalShape).symm.find there
        rw [found] at beforeFound
        cases beforeFound
        refine ⟨fun first => rootAfter node stored there first, fun inner => absurd ?_ member⟩
        rw [← header] at inner
        obtain ⟨parent, named⟩ := Finset.nonempty_iff_ne_empty.mpr inner
        exact (listed node).mpr ⟨parent, named, .inr (.single ⟨block, found, named⟩)⟩
      · exact absurd ((listed node).mpr above) member
  · intro node different free
    rw [recompute_all_frame formed fun member => free ((listed node).mp member)]
    exact keptStart node different

end Loop
end Klomang.GhostDag
