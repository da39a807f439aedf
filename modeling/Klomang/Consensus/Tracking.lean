import Klomang.Consensus.Submission

/-! Blocks as they come in: `add_block` and then `process_block`, whatever became of the first.
A property of one colouring that reads only the shape of the graph holds for every block of
every graph reached exactly when each call of `recompute_block` in the loops meets the
condition under which it passes from the selected parent to the block. -/
namespace Klomang.GhostDag

open Dag (WellFormed SameShape Grown Fits)

variable {ghostDag : GhostDag} {dag after other : Dag} {block : BlockNode} {id node : Hash}
  {blocks : List BlockNode}

/-- `add_block` followed by `process_block`. -/
def receive (ghostDag : GhostDag) (dag : Dag) (block : BlockNode) : Dag :=
  ghostDag.processBlock (dag.addBlock block).2 block.header.id

/-- The graph after the blocks have come in. -/
def dagOf (ghostDag : GhostDag) (blocks : List BlockNode) : Dag :=
  Runs.run ghostDag.receive Dag.new blocks

section Receiving

/-- Without children. -/
def Leaf (block : BlockNode) : Prop := block.children = ∅

instance (block : BlockNode) : Decidable (Leaf block) := by
  unfold Leaf
  infer_instance

theorem process_missing (ghostDag : GhostDag) (absent : dag.getBlock id = none) : ghostDag.processBlock dag id = dag := by
  unfold processBlock
  rw [absent]

theorem Consistent.ready (consistent : Consistent dag) (id : Hash) : Ready dag id where
  formed := consistent.formed
  root other _ := consistent.root other
  within other _ := consistent.within other

/-- What comes in is new and fits, is there already, or is refused and unknown. -/
theorem receive_cases (ghostDag : GhostDag) (consistent : Consistent dag) (leaf : Leaf block) :
    (dag.Fits block ∧ Processed ghostDag (dag.addBlock block).2 block block.header.id (ghostDag.receive dag block)) ∨
    (∃ stored, dag.getBlock block.header.id = some stored ∧
      ghostDag.receive dag block = ghostDag.processBlock dag block.header.id ∧
      Processed ghostDag dag stored block.header.id (ghostDag.receive dag block)) ∨
    dag.getBlock block.header.id = none ∧ ghostDag.receive dag block = dag := by
  rcases Dag.fits_or_refused leaf with fits | refused
  · have found : (dag.addBlock block).2.getBlock block.header.id = some block := by
      rw [fits.get_block, if_pos rfl]
    exact .inl ⟨fits, process_step ghostDag (ready_added consistent fits) found⟩
  · have result : ghostDag.receive dag block = ghostDag.processBlock dag block.header.id := by rw [receive, refused]
    cases found : dag.getBlock block.header.id with
    | some stored =>
      refine .inr (.inl ⟨stored, rfl, result, ?_⟩)
      rw [result]
      exact process_step ghostDag (consistent.ready _) found
    | none => exact .inr (.inr ⟨rfl, result.trans (process_missing ghostDag found)⟩)

theorem receive_consistent (ghostDag : GhostDag) (consistent : Consistent dag) (leaf : Leaf block) :
    Consistent (ghostDag.receive dag block) := by
  rcases receive_cases ghostDag consistent leaf with ⟨_, processed⟩ | ⟨_, _, _, processed⟩ | ⟨_, same⟩
  · exact processed.consistent
  · exact processed.consistent
  · rw [same]
    exact consistent

theorem dag_of_consistent (ghostDag : GhostDag) (leaves : ∀ block ∈ blocks, Leaf block) :
    Consistent (dagOf ghostDag blocks) :=
  Runs.run_invariant Consistent Leaf consistent_new
    (fun _ _ leaf consistent => receive_consistent ghostDag consistent leaf) blocks leaves

end Receiving

section Tracking

/-- A property of the colouring of one block. -/
abbrev ColouringProperty := Dag → Hash → Colouring → Prop

/-- The property at one block. -/
def HoldsAt (property : ColouringProperty) (dag : Dag) (id : Hash) : Prop :=
  ∀ block, dag.getBlock id = some block → property dag id block.colouring

instance (property : ColouringProperty) [∀ dag id colouring, Decidable (property dag id colouring)] (dag : Dag)
    (id : Hash) : Decidable (HoldsAt property dag id) :=
  decidable_of_iff (∀ block ∈ dag.getBlock id, property dag id block.colouring) Iff.rfl

/-- The property at every block. -/
def HoldsThroughout (property : ColouringProperty) (dag : Dag) : Prop := ∀ id, HoldsAt property dag id

/-- A condition on a block and the parent that `select_parent` picks for it in the graph that
`recompute_block` meets. -/
def AtSelected (ghostDag : GhostDag) (condition : Dag → Hash → Hash → Prop) (dag : Dag) (id : Hash) : Prop :=
  ∀ block, dag.getBlock id = some block → ∀ selectedParent,
    ghostDag.selectParent dag (ascending block.header.parents) = some selectedParent →
    condition dag id selectedParent

instance (condition : Dag → Hash → Hash → Prop) [∀ dag id parent, Decidable (condition dag id parent)]
    (dag : Dag) (id : Hash) : Decidable (AtSelected ghostDag condition dag id) :=
  decidable_of_iff (∀ block ∈ dag.getBlock id, ∀ selectedParent ∈
      ghostDag.selectParent dag (ascending block.header.parents), condition dag id selectedParent) Iff.rfl

/-- Every call of `recompute_block` in the loop of `process_block` meets the condition. -/
def LoopMeets (ghostDag : GhostDag) (condition : Dag → Hash → Hash → Prop) (dag : Dag) (id : Hash) : Prop :=
  Runs.Meets (fun dag descendant => (ghostDag.recomputeBlock dag descendant).2) (ghostDag.loopStart dag id)
    (AtSelected ghostDag condition) (ghostDag.loopOrder dag id)

instance (condition : Dag → Hash → Hash → Prop) [∀ dag id parent, Decidable (condition dag id parent)]
    (dag : Dag) (id : Hash) : Decidable (LoopMeets ghostDag condition dag id) := by
  unfold LoopMeets
  infer_instance

/-- Every call of `recompute_block` in the loops over a run meets the condition. -/
def RunMeets (ghostDag : GhostDag) (condition : Dag → Hash → Hash → Prop) (blocks : List BlockNode) : Prop :=
  Runs.Meets ghostDag.receive Dag.new
    (fun dag block => LoopMeets ghostDag condition (dag.addBlock block).2 block.header.id) blocks

instance (condition : Dag → Hash → Hash → Prop) [∀ dag id parent, Decidable (condition dag id parent)]
    (blocks : List BlockNode) : Decidable (RunMeets ghostDag condition blocks) := by
  unfold RunMeets
  infer_instance

/-- A property that reads the shape of the graph and the block's own colouring, is not touched by
new leaves, holds of the first block, and passes from the selected parent exactly under the
condition. -/
structure Tracks (ghostDag : GhostDag) (property : ColouringProperty) (condition : Dag → Hash → Hash → Prop) :
    Prop where
  shape : ∀ {dag other id colouring}, dag.SameShape other → property dag id colouring → property other id colouring
  grown : ∀ {dag block after id colouring}, dag.WellFormed → dag.Grown block after → id ∈ dag.blocks.keys →
    colouring.blueSet ⊆ dag.blocks.keys → property dag id colouring → property after id colouring
  root : ∀ {dag id}, property dag id rootColouring
  passes : ∀ {dag id parent stored} (parents : List Hash), dag.WellFormed → dag.getBlock parent = some stored →
    dag.ParentOf parent id → property dag parent stored.colouring →
    (property dag id (ghostDag.colouringFrom dag parents parent) ↔ condition dag id parent)

variable {property : ColouringProperty} {condition : Dag → Hash → Hash → Prop}

theorem HoldsAt.congr (tracks : Tracks ghostDag property condition) (same : dag.SameShape after)
    (agree : after.getBlock id = dag.getBlock id) (holds : HoldsAt property dag id) : HoldsAt property after id :=
  fun stored found => tracks.shape same (holds stored (agree ▸ found))

/-- One call of `recompute_block` establishes the property of its block exactly under the
condition, when the property holds of the parents. -/
theorem Tracks.recompute_iff (tracks : Tracks ghostDag property condition) (formed : dag.WellFormed)
    (root : ∀ stored, dag.getBlock id = some stored → stored.header.parents = ∅ → stored.colouring = rootColouring)
    (parents : ∀ parent, dag.ParentOf parent id → HoldsAt property dag parent) :
    HoldsAt property (ghostDag.recomputeBlock dag id).2 id ↔ AtSelected ghostDag condition dag id := by
  cases found : dag.getBlock id with
  | none =>
    rw [recompute_missing found]
    constructor
    · intro _ stored there
      cases found.symm.trans there
    · intro _ stored there
      cases found.symm.trans there
  | some stored =>
    by_cases first : stored.header.parents = ∅
    · rw [recompute_root found first]
      constructor
      · intro _ other there selectedParent selected
        cases found.symm.trans there
        have member := mem_ascending.mp (select_parent_mem selected)
        rw [first] at member
        exact absurd member (Finset.notMem_empty _)
      · intro _ other there
        rw [root other there (by cases found.symm.trans there; exact first)]
        exact tracks.root
    · have shape := recompute_same_shape ghostDag formed id
      obtain ⟨colouring, equation, written⟩ := recompute_eq ghostDag formed found first
      obtain ⟨selectedParent, selected, rfl⟩ := Option.map_eq_some_iff.mp equation
      have edge : dag.ParentOf selectedParent id := ⟨stored, found, mem_ascending.mp (select_parent_mem selected)⟩
      obtain ⟨parentBlock, parentFound⟩ := Dag.get_block_isSome.mpr (formed.stored _ _ edge)
      have passes := tracks.passes (ascending stored.header.parents) formed parentFound edge
        (parents selectedParent edge parentBlock parentFound)
      have own : (ghostDag.recomputeBlock dag id).2.getBlock id =
          some (stored.recolour (ghostDag.colouringFrom dag (ascending stored.header.parents) selectedParent)) := by
        rw [written, get_block_set, if_pos rfl]
      constructor
      · intro holds other there parent chosen
        cases found.symm.trans there
        cases selected.symm.trans chosen
        exact passes.mp (tracks.shape shape.symm (holds _ own))
      · intro meets other there
        cases own.symm.trans there
        exact tracks.shape shape (passes.mpr (meets stored found selectedParent selected))

/-- Over the loop: by induction on the order, in which no block comes before its parents. -/
theorem Tracks.loop_iff (tracks : Tracks ghostDag property condition) (formed : dag.WellFormed)
    {order : List Hash} (nodup : order.Nodup) (ordered : order.Pairwise fun before after => ¬ dag.ParentOf after before)
    (root : ∀ id stored, dag.getBlock id = some stored → stored.header.parents = ∅ → stored.colouring = rootColouring)
    (outside : ∀ id, id ∉ order → HoldsAt property dag id) :
    HoldsThroughout property (ghostDag.recomputeAll dag order) ↔
      Runs.Meets (fun dag descendant => (ghostDag.recomputeBlock dag descendant).2) dag
        (AtSelected ghostDag condition) order := by
  induction order generalizing dag with
  | nil => exact ⟨fun _ => Runs.meets_nil, fun _ id => outside id List.not_mem_nil⟩
  | cons first rest ih =>
    obtain ⟨once, nodupRest⟩ := List.nodup_cons.mp nodup
    obtain ⟨noParent, orderedRest⟩ := List.pairwise_cons.mp ordered
    have shape := recompute_same_shape ghostDag formed first
    have formedStep := formed.of_same_shape shape
    have rootStep : ∀ id stored, (ghostDag.recomputeBlock dag first).2.getBlock id = some stored →
        stored.header.parents = ∅ → stored.colouring = rootColouring := by
      intro id stored found empty
      by_cases same : id = first
      · rw [same] at found
        exact (recompute_settles ghostDag formed first (root first) stored found).1 empty
      · rw [recompute_frame formed same] at found
        exact root id stored found empty
    have parents : ∀ parent, dag.ParentOf parent first → HoldsAt property dag parent := by
      intro parent edge
      apply outside parent
      intro listed
      rcases List.mem_cons.mp listed with rfl | later
      · exact formed.past_irreflexive parent (.single edge)
      · exact noParent parent later edge
    have step := tracks.recompute_iff formed (root first) parents
    have afterStep : HoldsAt property (ghostDag.recomputeBlock dag first).2 first → ∀ id, id ∉ rest →
        HoldsAt property (ghostDag.recomputeBlock dag first).2 id := by
      intro here id absent
      by_cases same : id = first
      · exact same ▸ here
      · refine (outside id ?_).congr tracks shape (recompute_frame formed same)
        exact fun listed => (List.mem_cons.mp listed).elim same absent
    have orderedStep : rest.Pairwise fun before after =>
        ¬ (ghostDag.recomputeBlock dag first).2.ParentOf after before :=
      orderedRest.imp fun free edge => free (shape.parent_of.mp edge)
    rw [Runs.meets_cons, ← step]
    have remaining := ih formedStep nodupRest orderedStep rootStep
    constructor
    · intro throughout
      -- the first block is not touched again
      have here : HoldsAt property (ghostDag.recomputeBlock dag first).2 first := by
        have finalShape := recompute_all_same_shape ghostDag formedStep rest
        exact (throughout first).congr tracks finalShape.symm (recompute_all_frame formedStep once).symm
      exact ⟨here, (remaining (afterStep here)).mp throughout⟩
    · rintro ⟨here, meets⟩
      exact (remaining (afterStep here)).mpr meets

/-- Over one call of `process_block`. -/
theorem Tracks.process_iff (tracks : Tracks ghostDag property condition) (ready : Ready dag id)
    (found : dag.getBlock id = some block) (others : ∀ other ≠ id, HoldsAt property dag other) :
    HoldsThroughout property (ghostDag.processBlock dag id) ↔ LoopMeets ghostDag condition dag id := by
  obtain ⟨shape, kept, root, _, listed, nodup, ordered⟩ := loop_ready ghostDag ready found
  rw [process_block_loop]
  refine tracks.loop_iff (ready.formed.of_same_shape shape) nodup ?_ root fun other absent => ?_
  · simpa only [shape.parent_of] using ordered
  by_cases same : other = id
  · -- a block outside its own loop is the first one
    intro stored there
    subst same
    obtain ⟨before, beforeFound, header, _⟩ := shape.symm.find there
    cases found.symm.trans beforeFound
    by_cases first : block.header.parents = ∅
    · rw [root other stored there (header ▸ first)]
      exact tracks.root
    · obtain ⟨parent, named⟩ := Finset.nonempty_iff_ne_empty.mpr first
      exact absurd ((listed other).mpr ⟨parent, named, .inr (.single ⟨block, found, named⟩)⟩) absent
  · exact (others other same).congr tracks shape (kept other same)

/-- New leaves do not touch the property of the blocks that are there. -/
theorem Tracks.added (tracks : Tracks ghostDag property condition) (consistent : Consistent dag)
    (fits : dag.Fits block) (holds : HoldsThroughout property dag) :
    ∀ other ≠ block.header.id, HoldsAt property (dag.addBlock block).2 other := by
  intro other different stored found
  have same := added_keeps fits other different
  rw [colouringAt, found, colouringAt] at same
  obtain ⟨before, there, agree⟩ := Option.map_eq_some_iff.mp same.symm
  refine (congrArg (property (dag.addBlock block).2 other) agree).mp ?_
  exact tracks.grown consistent.formed fits.grown (Dag.get_block_isSome.mp ⟨before, there⟩)
    (consistent.within other before there).1 (holds other before there)

/-- One block coming in keeps the property exactly when the loop meets the condition. -/
theorem Tracks.receive_iff (tracks : Tracks ghostDag property condition) (consistent : Consistent dag)
    (leaf : Leaf block) (holds : HoldsThroughout property dag) :
    HoldsThroughout property (ghostDag.receive dag block) ↔
      LoopMeets ghostDag condition (dag.addBlock block).2 block.header.id := by
  rcases Dag.fits_or_refused leaf with fits | refused
  · have found : (dag.addBlock block).2.getBlock block.header.id = some block := by
      rw [fits.get_block, if_pos rfl]
    exact tracks.process_iff (ready_added consistent fits) found (tracks.added consistent fits holds)
  · rw [receive, refused]
    cases found : dag.getBlock block.header.id with
    | some stored => exact tracks.process_iff (consistent.ready _) found fun other _ => holds other
    | none =>
      have nothing : ghostDag.loopOrder dag block.header.id = [] := by rw [loopOrder, found]
      rw [process_missing ghostDag found, LoopMeets, nothing]
      exact ⟨fun _ => Runs.meets_nil, fun _ => holds⟩

/-- The property holds of every block of every graph reached exactly when every loop meets the
condition. -/
theorem Tracks.always_iff (tracks : Tracks ghostDag property condition) (leaves : ∀ block ∈ blocks, Leaf block) :
    Runs.Always ghostDag.receive Dag.new (HoldsThroughout property) blocks ↔ RunMeets ghostDag condition blocks := by
  refine Runs.always_iff_meets Consistent (HoldsThroughout property) consistent_new ?_ ?_ ?_ blocks leaves
  · intro id stored found
    cases found
  · exact fun _ _ leaf consistent => receive_consistent ghostDag consistent leaf
  · exact fun _ _ leaf consistent holds => tracks.receive_iff consistent leaf holds

end Tracking
end Klomang.GhostDag
