import Klomang.Consensus.Processing

/-! Submitting a block: `add_block` followed by `process_block`. The blocks that
the submission revisits end up settled; the others keep what they had, which is
still right exactly when their selected parent lies in the past of the new block. -/
namespace Klomang.GhostDag

open Dag (WellFormed SameShape Grown PastOfNew Fits)

variable {ghostDag : GhostDag} {dag after other : Dag} {block : BlockNode} {id node : Hash}

/-- `add_block`, and `process_block` when it succeeds. -/
def submit (ghostDag : GhostDag) (dag : Dag) (block : BlockNode) : Dag :=
  match dag.addBlock block with
  | (.ok (), added) => ghostDag.processBlock added block.header.id
  | (.error _, unchanged) => unchanged

section Step

/-- A block that a submission revisits, seen from the graph before it. -/
def Revisited (dag : Dag) (block : BlockNode) (id : Hash) : Prop :=
  ∃ parent ∈ block.header.parents, id = parent ∨ dag.Past parent id

/-- What one submission does. -/
structure Submitted (ghostDag : GhostDag) (dag : Dag) (block : BlockNode) (after : Dag) : Prop where
  grown : dag.Grown block after
  consistent : Consistent after
  settled : ∀ id, id = block.header.id ∨ Revisited dag block id → ghostDag.Settled after id
  kept : ∀ id, id ≠ block.header.id → ¬ Revisited dag block id → colouringAt after id = colouringAt dag id

theorem added_keeps (fits : dag.Fits block) :
    ∀ id ≠ block.header.id, colouringAt (dag.addBlock block).2 id = colouringAt dag id := by
  intro id different
  rw [colouringAt, fits.get_block, if_neg different, Option.map_map, colouringAt]
  congr 1
  funext stored
  by_cases named : id ∈ block.header.parents <;> simp [named, BlockNode.colouring]

private theorem within_of_colouring (keys : dag.blocks.keys ⊆ after.blocks.keys)
    (same : colouringAt after id = colouringAt dag id) (within : Within dag id) : Within after id := by
  intro stored found
  rw [colouringAt, colouringAt, found, Option.map_some] at same
  obtain ⟨before, there, agree⟩ := Option.map_eq_some_iff.mp same.symm
  obtain ⟨blue, red⟩ := within before there
  have blueSame : before.blueSet = stored.blueSet := congrArg Colouring.blueSet agree
  have redSame : before.redSet = stored.redSet := congrArg Colouring.redSet agree
  rw [← blueSame, ← redSame]
  exact ⟨blue.trans keys, red.trans keys⟩

private theorem root_of_colouring (grown : dag.Grown block after) (consistent : Consistent dag)
    (different : id ≠ block.header.id) (same : colouringAt after id = colouringAt dag id)
    {stored : BlockNode} (found : after.getBlock id = some stored) (first : stored.header.parents = ∅) :
    stored.colouring = rootColouring := by
  have placed : after.place id = some (stored.header, stored.children) := by
    rw [Dag.place, found]
    rfl
  rw [grown.kept id different] at placed
  obtain ⟨old, there, rewritten⟩ := Option.map_eq_some_iff.mp placed
  obtain ⟨before, beforeFound, parts⟩ := Option.map_eq_some_iff.mp there
  have header : before.header = stored.header := (Prod.mk.inj parts).1.trans (Prod.mk.inj rewritten).1
  have coloured := consistent.root id before beforeFound (header ▸ first)
  rw [colouringAt, colouringAt, found, beforeFound, Option.map_some, Option.map_some, Option.some.injEq] at same
  rw [same, coloured]

/-- After `add_block` everything but the new block is in order. -/
theorem ready_added (consistent : Consistent dag) (fits : dag.Fits block) :
    Ready (dag.addBlock block).2 block.header.id where
  formed := consistent.formed.grow fits.grown
  root other different _ := root_of_colouring fits.grown consistent different (added_keeps fits other different)
  within other different := within_of_colouring (fits.grown.keys ▸ Finset.subset_insert _ _)
    (added_keeps fits other different) (consistent.within other)

/-- The blocks that a submission visits, seen from the graph before it. -/
theorem visited_iff (formed : dag.WellFormed) (fits : dag.Fits block) :
    id = block.header.id ∨ AtOrAbove (dag.addBlock block).2 block.header.parents id ↔
      id = block.header.id ∨ Revisited dag block id := by
  constructor
  · rintro (new | ⟨parent, named, same | path⟩)
    · exact .inl new
    · exact .inr ⟨parent, named, .inl same⟩
    · rcases (fits.grown.past formed).mp path with old | ⟨new, _⟩
      · exact .inr ⟨parent, named, .inr old⟩
      · exact .inl new
  · rintro (new | ⟨parent, named, same | path⟩)
    · exact .inl new
    · exact .inr ⟨parent, named, .inl same⟩
    · exact .inr ⟨parent, named, .inr ((fits.grown.past formed).mpr (.inl path))⟩

theorem submit_accepted (ghostDag : GhostDag) (fits : dag.Fits block) :
    ghostDag.submit dag block = ghostDag.processBlock (dag.addBlock block).2 block.header.id := by
  have accepted := fits.accepted
  unfold submit
  rcases added : dag.addBlock block with ⟨outcome, graph⟩
  rw [added] at accepted
  dsimp only at accepted
  rw [accepted]

/-- One submission extends the graph by a leaf, settles what it revisits and keeps the rest. -/
theorem submit_step (ghostDag : GhostDag) (consistent : Consistent dag) (fits : dag.Fits block) :
    Submitted ghostDag dag block (ghostDag.submit dag block) := by
  have found : (dag.addBlock block).2.getBlock block.header.id = some block := by
    rw [fits.get_block, if_pos rfl]
  obtain ⟨shape, after, settled, kept⟩ := process_step ghostDag (ready_added consistent fits) found
  rw [submit_accepted ghostDag fits]
  refine ⟨fits.grown.of_same_shape shape, after, ?_, ?_⟩
  · exact fun id visited => settled id ((visited_iff consistent.formed fits).mpr visited)
  · intro id different free
    have unvisited := (visited_iff consistent.formed fits).not.mpr (not_or.mpr ⟨different, free⟩)
    rw [colouringAt, kept id different (not_or.mp unvisited).2]
    exact added_keeps fits id different

end Step
end Klomang.GhostDag
