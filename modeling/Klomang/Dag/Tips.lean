import Klomang.Dag.Changes
import Mathlib.Data.Finset.Max

/-! The tips. `add_block` keeps them equal to the blocks without children; `remove_block` takes
the removed block away and does not look at the parents it leaves without children. -/
namespace Klomang.Dag
variable {dag after : Dag} {block : BlockNode} {id node parent child : Hash}

/-- The stored blocks without children. -/
def childless (dag : Dag) : Finset Hash := dag.blocks.keys.filter fun id => dag.childrenOf id = []

theorem mem_childless : node ∈ dag.childless ↔ node ∈ dag.blocks.keys ∧ ∀ child, ¬ dag.ChildOf child node := by
  rw [childless, Finset.mem_filter, List.eq_nil_iff_forall_not_mem]
  simp only [mem_children_of]

/-- `get_tips` lists the blocks without children in order, and there is one in every graph that
is not empty. -/
def TipsExact (dag : Dag) : Prop :=
  dag.getTips = ascending dag.childless ∧ (dag.blocks.keys ≠ ∅ → dag.getTips ≠ [])

instance (dag : Dag) : Decidable dag.TipsExact := by
  unfold TipsExact
  infer_instance

/-- A block of the highest rank has no children. -/
theorem Linked.childless_nonempty (linked : dag.Linked) (filled : dag.blocks.keys ≠ ∅) : dag.childless.Nonempty := by
  obtain ⟨rank, ranked⟩ := linked.ranked
  obtain ⟨top, known, highest⟩ :=
    Finset.exists_max_image dag.blocks.keys rank (Finset.nonempty_iff_ne_empty.mpr filled)
  refine ⟨top, mem_childless.mpr ⟨known, fun child edge => ?_⟩⟩
  have above := (linked.children top child).mp edge
  exact absurd (ranked top child above) (Nat.not_lt.mpr (highest child (parent_of_stored above)))

theorem Linked.tips_iff (linked : dag.Linked) : dag.TipsExact ↔ dag.tips = dag.childless := by
  constructor
  · intro exact
    rw [← toFinset_ascending dag.tips, ← toFinset_ascending dag.childless]
    exact congrArg List.toFinset exact.1
  · intro same
    refine ⟨by rw [getTips, same], fun filled none => ?_⟩
    obtain ⟨tip, bare⟩ := linked.childless_nonempty filled
    have listed : tip ∈ dag.getTips := mem_ascending.mpr (same ▸ bare)
    simp only [none] at listed
    exact absurd listed List.not_mem_nil

section Adding

theorem Fits.tips (fits : dag.Fits block) :
    (dag.addBlock block).2.tips = insert block.header.id (dag.tips \ block.header.parents) := by
  have notSecond : ¬ (block.header.parents = ∅ ∧ dag.blocks.keys ≠ ∅) := fun both => both.2 (fits.root.mp both.1)
  rw [addBlock]
  simp only [fits.absent, fits.not_own_parent, notSecond, fits.known, not_true_eq_false, ↓reduceIte]

/-- A new leaf has no children, and its parents have one. -/
theorem Grown.childless (grown : dag.Grown block after) (linked : dag.Linked) :
    after.childless = insert block.header.id (dag.childless \ block.header.parents) := by
  ext node
  simp only [mem_childless, Finset.mem_insert, Finset.mem_sdiff, grown.keys, grown.child_of]
  constructor
  · rintro ⟨new | old, bare⟩
    · exact .inl new
    · exact .inr ⟨⟨old, fun child edge => bare child (.inl edge)⟩, fun named => bare _ (.inr ⟨rfl, named⟩)⟩
  · rintro (rfl | ⟨⟨old, bare⟩, free⟩)
    · refine ⟨.inl rfl, fun child edge => ?_⟩
      rcases edge with old | ⟨_, own⟩
      · exact grown.fits.absent (linked.stored _ _ ((linked.children _ _).mp old))
      · exact grown.fits.not_own_parent own
    · refine ⟨.inr old, fun child edge => ?_⟩
      rcases edge with edge | ⟨_, named⟩
      · exact bare child edge
      · exact free named

/-- `add_block` keeps the tips exact, whether it takes the block or not. -/
theorem Linked.tips_added (linked : dag.Linked) (leaf : block.children = ∅) (exact : dag.tips = dag.childless) :
    (dag.addBlock block).2.tips = (dag.addBlock block).2.childless := by
  rcases fits_or_refused leaf with fits | refused
  · rw [fits.tips, fits.grown.childless linked, exact]
  · rw [refused, exact]

end Adding

section Removing

theorem Linked.childless_removed (linked : dag.Linked) :
    node ∈ (dag.removeBlock id).childless ↔
      node ≠ id ∧ node ∈ dag.blocks.keys ∧ ∀ child, dag.ChildOf child node → child = id := by
  simp only [mem_childless, linked.keys_removed, Finset.mem_erase, linked.child_of_removed, and_assoc]
  constructor
  · rintro ⟨different, known, bare⟩
    refine ⟨different, known, fun child edge => ?_⟩
    by_contra other
    exact bare child ⟨different, other, edge⟩
  · rintro ⟨different, known, only⟩
    exact ⟨different, known, fun child ⟨_, other, edge⟩ => other (only child edge)⟩

/-- Every parent of the block has another child. -/
def SharesParents (dag : Dag) (id : Hash) : Prop :=
  ∀ parent, dag.ParentOf parent id → ∃ sibling ≠ id, dag.ParentOf parent sibling

/-- `remove_block` keeps the tips exact exactly when it leaves no parent without children. -/
theorem Linked.tips_removed_iff (linked : dag.Linked) (exact : dag.tips = dag.childless) :
    (dag.removeBlock id).tips = (dag.removeBlock id).childless ↔ dag.SharesParents id := by
  by_cases known : id ∈ dag.blocks.keys
  · obtain ⟨block, found⟩ := get_block_isSome.mpr known
    have lookup : dag.blocks.lookup id = some block := found
    have tips : (dag.removeBlock id).tips = dag.childless.erase id := by
      rw [← exact]
      simp only [removeBlock, lookup]
    rw [tips, Finset.ext_iff]
    simp only [Finset.mem_erase, linked.childless_removed, mem_childless]
    constructor
    · intro same parent edge
      by_contra alone
      have only : ∀ child, dag.ChildOf child parent → child = id := by
        intro child other
        by_contra different
        exact alone ⟨child, different, (linked.children parent child).mp other⟩
      have different : parent ≠ id := fun own => linked.past_irreflexive id (.single (own ▸ edge))
      have bare := ((same parent).mpr ⟨different, linked.stored _ _ edge, only⟩).2.2
      exact bare id ((linked.children parent id).mpr edge)
    · intro shares node
      refine and_congr_right fun different => and_congr_right fun stored => ?_
      refine ⟨fun bare child edge => absurd edge (bare child), fun only child edge => ?_⟩
      have same := only child edge
      simp only [same] at edge
      obtain ⟨sibling, other, further⟩ := shares node ((linked.children node id).mp edge)
      exact other (only sibling ((linked.children node sibling).mpr further))
  · rw [remove_absent known]
    exact ⟨fun _ parent edge => absurd (parent_of_stored edge) known, fun _ => exact⟩

end Removing

/-- A change that leaves no block bare: an addition, or the removal of a block all of whose
parents have other children. -/
def LeavesNoneBare (dag : Dag) : Change → Prop
  | .add _ _ => True
  | .remove id => dag.SharesParents id

/-- Tips over any additions and removals. They are exact in every graph reached exactly when no
removal leaves a parent of the removed block without children. -/
theorem tips_exact_iff (changes : List Change) :
    Runs.Always Dag.change Dag.new TipsExact changes ↔ Runs.Meets Dag.change Dag.new LeavesNoneBare changes := by
  have admitted : ∀ step ∈ changes, (fun _ : Change => True) step := fun _ _ => trivial
  refine Runs.always_iff_meets Linked TipsExact wellFormed_new.linked ?_ ?_ ?_ changes admitted
  · exact ⟨rfl, fun filled => absurd rfl filled⟩
  · exact fun _ step _ linked => linked.change step
  · intro dag step _ linked exact
    rw [(linked.change step).tips_iff]
    simp only [linked.tips_iff] at exact
    cases step with
    | add block leaf => exact ⟨fun _ => trivial, fun _ => linked.tips_added leaf exact⟩
    | remove id => exact linked.tips_removed_iff exact

/-- Removing the only child of the first block leaves a graph without tips. -/
theorem only_child_removed :
    ¬ (built [.empty 1 ∅, .empty 2 {.replicate 1}, .remove (.replicate 2)]).TipsExact := by
  decide +kernel

end Klomang.Dag
