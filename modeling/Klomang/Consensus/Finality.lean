import Klomang.Consensus.Reorganisation

/-! Finality. A block is final while the virtual block is far enough ahead of it. Both scores
change when a block comes in: the loop of `process_block` gives every block above the new one's
parents another score, and the virtual block is coloured anew. -/
namespace Klomang.GhostDag

variable {ghostDag : GhostDag} {dag after : Dag} {block stored : BlockNode} {blocks : List BlockNode} {id : Hash}
  {threshold : UInt64}

section Leads

/-- The score of the virtual block. -/
def virtualScore (ghostDag : GhostDag) (dag : Dag) : Nat := (ghostDag.buildVirtualBlock dag).blueScore.toNat

/-- How far the virtual block is ahead of a block. -/
def lead (ghostDag : GhostDag) (dag : Dag) (id : Hash) : Nat :=
  ghostDag.virtualScore dag - (storedScore dag id).toNat

theorem check_finality_iff :
    ghostDag.checkFinality dag id threshold = true ↔ max threshold.toNat finalityDepth ≤ ghostDag.lead dag id :=
  decide_eq_true_iff

theorem lead_lt (ghostDag : GhostDag) (dag : Dag) (id : Hash) : ghostDag.lead dag id < 2 ^ 64 :=
  (Nat.sub_le _ _).trans_lt (ghostDag.buildVirtualBlock dag).blueScore.toNat_lt

/-- The score that a block is due: what its parents and the graph give it, one for the first block. -/
def due (ghostDag : GhostDag) (dag : Dag) (id : Hash) : Nat :=
  match dag.getBlock id with
  | none => 0
  | some block => ((ghostDag.computed dag block.header.parents).map (·.blueScore.toNat)).getD 1

/-- A settled block has the score that it is due. -/
theorem Settled.score (settled : ghostDag.Settled dag id) : (storedScore dag id).toNat = ghostDag.due dag id := by
  unfold due
  cases found : dag.getBlock id with
  | none =>
    rw [storedScore, found]
    rfl
  | some block =>
    rw [stored_score_of_found found]
    dsimp only
    obtain ⟨first, inner⟩ := settled block found
    by_cases root : block.header.parents = ∅
    · have score : block.blueScore = 1 := congrArg Colouring.blueScore (first root)
      rw [score, root]
      rfl
    · have equation := inner root
      simp only [equation, Option.map_some, Option.getD_some]
      rfl

end Leads

section Step

/-- The blocks that come to the loop of `process_block` when a block comes in. -/
def revisited (ghostDag : GhostDag) (dag : Dag) (block : BlockNode) : Finset Hash :=
  (ghostDag.loopOrder (dag.addBlock block).2 block.header.id).toFinset

/-- A block that comes in spares the final blocks: none that the loop revisits is due a score that
grows by more than the virtual block's, and for the others the virtual block does not fall. -/
def SparesFinal (ghostDag : GhostDag) (dag : Dag) (block : BlockNode) : Prop :=
  ∀ id ∈ dag.blocks.keys, finalityDepth ≤ ghostDag.lead dag id →
    if id ∈ ghostDag.revisited dag block then
      ghostDag.due (ghostDag.receive dag block) id + ghostDag.virtualScore dag ≤
        (storedScore dag id).toNat + ghostDag.virtualScore (ghostDag.receive dag block)
    else ghostDag.virtualScore dag ≤ ghostDag.virtualScore (ghostDag.receive dag block)

instance (dag : Dag) (block : BlockNode) : Decidable (SparesFinal ghostDag dag block) := by
  unfold SparesFinal
  infer_instance

/-- One call of `process_block` leaves what it revisits with the score it is due, and the other
blocks with the score they had. -/
theorem Processed.scores (processed : Processed ghostDag dag stored id after) (ready : Ready dag id)
    (found : dag.getBlock id = some stored) (node : Hash) :
    (node ∈ ghostDag.loopOrder dag id → (storedScore after node).toNat = ghostDag.due after node) ∧
      (node ≠ id → node ∉ ghostDag.loopOrder dag id → storedScore after node = storedScore dag node) := by
  have listed := (loop_ready ghostDag ready found).listed node
  refine ⟨fun member => (processed.settled node (.inr (listed.mp member))).score, fun different outside => ?_⟩
  rw [storedScore, processed.kept node different fun above => outside (listed.mpr above), storedScore]

/-- What a block that comes in does to the scores of the blocks that are there. -/
theorem receive_scores (ghostDag : GhostDag) (consistent : Consistent dag) (leaf : Leaf block)
    (known : id ∈ dag.blocks.keys) :
    (id ∈ ghostDag.revisited dag block →
      (storedScore (ghostDag.receive dag block) id).toNat = ghostDag.due (ghostDag.receive dag block) id) ∧
    (id ∉ ghostDag.revisited dag block → storedScore (ghostDag.receive dag block) id = storedScore dag id) := by
  rw [revisited, List.mem_toFinset]
  rcases Dag.fits_or_refused leaf with fits | refused
  · have found : (dag.addBlock block).2.getBlock block.header.id = some block := by
      rw [fits.get_block, if_pos rfl]
    have different : id ≠ block.header.id := fun own => fits.absent (own ▸ known)
    have ready := ready_added consistent fits
    obtain ⟨visited, kept⟩ := (process_step ghostDag ready found).scores ready found id
    refine ⟨visited, fun outside => ?_⟩
    rw [receive, kept different outside, stored_score_congr (added_keeps fits id different)]
  rw [receive, refused]
  cases found : dag.getBlock block.header.id with
  | none =>
    rw [process_missing ghostDag found, loopOrder, found]
    exact ⟨fun member => absurd member List.not_mem_nil, fun _ => rfl⟩
  | some stored =>
    have ready := consistent.ready block.header.id
    have processed := process_step ghostDag ready found
    obtain ⟨visited, kept⟩ := processed.scores ready found id
    refine ⟨visited, fun outside => ?_⟩
    by_cases own : id = block.header.id
    · -- a block outside its own loop is the first one, before and after
      subst own
      have listed := (loop_ready ghostDag ready found).listed block.header.id
      have root : stored.header.parents = ∅ := by
        by_contra inner
        obtain ⟨parent, named⟩ := Finset.nonempty_iff_ne_empty.mpr inner
        exact outside (listed.mpr ⟨parent, named, .inr (.single ⟨stored, found, named⟩)⟩)
      obtain ⟨counterpart, there, header, _⟩ := processed.shape.find found
      have coloured := processed.consistent.root _ counterpart there (header ▸ root)
      have before := consistent.root _ stored found root
      rw [stored_score_of_found there, stored_score_of_found found]
      exact (congrArg Colouring.blueScore coloured).trans (congrArg Colouring.blueScore before).symm
    · exact kept own outside

/-- A block that comes in spares the final blocks exactly when the virtual block's lead over none
of them shrinks. -/
theorem spares_final_iff (consistent : Consistent dag) (leaf : Leaf block) :
    SparesFinal ghostDag dag block ↔ ∀ id ∈ dag.blocks.keys, finalityDepth ≤ ghostDag.lead dag id →
      ghostDag.lead dag id ≤ ghostDag.lead (ghostDag.receive dag block) id := by
  refine forall_congr' fun id => forall_congr' fun known => forall_congr' fun final => ?_
  obtain ⟨visited, kept⟩ := receive_scores ghostDag consistent leaf known
  have ahead : 0 < ghostDag.lead dag id := (show 0 < finalityDepth by decide).trans_le final
  unfold lead at ahead ⊢
  by_cases member : id ∈ ghostDag.revisited dag block
  · rw [if_pos member, ← visited member]
    omega
  · rw [if_neg member, kept member]
    omega

theorem receive_keeps (consistent : Consistent dag) (leaf : Leaf block) (known : id ∈ dag.blocks.keys) :
    id ∈ (ghostDag.receive dag block).blocks.keys := by
  rcases receive_cases ghostDag consistent leaf with ⟨fits, processed⟩ | ⟨_, _, _, processed⟩ | ⟨_, same⟩
  · rw [processed.shape.keys, fits.grown.keys]
    exact Finset.mem_insert_of_mem known
  · rw [processed.shape.keys]
    exact known
  · rw [same]
    exact known

end Step

section Runs

/-- What is final stays final, whatever comes in later. -/
def Irreversible (ghostDag : GhostDag) (blocks : List BlockNode) : Prop :=
  ∀ earlier later, earlier ++ later <+: blocks → ∀ id ∈ (ghostDag.dagOf earlier).blocks.keys, ∀ threshold,
    ghostDag.checkFinality (ghostDag.dagOf earlier) id threshold = true →
    ghostDag.checkFinality (ghostDag.dagOf (earlier ++ later)) id threshold = true

/-- Over the later blocks: the lead over a final block never shrinks. -/
theorem lead_kept {earlier later : List BlockNode} (leaves : ∀ block ∈ earlier ++ later, Leaf block)
    (spares : Runs.Meets ghostDag.receive Dag.new (SparesFinal ghostDag) (earlier ++ later))
    (known : id ∈ (ghostDag.dagOf earlier).blocks.keys)
    (final : finalityDepth ≤ ghostDag.lead (ghostDag.dagOf earlier) id) :
    id ∈ (ghostDag.dagOf (earlier ++ later)).blocks.keys ∧
      ghostDag.lead (ghostDag.dagOf earlier) id ≤ ghostDag.lead (ghostDag.dagOf (earlier ++ later)) id := by
  induction later using List.reverseRecOn with
  | nil =>
    rw [List.append_nil]
    exact ⟨known, le_rfl⟩
  | append_singleton later block ih =>
    rw [← List.append_assoc] at leaves spares ⊢
    obtain ⟨before, last⟩ := (Runs.meets_snoc _ _).mp spares
    have admitted : ∀ block ∈ earlier ++ later, Leaf block :=
      fun other member => leaves other (List.mem_append_left _ member)
    have leaf : Leaf block := leaves block (List.mem_append_right _ (List.mem_singleton_self block))
    obtain ⟨there, kept⟩ := ih admitted before
    have consistent := dag_of_consistent ghostDag admitted
    have step : ghostDag.dagOf (earlier ++ later ++ [block]) =
        ghostDag.receive (ghostDag.dagOf (earlier ++ later)) block := Runs.run_snoc block
    rw [step]
    refine ⟨receive_keeps consistent leaf there, kept.trans ?_⟩
    exact (spares_final_iff consistent leaf).mp last id there (final.trans kept)

/-- Two branches from the first block, one of two blocks and one of eleven. -/
def twoBranches : List BlockNode :=
  [emptyBlock 1 ∅, emptyBlock 3 {.replicate 1}, emptyBlock 4 {.replicate 3}, emptyBlock 5 {.replicate 1}] ++
    (List.range 10).map fun below =>
      emptyBlock (UInt8.ofNat (below + 6)) {.replicate (UInt8.ofNat (below + 5))}

/-- A third branch from the first block. -/
def lateSibling : BlockNode := emptyBlock 2 {.replicate 1}

/-- The block that all three branches start from. -/
def forkPoint : Hash := .replicate 1

theorem not_irreversible (earlier later : List BlockNode) (id : Hash) (threshold : UInt64)
    (lost : id ∈ (ghostDag.dagOf earlier).blocks.keys ∧
      ghostDag.checkFinality (ghostDag.dagOf earlier) id threshold = true ∧
      ghostDag.checkFinality (ghostDag.dagOf (earlier ++ later)) id threshold = false) :
    ¬ Irreversible ghostDag (earlier ++ later) := by
  intro irreversible
  have still := irreversible earlier later List.prefix_rfl id lost.1 threshold lost.2.1
  rw [lost.2.2] at still
  cases still

end Runs
end Klomang.GhostDag
